import Mathlib

/-!
# Ordered maps

`std::map` is `Std.TreeMap`: ordered by the key, one entry a key, `insert` of
C++ being `insertIfNew`. `insertRange` is the range `insert`, which leaves the
entries that are there; `total` sums a measure over the values, and
`total_insertRange` says how a range insert changes it.
-/

namespace Base

variable {κ α : Type} [Ord κ]

/-- `m.insert(n.begin(), n.end())`: the entries of `n` whose key `m` does not have. -/
def insertRange (m n : Std.TreeMap κ α) : Std.TreeMap κ α :=
  n.toList.foldl (fun m p => m.insertIfNew p.1 p.2) m

def total (f : α → Nat) (m : Std.TreeMap κ α) : Nat := (m.toList.map fun p => f p.2).sum

/-- The measure of the entries of `n` whose key is not in `m`. -/
def newTotal (f : α → Nat) (m n : Std.TreeMap κ α) : Nat :=
  ((n.toList.filter fun p => p.1 ∉ m).map fun p => f p.2).sum

variable [Std.TransOrd κ] [Std.LawfulEqOrd κ]

theorem nodup_toList (m : Std.TreeMap κ α) : m.toList.Nodup :=
  Std.TreeMap.distinct_keys_toList.imp fun {a b} h e => h (by
    rw [e]; exact Std.ReflCmp.compare_self)

theorem getElem?_insert [DecidableEq κ] (m : Std.TreeMap κ α) (k : κ) (v : α) (a : κ) :
    (m.insert k v)[a]? = if a = k then some v else m[a]? := by
  rw [Std.TreeMap.getElem?_insert]
  by_cases ha : a = k
  · subst ha
    rw [if_pos Std.ReflCmp.compare_self, if_pos rfl]
  · rw [if_neg fun e => ha (Std.LawfulEqCmp.eq_of_compare e).symm, if_neg ha]

theorem toList_insertIfNew_perm {m : Std.TreeMap κ α} {k : κ} (v : α) (h : k ∉ m) :
    (m.insertIfNew k v).toList.Perm ((k, v) :: m.toList) := by
  have hk : m[k]? = none := Std.TreeMap.getElem?_eq_none h
  refine (List.perm_ext_iff_of_nodup (nodup_toList _) ?_).mpr ?_
  · refine List.nodup_cons.mpr ⟨fun hm => ?_, nodup_toList m⟩
    rw [Std.TreeMap.mem_toList_iff_getElem?_eq_some, hk] at hm
    cases hm
  · rintro ⟨a, w⟩
    rw [Std.TreeMap.mem_toList_iff_getElem?_eq_some, Std.TreeMap.getElem?_insertIfNew, List.mem_cons,
      Std.TreeMap.mem_toList_iff_getElem?_eq_some, Prod.mk.injEq]
    by_cases hka : k = a
    · subst hka
      simp [h, eq_comm]
    · have hne : compare k a ≠ .eq := fun e => hka (Std.LawfulEqCmp.eq_of_compare e)
      simp [hne, Ne.symm hka]

theorem insertIfNew_toList_of_mem {m : Std.TreeMap κ α} {k : κ} (v : α) (h : k ∈ m) :
    (m.insertIfNew k v).toList.Perm m.toList := by
  apply (List.perm_ext_iff_of_nodup (nodup_toList _) (nodup_toList _)).mpr
  rintro ⟨a, w⟩
  simp [Std.TreeMap.mem_toList_iff_getElem?_eq_some, Std.TreeMap.getElem?_insertIfNew, h]

theorem total_insertIfNew {f : α → Nat} {m : Std.TreeMap κ α} {k : κ} {v : α} :
    total f (m.insertIfNew k v) = if k ∈ m then total f m else f v + total f m := by
  split
  · next h => exact ((insertIfNew_toList_of_mem v h).map _).sum_nat
  · next h => exact ((toList_insertIfNew_perm v h).map _).sum_nat

theorem getElem?_foldl_insertIfNew (l : List (κ × α)) (m : Std.TreeMap κ α) (k : κ) :
    (l.foldl (fun m p => m.insertIfNew p.1 p.2) m)[k]? =
      m[k]?.or ((l.find? fun p => compare p.1 k == .eq).map Prod.snd) := by
  induction l generalizing m with
  | nil => simp
  | cons p l ih =>
    rw [List.foldl_cons, ih, Std.TreeMap.getElem?_insertIfNew, List.find?_cons]
    by_cases hp : compare p.1 k = .eq
    · have hpk : p.1 = k := Std.LawfulEqCmp.eq_of_compare hp
      by_cases hm : p.1 ∈ m
      · obtain ⟨v, hv⟩ : ∃ v, m[k]? = some v := by
          rw [← hpk]; exact Option.isSome_iff_exists.mp (Std.TreeMap.isSome_getElem?_iff_mem.mpr hm)
        simp [hp, hm, hv]
      · have hv : m[k]? = none := by rw [← hpk]; exact Std.TreeMap.getElem?_eq_none hm
        simp [hp, hm, hv]
    · have hb : (compare p.1 k == .eq) = false := by simpa using hp
      simp [hp, hb]

theorem find?_eq_lookup [BEq κ] [LawfulBEq κ] (l : List (κ × α)) (k : κ) :
    (l.find? fun p => compare p.1 k == .eq).map Prod.snd = l.lookup k := by
  induction l with
  | nil => rfl
  | cons p l ih =>
    rw [List.find?_cons, List.lookup_cons]
    by_cases hp : compare p.1 k = .eq
    · obtain rfl : p.1 = k := Std.LawfulEqCmp.eq_of_compare hp
      simp
    · have hne : k ≠ p.1 := fun he => hp (he ▸ Std.ReflCmp.compare_self)
      have hb : (compare p.1 k == .eq) = false := by simpa using hp
      rw [hb, beq_false_of_ne hne]
      exact ih

/-- Each key keeps its entry; a key only `n` has gets the entry of `n`. -/
theorem getElem?_insertRange (m n : Std.TreeMap κ α) (k : κ) :
    (insertRange m n)[k]? = m[k]?.or n[k]? := by
  rw [insertRange, getElem?_foldl_insertIfNew]
  congr 1
  cases hn : n[k]? with
  | none =>
    have hk : k ∉ n := by
      rw [← Std.TreeMap.isSome_getElem?_iff_mem, hn]; simp
    rw [Std.TreeMap.find?_toList_eq_none_iff_not_mem.mpr hk, Option.map_none]
  | some v =>
    have hk : k ∈ n := by rw [← Std.TreeMap.isSome_getElem?_iff_mem, hn]; rfl
    rw [Std.TreeMap.find?_toList_eq_some_iff_getKey?_eq_some_and_getElem?_eq_some.mpr
      ⟨Std.TreeMap.getKey?_eq_some hk, hn⟩, Option.map_some]

theorem total_foldl_insertIfNew {f : α → Nat} (l : List (κ × α))
    (hl : l.Pairwise fun p q => ¬ compare p.1 q.1 = .eq) (m : Std.TreeMap κ α) :
    total f (l.foldl (fun m p => m.insertIfNew p.1 p.2) m) =
      total f m + ((l.filter fun p => p.1 ∉ m).map fun p => f p.2).sum := by
  induction l generalizing m with
  | nil => simp
  | cons p l ih =>
    obtain ⟨hp, hl⟩ := List.pairwise_cons.mp hl
    -- the later keys are other keys, so inserting `p` does not change which of them are new
    have hf : (l.filter fun q => q.1 ∉ m.insertIfNew p.1 p.2) = l.filter fun q => q.1 ∉ m :=
      List.filter_congr fun q hq => by simp [hp q hq]
    rw [List.foldl_cons, ih hl, hf, total_insertIfNew]
    by_cases h : p.1 ∈ m
    · simp [h]
    · simp [h]; omega

/-- **A range insert adds the measure of the new keys.** -/
theorem total_insertRange (f : α → Nat) (m n : Std.TreeMap κ α) :
    total f (insertRange m n) = total f m + newTotal f m n :=
  total_foldl_insertIfNew n.toList Std.TreeMap.distinct_keys_toList m

/-! ## The order of the entries -/

theorem toList_congr {m n : Std.TreeMap κ α} (h : ∀ k : κ, m[k]? = n[k]?) : m.toList = n.toList :=
  (Std.TreeMap.Equiv.of_forall_constGet?_eq h).toList_eq

theorem getElem?_insertRange_of_mem {m n : Std.TreeMap κ α} (h : ∀ k ∈ n, k ∈ m) (k : κ) :
    (insertRange m n)[k]? = m[k]? := by
  rw [getElem?_insertRange]
  cases hn : n[k]? with
  | none => rw [Option.or_none]
  | some v =>
    have hk : k ∈ n := Std.TreeMap.isSome_getElem?_iff_mem.mp (by rw [hn]; rfl)
    obtain ⟨w, hw⟩ := Option.isSome_iff_exists.mp
      (Std.TreeMap.isSome_getElem?_iff_mem.mpr (h k hk))
    rw [hw, Option.some_or]

theorem toList_insertRange_of_mem {m n : Std.TreeMap κ α} (h : ∀ k ∈ n, k ∈ m) :
    (insertRange m n).toList = m.toList :=
  toList_congr (getElem?_insertRange_of_mem h)

theorem mem_of_toList_insertRange {m n : Std.TreeMap κ α} (h : (insertRange m n).toList = m.toList)
    {k : κ} (hk : k ∈ n) : k ∈ m := by
  obtain ⟨v, hv⟩ := Option.isSome_iff_exists.mp (Std.TreeMap.isSome_getElem?_iff_mem.mpr hk)
  by_contra hm
  have hins : (insertRange m n)[k]? = some v := by
    rw [getElem?_insertRange, Std.TreeMap.getElem?_eq_none hm, Option.none_or, hv]
  have hmem := Std.TreeMap.mem_toList_iff_getElem?_eq_some.mpr hins
  rw [h, Std.TreeMap.mem_toList_iff_getElem?_eq_some, Std.TreeMap.getElem?_eq_none hm] at hmem
  cases hmem

theorem toList_foldl_insertIfNew_perm (l : List (κ × α)) (hl : (l.map Prod.fst).Nodup)
    (m : Std.TreeMap κ α) (hm : ∀ p ∈ l, p.1 ∉ m) :
    (l.foldl (fun m p => m.insertIfNew p.1 p.2) m).toList.Perm (m.toList ++ l) := by
  induction l generalizing m with
  | nil => rw [List.append_nil]; exact List.Perm.refl _
  | cons p l ih =>
    rw [List.map_cons, List.nodup_cons] at hl
    have hrest : ∀ q ∈ l, q.1 ∉ m.insertIfNew p.1 p.2 := by
      intro q hq
      rw [Std.TreeMap.mem_insertIfNew]
      rintro (he | hmem)
      · exact hl.1 (List.mem_map.mpr ⟨q, hq, (Std.LawfulEqCmp.eq_of_compare he).symm⟩)
      · exact hm q (List.mem_cons_of_mem _ hq) hmem
    apply (ih hl.2 _ hrest).trans
    apply ((toList_insertIfNew_perm p.2 (hm p List.mem_cons_self)).append_right l).trans
    exact List.perm_middle.symm

/-- The entries in front of a key are those with a smaller one. -/
theorem take_toList {m : Std.TreeMap κ α} {i : Nat} {k : κ} {v : α}
    (h : m.toList[i]? = some (k, v)) :
    m.toList.take i = m.toList.filter fun p => compare p.1 k == .lt := by
  obtain ⟨hi, hv⟩ := List.getElem?_eq_some_iff.mp h
  have hord : m.toList.Pairwise fun p q => compare p.1 q.1 = .lt :=
    Std.TreeMap.ordered_keys_toList
  have hsplit : m.toList = m.toList.take i ++ (k, v) :: m.toList.drop (i + 1) := by
    rw [← hv, List.getElem_cons_drop, List.take_append_drop]
  rw [hsplit, List.pairwise_append, List.pairwise_cons] at hord
  obtain ⟨-, ⟨hafter, -⟩, hbefore⟩ := hord
  have h1 : (m.toList.take i).filter (fun p => compare p.1 k == .lt) = m.toList.take i := by
    apply List.filter_eq_self.mpr
    intro p hp
    rw [hbefore p hp (k, v) List.mem_cons_self]
    rfl
  have h2 : (m.toList.drop (i + 1)).filter (fun p => compare p.1 k == .lt) = [] := by
    apply List.filter_eq_nil_iff.mpr
    intro p hp hlt
    have hgt := Std.OrientedCmp.gt_of_lt (hafter p hp)
    rw [hgt] at hlt
    cases hlt
  have hrefl : compare k k = .eq := Std.ReflCmp.compare_self
  have h3 : (compare k k == Ordering.lt) = false := by rw [hrefl]; rfl
  conv_rhs => rw [hsplit]
  rw [List.filter_append, List.filter_cons, h3, h1, h2, if_neg Bool.false_ne_true, List.append_nil]

theorem mem_of_mem_toList {m : Std.TreeMap κ α} {p : κ × α} (h : p ∈ m.toList) : p.1 ∈ m := by
  have hv := Std.TreeMap.mem_toList_iff_getElem?_eq_some.mp h
  exact Std.TreeMap.isSome_getElem?_iff_mem.mp (by rw [hv]; rfl)

theorem mem_insertRange {m n : Std.TreeMap κ α} {k : κ} : k ∈ insertRange m n ↔ k ∈ m ∨ k ∈ n := by
  rw [← Std.TreeMap.isSome_getElem?_iff_mem, getElem?_insertRange, Option.isSome_or,
    Bool.or_eq_true, Std.TreeMap.isSome_getElem?_iff_mem, Std.TreeMap.isSome_getElem?_iff_mem]

end Base
