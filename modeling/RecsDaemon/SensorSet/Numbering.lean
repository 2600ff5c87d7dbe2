import RecsDaemon.SensorSet
import RecsDaemon.Base.Distinct
import RecsDaemon.Base.Except

/-!
# Group numbers

A group's number is one more than the size of the map when its name first comes
up, cut to a byte. Over a whole history the numbers are the places of the names
among all distinct names, up to the 255th; the names behind it get 0.
-/

namespace RecsDaemon

open Base

namespace SensorSet

/-! ## The numbering -/

/-- The answers to a sequence of calls, and the groups known after it. -/
def groupIds : Std.TreeMap Text UInt8 → List Text → Std.TreeMap Text UInt8 × List UInt8
  | known, [] => (known, [])
  | known, n :: ns =>
    let (known, id) := getGroupId known n
    let (known, ids) := groupIds known ns
    (known, id :: ids)

/-- The groups of the calls, in the order they first come up in. -/
def groups (names : List Text) : List Text := (names.filter (· ≠ [])).eraseDups

/-- The place of a name among the groups, for the first 255. -/
def number (gs : List Text) (name : Text) : UInt8 :=
  if name ≠ [] ∧ gs.idxOf name < 255 then UInt8.ofNat (gs.idxOf name + 1) else 0

def entry (gs : List Text) (name : Text) : Option UInt8 :=
  if name ∈ gs ∧ gs.idxOf name < 255 then some (UInt8.ofNat (gs.idxOf name + 1)) else none

/-- The map knows the first 255 groups by their places. -/
structure Knows (known : Std.TreeMap Text UInt8) (gs : List Text) : Prop where
  size : known.size = min 255 gs.length
  ids : ∀ n : Text, known[n]? = entry gs n

theorem entry_concat {gs : List Text} {n : Text} (hn : n ∉ gs) (m : Text) :
    entry (gs ++ [n]) m =
      if m = n ∧ gs.length < 255 then some (UInt8.ofNat (gs.length + 1)) else entry gs m := by
  unfold entry
  by_cases hm : m = n
  · subst hm
    have hidx : (gs ++ [m]).idxOf m = gs.length := by
      rw [List.idxOf_append_of_notMem hn, List.idxOf_cons_self, Nat.add_zero]
    simp [hidx, hn]
  · by_cases hg : m ∈ gs
    · simp [hm, hg, List.idxOf_append_of_mem hg]
    · simp [hm, hg]

theorem mem_groups {names : List Text} {n : Text} : n ∈ groups names ↔ n ∈ names ∧ n ≠ [] := by
  rw [groups, List.mem_eraseDups, List.mem_filter, decide_eq_true_iff]

theorem groups_concat_empty (before : List Text) : groups (before ++ [[]]) = groups before := by
  simp [groups]

theorem groups_concat (before : List Text) {n : Text} (hn : n ≠ []) :
    groups (before ++ [n]) =
      if n ∈ groups before then groups before else groups before ++ [n] := by
  have hf : (before ++ [n]).filter (· ≠ []) = before.filter (· ≠ []) ++ [n] := by
    simp [hn]
  rw [groups, hf, eraseDups_concat]
  simp only [groups, List.mem_eraseDups]

theorem number_append {before : List Text} {n : Text} (h : n ∈ before) (after : List Text) :
    number (groups (before ++ after)) n = number (groups before) n := by
  unfold number
  by_cases hn : n = []
  · rw [if_neg (by simp [hn]), if_neg (by simp [hn])]
  · have hm : n ∈ before.filter (· ≠ []) := List.mem_filter.mpr ⟨h, by simpa using hn⟩
    have hi : (groups (before ++ after)).idxOf n = (groups before).idxOf n := by
      rw [groups, groups, List.filter_append]
      exact idxOf_eraseDups_append hm _
    rw [hi]

theorem knows_empty : Knows ∅ (groups []) := by
  refine ⟨rfl, fun n => ?_⟩
  simp [groups, entry]

/-- A call answers with the number of the name, and keeps what the map knows. -/
theorem Knows.getGroupId {known : Std.TreeMap Text UInt8} {before : List Text}
    (h : Knows known (groups before)) (n : Text) :
    Knows (getGroupId known n).1 (groups (before ++ [n])) ∧
      (getGroupId known n).2 = number (groups (before ++ [n])) n := by
  unfold SensorSet.getGroupId
  by_cases hn : n = []
  · subst hn
    rw [groups_concat_empty]
    exact ⟨h, rfl⟩
  have hids := h.ids n
  rw [if_neg hn, groups_concat before hn]
  generalize groups before = gs at *
  unfold entry at hids
  by_cases hmem : n ∈ gs
  · rw [if_pos hmem]
    by_cases hlt : gs.idxOf n < 255
    · rw [hids, if_pos ⟨hmem, hlt⟩]
      refine ⟨h, ?_⟩
      dsimp only
      rw [number, if_pos ⟨hn, hlt⟩]
    · have hlen := List.idxOf_lt_length_of_mem hmem
      have hsize : 255 ≤ known.size := by rw [h.size]; omega
      rw [hids, if_neg fun hc => hlt hc.2]
      dsimp only
      rw [if_pos hsize]
      exact ⟨h, by rw [number, if_neg fun hc => hlt hc.2]⟩
  · have hidx : (gs ++ [n]).idxOf n = gs.length := by
      rw [List.idxOf_append_of_notMem hmem, List.idxOf_cons_self, Nat.add_zero]
    rw [if_neg hmem, hids, if_neg fun hc => hmem hc.1]
    dsimp only
    by_cases hfull : 255 ≤ known.size
    · have hlen : ¬ gs.length < 255 := by rw [h.size] at hfull; omega
      rw [if_pos hfull, number, hidx, if_neg fun hc => hlen hc.2]
      refine ⟨⟨?_, fun m => ?_⟩, rfl⟩
      · rw [h.size, List.length_append]
        omega
      · rw [entry_concat hmem, if_neg fun hc => hlen hc.2, h.ids]
    · have hsize : known.size = gs.length := by rw [h.size] at hfull ⊢; omega
      have hlen : gs.length < 255 := by omega
      have hnew : n ∉ known := by
        rw [Std.TreeMap.mem_iff_isSome_getElem?, h.ids, entry, if_neg fun hc => hmem hc.1]
        simp
      rw [if_neg hfull, number, hidx, if_pos ⟨hn, hlen⟩, hsize]
      refine ⟨⟨?_, fun m => ?_⟩, rfl⟩
      · rw [Std.TreeMap.size_insert, if_neg (by simpa using hnew), hsize, List.length_append,
          List.length_singleton]
        omega
      · rw [entry_concat hmem, getElem?_insert, h.ids]
        simp only [hlen, and_true]

/-- After a history the answers are the numbers of the names. -/
theorem Knows.groupIds {names : List Text} : ∀ {known : Std.TreeMap Text UInt8}
    {before : List Text}, Knows known (groups before) →
      (groupIds known names).2 = names.map (number (groups (before ++ names))) := by
  induction names with
  | nil => intro known before _; rfl
  | cons n ns ih =>
    intro known before h
    obtain ⟨hknown, hid⟩ := h.getGroupId n
    have hrest := ih hknown
    have hn : number (groups (before ++ n :: ns)) n = number (groups (before ++ [n])) n := by
      rw [show before ++ n :: ns = (before ++ [n]) ++ ns by simp]
      exact number_append (by simp) ns
    rw [List.append_assoc, List.singleton_append] at hrest
    rw [List.map_cons, hn, ← hid, ← hrest]
    rfl

/-- From an empty map on, every name gets its place among the groups. -/
theorem groupIds_empty (names : List Text) :
    (groupIds ∅ names).2 = names.map (number (groups names)) :=
  knows_empty.groupIds

/-- The descriptions of a set carry these numbers. -/
theorem describe_groupIds (known : Std.TreeMap Text UInt8) (ss : List (Text × Sensor)) :
    (describe known ss).1 = (groupIds known (ss.map fun p => p.2.getGroup)).1 ∧
      (describe known ss).2.map SensorDescription.groupId =
        (groupIds known (ss.map fun p => p.2.getGroup)).2 := by
  induction ss generalizing known with
  | nil => exact ⟨rfl, rfl⟩
  | cons p ss ih =>
    obtain ⟨name, s⟩ := p
    have hrest := ih (SensorSet.getGroupId known s.getGroup).1
    exact ⟨hrest.1, congrArg (_ :: ·) hrest.2⟩

/-! ## Numbers over a history -/

inductive Initial : SensorSet → Prop where
  | constructed {deserialize pf cfg fac mData beans set} :
      construct deserialize pf cfg fac mData beans = .ok set → Initial set
  | cleared (set : SensorSet) : Initial set.clear

theorem addPlugin_mKnownGroups {deserialize : Json.Deserialize} {pf : Platform} {fac : Factories}
    {set set' : SensorSet} {name : Text}
    (h : addPlugin deserialize pf fac set name = .ok set') :
    set'.mKnownGroups = set.mKnownGroups := by
  unfold addPlugin addJSONSensorProvider at h
  split at h
  · cases h
    rfl
  · obtain ⟨⟨s, b⟩, hadd, hs⟩ := bind_eq_ok.mp h
    cases hs
    split at hadd
    · cases hadd
      rfl
    · obtain ⟨⟨parser, map⟩, -, hp⟩ := bind_eq_ok.mp hadd
      cases hp
      rfl

theorem Initial.mKnownGroups {set : SensorSet} (h : Initial set) : set.mKnownGroups = ∅ := by
  cases h with
  | cleared set => rfl
  | @constructed deserialize pf cfg fac mData beans _ hc =>
    unfold construct at hc
    split at hc
    · cases hc
    obtain ⟨s, hfold, hs⟩ := bind_eq_ok.mp hc
    cases hs
    exact foldlM_induct (I := fun s => s.mKnownGroups = ∅)
      (fun b c b' _ hb hstep => (addPlugin_mKnownGroups hstep).trans hb) rfl hfold

/-- A stable injective numbering of the names from 1 on, as far as a byte goes. -/
structure Numbered (names : List Text) (ids : List UInt8) : Prop where
  answers : ids.length = names.length
  empty : ∀ i : Nat, names[i]? = some [] → ids[i]? = some 0
  injective : ∀ (i j : Nat) n n' a b, names[i]? = some n → names[j]? = some n' → n ≠ [] → n' ≠ [] →
    ids[i]? = some a → ids[j]? = some b → a ≠ 0 → b ≠ 0 → (a = b ↔ n = n')
  range : ∃ k ≤ 255, (∀ m, (∃ a ∈ ids, a ≠ 0 ∧ a.toNat = m) ↔ 1 ≤ m ∧ m ≤ k) ∧
    (((names.zip ids).filter fun p => p.2 ≠ 0).map Prod.fst).eraseDups.length = k
  exhausted : ∀ (i : Nat) n, names[i]? = some n → n ≠ [] → ids[i]? = some 0 →
    ∃ (before after others : List Text), names = before ++ n :: after ∧ n ∉ before ∧ others.Nodup ∧
      others.length = 255 ∧ ∀ x ∈ others, x ≠ [] ∧
        ∃ (j : Nat) (a : UInt8), before[j]? = some x ∧ ids[j]? = some a ∧ a ≠ 0

theorem number_ne_zero {gs : List Text} {n : Text} :
    number gs n ≠ 0 ↔ n ≠ [] ∧ gs.idxOf n < 255 := by
  unfold number
  split
  · next h =>
    refine iff_of_true (fun h0 => ?_) h
    have hz := congrArg UInt8.toNat h0
    rw [UInt8.toNat_ofNat', Nat.mod_eq_of_lt (by omega)] at hz
    exact absurd hz (by simp)
  · next h => exact iff_of_false (fun h0 => h0 rfl) h

theorem number_toNat {gs : List Text} {n : Text} (h : number gs n ≠ 0) :
    (number gs n).toNat = gs.idxOf n + 1 := by
  have hn := number_ne_zero.mp h
  rw [number, if_pos hn, UInt8.toNat_ofNat', Nat.mod_eq_of_lt (by omega)]

section

variable {names : List Text}

theorem number_inj {n n' : Text} (hn : n ∈ groups names) (h : number (groups names) n ≠ 0)
    (h' : number (groups names) n' ≠ 0) :
    number (groups names) n = number (groups names) n' ↔ n = n' := by
  refine ⟨fun he => ?_, fun he => by rw [he]⟩
  have hi : (groups names).idxOf n = (groups names).idxOf n' := by
    have hnat := congrArg UInt8.toNat he
    rw [number_toNat h, number_toNat h'] at hnat
    omega
  exact (List.idxOf_inj hn).mp hi

/-- The numbers in use are `1` to `k`, for the `k` groups that have one. -/
theorem numbers_in_use (m : Nat) :
    (∃ a ∈ names.map (number (groups names)), a ≠ 0 ∧ a.toNat = m) ↔
      1 ≤ m ∧ m ≤ min 255 (groups names).length := by
  constructor
  · rintro ⟨a, ha, h0, rfl⟩
    obtain ⟨n, hn, rfl⟩ := List.mem_map.mp ha
    obtain ⟨hne, hlt⟩ := number_ne_zero.mp h0
    have hidx := List.idxOf_lt_length_of_mem (mem_groups.mpr ⟨hn, hne⟩)
    rw [number_toNat h0]
    omega
  · rintro ⟨h1, hk⟩
    have hlt : m - 1 < (groups names).length := by omega
    have hmem := List.getElem_mem hlt
    obtain ⟨hin, hne⟩ := mem_groups.mp hmem
    have hidx : (groups names).idxOf (groups names)[m - 1] = m - 1 :=
      (nodup_eraseDups _).idxOf_getElem _ hlt
    have h0 : number (groups names) (groups names)[m - 1] ≠ 0 :=
      number_ne_zero.mpr ⟨hne, by omega⟩
    refine ⟨_, List.mem_map_of_mem hin, h0, ?_⟩
    rw [number_toNat h0, hidx]
    omega

theorem length_numbered :
    (((names.zip (names.map (number (groups names)))).filter fun p => p.2 ≠ 0).map
      Prod.fst).eraseDups.length = min 255 (groups names).length := by
  have hlist : ((names.zip (names.map (number (groups names)))).filter fun p => p.2 ≠ 0).map
      Prod.fst = names.filter fun n => number (groups names) n ≠ 0 := by
    rw [← List.map_prod_left_eq_zip, List.filter_map, List.map_map]
    exact List.map_id _
  have hperm : (names.filter fun n => number (groups names) n ≠ 0).eraseDups.Perm
      ((groups names).take 255) := by
    refine (List.perm_ext_iff_of_nodup (nodup_eraseDups _)
      ((nodup_eraseDups _).sublist (List.take_sublist _ _))).mpr fun n => ?_
    rw [List.mem_eraseDups, List.mem_filter, decide_eq_true_iff, number_ne_zero]
    constructor
    · rintro ⟨hn, hne, hlt⟩
      exact (List.mem_take_iff_idxOf_lt (mem_groups.mpr ⟨hn, hne⟩)).mpr hlt
    · intro hn
      have hg := List.mem_of_mem_take hn
      exact ⟨(mem_groups.mp hg).1, (mem_groups.mp hg).2, (List.mem_take_iff_idxOf_lt hg).mp hn⟩
  rw [hlist, hperm.length_eq, List.length_take]

theorem exhausted {n : Text} (hn : n ∈ names) (hne : n ≠ [])
    (h0 : number (groups names) n = 0) :
    ∃ (before after others : List Text), names = before ++ n :: after ∧ n ∉ before ∧
      others.Nodup ∧ others.length = 255 ∧
      ∀ x ∈ others, x ∈ before ∧ x ≠ [] ∧ number (groups names) x ≠ 0 := by
  obtain ⟨before, after, rfl, hnew⟩ := List.eq_append_cons_of_mem hn
  have hge : 255 ≤ (groups before).length := by
    have hidx : (groups (before ++ n :: after)).idxOf n = (groups before).length := by
      have hf : (before ++ n :: after).filter (· ≠ []) =
          before.filter (· ≠ []) ++ n :: after.filter (· ≠ []) := by
        simp [hne]
      rw [groups, hf, idxOf_eraseDups_new (fun hm => hnew (List.mem_of_mem_filter hm)), groups]
    by_contra hlt
    exact number_ne_zero.mpr ⟨hne, by rw [hidx]; omega⟩ h0
  refine ⟨before, after, (groups before).take 255, rfl, hnew,
    (nodup_eraseDups _).sublist (List.take_sublist _ _), ?_, fun x hx => ?_⟩
  · rw [List.length_take]
    omega
  · have hg := List.mem_of_mem_take hx
    obtain ⟨hin, hxne⟩ := mem_groups.mp hg
    refine ⟨hin, hxne, ?_⟩
    rw [number_append hin]
    exact number_ne_zero.mpr ⟨hxne, (List.mem_take_iff_idxOf_lt hg).mp hx⟩

end

/-- After construction or `clear` the group numbers are a stable injective numbering. -/
theorem numbered_of_initial {set : SensorSet} (h : Initial set) (names : List Text) :
    Numbered names (groupIds set.mKnownGroups names).2 := by
  rw [h.mKnownGroups, groupIds_empty]
  have hget (i : Nat) : (names.map (number (groups names)))[i]? =
      names[i]?.map (number (groups names)) := List.getElem?_map
  refine ⟨List.length_map _, fun i hi => ?_, fun i j n n' a b hi hj hn hn' ha hb h0 h0' => ?_,
    ⟨_, Nat.min_le_left _ _, numbers_in_use, length_numbered⟩, fun i n hi hn h0 => ?_⟩
  · rw [hget, hi]
    rfl
  · rw [hget, hi, Option.map_some, Option.some.injEq] at ha
    rw [hget, hj, Option.map_some, Option.some.injEq] at hb
    subst ha hb
    exact number_inj (mem_groups.mpr ⟨List.mem_of_getElem? hi, hn⟩) h0 h0'
  · rw [hget, hi, Option.map_some, Option.some.injEq] at h0
    obtain ⟨before, after, others, hsplit, hnew, hnodup, hlen, hall⟩ :=
      exhausted (List.mem_of_getElem? hi) hn h0
    refine ⟨before, after, others, hsplit, hnew, hnodup, hlen, fun x hx => ?_⟩
    obtain ⟨hin, hxne, hnum⟩ := hall x hx
    obtain ⟨j, hj⟩ := List.mem_iff_getElem?.mp hin
    refine ⟨hxne, j, _, hj, ?_, hnum⟩
    obtain ⟨hlt, -⟩ := List.getElem?_eq_some_iff.mp hj
    rw [hget, hsplit, List.getElem?_append_left hlt, hj, Option.map_some, ← hsplit]

/-- Two groups and the empty name in a cleared set. -/
theorem numbered_of_initial_sample :
    Numbered [ascii "fan", [], ascii "cpu", ascii "fan"]
      (groupIds (empty (fun _ => 0) (fun _ _ => 0)).clear.mKnownGroups
        [ascii "fan", [], ascii "cpu", ascii "fan"]).2 :=
  numbered_of_initial (.cleared _) _

end SensorSet

end RecsDaemon
