import RecsDaemon.Base.Bytes

/-!
# Memory

A memory is a total byte function, so an access outside an allocation is an
ordinary address and its extent can be stated. `read` and `write` move byte
strings, `fill` copies from another memory. The lemmas say what a read sees of
the writes before it.
-/

namespace Base

abbrev Mem := Nat → UInt8

namespace Mem

def read (m : Mem) (off n : Nat) : Bytes := (List.range n).map fun i => m (off + i)

def write (m : Mem) (off : Nat) (bs : Bytes) : Mem := fun a =>
  if off ≤ a then (bs[a - off]?).getD (m a) else m a

/-- Copy `n` bytes of `src`, from its address `0`, to `off`. -/
def fill (m : Mem) (off n : Nat) (src : Mem) : Mem := fun a =>
  if off ≤ a ∧ a < off + n then src (a - off) else m a

@[simp] theorem length_read (m : Mem) (off n : Nat) : (m.read off n).length = n := by simp [read]

@[simp] theorem read_zero (m : Mem) (off : Nat) : m.read off 0 = [] := rfl

theorem read_one (m : Mem) (off : Nat) : m.read off 1 = [m off] := rfl

theorem getElem?_read {m : Mem} {n i : Nat} (h : i < n) : (m.read 0 n)[i]? = some (m i) := by
  simp [read, h]

theorem read_add (m : Mem) (off a b : Nat) :
    m.read off (a + b) = m.read off a ++ m.read (off + a) b := by
  simp only [read, List.range_add, List.map_append, List.map_map]
  congr 1
  exact List.map_congr_left fun i _ => by simp [Nat.add_assoc]

theorem read_congr {m m' : Mem} {off n : Nat} (h : ∀ a, off ≤ a → a < off + n → m a = m' a) :
    m.read off n = m'.read off n :=
  List.map_congr_left fun i hi => h _ (by omega) (by have := List.mem_range.mp hi; omega)

theorem write_below {m : Mem} {off a : Nat} {bs : Bytes} (h : a < off) : m.write off bs a = m a :=
  if_neg (by omega)

theorem write_above {m : Mem} {off a : Nat} {bs : Bytes} (h : off + bs.length ≤ a) :
    m.write off bs a = m a := by
  rw [write, if_pos (by omega), List.getElem?_eq_none (by omega), Option.getD_none]

theorem write_inside (m : Mem) (off : Nat) (bs : Bytes) {i : Nat} (h : i < bs.length) :
    m.write off bs (off + i) = bs[i] := by
  rw [write, if_pos (by omega), show off + i - off = i by omega, List.getElem?_eq_getElem h,
    Option.getD_some]

theorem read_write_self (m : Mem) (off : Nat) (bs : Bytes) :
    (m.write off bs).read off bs.length = bs := by
  apply List.ext_getElem (by simp)
  intro i h1 h2
  simp only [read, List.getElem_map, List.getElem_range]
  exact write_inside m off bs h2

theorem read_write_of_disjoint {m : Mem} {off off' n : Nat} {bs : Bytes}
    (h : off' + n ≤ off ∨ off + bs.length ≤ off') : (m.write off bs).read off' n = m.read off' n :=
  read_congr fun a h1 h2 => by
    rcases h with h | h
    · exact write_below (by omega)
    · exact write_above (by omega)

theorem read_write_prefix {m : Mem} {off n : Nat} {bs : Bytes} (h : n ≤ bs.length) :
    (m.write off bs).read off n = bs.take n := by
  have hs := read_write_self m off bs
  obtain ⟨k, hk⟩ := Nat.exists_eq_add_of_le h
  rw [hk, read_add] at hs
  conv_rhs => rw [← hs]
  rw [List.take_left' (length_read _ _ _)]

theorem read_write_slice (m : Mem) (off i n : Nat) (bs : Bytes) (h : i + n ≤ bs.length) :
    (m.write off bs).read (off + i) n = slice i n bs := by
  apply List.ext_getElem (by rw [length_read, length_slice h])
  intro j h1 h2
  have hj : j < n := by simpa using h1
  simp only [read, slice, List.getElem_map, List.getElem_range, List.getElem_take,
    List.getElem_drop]
  rw [Nat.add_assoc]
  exact write_inside _ _ _ (by omega)

theorem slice_read (m : Mem) {off n size : Nat} (h : off + n ≤ size) :
    slice off n (m.read 0 size) = m.read off n := by
  obtain ⟨r, rfl⟩ := Nat.exists_eq_add_of_le h
  rw [slice, read_add, read_add, List.append_assoc, List.drop_left' (length_read _ _ _),
    List.take_left' (length_read _ _ _), Nat.zero_add]

theorem write_append (m : Mem) (off : Nat) (a b : Bytes) :
    m.write off (a ++ b) = (m.write off a).write (off + a.length) b := by
  funext x
  by_cases h1 : x < off
  · rw [write_below h1, write_below (by omega), write_below h1]
  by_cases h2 : x < off + a.length
  · obtain ⟨i, rfl⟩ := Nat.exists_eq_add_of_le (Nat.not_lt.mp h1)
    have hi : i < a.length := by omega
    rw [write_inside _ _ _ (by rw [List.length_append]; omega), write_below h2,
      write_inside _ _ _ hi,
      List.getElem_append_left hi]
  by_cases h3 : x < off + a.length + b.length
  · obtain ⟨i, rfl⟩ := Nat.exists_eq_add_of_le (Nat.not_lt.mp h2)
    rw [write_inside _ _ _ (by omega), Nat.add_assoc,
      write_inside _ _ _ (by rw [List.length_append]; omega), List.getElem_append_right (by omega)]
    congr 1; omega
  · have hl : (a ++ b).length = a.length + b.length := List.length_append
    rw [write_above (by omega), write_above (by omega), write_above (by omega)]

theorem fill_inside {m src : Mem} {off n i : Nat} (h : i < n) :
    m.fill off n src (off + i) = src i := by
  rw [fill, if_pos (by omega), show off + i - off = i by omega]

/-! ## Several writes -/

/-- The writes in order, each an address and its bytes. -/
def writeAll (m : Mem) (ws : List (Nat × Bytes)) : Mem := ws.foldl (fun m w => m.write w.1 w.2) m

@[simp] theorem writeAll_nil (m : Mem) : m.writeAll [] = m := rfl

@[simp] theorem writeAll_cons (m : Mem) (w : Nat × Bytes) (ws : List (Nat × Bytes)) :
    m.writeAll (w :: ws) = (m.write w.1 w.2).writeAll ws := rfl

theorem writeAll_append (m : Mem) (ws ws' : List (Nat × Bytes)) :
    m.writeAll (ws ++ ws') = (m.writeAll ws).writeAll ws' := List.foldl_append

/-- The byte strings one after the other, from `off`. -/
def consecutive : Nat → List Bytes → List (Nat × Bytes)
  | _, [] => []
  | off, bs :: bss => (off, bs) :: consecutive (off + bs.length) bss

theorem consecutive_inside {off : Nat} {bss : List Bytes} :
    ∀ w ∈ consecutive off bss, w.1 + w.2.length ≤ off + bss.flatten.length := by
  induction bss generalizing off with
  | nil => intro w hw; cases hw
  | cons bs bss ih =>
    intro w hw
    rw [List.flatten_cons, List.length_append]
    rcases List.mem_cons.mp hw with rfl | hw
    · simp only; omega
    · have := ih w hw; omega

theorem write_nil (m : Mem) (off : Nat) : m.write off [] = m := by
  funext a
  by_cases h : off ≤ a
  · rw [write_above (by simpa using h)]
  · rw [write_below (by omega)]

theorem writeAll_consecutive (m : Mem) (off : Nat) (bss : List Bytes) :
    m.writeAll (consecutive off bss) = m.write off bss.flatten := by
  induction bss generalizing m off with
  | nil => simp [consecutive, write_nil]
  | cons bs bss ih => rw [consecutive, writeAll_cons, ih, List.flatten_cons, write_append]

theorem read_flatten (m : Mem) (off : Nat) (bss : List Bytes)
    (h : m.read off bss.flatten.length = bss.flatten) :
    ∀ i (hi : i < bss.length),
      m.read (off + ((bss.take i).map List.length).sum) (bss[i]).length = bss[i] := by
  induction bss generalizing off with
  | nil => intro i hi; exact absurd hi (Nat.not_lt_zero _)
  | cons b bss ih =>
    rw [List.flatten_cons, List.length_append, read_add] at h
    obtain ⟨h1, h2⟩ := List.append_inj h (by simp)
    intro i hi
    cases i with
    | zero => simpa using h1
    | succ i =>
      have := ih (off + b.length) h2 i (by simpa using hi)
      simpa [Nat.add_assoc] using this

/-! ## Covered addresses -/

def Covers (w : Nat × Bytes) (a : Nat) : Prop := w.1 ≤ a ∧ a < w.1 + w.2.length

theorem write_covered {m m' : Mem} {w : Nat × Bytes} {a : Nat} (h : Covers w a) :
    m.write w.1 w.2 a = m'.write w.1 w.2 a := by
  obtain ⟨i, rfl⟩ := Nat.exists_eq_add_of_le h.1
  have hi : i < w.2.length := Nat.lt_of_add_lt_add_left h.2
  rw [write_inside m _ _ hi, write_inside m' _ _ hi]

theorem write_uncovered {m : Mem} {w : Nat × Bytes} {a : Nat} (h : ¬ Covers w a) :
    m.write w.1 w.2 a = m a := by
  rcases Nat.lt_or_ge a w.1 with hlt | hge
  · exact write_below hlt
  · exact write_above (Nat.le_of_not_lt fun hlt => h ⟨hge, hlt⟩)

theorem writeAll_uncovered {m : Mem} {ws : List (Nat × Bytes)} {a : Nat}
    (h : ∀ w ∈ ws, ¬ Covers w a) : m.writeAll ws a = m a := by
  induction ws generalizing m with
  | nil => rfl
  | cons w ws ih =>
    rw [writeAll_cons, ih fun w hw => h w (List.mem_cons_of_mem _ hw),
      write_uncovered (h w List.mem_cons_self)]

theorem writeAll_covered {m m' : Mem} {ws : List (Nat × Bytes)} {a : Nat}
    (h : ∃ w ∈ ws, Covers w a) : m.writeAll ws a = m'.writeAll ws a := by
  induction ws generalizing m m' with
  | nil =>
    obtain ⟨w, hw, -⟩ := h
    cases hw
  | cons w ws ih =>
    rw [writeAll_cons, writeAll_cons]
    by_cases hws : ∃ w ∈ ws, Covers w a
    · exact ih hws
    · have hnot : ∀ w ∈ ws, ¬ Covers w a := fun w hw hc => hws ⟨w, hw, hc⟩
      obtain ⟨v, hv, hc⟩ := h
      rcases List.mem_cons.mp hv with rfl | hv
      · rw [writeAll_uncovered hnot, writeAll_uncovered hnot, write_covered hc]
      · exact absurd hc (hnot v hv)

end Mem

end Base
