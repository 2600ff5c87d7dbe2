import RecsDaemon.Base.Memory

/-!
# C strings

Zero-terminated strings in byte lists: what a `char*` denotes (`cstr`) and what
`strncpy` leaves in its destination. `ascii` writes a literal.
-/

namespace Base

/-- The bytes of a literal, one a character. -/
def ascii (s : String) : Bytes := s.toList.map fun c => UInt8.ofNat c.toNat

/-- `tolower` in the C locale. -/
def toLower (c : UInt8) : UInt8 := if 65 ≤ c ∧ c ≤ 90 then c + 32 else c

theorem toLower_toLower (c : UInt8) : toLower (toLower c) = toLower c := by
  refine if_neg fun h => ?_
  unfold toLower at h
  split at h
  · next hc =>
    have h1 : 65 ≤ c.toNat := UInt8.le_iff_toNat_le.mp hc.1
    have h2 : (c + 32).toNat ≤ 90 := UInt8.le_iff_toNat_le.mp h.2
    have h3 : c.toNat ≤ 90 := UInt8.le_iff_toNat_le.mp hc.2
    rw [UInt8.toNat_add, show (32 : UInt8).toNat = 32 from rfl] at h2
    omega
  · next hc => exact hc h

/-- The string a `char*` to these bytes denotes. -/
def cstr (bs : Bytes) : Bytes := bs.takeWhile (· ≠ 0)

/-- The `n` bytes `strncpy` writes: the string, cut at `n`, filled up with zeros. -/
def strncpy (n : Nat) (bs : Bytes) : Bytes :=
  (cstr bs).take n ++ List.replicate (n - (cstr bs).length) 0

@[simp] theorem length_strncpy (n : Nat) (bs : Bytes) : (strncpy n bs).length = n := by
  simp [strncpy]; omega

theorem cstr_of_no_zero {bs : Bytes} (h : (0 : UInt8) ∉ bs) : cstr bs = bs := by
  apply List.takeWhile_eq_self_iff.mpr
  intro b hb
  simpa using fun e : b = 0 => h (e ▸ hb)

theorem zero_notMem_cstr (bs : Bytes) : (0 : UInt8) ∉ cstr bs := by
  intro h
  exact absurd (List.mem_takeWhile_imp h) (by decide)

theorem cstr_map_toLower {data : Bytes} (h : (0 : UInt8) ∉ data) :
    cstr (data.map toLower) = data.map toLower := by
  apply cstr_of_no_zero
  intro h0
  obtain ⟨c, hc, he⟩ := List.mem_map.mp h0
  unfold toLower at he
  split at he
  · next hr =>
    have h1 : c.toNat ≤ 90 := UInt8.le_iff_toNat_le.mp hr.2
    have h2 := congrArg UInt8.toNat he
    rw [UInt8.toNat_add, show (32 : UInt8).toNat = 32 from rfl,
      show (0 : UInt8).toNat = 0 from rfl] at h2
    omega
  · exact h (he ▸ hc)

theorem cstr_eq_self_iff {bs : Bytes} : cstr bs = bs ↔ (0 : UInt8) ∉ bs := by
  refine ⟨fun h => ?_, cstr_of_no_zero⟩
  rw [← h]
  exact zero_notMem_cstr bs

theorem cstr_append_zero (bs rest : Bytes) : cstr (bs ++ 0 :: rest) = cstr bs := by
  unfold cstr
  rw [List.takeWhile_append]
  split
  · next h =>
    have hbs := List.takeWhile_prefix (fun b : UInt8 => decide (b ≠ 0)) (l := bs)
    rw [hbs.eq_of_length h, List.takeWhile_cons_of_neg (by decide), List.append_nil]
  · rfl

theorem cstr_strncpy (n : Nat) (bs : Bytes) : cstr (strncpy n bs) = (cstr bs).take n := by
  have hno : ∀ b ∈ (cstr bs).take n, decide (b ≠ 0) = true := fun b hb =>
    (List.mem_takeWhile_imp (List.mem_of_mem_take hb) :)
  unfold strncpy
  rw [cstr, List.takeWhile_append_of_pos hno, List.takeWhile_replicate]
  simp

theorem cstr_terminated {m : Mem} {line : Bytes} {size : Nat} (h : m.read 0 line.length = line)
    (hl : line.length < size) : cstr ((m.write line.length [0]).read 0 size) = cstr line := by
  obtain ⟨k, rfl⟩ := Nat.exists_eq_add_of_lt hl
  have hline : (m.write line.length [0]).read 0 line.length = line := by
    rw [Mem.read_write_of_disjoint (.inl (Nat.le_of_eq (Nat.zero_add _))), h]
  have hzero : (m.write line.length [0]).read line.length 1 = [0] := Mem.read_write_self _ _ _
  rw [Nat.add_assoc, Nat.add_comm k, Mem.read_add, hline, Nat.zero_add, Mem.read_add, hzero,
    List.singleton_append, cstr_append_zero]

end Base
