import Mathlib

/-!
# Byte strings

Little-endian and big-endian encodings of natural numbers as byte lists, and
slices of byte lists. `le n v` and `be n v` keep `v` modulo `256 ^ n`, as a
conversion to an `n`-byte unsigned type does; `ofLE` and `ofBE` read any byte
list back. `toSize` and `toSigned` convert between the two kinds of sizes.
-/

namespace Base

abbrev Bytes := List UInt8

/-- The `n` low bytes of `v`, least significant first. -/
def le : Nat → Nat → Bytes
  | 0, _ => []
  | n + 1, v => UInt8.ofNat v :: le n (v / 256)

/-- The `n` low bytes of `v`, most significant first. -/
def be (n v : Nat) : Bytes := (le n v).reverse

def ofLE : Bytes → Nat
  | [] => 0
  | b :: bs => b.toNat + 256 * ofLE bs

def ofBE (bs : Bytes) : Nat := ofLE bs.reverse

@[simp] theorem length_le (n v : Nat) : (le n v).length = n := by
  induction n generalizing v with
  | zero => rfl
  | succ n ih => simp [le, ih]

@[simp] theorem length_be (n v : Nat) : (be n v).length = n := by simp [be]

theorem ofLE_le (n v : Nat) : ofLE (le n v) = v % 256 ^ n := by
  induction n generalizing v with
  | zero => simp [le, ofLE, Nat.mod_one]
  | succ n ih =>
    have hb : (UInt8.ofNat v).toNat = v % 256 := by simp
    rw [le, ofLE, ih, hb, Nat.pow_succ', Nat.mod_mul]

theorem ofBE_be (n v : Nat) : ofBE (be n v) = v % 256 ^ n := by
  simp [ofBE, be, ofLE_le]

theorem ofBE_be_of_lt {n v : Nat} (h : v < 256 ^ n) : ofBE (be n v) = v := by
  rw [ofBE_be, Nat.mod_eq_of_lt h]

theorem ofLE_lt (bs : Bytes) : ofLE bs < 256 ^ bs.length := by
  induction bs with
  | nil => simp [ofLE]
  | cons b bs ih =>
    have hb : b.toNat < 256 := b.toNat_lt
    rw [ofLE, List.length_cons, Nat.pow_succ']
    omega

theorem ofBE_lt (bs : Bytes) : ofBE bs < 256 ^ bs.length := by
  have h := ofLE_lt bs.reverse
  rwa [List.length_reverse] at h

theorem le_take {k n : Nat} (h : k ≤ n) (v : Nat) : (le n v).take k = le k v := by
  induction k generalizing n v with
  | zero => simp [le]
  | succ k ih =>
    obtain ⟨n, rfl⟩ : ∃ m, n = m + 1 := ⟨n - 1, by omega⟩
    simp [le, ih (by omega : k ≤ n)]

theorem be_drop {k n : Nat} (h : k ≤ n) (v : Nat) : (be n v).drop (n - k) = be k v := by
  rw [be, List.drop_reverse, length_le, show n - (n - k) = k by omega, le_take h, be]

theorem le_mod (n v : Nat) : le n (v % 256 ^ n) = le n v := by
  induction n generalizing v with
  | zero => rfl
  | succ n ih =>
    have h1 : UInt8.ofNat (v % 256 ^ (n + 1)) = UInt8.ofNat v := by
      apply UInt8.toNat_inj.mp
      simp [Nat.pow_succ']
    have h2 : v % 256 ^ (n + 1) / 256 = v / 256 % 256 ^ n := by
      rw [Nat.pow_succ', Nat.mod_mul_right_div_self]
    rw [le, le, h1, h2, ih]

theorem be_mod (n v : Nat) : be n (v % 256 ^ n) = be n v := by rw [be, le_mod, be]

theorem le_ofLE (bs : Bytes) : le bs.length (ofLE bs) = bs := by
  induction bs with
  | nil => rfl
  | cons b bs ih =>
    have hb : b.toNat < 256 := b.toNat_lt
    have h1 : UInt8.ofNat (b.toNat + 256 * ofLE bs) = b := by
      apply UInt8.toNat_inj.mp
      rw [UInt8.toNat_ofNat']
      omega
    have h2 : (b.toNat + 256 * ofLE bs) / 256 = ofLE bs := by omega
    rw [List.length_cons, ofLE, le, h1, h2, ih]

theorem le_append (a b v : Nat) : le a v ++ le b (v / 256 ^ a) = le (a + b) v := by
  induction a generalizing v with
  | zero => simp [le]
  | succ a ih =>
    rw [show a + 1 + b = a + b + 1 by omega, le, le, List.cons_append, ← ih (v / 256),
      Nat.div_div_eq_div_mul, Nat.pow_succ']

theorem be_append (a b v : Nat) : be a (v / 256 ^ b) ++ be b v = be (a + b) v := by
  rw [be, be, be, ← List.reverse_append, le_append, Nat.add_comm]

def slice (off n : Nat) (bs : Bytes) : Bytes := (bs.drop off).take n

theorem slice_append_left {off n : Nat} {a b : Bytes} (h : off + n ≤ a.length) :
    slice off n (a ++ b) = slice off n a := by
  rw [slice, List.drop_append_of_le_length (by omega), List.take_append_of_le_length
    (by rw [List.length_drop]; omega), slice]

theorem length_slice {off n : Nat} {bs : Bytes} (h : off + n ≤ bs.length) :
    (slice off n bs).length = n := by
  rw [slice, List.length_take, List.length_drop]; omega

/-! ## Fields -/

abbrev Field (n : Nat) := { bs : Bytes // bs.length = n }

theorem splitLengths_flatten (fs : List Bytes) (rest : Bytes) :
    (fs.map List.length).splitLengths (fs.flatten ++ rest) = fs := by
  induction fs with
  | nil => rfl
  | cons f fs ih =>
    rw [List.map_cons, List.splitLengths_cons, List.flatten_cons, List.append_assoc,
      List.take_left' rfl, List.drop_left' rfl, ih]

/-! ## Sizes -/

/-- A `ssize_t` as a `size_t`. -/
def toSize (i : Int) : Nat := (i % 2 ^ 64).toNat

/-- A `size_t` as a `ssize_t`. -/
def toSigned (n : Nat) : Int := if n < 2 ^ 63 then n else n - 2 ^ 64

theorem toSigned_of_lt {n : Nat} (h : n < 2 ^ 63) : toSigned n = n := if_pos h

theorem toSigned_toSize {i : Int} (h1 : -2 ^ 63 ≤ i) (h2 : i < 2 ^ 63) :
    toSigned (toSize i) = i := by
  unfold toSigned toSize
  split <;> omega

end Base
