import RecsDaemon.Base.Bytes

/-!
# Doubles

A `double` is its eight bytes, little-endian in memory. What the program needs
of its value is the conversion from `int` and the truncation towards zero, both
as IEEE 754 has them.
-/

namespace RecsDaemon

open Base

/-- A `double`, as the number whose 64 bits it has. -/
structure Double where
  bits : UInt64
deriving DecidableEq

namespace Double

def bytes (d : Double) : Bytes := le 8 d.bits.toNat

def ofBytes (bs : Bytes) : Double := ⟨UInt64.ofNat (ofLE bs)⟩

@[simp] theorem length_bytes (d : Double) : d.bytes.length = 8 := length_le _ _

@[simp] theorem ofBytes_bytes (d : Double) : ofBytes d.bytes = d := by
  cases d with
  | mk bits => simp [ofBytes, bytes, ofLE_le]

def zero : Double := ⟨0⟩

/-- `(double)v` of a natural number below `2^53`. -/
def ofNat (v : Nat) : Double :=
  if v = 0 then zero
  else
    let e := Nat.log2 v
    ⟨UInt64.ofNat ((e + 1023) * 2 ^ 52 + (v - 2 ^ e) * 2 ^ (52 - e))⟩

/-- `(double)v` of an `int`. -/
def ofInt (v : Int) : Double :=
  if v < 0 then ⟨(ofNat v.natAbs).bits + 0x8000000000000000⟩ else ofNat v.natAbs

/-- The magnitude cut at the point. Infinities and NaNs have none; they count as zero. -/
def truncAbs (d : Double) : Nat :=
  let e := d.bits.toNat / 2 ^ 52 % 2 ^ 11
  let m := 2 ^ 52 + d.bits.toNat % 2 ^ 52
  if e = 2047 then 0
  else if e < 1023 then 0
  else if e ≤ 1075 then m / 2 ^ (1075 - e)
  else m * 2 ^ (e - 1075)

/-- The integer part: the value cut at the point, towards zero. -/
def intPart (d : Double) : Int :=
  if d.bits.toNat < 2 ^ 63 then d.truncAbs else -d.truncAbs

example : (ofInt (-300)).intPart = -300 := by decide

theorem truncAbs_ofNat {v : Nat} (h : v < 2 ^ 53) :
    (ofNat v).truncAbs = v ∧ (ofNat v).bits.toNat < 2 ^ 63 := by
  unfold ofNat
  split
  · next h0 =>
    subst h0
    exact ⟨rfl, by decide⟩
  · next h0 =>
    have he := Nat.log2_self_le h0
    have hlt := @Nat.lt_log2_self v
    have h52 : v.log2 < 53 := (Nat.log2_lt h0).mpr h
    obtain ⟨k, hk⟩ : ∃ k, 52 = v.log2 + k := ⟨52 - v.log2, by omega⟩
    have hk' : 52 - v.log2 = k := by omega
    have hpow : 2 ^ v.log2 * 2 ^ k = 2 ^ 52 := by rw [← Nat.pow_add, ← hk]
    have hm : 2 ^ 52 + (v - 2 ^ v.log2) * 2 ^ k = v * 2 ^ k := by
      rw [← hpow, ← Nat.add_mul, Nat.add_sub_cancel' he]
    have hsmall : v * 2 ^ k < 2 ^ 53 := by
      calc v * 2 ^ k < 2 ^ (v.log2 + 1) * 2 ^ k := (Nat.mul_lt_mul_right (Nat.two_pow_pos k)).mpr hlt
        _ = 2 ^ 53 := by rw [Nat.pow_succ, Nat.mul_right_comm, hpow, Nat.pow_succ 2 52]
    dsimp only
    rw [hk']
    generalize v.log2 = e at *
    generalize (v - 2 ^ e) * 2 ^ k = m at *
    have hbits : (UInt64.ofNat ((e + 1023) * 2 ^ 52 + m)).toNat = (e + 1023) * 2 ^ 52 + m := by
      refine UInt64.toNat_ofNat_of_lt' (show _ < 2 ^ 64 from ?_)
      omega
    unfold truncAbs
    dsimp only
    rw [hbits]
    have hexp : ((e + 1023) * 2 ^ 52 + m) / 2 ^ 52 % 2 ^ 11 = e + 1023 := by omega
    have hmant : 2 ^ 52 + ((e + 1023) * 2 ^ 52 + m) % 2 ^ 52 = v * 2 ^ k := by omega
    rw [hexp, hmant, if_neg (by omega), if_neg (by omega), if_pos (by omega),
      show 1075 - (e + 1023) = k by omega, Nat.mul_div_cancel _ (Nat.two_pow_pos k)]
    exact ⟨rfl, by omega⟩

theorem intPart_ofNat {v : Nat} (h : v < 2 ^ 53) : (ofNat v).intPart = v := by
  obtain ⟨ht, hb⟩ := truncAbs_ofNat h
  rw [intPart, if_pos hb, ht]

end Double

end RecsDaemon
