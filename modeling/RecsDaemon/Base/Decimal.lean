import RecsDaemon.Base.CString

/-!
# Decimal texts

A natural number as a text of ASCII digits, the most significant first; zeros
may lead. `decimal_eq_code_iff` says which of these numbers are the code of
their own first digit.
-/

namespace Base

def isDigit (c : UInt8) : Bool := 48 ≤ c.toNat && c.toNat ≤ 57

/-- The number a text of digits is. -/
def digitsValue (s : Bytes) : Nat := Nat.ofDigits 10 (s.reverse.map fun c => c.toNat - 48)

/-- The number a text is; `none` for no digits and for any other text. -/
def decimal (s : Bytes) : Option Nat :=
  if s ≠ [] ∧ s.all isDigit then some (digitsValue s) else none

example : decimal (ascii "053") = some 53 := by decide

theorem isDigit_iff {c : UInt8} : isDigit c = true ↔ 48 ≤ c.toNat ∧ c.toNat ≤ 57 := by
  simp [isDigit]

theorem digitsValue_cons (c : UInt8) (s : Bytes) :
    digitsValue (c :: s) = (c.toNat - 48) * 10 ^ s.length + digitsValue s := by
  unfold digitsValue
  rw [List.reverse_cons, List.map_append, Nat.ofDigits_append, List.length_map, List.length_reverse,
    List.map_singleton, Nat.ofDigits_singleton, Nat.mul_comm, Nat.add_comm]

theorem eq_of_two_digits {s : Bytes} (h : ∀ c ∈ s, isDigit c = true) (h1 : 10 ≤ digitsValue s)
    (h2 : digitsValue s < 100) : ∃ k a b, s = List.replicate k 48 ++ [a, b] ∧
      a.toNat = 48 + digitsValue s / 10 ∧ b.toNat = 48 + digitsValue s % 10 := by
  induction s with
  | nil => exact absurd h1 (by decide)
  | cons c s ih =>
    have hs := fun d hd => h d (List.mem_cons_of_mem _ hd)
    have hc := isDigit_iff.mp (h c List.mem_cons_self)
    rw [digitsValue_cons] at h1 h2 ⊢
    by_cases hzero : c.toNat = 48
    · rw [hzero, Nat.sub_self, Nat.zero_mul, Nat.zero_add] at h1 h2 ⊢
      obtain ⟨k, a, b, rfl, ha, hb⟩ := ih hs h1 h2
      obtain rfl : c = 48 := UInt8.toNat_inj.mp hzero
      exact ⟨k + 1, a, b, rfl, ha, hb⟩
    · -- the first digit is none: it counts at least one of its place
      have hplace : 10 ^ s.length ≤ (c.toNat - 48) * 10 ^ s.length :=
        Nat.le_mul_of_pos_left _ (by omega)
      match s with
      | [] =>
        have hnil : digitsValue [] = 0 := rfl
        rw [hnil, List.length_nil] at h1
        omega
      | [d] =>
        have hd := isDigit_iff.mp (hs d List.mem_cons_self)
        have hlast : digitsValue [d] = d.toNat - 48 := Nat.ofDigits_singleton
        rw [hlast, List.length_singleton, Nat.pow_one]
        exact ⟨0, c, d, rfl, by omega, by omega⟩
      | d :: e :: t =>
        have hlong : 10 ^ 2 ≤ 10 ^ (d :: e :: t).length :=
          Nat.pow_le_pow_right (by decide) (by simp)
        omega

/-- **The numbers that are the code of their own first digit**: 53, and 48 behind a zero. -/
theorem decimal_eq_code_iff {c : UInt8} {s : Bytes} {n : Nat} (h : decimal (c :: s) = some n) :
    c.toNat = n ↔ c :: s = ascii "53" ∨ ∃ k, c :: s = List.replicate (k + 1) 48 ++ ascii "48" := by
  unfold decimal at h
  split at h
  case isFalse => cases h
  case isTrue hdig =>
  cases h
  have hdig := List.all_eq_true.mp hdig.2
  constructor
  · intro hcode
    have hc := isDigit_iff.mp (hdig c List.mem_cons_self)
    obtain ⟨k, a, b, he, ha, hb⟩ := eq_of_two_digits hdig (by omega) (by omega)
    rw [← hcode] at ha hb
    match k with
    | 0 =>
      rw [List.replicate_zero, List.nil_append, List.cons.injEq] at he
      obtain ⟨rfl, rfl⟩ := he
      obtain rfl : c = 53 := UInt8.toNat_inj.mp (show c.toNat = 53 by omega)
      obtain rfl : b = 51 := UInt8.toNat_inj.mp hb
      exact .inl rfl
    | k + 1 =>
      obtain rfl : c = 48 := (List.cons.inj he).1
      obtain rfl : a = 52 := UInt8.toNat_inj.mp ha
      obtain rfl : b = 56 := UInt8.toNat_inj.mp hb
      exact .inr ⟨k, he⟩
  · rintro (he | ⟨k, he⟩)
    · rw [he, (List.cons.inj he).1]
      decide
    · have hzeros : ∀ k, digitsValue (List.replicate k 48 ++ ascii "48") = 48 := by
        intro k
        induction k with
        | zero => decide
        | succ k ih =>
          rw [List.replicate_succ, List.cons_append, digitsValue_cons, ih]
          exact Nat.zero_add 48 ▸ congrArg (· + 48) (Nat.zero_mul _)
      rw [he, hzeros, (List.cons.inj he).1]
      decide

end Base
