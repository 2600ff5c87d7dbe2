import RecsDaemon.Base.Bytes

/-!
# First positions

`firstFrom P n pos` is the first position from `pos` on, below `n`, that
satisfies `P`. A loop that goes from one candidate to the next and tests each
finds the first one that passes (`firstFrom_and`). Behind it, the splits of a list
at its head (`forall_split_cons`, `exists_split_cons`).
-/

namespace Base

def firstFrom (P : Nat → Bool) (n pos : Nat) : Option Nat := (List.range' pos (n - pos)).find? P

variable {P Q : Nat → Bool} {n pos p : Nat}

theorem firstFrom_eq_some :
    firstFrom P n pos = some p ↔
      P p = true ∧ pos ≤ p ∧ p < n ∧ ∀ j, pos ≤ j → j < p → P j = false := by
  rw [firstFrom, List.find?_range'_eq_some]
  simp only [List.mem_range'_1, Bool.not_eq_eq_eq_not, Bool.not_true]
  constructor
  · rintro ⟨hp, ⟨h1, h2⟩, h3⟩; exact ⟨hp, h1, by omega, h3⟩
  · rintro ⟨hp, h1, h2, h3⟩; exact ⟨hp, ⟨h1, by omega⟩, h3⟩

theorem firstFrom_eq_none :
    firstFrom P n pos = none ↔ ∀ j, pos ≤ j → j < n → P j = false := by
  rw [firstFrom, List.find?_range'_eq_none]
  simp only [Bool.not_eq_eq_eq_not, Bool.not_true]
  constructor
  · intro h j h1 h2; exact h j h1 (by omega)
  · intro h j h1 h2; exact h j h1 (by omega)

theorem isSome_firstFrom :
    (firstFrom P n pos).isSome ↔ ∃ j, pos ≤ j ∧ j < n ∧ P j = true := by
  rw [← not_iff_not, Option.not_isSome_iff_eq_none, firstFrom_eq_none]
  simp only [not_exists, not_and, Bool.not_eq_true]

theorem firstFrom_bound {m : Nat} (h : ∀ j, P j = true → j < n) (hm : n ≤ m) :
    firstFrom P m pos = firstFrom P n pos := by
  cases hs : firstFrom P n pos with
  | none =>
    rw [firstFrom_eq_none] at hs ⊢
    intro j h1 h2
    by_contra hP
    have hP' : P j = true := Bool.eq_true_of_not_eq_false hP
    exact hP (hs j h1 (h j hP'))
  | some q =>
    rw [firstFrom_eq_some] at hs ⊢
    exact ⟨hs.1, hs.2.1, Nat.lt_of_lt_of_le hs.2.2.1 hm, hs.2.2.2⟩

/-- The first candidate that passes a test is the first one at all, or comes after it. -/
theorem firstFrom_and (P Q : Nat → Bool) (n pos : Nat) :
    firstFrom (fun p => P p && Q p) n pos =
      match firstFrom P n pos with
      | none => none
      | some p => if Q p then some p else firstFrom (fun p => P p && Q p) n (p + 1) := by
  cases h : firstFrom P n pos with
  | none =>
    rw [firstFrom_eq_none] at h ⊢
    intro j h1 h2
    rw [h j h1 h2, Bool.false_and]
  | some p =>
    obtain ⟨hp, h1, h2, h3⟩ := firstFrom_eq_some.mp h
    dsimp only
    by_cases hq : Q p = true
    · rw [if_pos hq, firstFrom_eq_some]
      exact ⟨by rw [hp, hq]; rfl, h1, h2, fun j hj hjp => by rw [h3 j hj hjp, Bool.false_and]⟩
    · rw [if_neg hq]
      have hskip (j : Nat) (hj : pos ≤ j) (hjp : j ≤ p) : (P j && Q j) = false := by
        rcases Nat.lt_or_eq_of_le hjp with hlt | rfl
        · rw [h3 j hj hlt, Bool.false_and]
        · rw [Bool.eq_false_iff.mpr hq, Bool.and_false]
      cases hs : firstFrom (fun p => P p && Q p) n (p + 1) with
      | none =>
        rw [firstFrom_eq_none] at hs ⊢
        intro j hj hjn
        by_cases hjp : j ≤ p
        · exact hskip j hj hjp
        · exact hs j (by omega) hjn
      | some q =>
        rw [firstFrom_eq_some] at hs ⊢
        obtain ⟨hq1, hq2, hq3, hq4⟩ := hs
        refine ⟨hq1, by omega, hq3, fun j hj hjq => ?_⟩
        by_cases hjp : j ≤ p
        · exact hskip j hj hjp
        · exact hq4 j (by omega) hjq

theorem take_eq_takeWhile {α : Type} {f : α → Bool} {l : List α} {k : Nat}
    (hgood : ∀ i < k, ∀ x, l[i]? = some x → f x = true) (hbad : ∀ x, l[k]? = some x → f x = false) :
    l.take k = l.takeWhile f := by
  induction l generalizing k with
  | nil => simp
  | cons a l ih =>
    cases k with
    | zero => rw [List.take_zero, List.takeWhile_cons_of_neg (by simp [hbad a rfl])]
    | succ k =>
      rw [List.take_succ_cons, List.takeWhile_cons_of_pos (hgood 0 (Nat.succ_pos k) a rfl)]
      rw [ih (fun i hi x hx => hgood (i + 1) (by omega) x hx) fun x hx => hbad x hx]

/-! ## Splits of a list -/

section Splits

variable {α β : Type}

theorem not_split_nil {P : List α → α → Prop} :
    (∀ pre y post, [] = pre ++ y :: post → P pre y) ↔ True := by
  simp

theorem forall_split_cons {P : List α → α → Prop} {x : α} {l : List α} :
    (∀ pre y post, x :: l = pre ++ y :: post → P pre y) ↔
      P [] x ∧ ∀ pre y post, l = pre ++ y :: post → P (x :: pre) y := by
  constructor
  · intro h
    exact ⟨h [] x l rfl, fun pre y post hl => h (x :: pre) y post (congrArg (x :: ·) hl)⟩
  · rintro ⟨h0, h⟩ pre y post hl
    cases pre with
    | nil =>
      cases hl
      exact h0
    | cons x' pre =>
      cases hl
      exact h pre y post rfl

theorem exists_split_cons {f : β → α} (hf : Function.Injective f) {P : List β → β → Prop} {b : β}
    {l : List α} :
    (∃ pre y post, f b :: l = pre.map f ++ f y :: post ∧ P pre y) ↔
      P [] b ∨ ∃ pre y post, l = pre.map f ++ f y :: post ∧ P (b :: pre) y := by
  constructor
  · rintro ⟨pre, y, post, hl, h⟩
    cases pre with
    | nil =>
      obtain rfl := hf (List.cons.inj hl).1
      exact .inl h
    | cons b' pre =>
      obtain rfl := hf (List.cons.inj hl).1
      exact .inr ⟨pre, y, post, (List.cons.inj hl).2, h⟩
  · rintro (h | ⟨pre, y, post, rfl, h⟩)
    · exact ⟨[], b, l, rfl, h⟩
    · exact ⟨b :: pre, y, post, rfl, h⟩

end Splits

end Base
