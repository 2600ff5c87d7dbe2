import Mathlib

/-!
# Walks of a partial function

`walk next n a` is where `n` steps of `next` lead from `a`. In a finite set a
walk comes to an end exactly if it never comes back to where it was
(`ends_iff`).
-/

namespace Base

variable {α : Type}

/-- The place after `n` steps from `a`, `none` if the walk ended before. -/
def walk (next : α → Option α) : Nat → α → Option α
  | 0, a => some a
  | n + 1, a => (next a).bind (walk next n)

def Ends (next : α → Option α) (a : α) : Prop := ∃ n, walk next n a = none

def Returns (next : α → Option α) (a : α) : Prop :=
  ∃ i j b, i < j ∧ walk next i a = some b ∧ walk next j a = some b

variable {next : α → Option α} {a b : α}

theorem walk_add (m n : Nat) (a : α) :
    walk next (m + n) a = (walk next m a).bind (walk next n) := by
  induction m generalizing a with
  | zero => rw [Nat.zero_add]; rfl
  | succ m ih =>
    rw [Nat.succ_add, walk, walk, Option.bind_assoc]
    cases next a with
    | none => rfl
    | some c => exact ih c

theorem walk_none {m n : Nat} (h : walk next m a = none) (hn : m ≤ n) : walk next n a = none := by
  obtain ⟨k, rfl⟩ := Nat.exists_eq_add_of_le hn
  rw [walk_add, h, Option.bind_none]

theorem Returns.not_ends (h : Returns next a) : ¬ Ends next a := by
  obtain ⟨i, j, b, hij, hi, hj⟩ := h
  obtain ⟨p, rfl⟩ := Nat.exists_eq_add_of_lt hij
  have hround : walk next (p + 1) b = some b := by
    rw [Nat.add_assoc, walk_add, hi, Option.bind_some] at hj
    exact hj
  have hrounds (k : Nat) : walk next (k * (p + 1)) b = some b := by
    induction k with
    | zero => rw [Nat.zero_mul]; rfl
    | succ k ih => rw [Nat.succ_mul, walk_add, ih, Option.bind_some, hround]
  rintro ⟨n, hn⟩
  have hlate : n ≤ i + n * (p + 1) := by
    have : n * 1 ≤ n * (p + 1) := Nat.mul_le_mul_left n (by omega)
    omega
  have hnone := walk_none hn hlate
  rw [walk_add, hi, Option.bind_some, hrounds] at hnone
  cases hnone

theorem walk_mem {S : Set α} (ha : a ∈ S) (hS : ∀ b ∈ S, ∀ c, next b = some c → c ∈ S) {n : Nat}
    (h : walk next n a = some b) : b ∈ S := by
  induction n generalizing a with
  | zero => cases h; exact ha
  | succ n ih =>
    obtain ⟨c, hc, h⟩ := Option.bind_eq_some_iff.mp h
    exact ih (hS a ha c hc) h

/-- **In a finite set a walk ends unless it comes back.** -/
theorem ends_iff {S : Set α} (hfin : S.Finite) (ha : a ∈ S)
    (hS : ∀ b ∈ S, ∀ c, next b = some c → c ∈ S) : Ends next a ↔ ¬ Returns next a := by
  constructor
  · intro h hr
    exact hr.not_ends h
  · intro hr
    by_contra hends
    have hsome (n : Nat) : ∃ b, walk next n a = some b :=
      Option.ne_none_iff_exists'.mp fun h => hends ⟨n, h⟩
    choose f hf using hsome
    obtain ⟨i, j, hij, he⟩ :=
      hfin.exists_lt_map_eq_of_forall_mem fun n => walk_mem ha hS (hf n)
    exact hr ⟨i, j, f i, hij, hf i, he ▸ hf j⟩

end Base
