import Mathlib

/-!
# Transfers in blocks

A transfer of a range is made in blocks of at most `len`, each tried a second
time if it fails (`inBlocks`). `inBlocks_induct` is the rule for it: an invariant
of the position that a block carries on, and that one that fails keeps, holds of
the whole range, or of the blocks in front of one that failed twice.
-/

namespace Base

variable {σ : Type}

/-- The operation, a second time if it fails. -/
def twice (op : σ → Bool × σ) (s : σ) : Bool × σ := if (op s).1 then op s else op (op s).2

/-- `op pos n` for the blocks from `pos` on, up to one that fails twice. -/
def inBlocks (len : Nat) (hlen : 0 < len) (op : Nat → Nat → σ → Bool × σ) (remaining pos : Nat)
    (s : σ) : Bool × σ :=
  if remaining = 0 then (true, s)
  else
    let n := min remaining len
    let r := twice (op pos n) s
    if r.1 then inBlocks len hlen op (remaining - n) (pos + n) r.2 else (false, r.2)
termination_by remaining
decreasing_by omega

/-- At `pos`, in a state with `I`, a block failed twice, and left `s'`. -/
structure FailsTwice (op : Nat → Nat → σ → Bool × σ) (I : Nat → σ → Prop) (pos : Nat) (s' : σ) :
    Prop where
  block : ∃ n s, I pos s ∧ (op pos n s).1 = false ∧ (op pos n (op pos n s).2).1 = false ∧
    s' = (op pos n (op pos n s).2).2
  kept : I pos s'

/-- **Block rule**. -/
theorem inBlocks_induct {len : Nat} {hlen : 0 < len} {op : Nat → Nat → σ → Bool × σ} {total : Nat}
    {I : Nat → σ → Prop}
    (hok : ∀ pos n s, 0 < n → n ≤ len → pos + n ≤ total → I pos s → (op pos n s).1 = true →
      I (pos + n) (op pos n s).2)
    (hfail : ∀ pos n s, I pos s → (op pos n s).1 = false → I pos (op pos n s).2)
    {remaining pos : Nat} {s : σ} (ht : pos + remaining = total) (h0 : I pos s) :
    ((inBlocks len hlen op remaining pos s).1 = true →
        I total (inBlocks len hlen op remaining pos s).2) ∧
      ((inBlocks len hlen op remaining pos s).1 = false →
        ∃ k, len * k < remaining ∧
          FailsTwice op I (pos + len * k) (inBlocks len hlen op remaining pos s).2) := by
  induction remaining using Nat.strong_induction_on generalizing pos s with
  | _ remaining ih =>
    rw [inBlocks]
    by_cases hz : remaining = 0
    · subst hz
      rw [if_pos rfl]
      exact ⟨fun _ => ht ▸ h0, nofun⟩
    · rw [if_neg hz]
      dsimp only
      generalize hn : min remaining len = n
      have htwice : (twice (op pos n) s).1 = true → I (pos + n) (twice (op pos n) s).2 := by
        unfold twice
        split
        · next hfirst => exact fun _ => hok pos n s (by omega) (by omega) (by omega) h0 hfirst
        · next hfirst =>
          have hkept := hfail pos n s h0 (Bool.eq_false_iff.mpr hfirst)
          exact hok pos n _ (by omega) (by omega) (by omega) hkept
      by_cases hblock : (twice (op pos n) s).1 = true
      · rw [if_pos hblock]
        obtain ⟨hall, hsome⟩ := ih (remaining - n) (by omega) (by omega) (htwice hblock)
        refine ⟨hall, fun h => ?_⟩
        -- the block was not the last one, so it was a whole one
        obtain ⟨k, hk, hfails⟩ := hsome h
        have hlen' : n = len := by omega
        refine ⟨k + 1, by rw [Nat.mul_succ]; omega, ?_⟩
        rw [Nat.mul_succ, Nat.add_comm (len * k), ← Nat.add_assoc]
        rwa [hlen'] at hfails ⊢
      · rw [if_neg hblock]
        refine ⟨nofun, fun _ => ⟨0, by omega, ?_⟩⟩
        rw [Nat.mul_zero, Nat.add_zero]
        have hfirst : (op pos n s).1 = false := by
          by_contra hne
          exact hblock (by rw [twice, if_pos (Bool.eq_true_of_not_eq_false hne)]; exact
            Bool.eq_true_of_not_eq_false hne)
        have hsecond : twice (op pos n) s = op pos n (op pos n s).2 := by
          rw [twice, if_neg (by rw [hfirst]; exact Bool.false_ne_true)]
        rw [hsecond] at hblock ⊢
        have hfalse := Bool.eq_false_iff.mpr hblock
        exact ⟨⟨n, s, h0, hfirst, hfalse, rfl⟩, hfail pos n _ (hfail pos n s h0 hfirst) hfalse⟩

end Base
