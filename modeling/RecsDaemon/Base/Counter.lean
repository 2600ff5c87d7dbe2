import RecsDaemon.Base.Except

/-!
# Loops with a counter

`for (uintW_t i = 0; i < bound; ++i)` with a counter of `w` bits. `forLoop` runs
it with fuel and keeps the indices it visits. Below `2 ^ w` it is a fold over the
range; from there on the counter never reaches the bound, and only an exception of
the body ends the loop.
-/

namespace Base

variable {ε σ : Type}

/-- How a loop ended: in a state or with an exception, and the indices it visited. -/
structure Ending (ε σ : Type) where
  result : Except ε σ
  visited : List Nat

/-- The loop from the counter `i` on, `none` if the fuel does not reach to its end. -/
def forLoop (w : Nat) (bound : Int) (body : Nat → σ → Except ε σ) :
    Nat → Nat → σ → Option (Ending ε σ)
  | 0, _, _ => none
  | fuel + 1, i, s =>
    if (i : Int) < bound then
      match body i s with
      | .error e => some ⟨.error e, [i]⟩
      | .ok s' =>
        (forLoop w bound body fuel ((i + 1) % 2 ^ w) s').map fun r =>
          { r with visited := i :: r.visited }
    else some ⟨.ok s, []⟩

/-- The loop ends without an exception, and has visited each index below `n` once, in order. -/
def VisitsEach (loop : Nat → Option (Ending ε σ)) (n : Nat) : Prop :=
  ∃ fuel s, loop fuel = some ⟨.ok s, List.range n⟩

variable {w : Nat} {bound : Int} {body : Nat → σ → Except ε σ} {fuel i n : Nat} {s : σ}
  {r : Ending ε σ}

theorem forLoop_toNat (w : Nat) (bound : Int) (body : Nat → σ → Except ε σ) (fuel i : Nat) (s : σ) :
    forLoop w bound body fuel i s = forLoop w bound.toNat body fuel i s := by
  induction fuel generalizing i s with
  | zero => rfl
  | succ fuel ih =>
    have hlt : (i : Int) < bound ↔ (i : Int) < bound.toNat := by omega
    simp only [forLoop, hlt, ih]

theorem forLoop_of_le (h : bound ≤ i) : forLoop w bound body (fuel + 1) i s = some ⟨.ok s, []⟩ :=
  if_neg (Int.not_lt.mpr h)

theorem forLoop_of_error (h : (i : Int) < bound) {e : ε} (hb : body i s = .error e) :
    forLoop w bound body (fuel + 1) i s = some ⟨.error e, [i]⟩ := by
  rw [forLoop, if_pos h, hb]

theorem forLoop_of_ok (h : (i : Int) < bound) {s' : σ} (hb : body i s = .ok s') :
    forLoop w bound body (fuel + 1) i s =
      (forLoop w bound body fuel ((i + 1) % 2 ^ w) s').map fun r =>
        { r with visited := i :: r.visited } := by
  rw [forLoop, if_pos h, hb]

/-- What one round of a loop that ended was: the last test, an exception, or a round before
others. -/
theorem forLoop_cases (h : forLoop w bound body fuel i s = some r) :
    (bound ≤ i ∧ r = ⟨.ok s, []⟩) ∨
    ∃ fuel', fuel = fuel' + 1 ∧ (i : Int) < bound ∧
      ((∃ e, body i s = .error e ∧ r = ⟨.error e, [i]⟩) ∨
        ∃ s' r', body i s = .ok s' ∧ forLoop w bound body fuel' ((i + 1) % 2 ^ w) s' = some r' ∧
          r = { r' with visited := i :: r'.visited }) := by
  cases fuel with
  | zero => cases h
  | succ fuel =>
    by_cases hlt : (i : Int) < bound
    · refine .inr ⟨fuel, rfl, hlt, ?_⟩
      cases hb : body i s with
      | error e =>
        rw [forLoop_of_error hlt hb, Option.some.injEq] at h
        exact .inl ⟨e, rfl, h.symm⟩
      | ok s' =>
        rw [forLoop_of_ok hlt hb] at h
        obtain ⟨r', hr', hr⟩ := Option.map_eq_some_iff.mp h
        exact .inr ⟨s', r', rfl, hr', hr.symm⟩
    · rw [forLoop_of_le (Int.not_lt.mp hlt), Option.some.injEq] at h
      exact .inl ⟨Int.not_lt.mp hlt, h.symm⟩

/-! ## A counter that reaches the bound -/

theorem forLoop_of_fold {m : Nat} (hm : m < 2 ^ w) {k : Nat} (hk : i + k = m) {s' : σ}
    (h : (List.range' i k).foldlM (fun s j => body j s) s = .ok s') :
    forLoop w m body (k + 1) i s = some ⟨.ok s', List.range' i k⟩ := by
  induction k generalizing i s with
  | zero =>
    cases h
    exact forLoop_of_le (by omega)
  | succ k ih =>
    rw [List.range'_succ, List.foldlM_cons] at h
    obtain ⟨s₁, h₁, h⟩ := bind_eq_ok.mp h
    have hi : (i + 1) % 2 ^ w = i + 1 := Nat.mod_eq_of_lt (by omega)
    rw [forLoop_of_ok (by omega) h₁, hi, ih (by omega) h, List.range'_succ]
    rfl

/-- An exception on the way ends the loop, also one whose counter will never reach the bound. -/
theorem forLoop_of_fold_error {k : Nat} (hw : i + k ≤ 2 ^ w) (hb : ((i + k : Nat) : Int) ≤ bound)
    {e : ε} (h : (List.range' i k).foldlM (fun s j => body j s) s = .error e) :
    ∃ fuel visited, forLoop w bound body fuel i s = some ⟨.error e, visited⟩ := by
  induction k generalizing i s with
  | zero => cases h
  | succ k ih =>
    rw [List.range'_succ, List.foldlM_cons] at h
    cases h₁ : body i s with
    | error e' =>
      rw [h₁] at h
      cases h
      exact ⟨1, [i], forLoop_of_error (by omega) h₁⟩
    | ok s₁ =>
      rw [h₁, ok_bind] at h
      have hk : k ≠ 0 := fun hk => by subst hk; cases h
      have hi : (i + 1) % 2 ^ w = i + 1 := Nat.mod_eq_of_lt (by omega)
      obtain ⟨fuel, visited, hf⟩ := ih (by omega) (by omega) h
      refine ⟨fuel + 1, i :: visited, ?_⟩
      rw [forLoop_of_ok (by omega) h₁, hi, hf]
      rfl

theorem forLoop_result {m : Nat} (hm : m < 2 ^ w) (hi : i ≤ m)
    (h : forLoop w m body fuel i s = some r) :
    r.result = (List.range' i (m - i)).foldlM (fun s j => body j s) s := by
  induction fuel generalizing i s r with
  | zero => cases h
  | succ fuel ih =>
    rcases forLoop_cases h with ⟨hge, rfl⟩ | ⟨_, hfuel, hlt, ⟨e, hb, rfl⟩ | ⟨s', r', hb, hr, rfl⟩⟩
    · rw [show m - i = 0 by omega]
      rfl
    · obtain ⟨k, hk⟩ : ∃ k, m - i = k + 1 := ⟨m - i - 1, by omega⟩
      rw [hk, List.range'_succ, List.foldlM_cons, hb]
      rfl
    · cases hfuel
      have hmod : (i + 1) % 2 ^ w = i + 1 := Nat.mod_eq_of_lt (by omega)
      rw [hmod] at hr
      have hrest := ih (by omega) hr
      rw [show m - i = m - (i + 1) + 1 by omega, List.range'_succ, List.foldlM_cons, hb, ok_bind,
        ← hrest]

/-! ## A counter that is too narrow -/

/-- If the counter cannot reach the bound, only an exception ends the loop. -/
theorem forLoop_narrow (hb : ((2 ^ w : Nat) : Int) ≤ bound) (hi : i < 2 ^ w)
    (h : forLoop w bound body fuel i s = some r) :
    ∃ j t e, j < 2 ^ w ∧ body j t = .error e ∧ r.result = .error e := by
  induction fuel generalizing i s r with
  | zero => cases h
  | succ fuel ih =>
    rcases forLoop_cases h with ⟨hge, -⟩ | ⟨_, hfuel, -, ⟨e, he, rfl⟩ | ⟨s', r', -, hr, rfl⟩⟩
    · omega
    · exact ⟨i, s, e, hi, he, rfl⟩
    · cases hfuel
      have hrest := ih (Nat.mod_lt _ (Nat.two_pow_pos w)) hr
      exact hrest

theorem ok_of_visited {s' : σ} (h : forLoop w bound body fuel i s = some r)
    (hr : r.result = .ok s') : ∀ j ∈ r.visited, ∃ t t', body j t = .ok t' := by
  induction fuel generalizing i s r with
  | zero => cases h
  | succ fuel ih =>
    rcases forLoop_cases h with ⟨-, rfl⟩ | ⟨_, hfuel, -, ⟨e, -, rfl⟩ | ⟨t, r', hb, hrest, rfl⟩⟩
    · intro j hj
      cases hj
    · cases hr
    · cases hfuel
      exact List.forall_mem_cons.mpr ⟨⟨s, t, hb⟩, ih hrest hr⟩

theorem VisitsEach.bound_lt {m : Nat} (h : VisitsEach (fun fuel => forLoop w m body fuel 0 s) n) :
    m < 2 ^ w := by
  obtain ⟨fuel, s', h⟩ := h
  by_contra hge
  obtain ⟨_, _, e, -, -, he⟩ := forLoop_narrow (by omega) (Nat.two_pow_pos w) h
  cases he

/-- A loop whose body fails or succeeds by the index alone visits each index exactly if the bound
fits the counter and the body succeeds everywhere. -/
theorem visitsEach_iff (ok : Nat → Prop) (hok : ∀ j s, ok j → ∃ s', body j s = .ok s')
    (hno : ∀ j s s', body j s = .ok s' → ok j) (m : Nat) (s : σ) :
    VisitsEach (fun fuel => forLoop w m body fuel 0 s) m ↔ m < 2 ^ w ∧ ∀ j < m, ok j := by
  refine ⟨fun h => ⟨h.bound_lt, fun j hj => ?_⟩, fun ⟨hm, hall⟩ => ?_⟩
  · obtain ⟨fuel, s', h⟩ := h
    obtain ⟨t, t', ht⟩ := ok_of_visited h rfl j (List.mem_range.mpr hj)
    exact hno j t t' ht
  · obtain ⟨s', hs'⟩ := @foldlM_ok ε σ Nat (fun s j => body j s) (List.range' 0 m)
      (fun j hj s => hok j s (hall j (by have := List.mem_range'_1.mp hj; omega))) s
    refine ⟨m + 1, s', ?_⟩
    rw [List.range_eq_range']
    exact forLoop_of_fold hm (Nat.zero_add m) hs'

end Base
