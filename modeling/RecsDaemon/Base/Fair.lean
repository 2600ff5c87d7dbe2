import RecsDaemon.Base.System

/-!
# Fair runs

A `Schedule` is a run without an end, in which events happen or not. It is fair
to some events if it does not leave them out for ever while one of them can
happen. `Schedule.eventually`: a goal is reached if at any moment one kind of
event brings it nearer, and no other event takes it further away.
-/

namespace Base

variable {σ ε : Type}

structure Schedule (step : σ → ε → Option σ) where
  state : Nat → σ
  /-- `none` where nothing happens. -/
  event : Nat → Option ε
  next : ∀ n, match event n with
    | some e => step (state n) e = some (state (n + 1))
    | none => state (n + 1) = state n

namespace Schedule

variable {step : σ → ε → Option σ}

/-- One of these events can happen. -/
def Enabled (step : σ → ε → Option σ) (P : ε → Prop) (s : σ) : Prop :=
  ∃ e s', P e ∧ step s e = some s'

/-- Again and again one of these events happens, or none of them can. -/
def FairTo (r : Schedule step) (P : ε → Prop) : Prop :=
  ∀ n, ∃ m ≥ n, (∃ e, r.event m = some e ∧ P e) ∨ ¬ Enabled step P (r.state m)

section Rule

variable {ι : Type} {C : ε → Prop} {I Goal : σ → Prop} {P : ι → ε → Prop} {μ : σ → Nat}
  {helpful : σ → ι}

/-- What the events do while the goal is not reached: the measure goes down, or the event is not of
the helpful kind and everything stays as it is. -/
def Helps (step : σ → ε → Option σ) (C : ε → Prop) (I Goal : σ → Prop) (P : ι → ε → Prop)
    (μ : σ → Nat) (helpful : σ → ι) : Prop :=
  ∀ s e s', I s → ¬ Goal s → C e → step s e = some s' → Goal s' ∨ μ s' < μ s ∨
    (¬ P (helpful s) e ∧ μ s' = μ s ∧ helpful s' = helpful s)

theorem next_of_event {r : Schedule step} {n : Nat} {e : ε} (h : r.event n = some e) :
    step (r.state n) e = some (r.state (n + 1)) := by
  have hn := r.next n
  rw [h] at hn
  exact hn

theorem invariant {r : Schedule step} (hI : ∀ s e s', I s → C e → step s e = some s' → I s')
    (hC : ∀ n e, r.event n = some e → C e) {n : Nat} (hn : I (r.state n)) {m : Nat} (hm : n ≤ m) :
    I (r.state m) := by
  induction m, hm using Nat.le_induction with
  | base => exact hn
  | succ m _ ih =>
    have hnext := r.next m
    cases he : r.event m with
    | none =>
      rw [he] at hnext
      rw [hnext]
      exact ih
    | some e => exact hI _ e _ ih (hC m e he) (next_of_event he)

/-- Until the helpful event happens, either the measure goes down or nothing changes. -/
theorem waits {r : Schedule step} (hhelps : Helps step C I Goal P μ helpful)
    (hI : ∀ n, I (r.state n)) (hC : ∀ n e, r.event n = some e → C e) (n k : Nat) :
    (∃ m ≥ n, Goal (r.state m)) ∨ (∃ m ≥ n, μ (r.state m) < μ (r.state n)) ∨
      (μ (r.state (n + k)) = μ (r.state n) ∧ helpful (r.state (n + k)) = helpful (r.state n)) := by
  induction k with
  | zero => exact .inr (.inr ⟨rfl, rfl⟩)
  | succ k ih =>
    rcases ih with hgoal | hless | ⟨hμ, hh⟩
    · exact .inl hgoal
    · exact .inr (.inl hless)
    by_cases hg : Goal (r.state (n + k))
    · exact .inl ⟨n + k, Nat.le_add_right n k, hg⟩
    have hn := r.next (n + k)
    cases he : r.event (n + k) with
    | none =>
      rw [he] at hn
      rw [← Nat.add_assoc, hn]
      exact .inr (.inr ⟨hμ, hh⟩)
    | some e =>
      rcases hhelps _ e _ (hI _) hg (hC _ e he) (next_of_event he) with h | h | ⟨-, h, h'⟩
      · exact .inl ⟨n + k + 1, by omega, h⟩
      · exact .inr (.inl ⟨n + k + 1, by omega, by omega⟩)
      · exact .inr (.inr ⟨h.trans hμ, h'.trans hh⟩)

/-- **What is brought nearer again and again is reached.** -/
theorem eventually {r : Schedule step} (hhelps : Helps step C I Goal P μ helpful)
    (hI : ∀ s e s', I s → C e → step s e = some s' → I s')
    (henabled : ∀ s, I s → ¬ Goal s → Enabled step (P (helpful s)) s)
    (h0 : I (r.state 0)) (hC : ∀ n e, r.event n = some e → C e)
    (hfair : ∀ i, r.FairTo (P i)) : ∃ n, Goal (r.state n) := by
  have hinv (n : Nat) : I (r.state n) := invariant hI hC h0 (Nat.zero_le n)
  -- the measure is what is left from any moment on
  have hgo (d n : Nat) (hd : μ (r.state n) = d) : ∃ m, Goal (r.state m) := by
    induction d using Nat.strong_induction_on generalizing n with
    | h d ih =>
      obtain ⟨m, hm, hturn⟩ := hfair (helpful (r.state n)) n
      obtain ⟨k, rfl⟩ := Nat.exists_eq_add_of_le hm
      rcases waits hhelps hinv hC n k with ⟨m, -, hg⟩ | ⟨m, -, hless⟩ | ⟨hμ, hh⟩
      · exact ⟨m, hg⟩
      · exact ih _ (hd ▸ hless) m rfl
      by_cases hg : Goal (r.state (n + k))
      · exact ⟨n + k, hg⟩
      rcases hturn with ⟨e, he, hP⟩ | hno
      · rcases hhelps _ e _ (hinv _) hg (hC _ e he) (next_of_event he) with h | h | ⟨h, -⟩
        · exact ⟨n + k + 1, h⟩
        · exact ih _ (by omega) (n + k + 1) rfl
        · exact absurd (hh ▸ hP) h
      · exact absurd (hh ▸ henabled _ (hinv _) hg) hno
  exact hgo _ 0 rfl

end Rule

/-! ## Runs that end -/

def ofEvents (step : σ → ε → Option σ) (s : σ) (es : List ε)
    (h : ∀ n, ∃ t, exec step s (es.take n) = some t) : Schedule step where
  state n := (exec step s (es.take n)).getD s
  event n := es[n]?
  next n := by
    obtain ⟨t, ht⟩ := h n
    obtain ⟨t', ht'⟩ := h (n + 1)
    cases he : es[n]? with
    | none =>
      dsimp only
      rw [List.take_of_length_le (List.getElem?_eq_none_iff.mp he),
        List.take_of_length_le ((List.getElem?_eq_none_iff.mp he).trans (Nat.le_succ n))]
    | some e =>
      dsimp only
      have htake : es.take (n + 1) = es.take n ++ [e] := by
        rw [List.take_add_one, he]
        rfl
      rw [ht, ht']
      rw [htake] at ht'
      obtain ⟨u, hu, hstep⟩ := exec_append.mp ht'
      obtain rfl : t = u := Option.some.inj (ht.symm.trans hu)
      obtain ⟨v, hv, hnil⟩ := exec_cons.mp hstep
      cases hnil
      exact hv

theorem fairTo_ofEvents {s t : σ} {es : List ε} (h : ∀ n, ∃ t, exec step s (es.take n) = some t)
    (ht : exec step s es = some t) {P : ε → Prop} (hP : ¬ Enabled step P t) :
    (ofEvents step s es h).FairTo P := by
  intro n
  refine ⟨max n es.length, le_max_left _ _, .inr ?_⟩
  have hs : (ofEvents step s es h).state (max n es.length) = t := by
    show (exec step s (es.take (max n es.length))).getD s = t
    rw [List.take_of_length_le (le_max_right _ _), ht]
    rfl
  rw [hs]
  exact hP

theorem exec_take {s t : σ} {es : List ε} (h : exec step s es = some t) (n : Nat) :
    ∃ u, exec step s (es.take n) = some u := by
  rw [← List.take_append_drop n es] at h
  obtain ⟨u, hu, -⟩ := exec_append.mp h
  exact ⟨u, hu⟩

end Schedule

end Base
