import Mathlib

/-!
# Runs of a partial step function

`step s e` is the state after event `e`, `none` where `e` cannot happen in `s`.
Every nondeterministic choice is part of the event, so a run is a list of
events. `Along` says a condition holds at every step of a run; `exec_induct`
is the invariant rule, `exec_simulates` carries a run over to an abstract
relation.
-/

namespace Base

variable {σ ε : Type}

/-- The state after the events `es`, `none` if one of them could not happen. -/
def exec (step : σ → ε → Option σ) : σ → List ε → Option σ
  | s, [] => some s
  | s, e :: es => (step s e).bind fun s' => exec step s' es

/-- `C` holds at every step of the run of `es` from `s`. -/
def Along (step : σ → ε → Option σ) (C : σ → ε → Prop) : σ → List ε → Prop
  | _, [] => True
  | s, e :: es => C s e ∧ ∀ s', step s e = some s' → Along step C s' es

instance Along.decidable (step : σ → ε → Option σ) (C : σ → ε → Prop) [∀ s e, Decidable (C s e)] :
    ∀ s es, Decidable (Along step C s es)
  | _, [] => isTrue trivial
  | s, e :: es =>
    have (t : σ) : Decidable (Along step C t es) := Along.decidable step C t es
    inferInstanceAs (Decidable (C s e ∧ ∀ t ∈ step s e, Along step C t es))

/-- `P` holds in every state the run of `es` from `s` goes through. -/
def Always (step : σ → ε → Option σ) (P : σ → Prop) (s : σ) (es : List ε) : Prop :=
  ∀ fs s', fs <+: es → exec step s fs = some s' → P s'

/-- `s'` is reached from `s` by some run. -/
def Reaches (step : σ → ε → Option σ) (s s' : σ) : Prop := ∃ es, exec step s es = some s'

variable {step : σ → ε → Option σ}

@[simp] theorem exec_nil (s : σ) : exec step s [] = some s := rfl

theorem exec_cons {s s' : σ} {e : ε} {es : List ε} :
    exec step s (e :: es) = some s' ↔ ∃ t, step s e = some t ∧ exec step t es = some s' := by
  simp [exec, Option.bind_eq_some_iff]

theorem exec_append {s s' : σ} {es fs : List ε} :
    exec step s (es ++ fs) = some s' ↔ ∃ t, exec step s es = some t ∧ exec step t fs = some s' := by
  induction es generalizing s with
  | nil => simp
  | cons e es ih =>
    simp only [List.cons_append, exec_cons, ih]
    constructor
    · rintro ⟨t, ht, u, hu, hs⟩; exact ⟨u, ⟨t, ht, hu⟩, hs⟩
    · rintro ⟨u, ⟨t, ht, hu⟩, hs⟩; exact ⟨t, ht, u, hu, hs⟩

theorem Reaches.refl (s : σ) : Reaches step s s := ⟨[], rfl⟩

theorem Reaches.tail {s t u : σ} {e : ε} (h : Reaches step s t) (he : step t e = some u) :
    Reaches step s u := by
  obtain ⟨es, hes⟩ := h
  exact ⟨es ++ [e], exec_append.mpr ⟨t, hes, exec_cons.mpr ⟨u, he, rfl⟩⟩⟩

theorem Reaches.trans {s t u : σ} (h : Reaches step s t) (h' : Reaches step t u) :
    Reaches step s u := by
  obtain ⟨es, hes⟩ := h
  obtain ⟨fs, hfs⟩ := h'
  exact ⟨es ++ fs, exec_append.mpr ⟨t, hes, hfs⟩⟩

/-- **Invariant rule**: an invariant every step under `C` keeps holds after every run under `C`. -/
theorem exec_induct {C : σ → ε → Prop} {I : σ → Prop}
    (hstep : ∀ s e s', I s → C s e → step s e = some s' → I s') :
    ∀ {es : List ε} {s s' : σ}, I s → Along step C s es → exec step s es = some s' → I s' := by
  intro es
  induction es with
  | nil => intro s s' h0 _ h; cases h; exact h0
  | cons e es ih =>
    intro s s' h0 hC h
    obtain ⟨t, ht, h⟩ := exec_cons.mp h
    exact ih (hstep s e t h0 hC.1 ht) (hC.2 t ht) h

theorem along_true (s : σ) (es : List ε) : Along step (fun _ _ => True) s es := by
  induction es generalizing s with
  | nil => trivial
  | cons e es ih => exact ⟨trivial, fun s' _ => ih s'⟩

/-- The invariant rule without a condition on the steps. -/
theorem Reaches.induct {I : σ → Prop} (hstep : ∀ s e s', I s → step s e = some s' → I s')
    {s s' : σ} (h0 : I s) (h : Reaches step s s') : I s' := by
  obtain ⟨es, hes⟩ := h
  exact exec_induct (C := fun _ _ => True) (fun s e s' hI _ => hstep s e s' hI) h0
    (along_true s es) hes

theorem always_nil {P : σ → Prop} {s : σ} : Always step P s [] ↔ P s := by
  constructor
  · intro h; exact h [] s (List.prefix_refl _) rfl
  · intro h fs s' hf hs
    rw [List.prefix_nil.mp hf, exec_nil, Option.some.injEq] at hs
    exact hs ▸ h

theorem always_cons {P : σ → Prop} {s : σ} {e : ε} {es : List ε} :
    Always step P s (e :: es) ↔ P s ∧ ∀ s', step s e = some s' → Always step P s' es := by
  constructor
  · intro h
    refine ⟨h [] s (List.nil_prefix) rfl, fun s' hs fs t hf ht => ?_⟩
    exact h (e :: fs) t (List.cons_prefix_cons.mpr ⟨rfl, hf⟩) (exec_cons.mpr ⟨s', hs, ht⟩)
  · rintro ⟨h0, h⟩ fs t hf ht
    cases fs with
    | nil => rw [exec_nil, Option.some.injEq] at ht; exact ht ▸ h0
    | cons f fs =>
      obtain ⟨rfl, hp⟩ := List.cons_prefix_cons.mp hf
      obtain ⟨s', hs, ht⟩ := exec_cons.mp ht
      exact h s' hs fs t hp ht

/-- The invariant rule for all states of a run under `C`. -/
theorem Along.always {C : σ → ε → Prop} {I : σ → Prop}
    (hstep : ∀ s e s', I s → C s e → step s e = some s' → I s') :
    ∀ {es : List ε} {s : σ}, I s → Along step C s es → Always step I s es := by
  intro es
  induction es with
  | nil => intro s h0 _; exact always_nil.mpr h0
  | cons e es ih =>
    intro s h0 hC
    exact always_cons.mpr ⟨h0, fun s' hs => ih (hstep s e s' h0 hC.1 hs) (hC.2 s' hs)⟩

theorem Always.mono {P Q : σ → Prop} (hPQ : ∀ s, P s → Q s) {s : σ} {es : List ε}
    (h : Always step P s es) : Always step Q s es :=
  fun fs s' hf hs => hPQ s' (h fs s' hf hs)

/-- **Exactness rule**: where a step keeps `P` exactly under `C`, a run keeps `P` exactly if `C`
holds at every step. -/
theorem always_iff_along {C : σ → ε → Prop} {P : σ → Prop}
    (hstep : ∀ s e s', P s → step s e = some s' → (C s e ↔ P s'))
    (hstuck : ∀ s e, step s e = none → C s e) :
    ∀ {es : List ε} {s : σ}, P s → (Always step P s es ↔ Along step C s es) := by
  intro es
  induction es with
  | nil => intro s h0; exact ⟨fun _ => trivial, fun _ => always_nil.mpr h0⟩
  | cons e es ih =>
    intro s h0
    rw [always_cons, Along]
    constructor
    · rintro ⟨-, h⟩
      refine ⟨?_, fun s' hs => ?_⟩
      · cases hs : step s e with
        | none => exact hstuck s e hs
        | some s' => exact (hstep s e s' h0 hs).mpr (h s' hs [] s' List.nil_prefix rfl)
      · exact (ih (h s' hs [] s' List.nil_prefix rfl)).mp (h s' hs)
    · rintro ⟨hC, h⟩
      exact ⟨h0, fun s' hs => (ih ((hstep s e s' h0 hs).mp hC)).mpr (h s' hs)⟩

/-- **Simulation rule**: if every step under `C` between related states is matched by a run of
`Next`, so is every run under `C`. -/
theorem exec_simulates {τ : Type} {C : σ → ε → Prop} {R : σ → τ → Prop} {Next : τ → τ → Prop}
    (hsim : ∀ s e s' t, R s t → C s e → step s e = some s' →
      ∃ t', Relation.ReflTransGen Next t t' ∧ R s' t') :
    ∀ {es : List ε} {s s' : σ} {t : τ}, R s t → Along step C s es → exec step s es = some s' →
      ∃ t', Relation.ReflTransGen Next t t' ∧ R s' t' := by
  intro es
  induction es with
  | nil => intro s s' t h0 _ h; cases h; exact ⟨t, .refl, h0⟩
  | cons e es ih =>
    intro s s' t h0 hC h
    obtain ⟨u, hu, h⟩ := exec_cons.mp h
    obtain ⟨t₁, ht₁, h₁⟩ := hsim s e u t h0 hC.1 hu
    obtain ⟨t', ht', h'⟩ := ih h₁ (hC.2 u hu) h
    exact ⟨t', ht₁.trans ht', h'⟩

theorem Along.imp {C D : σ → ε → Prop} (hCD : ∀ s e, C s e → D s e) {es : List ε} {s : σ}
    (h : Along step C s es) : Along step D s es := by
  induction es generalizing s with
  | nil => trivial
  | cons e es ih => exact ⟨hCD s e h.1, fun s' hs => ih (h.2 s' hs)⟩

theorem along_congr {C D : σ → ε → Prop} {I : σ → Prop}
    (hstep : ∀ s e s', I s → step s e = some s' → I s') (hCD : ∀ s e, I s → (C s e ↔ D s e)) :
    ∀ {es : List ε} {s : σ}, I s → (Along step C s es ↔ Along step D s es) := by
  intro es
  induction es with
  | nil => exact fun _ => Iff.rfl
  | cons e es ih =>
    intro s h0
    exact and_congr (hCD s e h0)
      (forall_congr' fun s' => imp_congr_right fun hs => ih (hstep s e s' h0 hs))

theorem along_of_forall {P : ε → Prop} {es : List ε} (h : ∀ e ∈ es, P e) (s : σ) :
    Along step (fun _ e => P e) s es := by
  induction es generalizing s with
  | nil => trivial
  | cons e es ih =>
    exact ⟨h e List.mem_cons_self, fun s' _ => ih (fun e he => h e (List.mem_cons_of_mem _ he)) s'⟩

end Base
