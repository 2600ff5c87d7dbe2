import Mathlib

/-!
# Computations that may fail

A successful sequence of steps is a chain of successful steps.
-/

namespace Base

variable {ε α β : Type}

theorem toOption_eq_some {x : Except ε α} {a : α} : x.toOption = some a ↔ x = .ok a := by
  cases x <;> simp [Except.toOption]

theorem ok_bind (a : α) (f : α → Except ε β) : (Except.ok a >>= f) = f a := rfl

theorem bind_eq_ok {x : Except ε α} {f : α → Except ε β} {b : β} :
    (x >>= f) = .ok b ↔ ∃ a, x = .ok a ∧ f a = .ok b := by
  cases x with
  | error e => constructor
               · intro h; cases h
               · rintro ⟨a, h, -⟩; cases h
  | ok a => constructor
            · intro h; exact ⟨a, rfl, h⟩
            · rintro ⟨a', h, hf⟩; cases h; exact hf

/-- What every step of a fold keeps holds of its result. -/
theorem foldlM_induct {γ : Type} {f : β → γ → Except ε β} {I : β → Prop} {l : List γ}
    (hstep : ∀ b c b', c ∈ l → I b → f b c = .ok b' → I b') :
    ∀ {b b' : β}, I b → l.foldlM f b = .ok b' → I b' := by
  induction l with
  | nil => intro b b' h0 h; cases h; exact h0
  | cons c l ih =>
    intro b b' h0 h
    rw [List.foldlM_cons] at h
    obtain ⟨b1, h1, h2⟩ := bind_eq_ok.mp h
    exact ih (fun b c b' hc => hstep b c b' (List.mem_cons_of_mem _ hc))
      (hstep b c b1 List.mem_cons_self h0 h1) h2

theorem foldlM_ok {γ : Type} {f : β → γ → Except ε β} {l : List γ}
    (h : ∀ c ∈ l, ∀ b, ∃ b', f b c = .ok b') (b : β) : ∃ b', l.foldlM f b = .ok b' := by
  induction l generalizing b with
  | nil => exact ⟨b, rfl⟩
  | cons c l ih =>
    obtain ⟨b1, h1⟩ := h c List.mem_cons_self b
    obtain ⟨b', hb'⟩ := ih (fun d hd => h d (List.mem_cons_of_mem c hd)) b1
    exact ⟨b', by rw [List.foldlM_cons, h1, ok_bind]; exact hb'⟩

theorem mapM_eq_ok {f : α → Except ε β} {g : α → β} {p : α → Prop} {xs : List α} {ys : List β}
    (h : ∀ x ∈ xs, ∀ y, f x = .ok y ↔ y = g x ∧ p x) :
    xs.mapM f = .ok ys ↔ ys = xs.map g ∧ ∀ x ∈ xs, p x := by
  induction xs generalizing ys with
  | nil =>
    rw [List.mapM_nil]
    exact ⟨fun e => ⟨(Except.ok.inj e).symm, fun _ hx => absurd hx List.not_mem_nil⟩,
      fun e => congrArg Except.ok e.1.symm⟩
  | cons x xs ih =>
    have hx := h x List.mem_cons_self
    have hxs {zs : List β} : xs.mapM f = .ok zs ↔ zs = xs.map g ∧ ∀ z ∈ xs, p z :=
      ih fun z hz => h z (List.mem_cons_of_mem x hz)
    rw [List.mapM_cons, List.map_cons, List.forall_mem_cons]
    constructor
    · intro e
      obtain ⟨y, hy, e⟩ := bind_eq_ok.mp e
      obtain ⟨zs, hzs, e⟩ := bind_eq_ok.mp e
      obtain ⟨rfl, hp⟩ := (hx y).mp hy
      obtain ⟨rfl, hps⟩ := hxs.mp hzs
      exact ⟨(Except.ok.inj e).symm, hp, hps⟩
    · rintro ⟨rfl, hp, hps⟩
      rw [(hx (g x)).mpr ⟨rfl, hp⟩, ok_bind, hxs.mpr ⟨rfl, hps⟩]
      rfl

theorem ok_of_foldlM {γ : Type} {f : β → γ → Except ε β} {l : List γ} {c : γ} (hc : c ∈ l) :
    ∀ {b b' : β}, l.foldlM f b = .ok b' → ∃ b1 b2, f b1 c = .ok b2 := by
  induction l with
  | nil => cases hc
  | cons d l ih =>
    intro b b' h
    rw [List.foldlM_cons] at h
    obtain ⟨b1, h1, h2⟩ := bind_eq_ok.mp h
    rcases List.mem_cons.mp hc with rfl | hc
    · exact ⟨b, b1, h1⟩
    · exact ih hc h2

end Base
