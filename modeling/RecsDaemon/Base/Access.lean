import RecsDaemon.Base.Memory

/-!
# Programs over a buffer

`Prog α` is a computation that reads and writes a buffer through its addresses.
`run` is its meaning, `spans` lists the address ranges it touches on the way.
`run_congr`: what a program computes depends only on the bytes in the ranges it
touches, so a program that stays inside a buffer computes the same whatever lies
beyond it.
-/

namespace Base

inductive Prog (α : Type) : Type where
  | ret (a : α)
  | read (off n : Nat) (k : Bytes → Prog α)
  | write (off : Nat) (bs : Bytes) (k : Prog α)
  /-- `n` bytes from outside, at `off`. -/
  | fill (off n : Nat) (src : Mem) (k : Prog α)

namespace Prog

variable {α β : Type}

/-- The result and the memory after it. -/
def run : Prog α → Mem → α × Mem
  | ret a, m => (a, m)
  | read off n k, m => (k (m.read off n)).run m
  | write off bs k, m => k.run (m.write off bs)
  | fill off n src k, m => k.run (m.fill off n src)

/-- The ranges touched, as address and length, in order. -/
def spans : Prog α → Mem → List (Nat × Nat)
  | ret _, _ => []
  | read off n k, m => (off, n) :: (k (m.read off n)).spans m
  | write off bs k, m => (off, bs.length) :: k.spans (m.write off bs)
  | fill off n src k, m => (off, n) :: k.spans (m.fill off n src)

def Inside (size : Nat) (s : Nat × Nat) : Prop := ∀ i < s.2, s.1 + i < size

instance (size : Nat) (s : Nat × Nat) : Decidable (Inside size s) :=
  inferInstanceAs (Decidable (∀ i < s.2, s.1 + i < size))

theorem inside_iff {size off n : Nat} : Inside size (off, n) ↔ n = 0 ∨ off + n ≤ size := by
  constructor
  · intro h
    by_cases hn : n = 0
    · exact .inl hn
    · have := h (n - 1) (by simp only; omega)
      simp only at this
      exact .inr (by omega)
  · rintro (h | h) i hi
    · simp only at hi; omega
    · simp only at hi ⊢; omega

def Within (size : Nat) (p : Prog α) (m : Mem) : Prop := ∀ s ∈ p.spans m, Inside size s

instance (size : Nat) (p : Prog α) (m : Mem) : Decidable (p.Within size m) :=
  inferInstanceAs (Decidable (∀ s ∈ p.spans m, Inside size s))

section Within

variable {size : Nat} {m : Mem}

@[simp] theorem within_ret (a : α) : (ret a).Within size m ↔ True := by simp [Within, spans]

@[simp] theorem within_read {off n : Nat} {k : Bytes → Prog α} :
    (read off n k).Within size m ↔
      (n = 0 ∨ off + n ≤ size) ∧ (k (m.read off n)).Within size m := by
  simp [Within, spans, inside_iff]

@[simp] theorem within_write {off : Nat} {bs : Bytes} {k : Prog α} :
    (write off bs k).Within size m ↔
      (bs.length = 0 ∨ off + bs.length ≤ size) ∧ k.Within size (m.write off bs) := by
  simp [Within, spans, inside_iff]

@[simp] theorem within_fill {off n : Nat} {src : Mem} {k : Prog α} :
    (fill off n src k).Within size m ↔
      (n = 0 ∨ off + n ≤ size) ∧ k.Within size (m.fill off n src) := by
  simp [Within, spans, inside_iff]

end Within

def Agree (size : Nat) (m m' : Mem) : Prop := ∀ a < size, m a = m' a

theorem Agree.read_eq {size off n : Nat} {m m' : Mem} (h : Agree size m m')
    (hb : n = 0 ∨ off + n ≤ size) : m.read off n = m'.read off n :=
  Mem.read_congr fun a h1 h2 => h a (by omega)

theorem Agree.write {size : Nat} {m m' : Mem} (h : Agree size m m') (off : Nat) (bs : Bytes) :
    Agree size (m.write off bs) (m'.write off bs) := by
  intro a ha
  simp only [Mem.write, h a ha]

theorem Agree.fill {size : Nat} {m m' : Mem} (h : Agree size m m') (off n : Nat) (src : Mem) :
    Agree size (m.fill off n src) (m'.fill off n src) := by
  intro a ha
  simp only [Mem.fill, h a ha]

/-- **Locality**: a run inside the buffer does not depend on the bytes beyond it. -/
theorem run_congr {size : Nat} {p : Prog α} {m m' : Mem} (h : Agree size m m')
    (hw : p.Within size m) :
    (p.run m).1 = (p.run m').1 ∧ Agree size (p.run m).2 (p.run m').2 ∧ p.Within size m' := by
  induction p generalizing m m' with
  | ret a => exact ⟨rfl, h, by simp⟩
  | read off n k ih =>
    obtain ⟨hb, hk⟩ := within_read.mp hw
    obtain ⟨h1, h2, h3⟩ := ih _ h hk
    rw [h.read_eq hb] at h1 h2 h3
    exact ⟨by rw [run, run, h.read_eq hb]; exact h1, by rw [run, run, h.read_eq hb]; exact h2,
      within_read.mpr ⟨hb, h3⟩⟩
  | write off bs k ih =>
    obtain ⟨hb, hk⟩ := within_write.mp hw
    obtain ⟨h1, h2, h3⟩ := ih (h.write off bs) hk
    exact ⟨h1, h2, within_write.mpr ⟨hb, h3⟩⟩
  | fill off n src k ih =>
    obtain ⟨hb, hk⟩ := within_fill.mp hw
    obtain ⟨h1, h2, h3⟩ := ih (h.fill off n src) hk
    exact ⟨h1, h2, within_fill.mpr ⟨hb, h3⟩⟩

/-! ## Sequencing -/

def bind : Prog α → (α → Prog β) → Prog β
  | ret a, f => f a
  | read off n k, f => .read off n fun bs => (k bs).bind f
  | write off bs k, f => .write off bs (k.bind f)
  | fill off n src k, f => .fill off n src (k.bind f)

instance : Monad Prog where
  pure := ret
  bind := bind

def readBytes (off n : Nat) : Prog Bytes := .read off n ret

def writeBytes (off : Nat) (bs : Bytes) : Prog Unit := .write off bs (ret ())

def fillBytes (off n : Nat) (src : Mem) : Prog Unit := .fill off n src (ret ())

@[simp] theorem pure_eq (a : α) : (pure a : Prog α) = ret a := rfl

@[simp] theorem readBytes_bind (off n : Nat) (f : Bytes → Prog β) :
    (readBytes off n >>= f) = .read off n f := rfl

@[simp] theorem writeBytes_bind (off : Nat) (bs : Bytes) (f : Unit → Prog β) :
    (writeBytes off bs >>= f) = .write off bs (f ()) := rfl

@[simp] theorem fillBytes_bind (off n : Nat) (src : Mem) (f : Unit → Prog β) :
    (fillBytes off n src >>= f) = .fill off n src (f ()) := rfl

theorem run_bind (p : Prog α) (f : α → Prog β) (m : Mem) :
    (p >>= f).run m = (f (p.run m).1).run (p.run m).2 := by
  show (p.bind f).run m = _
  induction p generalizing m with
  | ret a => rfl
  | read off n k ih => exact ih _ m
  | write off bs k ih => exact ih _
  | fill off n src k ih => exact ih _

theorem within_bind {size : Nat} {p : Prog α} {f : α → Prog β} {m : Mem} :
    (p >>= f).Within size m ↔ p.Within size m ∧ (f (p.run m).1).Within size (p.run m).2 := by
  show (p.bind f).Within size m ↔ _
  induction p generalizing m with
  | ret a => simp [bind, run]
  | read off n k ih => simp [bind, run, ih, and_assoc]
  | write off bs k ih => simp [bind, run, ih, and_assoc]
  | fill off n src k ih => simp [bind, run, ih, and_assoc]

/-! ## Scanning for a zero byte -/

/-- `strlen` of the string at `off`, for a terminator among the first `fuel` bytes. -/
def strlen : Nat → Nat → Prog Nat
  | 0, _ => pure 0
  | fuel + 1, off => do
    let b ← readBytes off 1
    if b = [0] then pure 0 else do
      let n ← strlen fuel (off + 1)
      pure (n + 1)

theorem strlen_spec (size fuel off : Nat) {k : Nat} {m : Mem} (hk : k < fuel) (h0 : m (off + k) = 0)
    (hs : off + k < size) :
    ((strlen fuel off).run m).1 ≤ k ∧ ((strlen fuel off).run m).2 = m ∧
      (strlen fuel off).Within size m := by
  induction fuel generalizing off k with
  | zero => omega
  | succ fuel ih =>
    by_cases hb : m off = 0
    · simp [strlen, run, Mem.read_one, hb]; omega
    · obtain ⟨k, rfl⟩ : ∃ j, k = j + 1 := by
        refine ⟨k - 1, ?_⟩
        rcases Nat.eq_zero_or_pos k with rfl | h
        · exact absurd h0 hb
        · omega
      obtain ⟨h1, h2, h3⟩ := ih (off + 1) (k := k) (by omega)
        (by rwa [show off + 1 + k = off + (k + 1) by omega]) (by omega)
      have hr : (strlen (fuel + 1) off).run m =
          (((strlen fuel (off + 1)).run m).1 + 1, ((strlen fuel (off + 1)).run m).2) := by
        simp only [strlen, readBytes_bind, run, Mem.read_one, List.cons.injEq, hb, false_and,
          if_false, run_bind, pure_eq]
      refine ⟨by rw [hr]; exact Nat.succ_le_succ h1, by rw [hr]; exact h2, ?_⟩
      simp only [strlen, readBytes_bind, within_read, Mem.read_one, List.cons.injEq, hb, if_false,
        within_bind, pure_eq, within_ret, and_true]
      exact ⟨.inr (by omega), h3⟩

end Prog

end Base
