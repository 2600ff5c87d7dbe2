import Mathlib

/-!
# Framing

A stream is a sequence of frames one after the other, each with its code. If no
code is the beginning of another one with something behind it (`PrefixFree`),
what has been received of a stream shows its first frame as soon as it is there
as a whole.
-/

namespace Base

variable {α β : Type}

/-- No two codes begin the same string. -/
def PrefixFree (code : α → List β) : Prop :=
  ∀ a b x y, code a ++ x = code b ++ y → a = b

theorem split_code {c buffer pending rest : List β} (h : buffer ++ pending = c ++ rest)
    (hl : c.length ≤ buffer.length) :
    ∃ r, buffer = c ++ r ∧ r ++ pending = rest := by
  obtain ⟨r, rfl⟩ := List.prefix_of_prefix_length_le (show c <+: buffer ++ pending from
    ⟨rest, h.symm⟩) (List.prefix_append buffer pending) hl
  rw [List.append_assoc] at h
  exact ⟨r, rfl, List.append_cancel_left h⟩

/-- The beginning of a stream consists of whole codes and the beginning of one more. -/
theorem prefix_flatMap_iff {code : α → List β} {l : List α} {buffer : List β} :
    buffer <+: l.flatMap code ↔ ∃ whole rest part, l = whole ++ rest ∧
      buffer = whole.flatMap code ++ part ∧ part <+: (rest.take 1).flatMap code := by
  constructor
  · intro h
    induction l generalizing buffer with
    | nil => exact ⟨[], [], buffer, rfl, rfl, h⟩
    | cons a l ih =>
      rw [List.flatMap_cons] at h
      by_cases hl : buffer.length ≤ (code a).length
      · refine ⟨[], a :: l, buffer, rfl, rfl, ?_⟩
        rw [List.take_succ_cons, List.take_zero, List.flatMap_singleton]
        exact List.prefix_of_prefix_length_le h (List.prefix_append _ _) hl
      · obtain ⟨pending, hp⟩ := h
        obtain ⟨r, rfl, hr⟩ := split_code hp (Nat.le_of_not_le hl)
        obtain ⟨whole, rest, part, rfl, rfl, hpart⟩ := ih ⟨pending, hr⟩
        exact ⟨a :: whole, rest, part, rfl, by rw [List.flatMap_cons, List.append_assoc], hpart⟩
  · rintro ⟨whole, rest, part, rfl, rfl, hpart⟩
    rw [List.flatMap_append]
    refine (List.prefix_append_right_inj _).mpr (hpart.trans ?_)
    conv_rhs => rw [← List.take_append_drop 1 rest, List.flatMap_append]
    exact List.prefix_append _ _

namespace PrefixFree

variable {code : α → List β} {a : α} {coming : List α} {buffer pending rest : List β}

theorem head_eq (hc : PrefixFree code) (hne : ∀ a, code a ≠ [])
    (h : buffer ++ pending = coming.flatMap code) (ha : buffer = code a ++ rest) :
    ∃ more, coming = a :: more ∧ rest ++ pending = more.flatMap code := by
  subst ha
  cases coming with
  | nil =>
    rw [List.flatMap_nil, List.append_eq_nil_iff, List.append_eq_nil_iff] at h
    exact absurd h.1.1 (hne a)
  | cons b more =>
    rw [List.flatMap_cons, List.append_assoc] at h
    obtain rfl := hc a b _ _ h
    exact ⟨more, rfl, List.append_cancel_left h⟩

end PrefixFree

end Base
