import Mathlib

/-!
# Lists of entries with keys

A list that is searched from its front for the entry of a key. `put` replaces
the entry of its key where it stands or adds it at the end; so the keys stay
distinct (`nodup_put`), and what was put last is found (`entryOf_put`).
-/

namespace Base

variable {α κ : Type} [DecidableEq κ] {key : α → κ} {k : κ} {x y : α} {xs : List α}

/-- The first entry of a key. -/
def entryOf (key : α → κ) (k : κ) (xs : List α) : Option α := xs.find? (key · = k)

def put (key : α → κ) (y : α) : List α → List α
  | [] => [y]
  | x :: xs => if key x = key y then y :: xs else x :: put key y xs

theorem entryOf_cons (key : α → κ) (k : κ) (x : α) (xs : List α) :
    entryOf key k (x :: xs) = if key x = k then some x else entryOf key k xs := by
  unfold entryOf
  by_cases h : key x = k
  · rw [if_pos h, List.find?_cons_of_pos (by simpa using h)]
  · rw [if_neg h, List.find?_cons_of_neg (by simpa using h)]

theorem key_of_entryOf (h : entryOf key k xs = some x) : key x = k := by
  simpa using List.find?_some h

theorem mem_of_entryOf (h : entryOf key k xs = some x) : x ∈ xs := List.mem_of_find?_eq_some h

theorem entryOf_eq_none : entryOf key k xs = none ↔ k ∉ xs.map key := by
  simp [entryOf]

/-- What is put is found, and nothing else moves. -/
theorem entryOf_put (key : α → κ) (k : κ) (y : α) (xs : List α) :
    entryOf key k (put key y xs) = if key y = k then some y else entryOf key k xs := by
  induction xs with
  | nil => exact entryOf_cons key k y []
  | cons x xs ih =>
    rw [put]
    split
    · next hx =>
      rw [entryOf_cons, entryOf_cons, hx]
      split <;> rfl
    · next hx =>
      rw [entryOf_cons, ih, entryOf_cons]
      by_cases hk : key x = k
      · rw [if_pos hk, if_pos hk, if_neg fun hy => hx (hk.trans hy.symm)]
      · rw [if_neg hk, if_neg hk]

theorem put_ne_nil (key : α → κ) (y : α) (xs : List α) : put key y xs ≠ [] := by
  cases xs with
  | nil => exact List.cons_ne_nil _ _
  | cons x xs =>
    rw [put]
    split <;> exact List.cons_ne_nil _ _

theorem mem_put (h : x ∈ put key y xs) : x = y ∨ x ∈ xs := by
  induction xs with
  | nil => exact .inl (List.mem_singleton.mp h)
  | cons z xs ih =>
    rw [put] at h
    split at h
    · exact (List.mem_cons.mp h).imp id (List.mem_cons_of_mem z)
    · rcases List.mem_cons.mp h with rfl | h
      · exact .inr List.mem_cons_self
      · exact (ih h).imp id (List.mem_cons_of_mem z)

theorem put_new (key : α → κ) (h : key y ∉ xs.map key) : put key y xs = xs ++ [y] := by
  induction xs with
  | nil => rfl
  | cons x xs ih =>
    rw [List.map_cons, List.mem_cons, not_or] at h
    rw [put, if_neg fun hx => h.1 hx.symm, ih h.2, List.cons_append]

theorem put_last (key : α → κ) (h : key y ∉ xs.map key) (hx : key x = key y) :
    put key y (xs ++ [x]) = xs ++ [y] ∧ entryOf key (key y) (xs ++ [x]) = some x := by
  induction xs with
  | nil =>
    rw [List.nil_append, put, if_pos hx, entryOf_cons, if_pos hx]
    exact ⟨rfl, rfl⟩
  | cons z xs ih =>
    rw [List.map_cons, List.mem_cons, not_or] at h
    have hz : ¬ key z = key y := fun e => h.1 e.symm
    obtain ⟨h1, h2⟩ := ih h.2
    rw [List.cons_append, put, if_neg hz, h1, entryOf_cons, if_neg hz, h2]
    exact ⟨rfl, rfl⟩

theorem entryOf_map (key : α → κ) (f : α → α) (hf : ∀ x, key (f x) = key x) (k : κ) (xs : List α) :
    entryOf key k (xs.map f) = (entryOf key k xs).map f := by
  induction xs with
  | nil => rfl
  | cons x xs ih =>
    rw [List.map_cons, entryOf_cons, entryOf_cons, hf, ih]
    split <;> rfl

theorem map_put (h : key y ∈ xs.map key) : (put key y xs).map key = xs.map key := by
  induction xs with
  | nil => cases h
  | cons x xs ih =>
    rw [put]
    split
    · next hx => rw [List.map_cons, List.map_cons, hx]
    · next hx =>
      rw [List.map_cons, List.mem_cons] at h
      rw [List.map_cons, ih (h.resolve_left fun hy => hx hy.symm), List.map_cons]

theorem nodup_put (h : (xs.map key).Nodup) (y : α) : ((put key y xs).map key).Nodup := by
  by_cases hy : key y ∈ xs.map key
  · rwa [map_put hy]
  · rw [put_new key hy, List.map_append, List.map_singleton]
    exact List.nodup_append.mpr ⟨h, List.nodup_singleton _, fun a ha b hb hab =>
      hy (List.mem_singleton.mp hb ▸ hab ▸ ha)⟩

end Base
