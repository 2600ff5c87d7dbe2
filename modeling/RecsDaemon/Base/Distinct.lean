import Mathlib

/-!
# Distinct elements

`xs.eraseDups` are the elements of `xs` in the order they first come up in. What
comes later never moves them, so an element's place among them is settled when it
first comes up: it is the number of distinct elements before.
-/

namespace Base

variable {α : Type} [BEq α] [LawfulBEq α]

theorem eraseDups_concat (xs : List α) (x : α) :
    (xs ++ [x]).eraseDups = if x ∈ xs then xs.eraseDups else xs.eraseDups ++ [x] := by
  rw [List.eraseDups_append]
  by_cases h : x ∈ xs
  · simp [h, List.removeAll]
  · simp [h, List.removeAll, List.eraseDups_cons]

theorem nodup_eraseDups (xs : List α) : xs.eraseDups.Nodup := by
  induction xs using List.reverseRecOn with
  | nil => simp
  | append_singleton xs x ih =>
    rw [eraseDups_concat]
    split
    · exact ih
    · next h =>
      refine ih.append (List.nodup_singleton x) (List.disjoint_singleton.mpr fun hx => ?_)
      exact h (List.mem_eraseDups.mp hx)

theorem idxOf_eraseDups_append {x : α} {xs : List α} (h : x ∈ xs) (ys : List α) :
    (xs ++ ys).eraseDups.idxOf x = xs.eraseDups.idxOf x := by
  rw [List.eraseDups_append, List.idxOf_append_of_mem (List.mem_eraseDups.mpr h)]

theorem idxOf_eraseDups_new {x : α} {xs : List α} (h : x ∉ xs) (ys : List α) :
    (xs ++ x :: ys).eraseDups.idxOf x = xs.eraseDups.length := by
  have hx : (xs ++ [x]).eraseDups = xs.eraseDups ++ [x] := by rw [eraseDups_concat, if_neg h]
  have hmem : x ∈ xs ++ [x] := by simp
  rw [show xs ++ x :: ys = (xs ++ [x]) ++ ys by simp, idxOf_eraseDups_append hmem, hx,
    List.idxOf_append_of_notMem (fun hm => h (List.mem_eraseDups.mp hm)), List.idxOf_cons_self,
    Nat.add_zero]

end Base
