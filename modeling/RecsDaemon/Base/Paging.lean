import Mathlib

/-!
# Cutting a list into pages

Page `p`, counted from `0`, of a list cut into pages of `k` entries. The pages
of a list in order are the list, each of its elements once.
-/

namespace Base

variable {α : Type}

def page (k : Nat) (l : List α) (p : Nat) : List α := (l.drop (p * k)).take k

/-- The number of pages of `k` entries that `n` entries fill. -/
def pageCount (k n : Nat) : Nat := (n + k - 1) / k

theorem length_page (k : Nat) (l : List α) (p : Nat) :
    (page k l p).length = min k (l.length - p * k) := by
  simp [page]

theorem pageCount_mul_ge {k : Nat} (hk : 0 < k) (n : Nat) : n ≤ pageCount k n * k := by
  have h := Nat.lt_div_mul_add (a := n + k - 1) hk
  unfold pageCount; omega

theorem pageCount_pos {k n : Nat} (hn : 0 < n) (hk : 0 < k) : 0 < pageCount k n :=
  Nat.div_pos (by omega) hk

theorem pageCount_sub_one_mul_lt {k n : Nat} (hk : 0 < k) (hn : 0 < n) :
    (pageCount k n - 1) * k < n := by
  have h := Nat.div_mul_le_self (n + k - 1) k
  have h1 : 0 < pageCount k n := pageCount_pos hn hk
  have h2 : (pageCount k n - 1) * k + k = pageCount k n * k := by
    rw [← Nat.succ_mul]; congr 1; omega
  have h3 : pageCount k n * k ≤ n + k - 1 := h
  omega

theorem pageCount_eq {k : Nat} (hk : 0 < k) (n : Nat) :
    pageCount k n = n / k + if n % k = 0 then 0 else 1 := by
  have hn := Nat.div_add_mod n k
  have hr := Nat.mod_lt n hk
  have h : n + k - 1 = (n % k + k - 1) + k * (n / k) := by omega
  rw [pageCount, h, Nat.add_mul_div_left _ _ hk, Nat.add_comm]
  congr 1
  split
  · exact Nat.div_eq_of_lt (by omega)
  · rw [Nat.div_eq_iff hk]; omega

theorem full_page {k n p : Nat} (hk : 0 < k) (h : p + 1 < pageCount k n) :
    k ≤ n - p * k := by
  have h1 : (p + 1) * k ≤ (pageCount k n - 1) * k := Nat.mul_le_mul_right k (by omega)
  have hn : 0 < n := by
    rcases Nat.eq_zero_or_pos n with rfl | hn
    · rw [pageCount_eq hk] at h; simp at h
    · exact hn
  have h2 := pageCount_sub_one_mul_lt hk hn
  rw [Nat.succ_mul] at h1
  omega

theorem last_page {k n p : Nat} (hk : 0 < k) (h : p + 1 = pageCount k n) :
    n - p * k = if n % k = 0 then k else n % k := by
  have hn := Nat.div_add_mod n k
  rw [Nat.mul_comm] at hn
  rw [pageCount_eq hk] at h
  split at h
  · next h0 =>
    have hp : n / k * k = p * k + k := by rw [← Nat.succ_mul]; congr 1; omega
    rw [if_pos h0]; omega
  · next h0 =>
    have hp : n / k = p := by omega
    rw [if_neg h0, ← hp]; omega

theorem flatten_pages_take (k : Nat) (l : List α) (m : Nat) :
    ((List.range m).map (page k l)).flatten = l.take (m * k) := by
  induction m with
  | zero => simp
  | succ m ih =>
    rw [List.range_succ, List.map_append, List.flatten_append, ih, Nat.succ_mul, List.take_add]
    simp [page]

theorem flatten_pages {k m : Nat} {l : List α} (h : l.length ≤ m * k) :
    ((List.range m).map (page k l)).flatten = l := by
  rw [flatten_pages_take, List.take_of_length_le h]

theorem sum_length_pages {k : Nat} {l : List α} {p : Nat} (h : p * k ≤ l.length) :
    (((List.range p).map (page k l)).map List.length).sum = p * k := by
  rw [← List.length_flatten, flatten_pages_take, List.length_take, Nat.min_eq_left h]

/-- Pages that are not all full list each element at most once. -/
theorem pages_sublist {k n : Nat} {l : List α} {c : Nat → Nat}
    (hc : ∀ i < n, c i ≤ k) :
    ((List.range n).flatMap fun i => (l.drop (i * k)).take (c i)).Sublist l := by
  have h : ((List.range n).flatMap fun i => (l.drop (i * k)).take (c i)).Sublist
      (l.take (n * k)) := by
    induction n with
    | zero => simp
    | succ n ih =>
      rw [List.range_succ, List.flatMap_append, List.flatMap_singleton, Nat.succ_mul, List.take_add]
      exact (ih fun i hi => hc i (by omega)).append (List.take_sublist_take_left (hc n (by omega)))
  exact h.trans (List.take_sublist _ _)

end Base
