import Mathlib

/-!
# Lines

The lines of a stream are what its terminators end; `remainder` is what follows
the last of them. A reader whose buffer takes `n` elements gives a line up as
soon as the buffer is full (`pieces`), so it finds the lines exactly if all of
them are shorter (`pieces_eq_lines_iff`). `takeThrough` cuts a list behind the
first element that ends it.
-/

namespace Base

variable {α : Type}

/-! ## Cutting behind an element -/

/-- The list up to the first element with `p`, this one included. -/
def takeThrough (p : α → Bool) : List α → List α
  | [] => []
  | x :: xs => x :: if p x then [] else takeThrough p xs

/-- A list is cut at the first place of an element. -/
theorem cut_at [DecidableEq α] {x : α} {as bs : List α} (h : x ∉ as) :
    (as ++ x :: bs).takeWhile (· ≠ x) = as ∧ (as ++ x :: bs).dropWhile (· ≠ x) = x :: bs := by
  have hp : ∀ c ∈ as, decide (c ≠ x) = true := fun c hc => decide_eq_true fun e => h (e ▸ hc)
  refine ⟨?_, ?_⟩
  · rw [List.takeWhile_append_of_pos hp, List.takeWhile_cons_of_neg (by simp), List.append_nil]
  · rw [List.dropWhile_append_of_pos hp, List.dropWhile_cons_of_neg (by simp)]

/-! ## Lines -/

section Lines

variable [DecidableEq α]

/-- The lines of the stream, `held` being what came of the first one before. -/
def lines (nl : α) : List α → List α → List (List α)
  | _, [] => []
  | held, c :: cs => if c = nl then held :: lines nl [] cs else lines nl (held ++ [c]) cs

def remainder (nl : α) : List α → List α → List α
  | held, [] => held
  | held, c :: cs => if c = nl then remainder nl [] cs else remainder nl (held ++ [c]) cs

/-- What a reader gives out whose buffer takes `n` elements. -/
def pieces (n : Nat) (nl : α) : List α → List α → List (List α)
  | _, [] => []
  | held, c :: cs =>
    if c = nl then held :: pieces n nl [] cs
    else if held.length + 1 = n then (held ++ [c]) :: pieces n nl [] cs
    else pieces n nl (held ++ [c]) cs

/-- What the buffer of the reader holds at the end. -/
def unfinished (n : Nat) (nl : α) : List α → List α → List α
  | held, [] => held
  | held, c :: cs =>
    if c = nl then unfinished n nl [] cs
    else if held.length + 1 = n then unfinished n nl [] cs
    else unfinished n nl (held ++ [c]) cs

variable {n : Nat} {nl : α} {p : List α → Bool}

theorem lines_cases (held s : List α) :
    lines nl held s = [] ∧ held <+: remainder nl held s ∨
      ∃ l ls, lines nl held s = (held ++ l) :: ls ∧ (l = [] → ∃ s', s = nl :: s' ∧
        ls = lines nl [] s') := by
  induction s generalizing held with
  | nil => exact .inl ⟨rfl, List.prefix_refl _⟩
  | cons c cs ih =>
    by_cases hc : c = nl
    · subst hc
      refine .inr ⟨[], lines c [] cs, ?_, fun _ => ⟨cs, rfl, rfl⟩⟩
      rw [lines, if_pos rfl, List.append_nil]
    · rw [lines, if_neg hc, remainder, if_neg hc]
      rcases ih (held ++ [c]) with ⟨h, hp⟩ | ⟨l, ls, h, -⟩
      · exact .inl ⟨h, (List.prefix_append _ _).trans hp⟩
      · refine .inr ⟨c :: l, ls, ?_, nofun⟩
        rw [h, List.append_assoc, List.singleton_append]

theorem lines_ne_nil_cons_pieces (hp : p [] = false) (s : List α) :
    takeThrough p (lines nl [] s) ≠ [] :: takeThrough p (pieces n nl [] s) := by
  induction s with
  | nil => nofun
  | cons c cs ih =>
    intro h
    by_cases hc : c = nl
    · rw [lines, if_pos hc, pieces, if_pos hc, takeThrough, takeThrough, hp] at h
      exact ih (List.cons.inj h).2
    · rcases @lines_cases α _ nl [] (c :: cs) with ⟨he, -⟩ | ⟨l, ls, he, hl⟩
      · rw [he] at h; cases h
      · rw [he, takeThrough, List.nil_append] at h
        obtain ⟨s', hs, -⟩ := hl (List.cons.inj h).1
        exact hc (List.cons.inj hs).1

/-- **The reader finds the lines exactly if each of them is shorter than the buffer**, up to one that
ends the session, which is neither empty nor too long. -/
theorem pieces_eq_lines_iff (hp : p [] = false) (hlong : ∀ l, n ≤ l.length → p l = false)
    (s : List α) {held : List α} (hh : held.length < n) :
    takeThrough p (pieces n nl held s) = takeThrough p (lines nl held s) ↔
      (∀ l ∈ takeThrough p (lines nl held s), l.length < n) ∧
        ((∀ l ∈ lines nl held s, p l = false) → (remainder nl held s).length < n) := by
  induction s generalizing held with
  | nil => simp [pieces, lines, remainder, takeThrough, hh]
  | cons c cs ih =>
    by_cases hc : c = nl
    · have h0 : ([] : List α).length < n := Nat.lt_of_le_of_lt (Nat.zero_le _) hh
      rw [pieces, if_pos hc, lines, if_pos hc, remainder, if_pos hc, takeThrough, takeThrough]
      cases hph : p held with
      | true => simp [hh, hph]
      | false => simp [hh, hph, ih h0]
    · rw [pieces, if_neg hc, lines, if_neg hc, remainder, if_neg hc]
      by_cases hfull : held.length + 1 = n
      · -- the buffer is full within a line
        have hl : (held ++ [c]).length = n := by rw [List.length_append]; exact hfull
        rw [if_pos hfull, takeThrough, hlong _ (Nat.le_of_eq hl.symm), if_neg Bool.false_ne_true]
        refine iff_of_false (fun h => ?_) fun h => ?_
        · rcases @lines_cases α _ nl (held ++ [c]) cs with ⟨he, -⟩ | ⟨l, ls, he, hnil⟩
          · rw [he] at h; cases h
          · rw [he, takeThrough] at h
            obtain ⟨h1, h2⟩ := List.cons.inj h
            have hnil' : l = [] := List.self_eq_append_right.mp h1
            obtain ⟨s', rfl, rfl⟩ := hnil hnil'
            rw [hnil', List.append_nil, hlong _ (Nat.le_of_eq hl.symm), if_neg Bool.false_ne_true,
              pieces, if_pos rfl, takeThrough, hp, if_neg Bool.false_ne_true] at h2
            exact lines_ne_nil_cons_pieces hp s' h2.symm
        · rcases @lines_cases α _ nl (held ++ [c]) cs with ⟨he, hpre⟩ | ⟨l, ls, he, -⟩
          · have hlt := h.2 (by rw [he]; nofun)
            have hle := hpre.length_le
            omega
          · have hlt := h.1 (held ++ [c] ++ l) (by rw [he, takeThrough]; exact List.mem_cons_self)
            rw [List.length_append] at hlt
            omega
      · rw [if_neg hfull]
        exact ih (by rw [List.length_append]; simp only [List.length_singleton]; omega)

theorem lines_append {l : List α} (h : nl ∉ l) (held s : List α) :
    lines nl held (l ++ nl :: s) = (held ++ l) :: lines nl [] s := by
  induction l generalizing held with
  | nil => rw [List.nil_append, lines, if_pos rfl, List.append_nil]
  | cons c cs ih =>
    have hc : c ≠ nl := fun e => h (e ▸ List.mem_cons_self)
    rw [List.cons_append, lines, if_neg hc, ih fun hm => h (List.mem_cons_of_mem _ hm),
      List.append_assoc, List.singleton_append]

theorem pieces_full {l : List α} (h : nl ∉ l) (hl : l ≠ []) (held s : List α)
    (hn : held.length + l.length = n) :
    pieces n nl held (l ++ s) = (held ++ l) :: pieces n nl [] s := by
  induction l generalizing held with
  | nil => exact absurd rfl hl
  | cons c cs ih =>
    have hc : c ≠ nl := fun e => h (e ▸ List.mem_cons_self)
    rw [List.length_cons] at hn
    rw [List.cons_append, pieces, if_neg hc]
    by_cases hcs : cs = []
    · subst hcs
      have hone : held.length + 1 = n := hn
      rw [if_pos hone, List.nil_append]
    · have hpos := List.length_pos_of_ne_nil hcs
      have hlen : (held ++ [c]).length = held.length + 1 := List.length_append
      rw [if_neg (by omega), ih (fun hm => h (List.mem_cons_of_mem _ hm)) hcs _ (by omega),
        List.append_assoc, List.singleton_append]

/-- A line that is not longer than the buffer; where it is as long the terminator makes an empty
piece. -/
theorem pieces_line {l : List α} (h : nl ∉ l) (held s : List α) (hn : held.length + l.length ≤ n)
    (hheld : held.length < n) :
    pieces n nl held (l ++ nl :: s) = (held ++ l) ::
        ((if held.length + l.length = n then [[]] else []) ++ pieces n nl [] s) ∧
      unfinished n nl held (l ++ nl :: s) = unfinished n nl [] s := by
  induction l generalizing held with
  | nil =>
    have hne : ¬ held.length + ([] : List α).length = n := by
      rw [List.length_nil]
      omega
    rw [List.nil_append, pieces, if_pos rfl, unfinished, if_pos rfl, if_neg hne, List.append_nil,
      List.nil_append]
    exact ⟨rfl, rfl⟩
  | cons c cs ih =>
    have hc : c ≠ nl := fun e => h (e ▸ List.mem_cons_self)
    have hcs : nl ∉ cs := fun hm => h (List.mem_cons_of_mem _ hm)
    rw [List.length_cons] at hn
    rw [List.cons_append, pieces, if_neg hc, unfinished, if_neg hc, List.length_cons]
    by_cases hfull : held.length + 1 = n
    · obtain rfl : cs = [] := List.eq_nil_of_length_eq_zero (by omega)
      rw [if_pos hfull, if_pos hfull, if_pos (by rw [List.length_nil]; omega), List.nil_append, pieces,
        if_pos rfl, unfinished, if_pos rfl]
      exact ⟨rfl, rfl⟩
    · have hlen : (held ++ [c]).length = held.length + 1 := List.length_append
      have hsame : held.length + 1 + cs.length = n ↔ held.length + (cs.length + 1) = n := by omega
      obtain ⟨h1, h2⟩ := ih hcs (held ++ [c]) (by omega) (by omega)
      rw [if_neg hfull, if_neg hfull, h1, h2, hlen, List.append_assoc, List.singleton_append]
      simp only [hsame, and_self]

theorem mem_pieces {held s l : List α} {c : α} (hl : l ∈ pieces n nl held s) (hc : c ∈ l) :
    c ∈ held ∨ c ∈ s := by
  induction s generalizing held with
  | nil => cases hl
  | cons b bs ih =>
    have hnil (h : l ∈ pieces n nl [] bs) : c ∈ held ∨ c ∈ b :: bs :=
      .inr (List.mem_cons_of_mem _ ((ih h).resolve_left List.not_mem_nil))
    have happend (h : c ∈ held ++ [b]) : c ∈ held ∨ c ∈ b :: bs := by
      rcases List.mem_append.mp h with h | h
      · exact .inl h
      · exact .inr (List.mem_singleton.mp h ▸ List.mem_cons_self)
    rw [pieces] at hl
    split at hl
    · rcases List.mem_cons.mp hl with rfl | h
      · exact .inl hc
      · exact hnil h
    split at hl
    · rcases List.mem_cons.mp hl with rfl | h
      · exact happend hc
      · exact hnil h
    · rcases ih hl with h | h
      · exact happend h
      · exact .inr (List.mem_cons_of_mem _ h)

theorem piece_of_mem {held s l : List α} (hheld : nl ∉ held) (hn : held.length < n)
    (hl : l ∈ pieces n nl held s) : nl ∉ l ∧ l.length ≤ n := by
  induction s generalizing held with
  | nil => cases hl
  | cons c cs ih =>
    have h0 : ([] : List α).length < n := Nat.lt_of_le_of_lt (Nat.zero_le _) hn
    have hlen : (held ++ [c]).length = held.length + 1 := List.length_append
    rw [pieces] at hl
    split at hl
    · rcases List.mem_cons.mp hl with rfl | hl
      · exact ⟨hheld, Nat.le_of_lt hn⟩
      · exact ih List.not_mem_nil h0 hl
    next hc =>
    have hmore : nl ∉ held ++ [c] := fun h => (List.mem_append.mp h).elim hheld fun h =>
      hc (List.mem_singleton.mp h).symm
    split at hl
    · rcases List.mem_cons.mp hl with rfl | hl
      · exact ⟨hmore, by omega⟩
      · exact ih List.not_mem_nil h0 hl
    · exact ih hmore (by omega) hl

theorem piece_unfinished {held s : List α} (hheld : nl ∉ held) (hn : held.length < n) :
    nl ∉ unfinished n nl held s ∧ (unfinished n nl held s).length ≤ n := by
  induction s generalizing held with
  | nil => exact ⟨hheld, Nat.le_of_lt hn⟩
  | cons c cs ih =>
    have h0 : ([] : List α).length < n := Nat.lt_of_le_of_lt (Nat.zero_le _) hn
    have hlen : (held ++ [c]).length = held.length + 1 := List.length_append
    rw [unfinished]
    split
    · exact ih List.not_mem_nil h0
    next hc =>
    split
    · exact ih List.not_mem_nil h0
    · refine ih (fun h => ?_) (by omega)
      exact (List.mem_append.mp h).elim hheld fun h => hc (List.mem_singleton.mp h).symm

theorem pieces_map {β : Type} [DecidableEq β] {nl' : β} {f : α → β} (hf : ∀ c, f c = nl' ↔ c = nl)
    (held s : List α) :
    pieces n nl' (held.map f) (s.map f) = (pieces n nl held s).map (List.map f) := by
  induction s generalizing held with
  | nil => rfl
  | cons c cs ih =>
    have h0 := ih []
    have h1 := ih (held ++ [c])
    rw [List.map_append, List.map_singleton] at h1
    rw [List.map_nil] at h0
    rw [List.map_cons, pieces, pieces, List.length_map]
    by_cases hc : c = nl
    · rw [if_pos hc, if_pos ((hf c).mpr hc), h0, List.map_cons]
    · rw [if_neg hc, if_neg fun h => hc ((hf c).mp h)]
      split
      · rw [h0, List.map_cons, List.map_append, List.map_singleton]
      · exact h1

end Lines

end Base
