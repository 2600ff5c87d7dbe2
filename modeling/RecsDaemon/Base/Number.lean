import RecsDaemon.Base.Decimal

/-!
# Numbers in texts

`intText` writes an integer as `printf` does with `%d`. `readInt` reads the
integer at the front of a text as `strtol` and the extraction from a stream do:
space, a sign, digits, up to the first character that is none. What is written
is read back (`readInt_intText`).
-/

namespace Base

/-! ## Space -/

/-- `isspace` in the C locale. -/
def isSpace (c : UInt8) : Bool := c == 32 || (9 ≤ c && c ≤ 13)

/-- The text without the space at its two ends. -/
def trim (s : Bytes) : Bytes := ((s.dropWhile isSpace).reverse.dropWhile isSpace).reverse

/-- The text without the space at its right end. -/
def trimRight (s : Bytes) : Bytes := (s.reverse.dropWhile isSpace).reverse

def Blank (s : Bytes) : Prop := ∀ c ∈ s, isSpace c = true

instance : DecidablePred Blank := fun b => inferInstanceAs (Decidable (∀ c ∈ b, isSpace c = true))

def Trimmed (s : Bytes) : Prop := s.head?.all (!isSpace ·) ∧ s.getLast?.all (!isSpace ·)

theorem dropWhile_of_head {α : Type} {p : α → Bool} {s : List α} (h : s.head?.all (!p ·)) :
    s.dropWhile p = s := by
  cases s with
  | nil => rfl
  | cons c s =>
    have hc : p c = false := by simpa using h
    rw [List.dropWhile_cons, hc, if_neg Bool.false_ne_true]

theorem trim_of_trimmed {s : Bytes} (h : Trimmed s) : trim s = s := by
  unfold trim
  rw [dropWhile_of_head h.1, dropWhile_of_head (List.head?_reverse ▸ h.2), List.reverse_reverse]

theorem dropWhile_append_cons {α : Type} {p : α → Bool} {c : α} (hc : p c = false)
    (front s : List α) : (front ++ c :: s).dropWhile p = front.dropWhile p ++ c :: s := by
  rw [List.dropWhile_append]
  split
  · next h =>
    rw [List.isEmpty_iff.mp h, List.dropWhile_cons, hc, if_neg Bool.false_ne_true, List.nil_append]
  · rfl

theorem trim_append_cons {c : UInt8} (hc : isSpace c = false) (front s : Bytes) :
    ∃ s', s' <+: s ∧ trim (front ++ c :: s) = front.dropWhile isSpace ++ c :: s' := by
  refine ⟨(s.reverse.dropWhile isSpace).reverse, ?_, ?_⟩
  · rw [← List.reverse_suffix, List.reverse_reverse]
    exact List.dropWhile_suffix isSpace
  · unfold trim
    rw [dropWhile_append_cons hc, List.reverse_append, List.reverse_cons, List.append_assoc,
      List.singleton_append, dropWhile_append_cons hc, List.reverse_append, List.reverse_cons,
      List.reverse_reverse, List.append_assoc, List.singleton_append]

theorem trimRight_append_cons {c : UInt8} (hc : isSpace c = false) (front s : Bytes) :
    trimRight (front ++ c :: s) = front ++ c :: trimRight s := by
  unfold trimRight
  rw [List.reverse_append, List.reverse_cons, List.append_assoc, List.singleton_append,
    dropWhile_append_cons hc, List.reverse_append, List.reverse_cons, List.reverse_reverse,
    List.append_assoc, List.singleton_append]

theorem Blank.trimRight_eq {s : Bytes} (h : Blank s) : trimRight s = [] := by
  rw [trimRight, List.reverse_eq_nil_iff, List.dropWhile_eq_nil_iff]
  exact fun c hc => h c (List.mem_reverse.mp hc)

theorem trimRight_isPrefix (s : Bytes) : trimRight s <+: s := by
  rw [← List.reverse_suffix, trimRight, List.reverse_reverse]
  exact List.dropWhile_suffix isSpace

/-- A text with a first and a last character, none of them space. -/
structure Solid (s : Bytes) : Prop where
  ne_nil : s ≠ []
  trimmed : Trimmed s

theorem solid_between {a b : UInt8} (ha : isSpace a = false) (hb : isSpace b = false) (t : Bytes) :
    Solid (a :: t ++ [b]) := by
  refine ⟨List.cons_ne_nil _ _, ?_, ?_⟩
  · simpa using ha
  · rw [List.getLast?_concat]
    simpa using hb

theorem solid_of_forall {t : Bytes} (h0 : t ≠ []) (h : ∀ c ∈ t, isSpace c = false) : Solid t := by
  refine ⟨h0, ?_, ?_⟩
  · cases hh : t.head? with
    | none => rfl
    | some c => simpa using h c (List.mem_of_head? hh)
  · cases hl : t.getLast? with
    | none => rfl
    | some c => simpa using h c (List.mem_of_getLast? hl)

theorem Solid.trimRight_around {t : Bytes} (h : Solid t) (a x : Bytes) :
    trimRight (a ++ t ++ x) = a ++ t ++ trimRight x := by
  rcases List.eq_nil_or_concat' t with rfl | ⟨t', d, rfl⟩
  · exact absurd rfl h.ne_nil
  · have hd : isSpace d = false := by
      have hlast := h.trimmed.2
      rw [List.getLast?_concat] at hlast
      simpa using hlast
    rw [← List.append_assoc, List.append_assoc _ [d], List.singleton_append, trimRight_append_cons hd,
      List.append_assoc _ [d], List.singleton_append]

theorem Solid.trim_around {a t : Bytes} (ha : Blank a) (h : Solid t) (x : Bytes) :
    trim (a ++ t ++ x) = t ++ trimRight x := by
  have hleft : (a ++ t ++ x).dropWhile isSpace = [] ++ t ++ x := by
    obtain ⟨c, t', rfl⟩ := List.exists_cons_of_ne_nil h.ne_nil
    have hc : isSpace c = false := by simpa using h.trimmed.1
    rw [List.append_assoc, List.dropWhile_append_of_pos ha, List.cons_append, List.dropWhile_cons, hc,
      if_neg Bool.false_ne_true]
    rfl
  have hright := h.trimRight_around [] x
  rw [trimRight] at hright
  rw [trim, hleft, hright, List.nil_append]

theorem length_trim_le (s : Bytes) : (trim s).length ≤ s.length := by
  have h1 := (List.dropWhile_suffix isSpace (l := (s.dropWhile isSpace).reverse)).length_le
  have h2 := (List.dropWhile_suffix isSpace (l := s)).length_le
  rw [List.length_reverse] at h1
  rw [trim, List.length_reverse]
  exact h1.trans h2

theorem trim_isInfix (s : Bytes) : trim s <:+: s := by
  have h1 := (List.dropWhile_suffix isSpace (l := (s.dropWhile isSpace).reverse)).isInfix
  have h2 := (List.dropWhile_suffix isSpace (l := s)).isInfix
  have h3 := List.reverse_infix.mpr h1
  rw [List.reverse_reverse] at h3
  exact h3.trans h2

/-! ## Writing -/

/-- The last digits of a number, as many as there are, up to `fuel`. -/
def lastDigits : Nat → Nat → Bytes
  | 0, _ => []
  | fuel + 1, n => (if n < 10 then [] else lastDigits fuel (n / 10)) ++ [UInt8.ofNat (48 + n % 10)]

/-- A number in decimal. A number has fewer digits than it counts, but for zero. -/
def decimalText (n : Nat) : Bytes := lastDigits (n + 1) n

/-- `%d`. -/
def intText (v : Int) : Bytes :=
  if v < 0 then 45 :: decimalText v.natAbs else decimalText v.natAbs

example : intText (-705) = ascii "-705" := by decide

theorem toNat_digit {d : Nat} (h : d < 10) : (UInt8.ofNat (48 + d)).toNat = 48 + d := by
  rw [UInt8.toNat_ofNat', Nat.mod_eq_of_lt (by omega)]

theorem isDigit_digit {d : Nat} (h : d < 10) : isDigit (UInt8.ofNat (48 + d)) = true := by
  rw [isDigit_iff, toNat_digit h]
  omega

theorem digitsValue_concat (s : Bytes) (c : UInt8) :
    digitsValue (s ++ [c]) = (c.toNat - 48) + 10 * digitsValue s := by
  unfold digitsValue
  rw [List.reverse_append, List.reverse_singleton, List.singleton_append, List.map_cons,
    Nat.ofDigits_cons]

theorem digitsValue_lastDigits {fuel n : Nat} (h : n < fuel) :
    digitsValue (lastDigits fuel n) = n := by
  induction fuel generalizing n with
  | zero => omega
  | succ fuel ih =>
    rw [lastDigits, digitsValue_concat, toNat_digit (Nat.mod_lt n (by decide))]
    split
    · have hnil : digitsValue [] = 0 := rfl
      rw [hnil]
      omega
    · rw [ih (by omega)]
      omega

theorem isDigit_lastDigits {fuel n : Nat} {c : UInt8} (hc : c ∈ lastDigits fuel n) :
    isDigit c = true := by
  induction fuel generalizing n with
  | zero => cases hc
  | succ fuel ih =>
    rcases List.mem_append.mp hc with hc | hc
    · split at hc
      · cases hc
      · exact ih hc
    · rw [List.mem_singleton.mp hc]
      exact isDigit_digit (Nat.mod_lt n (by decide))

theorem isDigit_decimalText {n : Nat} {c : UInt8} (hc : c ∈ decimalText n) : isDigit c = true :=
  isDigit_lastDigits hc

theorem decimalText_ne_nil (n : Nat) : decimalText n ≠ [] := by
  unfold decimalText lastDigits
  exact List.append_ne_nil_of_right_ne_nil _ (List.cons_ne_nil _ _)

theorem intText_ne_nil (v : Int) : intText v ≠ [] := by
  unfold intText
  split
  · exact List.cons_ne_nil _ _
  · exact decimalText_ne_nil _

/-- **The digits of a number count it.** -/
theorem digitsValue_decimalText (n : Nat) : digitsValue (decimalText n) = n :=
  digitsValue_lastDigits (Nat.lt_succ_self n)

/-! ## Reading -/

/-- The integer at the front of a text and what follows it; `none` without a digit. -/
def readInt (s : Bytes) : Option (Int × Bytes) :=
  let s := s.dropWhile isSpace
  let negative := s.head? = some 45
  let s := if s.head? = some 45 ∨ s.head? = some 43 then s.drop 1 else s
  let digits := s.takeWhile isDigit
  if digits = [] then none
  else some (if negative then -(digitsValue digits : Int) else digitsValue digits,
    s.dropWhile isDigit)

example : readInt (ascii " -12/n") = some (-12, ascii "/n") := by decide

def NoDigit (rest : Bytes) : Prop := rest.head?.all (!isDigit ·)

theorem digits_append {digits rest : Bytes} (hd : ∀ c ∈ digits, isDigit c = true)
    (hr : NoDigit rest) : (digits ++ rest).takeWhile isDigit = digits ∧
      (digits ++ rest).dropWhile isDigit = rest := by
  have hdrop := dropWhile_of_head hr
  have htake : rest.takeWhile isDigit = [] := by
    have hsplit := List.takeWhile_append_dropWhile (p := isDigit) (l := rest)
    rw [hdrop] at hsplit
    exact List.append_left_eq_self.mp hsplit
  refine ⟨?_, ?_⟩
  · rw [List.takeWhile_append_of_pos hd, htake, List.append_nil]
  · rw [List.dropWhile_append_of_pos hd, hdrop]

theorem isDigit_isSpace {c : UInt8} (h : isDigit c = true) : isSpace c = false := by
  have hc := isDigit_iff.mp h
  have h9 : (9 : UInt8).toNat = 9 := rfl
  have h13 : (13 : UInt8).toNat = 13 := rfl
  have h32 : (32 : UInt8).toNat = 32 := rfl
  simp only [isSpace, Bool.or_eq_false_iff, Bool.and_eq_false_iff, beq_eq_false_iff_ne, ne_eq,
    ← UInt8.toNat_inj, decide_eq_false_iff_not, UInt8.le_iff_toNat_le]
  omega

theorem readInt_digits {digits rest : Bytes} (hne : digits ≠ [])
    (hd : ∀ c ∈ digits, isDigit c = true) (hr : NoDigit rest) :
    readInt (digits ++ rest) = some ((digitsValue digits : Int), rest) := by
  obtain ⟨c, cs, rfl⟩ := List.exists_cons_of_ne_nil hne
  have hc := isDigit_iff.mp (hd c List.mem_cons_self)
  have h45 : c ≠ 45 := fun h => by rw [h] at hc; exact absurd hc (by decide)
  have h43 : c ≠ 43 := fun h => by rw [h] at hc; exact absurd hc (by decide)
  obtain ⟨htake, hdrop⟩ := digits_append hd hr
  have hspace : ((c :: cs) ++ rest).dropWhile isSpace = (c :: cs) ++ rest :=
    dropWhile_of_head (by simp [isDigit_isSpace (hd c List.mem_cons_self)])
  have hhead : ((c :: cs) ++ rest).head? = some c := rfl
  unfold readInt
  simp only [hspace, hhead, Option.some.injEq, h45, h43, or_self, if_false, htake, hdrop]
  rw [if_neg (List.cons_ne_nil c cs)]

theorem readInt_negative {digits rest : Bytes} (hne : digits ≠ [])
    (hd : ∀ c ∈ digits, isDigit c = true) (hr : NoDigit rest) :
    readInt (45 :: (digits ++ rest)) = some (-(digitsValue digits : Int), rest) := by
  obtain ⟨htake, hdrop⟩ := digits_append hd hr
  have hspace : (45 :: (digits ++ rest)).dropWhile isSpace = 45 :: (digits ++ rest) :=
    dropWhile_of_head (show Option.all (!isSpace ·) (some 45) = true by decide)
  unfold readInt
  simp only [hspace, List.head?_cons, true_or, if_true, List.drop_one, List.tail_cons, htake, hdrop]
  rw [if_neg hne]

/-- **What is written is read back.** -/
theorem readInt_intText (v : Int) {rest : Bytes} (hr : NoDigit rest) :
    readInt (intText v ++ rest) = some (v, rest) := by
  have hd := @isDigit_decimalText v.natAbs
  unfold intText
  split
  · rw [List.cons_append, readInt_negative (decimalText_ne_nil _) (fun _ => hd) hr,
      digitsValue_decimalText]
    congr 2
    omega
  · rw [readInt_digits (decimalText_ne_nil _) (fun _ => hd) hr, digitsValue_decimalText]
    congr 2
    omega

end Base
