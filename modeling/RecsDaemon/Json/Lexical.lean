import RecsDaemon.Json.Progress

/-!
# Quotes, brackets, literals

What the helper functions of `json::Deserialize` make of the pieces of a JSON
text: the quotes of a string, the brackets of an object or array, the
characters of a number or a name.
-/

namespace RecsDaemon

open Base

namespace Json

/-! ## Quotes -/

/-- What can stand between two quotes: a `"` comes behind a `\`, and no `\\` is at the end, where
`GetEndOfArrayOrObj` would take the closing quote for an escaped one. -/
inductive Quoted : Text → Prop where
  | nil : Quoted []
  | plain {c : UInt8} {s : Text} : c ≠ 34 → c ≠ 92 → Quoted s → Quoted (c :: s)
  | escaped {c : UInt8} {s : Text} : (c = 92 → s ≠ []) → Quoted s → Quoted (92 :: c :: s)

/-- What the text between two quotes stands for. Of the four digits behind `\u` the last two count, an
unknown escape stands for nothing. -/
inductive Chars : Text → Text → Prop where
  | nil : Chars [] []
  | plain {c : UInt8} {s r : Text} : c ≠ 34 → c ≠ 92 → Chars s r → Chars (c :: s) (c :: r)
  | escaped {c : UInt8} {s r : Text} : c ≠ 117 → (c = 92 → s ≠ []) → Chars s r →
      Chars (92 :: c :: s) ((escape c).toList ++ r)
  | unicode {a b c d : UInt8} {s r : Text} : (∀ h ∈ [a, b, c, d], h ≠ 34 ∧ h ≠ 92) → Chars s r →
      Chars (92 :: 117 :: a :: b :: c :: d :: s) (hexChar [c, d] :: r)

theorem Quoted.append {s t : Text} (hs : ∀ c ∈ s, c ≠ 34 ∧ c ≠ 92) (ht : Quoted t) :
    Quoted (s ++ t) := by
  induction s with
  | nil => exact ht
  | cons c s ih =>
    obtain ⟨h34, h92⟩ := hs c List.mem_cons_self
    exact .plain h34 h92 (ih fun d hd => hs d (List.mem_cons_of_mem c hd))

theorem Chars.quoted {s r : Text} (h : Chars s r) : Quoted s := by
  induction h with
  | nil => exact .nil
  | plain h34 h92 _ ih => exact .plain h34 h92 ih
  | escaped _ hs _ ih => exact .escaped hs ih
  | unicode hd _ ih => exact .escaped nofun (.append hd ih)

theorem Chars.unescape {s r : Text} (h : Chars s r) : unescapeFrom 0 s = .ok r := by
  induction h with
  | nil => rfl
  | plain _ h92 _ ih =>
    rw [unescapeFrom, if_neg fun hc => h92 hc.1, ih]
    rfl
  | @escaped c s r h117 _ _ ih =>
    have hhead : ¬ (c :: s).head? = some 117 := fun he => h117 (Option.some.inj he)
    rw [unescapeFrom, if_pos ⟨rfl, List.cons_ne_nil c s⟩, if_neg hhead, unescapeFrom, ih]
    rfl
  | @unicode a b c d s r _ _ ih =>
    have hlen : ¬ (117 :: a :: b :: c :: d :: s).length < 3 := by
      simp only [List.length_cons]
      omega
    rw [unescapeFrom, if_pos ⟨rfl, List.cons_ne_nil _ _⟩, if_pos List.head?_cons, if_neg hlen]
    simp only [unescapeFrom, ih]
    rfl

theorem Quoted.quotePos {s : Text} (h : Quoted s) (i : Nat) (rest : Text) :
    quotePosFrom i false (s ++ 34 :: rest) = some (i + s.length) := by
  induction h generalizing i with
  | nil => rfl
  | plain h34 h92 _ ih =>
    rw [List.cons_append, quotePosFrom, if_neg fun hc => h92 hc.1, if_neg fun hc => h34 hc.1,
      ih, List.length_cons]
    congr 1
    omega
  | escaped _ _ ih =>
    rw [List.cons_append, quotePosFrom, if_pos ⟨rfl, Bool.false_ne_true⟩, List.cons_append,
      quotePosFrom, if_neg fun hc => hc.2 rfl, if_neg fun hc => hc.2 rfl, ih]
    simp only [List.length_cons]
    congr 1
    omega

/-- No quote ends a text that is cut off. -/
theorem Quoted.no_quote {s front : Text} (h : Quoted s) (hf : front <+: s) (i : Nat) :
    quotePosFrom i false front = none := by
  induction h generalizing i front with
  | nil =>
    rw [List.prefix_nil.mp hf]
    rfl
  | plain h34 h92 _ ih =>
    rcases List.prefix_cons_iff.mp hf with rfl | ⟨front1, rfl, h1⟩
    · rfl
    · rw [quotePosFrom, if_neg fun hc => h92 hc.1, if_neg fun hc => h34 hc.1]
      exact ih h1 _
  | escaped _ _ ih =>
    rcases List.prefix_cons_iff.mp hf with rfl | ⟨front1, rfl, h1⟩
    · rfl
    rcases List.prefix_cons_iff.mp h1 with rfl | ⟨front2, rfl, h2⟩
    · rfl
    · rw [quotePosFrom, if_pos ⟨rfl, Bool.false_ne_true⟩, quotePosFrom,
        if_neg fun hc => hc.2 rfl, if_neg fun hc => hc.2 rfl]
      exact ih h2 _

/-- The characters that mean nothing outside of quotes. -/
def passive (c : UInt8) : Bool :=
  c ≠ 34 && c ≠ 92 && c ≠ 91 && c ≠ 123 && c ≠ 93 && c ≠ 125

theorem passive_iff {c : UInt8} : passive c = true ↔
    c ≠ 34 ∧ c ≠ 92 ∧ c ≠ 91 ∧ c ≠ 123 ∧ c ≠ 93 ∧ c ≠ 125 := by
  simp only [passive, ne_eq, Bool.and_eq_true, decide_eq_true_eq, and_assoc]

theorem of_isSpace {c : UInt8} (h : isSpace c = true) : c ≠ 46 ∧ c ≠ 101 ∧ c ≠ 69 ∧ c ≠ 93 ∧
    c ≠ 125 ∧ c ≠ 44 ∧ c ≠ 91 ∧ c ≠ 123 := by
  simp only [isSpace, Bool.or_eq_true, Bool.and_eq_true, beq_iff_eq, decide_eq_true_eq,
    UInt8.le_iff_toNat_le, ← UInt8.toNat_inj, UInt8.reduceToNat] at h
  simp only [ne_eq, ← UInt8.toNat_inj, UInt8.reduceToNat]
  omega

/-! ## Brackets -/

/-- `GetEndOfArrayOrObj` passes over the text outside of quotes, and finds its stack again. -/
def Passed (t : Text) : Prop :=
  ∀ original i prev stack tail, prev ≠ 92 → original ≤ stack.length → ∃ prev' ≠ 92,
    endFrom original i prev false stack (t ++ tail) =
      endFrom original (i + t.length) prev' false stack tail

theorem passed_nil : Passed [] := fun _ _ prev _ _ hp _ => ⟨prev, hp, rfl⟩

theorem Passed.append {s t : Text} (hs : Passed s) (ht : Passed t) : Passed (s ++ t) := by
  intro original i prev stack tail hp hl
  obtain ⟨p1, hp1, h1⟩ := hs original i prev stack (t ++ tail) hp hl
  obtain ⟨p2, hp2, h2⟩ := ht original (i + s.length) p1 stack tail hp1 hl
  refine ⟨p2, hp2, ?_⟩
  rw [List.append_assoc, h1, h2, List.length_append, Nat.add_assoc]

theorem passed_passive {t : Text} (h : ∀ c ∈ t, passive c = true) : Passed t := by
  induction t with
  | nil => exact passed_nil
  | cons c t ih =>
    intro original i prev stack tail hp hl
    obtain ⟨h34, h92, h91, h123, h93, h125⟩ := passive_iff.mp (h c List.mem_cons_self)
    obtain ⟨p, hp', he⟩ := ih (fun d hd => h d (List.mem_cons_of_mem c hd)) original (i + 1) c stack
      tail h92 hl
    refine ⟨p, hp', ?_⟩
    rw [List.cons_append, endFrom, if_neg h34, if_neg Bool.false_ne_true, if_neg h91, if_neg h123,
      if_neg h93, if_neg h125, he, List.length_cons]
    congr 1
    omega

theorem Quoted.endQuote {s : Text} (h : Quoted s) {original i : Nat} {prev : UInt8}
    (hp : prev ≠ 92 ∨ s ≠ []) (stack : DepthStack) (tail : Text) :
    endFrom original i prev true stack (s ++ 34 :: tail) =
      endFrom original (i + s.length + 1) 34 false stack tail := by
  induction h generalizing i prev with
  | nil =>
    rw [List.nil_append, endFrom, if_pos rfl, if_pos (hp.resolve_right (not_not.mpr rfl))]
    rfl
  | plain h34 h92 _ ih =>
    rw [List.cons_append, endFrom, if_neg h34, if_pos rfl, ih (.inl h92), List.length_cons]
    congr 1
    omega
  | @escaped c s hs _ ih =>
    have hc : c ≠ 92 ∨ s ≠ [] := or_iff_not_imp_left.mpr fun h => hs (not_not.mp h)
    have hlen : i + (92 :: c :: s).length = i + 1 + 1 + s.length := by
      simp only [List.length_cons]
      omega
    rw [List.cons_append, endFrom, if_neg (by decide), if_pos rfl, List.cons_append, hlen, ← ih hc,
      endFrom]
    by_cases h34 : c = 34
    · rw [if_pos h34, if_neg (not_not.mpr rfl)]
    · rw [if_neg h34, if_pos rfl]

theorem Quoted.passed {s : Text} (h : Quoted s) : Passed (34 :: s ++ [34]) := by
  intro original i prev stack tail hp _
  refine ⟨34, by decide, ?_⟩
  have hs := @Quoted.endQuote s h original (i + 1) 34 (.inl (by decide)) stack tail
  rw [List.append_assoc, List.cons_append, List.singleton_append, endFrom, if_pos rfl,
    if_pos hp, Bool.not_false, hs, List.length_append, List.length_cons, List.length_singleton]
  congr 1
  omega

def opening : StackDepthType → UInt8
  | .inObject => 123
  | .inArray => 91

def closing : StackDepthType → UInt8
  | .inObject => 125
  | .inArray => 93

theorem endFrom_opening (t : StackDepthType) (original i : Nat) (prev : UInt8) (stack : DepthStack)
    (tail : Text) : endFrom original i prev false stack (opening t :: tail) =
      endFrom original (i + 1) (opening t) false (t :: stack) tail := by
  cases t <;> rfl

theorem endFrom_closing (t : StackDepthType) (original i : Nat) (prev : UInt8) (stack : DepthStack)
    (tail : Text) : endFrom original i prev false (t :: stack) (closing t :: tail) =
      if (t :: stack).length = original then (some i, stack)
      else endFrom original (i + 1) (closing t) false stack tail := by
  cases t <;> rfl

theorem Passed.bracketed {t : Text} (h : Passed t) (b : StackDepthType) :
    Passed (opening b :: t ++ [closing b]) := by
  intro original i prev stack tail hp hl
  have hb : opening b ≠ 92 ∧ closing b ≠ 92 := by cases b <;> decide
  refine ⟨closing b, hb.2, ?_⟩
  obtain ⟨p, -, he⟩ := h original (i + 1) (opening b) (b :: stack) (closing b :: tail) hb.1
    (Nat.le_succ_of_le hl)
  rw [List.append_assoc, List.cons_append, List.singleton_append, endFrom_opening, he,
    endFrom_closing, if_neg (by simp only [List.length_cons]; omega), List.length_append,
    List.length_cons, List.length_singleton]
  congr 1
  omega

/-- **The bracket that closes the first one is found**, and its entry taken off the stack. -/
theorem getEndOfArrayOrObj_bracketed {t : Text} (h : Passed t) (b : StackDepthType)
    (stack : DepthStack) (rest : Text) :
    getEndOfArrayOrObj (opening b :: t ++ [closing b] ++ rest) (b :: stack) =
      (some (t.length + 1), stack) := by
  have hb : opening b ≠ 92 := by cases b <;> decide
  obtain ⟨p, -, he⟩ := h (b :: stack).length 1 (opening b) (b :: stack) (closing b :: rest) hb
    (Nat.le_refl _)
  unfold getEndOfArrayOrObj
  rw [List.append_assoc, List.cons_append, List.singleton_append]
  simp only [List.headD_cons, List.drop_one, List.tail_cons]
  rw [he, endFrom_closing, if_pos rfl, Nat.add_comm]

/-! ## Literals -/

def literalChar (c : UInt8) : Bool :=
  isDigit c || c = 43 || c = 45 || c = 46 || c = 69 || (97 ≤ c && c ≤ 122)

theorem literalChar_spec {c : UInt8} (h : literalChar c = true) :
    passive c = true ∧ isSpace c = false ∧ endsElement c = false ∧ c ≠ 0 := by
  have hc : c.toNat = 43 ∨ c.toNat = 45 ∨ c.toNat = 46 ∨ c.toNat = 69 ∨
      (48 ≤ c.toNat ∧ c.toNat ≤ 57) ∨ (97 ≤ c.toNat ∧ c.toNat ≤ 122) := by
    simp only [literalChar, Bool.or_eq_true, Bool.and_eq_true, decide_eq_true_eq, isDigit_iff,
      UInt8.le_iff_toNat_le, ← UInt8.toNat_inj, UInt8.reduceToNat] at h
    omega
  simp only [passive, isSpace, endsElement, ne_eq, ← UInt8.toNat_inj, UInt8.le_iff_toNat_le,
    UInt8.reduceToNat, beq_eq_decide, Bool.and_eq_true, Bool.or_eq_false_iff, Bool.and_eq_false_iff,
    decide_eq_true_eq, decide_eq_false_iff_not]
  omega

theorem passive_of_isSpace {c : UInt8} (h : isSpace c = true) : passive c = true := by
  simp only [isSpace, Bool.or_eq_true, Bool.and_eq_true, beq_iff_eq, decide_eq_true_eq,
    UInt8.le_iff_toNat_le, ← UInt8.toNat_inj, UInt8.reduceToNat] at h
  simp only [passive_iff, ne_eq, ← UInt8.toNat_inj, UInt8.reduceToNat]
  omega

namespace Literal

def extend (l : Literal) (t : Text) : Literal :=
  { l with foundDigit := l.foundDigit || t.any isDigit, tempVal := l.tempVal ++ t }

theorem extend_nil (l : Literal) : l.extend [] = l := by
  simp [extend]

theorem keep_eq {c : UInt8} (h : isSpace c = false) (l : Literal) : l.keep c = l.extend [c] := by
  simp [keep, extend, h]

theorem extend_extend (l : Literal) (s t : Text) : (l.extend s).extend t = l.extend (s ++ t) := by
  simp [extend, Bool.or_assoc]

theorem scan_blank {b : Text} (hb : Blank b) (rest : Text) (l : Literal) (stack : DepthStack) :
    scan (b ++ rest) l stack = scan rest l stack := by
  induction b with
  | nil => rfl
  | cons c b ih =>
    have hc := hb c List.mem_cons_self
    obtain ⟨h46, h101, h69, h93, h125, h44, h91, h123⟩ := of_isSpace hc
    rw [List.cons_append, scan, if_neg h46, if_neg (not_or.mpr ⟨h101, h69⟩), if_neg h93,
      if_neg h125, if_neg h44, if_neg (not_or.mpr ⟨h91, h123⟩), keep, if_pos hc,
      ih fun d hd => hb d (List.mem_cons_of_mem c hd)]

theorem scan_ordinary {t : Text} (h : ∀ c ∈ t, literalChar c = true ∧ c ≠ 46 ∧ c ≠ 101 ∧ c ≠ 69)
    (rest : Text) (l : Literal) (stack : DepthStack) :
    scan (t ++ rest) l stack = scan rest (l.extend t) stack := by
  induction t generalizing l with
  | nil => rw [List.nil_append, extend_nil]
  | cons c t ih =>
    obtain ⟨hc, h46, h101, h69⟩ := h c List.mem_cons_self
    obtain ⟨hp, hs, he, -⟩ := literalChar_spec hc
    simp only [endsElement, Bool.or_eq_false_iff, decide_eq_false_iff_not] at he
    obtain ⟨⟨⟨h44, h93⟩, h123⟩, h91⟩ := he
    have h125 : c ≠ 125 := (passive_iff.mp hp).2.2.2.2.2
    rw [List.cons_append, scan, if_neg h46, if_neg (not_or.mpr ⟨h101, h69⟩), if_neg h93,
      if_neg h125, if_neg h44, if_neg (not_or.mpr ⟨h91, h123⟩),
      ih fun d hd => h d (List.mem_cons_of_mem c hd), keep_eq hs, extend_extend]
    rfl

theorem scan_boolean {l : Literal} (h : l.tempVal = ascii "tru" ∨ l.tempVal = ascii "fals")
    (rest : Text) (stack : DepthStack) :
    scan (101 :: rest) l stack = scan rest (l.extend [101]) stack := by
  have hb : stricmp l.tempVal (ascii "fals") ∨ stricmp l.tempVal (ascii "tru") :=
    h.symm.imp (fun e => by rw [e]; decide) fun e => by rw [e]; decide
  rw [scan, if_neg (by decide), if_pos (by decide), if_pos hb, keep_eq (by decide)]

theorem scan_point {l : Literal} (h : l.foundDigit = true) (rest : Text) (stack : DepthStack) :
    scan (46 :: rest) l stack = scan rest ({ l with hasDot := true }.extend [46]) stack := by
  rw [scan, if_pos rfl, if_pos h, keep_eq (by decide)]

theorem scan_exponent {l : Literal} (hd : l.foundDigit = true) (he : l.hasE = false)
    (hfals : stricmp l.tempVal (ascii "fals") = false) (htru : stricmp l.tempVal (ascii "tru") = false)
    {c : UInt8} (hc : c = 101 ∨ c = 69) (rest : Text) (stack : DepthStack) :
    scan (c :: rest) l stack = scan rest ({ l with hasE := true }.extend [c]) stack := by
  have hn : ¬ (stricmp l.tempVal (ascii "fals") = true ∨ stricmp l.tempVal (ascii "tru") = true) := by
    rw [hfals, htru]
    exact not_or.mpr ⟨Bool.false_ne_true, Bool.false_ne_true⟩
  have hpoint : c ≠ 46 ∧ isSpace c = false := by
    rcases hc with rfl | rfl
    · exact ⟨by decide, by decide⟩
    · exact ⟨by decide, by decide⟩
  rw [scan, if_neg hpoint.1, if_pos hc, if_neg hn, if_pos ⟨hd, by rw [he]; exact Bool.false_ne_true⟩,
    keep_eq hpoint.2]

end Literal

theorem stricmp_of_head {c d : UInt8} (hc : c ≠ 0) (hd : d ≠ 0) (h : toLower c ≠ toLower d)
    (s t : Text) : stricmp (c :: s) (d :: t) = false := by
  have hcstr {c : UInt8} (hc : c ≠ 0) (s : Text) : cstr (c :: s) = c :: cstr s :=
    List.takeWhile_cons_of_pos (by simpa using hc)
  simp [stricmp, hcstr hc, hcstr hd, h]

def numberChar (c : UInt8) : Bool := isDigit c || c = 43 || c = 45

theorem number_ordinary {c : UInt8} (h : numberChar c = true) :
    literalChar c = true ∧ c ≠ 46 ∧ c ≠ 101 ∧ c ≠ 69 := by
  refine ⟨?_, ?_⟩
  · rw [literalChar, ← numberChar, h]
    rfl
  · simp only [numberChar, Bool.or_eq_true, decide_eq_true_eq, isDigit_iff, ← UInt8.toNat_inj,
      UInt8.reduceToNat] at h
    simp only [ne_eq, ← UInt8.toNat_inj, UInt8.reduceToNat]
    omega

theorem numberChar_digit {c : UInt8} (h : isDigit c = true) : numberChar c = true := by
  rw [numberChar, h]
  rfl

theorem toLower_number {c : UInt8} (h : numberChar c = true) : toLower c = c := by
  have hc : c.toNat < 65 := by
    simp only [numberChar, Bool.or_eq_true, decide_eq_true_eq, isDigit_iff, ← UInt8.toNat_inj,
      UInt8.reduceToNat] at h
    omega
  refine if_neg fun hu => ?_
  have h65 : 65 ≤ c.toNat := UInt8.le_iff_toNat_le.mp hu.1
  omega

/-- A number is no name of a value. -/
theorem stricmp_number {s : Text} (h0 : s ≠ []) (h : s.head?.all numberChar) {d : UInt8}
    (hd : literalChar d = true ∧ toLower d = d ∧ numberChar d = false) (t : Text) :
    stricmp s (d :: t) = false := by
  obtain ⟨c, s, rfl⟩ := List.exists_cons_of_ne_nil h0
  have hc : numberChar c = true := by simpa using h
  have hlit : literalChar c = true := (number_ordinary hc).1
  refine stricmp_of_head (literalChar_spec hlit).2.2.2 (literalChar_spec hd.1).2.2.2 ?_ s t
  rw [toLower_number hc, hd.2.1]
  rintro rfl
  rw [hc] at hd
  exact Bool.noConfusion hd.2.2

theorem number_no_name {s : Text} (h0 : s ≠ []) (h : s.head?.all numberChar) :
    stricmp s (ascii "true") = false ∧ stricmp s (ascii "false") = false ∧
      stricmp s (ascii "null") = false ∧ stricmp s (ascii "tru") = false ∧
      stricmp s (ascii "fals") = false := by
  have ht := @stricmp_number s h0 h 116 (by decide)
  have hf := @stricmp_number s h0 h 102 (by decide)
  exact ⟨ht (ascii "rue"), hf (ascii "alse"), @stricmp_number s h0 h 110 (by decide) (ascii "ull"),
    ht (ascii "ru"), hf (ascii "als")⟩

/-- A text of literal characters that is read as this value, or as none. -/
structure Reads (libc : Libc) (t : Text) (v : Option Value) : Prop where
  ne_nil : t ≠ []
  chars : ∀ c ∈ t, literalChar c = true
  reads : ∃ l : Literal, l.value libc = v ∧ ∀ (rest : Text) (stack : DepthStack),
    Literal.scan (t ++ rest) .empty stack = Literal.scan rest l stack

theorem Reads.solid {libc : Libc} {t : Text} {v : Option Value} (h : Reads libc t v) : Solid t :=
  solid_of_forall h.ne_nil fun c hc => (literalChar_spec (h.chars c hc)).2.1

theorem reads_null (libc : Libc) : Reads libc (ascii "null") (some .null) :=
  ⟨by decide +kernel, by decide +kernel, Literal.empty.extend (ascii "null"), rfl,
    fun rest stack => Literal.scan_ordinary (by decide +kernel) rest _ stack⟩

theorem reads_bool (libc : Libc) (b : Bool) :
    Reads libc (if b then ascii "true" else ascii "false") (some (.bool b)) := by
  cases b with
  | false =>
    refine ⟨by decide +kernel, by decide +kernel,
      (Literal.empty.extend (ascii "fals")).extend [101], rfl, fun rest stack => ?_⟩
    rw [← Literal.scan_boolean (.inr rfl),
      ← Literal.scan_ordinary (t := ascii "fals") (by decide +kernel)]
    rfl
  | true =>
    refine ⟨by decide +kernel, by decide +kernel,
      (Literal.empty.extend (ascii "tru")).extend [101], rfl, fun rest stack => ?_⟩
    rw [← Literal.scan_boolean (.inl rfl),
      ← Literal.scan_ordinary (t := ascii "tru") (by decide +kernel)]
    rfl

theorem cstr_literal {t : Text} (h : ∀ c ∈ t, literalChar c = true) : cstr t = t :=
  cstr_of_no_zero fun h0 => (literalChar_spec (h 0 h0)).2.2.2 rfl

/-! ## Numbers -/

theorem numberChar_intText {v : Int} {c : UInt8} (h : c ∈ intText v) : numberChar c = true := by
  unfold intText at h
  split at h
  · rcases List.mem_cons.mp h with rfl | h
    · rfl
    · exact numberChar_digit (isDigit_decimalText h)
  · exact numberChar_digit (isDigit_decimalText h)

/-- The value of an integer's text: between the ranges of `int` and `long` there is none. -/
def integerRead (libc : Libc) (n : Int) : Option Value :=
  if n < -2 ^ (libc.longBits - 1) ∨ 2 ^ (libc.longBits - 1) ≤ n then
    (libc.strtod (intText n)).map .double
  else if -2 ^ 31 ≤ n ∧ n < 2 ^ 31 then some (.int (.ofInt n))
  else none

theorem integerRead_int {libc : Libc} (hl : 32 ≤ libc.longBits) {n : Int} (hlo : -2 ^ 31 ≤ n)
    (hhi : n < 2 ^ 31) : integerRead libc n = some (.int (.ofInt n)) := by
  have hlong : (2 : Int) ^ 31 ≤ 2 ^ (libc.longBits - 1) := by
    exact_mod_cast Nat.pow_le_pow_right (by decide) (by omega : 31 ≤ libc.longBits - 1)
  rw [integerRead, if_neg (by omega), if_pos ⟨hlo, hhi⟩]

theorem value_intText (libc : Libc) (n : Int) :
    (Literal.empty.extend (intText n)).value libc = integerRead libc n := by
  have hhead : (intText n).head?.all numberChar := by
    cases hh : (intText n).head? with
    | none => rfl
    | some c => exact numberChar_intText (List.mem_of_head? hh)
  have hread : readInt (intText n) = some (n, []) := by
    have h := @readInt_intText n [] rfl
    rwa [List.append_nil] at h
  obtain ⟨htrue, hfalse, hnull, -⟩ := number_no_name (intText_ne_nil n) hhead
  have htemp : (Literal.empty.extend (intText n)).tempVal = intText n := rfl
  have hnone : ¬ ((Literal.empty.extend (intText n)).hasE = true ∨
      (Literal.empty.extend (intText n)).hasDot = true) :=
    not_or.mpr ⟨Bool.false_ne_true, Bool.false_ne_true⟩
  rw [Literal.value, if_neg hnone, htemp, htrue, hfalse, hnull, if_neg Bool.false_ne_true,
    if_neg Bool.false_ne_true, if_neg Bool.false_ne_true,
    cstr_literal fun _ hc => (number_ordinary (numberChar_intText hc)).1]
  unfold Literal.integer
  simp only [hread]
  rw [if_neg (by decide)]
  rfl

/-- **An integer**, however big. -/
theorem reads_int (libc : Libc) (n : Int) : Reads libc (intText n) (integerRead libc n) :=
  ⟨intText_ne_nil n, fun _ hc => (number_ordinary (numberChar_intText hc)).1, _,
    value_intText libc n, fun rest stack =>
      Literal.scan_ordinary (fun _ hc => number_ordinary (numberChar_intText hc)) rest _ stack⟩

/-- A number with a fraction or an exponent: what stands in front of the point, from the point on, and
from the `e` on. -/
structure Real (front point e : Text) : Prop where
  digit : ∃ c ∈ front, isDigit c = true
  begins : ∀ c ∈ front, numberChar c = true
  fraction : point = [] ∨ ∃ b, point = 46 :: b ∧ ∀ c ∈ b, numberChar c = true
  exponent : e = [] ∨ ∃ c b, e = c :: b ∧ (c = 101 ∨ c = 69) ∧ ∀ d ∈ b, numberChar d = true
  real : point ≠ [] ∨ e ≠ []

namespace Real

variable {front point e : Text}

theorem ne_nil (h : Real front point e) : front ≠ [] := by
  obtain ⟨c, hc, -⟩ := h.digit
  exact List.ne_nil_of_mem hc

theorem head_number (h : Real front point e) (t : Text) : (front ++ t).head?.all numberChar := by
  obtain ⟨c, cs, hc⟩ := List.exists_cons_of_ne_nil h.ne_nil
  rw [hc]
  exact h.begins c (hc ▸ List.mem_cons_self)

theorem literalChar (h : Real front point e) {c : UInt8} (hc : c ∈ front ++ point ++ e) :
    literalChar c = true := by
  rcases List.mem_append.mp hc with hc | hc
  · rcases List.mem_append.mp hc with hc | hc
    · exact (number_ordinary (h.begins c hc)).1
    · rcases h.fraction with rfl | ⟨b, rfl, hb⟩
      · cases hc
      · rcases List.mem_cons.mp hc with rfl | hc
        · rfl
        · exact (number_ordinary (hb c hc)).1
  · rcases h.exponent with rfl | ⟨d, b, rfl, hd, hb⟩
    · cases hc
    · rcases List.mem_cons.mp hc with rfl | hc
      · rcases hd with rfl | rfl <;> rfl
      · exact (number_ordinary (hb c hc)).1

theorem scan_front (h : Real front point e) : ∃ l : Literal, l.foundDigit = true ∧ l.hasE = false ∧
    (point ≠ [] → l.hasDot = true) ∧ l.tempVal = front ++ point ∧
    ∀ (rest : Text) (stack : DepthStack),
      Literal.scan (front ++ point ++ rest) .empty stack = Literal.scan rest l stack := by
  have hdigit : (Literal.empty.extend front).foundDigit = true := by
    obtain ⟨c, hc, hd⟩ := h.digit
    rw [Literal.extend, Bool.or_eq_true, List.any_eq_true]
    exact .inr ⟨c, hc, hd⟩
  rcases h.fraction with rfl | ⟨b, rfl, hb⟩
  · refine ⟨Literal.empty.extend front, hdigit, rfl, fun h0 => absurd rfl h0, ?_, fun rest stack => ?_⟩
    · rw [List.append_nil]
      rfl
    · rw [List.append_nil, Literal.scan_ordinary fun c hc => number_ordinary (h.begins c hc)]
  · refine ⟨({ Literal.empty.extend front with hasDot := true } : Literal).extend (46 :: b), ?_, rfl,
      fun _ => rfl, rfl, fun rest stack => ?_⟩
    · rw [Literal.extend, hdigit, Bool.true_or]
    · rw [List.append_assoc, List.cons_append,
        Literal.scan_ordinary fun c hc => number_ordinary (h.begins c hc), Literal.scan_point hdigit,
        Literal.scan_ordinary fun c hc => number_ordinary (hb c hc), Literal.extend_extend]
      rfl

/-- **A real number is what `strtod` makes of its text.** -/
theorem reads (libc : Libc) (h : Real front point e) :
    Reads libc (front ++ point ++ e) ((libc.strtod (front ++ point ++ e)).map .double) := by
  obtain ⟨l, hdigit, hasE, hasDot, htemp, hscan⟩ := h.scan_front
  have hne : front ++ point ≠ [] := List.append_ne_nil_of_left_ne_nil h.ne_nil point
  obtain ⟨l', hreal, htemp', hscan'⟩ : ∃ l' : Literal, (l'.hasE = true ∨ l'.hasDot = true) ∧
      l'.tempVal = front ++ point ++ e ∧ ∀ (rest : Text) (stack : DepthStack),
        Literal.scan (front ++ point ++ e ++ rest) .empty stack = Literal.scan rest l' stack := by
    rcases h.exponent with rfl | ⟨c, b, rfl, hc, hb⟩
    · refine ⟨l, .inr (hasDot (h.real.resolve_right fun h0 => h0 rfl)), ?_, fun rest stack => ?_⟩
      · rw [htemp, List.append_nil]
      · rw [List.append_nil, hscan]
    · obtain ⟨-, -, -, htru, hfals⟩ := number_no_name hne (h.head_number point)
      refine ⟨({ l with hasE := true } : Literal).extend (c :: b), .inl rfl, ?_, fun rest stack => ?_⟩
      · rw [Literal.extend, htemp]
      · rw [List.append_assoc _ (c :: b), hscan, List.cons_append,
          Literal.scan_exponent hdigit hasE (by rw [htemp, hfals]) (by rw [htemp, htru]) hc,
          Literal.scan_ordinary fun d hd => number_ordinary (hb d hd), Literal.extend_extend]
        rfl
  have hall : front ++ point ++ e ≠ [] := List.append_ne_nil_of_left_ne_nil hne e
  obtain ⟨htrue, hfalse, -⟩ := number_no_name hall (by
    rw [List.append_assoc]
    exact h.head_number _)
  refine ⟨hall, fun c hc => h.literalChar hc, l', ?_, hscan'⟩
  rw [Literal.value, htemp', htrue, hfalse, if_neg Bool.false_ne_true, if_neg Bool.false_ne_true,
    if_pos hreal, cstr_literal fun c hc => h.literalChar hc]

end Real

/-- The texts of values that are no strings, objects and arrays. -/
inductive Scalar (libc : Libc) : Text → Option Value → Prop where
  | null : Scalar libc (ascii "null") (some .null)
  | bool (b : Bool) : Scalar libc (if b then ascii "true" else ascii "false") (some (.bool b))
  | int (n : Int) : Scalar libc (intText n) (integerRead libc n)
  | real {front point e : Text} : Real front point e →
      Scalar libc (front ++ point ++ e) ((libc.strtod (front ++ point ++ e)).map .double)

theorem Scalar.reads {libc : Libc} {t : Text} {v : Option Value} (h : Scalar libc t v) :
    Reads libc t v := by
  cases h with
  | null => exact reads_null libc
  | bool b => exact reads_bool libc b
  | int n => exact reads_int libc n
  | real h => exact h.reads libc

end Json

end RecsDaemon
