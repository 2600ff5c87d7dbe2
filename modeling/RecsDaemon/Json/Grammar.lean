import RecsDaemon.Json.Lexical

/-!
# The texts the library reads

`Denotes` says which texts are JSON to the library, and what they stand for:
space around every token, members in any order, numbers, strings with escapes.
`deserialize_denoted`: `Deserialize` reads each of them so. Its departures from
JSON are part of the grammar: an array loses its nulls, the last one of two
members of a name counts, an empty name takes its object with it, and a string
with a comma or a `]` before any opening bracket takes its array with it.
-/

namespace RecsDaemon

open Base

namespace Json

/-! ## The grammar -/

/-- No comma and no `]` comes in the text before an opening bracket. -/
def whole (t : Text) : Bool :=
  let stop := (t.dropWhile (!endsElement ·)).head?
  stop ≠ some 44 && stop ≠ some 93

/-- What the value of an element's text adds to the array; nothing is left of it where the text is
cut. -/
def element (t : Text) (v : Option Value) : Option (List Value) :=
  (v.filter fun _ => whole t).map (push [])

/-- A member with its value; the name is the text between the quotes as it stands there. -/
def member (key : Text) (v : Option Value) : Option (Text × Value) :=
  (v.filter fun _ => key ≠ []).map fun v => (key, v)

def objectOf (obj fields : List (Text × Value)) : Value :=
  .object (fields.foldl (fun obj p => insert p.1 p.2 obj) obj)

mutual

/-- The text stands for the value; `none` is a number without a value. -/
inductive Denotes (libc : Libc) : Text → Option Value → Prop where
  | scalar {t : Text} {v : Option Value} : Scalar libc t v → Denotes libc t v
  | text {s r : Text} : Chars s r → Denotes libc (34 :: s ++ [34]) (some (.text (trim r)))
  | array {t : Text} {vs : Option (List Value)} : Elements libc t vs →
      Denotes libc (91 :: t ++ [93]) (some (vs.elim .null .array))
  | empty : Denotes libc [123, 125] (some (.object []))
  | object {t : Text} {fields : Option (List (Text × Value))} : Members libc t fields →
      Denotes libc (123 :: t ++ [125]) (some (fields.elim .null (objectOf [])))

/-- The text between the brackets of an array; `none` if one of its elements has no value. -/
inductive Elements (libc : Libc) : Text → Option (List Value) → Prop where
  | nil {a : Text} : Blank a → Elements libc a (some [])
  | last {a t b : Text} {v : Option Value} : Blank a → Denotes libc t v → Blank b →
      Elements libc (a ++ t ++ b) (element t v)
  | cons {a t b rest : Text} {v : Option Value} {vs : Option (List Value)} : Blank a →
      Denotes libc t v → Blank b → Elements libc rest vs →
      Elements libc (a ++ t ++ (b ++ 44 :: rest))
        ((element t v).bind fun v => vs.map fun vs => v ++ vs)

/-- The text between the brackets of an object. -/
inductive Members (libc : Libc) : Text → Option (List (Text × Value)) → Prop where
  | last {a key b c t d : Text} {v : Option Value} : Blank a → Quoted key → Blank b → Blank c →
      Denotes libc t v → Blank d →
      Members libc (a ++ 34 :: (key ++ 34 :: (b ++ 58 :: (c ++ t ++ d))))
        ((member key v).map fun p => [p])
  | cons {a key b c t d rest : Text} {v : Option Value}
      {fields : Option (List (Text × Value))} : Blank a → Quoted key → Blank b → Blank c →
      Denotes libc t v → Blank d → Members libc rest fields →
      Members libc (a ++ 34 :: (key ++ 34 :: (b ++ 58 :: (c ++ t ++ (d ++ 44 :: rest)))))
        ((member key v).bind fun p => fields.map fun fields => p :: fields)

end

section Texts

variable {libc : Libc}

theorem Denotes.solid {t : Text} {v : Option Value} (h : Denotes libc t v) : Solid t := by
  cases h with
  | scalar h => exact h.reads.solid
  | text => exact solid_between (by decide) (by decide) _
  | array => exact solid_between (by decide) (by decide) _
  | empty => exact solid_between (by decide) (by decide) []
  | object => exact solid_between (by decide) (by decide) _

theorem Denotes.trim_around {a t : Text} {v : Option Value} (h : Denotes libc t v) (ha : Blank a)
    (x : Text) : trim (a ++ t ++ x) = t ++ trimRight x :=
  h.solid.trim_around ha x

theorem blank_nil : Blank [] := nofun

theorem Elements.trimRight : ∀ {e : Text} {vs : Option (List Value)}, Elements libc e vs →
    Elements libc (trimRight e) vs
  | _, _, .nil ha => by
    rw [ha.trimRight_eq]
    exact .nil blank_nil
  | _, _, .last ha ht hb => by
    rw [ht.solid.trimRight_around, hb.trimRight_eq]
    exact .last ha ht blank_nil
  | _, _, .cons ha ht hb hrest => by
    rw [ht.solid.trimRight_around, trimRight_append_cons (by decide)]
    exact .cons ha ht hb hrest.trimRight

theorem Members.trimRight : ∀ {m : Text} {fields : Option (List (Text × Value))},
    Members libc m fields → Members libc (trimRight m) fields
  | _, _, .last ha hk hb hc ht hd => by
    rw [trimRight_append_cons (by decide), trimRight_append_cons (by decide),
      trimRight_append_cons (by decide), ht.solid.trimRight_around, hd.trimRight_eq]
    exact .last ha hk hb hc ht blank_nil
  | _, _, .cons ha hk hb hc ht hd hrest => by
    rw [trimRight_append_cons (by decide), trimRight_append_cons (by decide),
      trimRight_append_cons (by decide), ht.solid.trimRight_around, trimRight_append_cons (by decide)]
    exact .cons ha hk hb hc ht hd hrest.trimRight

/-! ## Brackets of a text -/

theorem passed_blank {b : Text} (h : Blank b) : Passed b :=
  passed_passive fun c hc => passive_of_isSpace (h c hc)

theorem passed_singleton {c : UInt8} (h : passive c = true) : Passed [c] :=
  passed_passive fun d hd => by rwa [List.mem_singleton.mp hd]

theorem passed_key {a key b c : Text} (ha : Blank a) (hk : Quoted key) (hb : Blank b) (hc : Blank c) :
    Passed (a ++ (34 :: key ++ [34]) ++ b ++ [58] ++ c) :=
  ((((passed_blank ha).append hk.passed).append (passed_blank hb)).append
    (passed_singleton rfl)).append (passed_blank hc)

mutual

/-- The brackets match. -/
theorem Denotes.passed : ∀ {t : Text} {v : Option Value}, Denotes libc t v → Passed t
  | _, _, .scalar h => passed_passive fun c hc => (literalChar_spec (h.reads.chars c hc)).1
  | _, _, .text h => h.quoted.passed
  | _, _, .array h => h.passed.bracketed .inArray
  | _, _, .empty => passed_nil.bracketed .inObject
  | _, _, .object h => h.passed.bracketed .inObject

theorem Elements.passed : ∀ {e : Text} {vs : Option (List Value)}, Elements libc e vs → Passed e
  | _, _, .nil ha => passed_blank ha
  | _, _, .last ha ht hb => ((passed_blank ha).append ht.passed).append (passed_blank hb)
  | _, _, .cons ha ht hb hrest =>
    ((passed_blank ha).append ht.passed).append
      ((passed_blank hb).append ((passed_singleton rfl).append hrest.passed))

theorem Members.passed : ∀ {m : Text} {fields : Option (List (Text × Value))},
    Members libc m fields → Passed m
  | _, _, @Members.last _ a key b c t d _ ha hk hb hc ht hd => by
    have h := ((passed_key ha hk hb hc).append ht.passed).append (passed_blank hd)
    have heq : a ++ (34 :: key ++ [34]) ++ b ++ [58] ++ c ++ t ++ d =
      a ++ 34 :: (key ++ 34 :: (b ++ 58 :: (c ++ t ++ d))) := by simp
    rwa [heq] at h
  | _, _, @Members.cons _ a key b c t d rest _ _ ha hk hb hc ht hd hrest => by
    have h := (((passed_key ha hk hb hc).append ht.passed).append (passed_blank hd)).append
      ((passed_singleton (c := 44) rfl).append hrest.passed)
    have heq : a ++ (34 :: key ++ [34]) ++ b ++ [58] ++ c ++ t ++ d ++ ([44] ++ rest) =
      a ++ 34 :: (key ++ 34 :: (b ++ 58 :: (c ++ t ++ (d ++ 44 :: rest)))) := by simp
    rwa [heq] at h

end

/-! ## Single values -/

/-- What follows a value in its object or array. -/
inductive Tail : Text → Prop where
  | last {b : Text} : Blank b → Tail b
  | comma {b w : Text} : Blank b → Tail (b ++ 44 :: w)

/-- What a value leaves of its tail: not the space at its end, and the space in front of the comma or
not. -/
def Left (x rest : Text) : Prop := rest = trimRight x ∨ rest = (trimRight x).dropWhile isSpace

theorem Left.last {b rest : Text} (h : Left b rest) (hb : Blank b) : rest = [] := by
  unfold Left at h
  rw [hb.trimRight_eq, List.dropWhile_nil, or_self] at h
  exact h

theorem Left.comma {b w rest : Text} (h : Left (b ++ 44 :: w) rest) (hb : Blank b) :
    ∃ b', Blank b' ∧ rest = b' ++ 44 :: trimRight w := by
  unfold Left at h
  rw [trimRight_append_cons (by decide), List.dropWhile_append_of_pos hb] at h
  rcases h with rfl | rfl
  · exact ⟨b, hb, rfl⟩
  · exact ⟨[], blank_nil, rfl⟩

theorem Left.length_le {x rest : Text} (h : Left x rest) : rest.length ≤ x.length := by
  have hright := (trimRight_isPrefix x).length_le
  rcases h with rfl | rfl
  · exact hright
  · exact (List.dropWhile_suffix _).length_le.trans hright

theorem Tail.scan {x : Text} (h : Tail x) (l : Literal) (stack : DepthStack) :
    Literal.scan (trimRight x) l stack = (some (l, (trimRight x).dropWhile isSpace), stack) := by
  cases h with
  | last hb =>
    rw [hb.trimRight_eq]
    rfl
  | @comma b w hb =>
    rw [trimRight_append_cons (by decide), Literal.scan_blank hb, List.dropWhile_append_of_pos hb]
    rfl

section Values

variable {a x : Text} (ha : Blank a)

include ha

theorem Reads.value {t : Text} {v : Option Value} (h : Reads libc t v) (hx : Tail x) (fuel : Nat)
    (stack : DepthStack) : deserializeValue libc (fuel + 1) (a ++ t ++ x) stack =
      .ok (v.map fun v => (v, (trimRight x).dropWhile isSpace), stack) := by
  obtain ⟨c, cs, hc⟩ := List.exists_cons_of_ne_nil h.ne_nil
  obtain ⟨h34, -, h91, h123, -⟩ := passive_iff.mp
    (literalChar_spec (h.chars c (hc ▸ List.mem_cons_self))).1
  have hne : t ++ trimRight x ≠ [] := List.append_ne_nil_of_left_ne_nil h.ne_nil _
  have hhead : (t ++ trimRight x).head? = some c := by rw [hc]; rfl
  obtain ⟨l, hvalue, hscan⟩ := h.reads
  rw [deserializeValue]
  simp only [h.solid.trim_around ha, hne, hhead, Option.some.injEq, h91, h123, h34, hscan, hx.scan,
    hvalue, if_false]

theorem text_value {s r : Text} (h : Chars s r) (fuel : Nat) (stack : DepthStack) :
    deserializeValue libc (fuel + 1) (a ++ (34 :: s ++ [34]) ++ x) stack =
      .ok (some (.text (trim r), trimRight x), stack) := by
  have htrim := (solid_between (a := 34) (b := 34) (by decide) (by decide) s).trim_around ha x
  generalize ht : 34 :: s ++ [34] ++ trimRight x = t at htrim
  have hhead : t.head? = some 34 := by rw [← ht]; rfl
  have hne : t ≠ [] := by rw [← ht]; exact List.cons_ne_nil _ _
  have hdrop : t.drop 1 = s ++ 34 :: trimRight x := by
    rw [← ht, List.append_assoc]
    rfl
  have hquote : getQuotePos t 1 = some (1 + s.length) := by
    rw [getQuotePos, hdrop, h.quoted.quotePos]
  have hinner : (t.drop 1).take (1 + s.length - 1) = s := by
    rw [hdrop, Nat.add_sub_cancel_left, List.take_left]
  have hrest : substr t (1 + s.length + 1) = .ok (trimRight x) := by
    have hlen : t.length = 1 + s.length + 1 + (trimRight x).length := by
      rw [← ht, List.length_append, List.length_append, List.length_cons, List.length_singleton]
      omega
    rw [substr, if_pos (by omega), ← ht, List.drop_left' (by simp; omega)]
  have hunescape : unescapeJSONString s = .ok (trim r) := by
    rw [unescapeJSONString, h.unescape]
    rfl
  have h91 : ¬ (34 : UInt8) = 91 := by decide
  have h123 : ¬ (34 : UInt8) = 123 := by decide
  rw [deserializeValue]
  simp only [htrim, hne, hhead, Option.some.injEq, h91, h123, hquote, hinner, hunescape, hrest,
    if_false, if_true, ok_bind]
  rfl

omit ha in
theorem take_bracketed (c d : UInt8) (t rest : Text) :
    (c :: t ++ [d] ++ rest).take (t.length + 1 + 1) = c :: t ++ [d] ∧
      substr (c :: t ++ [d] ++ rest) (t.length + 1 + 1) = .ok rest := by
  have hlen : (c :: t ++ [d]).length = t.length + 1 + 1 := by simp
  refine ⟨List.take_left' hlen, ?_⟩
  rw [substr, if_pos (by rw [List.length_append, hlen]; exact Nat.le_add_right _ _),
    List.drop_left' hlen]

theorem array_value {fuel : Nat} {t : Text} {v : Value} {stack stack' : DepthStack} (ht : Passed t)
    (h : deserializeArray libc fuel (91 :: t ++ [93]) stack = .ok (v, stack')) :
    deserializeValue libc (fuel + 1) (a ++ (91 :: t ++ [93]) ++ x) stack =
      .ok (some (v, trimRight x), stack') := by
  have htrim := (solid_between (a := 91) (b := 93) (by decide) (by decide) t).trim_around ha x
  have hhead : (91 :: t ++ [93] ++ trimRight x).head? = some 91 := rfl
  have hne : 91 :: t ++ [93] ++ trimRight x ≠ [] := List.cons_ne_nil _ _
  have hend := getEndOfArrayOrObj_bracketed ht .inArray stack (trimRight x)
  rw [opening, closing] at hend
  obtain ⟨htake, hrest⟩ := take_bracketed 91 93 t (trimRight x)
  rw [deserializeValue]
  simp only [htrim, hne, hhead, hend, htake, hrest, h, if_false, if_true, ok_bind]
  rfl

theorem object_value {fuel : Nat} {t : Text} {v : Value} {stack stack' : DepthStack} (ht : Passed t)
    (h : deserializeInternal libc fuel (123 :: t ++ [125]) stack = .ok (v, stack')) :
    deserializeValue libc (fuel + 1) (a ++ (123 :: t ++ [125]) ++ x) stack =
      .ok (some (v, trimRight x), stack') := by
  have htrim := (solid_between (a := 123) (b := 125) (by decide) (by decide) t).trim_around ha x
  have hhead : (123 :: t ++ [125] ++ trimRight x).head? = some 123 := rfl
  have hne : 123 :: t ++ [125] ++ trimRight x ≠ [] := List.cons_ne_nil _ _
  have hend := getEndOfArrayOrObj_bracketed ht .inObject stack (trimRight x)
  rw [opening, closing] at hend
  obtain ⟨htake, hrest⟩ := take_bracketed 123 125 t (trimRight x)
  have h91 : ¬ (123 : UInt8) = 91 := by decide
  rw [deserializeValue]
  simp only [htrim, hne, hhead, Option.some.injEq, h91, hend, htake, hrest, h, if_false, if_true,
    ok_bind]
  rfl

end Values

/-! ## Containers -/

theorem inner_bracketed (a b : UInt8) (t : Text) : inner (a :: t ++ [b]) = t := by
  have hlen : (a :: t ++ [b]).length - 2 = t.length := by simp
  rw [inner, hlen, List.cons_append, List.drop_one, List.tail_cons, List.take_left]

theorem array_bracketed (fuel : Nat) (t : Text) (stack : DepthStack) :
    deserializeArray libc (fuel + 1) (91 :: t ++ [93]) stack =
      deserializeElements libc fuel t [] stack := by
  have hsolid := solid_between (a := 91) (b := 93) (by decide) (by decide) t
  have hends : (91 :: t ++ [93]).head? = some 91 ∧ (91 :: t ++ [93]).getLast? = some 93 :=
    ⟨rfl, List.getLast?_concat⟩
  rw [deserializeArray]
  simp only [trim_of_trimmed hsolid.trimmed]
  rw [if_pos hends, inner_bracketed]

theorem obj_bracketed (fuel : Nat) (t : Text) (stack : DepthStack) :
    deserializeObj libc (fuel + 1) (123 :: t ++ [125]) stack =
      deserializeMembers libc fuel t [] stack := by
  have hsolid := solid_between (a := 123) (b := 125) (by decide) (by decide) t
  rw [deserializeObj]
  simp only [trim_of_trimmed hsolid.trimmed]
  rw [if_neg fun h => h.1 rfl, inner_bracketed]

theorem leave_ok (t : StackDepthType) (v : Value) {stack : DepthStack} {n : Nat}
    (h : n + 1 ≤ stack.length) : ∃ stack', n ≤ stack'.length ∧ leave t v stack = .ok (v, stack') := by
  unfold leave
  split
  · exact ⟨stack, by omega, rfl⟩
  · match stack, h with
    | t' :: stack', h =>
      refine ⟨_, ?_, rfl⟩
      rw [List.length_cons] at h
      split
      · exact Nat.le_of_succ_le h
      · omega

theorem internal_object {fuel : Nat} {t : Text} {v : Value}
    {stack stack' : DepthStack} (hs : stack.length + 1 ≤ stack'.length)
    (h : deserializeMembers libc fuel t [] (.inObject :: stack) = .ok (v, stack')) :
    ∃ stack'', stack.length ≤ stack''.length ∧
      deserializeInternal libc (fuel + 2) (123 :: t ++ [125]) stack = .ok (v, stack'') := by
  have hsolid := solid_between (a := 123) (b := 125) (by decide) (by decide) t
  have hlast : ¬ (123 :: t ++ [125]).getLast? ≠ some 125 := by
    rw [List.getLast?_concat]
    exact not_not.mpr rfl
  have hhead : (123 :: t ++ [125]).head? = some 123 := rfl
  obtain ⟨stack'', hs'', hleave⟩ := leave_ok .inObject v hs
  refine ⟨stack'', hs'', ?_⟩
  rw [deserializeInternal]
  simp only [trim_of_trimmed hsolid.trimmed]
  rw [if_pos hhead, if_neg hlast, obj_bracketed, h, ok_bind]
  exact hleave

theorem internal_array {fuel : Nat} {t : Text} {v : Value}
    {stack stack' : DepthStack} (hs : stack.length + 1 ≤ stack'.length)
    (h : deserializeElements libc fuel t [] (.inArray :: stack) = .ok (v, stack')) :
    ∃ stack'', stack.length ≤ stack''.length ∧
      deserializeInternal libc (fuel + 2) (91 :: t ++ [93]) stack = .ok (v, stack'') := by
  have hsolid := solid_between (a := 91) (b := 93) (by decide) (by decide) t
  have hlast : ¬ (91 :: t ++ [93]).getLast? ≠ some 93 := by
    rw [List.getLast?_concat]
    exact not_not.mpr rfl
  have h123 : ¬ (91 :: t ++ [93]).head? = some 123 := by
    rw [List.cons_append, List.head?_cons]
    decide
  have hhead : (91 :: t ++ [93]).head? = some 91 := rfl
  obtain ⟨stack'', hs'', hleave⟩ := leave_ok .inArray v hs
  refine ⟨stack'', hs'', ?_⟩
  rw [deserializeInternal]
  simp only [trim_of_trimmed hsolid.trimmed]
  rw [if_neg h123, if_pos hhead, if_neg hlast, array_bracketed, h, ok_bind]
  exact hleave

/-! ## The loop over elements -/

theorem elements_alone (fuel : Nat) {s u : Text} (h0 : s ++ u ≠ [])
    (hs : ∀ c ∈ s, endsElement c = false) (hu : u = [] ∨ u.head? = some 44) (acc : List Value)
    (stack : DepthStack) : deserializeElements libc (fuel + 1) (s ++ u) acc stack =
      (do
        match ← deserializeValue libc fuel s stack with
        | (none, stack) => pure (.null, stack)
        | (some (v, _), stack) => deserializeElements libc fuel (u.drop 1) (push acc v) stack) := by
  have hno : ∀ c ∈ s, (!endsElement c) = true := fun c hc => by rw [hs c hc, Bool.not_false]
  have hrest : u.dropWhile (!endsElement ·) = u ∧ u.takeWhile (!endsElement ·) = [] ∧
      ¬ (u.head? = some 123 ∨ u.head? = some 91) := by
    rcases hu with rfl | hu
    · exact ⟨rfl, rfl, by decide⟩
    · obtain ⟨cs, rfl⟩ := List.head?_eq_some_iff.mp hu
      refine ⟨rfl, rfl, ?_⟩
      rw [List.head?_cons]
      decide
  rw [deserializeElements, if_neg h0]
  dsimp only
  rewrite [List.dropWhile_append_of_pos hno, List.takeWhile_append_of_pos hno, hrest.1, hrest.2.1,
    if_neg hrest.2.2, List.append_nil]
  rfl

theorem endsElement_blank {b : Text} (hb : Blank b) : ∀ c ∈ b, endsElement c = false := by
  intro c hc
  obtain ⟨-, -, -, h93, -, h44, h91, h123⟩ := of_isSpace (hb c hc)
  simp [endsElement, h93, h44, h91, h123]

theorem value_blank {b : Text} (hb : Blank b) (fuel : Nat) (stack : DepthStack) :
    deserializeValue libc (fuel + 1) b stack = .ok (some (.null, []), stack) := by
  have htrim : trim b = [] := by
    rw [trim, List.dropWhile_eq_nil_iff.mpr hb]
    rfl
  rw [deserializeValue]
  simp only [htrim, if_true]

theorem elements_blank {b : Text} (hb : Blank b) (fuel : Nat) (acc : List Value) (stack : DepthStack) :
    deserializeElements libc (fuel + 2) b acc stack = .ok (.array acc, stack) := by
  by_cases h0 : b = []
  · rw [deserializeElements, if_pos h0]
  · have halone := @elements_alone libc (fuel + 1) b [] (by rwa [List.append_nil])
      (endsElement_blank hb) (.inl rfl) acc stack
    rw [List.append_nil, value_blank hb, ok_bind] at halone
    rw [halone]
    dsimp only
    rw [List.drop_nil, deserializeElements, if_pos rfl]
    rfl

/-- Where the element before left its comma, it counts as an element that is null. -/
theorem elements_comma {b : Text} (hb : Blank b) (w : Text) (fuel : Nat) (acc : List Value)
    (stack : DepthStack) : deserializeElements libc (fuel + 2) (b ++ 44 :: w) acc stack =
      deserializeElements libc (fuel + 1) w acc stack := by
  rw [elements_alone (fuel + 1) (by simp) (endsElement_blank hb) (.inr rfl), value_blank hb, ok_bind]
  rfl

/-- An element with an opening bracket is read from the begin of the whole text on. -/
theorem elements_open {fuel : Nat} {str rest : Text} {c : UInt8} {v : Value}
    {stack stack' : DepthStack} (hstop : (str.dropWhile (!endsElement ·)).head? = some c)
    (hc : c = 123 ∨ c = 91)
    (h : deserializeValue libc fuel str stack = .ok (some (v, rest), stack')) (a : List Value) :
    deserializeElements libc (fuel + 1) str a stack =
      deserializeElements libc fuel rest (push a v) stack' := by
  have h0 : str ≠ [] := by
    rintro rfl
    cases hstop
  have hopen : (str.dropWhile (!endsElement ·)).head? = some 123 ∨
      (str.dropWhile (!endsElement ·)).head? = some 91 := by
    rw [hstop]
    exact hc.imp (congrArg some) (congrArg some)
  rw [deserializeElements, if_neg h0]
  dsimp only
  rw [if_pos hopen, h, ok_bind]

/-- What ends the text of a string as an element is in it. -/
theorem stop_quoted (s : Text) : ((34 :: s ++ [34]).dropWhile (!endsElement ·)).head? =
    (s.dropWhile (!endsElement ·)).head? := by
  have hkeep : (!endsElement 34) = true := rfl
  rw [List.cons_append, List.dropWhile_cons, hkeep, if_pos rfl, List.dropWhile_append]
  cases hd : s.dropWhile (!endsElement ·) with
  | nil => rfl
  | cons c cs => rfl

/-- The begin of a string is no value. -/
theorem value_cut {a front s : Text} (ha : Blank a) (hs : Quoted s) (hf : front <+: s) (fuel : Nat)
    (stack : DepthStack) :
    deserializeValue libc (fuel + 1) (a ++ 34 :: front) stack = .ok (none, stack) := by
  have htrim := (@solid_of_forall [34] nofun fun c hc => List.mem_singleton.mp hc ▸ rfl).trim_around
    ha front
  have hquote : getQuotePos (34 :: trimRight front) 1 = none :=
    hs.no_quote ((trimRight_isPrefix front).trans hf) 1
  rw [List.append_assoc, List.singleton_append, List.singleton_append] at htrim
  rw [deserializeValue]
  simp only [htrim, List.head?_cons, hquote]
  rfl

/-- A string that is cut has no quote behind it, and nothing comes of the array. -/
theorem elements_cut {a s : Text} (ha : Blank a) (hs : Quoted s)
    (hcut : whole (34 :: s ++ [34]) = false) (x : Text) (fuel : Nat) (acc : List Value)
    (stack : DepthStack) :
    deserializeElements libc (fuel + 2) (a ++ (34 :: s ++ [34]) ++ x) acc stack =
      .ok (.null, stack) := by
  have hstop : (s.dropWhile (!endsElement ·)).head? = some 44 ∨
      (s.dropWhile (!endsElement ·)).head? = some 93 := by
    simp only [whole, stop_quoted, Bool.and_eq_false_iff, decide_eq_false_iff_not, not_not] at hcut
    exact hcut
  obtain ⟨c, cs, hc, hend, hclosed⟩ : ∃ c cs, s.dropWhile (!endsElement ·) = c :: cs ∧
      endsElement c = true ∧ ¬ (some c = some 123 ∨ some c = some 91) := by
    rcases hstop with h | h
    · obtain ⟨cs, h⟩ := List.head?_eq_some_iff.mp h
      exact ⟨_, cs, h, rfl, by decide⟩
    · obtain ⟨cs, h⟩ := List.head?_eq_some_iff.mp h
      exact ⟨_, cs, h, rfl, by decide⟩
  -- the text of the element ends at `c`, in front of the closing quote
  generalize hfront : s.takeWhile (!endsElement ·) = front
  have hsplit : s = front ++ c :: cs := by
    rw [← hc, ← hfront, List.takeWhile_append_dropWhile]
  have hno : ∀ d ∈ a ++ 34 :: front, (!endsElement d) = true := by
    intro d hd
    rcases List.mem_append.mp hd with hd | hd
    · rw [endsElement_blank ha d hd, Bool.not_false]
    · rcases List.mem_cons.mp hd with rfl | hd
      · rfl
      · exact List.mem_takeWhile_imp (p := fun d => !endsElement d) (hfront.symm ▸ hd)
  have hclosing (t : Text) : (c :: t).dropWhile (!endsElement ·) = c :: t ∧
      (c :: t).takeWhile (!endsElement ·) = [] := by
    simp [hend]
  have hstr : a ++ (34 :: s ++ [34]) ++ x = (a ++ 34 :: front) ++ c :: (cs ++ [34] ++ x) := by
    rw [hsplit]
    simp
  have hvalue := @value_cut libc a front s ha hs (hsplit ▸ List.prefix_append front _) fuel stack
  rw [deserializeElements, if_neg (by simp)]
  dsimp only
  rw [hstr, List.dropWhile_append_of_pos hno, List.takeWhile_append_of_pos hno,
    (hclosing _).1, (hclosing _).2, List.head?_cons, if_neg hclosed, List.append_nil, hvalue,
    ok_bind]
  rfl

/-- An element is free of commas and brackets, or has an opening bracket first, or is cut. -/
theorem Denotes.kinds {t : Text} {v : Option Value} (h : Denotes libc t v) :
    (whole t = true ∧ ∀ c ∈ t, endsElement c = false) ∨
    (whole t = true ∧ ∃ w c, v = some w ∧ (c = 123 ∨ c = 91) ∧ ∀ a x, Blank a →
      ((a ++ t ++ x).dropWhile (!endsElement ·)).head? = some c) ∨
    (whole t = false ∧ ∃ s, Quoted s ∧ t = 34 :: s ++ [34]) := by
  cases hstop : t.dropWhile (!endsElement ·) with
  | nil =>
    refine .inl ⟨by simp [whole, hstop], fun c hc => ?_⟩
    simpa using List.dropWhile_eq_nil_iff.mp hstop c hc
  | cons c cs =>
    have hc : endsElement c = true := by
      have hhead := List.head?_dropWhile_not (!endsElement ·) t
      rw [hstop] at hhead
      simpa using hhead
    have hmem : c ∈ t := (List.dropWhile_suffix _).subset (hstop ▸ List.mem_cons_self)
    by_cases hopen : c = 123 ∨ c = 91
    · refine .inr (.inl ⟨?_, ?_⟩)
      · rcases hopen with rfl | rfl <;> simp [whole, hstop]
      · obtain ⟨w, rfl⟩ : ∃ w, v = some w := by
          cases h with
          | scalar h =>
            rw [(literalChar_spec (h.reads.chars c hmem)).2.2.1] at hc
            cases hc
          | text => exact ⟨_, rfl⟩
          | array => exact ⟨_, rfl⟩
          | empty => exact ⟨_, rfl⟩
          | object => exact ⟨_, rfl⟩
        refine ⟨w, c, rfl, hopen, fun a x ha => ?_⟩
        have hno : ∀ d ∈ a, (!endsElement d) = true := fun d hd => by
          rw [endsElement_blank ha d hd, Bool.not_false]
        rw [List.append_assoc, List.dropWhile_append_of_pos hno, List.dropWhile_append, hstop]
        rfl
    · refine .inr (.inr ⟨?_, ?_⟩)
      · rw [not_or] at hopen
        have hclosed : c = 44 ∨ c = 93 := by
          simpa [endsElement, hopen.1, hopen.2] using hc
        rcases hclosed with rfl | rfl <;> simp [whole, hstop]
      · cases h with
        | scalar h =>
          rw [(literalChar_spec (h.reads.chars c hmem)).2.2.1] at hc
          cases hc
        | text h => exact ⟨_, h.quoted, rfl⟩
        | array =>
          cases hstop
          exact absurd (.inr rfl) hopen
        | empty =>
          cases hstop
          exact absurd (.inl rfl) hopen
        | object =>
          cases hstop
          exact absurd (.inl rfl) hopen

/-! ## One element, one member -/

/-- What is behind a value: nothing, or a comma and more. -/
def Behind (u : Text) : Prop := u = [] ∨ u.head? = some 44

theorem Behind.cases {u : Text} (h : Behind u) : u = [] ∨ ∃ w, u = 44 :: w :=
  h.imp_right fun h => List.head?_eq_some_iff.mp h

theorem Behind.tail {b u : Text} (h : Behind u) (hb : Blank b) : Tail (b ++ u) := by
  rcases h.cases with rfl | ⟨w, rfl⟩
  · rw [List.append_nil]
    exact .last hb
  · exact .comma hb

/-- The functions find what the texts denote, with this fuel. -/
structure Finds (libc : Libc) (fuel : Nat) : Prop where
  value : ∀ {a t x : Text} {v : Option Value} (stack : DepthStack), Denotes libc t v → Blank a →
    Tail x → 4 * (a ++ t ++ x).length + 3 ≤ fuel → ∃ rest stack', Left x rest ∧
      stack.length ≤ stack'.length ∧
      deserializeValue libc fuel (a ++ t ++ x) stack = .ok (v.map (·, rest), stack')
  elements : ∀ {e : Text} {vs : Option (List Value)} (acc : List Value) (stack : DepthStack),
    Elements libc e vs → 4 * e.length + 4 ≤ fuel → ∃ stack', stack.length ≤ stack'.length ∧
      deserializeElements libc fuel e acc stack =
        .ok (vs.elim .null fun vs => .array (acc ++ vs), stack')
  members : ∀ {front m : Text} {fields : Option (List (Text × Value))}
    (obj : List (Text × Value)) (stack : DepthStack), Members libc m fields →
    (∀ c ∈ front, c ≠ 34 ∧ c ≠ 92) → 4 * (front ++ m).length + 4 ≤ fuel →
    ∃ stack', stack.length ≤ stack'.length ∧ deserializeMembers libc fuel (front ++ m) obj stack =
      .ok (fields.elim .null (objectOf obj), stack')

theorem push_append (acc : List Value) (v : Value) : push acc v = acc ++ push [] v := by
  unfold push
  split
  · rw [List.append_nil]
  · rw [List.nil_append]

theorem element_whole {t : Text} (h : whole t = true) (v : Option Value) :
    element t v = v.map (push []) := by
  rw [element, h]
  cases v <;> rfl

theorem element_cut {t : Text} (h : whole t = false) (v : Option Value) : element t v = none := by
  rw [element, h]
  cases v <;> rfl

theorem Finds.cons_elements {fuel : Nat} (H : ∀ f < fuel + 2, Finds libc f) {a t b u : Text}
    {v : Option Value} {vs : Option (List Value)} (ha : Blank a) (ht : Denotes libc t v)
    (hb : Blank b) (hu : Behind u) (hrest : Elements libc (u.drop 1) vs) (acc : List Value)
    (stack : DepthStack) (hf : 4 * (a ++ t ++ (b ++ u)).length + 4 ≤ fuel + 2) :
    ∃ stack', stack.length ≤ stack'.length ∧
      deserializeElements libc (fuel + 2) (a ++ t ++ (b ++ u)) acc stack =
        .ok (((element t v).bind fun v => vs.map (v ++ ·)).elim .null fun vs => .array (acc ++ vs),
          stack') := by
  have hpush (w : Value) : ((some w).map (push []) |>.bind fun v => vs.map (v ++ ·)).elim Value.null
      (fun vs => .array (acc ++ vs)) = vs.elim .null fun vs => .array (push acc w ++ vs) := by
    rw [push_append acc]
    cases vs <;> simp
  have hpos := List.length_pos_of_ne_nil ht.solid.ne_nil
  simp only [List.length_append] at hf
  rcases ht.kinds with ⟨hwhole, hno⟩ | ⟨hwhole, w, c, rfl, hc, hstop⟩ | ⟨hcut, s, hs, rfl⟩
  · -- up to the comma
    have hend : ∀ c ∈ a ++ t ++ b, endsElement c = false := by
      intro c hc
      rcases List.mem_append.mp hc with hc | hc
      · rcases List.mem_append.mp hc with hc | hc
        · exact endsElement_blank ha c hc
        · exact hno c hc
      · exact endsElement_blank hb c hc
    have hne : a ++ t ++ b ++ u ≠ [] := by
      simp [ht.solid.ne_nil]
    obtain ⟨rest, stack1, -, hs1, h1⟩ := (H (fuel + 1) (by omega)).value stack ht ha (.last hb) (by
      simp only [List.length_append]
      omega)
    rw [← List.append_assoc (a ++ t), elements_alone (fuel + 1) hne hend hu, h1, ok_bind,
      element_whole hwhole]
    cases v with
    | none => exact ⟨stack1, hs1, rfl⟩
    | some w =>
      obtain ⟨stack2, hs2, h2⟩ := (H (fuel + 1) (by omega)).elements (push acc w) stack1 hrest (by
        rw [List.length_drop]
        omega)
      rw [hpush]
      exact ⟨stack2, hs1.trans hs2, h2⟩
  · -- from the begin of the text on
    obtain ⟨rest, stack1, hleft, hs1, h1⟩ := (H (fuel + 1) (by omega)).value stack ht ha (hu.tail hb)
      (by
        simp only [List.length_append]
        omega)
    rw [elements_open (hstop a (b ++ u) ha) hc h1, element_whole hwhole, hpush]
    rcases hu.cases with rfl | ⟨text, rfl⟩
    · rw [List.append_nil] at hleft
      rw [hleft.last hb]
      obtain ⟨stack2, hs2, h2⟩ := (H (fuel + 1) (by omega)).elements (push acc w) stack1 hrest (by
        rw [List.drop_nil, List.length_nil]
        omega)
      exact ⟨stack2, hs1.trans hs2, h2⟩
    · obtain ⟨b', hb', rfl⟩ := hleft.comma hb
      have hlen := (trimRight_isPrefix text).length_le
      rw [List.length_cons] at hf
      obtain ⟨f, rfl⟩ := Nat.exists_eq_add_of_le' (show 1 ≤ fuel by omega)
      obtain ⟨stack2, hs2, h2⟩ := (H (f + 1) (by omega)).elements (push acc w) stack1
        hrest.trimRight (by
          rw [List.drop_one, List.tail_cons]
          omega)
      rw [elements_comma hb']
      exact ⟨stack2, hs1.trans hs2, h2⟩
  · -- cut
    refine ⟨stack, Nat.le_refl _, ?_⟩
    rw [elements_cut ha hs hcut, element_cut hcut]
    rfl

theorem keyOf_member {front key b : Text} (hf : ∀ c ∈ front, c ≠ 34 ∧ c ≠ 92) (hk : Quoted key)
    (hb : Blank b) (rest : Text) :
    keyOf (front ++ 34 :: (key ++ 34 :: (b ++ 58 :: rest))) = some (key, rest) := by
  generalize ht : front ++ 34 :: (key ++ 34 :: (b ++ 58 :: rest)) = t
  have hkey : t.drop (front.length + 1) = key ++ 34 :: (b ++ 58 :: rest) := by
    rw [← ht, ← List.drop_drop, List.drop_left, List.drop_one, List.tail_cons]
  have hquote : t.drop (front.length + 1 + key.length) = 34 :: b ++ 58 :: rest := by
    rw [← List.drop_drop, hkey, List.drop_left]
    rfl
  have hstart : getQuotePos t 0 = some front.length := by
    rw [getQuotePos, List.drop_zero, ← ht, ← List.append_nil front,
      (Quoted.append hf .nil).quotePos, Nat.zero_add]
  have hend : getQuotePos t (front.length + 1) = some (front.length + 1 + key.length) := by
    rw [getQuotePos, hkey, hk.quotePos]
  have hno : ∀ c ∈ 34 :: b, ¬ c = 58 := by
    intro c hc
    rcases List.mem_cons.mp hc with rfl | hc
    · decide
    · rintro rfl
      exact absurd (hb 58 hc) (by decide)
  have hcolon : find 58 t (front.length + 1 + key.length) =
      some (front.length + 1 + key.length + (34 :: b).length) := by
    rw [find, hquote, List.findIdx?_append, List.findIdx?_eq_none_iff.mpr (by simpa using hno)]
    simp [List.findIdx?_cons]
  have hrest : t.drop (front.length + 1 + key.length + (34 :: b).length + 1) = rest := by
    rw [Nat.add_assoc, ← List.drop_drop, hquote, ← List.drop_drop, List.drop_left]
    rfl
  have htake : (key ++ 34 :: (b ++ 58 :: rest)).take
      (front.length + 1 + key.length - front.length - 1) = key := by
    rw [show front.length + 1 + key.length - front.length - 1 = key.length by omega, List.take_left]
  simp only [keyOf, hstart, hend, hcolon, hkey, hrest, htake, Option.bind_eq_bind, Option.bind_some]
  rfl

theorem Finds.member {fuel : Nat} (H : Finds libc fuel) {front key b c t x : Text}
    {v : Option Value} (hf : ∀ c ∈ front, c ≠ 34 ∧ c ≠ 92) (hk : Quoted key) (hb : Blank b)
    (hc : Blank c) (ht : Denotes libc t v) (hx : Tail x) (obj : List (Text × Value))
    (stack : DepthStack) (hle : 4 * (c ++ t ++ x).length + 3 ≤ fuel) :
    ∃ rest stack', Left x rest ∧ stack.length ≤ stack'.length ∧
      deserializeMembers libc (fuel + 1) (front ++ 34 :: (key ++ 34 :: (b ++ 58 :: (c ++ t ++ x))))
        obj stack =
      match Json.member key v with
      | none => .ok (.null, stack')
      | some p => deserializeMembers libc fuel rest (insert p.1 p.2 obj) stack' := by
  obtain ⟨rest, stack', hleft, hs, h⟩ := H.value stack ht hc hx hle
  have hne : front ++ 34 :: (key ++ 34 :: (b ++ 58 :: (c ++ t ++ x))) ≠ [] := by simp
  rw [deserializeMembers, if_neg hne, keyOf_member hf hk hb]
  dsimp only
  by_cases hempty : key = []
  · refine ⟨rest, stack, hleft, Nat.le_refl _, ?_⟩
    rw [if_pos hempty, Json.member, decide_eq_false (not_not.mpr hempty)]
    cases v <;> rfl
  · refine ⟨rest, stack', hleft, hs, ?_⟩
    rw [if_neg hempty, h, ok_bind, Json.member, decide_eq_true hempty]
    cases v <;> rfl

/-! ## The whole text -/

theorem unquoted_blank {b : Text} (hb : Blank b) : ∀ c ∈ b, c ≠ 34 ∧ c ≠ 92 := by
  intro c hc
  obtain ⟨h34, h92, -⟩ := passive_iff.mp (passive_of_isSpace (hb c hc))
  exact ⟨h34, h92⟩

theorem Finds.elements_step {fuel : Nat} (H : ∀ f < fuel, Finds libc f) {e : Text}
    {vs : Option (List Value)} (he : Elements libc e vs) (acc : List Value) (stack : DepthStack)
    (hf : 4 * e.length + 4 ≤ fuel) : ∃ stack', stack.length ≤ stack'.length ∧
      deserializeElements libc fuel e acc stack =
        .ok (vs.elim .null fun vs => .array (acc ++ vs), stack') := by
  obtain ⟨f, rfl⟩ := Nat.exists_eq_add_of_le' (show 2 ≤ fuel by omega)
  cases he with
  | nil ha =>
    refine ⟨stack, Nat.le_refl _, ?_⟩
    rw [elements_blank ha, Option.elim_some, List.append_nil]
  | @last a t b v ha ht hb =>
    have hu : a ++ t ++ b = a ++ t ++ (b ++ []) := by rw [List.append_nil]
    have hv : ((element t v).bind fun v => (some []).map (v ++ ·)) = element t v := by
      cases element t v <;> simp
    rw [hu] at hf ⊢
    have h := Finds.cons_elements H ha ht hb (.inl rfl) (.nil blank_nil) acc stack hf
    rwa [hv] at h
  | @cons a t b rest v vs ha ht hb hrest =>
    exact Finds.cons_elements (u := 44 :: rest) H ha ht hb (.inr rfl) hrest acc stack hf

theorem Finds.members_step {fuel : Nat} (H : ∀ f < fuel, Finds libc f) {front m : Text}
    {fields : Option (List (Text × Value))} (hm : Members libc m fields)
    (hfront : ∀ c ∈ front, c ≠ 34 ∧ c ≠ 92) (obj : List (Text × Value)) (stack : DepthStack)
    (hf : 4 * (front ++ m).length + 4 ≤ fuel) : ∃ stack', stack.length ≤ stack'.length ∧
      deserializeMembers libc fuel (front ++ m) obj stack =
        .ok (fields.elim .null (objectOf obj), stack') := by
  obtain ⟨f, rfl⟩ := Nat.exists_eq_add_of_le' (show 2 ≤ fuel by omega)
  have hblank {a : Text} (ha : Blank a) : ∀ c ∈ front ++ a, c ≠ 34 ∧ c ≠ 92 := by
    intro c hc
    rcases List.mem_append.mp hc with hc | hc
    · exact hfront c hc
    · exact unquoted_blank ha c hc
  cases hm with
  | @last a key b c t d v ha hk hb hc ht hd =>
    simp only [List.length_append, List.length_cons] at hf
    obtain ⟨rest, stack1, hleft, hs1, h1⟩ := Finds.member (H (f + 1) (by omega)) (hblank ha) hk hb hc
      ht (.last hd) obj stack (by
        simp only [List.length_append]
        omega)
    refine ⟨stack1, hs1, ?_⟩
    rw [← List.append_assoc, h1, hleft.last hd]
    cases Json.member key v with
    | none => rfl
    | some p =>
      dsimp only
      rw [deserializeMembers, if_pos rfl]
      rfl
  | @cons a key b c t d rest v fields ha hk hb hc ht hd hrest =>
    simp only [List.length_append, List.length_cons] at hf
    obtain ⟨text, stack1, hleft, hs1, h1⟩ := Finds.member (H (f + 1) (by omega)) (hblank ha) hk hb hc
      ht (Tail.comma (w := rest) hd) obj stack (by
        simp only [List.length_append, List.length_cons]
        omega)
    obtain ⟨d', hd', rfl⟩ := hleft.comma hd
    have hlen := hleft.length_le
    simp only [List.length_append, List.length_cons] at hlen
    rw [← List.append_assoc, h1]
    cases Json.member key v with
    | none => exact ⟨stack1, hs1, rfl⟩
    | some p =>
      have hcomma : ∀ c ∈ d' ++ [44], c ≠ 34 ∧ c ≠ 92 := by
        intro c hc
        rcases List.mem_append.mp hc with hc | hc
        · exact unquoted_blank hd' c hc
        · rw [List.mem_singleton.mp hc]
          decide
      obtain ⟨stack2, hs2, h2⟩ := (H (f + 1) (by omega)).members (insert p.1 p.2 obj) stack1
        hrest.trimRight hcomma (by
          simp only [List.length_append, List.length_singleton]
          omega)
      refine ⟨stack2, hs1.trans hs2, ?_⟩
      rw [List.append_assoc, List.singleton_append] at h2
      dsimp only
      rw [h2]
      cases fields <;> rfl

theorem Finds.value_step {fuel : Nat} (H : ∀ f < fuel, Finds libc f) {a t x : Text}
    {v : Option Value} (ht : Denotes libc t v) (ha : Blank a) (hx : Tail x) (stack : DepthStack)
    (hf : 4 * (a ++ t ++ x).length + 3 ≤ fuel) : ∃ rest stack', Left x rest ∧
      stack.length ≤ stack'.length ∧
      deserializeValue libc fuel (a ++ t ++ x) stack = .ok (v.map (·, rest), stack') := by
  simp only [List.length_append] at hf
  cases ht with
  | scalar h =>
    obtain ⟨f, rfl⟩ := Nat.exists_eq_add_of_le' (show 1 ≤ fuel by omega)
    exact ⟨_, stack, .inr rfl, Nat.le_refl _, h.reads.value ha hx f stack⟩
  | text h =>
    obtain ⟨f, rfl⟩ := Nat.exists_eq_add_of_le' (show 1 ≤ fuel by omega)
    exact ⟨_, stack, .inl rfl, Nat.le_refl _, text_value ha h f stack⟩
  | array h =>
    simp only [List.length_append, List.length_cons, List.length_nil] at hf
    obtain ⟨f, rfl⟩ := Nat.exists_eq_add_of_le' (show 2 ≤ fuel by omega)
    obtain ⟨stack1, hs1, h1⟩ := (H f (by omega)).elements [] stack h (by omega)
    rw [← array_bracketed] at h1
    refine ⟨_, stack1, .inl rfl, hs1, (array_value ha h.passed h1).trans ?_⟩
    rfl
  | empty =>
    simp only [List.length_cons, List.length_nil] at hf
    obtain ⟨f, rfl⟩ := Nat.exists_eq_add_of_le' (show 4 ≤ fuel by omega)
    have h1 : deserializeMembers libc (f + 1) [] [] (.inObject :: stack) =
        .ok (.object [], .inObject :: stack) := by
      rw [deserializeMembers, if_pos rfl]
    obtain ⟨stack2, hs2, h2⟩ := internal_object (Nat.le_refl _) h1
    exact ⟨_, stack2, .inl rfl, hs2, object_value ha passed_nil h2⟩
  | object h =>
    simp only [List.length_append, List.length_cons, List.length_nil] at hf
    obtain ⟨f, rfl⟩ := Nat.exists_eq_add_of_le' (show 3 ≤ fuel by omega)
    obtain ⟨stack1, hs1, h1⟩ := @Finds.members libc f (H f (by omega)) [] _ _ [] (.inObject :: stack) h
      (fun _ hc => absurd hc List.not_mem_nil) (by
        rw [List.nil_append]
        omega)
    obtain ⟨stack2, hs2, h2⟩ := internal_object hs1 h1
    exact ⟨_, stack2, .inl rfl, hs2, object_value ha h.passed h2⟩

theorem finds (fuel : Nat) : Finds libc fuel := by
  induction fuel using Nat.strong_induction_on with
  | h fuel ih =>
    exact {
      value := fun stack ht ha hx hf => Finds.value_step ih ht ha hx stack hf
      elements := fun acc stack he hf => Finds.elements_step ih he acc stack hf
      members := fun obj stack hm hfront hf => Finds.members_step ih hm hfront obj stack hf }

/-- What becomes of a document: nothing of a value that is no object and no array. -/
def document : Option Value → Value
  | some (.object fields) => .object fields
  | some (.array elems) => .array elems
  | _ => .null

theorem document_scalar {t : Text} {v : Option Value} (h : Scalar libc t v) : document v = .null := by
  have hdouble (d : Option Double) : document (d.map .double) = .null := by cases d <;> rfl
  cases h with
  | null => rfl
  | bool => rfl
  | int n =>
    unfold integerRead
    split
    · exact hdouble _
    · split <;> rfl
  | real => exact hdouble _

theorem internal_trim {str t : Text} (h : trim str = t) (ht : Trimmed t) (fuel : Nat)
    (stack : DepthStack) :
    deserializeInternal libc fuel str stack = deserializeInternal libc fuel t stack := by
  cases fuel with
  | zero => rfl
  | succ fuel =>
    rw [deserializeInternal, deserializeInternal]
    simp only [h, trim_of_trimmed ht]

theorem internal_null {t : Text} (h : Trimmed t) (h123 : t.head? ≠ some 123) (h91 : t.head? ≠ some 91)
    (fuel : Nat) (stack : DepthStack) :
    deserializeInternal libc (fuel + 1) t stack = .ok (.null, stack) := by
  rw [deserializeInternal]
  simp only [trim_of_trimmed h, h123, h91, if_false]

theorem deserialize_of_trim {str t : Text} {v : Option Value} (h : Denotes libc t v)
    (htrim : trim str = t) : deserialize libc str = .ok (document v) := by
  have hlen : t.length ≤ str.length := htrim ▸ length_trim_le str
  obtain ⟨stack, hstack⟩ : ∃ stack, deserializeInternal libc (4 * str.length + 4) t [] =
      .ok (document v, stack) := by
    clear htrim
    generalize str.length = n at hlen
    cases h with
    | @scalar t v h =>
      obtain ⟨c, cs, hc⟩ := List.exists_cons_of_ne_nil h.reads.ne_nil
      obtain ⟨-, -, h91, h123, -⟩ := passive_iff.mp
        (literalChar_spec (h.reads.chars c (hc ▸ List.mem_cons_self))).1
      rw [document_scalar h]
      refine ⟨[], internal_null h.reads.solid.trimmed ?_ ?_ _ _⟩
      · simpa [hc] using h123
      · simpa [hc] using h91
    | @text s r h =>
      have hsolid := solid_between (a := 34) (b := 34) (by decide) (by decide) s
      exact ⟨[], internal_null hsolid.trimmed (by simp) (by simp) _ _⟩
    | @array t vs h =>
      simp only [List.length_append, List.length_cons, List.length_nil] at hlen
      obtain ⟨stack1, hs1, h1⟩ := (finds (4 * n + 2)).elements [] [.inArray] h (by omega)
      obtain ⟨stack2, -, h2⟩ := internal_array hs1 h1
      refine ⟨stack2, h2.trans ?_⟩
      cases vs <;> rfl
    | empty =>
      have h1 : deserializeMembers libc (4 * n + 2) [] [] [.inObject] =
          .ok (.object [], [.inObject]) := by
        rw [deserializeMembers, if_pos rfl]
      obtain ⟨stack2, -, h2⟩ := internal_object (Nat.le_refl _) h1
      exact ⟨stack2, h2⟩
    | @object t fields h =>
      simp only [List.length_append, List.length_cons, List.length_nil] at hlen
      obtain ⟨stack1, hs1, h1⟩ := @Finds.members libc (4 * n + 2) (finds _) [] _ _ [] [.inObject] h
        (fun _ hc => absurd hc List.not_mem_nil) (by
          rw [List.nil_append]
          omega)
      obtain ⟨stack2, -, h2⟩ := internal_object hs1 h1
      refine ⟨stack2, h2.trans ?_⟩
      cases fields <;> rfl
  rw [deserialize, internal_trim htrim h.solid.trimmed, hstack]
  rfl

theorem Denotes.trim_blank {t a b : Text} {v : Option Value} (h : Denotes libc t v) (ha : Blank a)
    (hb : Blank b) : trim (a ++ t ++ b) = t := by
  rw [h.trim_around ha, hb.trimRight_eq, List.append_nil]

end Texts

end Json

end RecsDaemon
