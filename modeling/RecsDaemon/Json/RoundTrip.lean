import RecsDaemon.Json.Grammar

/-!
# What comes back

`received` is what `Deserialize` makes of the text `Serialize` writes
(`deserialize_serialize`): strings lose the space at their ends, an array its
nulls, and an array with a string in which a comma or a bracket `]` comes
before any opening bracket is lost as a whole.
-/

namespace RecsDaemon

open Base

namespace Json

/-! ## Plain values -/

/-- No quote and no backslash: `Serialize` does not escape them. -/
def Bare (s : Text) : Prop := ∀ c ∈ s, c ≠ 34 ∧ c ≠ 92

instance : DecidablePred Bare := fun s => inferInstanceAs (Decidable (∀ c ∈ s, c ≠ 34 ∧ c ≠ 92))

/-- The number is printed with digits on the left of a point and digits behind it, as `%f` prints a
finite one, and can be read. -/
structure Printed (libc : Libc) (d : Double) : Prop where
  shape : ∃ sign a b, libc.printDouble d = sign ++ a ++ 46 :: b ∧ (sign = [] ∨ sign = [45]) ∧
    a ≠ [] ∧ (∀ c ∈ a, isDigit c = true) ∧ ∀ c ∈ b, isDigit c = true
  read : (libc.strtod (libc.printDouble d)).isSome

mutual

/-- Strings and keys are bare, numbers are printed, and the members of an object are in the order of
their keys, as in a `std::map`. -/
def Plain (libc : Libc) : Value → Prop
  | .text s => Bare s
  | .double d => Printed libc d
  | .object fields =>
    MembersPlain libc fields ∧ (fields.map Prod.fst).Pairwise fun k l => compare k l = .lt
  | .array elems => ElementsPlain libc elems
  | .null | .int _ | .bool _ => True

def ElementsPlain (libc : Libc) : List Value → Prop
  | [] => True
  | v :: vs => Plain libc v ∧ ElementsPlain libc vs

def MembersPlain (libc : Libc) : List (Text × Value) → Prop
  | [] => True
  | (key, v) :: fields => Bare key ∧ Plain libc v ∧ MembersPlain libc fields

end

/-- A string whose text ends at a comma or at a `]` of its own when it is an element. -/
def cutShort : Value → Bool
  | .text s =>
    let stop := (s.dropWhile (!endsElement ·)).head?
    stop = some 44 || stop = some 93
  | _ => false

mutual

/-- What comes back of a value. -/
def received (libc : Libc) : Value → Value
  | .text s => .text (trim s)
  | .double d => .double ((libc.strtod (libc.printDouble d)).getD d)
  | .object fields =>
    if fields.any (·.1 = []) then .null else .object (receivedMembers libc fields)
  | .array elems => if elems.any cutShort then .null else .array (receivedElements libc elems)
  | .null => .null
  | .int v => .int v
  | .bool b => .bool b

/-- The elements that are not null. -/
def receivedElements (libc : Libc) : List Value → List Value
  | [] => []
  | v :: vs => push [] (received libc v) ++ receivedElements libc vs

def receivedMembers (libc : Libc) : List (Text × Value) → List (Text × Value)
  | [] => []
  | (key, v) :: fields => (key, received libc v) :: receivedMembers libc fields

end

/-! ## Written values -/

theorem Bare.chars {s : Text} (h : Bare s) : Chars s s := by
  induction s with
  | nil => exact .nil
  | cons c s ih =>
    obtain ⟨h34, h92⟩ := h c List.mem_cons_self
    exact .plain h34 h92 (ih fun d hd => h d (List.mem_cons_of_mem c hd))

/-- **An integer is read back** where a `long` is not shorter than an `int`. -/
theorem integerRead_toInt {libc : Libc} (hl : 32 ≤ libc.longBits) (v : Int32) :
    integerRead libc v.toInt = some (.int v) := by
  rw [integerRead_int hl v.le_toInt v.toInt_lt, Int32.ofInt_toInt]

/-- **A printed number is what the C library reads.** -/
theorem scalar_double {libc : Libc} {d : Double} (h : Printed libc d) :
    Scalar libc (libc.printDouble d)
      (some (.double ((libc.strtod (libc.printDouble d)).getD d))) := by
  obtain ⟨⟨sign, a, b, heq, hsign, ha0, ha, hb⟩, hread⟩ := h
  have hreal : Real (sign ++ a) (46 :: b) [] := by
    obtain ⟨c, cs, hc⟩ := List.exists_cons_of_ne_nil ha0
    have hmem : c ∈ a := hc ▸ List.mem_cons_self
    refine ⟨⟨c, List.mem_append_right sign hmem, ha c hmem⟩, fun c hc => ?_,
      .inr ⟨b, rfl, fun c hc => numberChar_digit (hb c hc)⟩, .inl rfl, .inl (List.cons_ne_nil _ _)⟩
    rcases List.mem_append.mp hc with hc | hc
    · rcases hsign with rfl | rfl
      · cases hc
      · rw [List.mem_singleton.mp hc]
        rfl
    · exact numberChar_digit (ha c hc)
  have h := @Scalar.real libc _ _ _ hreal
  rw [List.append_nil, ← heq] at h
  obtain ⟨d', hd'⟩ := Option.isSome_iff_exists.mp hread
  rw [hd'] at h ⊢
  exact h

theorem whole_scalar {libc : Libc} {t : Text} {v : Option Value} (h : Scalar libc t v) :
    whole t = true := by
  have hno : t.dropWhile (!endsElement ·) = [] := List.dropWhile_eq_nil_iff.mpr fun c hc => by
    rw [(literalChar_spec (h.reads.chars c hc)).2.2.1, Bool.not_false]
  rw [whole, hno]
  rfl

/-- An element is cut if its text is. -/
theorem whole_serializeValue {libc : Libc} {v : Value} (hv : Plain libc v) :
    whole (serializeValue libc v) = !cutShort v := by
  cases v with
  | text s =>
    rw [serializeValue, whole, stop_quoted, cutShort]
    simp
  | double d =>
    rw [Plain] at hv
    rw [serializeValue, whole_scalar (scalar_double hv)]
    rfl
  | int n =>
    rw [serializeValue, whole_scalar (@Scalar.int libc n.toInt)]
    rfl
  | bool b =>
    rw [serializeValue, whole_scalar (@Scalar.bool libc b)]
    rfl
  | null =>
    rw [serializeValue, whole_scalar (@Scalar.null libc)]
    rfl
  | object fields =>
    rw [serializeValue]
    rfl
  | array elems =>
    rw [serializeValue]
    rfl

theorem element_received {libc : Libc} {v : Value} (hv : Plain libc v) :
    element (serializeValue libc v) (some (received libc v)) =
      if cutShort v then none else some (push [] (received libc v)) := by
  have hwhole := whole_serializeValue hv
  cases hcut : cutShort v with
  | true =>
    rw [hcut] at hwhole
    rw [element_cut hwhole, if_pos rfl]
  | false =>
    rw [hcut] at hwhole
    rw [element_whole hwhole, if_neg Bool.false_ne_true]
    rfl

theorem insert_last {key : Text} {obj : List (Text × Value)}
    (h : ∀ p ∈ obj, compare p.1 key = .lt) (v : Value) : insert key v obj = obj ++ [(key, v)] := by
  induction obj with
  | nil => rfl
  | cons p obj ih =>
    obtain ⟨k, w⟩ := p
    have hgt : compare key k = .gt := Std.OrientedCmp.gt_of_lt (h (k, w) List.mem_cons_self)
    rw [insert, hgt]
    dsimp only
    rw [ih fun q hq => h q (List.mem_cons_of_mem _ hq)]
    rfl


theorem objectOf_ordered {obj fields : List (Text × Value)}
    (ho : (fields.map Prod.fst).Pairwise fun k l => compare k l = .lt)
    (hobj : ∀ p ∈ obj, ∀ q ∈ fields, compare p.1 q.1 = .lt) :
    objectOf obj fields = .object (obj ++ fields) := by
  unfold objectOf
  congr 1
  induction fields generalizing obj with
  | nil => rw [List.foldl_nil, List.append_nil]
  | cons p fields ih =>
    rw [List.map_cons, List.pairwise_cons] at ho
    have hlast := insert_last (fun q hq => hobj q hq p List.mem_cons_self) p.2
    rw [List.foldl_cons, hlast, ih ho.2, List.append_assoc, List.singleton_append]
    intro q hq r hr
    rcases List.mem_append.mp hq with hq | hq
    · exact hobj q hq r (List.mem_cons_of_mem p hr)
    · rw [List.mem_singleton.mp hq]
      exact ho.1 r.1 (List.mem_map_of_mem hr)

theorem keys_received (libc : Libc) (fields : List (Text × Value)) :
    (receivedMembers libc fields).map Prod.fst = fields.map Prod.fst := by
  induction fields with
  | nil => rw [receivedMembers]
  | cons p fields ih => rw [receivedMembers, List.map_cons, List.map_cons, ih]

theorem member_some (key : Text) (v : Value) :
    member key (some v) = if key = [] then none else some (key, v) := by
  unfold member
  by_cases h : key = [] <;> simp [h]

theorem serializeElements_comma (libc : Libc) (v : Value) (vs : List Value) :
    serializeElements libc false (v :: vs) = 44 :: serializeElements libc true (v :: vs) := by
  rw [serializeElements, serializeElements, if_neg Bool.false_ne_true, if_pos rfl]
  rfl

theorem serializeMembers_comma (libc : Libc) (p : Text × Value) (fields : List (Text × Value)) :
    serializeMembers libc false (p :: fields) = 44 :: serializeMembers libc true (p :: fields) := by
  rw [serializeMembers, serializeMembers, if_neg Bool.false_ne_true, if_pos rfl]
  rfl

/-! ## The round trip -/

mutual

/-- The text of a value stands for what comes back of it. -/
theorem denotes_received {libc : Libc} (hl : 32 ≤ libc.longBits) (v : Value) (hv : Plain libc v) :
    Denotes libc (serializeValue libc v) (some (received libc v)) := by
  cases v with
  | text s =>
    rw [Plain] at hv
    rw [serializeValue, received]
    exact .text hv.chars
  | double d =>
    rw [Plain] at hv
    rw [serializeValue, received]
    exact .scalar (scalar_double hv)
  | int n =>
    rw [serializeValue, received, ← integerRead_toInt hl]
    exact .scalar (.int n.toInt)
  | bool b =>
    rw [serializeValue, received]
    exact .scalar (.bool b)
  | null =>
    rw [serializeValue, received]
    exact .scalar .null
  | object fields =>
    rw [Plain] at hv
    rw [serializeValue, received]
    by_cases h0 : fields = []
    · subst h0
      rw [serializeMembers, receivedMembers]
      exact .empty
    · have h := Denotes.object (members_received hl fields h0 hv.1)
      split at h
      · next hempty =>
        rw [if_pos hempty]
        exact h
      · next hempty =>
        have ho : ((receivedMembers libc fields).map Prod.fst).Pairwise
            fun k l => compare k l = .lt := by
          rw [keys_received]
          exact hv.2
        rw [Option.elim_some, @objectOf_ordered [] _ ho nofun, List.nil_append] at h
        rw [if_neg hempty]
        exact h
  | array elems =>
    rw [Plain] at hv
    have h := Denotes.array (elements_received hl elems hv)
    rw [serializeValue, received]
    split at h
    · next hcut =>
      rw [if_pos hcut]
      exact h
    · next hcut =>
      rw [if_neg hcut]
      exact h
termination_by sizeOf v

theorem elements_received {libc : Libc} (hl : 32 ≤ libc.longBits) (vs : List Value)
    (hv : ElementsPlain libc vs) : Elements libc (serializeElements libc true vs)
      (if vs.any cutShort then none else some (receivedElements libc vs)) := by
  match vs, hv with
  | [], _ =>
    rw [serializeElements, receivedElements]
    exact .nil blank_nil
  | [v], hv =>
    rw [ElementsPlain] at hv
    have h := Elements.last blank_nil (denotes_received hl v hv.1) blank_nil
    rw [element_received hv.1] at h
    simpa [serializeElements, receivedElements] using h
  | v :: w :: vs, hv =>
    rw [ElementsPlain] at hv
    have h := Elements.cons blank_nil (denotes_received hl v hv.1) blank_nil
      (elements_received hl (w :: vs) hv.2)
    have hany : (v :: w :: vs).any cutShort = (cutShort v || (w :: vs).any cutShort) := rfl
    have hreceived : receivedElements libc (v :: w :: vs) =
        push [] (received libc v) ++ receivedElements libc (w :: vs) := by rw [receivedElements]
    have hvalue : ((if cutShort v then none else some (push [] (received libc v))).bind fun v =>
        (if (w :: vs).any cutShort then none else some (receivedElements libc (w :: vs))).map
          (v ++ ·)) =
        if (v :: w :: vs).any cutShort then none else some (receivedElements libc (v :: w :: vs)) := by
      rw [hany, hreceived]
      cases cutShort v <;> cases (w :: vs).any cutShort <;> rfl
    rw [element_received hv.1, hvalue] at h
    rw [serializeElements, if_pos rfl, serializeElements_comma]
    exact h
termination_by sizeOf vs

theorem members_received {libc : Libc} (hl : 32 ≤ libc.longBits) (fields : List (Text × Value))
    (h0 : fields ≠ []) (hv : MembersPlain libc fields) :
    Members libc (serializeMembers libc true fields)
      (if fields.any (·.1 = []) then none else some (receivedMembers libc fields)) := by
  match fields, h0, hv with
  | [], h0, _ => exact absurd rfl h0
  | [(key, v)], _, hv =>
    rw [MembersPlain] at hv
    have h := Members.last blank_nil hv.1.chars.quoted blank_nil blank_nil
      (denotes_received hl v hv.2.1) blank_nil
    have hvalue : (member key (some (received libc v))).map (fun p => [p]) =
        if [(key, v)].any (·.1 = []) then none else some (receivedMembers libc [(key, v)]) := by
      rw [member_some, receivedMembers, receivedMembers]
      by_cases hkey : key = [] <;> simp [hkey]
    rw [hvalue] at h
    simpa [serializeMembers] using h
  | (key, v) :: q :: fields, _, hv =>
    rw [MembersPlain] at hv
    have h := Members.cons blank_nil hv.1.chars.quoted blank_nil blank_nil
      (denotes_received hl v hv.2.1) blank_nil
      (members_received hl (q :: fields) (List.cons_ne_nil _ _) hv.2.2)
    have hany : ((key, v) :: q :: fields).any (·.1 = []) =
        (decide (key = []) || (q :: fields).any (·.1 = [])) := rfl
    have hreceived : receivedMembers libc ((key, v) :: q :: fields) =
        (key, received libc v) :: receivedMembers libc (q :: fields) := by rw [receivedMembers]
    have hvalue : ((member key (some (received libc v))).bind fun p =>
        (if (q :: fields).any (·.1 = []) then none
          else some (receivedMembers libc (q :: fields))).map (p :: ·)) =
        if ((key, v) :: q :: fields).any (·.1 = []) then none
          else some (receivedMembers libc ((key, v) :: q :: fields)) := by
      rw [member_some, hany, hreceived]
      by_cases hkey : key = []
      · rw [if_pos hkey, decide_eq_true hkey]
        rfl
      · rw [if_neg hkey, decide_eq_false hkey]
        cases (q :: fields).any (·.1 = []) <;> rfl
    rw [hvalue] at h
    have htext : serializeMembers libc true ((key, v) :: q :: fields) =
        34 :: (key ++ 34 :: 58 :: (serializeValue libc v ++ 44 ::
          serializeMembers libc true (q :: fields))) := by
      rw [serializeMembers, serializeMembers_comma]
      simp
    rw [htext]
    exact h
termination_by sizeOf fields

end

/-- **What `Serialize` writes, `Deserialize` reads as `received`.** -/
theorem deserialize_serialize {libc : Libc} (hl : 32 ≤ libc.longBits) {v : Value}
    (hv : Plain libc v) : deserialize libc (serialize libc v) =
      .ok (if v.getType = .object ∨ v.getType = .array then received libc v else .null) := by
  have hd := denotes_received hl v hv
  have h := deserialize_of_trim hd (trim_of_trimmed hd.solid.trimmed)
  unfold serialize
  cases v with
  | object fields =>
    dsimp only
    rw [h, received]
    split <;> rfl
  | array elems =>
    dsimp only
    rw [h, received]
    split <;> rfl
  | _ => rfl

/-- A `null` is lost, and the space in front of a string. -/
theorem deserialize_serialize_sample :
    deserialize .integers (serialize .integers (.array [.int 7, .null, .text (ascii " a")])) =
      .ok (received .integers (.array [.int 7, .null, .text (ascii " a")])) :=
  @deserialize_serialize .integers (by decide) _ (by simp [Plain, ElementsPlain, Bare, ascii])

end Json

end RecsDaemon
