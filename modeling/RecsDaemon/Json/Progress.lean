import RecsDaemon.Json.Deserialize
import RecsDaemon.Base.Except

/-!
# Any text

What the library does whatever the text is. The loops get on with every value
they read, so the fuel lasts (`deserialize_ne_fuel`); and every key of a value,
however deep, is cut out of the text (`key_piece`).
-/

namespace RecsDaemon

open Base

namespace Json

/-! ## What is left of the text -/

theorem substr_eq_ok {str rest : Text} {pos : Nat} (h : substr str pos = .ok rest) :
    rest = str.drop pos := by
  unfold substr at h
  split at h
  · exact (Except.ok.inj h).symm
  · cases h

theorem scan_suffix {s rest : Text} {l l' : Literal} {stack stack' : DepthStack}
    (h : Literal.scan s l stack = (some (l', rest), stack')) :
    rest <:+ s ∧ (s ≠ [] → s.head? ≠ some 44 → rest.length < s.length) := by
  induction s generalizing l stack with
  | nil =>
    obtain ⟨⟨-, rfl⟩, -⟩ : (l = l' ∧ [] = rest) ∧ _ := by simpa [Literal.scan] using h
    exact ⟨List.suffix_refl _, fun h0 => absurd rfl h0⟩
  | cons c cs ih =>
    have hgo {l : Literal} {stack : DepthStack}
        (h : Literal.scan cs l stack = (some (l', rest), stack')) :
        rest <:+ c :: cs ∧ (c :: cs ≠ [] → (c :: cs).head? ≠ some 44 →
          rest.length < (c :: cs).length) := by
      have hs := (ih h).1
      exact ⟨hs.trans (List.suffix_cons c cs), fun _ _ => Nat.lt_succ_of_le hs.length_le⟩
    rw [Literal.scan] at h
    split at h
    · split at h
      · exact hgo h
      · cases h
    split at h
    · split at h
      · exact hgo h
      split at h
      · exact hgo h
      · cases h
    split at h
    · split at h
      · exact hgo h
      · cases h
    split at h
    · split at h
      · exact hgo h
      · cases h
    split at h
    · next hc =>
      obtain ⟨⟨-, rfl⟩, -⟩ : (l = l' ∧ c :: cs = rest) ∧ _ := by simpa using h
      exact ⟨List.suffix_refl _, fun _ h44 => absurd (congrArg some hc) h44⟩
    split at h
    · cases h
    · exact hgo h

/-- A value is read from the front of its text, and some of it if no comma stands there. -/
theorem value_rest {libc : Libc} {fuel : Nat} {str rest : Text} {v : Value}
    {stack stack' : DepthStack}
    (h : deserializeValue libc fuel str stack = .ok (some (v, rest), stack')) :
    rest <:+ trim str ∧ (trim str ≠ [] → (trim str).head? ≠ some 44 →
      rest.length < (trim str).length) := by
  have hdrop (i : Nat) (h : substr (trim str) (i + 1) = .ok rest) : rest <:+ trim str ∧
      (trim str ≠ [] → (trim str).head? ≠ some 44 → rest.length < (trim str).length) := by
    rw [substr_eq_ok h]
    refine ⟨List.drop_suffix _ _, fun h0 _ => ?_⟩
    have hpos := List.length_pos_of_ne_nil h0
    rw [List.length_drop]
    omega
  cases fuel with
  | zero => cases h
  | succ fuel =>
    rw [deserializeValue] at h
    dsimp only at h
    split at h
    · next h0 =>
      cases h
      exact ⟨List.nil_suffix, fun h1 => absurd h0 h1⟩
    split at h
    · split at h
      · cases h
      · obtain ⟨⟨w, st⟩, -, h⟩ := bind_eq_ok.mp h
        obtain ⟨rest', hr, h⟩ := bind_eq_ok.mp h
        cases h
        exact hdrop _ hr
    split at h
    · split at h
      · cases h
      · obtain ⟨⟨w, st⟩, -, h⟩ := bind_eq_ok.mp h
        obtain ⟨rest', hr, h⟩ := bind_eq_ok.mp h
        cases h
        exact hdrop _ hr
    split at h
    · split at h
      · cases h
      · obtain ⟨s, -, h⟩ := bind_eq_ok.mp h
        obtain ⟨rest', hr, h⟩ := bind_eq_ok.mp h
        cases h
        exact hdrop _ hr
    · split at h
      · cases h
      · next l rest' stack'' hs =>
        obtain ⟨hv, -⟩ : (l.value libc).map (·, rest') = some (v, rest) ∧ _ := by simpa using h
        obtain ⟨w, -, hw⟩ := Option.map_eq_some_iff.mp hv
        cases hw
        exact scan_suffix hs

/-- Behind its space, the text in front of a bracket begins with no comma. -/
theorem trim_open {str : Text} {c : UInt8} (h : (str.dropWhile (!endsElement ·)).head? = some c)
    (hc : c = 123 ∨ c = 91) : trim str ≠ [] ∧ (trim str).head? ≠ some 44 := by
  obtain ⟨cs, hcs⟩ := List.head?_eq_some_iff.mp h
  have hspace : isSpace c = false := by rcases hc with rfl | rfl <;> decide
  obtain ⟨s', -, hs⟩ := trim_append_cons hspace (str.takeWhile (!endsElement ·)) cs
  rw [← hcs, List.takeWhile_append_dropWhile] at hs
  rw [hs]
  refine ⟨by simp, fun h44 => ?_⟩
  cases hd : (str.takeWhile (!endsElement ·)).dropWhile isSpace with
  | nil =>
    rw [hd, List.nil_append, List.head?_cons, Option.some.injEq] at h44
    rcases hc with rfl | rfl <;> cases h44
  | cons d ds =>
    rw [hd, List.cons_append, List.head?_cons, Option.some.injEq] at h44
    have hmem : d ∈ str.takeWhile (!endsElement ·) :=
      (List.dropWhile_suffix isSpace).subset (hd ▸ List.mem_cons_self)
    have hno := List.mem_takeWhile_imp hmem
    rw [h44] at hno
    exact absurd hno (by decide)

/-! ## The fuel lasts -/

theorem bind_ne_fuel {α β : Type} {x : Except Failure α} {f : α → Except Failure β}
    (hx : x ≠ .error .fuel) (hf : ∀ a, x = .ok a → f a ≠ .error .fuel) :
    (x >>= f) ≠ .error .fuel := by
  cases x with
  | error e => exact fun h => hx (by cases h; rfl)
  | ok a => exact hf a rfl

theorem substr_ne_fuel (str : Text) (pos : Nat) : substr str pos ≠ .error .fuel := by
  unfold substr
  split <;> nofun

theorem map_ne_fuel {α β : Type} {x : Except Failure α} {f : α → β} (hx : x ≠ .error .fuel) :
    x.map f ≠ .error .fuel := by
  cases x with
  | error e => exact fun h => hx (by cases h; rfl)
  | ok a => nofun

theorem unescape_ne_fuel (skip : Nat) (str : Text) : unescapeFrom skip str ≠ .error .fuel := by
  induction str generalizing skip with
  | nil => cases skip <;> nofun
  | cons c cs ih =>
    cases skip with
    | succ skip => exact ih skip
    | zero =>
      rw [unescapeFrom]
      split
      · split
        · split
          · nofun
          · exact map_ne_fuel (ih _)
        · exact map_ne_fuel (ih _)
      · exact map_ne_fuel (ih _)

theorem leave_ne_fuel (t : StackDepthType) (v : Value) (stack : DepthStack) :
    leave t v stack ≠ .error .fuel := by
  unfold leave
  split
  · nofun
  · split <;> nofun

theorem keyOf_length {str key rest : Text} (h : keyOf str = some (key, rest)) (h0 : str ≠ []) :
    rest.length < str.length := by
  obtain ⟨i, -, h⟩ := Option.bind_eq_some_iff.mp h
  obtain ⟨j, -, h⟩ := Option.bind_eq_some_iff.mp h
  obtain ⟨k, -, h⟩ := Option.bind_eq_some_iff.mp h
  cases h
  have hpos := List.length_pos_of_ne_nil h0
  rw [List.length_drop]
  omega

theorem two_le_length {s : Text} {a b : UInt8} (ha : s.head? = some a) (hb : s.getLast? = some b)
    (hab : a ≠ b) : 2 ≤ s.length := by
  match s with
  | [] => cases ha
  | [c] => exact absurd ((Option.some.inj ha).symm.trans (Option.some.inj hb)) hab
  | _ :: _ :: _ => simp

theorem length_inner (str : Text) : (inner str).length ≤ str.length - 2 := by
  rw [inner, List.length_take]
  omega

/-- So much fuel is enough for a text. -/
structure Enough (libc : Libc) (fuel : Nat) : Prop where
  internal : ∀ str stack, 4 * str.length + 2 ≤ fuel →
    deserializeInternal libc fuel str stack ≠ .error .fuel
  value : ∀ str stack, 4 * str.length + 3 ≤ fuel →
    deserializeValue libc fuel str stack ≠ .error .fuel
  array : ∀ str stack, 4 * str.length + 1 ≤ fuel →
    deserializeArray libc fuel str stack ≠ .error .fuel
  elements : ∀ str a stack, 4 * str.length + 4 ≤ fuel →
    deserializeElements libc fuel str a stack ≠ .error .fuel
  obj : ∀ str stack, 2 ≤ str.length → 4 * str.length + 1 ≤ fuel →
    deserializeObj libc fuel str stack ≠ .error .fuel
  members : ∀ str obj stack, 4 * str.length + 4 ≤ fuel →
    deserializeMembers libc fuel str obj stack ≠ .error .fuel

section Enough

variable {libc : Libc} {fuel : Nat} {str : Text} {stack : DepthStack}

theorem enough_internal (ih : Enough libc fuel) (h : 4 * str.length + 2 ≤ fuel + 1) :
    deserializeInternal libc (fuel + 1) str stack ≠ .error .fuel := by
  have hlen := length_trim_le str
  rw [deserializeInternal]
  dsimp only
  split
  · next hhead =>
    split
    · nofun
    · next hlast =>
      have h2 := two_le_length hhead (not_not.mp hlast) (by decide)
      exact bind_ne_fuel (ih.obj _ _ h2 (by omega)) fun _ _ => leave_ne_fuel _ _ _
  split
  · split
    · nofun
    · exact bind_ne_fuel (ih.array _ _ (by omega)) fun _ _ => leave_ne_fuel _ _ _
  · nofun

theorem enough_value (ih : Enough libc fuel) (h : 4 * str.length + 3 ≤ fuel + 1) :
    deserializeValue libc (fuel + 1) str stack ≠ .error .fuel := by
  have hlen := length_trim_le str
  have htake (i : Nat) : ((trim str).take i).length ≤ str.length :=
    (List.length_take_le' i _).trans hlen
  rw [deserializeValue]
  dsimp only
  split
  · nofun
  split
  · split
    · nofun
    · next i _ _ =>
      have hi := htake (i + 1)
      exact bind_ne_fuel (ih.array _ _ (by omega)) fun _ _ =>
        bind_ne_fuel (substr_ne_fuel _ _) fun _ _ => nofun
  split
  · split
    · nofun
    · next i _ _ =>
      have hi := htake (i + 1)
      exact bind_ne_fuel (ih.internal _ _ (by omega)) fun _ _ =>
        bind_ne_fuel (substr_ne_fuel _ _) fun _ _ => nofun
  split
  · split
    · nofun
    · exact bind_ne_fuel (map_ne_fuel (unescape_ne_fuel _ _)) fun _ _ =>
        bind_ne_fuel (substr_ne_fuel _ _) fun _ _ => nofun
  · split <;> nofun

theorem enough_array (ih : Enough libc fuel) (h : 4 * str.length + 1 ≤ fuel + 1) :
    deserializeArray libc (fuel + 1) str stack ≠ .error .fuel := by
  have hlen := length_trim_le str
  have hin := length_inner (trim str)
  rw [deserializeArray]
  split
  · next hb =>
    have h2 := two_le_length hb.1 hb.2 (by decide)
    exact ih.elements _ _ _ (by omega)
  · nofun

theorem enough_elements (ih : Enough libc fuel) {a : List Value}
    (h : 4 * str.length + 4 ≤ fuel + 1) :
    deserializeElements libc (fuel + 1) str a stack ≠ .error .fuel := by
  have hlen := length_trim_le str
  rw [deserializeElements]
  dsimp only
  split
  · nofun
  next h0 =>
  have hpos := List.length_pos_of_ne_nil h0
  split
  · next hopen =>
    refine bind_ne_fuel (ih.value _ _ (by omega)) fun r hr => ?_
    match r with
    | (none, _) => nofun
    | (some (v, rest), _) =>
      obtain ⟨c, hhead, hc⟩ : ∃ c, (str.dropWhile (!endsElement ·)).head? = some c ∧
          (c = 123 ∨ c = 91) := by
        rcases hopen with h | h
        · exact ⟨_, h, .inl rfl⟩
        · exact ⟨_, h, .inr rfl⟩
      obtain ⟨hne, h44⟩ := trim_open hhead hc
      have hlt := (value_rest hr).2 hne h44
      exact ih.elements _ _ _ (by omega)
  · have htake := (List.takeWhile_prefix (!endsElement ·) (l := str)).length_le
    have hdrop := (List.dropWhile_suffix (!endsElement ·) (l := str)).length_le
    refine bind_ne_fuel (ih.value _ _ (by omega)) fun r _ => ?_
    match r with
    | (none, _) => nofun
    | (some _, _) =>
      refine ih.elements _ _ _ ?_
      rw [List.length_drop]
      omega

theorem enough_obj (ih : Enough libc fuel) (h2 : 2 ≤ str.length)
    (h : 4 * str.length + 1 ≤ fuel + 1) :
    deserializeObj libc (fuel + 1) str stack ≠ .error .fuel := by
  have hlen := length_trim_le str
  have hin := length_inner (trim str)
  rw [deserializeObj]
  split
  · nofun
  · exact ih.members _ _ _ (by omega)

theorem enough_members (ih : Enough libc fuel) {obj : List (Text × Value)}
    (h : 4 * str.length + 4 ≤ fuel + 1) :
    deserializeMembers libc (fuel + 1) str obj stack ≠ .error .fuel := by
  rw [deserializeMembers]
  split
  · nofun
  next h0 =>
  split
  · nofun
  next key rest hkey =>
  have hlt := keyOf_length hkey h0
  split
  · nofun
  refine bind_ne_fuel (ih.value _ _ (by omega)) fun r hr => ?_
  match r with
  | (none, _) => nofun
  | (some (v, rest'), _) =>
    have hle := (value_rest hr).1.length_le
    have htrim := length_trim_le rest
    exact ih.members _ _ _ (by omega)

end Enough

theorem enough (libc : Libc) (fuel : Nat) : Enough libc fuel := by
  induction fuel with
  | zero => constructor <;> intros <;> omega
  | succ fuel ih =>
    exact ⟨fun _ _ h => enough_internal ih h, fun _ _ h => enough_value ih h,
      fun _ _ h => enough_array ih h, fun _ _ _ h => enough_elements ih h,
      fun _ _ h2 h => enough_obj ih h2 h, fun _ _ _ h => enough_members ih h⟩

/-- **`json::Deserialize` ends on every text.** -/
theorem deserialize_ne_fuel (libc : Libc) (str : Text) : deserialize libc str ≠ .error .fuel :=
  map_ne_fuel ((enough libc _).internal str [] (by omega))

/-! ## Keys -/

/-- `key` is a key of an object somewhere in the value. -/
inductive KeyIn (key : Text) : Value → Prop where
  | key {fields : List (Text × Value)} {v : Value} : (key, v) ∈ fields → KeyIn key (.object fields)
  | member {fields : List (Text × Value)} {p : Text × Value} : p ∈ fields → KeyIn key p.2 →
      KeyIn key (.object fields)
  | elem {elems : List Value} {v : Value} : v ∈ elems → KeyIn key v → KeyIn key (.array elems)

/-- All keys of the value are pieces of the text. -/
def KeysCut (str : Text) (v : Value) : Prop := ∀ key, KeyIn key v → key <:+: str

theorem KeysCut.mono {s t : Text} {v : Value} (h : KeysCut s v) (hst : s <:+: t) : KeysCut t v :=
  fun key hk => (h key hk).trans hst

theorem keysCut_leaf {str : Text} {v : Value} (ho : v.getType ≠ .object) (ha : v.getType ≠ .array) :
    KeysCut str v := by
  intro key hk
  cases hk with
  | key => exact absurd rfl ho
  | member => exact absurd rfl ho
  | elem => exact absurd rfl ha

theorem keysCut_null (str : Text) : KeysCut str .null := keysCut_leaf nofun nofun

theorem keysCut_text (str s : Text) : KeysCut str (.text s) := keysCut_leaf nofun nofun

theorem keysCut_array {str : Text} {elems : List Value} (h : ∀ v ∈ elems, KeysCut str v) :
    KeysCut str (.array elems) := by
  intro key hk
  cases hk with
  | elem hv hk => exact h _ hv key hk

theorem keysCut_object {str : Text} {fields : List (Text × Value)}
    (h : ∀ p ∈ fields, p.1 <:+: str ∧ KeysCut str p.2) : KeysCut str (.object fields) := by
  intro key hk
  cases hk with
  | key hp => exact (h _ hp).1
  | member hp hk => exact (h _ hp).2 key hk

theorem mem_push {elems : List Value} {v w : Value} (h : w ∈ push elems v) : w ∈ elems ∨ w = v := by
  unfold push at h
  split at h
  · exact .inl h
  · exact (List.mem_append.mp h).imp id List.mem_singleton.mp

/-- A member of the map has its value before or is the one that is written. -/
theorem mem_insert {key : Text} {v : Value} {fields : List (Text × Value)} {p : Text × Value}
    (h : p ∈ insert key v fields) :
    p ∈ fields ∨ p.2 = v ∧ (p.1 = key ∨ ∃ w, (p.1, w) ∈ fields) := by
  induction fields with
  | nil =>
    cases List.mem_singleton.mp h
    exact .inr ⟨rfl, .inl rfl⟩
  | cons q fields ih =>
    obtain ⟨k, w⟩ := q
    rw [insert] at h
    split at h
    · rcases List.mem_cons.mp h with rfl | h
      · exact .inr ⟨rfl, .inl rfl⟩
      · exact .inl h
    · rcases List.mem_cons.mp h with rfl | h
      · exact .inr ⟨rfl, .inr ⟨w, List.mem_cons_self⟩⟩
      · exact .inl (List.mem_cons_of_mem _ h)
    · rcases List.mem_cons.mp h with rfl | h
      · exact .inl List.mem_cons_self
      · rcases ih h with h | ⟨hv, hk⟩
        · exact .inl (List.mem_cons_of_mem _ h)
        · exact .inr ⟨hv, hk.imp id fun ⟨u, hu⟩ => ⟨u, List.mem_cons_of_mem _ hu⟩⟩

theorem infix_drop_take (str : Text) (i n : Nat) : (str.drop i).take n <:+: str :=
  (List.take_prefix _ _).isInfix.trans (List.drop_suffix _ _).isInfix

theorem keyOf_cut {str key rest : Text} (h : keyOf str = some (key, rest)) :
    key <:+: str ∧ rest <:+: str := by
  obtain ⟨i, -, h⟩ := Option.bind_eq_some_iff.mp h
  obtain ⟨j, -, h⟩ := Option.bind_eq_some_iff.mp h
  obtain ⟨k, -, h⟩ := Option.bind_eq_some_iff.mp h
  cases h
  exact ⟨infix_drop_take _ _ _, (List.drop_suffix _ _).isInfix⟩

theorem literal_keysCut {libc : Libc} {l : Literal} {v : Value} (h : l.value libc = some v)
    (str : Text) : KeysCut str v := by
  have hdouble {s : Text} (h : (libc.strtod s).map Value.double = some v) : KeysCut str v := by
    obtain ⟨d, -, rfl⟩ := Option.map_eq_some_iff.mp h
    exact keysCut_leaf nofun nofun
  have hsome {w : Value} (h : some w = some v) (ho : w.getType ≠ .object)
      (ha : w.getType ≠ .array) : KeysCut str v := Option.some.inj h ▸ keysCut_leaf ho ha
  unfold Literal.value at h
  split at h
  · exact hsome h nofun nofun
  split at h
  · exact hsome h nofun nofun
  split at h
  · exact hdouble h
  split at h
  · exact hsome h nofun nofun
  unfold Literal.integer at h
  split at h
  · split at h
    · exact hsome h nofun nofun
    · cases h
  split at h
  · cases h
  split at h
  · exact hdouble h
  split at h
  · exact hsome h nofun nofun
  · cases h

theorem leave_value {t : StackDepthType} {v w : Value} {stack stack' : DepthStack}
    (h : leave t v stack = .ok (w, stack')) : w = v := by
  unfold leave at h
  split at h
  · cases h; rfl
  · split at h
    · cases h
    · cases h; rfl

/-- What the functions make with so much fuel has its keys from their texts. -/
structure Cuts (libc : Libc) (fuel : Nat) : Prop where
  internal : ∀ {str stack v stack'}, deserializeInternal libc fuel str stack = .ok (v, stack') →
    KeysCut str v
  value : ∀ {str stack v rest stack'},
    deserializeValue libc fuel str stack = .ok (some (v, rest), stack') → KeysCut str v
  array : ∀ {str stack v stack'}, deserializeArray libc fuel str stack = .ok (v, stack') →
    KeysCut str v
  elements : ∀ {all str a stack v stack'}, str <:+: all → (∀ w ∈ a, KeysCut all w) →
    deserializeElements libc fuel str a stack = .ok (v, stack') → KeysCut all v
  obj : ∀ {str stack v stack'}, deserializeObj libc fuel str stack = .ok (v, stack') →
    KeysCut str v
  members : ∀ {all str obj stack v stack'}, str <:+: all →
    (∀ p ∈ obj, p.1 <:+: all ∧ KeysCut all p.2) →
    deserializeMembers libc fuel str obj stack = .ok (v, stack') → KeysCut all v

section Cuts

variable {libc : Libc} {fuel : Nat} {str : Text} {stack stack' : DepthStack} {v : Value}

theorem cuts_internal (ih : Cuts libc fuel)
    (h : deserializeInternal libc (fuel + 1) str stack = .ok (v, stack')) : KeysCut str v := by
  rw [deserializeInternal] at h
  dsimp only at h
  split at h
  · split at h
    · cases h; exact keysCut_null _
    · obtain ⟨⟨w, st⟩, hw, h⟩ := bind_eq_ok.mp h
      rw [leave_value h]
      exact (ih.obj hw).mono (trim_isInfix _)
  split at h
  · split at h
    · cases h; exact keysCut_null _
    · obtain ⟨⟨w, st⟩, hw, h⟩ := bind_eq_ok.mp h
      rw [leave_value h]
      exact (ih.array hw).mono (trim_isInfix _)
  · cases h; exact keysCut_null _

theorem cuts_value (ih : Cuts libc fuel) {rest : Text}
    (h : deserializeValue libc (fuel + 1) str stack = .ok (some (v, rest), stack')) :
    KeysCut str v := by
  have htake (n : Nat) : (trim str).take n <:+: str :=
    (List.take_prefix _ _).isInfix.trans (trim_isInfix _)
  rw [deserializeValue] at h
  dsimp only at h
  split at h
  · cases h; exact keysCut_null _
  split at h
  · split at h
    · cases h
    · obtain ⟨⟨w, st⟩, hw, h⟩ := bind_eq_ok.mp h
      obtain ⟨rest', -, h⟩ := bind_eq_ok.mp h
      cases h
      exact (ih.array hw).mono (htake _)
  split at h
  · split at h
    · cases h
    · obtain ⟨⟨w, st⟩, hw, h⟩ := bind_eq_ok.mp h
      obtain ⟨rest', -, h⟩ := bind_eq_ok.mp h
      cases h
      exact (ih.internal hw).mono (htake _)
  split at h
  · split at h
    · cases h
    · obtain ⟨s, -, h⟩ := bind_eq_ok.mp h
      obtain ⟨rest', -, h⟩ := bind_eq_ok.mp h
      cases h
      exact keysCut_text _ _
  · split at h
    · cases h
    · next l rest' stack'' hs =>
      obtain ⟨hv, -⟩ : (l.value libc).map (·, rest') = some (v, rest) ∧ _ := by simpa using h
      obtain ⟨w, hw, he⟩ := Option.map_eq_some_iff.mp hv
      cases he
      exact literal_keysCut hw _

theorem cuts_array (ih : Cuts libc fuel)
    (h : deserializeArray libc (fuel + 1) str stack = .ok (v, stack')) : KeysCut str v := by
  rw [deserializeArray] at h
  split at h
  · exact ih.elements ((infix_drop_take _ _ _).trans (trim_isInfix _))
      (fun _ h => absurd h List.not_mem_nil) h
  · cases h; exact keysCut_null _

theorem cuts_elements (ih : Cuts libc fuel) {all : Text} {a : List Value} (hall : str <:+: all)
    (ha : ∀ w ∈ a, KeysCut all w)
    (h : deserializeElements libc (fuel + 1) str a stack = .ok (v, stack')) : KeysCut all v := by
  have hpush {w : Value} (hw : KeysCut all w) : ∀ u ∈ push a w, KeysCut all u := fun u hu =>
    (mem_push hu).elim (ha u) fun he => he ▸ hw
  rw [deserializeElements] at h
  dsimp only at h
  split at h
  · cases h; exact keysCut_array ha
  split at h
  · obtain ⟨r, hr, h⟩ := bind_eq_ok.mp h
    match r with
    | (none, _) => cases h; exact keysCut_null _
    | (some (w, rest), _) =>
      have hrest : rest <:+: str := (value_rest hr).1.isInfix.trans (trim_isInfix _)
      exact ih.elements (hrest.trans hall) (hpush ((ih.value hr).mono hall)) h
  · obtain ⟨r, hr, h⟩ := bind_eq_ok.mp h
    match r with
    | (none, _) => cases h; exact keysCut_null _
    | (some (w, _), _) =>
      have hfront := (List.takeWhile_prefix (!endsElement ·) (l := str)).isInfix
      have hrest : (str.dropWhile (!endsElement ·)).drop 1 <:+: str :=
        (List.drop_suffix _ _).isInfix.trans (List.dropWhile_suffix _).isInfix
      exact ih.elements (hrest.trans hall) (hpush ((ih.value hr).mono (hfront.trans hall))) h

theorem cuts_obj (ih : Cuts libc fuel)
    (h : deserializeObj libc (fuel + 1) str stack = .ok (v, stack')) : KeysCut str v := by
  rw [deserializeObj] at h
  split at h
  · cases h; exact keysCut_null _
  · exact ih.members ((infix_drop_take _ _ _).trans (trim_isInfix _))
      (fun _ h => absurd h List.not_mem_nil) h

theorem cuts_members (ih : Cuts libc fuel) {all : Text} {obj : List (Text × Value)}
    (hall : str <:+: all) (hobj : ∀ p ∈ obj, p.1 <:+: all ∧ KeysCut all p.2)
    (h : deserializeMembers libc (fuel + 1) str obj stack = .ok (v, stack')) : KeysCut all v := by
  rw [deserializeMembers] at h
  split at h
  · cases h; exact keysCut_object hobj
  split at h
  · cases h; exact keysCut_null _
  next key rest hkey =>
  obtain ⟨hk, hrest⟩ := keyOf_cut hkey
  split at h
  · cases h; exact keysCut_null _
  obtain ⟨r, hr, h⟩ := bind_eq_ok.mp h
  match r with
  | (none, _) => cases h; exact keysCut_null _
  | (some (w, rest'), _) =>
    have hw := (ih.value hr).mono (hrest.trans hall)
    have hrest' : rest' <:+: rest := (value_rest hr).1.isInfix.trans (trim_isInfix _)
    refine ih.members ((hrest'.trans hrest).trans hall) (fun p hp => ?_) h
    rcases mem_insert hp with hp | ⟨hv, hkey | ⟨u, hu⟩⟩
    · exact hobj p hp
    · exact ⟨hkey ▸ hk.trans hall, hv ▸ hw⟩
    · exact ⟨(hobj _ hu).1, hv ▸ hw⟩

end Cuts

theorem cuts (libc : Libc) (fuel : Nat) : Cuts libc fuel := by
  induction fuel with
  | zero => constructor <;> intros <;> contradiction
  | succ fuel ih =>
    exact ⟨cuts_internal ih, cuts_value ih, cuts_array ih, cuts_elements ih, cuts_obj ih,
      cuts_members ih⟩

/-- **Every key is a piece of the text.** -/
theorem key_piece {libc : Libc} {str key : Text} {v : Value} (h : deserialize libc str = .ok v)
    (hk : KeyIn key v) : key <:+: str := by
  unfold deserialize at h
  match hr : deserializeInternal libc (4 * str.length + 4) str [] with
  | .error _ => rw [hr] at h; cases h
  | .ok (w, st) =>
    rw [hr] at h
    obtain rfl : w = v := Except.ok.inj h
    exact (cuts libc _).internal hr key hk

end Json

end RecsDaemon
