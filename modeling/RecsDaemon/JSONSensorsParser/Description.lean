import RecsDaemon.Base.Decimal
import RecsDaemon.Base.Map
import RecsDaemon.JSONSensorsParser.Kinds

/-!
# What a description says

`Describes` reads an entry of a description on its own terms: the types and
units by tables, the size of a string sensor as a decimal number. A parser takes
a description over if its beans report just that. The size of a string sensor is
read as one character, and a group ends at a zero byte (`takenOver_iff`).
-/

namespace RecsDaemon

open Base Json

namespace JSONSensorsParser

/-! ## Entries -/

/-- The types whose size is their own. -/
def sizedTypes : List (Text × SensorDataType × Nat) :=
  [(ascii "U8", .u8, 1), (ascii "U16", .u16, 2), (ascii "U32", .u32, 4), (ascii "U64", .u64, 8),
    (ascii "double", .float, 8)]

def units : List (Text × SensorUnit) :=
  [(ascii "W", .power), (ascii "A", .current), (ascii "V", .voltage),
    ([0xC2, 0xB0, 0x43], .temperature), (ascii "RPM", .rotationalSpeed)]

/-- The members that say the type and the size. -/
def SaysType (fields : List (Text × Value)) (dataType : SensorDataType) (size : Nat) : Prop :=
  ∃ s, fields.lookup (ascii "dataType") = some (.text s) ∧
    ((s, dataType, size) ∈ sizedTypes ∨
      s = ascii "string" ∧ dataType = .str ∧
        ∃ digits, fields.lookup (ascii "maxDataSize") = some (.text digits) ∧
          decimal digits = some size ∧ 1 ≤ size ∧ size ≤ 255)

/-- An optional member says `x`: its value does, or there is none and `x` is the default. -/
def Says {α : Type} (fields : List (Text × Value)) (key : Text) (means : Value → α → Prop)
    (dflt x : α) : Prop :=
  match fields.lookup key with
  | some v => means v x
  | none => x = dflt

def IsText : Value → Text → Prop
  | .text s, t => s = t
  | _, _ => False

/-- A unit that is not in the table is none. -/
def IsUnit : Value → SensorUnit → Prop
  | .text s, unit => unit = (units.lookup s).getD .dimensionless
  | _, _ => False

def IsNumber : Value → Double → Prop
  | .int v, x => x = .ofInt v.toInt
  | .double d, x => x = d
  | _, _ => False

/-- Two numbers, and that they are used. -/
def AreThresholds : Value → Bool × Double × Double → Prop
  | .array (a :: b :: _), (use, x, y) => use = true ∧ IsNumber a x ∧ IsNumber b y
  | _, _ => False

/-- A number from 0 to 65535, also with a point or as minus zero. -/
def IsCount : Value → UInt16 → Prop
  | .int v, n => v.toInt = n.toNat
  | .double d, n => d = .ofNat n.toNat ∨ n = 0 ∧ d = ⟨0x8000000000000000⟩
  | _, _ => False

/-- What the members of an entry say about a sensor `name`. -/
structure DescribesMembers (fields : List (Text × Value)) (name : Text) (info : SensorInfo) :
    Prop where
  named : fields.lookup (ascii "name") = some (.text name)
  short : name.length ≤ sensorNameLength
  type : SaysType fields info.dataType info.maxDataSize
  unit : Says fields (ascii "unit") IsUnit .dimensionless info.unit
  lower : Says fields (ascii "lowerThresholds") AreThresholds (false, .zero, .zero)
    (info.useLowerThresholds, info.lowerCriticalThreshold, info.lowerWarningThreshold)
  upper : Says fields (ascii "upperThresholds") AreThresholds (false, .zero, .zero)
    (info.useUpperThresholds, info.upperWarningThreshold, info.upperCriticalThreshold)
  values : Says fields (ascii "numberOfValues") IsCount 1 info.numberOfValues
  group : Says fields (ascii "group") IsText [] info.group
  textual : info.renderingType = .textual

/-- An entry of a description, and the name and the properties it says. -/
def Describes : Value → Text × SensorInfo → Prop
  | .object fields, (name, info) => DescribesMembers fields name info
  | _, _ => False

/-! ## Members as the parser reads them -/

section Members

variable {fields : List (Text × Value)}

theorem says_cases {α : Type} {key : Text} {means : Value → α → Prop} {dflt x : α}
    (h : Says fields key means dflt x) :
    (fields.lookup key = none ∧ x = dflt) ∨ ∃ v, fields.lookup key = some v ∧ means v x := by
  unfold Says at h
  cases hk : fields.lookup key with
  | none => exact .inl ⟨rfl, by rwa [hk] at h⟩
  | some v => exact .inr ⟨v, rfl, by rwa [hk] at h⟩

theorem unitOf_eq (s : Text) : unitOf s = (units.lookup s).getD .dimensionless := by
  unfold unitOf units
  simp only [List.lookup_cons, List.lookup_nil]
  repeat' split
  all_goals simp_all

theorem parseUnit_says {unit : SensorUnit}
    (h : Says fields (ascii "unit") IsUnit .dimensionless unit) :
    parseUnit (.object fields) = .ok unit := by
  unfold parseUnit
  simp only [Value.field, Value.hasKey]
  rcases says_cases h with ⟨hk, rfl⟩ | ⟨v, hk, hv⟩
  · rw [hk]; rfl
  · rw [hk]
    cases v with
    | text s =>
      rw [show unit = unitOf s from hv.trans (unitOf_eq s).symm]
      rfl
    | _ => exact hv.elim

theorem parseGroup_says {group : Text} (h : Says fields (ascii "group") IsText [] group) :
    parseGroup (.object fields) = .ok group := by
  unfold parseGroup
  simp only [Value.field, Value.hasKey]
  rcases says_cases h with ⟨hk, rfl⟩ | ⟨v, hk, hv⟩
  · rw [hk]; rfl
  · rw [hk]
    cases v with
    | text s =>
      rw [show group = s from hv.symm]
      rfl
    | _ => exact hv.elim

theorem toDoubleOr_of_isNumber {v : Value} {x : Double} (h : IsNumber v x) (dflt : Double) :
    v.toDoubleOr dflt = x := by
  cases v with
  | int i => exact h.symm
  | double d => exact h.symm
  | _ => exact h.elim

theorem parseThresholds_says {key : Text} {use : Bool} {x y : Double}
    (h : Says fields key AreThresholds (false, .zero, .zero) (use, x, y)) :
    parseThresholds (.object fields) key = .ok (use, x, y) := by
  unfold parseThresholds
  simp only [Value.field, Value.hasKey]
  rcases says_cases h with ⟨hk, he⟩ | ⟨v, hk, hv⟩
  · rw [hk, he]; rfl
  · rw [hk]
    cases v with
    | array elems =>
      rcases elems with _ | ⟨a, _ | ⟨b, _⟩⟩
      · exact hv.elim
      · exact hv.elim
      · obtain ⟨huse, ha, hb⟩ := hv
        rw [huse, ← toDoubleOr_of_isNumber ha .zero, ← toDoubleOr_of_isNumber hb .zero]
        rfl
    | _ => exact hv.elim

/-- What the platform does beyond the `int`s plays no part. -/
theorem toInt_of_isCount {d : Double} {n : UInt16} (pf : Platform) (h : IsCount (.double d) n) :
    pf.toInt d = Int32.ofInt n.toNat := by
  have hn := n.toNat_lt
  have hint : d.intPart = n.toNat := by
    rcases h with rfl | ⟨rfl, rfl⟩
    · exact Double.intPart_ofNat (by omega)
    · decide
  rw [Platform.toInt, hint, if_neg (by omega)]

theorem parseNumberOfValues_says {n : UInt16}
    (h : Says fields (ascii "numberOfValues") IsCount 1 n) (pf : Platform) :
    parseNumberOfValues pf (.object fields) = .ok n := by
  have hlow : ∀ i : Int32, i.toInt = n.toNat → i.toUInt32.toUInt16 = n := by
    intro i hi
    apply UInt16.toNat_inj.mp
    have hn := n.toNat_lt
    rw [UInt32.toNat_toUInt16, Int32.toNat_toUInt32_of_le (Int32.le_iff_toInt_le.mpr (by simp [hi])),
      Int32.toNatClampNeg, hi]
    omega
  unfold parseNumberOfValues
  simp only [Value.field, Value.hasKey]
  rcases says_cases h with ⟨hk, rfl⟩ | ⟨v, hk, hv⟩
  · rw [hk]; rfl
  · rw [hk]
    cases v with
    | int i =>
      have hi := hlow i hv
      exact congrArg Except.ok hi
    | double d =>
      have hd := toInt_of_isCount pf hv
      have hi := hlow (pf.toInt d) (by
        have hn := n.toNat_lt
        rw [hd, Int32.toInt_ofInt_of_le (by omega) (by omega)])
      exact congrArg Except.ok hi
    | _ => exact hv.elim

/-! ### The size and the group -/

/-- A size whose text is read as itself: 53, or 48 behind a zero. -/
def SizeKept (digits : Text) : Prop :=
  digits = ascii "53" ∨ ∃ k, digits = List.replicate (k + 1) 48 ++ ascii "48"

structure KeptMembers (fields : List (Text × Value)) : Prop where
  size : ∀ digits, fields.lookup (ascii "dataType") = some (.text (ascii "string")) →
    fields.lookup (ascii "maxDataSize") = some (.text digits) → SizeKept digits
  group : ∀ group, fields.lookup (ascii "group") = some (.text group) → 0 ∉ group

/-- The character a text of digits is read as. -/
theorem extractUInt8_decimal {digits : Text} {n : Nat} (h : decimal digits = some n) :
    extractUInt8 digits = n ↔ SizeKept digits := by
  cases digits with
  | nil => cases h
  | cons c s =>
    have hdigit : isDigit c = true := by
      unfold decimal at h
      split at h
      · next hall => exact List.all_eq_true.mp hall.2 c List.mem_cons_self
      · cases h
    have hspace : isSpace c = false := by
      have hc := isDigit_iff.mp hdigit
      have h32 : c ≠ 32 := by rintro rfl; exact absurd hc (by decide)
      have h13 : ¬ c ≤ 13 := by
        rw [UInt8.le_iff_toNat_le]
        exact fun hle => absurd (hc.1.trans hle) (by decide)
      simp [isSpace, h32, h13]
    rw [extractUInt8, List.dropWhile_cons_of_neg (by rw [hspace]; decide)]
    exact decimal_eq_code_iff h

/-- Every type is read right, and the size of a string if its text allows. -/
theorem parseDataType_says {dataType : SensorDataType} {size : Nat}
    (h : SaysType fields dataType size) :
    ∃ read, parseDataType (.object fields) = .ok (some (dataType, read)) ∧
      (read = size ↔ ∀ digits, fields.lookup (ascii "dataType") = some (.text (ascii "string")) →
        fields.lookup (ascii "maxDataSize") = some (.text digits) → SizeKept digits) := by
  obtain ⟨s, hs, hsized | ⟨rfl, rfl, digits, hd, hdec, -⟩⟩ := h
  · have hof : dataTypeOf s = some (dataType, some size) := by
      simp only [sizedTypes, List.mem_cons, Prod.mk.injEq, List.not_mem_nil, or_false] at hsized
      rcases hsized with ⟨rfl, rfl, rfl⟩ | ⟨rfl, rfl, rfl⟩ | ⟨rfl, rfl, rfl⟩ | ⟨rfl, rfl, rfl⟩ |
        ⟨rfl, rfl, rfl⟩ <;> rfl
    refine ⟨size, ?_, iff_of_true rfl fun digits hstr => ?_⟩
    · unfold parseDataType
      simp only [Value.field, hs, Option.getD_some, ok_bind, Value.toText, hof]
      rfl
    · rw [hs, Option.some.injEq, Value.text.injEq] at hstr
      rw [hstr] at hof
      cases hof
  · refine ⟨extractUInt8 digits, ?_, ?_⟩
    · unfold parseDataType
      simp only [Value.field, Value.hasKey, hs, hd, Option.getD_some, ok_bind, Value.toText]
      rfl
    · rw [extractUInt8_decimal hdec]
      constructor
      · intro hk digits' _ hd'
        rw [hd, Option.some.injEq, Value.text.injEq] at hd'
        rwa [← hd']
      · intro hall
        exact hall digits hs hd

def reported (s : Sensor) : SensorInfo := { s.info with group := s.getGroup }

theorem parseSensor_describes {name : Text} {info : SensorInfo}
    (h : DescribesMembers fields name info) (pf : Platform) (src : Source) :
    ∃ s, parseSensor pf src (.object fields) = .ok (some (name, s)) ∧
      (reported s = info ↔ KeptMembers fields) := by
  obtain ⟨t, ht, -⟩ := h.type
  obtain ⟨read, hread, hsize⟩ := parseDataType_says h.type
  refine ⟨⟨src, { info with maxDataSize := read }⟩, ?_, ?_⟩
  · unfold parseSensor
    simp only [Value.isObject, Value.hasKey, Value.field, h.named, ht, Option.isSome_some,
      Bool.and_self, if_true, Option.getD_some, Value.toText, ok_bind,
      if_neg (Nat.not_lt.mpr h.short), hread, parseUnit_says h.unit, parseThresholds_says h.lower,
      parseThresholds_says h.upper, parseNumberOfValues_says h.values, parseGroup_says h.group]
    rw [← h.textual]
    rfl
  · have hgroup : cstr info.group = info.group ↔
        ∀ group, fields.lookup (ascii "group") = some (.text group) → 0 ∉ group := by
      rw [cstr_eq_self_iff]
      rcases says_cases h.group with ⟨hk, he⟩ | ⟨v, hk, hv⟩
      · apply iff_of_true (he ▸ List.not_mem_nil)
        intro group hg
        rw [hk] at hg
        cases hg
      · cases v with
        | text group =>
          rw [hk, ← show group = info.group from hv]
          exact ⟨fun h0 _ he => Value.text.inj (Option.some.inj he) ▸ h0, fun hall => hall _ rfl⟩
        | _ => exact hv.elim
    constructor
    · intro he
      exact ⟨hsize.mp (congrArg SensorInfo.maxDataSize he), hgroup.mp (congrArg SensorInfo.group he)⟩
    · intro hk
      show { info with maxDataSize := read, group := cstr info.group } = info
      rw [hsize.mpr hk.size, hgroup.mpr hk.group]

end Members

/-! ## Descriptions -/

def Kept : Value → Prop
  | .object fields => KeptMembers fields
  | _ => True

section Description

variable {pf : Platform} {elems : List Value} {entries : List (Text × SensorInfo)}

theorem parseSensor_of_describes {v : Value} {entry : Text × SensorInfo} (h : Describes v entry)
    (src : Source) :
    ∃ s, parseSensor pf src v = .ok (some (entry.1, s)) ∧ (reported s = entry.2 ↔ Kept v) := by
  cases v with
  | object fields => exact parseSensor_describes h pf src
  | _ => exact h.elim

/-- Every entry makes a sensor of its name, and the sensors are right if all entries are kept. -/
theorem parseSensors_describes (h : List.Forall₂ Describes elems entries) (parser : Text)
    (done : List (Text × Sensor)) :
    ∃ made, parseSensors pf parser elems done = .ok (done ++ made) ∧
      made.map Prod.fst = entries.map Prod.fst ∧
      (made.map (fun p => reported p.2) = entries.map Prod.snd ↔ ∀ v ∈ elems, Kept v) := by
  induction h generalizing done with
  | nil => exact ⟨[], by rw [List.append_nil]; rfl, rfl, iff_of_true rfl fun v hv => by cases hv⟩
  | @cons v entry vs entries hv _ ih =>
    obtain ⟨s, hs, hkept⟩ := @parseSensor_of_describes pf v entry hv (.bean parser done.length)
    obtain ⟨made, hmade, hnames, hall⟩ := ih (done ++ [(entry.1, s)])
    refine ⟨(entry.1, s) :: made, ?_, ?_, ?_⟩
    · rw [parseSensors, hs, ok_bind]
      show parseSensors pf parser vs (done ++ [(entry.1, s)]) = _
      rw [hmade, List.append_assoc, List.singleton_append]
    · rw [List.map_cons, List.map_cons, hnames]
    · rw [List.map_cons, List.map_cons, List.cons.injEq, hkept, hall, List.forall_mem_cons]

theorem lookup_mSensors (ordered : List (Text × Sensor)) (n : Text) :
    (mSensors ordered)[n]? = ordered.lookup n := by
  rw [mSensors, getElem?_foldl_insertIfNew, Std.TreeMap.getElem?_emptyc, Option.none_or,
    find?_eq_lookup]

/-- A description is taken over: one bean an entry, in order, each reporting what its entry says;
in the returned map is the first sensor of each name. -/
def TakenOver (deserialize : Deserialize) (pf : Platform) (provider : JSONSensorProvider)
    (name : Text) (entries : List (Text × SensorInfo)) : Prop :=
  ∃ parser map, getSensors deserialize pf provider name = .ok (parser, map) ∧
    parser.mSensorsOrdered.map Sensor.source = (List.range entries.length).map (.bean name) ∧
    parser.mSensorsOrdered.map reported = entries.map Prod.snd ∧
    ∀ n : Text, map[n]? = ((entries.map Prod.fst).zip parser.mSensorsOrdered).lookup n

/-- **When a description is taken over.** -/
theorem takenOver_iff {deserialize : Deserialize} {provider : JSONSensorProvider} {name : Text}
    (hd : deserialize provider.getSensorsDescription = .ok (.array elems))
    (hl : elems.length < 65536) (h : List.Forall₂ Describes elems entries) :
    TakenOver deserialize pf provider name entries ↔ ∀ v ∈ elems, Kept v := by
  obtain ⟨ordered, hord, hnames, hall⟩ := @parseSensors_describes pf _ _ h name []
  have hparse : parseDescription deserialize pf name provider.getSensorsDescription =
      .ok ordered := by
    rw [parseDescription, hd, ok_bind]
    show parseElements pf name elems = _
    rw [parseElements, List.take_of_length_le (Nat.le_of_lt hl), hord, ok_bind, if_pos hl]
    rfl
  have hget : getSensors deserialize pf provider name =
      .ok (⟨provider, name, ordered.map Prod.snd⟩, mSensors ordered) := by
    rw [getSensors, hparse]; rfl
  rw [← hall]
  constructor
  · rintro ⟨parser, map, hget', -, hrep, -⟩
    rw [hget, Except.ok.injEq, Prod.mk.injEq] at hget'
    rw [← hget'.1, List.map_map] at hrep
    exact hrep
  · intro hrep
    refine ⟨_, _, hget, ?_, by rw [List.map_map]; exact hrep, fun n => ?_⟩
    · have hlen := congrArg List.length hnames
      rw [List.length_map, List.length_map] at hlen
      apply List.ext_getElem
      · simp [hlen]
      · intro k h1 h2
        rw [List.length_map, List.length_map] at h1
        have hbean := ((parseDescription_spec hparse).1 k _ (List.getElem?_eq_getElem h1)).1
        simpa using hbean
    · rw [lookup_mSensors, ← List.zip_of_prod hnames rfl]

end Description

/-! ## Two descriptions -/

def fullText (digits : Text) : Text :=
  ascii "\x7b\"name\": \"t\", \"dataType\": \"string\", \"maxDataSize\": \"" ++ digits ++
    ascii "\", \"unit\": \"V\", \"lowerThresholds\": [1, 2.0], \"upperThresholds\": [8, 9]," ++
    ascii "\"numberOfValues\": 3, \"group\": \"g\"\x7d"

def fullEntry (digits : Text) : Value :=
  .object [(ascii "dataType", .text (ascii "string")), (ascii "group", .text (ascii "g")),
    (ascii "lowerThresholds", .array [.int 1, .double (.ofNat 2)]),
    (ascii "maxDataSize", .text digits), (ascii "name", .text (ascii "t")),
    (ascii "numberOfValues", .int 3), (ascii "unit", .text (ascii "V")),
    (ascii "upperThresholds", .array [.int 8, .int 9])]

def fullInfo (size : Nat) : SensorInfo :=
  ⟨.str, size, .voltage, true, true, .ofInt 1, .ofNat 2, .ofInt 8, .ofInt 9, 3, ascii "g", .textual⟩

theorem describes_fullEntry {digits : Text} {size : Nat} (h : decimal digits = some size)
    (h1 : 1 ≤ size) (h2 : size ≤ 255) : Describes (fullEntry digits) (ascii "t", fullInfo size) where
  named := rfl
  short := by decide
  type := ⟨_, rfl, .inr ⟨rfl, rfl, digits, rfl, h, h1, h2⟩⟩
  unit := rfl
  lower := ⟨rfl, rfl, rfl⟩
  upper := ⟨rfl, rfl, rfl⟩
  values := rfl
  group := rfl
  textual := rfl

/-- A string sensor of 53 bytes, and a second sensor of its name. -/
theorem takenOver_iff_sample :
    TakenOver
      (fun _ => .ok (.array [fullEntry (ascii "53"), .object [(ascii "dataType", .text (ascii "U8")),
        (ascii "name", .text (ascii "t"))]])) .x86
      (.plugin (ascii "[" ++ fullText (ascii "53") ++
        ascii ", \x7b\"name\": \"t\", \"dataType\": \"U8\"\x7d]")) (ascii "p")
      [(ascii "t", fullInfo 53), (ascii "t", ⟨.u8, 1, .dimensionless, false, false, .zero, .zero,
        .zero, .zero, 1, [], .textual⟩)] := by
  have hplain : Describes (.object [(ascii "dataType", .text (ascii "U8")),
      (ascii "name", .text (ascii "t"))]) (ascii "t", ⟨.u8, 1, .dimensionless, false, false,
        .zero, .zero, .zero, .zero, 1, [], .textual⟩) :=
    ⟨rfl, by decide, ⟨_, rfl, .inl (by decide)⟩, rfl, rfl, rfl, rfl, rfl, rfl⟩
  have hfull := @describes_fullEntry (ascii "53") 53 (by decide) (by decide) (by decide)
  apply (takenOver_iff rfl (by decide) (.cons hfull (.cons hplain .nil))).mpr
  intro v hv
  rw [List.mem_cons, List.mem_singleton] at hv
  rcases hv with rfl | rfl
  · refine ⟨fun digits _ hd => .inl ?_, fun group hg => ?_⟩
    · exact (Value.text.inj (Option.some.inj hd)).symm
    · rw [← Value.text.inj (Option.some.inj hg)]
      decide
  · exact ⟨fun _ h _ => absurd (Value.text.inj (Option.some.inj h)) (by decide), fun _ h => by cases h⟩

/-- A string sensor of 16 bytes gets 49, the code of the first digit. -/
theorem sixteen_bytes_become_49 :
    List.Forall₂ Describes [fullEntry (ascii "16")] [(ascii "t", fullInfo 16)] ∧
      ¬ TakenOver (fun _ => .ok (.array [fullEntry (ascii "16")])) .x86
        (.plugin (ascii "[" ++ fullText (ascii "16") ++ ascii "]")) (ascii "p")
        [(ascii "t", fullInfo 16)] := by
  refine ⟨.cons (describes_fullEntry (by decide) (by decide) (by decide)) .nil, ?_⟩
  rintro ⟨parser, map, hget, -, hrep, -⟩
  have hsize : ∀ provider, getSensors (fun _ => .ok (.array [fullEntry (ascii "16")])) .x86 provider
      (ascii "p") = .ok (⟨provider, ascii "p", [⟨.bean (ascii "p") 0, fullInfo 49⟩]⟩,
        mSensors [(ascii "t", ⟨.bean (ascii "p") 0, fullInfo 49⟩)]) := fun _ => rfl
  rw [hsize, Except.ok.injEq, Prod.mk.injEq] at hget
  rw [← hget.1] at hrep
  exact absurd (congrArg SensorInfo.maxDataSize (List.cons.inj hrep).1) (by decide)

end JSONSensorsParser

end RecsDaemon
