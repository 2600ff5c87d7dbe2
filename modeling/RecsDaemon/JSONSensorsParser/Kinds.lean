import RecsDaemon.JSONSensorsParser.Encoding

/-!
# The kinds of JSON values

An accessor throws when a value is not of its kind. `parseSensor_cases` says for
each entry of a description whether it throws, is skipped or makes a bean, by
the kinds under its keys alone; `survives_iff` says which values of a description
and of a data text the parser goes through as it should.
-/

namespace RecsDaemon

open Base Json

namespace JSONSensorsParser

/-! ## Entries -/

/-- What can be converted to a text, if the key is there at all. -/
def textOrAbsent (fields : List (Text × Value)) (key : Text) : Bool :=
  match fields.lookup key with
  | some (.text _) => true
  | some _ => false
  | none => true

/-- The type and the size an entry declares, `none` for an unknown type or a missing size. -/
def declared (fields : List (Text × Value)) : Option (SensorDataType × Nat) :=
  match fields.lookup (ascii "dataType") with
  | some (.text t) =>
    match dataTypeOf t with
    | some (dataType, some maxDataSize) => some (dataType, maxDataSize)
    | some (dataType, none) =>
      match fields.lookup (ascii "maxDataSize") with
      | some (.text s) => some (dataType, extractUInt8 s)
      | _ => none
    | none => none
  | _ => none

/-- The declaration has the kinds it is read with. -/
def typeReadable (fields : List (Text × Value)) : Bool :=
  match fields.lookup (ascii "dataType") with
  | some (.text t) =>
    match dataTypeOf t with
    | some (_, none) => textOrAbsent fields (ascii "maxDataSize")
    | _ => true
  | _ => false

/-- What is read behind the declaration. -/
def restReadable (fields : List (Text × Value)) : Bool :=
  textOrAbsent fields (ascii "unit") && textOrAbsent fields (ascii "group")

/-- Every accessor `getSensors` comes to finds its kind of value. -/
def readable : Value → Bool
  | .object fields =>
    match fields.lookup (ascii "name"), fields.lookup (ascii "dataType") with
    | some (.text name), some _ =>
      sensorNameLength < name.length ||
        (typeReadable fields && ((declared fields).isNone || restReadable fields))
    | some _, some _ => false
    | _, _ => true
  | _ => true

/-- The name, the type and the size of the sensor an entry describes, `none` if it describes none. -/
def described : Value → Option (Text × SensorDataType × Nat)
  | .object fields =>
    match fields.lookup (ascii "name") with
    | some (.text name) =>
      if name.length ≤ sensorNameLength && restReadable fields then
        (declared fields).map (name, ·)
      else none
    | _ => none
  | _ => none

def signature (p : Text × Sensor) : Text × SensorDataType × Nat :=
  (p.1, p.2.getDataType, p.2.getMaxDataSize)

section Entry

variable {pf : Platform} {fields : List (Text × Value)}

theorem parseDataType_eq {w : Value} (hw : fields.lookup (ascii "dataType") = some w) :
    parseDataType (.object fields) =
      if typeReadable fields then .ok (declared fields) else .error .json := by
  unfold parseDataType typeReadable declared
  simp only [Value.field, Value.hasKey, hw, Option.getD_some, ok_bind]
  cases w with
  | text t =>
    simp only [Value.toText, ok_bind]
    cases dataTypeOf t with
    | none => rfl
    | some p =>
      obtain ⟨dataType, size⟩ := p
      cases size with
      | some n => rfl
      | none =>
        simp only [textOrAbsent]
        rcases Option.eq_none_or_eq_some (fields.lookup (ascii "maxDataSize")) with hm | ⟨m, hm⟩
        · simp only [hm, Option.isSome_none, Bool.false_eq_true, if_false, if_true]
          rfl
        · simp only [hm, Option.isSome_some, Option.getD_some, if_true]
          cases m <;> rfl
  | _ => rfl

theorem parseUnit_cases (fields : List (Text × Value)) :
    (textOrAbsent fields (ascii "unit") = true ∧ ∃ unit, parseUnit (.object fields) = .ok unit) ∨
      (textOrAbsent fields (ascii "unit") = false ∧ parseUnit (.object fields) = .error .json) := by
  unfold parseUnit textOrAbsent
  simp only [Value.field, Value.hasKey]
  cases fields.lookup (ascii "unit") with
  | none => exact .inl ⟨rfl, _, rfl⟩
  | some w =>
    cases w with
    | text s => exact .inl ⟨rfl, _, rfl⟩
    | _ => exact .inr ⟨rfl, rfl⟩

theorem parseGroup_cases (fields : List (Text × Value)) :
    (textOrAbsent fields (ascii "group") = true ∧ ∃ group, parseGroup (.object fields) = .ok group) ∨
      (textOrAbsent fields (ascii "group") = false ∧ parseGroup (.object fields) = .error .json) := by
  unfold parseGroup textOrAbsent
  simp only [Value.field, Value.hasKey]
  cases fields.lookup (ascii "group") with
  | none => exact .inl ⟨rfl, _, rfl⟩
  | some w =>
    cases w with
    | text s => exact .inl ⟨rfl, _, rfl⟩
    | _ => exact .inr ⟨rfl, rfl⟩

theorem parseThresholds_ok (fields : List (Text × Value)) (key : Text) :
    ∃ t, parseThresholds (.object fields) key = .ok t := by
  unfold parseThresholds
  simp only [Value.field, Value.hasKey]
  cases fields.lookup key with
  | none => exact ⟨_, rfl⟩
  | some w =>
    cases w with
    | array elems =>
      match elems with
      | [] => exact ⟨_, rfl⟩
      | [_] => exact ⟨_, rfl⟩
      | _ :: _ :: _ => exact ⟨_, rfl⟩
    | _ => exact ⟨_, rfl⟩

theorem parseNumberOfValues_ok (pf : Platform) (fields : List (Text × Value)) :
    ∃ n, parseNumberOfValues pf (.object fields) = .ok n := by
  unfold parseNumberOfValues
  simp only [Value.field, Value.hasKey]
  cases fields.lookup (ascii "numberOfValues") with
  | none => exact ⟨_, rfl⟩
  | some w => cases w <;> exact ⟨_, rfl⟩

theorem parseSensor_declared {src : Source} {name : Text} {w : Value} {t : SensorDataType} {n : Nat}
    (hn : fields.lookup (ascii "name") = some (.text name))
    (hw : fields.lookup (ascii "dataType") = some w) (hl : ¬ name.length > sensorNameLength)
    (ht : typeReadable fields = true) (hd : declared fields = some (t, n)) :
    if restReadable fields then ∃ s, parseSensor pf src (.object fields) = .ok (some (name, s)) ∧
        s.source = src ∧ s.getDataType = t ∧ s.getMaxDataSize = n
      else parseSensor pf src (.object fields) = .error .json := by
  have hdt := parseDataType_eq hw
  rw [if_pos ht, hd] at hdt
  obtain ⟨lower, hlower⟩ := parseThresholds_ok fields (ascii "lowerThresholds")
  obtain ⟨upper, hupper⟩ := parseThresholds_ok fields (ascii "upperThresholds")
  obtain ⟨values, hvalues⟩ := parseNumberOfValues_ok pf fields
  unfold parseSensor
  simp only [Value.isObject, Value.hasKey, Value.field, hn, hw, Option.isSome_some, Bool.and_self,
    if_true, Option.getD_some, Value.toText, ok_bind, if_neg hl, hdt, hlower, hupper, hvalues]
  unfold restReadable
  rcases parseUnit_cases fields with ⟨hu, unit, hunit⟩ | ⟨hu, hunit⟩
  · rcases parseGroup_cases fields with ⟨hg, group, hgroup⟩ | ⟨hg, hgroup⟩
    · rw [hu, hg, hunit, hgroup]
      exact ⟨_, rfl, rfl, rfl, rfl⟩
    · rw [hu, hg, hunit, hgroup]
      rfl
  · rw [hu, hunit]
    rfl

/-- **An entry throws, is skipped, or makes the bean it describes.** -/
theorem parseSensor_cases (pf : Platform) (src : Source) (v : Value) :
    (readable v = false ∧ parseSensor pf src v = .error .json) ∨
      (readable v = true ∧ described v = none ∧ parseSensor pf src v = .ok none) ∨
      (readable v = true ∧ ∃ p, described v = some (signature p) ∧
        parseSensor pf src v = .ok (some p)) := by
  cases v with
  | object fields =>
    cases hn : fields.lookup (ascii "name") with
    | none =>
      refine .inr (.inl ⟨by simp [readable, hn], by simp [described, hn], ?_⟩)
      simp only [parseSensor, Value.isObject, Value.hasKey, hn, ok_bind]
      rfl
    | some name =>
      cases hw : fields.lookup (ascii "dataType") with
      | none =>
        refine .inr (.inl ⟨by cases name <;> simp [readable, hn, hw], ?_, ?_⟩)
        · cases name <;> simp [described, declared, hn, hw]
        · simp only [parseSensor, Value.isObject, Value.hasKey, hn, hw, ok_bind]
          rfl
      | some w =>
        cases name with
        | text name =>
          by_cases hl : name.length > sensorNameLength
          · refine .inr (.inl ⟨?_, ?_, ?_⟩)
            · simp only [readable, hn, hw]
              simp [hl]
            · have : ¬ name.length ≤ sensorNameLength := by omega
              simp [described, hn, this]
            · simp only [parseSensor, Value.isObject, Value.hasKey, Value.field, hn, hw, ok_bind,
                Option.isSome_some, Bool.and_self, if_true, Option.getD_some, Value.toText,
                if_pos hl]
              rfl
          · have hle : name.length ≤ sensorNameLength := Nat.not_lt.mp hl
            have hdt := parseDataType_eq hw
            cases ht : typeReadable fields with
            | false =>
              refine .inl ⟨by simp only [readable, hn, hw]; simp [hle, ht], ?_⟩
              rw [ht] at hdt
              simp only [parseSensor, Value.isObject, Value.hasKey, Value.field, hn, hw, ok_bind,
                Option.isSome_some, Bool.and_self, if_true, Option.getD_some, Value.toText,
                if_neg hl, hdt]
              rfl
            | true =>
              cases hd : declared fields with
              | none =>
                refine .inr (.inl ⟨?_, by simp [described, hn, hd], ?_⟩)
                · simp only [readable, hn, hw]
                  simp [ht, hd]
                · rw [ht, hd] at hdt
                  simp only [parseSensor, Value.isObject, Value.hasKey, Value.field, hn, hw,
                    ok_bind, Option.isSome_some, Bool.and_self, if_true, Option.getD_some,
                    Value.toText, if_neg hl, hdt]
                  rfl
              | some p =>
                obtain ⟨t, n⟩ := p
                have h := @parseSensor_declared pf _ src _ _ _ _ hn hw hl ht hd
                cases hr : restReadable fields with
                | false =>
                  rw [hr] at h
                  refine .inl ⟨?_, h⟩
                  simp only [readable, hn, hw]
                  simp [hle, ht, hd, hr]
                | true =>
                  rw [hr] at h
                  obtain ⟨s, hs, -, rfl, rfl⟩ := h
                  refine .inr (.inr ⟨?_, (name, s), ?_, hs⟩)
                  · simp only [readable, hn, hw]
                    simp [ht, hr]
                  · simp [described, hn, hle, hr, hd, signature]
        | _ =>
          refine .inl ⟨by simp [readable, hn, hw], ?_⟩
          simp only [parseSensor, Value.isObject, Value.hasKey, Value.field, hn, hw, ok_bind,
            Option.isSome_some, Bool.and_self, if_true, Option.getD_some, Value.toText]
          rfl
  | _ => exact .inr (.inl ⟨rfl, rfl, rfl⟩)

end Entry

/-! ## Descriptions -/

section Description

variable {pf : Platform} {parser : Text}

/-- The entries that describe a sensor make the beans, in order. -/
theorem parseSensors_ok {vs : List Value} {done : List (Text × Sensor)}
    (h : ∀ v ∈ vs, readable v = true) :
    ∃ made, parseSensors pf parser vs done = .ok (done ++ made) ∧
      made.map signature = vs.filterMap described := by
  induction vs generalizing done with
  | nil => exact ⟨[], by rw [List.append_nil]; rfl, rfl⟩
  | cons v vs ih =>
    have hv := h v List.mem_cons_self
    have hvs := fun w hw => h w (List.mem_cons_of_mem _ hw)
    rw [List.filterMap_cons]
    rcases parseSensor_cases pf (.bean parser done.length) v with
      ⟨hr, -⟩ | ⟨-, hd, hp⟩ | ⟨-, p, hd, hp⟩
    · rw [hv] at hr; cases hr
    · obtain ⟨made, hm, hs⟩ := @ih done hvs
      refine ⟨made, ?_, by rw [hd]; exact hs⟩
      rw [parseSensors, hp, ok_bind]
      exact hm
    · obtain ⟨made, hm, hs⟩ := @ih (done ++ [p]) hvs
      refine ⟨p :: made, ?_, by rw [hd, List.map_cons, hs]⟩
      rw [parseSensors, hp, ok_bind]
      show parseSensors pf parser vs (done ++ [p]) = _
      rw [hm, List.append_assoc, List.singleton_append]

theorem parseSensors_error {vs : List Value} {done : List (Text × Sensor)}
    (h : ∃ v ∈ vs, readable v = false) :
    parseSensors pf parser vs done = .error .json := by
  induction vs generalizing done with
  | nil => obtain ⟨v, hv, -⟩ := h; cases hv
  | cons v vs ih =>
    rcases parseSensor_cases pf (.bean parser done.length) v with
      ⟨-, hp⟩ | ⟨hr, -, hp⟩ | ⟨hr, p, -, hp⟩
    · rw [parseSensors, hp]; rfl
    all_goals
      have hrest : ∃ w ∈ vs, readable w = false := by
        obtain ⟨w, hw, hbad⟩ := h
        rcases List.mem_cons.mp hw with rfl | hw
        · rw [hr] at hbad; cases hbad
        · exact ⟨w, hw, hbad⟩
      rw [parseSensors, hp, ok_bind]
      exact ih hrest

/-- The descriptions `getSensors` returns on. -/
def DescriptionReadable : Value → Prop
  | .null => True
  | .array elems => elems.length < 65536 ∧ ∀ e ∈ elems, readable e = true
  | v => v.size = 0

def entries : Value → List (Text × SensorDataType × Nat)
  | .array elems => elems.filterMap described
  | _ => []

theorem parseElements_cases (pf : Platform) (parser : Text) (elems : List Value) :
    (DescriptionReadable (.array elems) ∧ ∃ ordered, parseElements pf parser elems = .ok ordered ∧
        ordered.map signature = elems.filterMap described) ∨
      (¬ DescriptionReadable (.array elems) ∧ ∃ e, parseElements pf parser elems = .error e) := by
  unfold parseElements
  by_cases hl : elems.length < 65536
  · rw [List.take_of_length_le (Nat.le_of_lt hl)]
    by_cases hr : ∀ e ∈ elems, readable e = true
    · obtain ⟨made, hm, hs⟩ := @parseSensors_ok pf parser _ [] hr
      rw [hm, ok_bind, if_pos hl]
      exact .inl ⟨⟨hl, hr⟩, made, rfl, hs⟩
    · have hbad : ∃ e ∈ elems, readable e = false := by simpa using hr
      rw [parseSensors_error hbad]
      exact .inr ⟨fun h => hr h.2, _, rfl⟩
  · refine .inr ⟨fun h => hl h.1, ?_⟩
    cases parseSensors pf parser (elems.take 65536) [] with
    | error e => exact ⟨e, rfl⟩
    | ok done => rw [ok_bind, if_neg hl]; exact ⟨_, rfl⟩

/-- **When `getSensors` returns**, and which sensors it makes. -/
theorem parseDescription_cases {deserialize : Deserialize} {text : Text} {v : Value}
    (hv : deserialize text = .ok v) :
    (DescriptionReadable v ∧ ∃ ordered, parseDescription deserialize pf parser text = .ok ordered ∧
        ordered.map signature = entries v) ∨
      (¬ DescriptionReadable v ∧ ∃ e, parseDescription deserialize pf parser text = .error e) := by
  rw [parseDescription, hv, ok_bind]
  cases v with
  | null => exact .inl ⟨trivial, [], rfl, rfl⟩
  | array elems => exact parseElements_cases pf parser elems
  | object fields =>
    by_cases h0 : (Value.object fields).size = 0
    · exact .inl ⟨h0, [], if_pos h0, rfl⟩
    · exact .inr ⟨h0, _, if_neg h0⟩
  | _ => exact .inr ⟨Nat.one_ne_zero, _, rfl⟩

theorem getSensors_entries {deserialize : Deserialize} {provider : JSONSensorProvider} {name : Text}
    {parser : JSONSensorsParser} {map : SensorMap} {v : Value}
    (h : getSensors deserialize pf provider name = .ok (parser, map))
    (hv : deserialize provider.getSensorsDescription = .ok v) :
    DescriptionReadable v ∧ ∃ ordered, parser = ⟨provider, name, ordered.map Prod.snd⟩ ∧
      map = mSensors ordered ∧ ordered.map signature = entries v := by
  obtain ⟨ordered, ho, rfl, rfl⟩ := getSensors_ok h
  rcases @parseDescription_cases pf name _ _ _ hv with ⟨hr, ordered', ho', hsig⟩ | ⟨-, _, herr⟩
  · rw [ho, Except.ok.injEq] at ho'
    subst ho'
    exact ⟨hr, ordered, rfl, rfl, hsig⟩
  · rw [ho] at herr; cases herr

end Description

/-! ## Values -/

/-- The kinds of value a sensor of the type takes. -/
def fits (t : SensorDataType) : ValueType → Bool
  | .text => t = .str
  | .int | .double => t ≠ .str
  | _ => false

/-- The kinds of value the loop of `updateSensors` goes past. -/
def skips (t : SensorDataType) : ValueType → Bool
  | .null | .object | .array => true
  | .text | .bool => t ≠ .str
  | .int | .double => false

theorem storedBytes_of_skips {stack : Mem} {s : Sensor} {v : Value}
    (h : skips s.getDataType v.getType = true) : storedBytes stack s v = none := by
  unfold storedBytes
  cases v with
  | int i => cases h
  | double d => cases h
  | text t => exact if_pos (by simpa [skips, Value.getType] using h)
  | bool b => exact if_pos (by simpa [skips, Value.getType] using h)
  | _ => rfl

theorem storedBytes_of_not_skips {stack : Mem} {s : Sensor} {v : Value}
    (h : ¬ skips s.getDataType v.getType = true) :
    ∃ bs, storedBytes stack s v = some bs ∧ (bs = [] → s.getMaxDataSize = 0) ∧
      bs.length ≤ s.getMaxDataSize := by
  have htext : ∀ t, (SensorBean.textBytes s.getMaxDataSize t = [] → s.getMaxDataSize = 0) := by
    intro t ht
    have := congrArg List.length ht
    simp only [SensorBean.textBytes, List.length_take, List.length_append, List.length_nil,
      List.length_cons] at this
    omega
  have hlen := SensorBean.length_textBytes_le s.getMaxDataSize
  unfold storedBytes
  cases v with
  | text t =>
    have ht : ¬ s.getDataType ≠ .str := by simpa [skips, Value.getType] using h
    exact ⟨_, if_neg ht, htext _, hlen _⟩
  | bool b =>
    have ht : ¬ s.getDataType ≠ .str := by simpa [skips, Value.getType] using h
    exact ⟨_, if_neg ht, htext _, hlen _⟩
  | int i =>
    by_cases ht : s.getDataType ≠ .str
    · have hl := SensorBean.length_uint32Bytes s.getMaxDataSize stack i.toUInt32
      exact ⟨_, if_pos ht, fun h0 => by rw [← hl, h0]; rfl, hl.le⟩
    · exact ⟨_, if_neg ht, htext _, hlen _⟩
  | double d =>
    by_cases ht : s.getDataType ≠ .str
    · have hl := SensorBean.length_doubleBytes s.getMaxDataSize stack d
      exact ⟨_, if_pos ht, fun h0 => by rw [← hl, h0]; rfl, hl.le⟩
    · exact ⟨_, if_neg ht, htext _, hlen _⟩
  | _ => exact absurd rfl h

/-- A bean without bytes is never changed. -/
theorem stored_of_size_zero {stack : Mem} {s : Sensor} {v : Value} {m : Mem}
    (h0 : s.getMaxDataSize = 0) : stored m (storedBytes stack s v) = m := by
  by_cases hk : skips s.getDataType v.getType = true
  · rw [storedBytes_of_skips hk]; rfl
  · obtain ⟨bs, hbs, -, hlen⟩ := @storedBytes_of_not_skips stack s v hk
    have hnil : bs = [] := List.eq_nil_of_length_eq_zero (by omega)
    rw [hbs, hnil]
    exact Mem.write_nil _ _

/-- A value that is not skipped changes a buffer of non-zero size that held other bytes. -/
theorem stored_ne {stack : Mem} {s : Sensor} {v : Value}
    (h : ¬ skips s.getDataType v.getType = true) (hs : s.getMaxDataSize ≠ 0) :
    ∃ c : UInt8, stored (fun _ => c) (storedBytes stack s v) ≠ fun _ => c := by
  obtain ⟨bs, hbs, h0, -⟩ := @storedBytes_of_not_skips stack s v h
  rw [hbs]
  cases bs with
  | nil => exact absurd (h0 rfl) hs
  | cons b bs =>
    refine ⟨b + 1, fun he => ?_⟩
    have hb := congrFun he 0
    have hw := Mem.write_inside (fun _ => b + 1) 0 (b :: bs) (i := 0) (by simp)
    rw [stored, ← Nat.add_zero 0, hw] at hb
    simp only [List.getElem_cons_zero] at hb
    exact absurd (congrArg UInt8.toNat hb) (by rw [UInt8.toNat_add]; simp; omega)

/-! ## Updates -/

/-- Data that is rejected as a whole by `n` sensors. -/
def Rejected (n : Nat) : Value → Prop
  | .null => True
  | w => w.size < n

theorem updateSensors_cases {deserialize : Deserialize} {parser : JSONSensorsParser} {answer : Text}
    {w : Value} (stack : Nat → Mem) (beans : Beans)
    (ht : parser.mSensorProvider.getSensorsData answer ≠ [])
    (hw : deserialize (parser.mSensorProvider.getSensorsData answer) = .ok w) :
    ((parser.mSensorsOrdered = [] ∨ Rejected parser.mSensorsOrdered.length w) ∧
        updateSensors deserialize parser answer stack beans = .ok beans) ∨
      (∃ values, w = .array values ∧ ¬ Rejected parser.mSensorsOrdered.length w ∧
        updateSensors deserialize parser answer stack beans =
          .ok (updateValues stack values 0 parser.mSensorsOrdered beans)) ∨
      (parser.mSensorsOrdered ≠ [] ∧ ¬ Rejected parser.mSensorsOrdered.length w ∧
        (∀ values, w ≠ .array values) ∧
        updateSensors deserialize parser answer stack beans = .error .json) := by
  by_cases hr : Rejected parser.mSensorsOrdered.length w
  · refine .inl ⟨.inr hr, ?_⟩
    rw [updateSensors, if_neg ht, hw, ok_bind]
    cases w with
    | null => rfl
    | _ => exact if_pos hr
  cases w with
  | array values =>
    exact .inr (.inl ⟨values, rfl, hr,
      updateSensors_array _ _ _ _ _ ht hw (Nat.not_lt.mp hr)⟩)
  | null => exact absurd trivial hr
  | _ =>
    by_cases h0 : parser.mSensorsOrdered = []
    · refine .inl ⟨.inl h0, ?_⟩
      simp only [updateSensors, if_neg ht, hw, ok_bind]
      apply (if_neg hr).trans
      rw [h0]
      rfl
    · refine .inr (.inr ⟨h0, hr, fun _ => Value.noConfusion, ?_⟩)
      simp only [updateSensors, if_neg ht, hw, ok_bind]
      apply (if_neg hr).trans
      cases hm : parser.mSensorsOrdered with
      | nil => exact absurd hm h0
      | cons s ss => rfl

/-- What an update does is the same for all beans. -/
theorem updateSensors_eq (deserialize : Deserialize) (parser : JSONSensorsParser) (answer : Text)
    (stack : Nat → Mem) :
    (∃ e, ∀ beans, updateSensors deserialize parser answer stack beans = .error e) ∨
      (∀ beans, updateSensors deserialize parser answer stack beans = .ok beans) ∨
      ∃ values, ∀ beans, updateSensors deserialize parser answer stack beans =
        .ok (updateValues stack values 0 parser.mSensorsOrdered beans) := by
  by_cases ht : parser.mSensorProvider.getSensorsData answer = []
  · exact .inr (.inl fun beans => if_pos ht)
  cases hw : deserialize (parser.mSensorProvider.getSensorsData answer) with
  | error e => exact .inl ⟨e, fun beans => by rw [updateSensors, if_neg ht, hw]; rfl⟩
  | ok w =>
    by_cases hr : Rejected parser.mSensorsOrdered.length w
    · refine .inr (.inl fun beans => ?_)
      rcases updateSensors_cases stack beans ht hw with ⟨-, h⟩ | ⟨_, _, h, -⟩ | ⟨-, h, -⟩
      · exact h
      · exact absurd hr h
      · exact absurd hr h
    · cases w with
      | array values =>
        exact .inr (.inr ⟨values, fun beans => updateSensors_array _ _ _ _ _ ht hw
          (Nat.not_lt.mp hr)⟩)
      | null => exact absurd trivial hr
      | _ =>
        by_cases h0 : parser.mSensorsOrdered = []
        · refine .inr (.inl fun beans => ?_)
          rcases updateSensors_cases stack beans ht hw with ⟨-, h⟩ | ⟨_, h, -⟩ | ⟨h, -⟩
          · exact h
          · cases h
          · exact absurd h0 h
        · refine .inl ⟨.json, fun beans => ?_⟩
          rcases updateSensors_cases stack beans ht hw with ⟨h, -⟩ | ⟨_, h, -⟩ | ⟨-, -, -, h⟩
          · exact (h.elim h0 hr).elim
          · cases h
          · exact h

theorem updateSensor_congr {stack : Mem} {s : Sensor} {v : Value} {b c : Beans} {src : Source}
    (h : b src = c src) : updateSensor stack s v b src = updateSensor stack s v c src := by
  by_cases hs : src = s.source
  · subst hs
    rw [updateSensor_source, updateSensor_source, h]
  · rw [updateSensor_other hs, updateSensor_other hs, h]

theorem updateValues_congr {stack : Nat → Mem} {values : List Value} {i : Nat} {ss : List Sensor}
    {b c : Beans} {src : Source} (h : b src = c src) :
    updateValues stack values i ss b src = updateValues stack values i ss c src := by
  induction ss generalizing i b c with
  | nil => exact h
  | cons s ss ih => exact ih (updateSensor_congr h)

/-- Whether an update returns depends on no bean, and what it leaves in a bean on this one only. -/
theorem updateSensors_congr {deserialize : Deserialize} {parser : JSONSensorsParser} {answer : Text}
    {stack : Nat → Mem} {b b' : Beans}
    (h : updateSensors deserialize parser answer stack b = .ok b') (c : Beans) :
    ∃ c', updateSensors deserialize parser answer stack c = .ok c' ∧
      ∀ src, b src = c src → b' src = c' src := by
  rcases updateSensors_eq deserialize parser answer stack with ⟨e, he⟩ | he | ⟨values, he⟩
  · rw [he] at h; cases h
  · rw [he, Except.ok.injEq] at h
    exact ⟨c, he c, fun src hs => by rw [← h]; exact hs⟩
  · rw [he, Except.ok.injEq] at h
    exact ⟨_, he c, fun src hs => by rw [← h]; exact updateValues_congr hs⟩

/-- An update returns; rejected data changes no bean, and a value of a wrong kind not its own. -/
def UpdatesSafely (deserialize : Deserialize) (parser : JSONSensorsParser) (answer : Text)
    (w : Value) : Prop :=
  ∀ stack beans, ∃ beans', updateSensors deserialize parser answer stack beans = .ok beans' ∧
    (Rejected parser.mSensorsOrdered.length w → beans' = beans) ∧
    ∀ (k : Nat) s values x, w = .array values → parser.mSensorsOrdered[k]? = some s →
      values[k]? = some x → fits s.getDataType x.getType = false → beans' s.source = beans s.source

/-- Data for sensors of these types and sizes of which each value is taken or skipped. -/
def DataReadable (types : List (SensorDataType × Nat)) (w : Value) : Prop :=
  types = [] ∨ Rejected types.length w ∨ ∃ values, w = .array values ∧
    ∀ (k : Nat) t x, types[k]? = some t → values[k]? = some x → t.2 ≠ 0 →
      fits t.1 x.getType = true ∨ skips t.1 x.getType = true

section Survival

variable {deserialize : Deserialize} {pf : Platform} {provider : JSONSensorProvider} {name : Text}
  {parser : JSONSensorsParser} {map : SensorMap}

theorem updateValues_bean (h : getSensors deserialize pf provider name = .ok (parser, map))
    (stack : Nat → Mem) (values : List Value) (beans : Beans) {k : Nat} {s : Sensor}
    (hs : parser.mSensorsOrdered[k]? = some s) :
    updateValues stack values 0 parser.mSensorsOrdered beans s.source =
      stored (beans s.source) (storedBytes (stack k) s (values.getD k .null)) := by
  obtain ⟨ordered, ho, rfl, -⟩ := getSensors_ok h
  obtain ⟨hbean, hlt⟩ := parseDescription_spec ho
  have hat := updateValues_at stack values beans 0 (nodup_sources hbean) (by simp; omega) hs
  rwa [Nat.zero_add] at hat

def beanTypes (parser : JSONSensorsParser) : List (SensorDataType × Nat) :=
  parser.mSensorsOrdered.map fun s => (s.getDataType, s.getMaxDataSize)

theorem beanTypes_getElem? {k : Nat} {s : Sensor} (hs : parser.mSensorsOrdered[k]? = some s) :
    (beanTypes parser)[k]? = some (s.getDataType, s.getMaxDataSize) := by
  rw [beanTypes, List.getElem?_map, hs, Option.map_some]

theorem updatesSafely_array (h : getSensors deserialize pf provider name = .ok (parser, map))
    {answer : Text} {values : List Value}
    (hup : ∀ stack beans, updateSensors deserialize parser answer stack beans =
      .ok (updateValues stack values 0 parser.mSensorsOrdered beans))
    (hr : ¬ Rejected parser.mSensorsOrdered.length (.array values)) :
    UpdatesSafely deserialize parser answer (.array values) ↔
      ∀ (k : Nat) t x, (beanTypes parser)[k]? = some t → values[k]? = some x → t.2 ≠ 0 →
        fits t.1 x.getType = true ∨ skips t.1 x.getType = true := by
  constructor
  · intro hsafe k t x ht hx h0
    by_contra hbad
    obtain ⟨hf, hk⟩ := not_or.mp hbad
    obtain ⟨s, hs, rfl⟩ := Option.map_eq_some_iff.mp (List.getElem?_map .. ▸ ht)
    obtain ⟨c, hc⟩ := @stored_ne (fun _ => 0) s x hk h0
    obtain ⟨beans', hb, -, hkeep⟩ := hsafe (fun _ _ => 0) (fun _ _ => c)
    rw [hup, Except.ok.injEq] at hb
    subst hb
    have hsame := hkeep k s values x rfl hs hx (Bool.not_eq_true _ ▸ hf)
    rw [updateValues_bean h _ _ _ hs, List.getD_eq_getElem?_getD, hx] at hsame
    exact hc hsame
  · intro hall stack beans
    refine ⟨_, hup stack beans, fun hrej => absurd hrej hr, ?_⟩
    intro k s values' x hval hs hx hf
    obtain rfl : values = values' := Value.array.inj hval
    rw [updateValues_bean h _ _ _ hs, List.getD_eq_getElem?_getD, hx, Option.getD_some]
    by_cases hk : skips s.getDataType x.getType = true
    · rw [storedBytes_of_skips hk]; rfl
    by_cases h0 : s.getMaxDataSize = 0
    · exact stored_of_size_zero h0
    · rcases hall k _ x (beanTypes_getElem? hs) hx h0 with hfit | hskip
      · rw [hf] at hfit; cases hfit
      · exact absurd hskip hk

/-- **When an update is safe.** -/
theorem updatesSafely_iff (h : getSensors deserialize pf provider name = .ok (parser, map))
    {answer : Text} {w : Value} (ht : parser.mSensorProvider.getSensorsData answer ≠ [])
    (hw : deserialize (parser.mSensorProvider.getSensorsData answer) = .ok w) :
    UpdatesSafely deserialize parser answer w ↔ DataReadable (beanTypes parser) w := by
  have hlen : (beanTypes parser).length = parser.mSensorsOrdered.length := List.length_map _
  have hnil : beanTypes parser = [] ↔ parser.mSensorsOrdered = [] := List.map_eq_nil_iff
  unfold DataReadable
  rw [hlen, hnil]
  have hcases := fun stack beans =>
    @updateSensors_cases deserialize parser answer w stack beans ht hw
  by_cases hdone : parser.mSensorsOrdered = [] ∨ Rejected parser.mSensorsOrdered.length w
  · refine ⟨fun _ => hdone.elim .inl (.inr ∘ .inl), fun _ stack beans => ⟨beans, ?_, ?_⟩⟩
    · rcases hcases stack beans with ⟨-, hok⟩ | ⟨values, -, hr, hok⟩ | ⟨h0, hr, -⟩
      · exact hok
      · rcases hdone with h0 | hrej
        · rw [hok, h0]; rfl
        · exact absurd hrej hr
      · exact absurd hdone (not_or.mpr ⟨h0, hr⟩)
    · exact ⟨fun _ => rfl, fun _ _ _ _ _ _ _ _ => rfl⟩
  obtain ⟨h0, hr⟩ := not_or.mp hdone
  by_cases harr : ∃ values, w = .array values
  · obtain ⟨values, rfl⟩ := harr
    have hup : ∀ stack beans, updateSensors deserialize parser answer stack beans =
        .ok (updateValues stack values 0 parser.mSensorsOrdered beans) := by
      intro stack beans
      rcases hcases stack beans with ⟨hd, -⟩ | ⟨_, he, -, hok⟩ | ⟨-, -, hne, -⟩
      · exact absurd hd hdone
      · cases he; exact hok
      · exact absurd rfl (hne values)
    rw [updatesSafely_array h hup hr]
    constructor
    · intro hall
      exact .inr (.inr ⟨values, rfl, hall⟩)
    · rintro (hn | hrej | ⟨_, he, hall⟩)
      · exact absurd hn h0
      · exact absurd hrej hr
      · cases he; exact hall
  · constructor
    · intro hsafe
      obtain ⟨beans', hok, -⟩ := hsafe (fun _ _ => 0) (fun _ _ => 0)
      rcases hcases (fun _ _ => 0) (fun _ _ => 0) with ⟨hd, -⟩ | ⟨values, he, -⟩ | ⟨-, -, -, herr⟩
      · exact absurd hd hdone
      · exact absurd ⟨values, he⟩ harr
      · rw [herr] at hok; cases hok
    · rintro (hn | hrej | ⟨values, he, -⟩)
      · exact absurd hn h0
      · exact absurd hrej hr
      · exact absurd ⟨values, he⟩ harr

/-- `getSensors` makes the sensors that are described, and the update with the data is safe. -/
def Survives (deserialize : Deserialize) (pf : Platform) (provider : JSONSensorProvider)
    (name answer : Text) (v w : Value) : Prop :=
  ∃ ordered,
    getSensors deserialize pf provider name =
      .ok (⟨provider, name, ordered.map Prod.snd⟩, mSensors ordered) ∧
    ordered.map signature = entries v ∧
    UpdatesSafely deserialize ⟨provider, name, ordered.map Prod.snd⟩ answer w

/-- **Which values of a description and of a data text the daemon survives.** -/
theorem survives_iff {answer : Text} {v w : Value}
    (hv : deserialize provider.getSensorsDescription = .ok v)
    (hw : deserialize (provider.getSensorsData answer) = .ok w) :
    Survives deserialize pf provider name answer v w ↔
      DescriptionReadable v ∧
        (provider.getSensorsData answer = [] ∨ DataReadable ((entries v).map Prod.snd) w) := by
  rcases @parseDescription_cases pf name deserialize _ v hv with
    ⟨hr, ordered, ho, hsig⟩ | ⟨hr, e, he⟩
  · have hget : getSensors deserialize pf provider name =
        .ok (⟨provider, name, ordered.map Prod.snd⟩, mSensors ordered) := by
      rw [getSensors, ho]; rfl
    have htypes : beanTypes ⟨provider, name, ordered.map Prod.snd⟩ = (entries v).map Prod.snd := by
      rw [← hsig, beanTypes, List.map_map, List.map_map]
      exact List.map_congr_left fun _ _ => rfl
    have hiff : Survives deserialize pf provider name answer v w ↔
        UpdatesSafely deserialize ⟨provider, name, ordered.map Prod.snd⟩ answer w := by
      constructor
      · rintro ⟨ordered', hget', -, hsafe⟩
        rw [hget, Except.ok.injEq, Prod.mk.injEq] at hget'
        rw [hget'.1]; exact hsafe
      · intro hsafe
        exact ⟨ordered, hget, hsig, hsafe⟩
    rw [hiff]
    by_cases ht : provider.getSensorsData answer = []
    · refine ⟨fun _ => ⟨hr, .inl ht⟩, fun _ stack beans => ⟨beans, if_pos ht, fun _ => rfl, ?_⟩⟩
      intro _ _ _ _ _ _ _ _
      rfl
    · rw [updatesSafely_iff hget ht hw, htypes]
      constructor
      · intro hd
        exact ⟨hr, .inr hd⟩
      · rintro ⟨-, h0 | hd⟩
        · exact absurd h0 ht
        · exact hd
  · constructor
    · rintro ⟨ordered, hget, -⟩
      rw [getSensors, he] at hget
      cases hget
    · intro h
      exact absurd h.1 hr

end Survival

theorem survives_iff_sample :
    Survives sampleDeserialize .x86 (.plugin sampleDescription) (ascii "g") sampleData
      (.array [.object [(ascii "dataType", .text (ascii "U8")), (ascii "name", .text (ascii "t"))]])
      (.array [.int 7]) := by
  have hiff := @survives_iff sampleDeserialize .x86 (.plugin sampleDescription) (ascii "g")
    sampleData _ _ rfl rfl
  refine hiff.mpr ⟨⟨by decide, ?_⟩, .inr (.inr (.inr ⟨_, rfl, ?_⟩))⟩
  · intro e he
    rw [List.mem_singleton] at he
    subst he
    rfl
  · intro k t x ht hx _
    match k with
    | 0 => cases ht; cases hx; exact .inl rfl
    | k + 1 => cases ht

def numberName : Value :=
  .array [.object [(ascii "dataType", .text (ascii "U8")), (ascii "name", .int 5)]]

theorem numberName_throws :
    ¬ Survives (fun text => .ok (if text = sampleData then .array [.int 7] else numberName)) .x86
      (.plugin (ascii "[\x7b\"name\": 5, \"dataType\": \"U8\"\x7d]")) (ascii "g") sampleData
      numberName (.array [.int 7]) := by
  rintro ⟨ordered, hget, -⟩
  have herr : getSensors (fun text => .ok (if text = sampleData then .array [.int 7]
      else numberName)) .x86 (.plugin (ascii "[\x7b\"name\": 5, \"dataType\": \"U8\"\x7d]"))
      (ascii "g") = .error .json := by rfl
  rw [herr] at hget
  cases hget

end JSONSensorsParser

end RecsDaemon
