import RecsDaemon.JSONSensorsParser
import RecsDaemon.Base.Except

/-!
# The encoding of JSON values

`updateSensors` chooses a setter by the kind of the literal, and the bean cuts
what the setter gives at the size of the declared type. The declared format
comes out for an integer literal of an integer type of at most four bytes, and
for a literal with a fraction or exponent of type `double` (`encoding_iff`).
-/

namespace RecsDaemon

open Base Json

namespace JSONSensorsParser

/-! ## Accepted descriptions -/

def declaredSize : SensorDataType → Option Nat
  | .u8 => some 1
  | .u16 => some 2
  | .u32 => some 4
  | .u64 => some 8
  | .float => some 8
  | _ => none

theorem dataTypeOf_size {s : Text} {t : SensorDataType} {n : Option Nat}
    (h : dataTypeOf s = some (t, n)) : declaredSize t = n ∧ (n = none → t = .str) := by
  unfold dataTypeOf at h
  split_ifs at h <;> cases h <;> simp [declaredSize]

theorem parseDataType_size {v : Value} {t : SensorDataType} {n : Nat}
    (h : parseDataType v = .ok (some (t, n))) : t = .str ∨ declaredSize t = some n := by
  obtain ⟨f, -, h⟩ := bind_eq_ok.mp h
  obtain ⟨s, -, h⟩ := bind_eq_ok.mp h
  cases hd : dataTypeOf s with
  | none => rw [hd] at h; cases h
  | some p =>
    obtain ⟨t', n'⟩ := p
    obtain ⟨hs, ht⟩ := dataTypeOf_size hd
    rw [hd] at h
    cases n' with
    | some n' => cases h; exact .inr hs
    | none =>
      obtain ⟨k, -, h⟩ := bind_eq_ok.mp h
      cases k with
      | false => cases h
      | true =>
        obtain ⟨f, -, h⟩ := bind_eq_ok.mp h
        obtain ⟨x, -, h⟩ := bind_eq_ok.mp h
        cases h
        exact .inl (ht rfl)

theorem parseSensor_some {pf : Platform} {src : Source} {v : Value} {name : Text} {s : Sensor}
    (h : parseSensor pf src v = .ok (some (name, s))) :
    v.hasKey (ascii "dataType") = .ok true ∧ name.length ≤ sensorNameLength ∧ s.source = src ∧
      parseDataType v = .ok (some (s.getDataType, s.getMaxDataSize)) := by
  unfold parseSensor at h
  split at h
  · obtain ⟨a, -, h⟩ := bind_eq_ok.mp h
    obtain ⟨b, hb, h⟩ := bind_eq_ok.mp h
    split at h
    · next hab =>
      obtain ⟨f, -, h⟩ := bind_eq_ok.mp h
      obtain ⟨n, -, h⟩ := bind_eq_ok.mp h
      split at h
      · cases h
      · next hn =>
        obtain ⟨dt, hdt, h⟩ := bind_eq_ok.mp h
        cases dt with
        | none => cases h
        | some p =>
          obtain ⟨unit, -, h⟩ := bind_eq_ok.mp h
          obtain ⟨lower, -, h⟩ := bind_eq_ok.mp h
          obtain ⟨upper, -, h⟩ := bind_eq_ok.mp h
          obtain ⟨values, -, h⟩ := bind_eq_ok.mp h
          obtain ⟨group, -, h⟩ := bind_eq_ok.mp h
          cases h
          rw [Bool.and_eq_true] at hab
          exact ⟨by rw [hb, hab.2], Nat.not_lt.mp hn, rfl, hdt⟩
    · cases h
  · cases h

/-- A bean of a parser is known by its position, and has the size of its type. -/
def BeanAt (parser : Text) (ordered : List (Text × Sensor)) : Prop :=
  ∀ (k : Nat) (p : Text × Sensor), ordered[k]? = some p → p.2.source = .bean parser k ∧
    (p.2.getDataType = .str ∨ declaredSize p.2.getDataType = some p.2.getMaxDataSize)

theorem BeanAt.append {parser : Text} {done : List (Text × Sensor)} {pf : Platform} {v : Value}
    {p : Text × Sensor} (h : BeanAt parser done)
    (hp : parseSensor pf (.bean parser done.length) v = .ok (some p)) :
    BeanAt parser (done ++ [p]) := by
  obtain ⟨-, -, hsrc, hdt⟩ := parseSensor_some hp
  intro k q hq
  rcases Nat.lt_trichotomy k done.length with hk | rfl | hk
  · rw [List.getElem?_append_left hk] at hq; exact h k q hq
  · simp only [List.getElem?_concat_length, Option.some.injEq] at hq
    subst hq; exact ⟨hsrc, parseDataType_size hdt⟩
  · rw [List.getElem?_eq_none (by simp; omega)] at hq; cases hq

theorem parseSensors_spec {pf : Platform} {parser : Text} {vs : List Value}
    {done ordered : List (Text × Sensor)} (h0 : BeanAt parser done)
    (h : parseSensors pf parser vs done = .ok ordered) :
    BeanAt parser ordered ∧ ordered.length ≤ done.length + vs.length := by
  induction vs generalizing done with
  | nil => cases h; exact ⟨h0, by simp⟩
  | cons v vs ih =>
    obtain ⟨r, hr, h⟩ := bind_eq_ok.mp h
    cases r with
    | none =>
      obtain ⟨h1, h2⟩ := ih h0 h
      exact ⟨h1, by simp only [List.length_cons]; omega⟩
    | some p =>
      obtain ⟨h1, h2⟩ := ih (h0.append hr) h
      exact ⟨h1, by simp only [List.length_append, List.length_cons, List.length_nil] at h2 ⊢; omega⟩

theorem parseDescription_spec {deserialize : Deserialize} {pf : Platform} {parser text : Text}
    {ordered : List (Text × Sensor)}
    (h : parseDescription deserialize pf parser text = .ok ordered) :
    BeanAt parser ordered ∧ ordered.length < 65536 := by
  have h0 : BeanAt parser [] := fun k p hp => by simp at hp
  obtain ⟨v, -, h⟩ := bind_eq_ok.mp h
  cases v with
  | array elems =>
    obtain ⟨done, hd, h⟩ := bind_eq_ok.mp h
    split at h
    · next hl =>
      cases h
      obtain ⟨h1, h2⟩ := parseSensors_spec h0 hd
      refine ⟨h1, ?_⟩
      simp only [List.length_nil, List.length_take] at h2
      omega
    · cases h
  | null => cases h; exact ⟨h0, by simp⟩
  | object fields =>
    simp only at h
    split at h
    · cases h; exact ⟨h0, by simp⟩
    · cases h
  | text s => cases h
  | int i => cases h
  | double d => cases h
  | bool b => cases h

theorem getSensors_ok {deserialize : Deserialize} {pf : Platform} {provider : JSONSensorProvider}
    {name : Text} {parser : JSONSensorsParser} {map : SensorMap}
    (h : getSensors deserialize pf provider name = .ok (parser, map)) :
    ∃ ordered, parseDescription deserialize pf name provider.getSensorsDescription = .ok ordered ∧
      parser = ⟨provider, name, ordered.map Prod.snd⟩ ∧ map = mSensors ordered := by
  obtain ⟨ordered, ho, h⟩ := bind_eq_ok.mp h
  cases h
  exact ⟨ordered, ho, rfl, rfl⟩

/-! ## Stored bytes -/

/-- What `updateSensor` stores in the bean, if anything. -/
def storedBytes (stack : Mem) (s : Sensor) (v : Value) : Option Bytes :=
  match v with
  | .null | .object _ | .array _ => none
  | v =>
    if s.getDataType ≠ .str then
      match v with
      | .double d => some (SensorBean.doubleBytes s.getMaxDataSize stack d)
      | .int i => some (SensorBean.uint32Bytes s.getMaxDataSize stack i.toUInt32)
      | _ => none
    else some (SensorBean.textBytes s.getMaxDataSize (v.toTextOr []))

def stored (m : Mem) : Option Bytes → Mem
  | some bs => m.write 0 bs
  | none => m

theorem updateSensor_source (stack : Mem) (s : Sensor) (v : Value) (beans : Beans) :
    updateSensor stack s v beans s.source = stored (beans s.source) (storedBytes stack s v) := by
  cases v <;> simp only [updateSensor, storedBytes, stored] <;> split <;>
    simp [SensorBean.setData]

theorem updateSensor_other {stack : Mem} {s : Sensor} {v : Value} {beans : Beans} {src : Source}
    (h : src ≠ s.source) : updateSensor stack s v beans src = beans src := by
  cases v <;> simp only [updateSensor] <;> split <;>
    first | rfl | exact SensorBean.setData_other h

theorem updateValues_other {stack : Nat → Mem} {values : List Value} {i : Nat} {ss : List Sensor}
    {beans : Beans} {src : Source} (h : ∀ s ∈ ss, src ≠ s.source) :
    updateValues stack values i ss beans src = beans src := by
  induction ss generalizing i beans with
  | nil => rfl
  | cons s ss ih =>
    rw [updateValues, ih fun s' hs' => h s' (List.mem_cons_of_mem _ hs'),
      updateSensor_other (h s List.mem_cons_self)]

/-- **The bean at position `k` gets the value at position `k`**, for fewer than `2^16` beans. -/
theorem updateValues_at (stack : Nat → Mem) (values : List Value) (beans : Beans) (i : Nat)
    {k : Nat} {ss : List Sensor} {s : Sensor} (hd : (ss.map Sensor.source).Nodup) (hl : i + ss.length ≤ 65536)
    (hs : ss[k]? = some s) :
    updateValues stack values i ss beans s.source =
      stored (beans s.source) (storedBytes (stack (i + k)) s (values.getD (i + k) .null)) := by
  induction ss generalizing i k beans with
  | nil => cases hs
  | cons t ss ih =>
    rw [List.map_cons, List.nodup_cons] at hd
    rw [List.length_cons] at hl
    have hmod : ss = [] ∨ (i + 1) % 65536 = i + 1 := by
      cases ss with
      | nil => exact .inl rfl
      | cons u us => rw [List.length_cons] at hl; exact .inr (Nat.mod_eq_of_lt (by omega))
    cases k with
    | zero =>
      obtain rfl : t = s := by simpa using hs
      rw [updateValues, updateValues_other fun u hu e => hd.1 (by
        rw [e]; exact List.mem_map_of_mem hu)]
      exact updateSensor_source _ _ _ _
    | succ k =>
      rw [List.getElem?_cons_succ] at hs
      rcases hmod with rfl | hmod
      · cases hs
      have hne : s.source ≠ t.source := fun e =>
        hd.1 (e ▸ List.mem_map_of_mem (List.mem_of_getElem? hs))
      rw [updateValues, hmod, ih _ _ hd.2 (by omega) hs, updateSensor_other hne,
        show i + 1 + k = i + (k + 1) by omega]

theorem nodup_sources {parser : Text} {ordered : List (Text × Sensor)} (h : BeanAt parser ordered) :
    ((ordered.map Prod.snd).map Sensor.source).Nodup := by
  refine List.nodup_iff_getElem?_ne_getElem?.mpr fun i j hij hj e => ?_
  have hlt : j < ordered.length := by simpa using hj
  have hi := (h i _ (List.getElem?_eq_getElem (by omega))).1
  have hj' := (h j _ (List.getElem?_eq_getElem hlt)).1
  simp only [List.getElem?_map, List.getElem?_eq_getElem (show i < ordered.length by omega),
    List.getElem?_eq_getElem hlt, Option.map_some, Option.some.injEq, hi, hj', Source.bean.injEq,
    true_and] at e
  omega

/-! ## The declared format -/

/-- The format of a number in a declared type: big-endian modulo the type's range, or the bytes of
the `double`. `none` for other types, and for what is no number. -/
def declaredBytes (t : SensorDataType) (v : Value) : Option Bytes :=
  match t, v with
  | .float, .int i => some (Double.ofInt i.toInt).bytes
  | .float, .double d => some d.bytes
  | .u8, v | .u16, v | .u32, v | .u64, v => do
    let w ← declaredSize t
    match v with
    | .int i => some (be w (i.toInt % 256 ^ w).toNat)
    | .double d => some (be w (d.intPart % 256 ^ w).toNat)
    | _ => none
  | _, _ => none

/-- How a literal is written: an integer, a number with a fraction or exponent, no number. -/
inductive LiteralForm where
  | integer
  | real
  | other
deriving DecidableEq

def LiteralForm.of : Value → LiteralForm
  | .int _ => .integer
  | .double _ => .real
  | _ => .other

/-- The pairs of declared type and literal whose setter gives the declared format. -/
def FormFits : SensorDataType → LiteralForm → Prop
  | .u8, .real | .u16, .real | .u32, .real => False
  | .u64, .integer | .u64, .real => False
  | .float, .integer => False
  | _, _ => True

/-- After every update with these values, whatever the text, the stack and the buffers were, each
bean of a numeric type whose value is a number holds it in its format. -/
def EncodesAll (parser : JSONSensorsParser) (values : List Value) : Prop :=
  ∀ deserialize provider answer stack beans beans',
    provider.getSensorsData answer ≠ [] →
    deserialize (provider.getSensorsData answer) = .ok (.array values) →
    updateSensors deserialize { parser with mSensorProvider := provider } answer stack beans =
      .ok beans' →
    ∀ (k : Nat) s v bs, parser.mSensorsOrdered[k]? = some s → values[k]? = some v →
      declaredBytes s.getDataType v = some bs → SensorBean.getData beans' s = bs

theorem toNat_toUInt32 (i : Int32) : i.toUInt32.toNat = (i.toInt % 2 ^ 32).toNat := by
  have h : i.toInt = i.toBitVec.toInt := rfl
  have hn : i.toBitVec.toNat = i.toUInt32.toNat := rfl
  have hlt : i.toUInt32.toNat < 2 ^ 32 := i.toUInt32.toNat_lt
  rw [h, BitVec.toInt_eq_toNat_cond, hn]
  split <;> omega

/-- The bytes the `uint32_t` setter takes are those of the number modulo the type's range. -/
theorem uint32Bytes_int {w : Nat} (hw : w ≤ 4) (stack : Mem) (i : Int32) :
    SensorBean.uint32Bytes w stack i.toUInt32 = be w (i.toInt % 256 ^ w).toNat := by
  have hd : (256 : Int) ^ w ∣ 2 ^ 32 := by
    rw [show (2 : Int) ^ 32 = 256 ^ 4 by norm_num]; exact pow_dvd_pow _ hw
  have hm : (i.toInt % 256 ^ w).toNat = i.toUInt32.toNat % 256 ^ w := by
    rw [toNat_toUInt32, ← Int.emod_emod_of_dvd _ hd]
    have h0 : 0 ≤ i.toInt % 2 ^ 32 := Int.emod_nonneg _ (by norm_num)
    obtain ⟨n, hn⟩ := Int.eq_ofNat_of_zero_le h0
    rw [hn, Int.toNat_natCast]
    exact_mod_cast Int.toNat_natCast _
  rw [SensorBean.uint32Bytes, hm, be_mod, show w - 4 = 0 by omega, Mem.read_zero, List.nil_append,
    be_drop hw]

/-- The right setter stores the declared format, of the bean's size. -/
theorem storedBytes_of_fits (stack : Mem) {s : Sensor} {v : Value} {bs : Bytes}
    (hf : FormFits s.getDataType (.of v)) (hb : declaredBytes s.getDataType v = some bs)
    (hsz : s.getDataType = .str ∨ declaredSize s.getDataType = some s.getMaxDataSize) :
    storedBytes stack s v = some bs ∧ bs.length = s.getMaxDataSize := by
  have hne : s.getDataType ≠ .str := fun e => by rw [e] at hb; cases v <;> cases hb
  have hsize := hsz.resolve_left hne
  cases v with
  | int i =>
    have hstore : storedBytes stack s (.int i) =
        some (SensorBean.uint32Bytes s.getMaxDataSize stack i.toUInt32) := by
      simp [storedBytes, hne]
    rw [hstore]
    generalize s.getMaxDataSize = n at *
    generalize s.getDataType = t at *
    cases t <;> simp only [FormFits, LiteralForm.of] at hf <;> cases hsize <;> cases hb <;>
      exact ⟨congrArg some (uint32Bytes_int (by decide) _ _), length_be _ _⟩
  | double d =>
    have hstore : storedBytes stack s (.double d) =
        some (SensorBean.doubleBytes s.getMaxDataSize stack d) := by
      simp [storedBytes, hne]
    rw [hstore]
    generalize s.getMaxDataSize = n at *
    generalize s.getDataType = t at *
    cases t <;> simp only [FormFits, LiteralForm.of] at hf <;> cases hsize
    cases hb
    exact ⟨congrArg some (by simp [SensorBean.doubleBytes, List.take_of_length_le]), d.length_bytes⟩
  | _ => generalize s.getDataType = t at *; cases t <;> cases hb

/-- A literal of each form: zero, one, and no number. -/
def LiteralForm.sample : LiteralForm → Value
  | .integer => .int 0
  | .real => .double ⟨0x3FF0000000000000⟩
  | .other => .null

@[simp] theorem LiteralForm.of_sample (f : LiteralForm) : LiteralForm.of f.sample = f := by
  cases f <;> rfl

/-- The wrong setter stores other bytes than the declared ones, of the sample literals at least. -/
theorem storedBytes_of_not_fits {s : Sensor} {f : LiteralForm}
    (hf : ¬ FormFits s.getDataType f)
    (hsz : s.getDataType = .str ∨ declaredSize s.getDataType = some s.getMaxDataSize) :
    ∃ b bs, storedBytes (fun _ => 1) s f.sample = some b ∧ b.length = s.getMaxDataSize ∧
      declaredBytes s.getDataType f.sample = some bs ∧ b ≠ bs := by
  have hne : s.getDataType ≠ .str := fun e => hf (by rw [e]; cases f <;> trivial)
  have hsize := hsz.resolve_left hne
  cases f with
  | integer =>
    refine ⟨SensorBean.uint32Bytes s.getMaxDataSize (fun _ => 1) 0, ?_⟩
    have hst : storedBytes (fun _ => 1) s (.int 0) =
        some (SensorBean.uint32Bytes s.getMaxDataSize (fun _ => 1) 0) := by
      simp [storedBytes, hne]; rfl
    generalize s.getMaxDataSize = n at *
    generalize s.getDataType = t at *
    cases t <;> simp only [FormFits, not_true] at hf <;> cases hsize
    · exact ⟨_, hst, rfl, rfl, by decide⟩
    · exact ⟨_, hst, rfl, rfl, by decide⟩
  | real =>
    refine ⟨SensorBean.doubleBytes s.getMaxDataSize (fun _ => 1) ⟨0x3FF0000000000000⟩, ?_⟩
    have hst : storedBytes (fun _ => 1) s (.double ⟨0x3FF0000000000000⟩) =
        some (SensorBean.doubleBytes s.getMaxDataSize (fun _ => 1) ⟨0x3FF0000000000000⟩) := by
      simp [storedBytes, hne]
    generalize s.getMaxDataSize = n at *
    generalize s.getDataType = t at *
    cases t <;> simp only [FormFits, not_true] at hf <;> cases hsize
    · exact ⟨_, hst, rfl, rfl, by decide⟩
    · exact ⟨_, hst, rfl, rfl, by decide⟩
    · exact ⟨_, hst, rfl, rfl, by decide⟩
    · exact ⟨_, hst, rfl, rfl, by decide⟩
  | other => exact absurd (by generalize s.getDataType = t; cases t <;> trivial) hf

/-! ## Updates -/

theorem updateSensors_array (deserialize : Deserialize) (parser : JSONSensorsParser) (answer : Text)
    (stack : Nat → Mem) (beans : Beans) {values : List Value}
    (ht : parser.mSensorProvider.getSensorsData answer ≠ [])
    (hv : deserialize (parser.mSensorProvider.getSensorsData answer) = .ok (.array values))
    (hl : parser.mSensorsOrdered.length ≤ values.length) :
    updateSensors deserialize parser answer stack beans =
      .ok (updateValues stack values 0 parser.mSensorsOrdered beans) := by
  have hs : ¬ (Value.array values).size < parser.mSensorsOrdered.length := Nat.not_lt.mpr hl
  simp only [updateSensors, if_neg ht, hv]
  show (if _ then _ else _) = _
  rw [if_neg hs]
  cases parser.mSensorsOrdered <;> rfl

section Storing

variable {deserialize : Deserialize} {pf : Platform} {provider : JSONSensorProvider} {name : Text}
  {parser : JSONSensorsParser} {map : SensorMap}

/-- What a bean delivers after an update that stored a value of its size. -/
theorem getData_updateValues (h : getSensors deserialize pf provider name = .ok (parser, map))
    {stack : Nat → Mem} {values : List Value} {beans : Beans} {k : Nat} {s : Sensor} {v : Value}
    {b : Bytes} (hs : parser.mSensorsOrdered[k]? = some s) (hv : values[k]? = some v)
    (hb : storedBytes (stack k) s v = some b) (hlen : b.length = s.getMaxDataSize) :
    SensorBean.getData (updateValues stack values 0 parser.mSensorsOrdered beans) s = b := by
  obtain ⟨ordered, ho, rfl, -⟩ := getSensors_ok h
  obtain ⟨hbean, hlt⟩ := parseDescription_spec ho
  have hat := updateValues_at stack values beans 0 (nodup_sources hbean) (by simp; omega) hs
  rw [Nat.zero_add, List.getD_eq_getElem?_getD, hv, Option.getD_some, hb] at hat
  rw [SensorBean.getData, hat, ← hlen]
  exact Mem.read_write_self _ _ _

theorem size_of_getSensors (h : getSensors deserialize pf provider name = .ok (parser, map))
    {k : Nat} {s : Sensor} (hs : parser.mSensorsOrdered[k]? = some s) :
    s.getDataType = .str ∨ declaredSize s.getDataType = some s.getMaxDataSize := by
  obtain ⟨ordered, ho, rfl, -⟩ := getSensors_ok h
  obtain ⟨p, hp, rfl⟩ := Option.map_eq_some_iff.mp (List.getElem?_map .. ▸ hs)
  exact ((parseDescription_spec ho).1 k p hp).2

/-- **Which literals are encoded in the declared type.** For an accepted description and the forms
of a data array's literals, all numbers of these forms are encoded right exactly if each form fits
its declared type. -/
theorem encoding_iff (h : getSensors deserialize pf provider name = .ok (parser, map))
    {forms : List LiteralForm} (hl : parser.mSensorsOrdered.length ≤ forms.length) :
    (∀ values, values.map LiteralForm.of = forms → EncodesAll parser values) ↔
      ∀ (k : Nat) s f, parser.mSensorsOrdered[k]? = some s → forms[k]? = some f →
        FormFits s.getDataType f := by
  constructor
  · intro hall k s f hs hf
    by_contra hbad
    obtain ⟨b, bs, hst, hlen, hd, hne⟩ := storedBytes_of_not_fits hbad (size_of_getSensors h hs)
    have hvk : (forms.map LiteralForm.sample)[k]? = some f.sample := by
      rw [List.getElem?_map, hf, Option.map_some]
    have hup := updateSensors_array (fun _ => .ok (.array (forms.map LiteralForm.sample)))
      { parser with mSensorProvider := .plugin [] } [1] (fun _ _ => 1) (fun _ _ => 0)
      (show cstr [1] ≠ [] by decide) rfl (by simpa using hl)
    have hgood := hall (forms.map LiteralForm.sample) (by
      rw [List.map_map]
      exact (List.map_congr_left fun f _ => f.of_sample).trans (List.map_id _))
      _ (.plugin []) [1] _ _ _ (show cstr [1] ≠ [] by decide) rfl hup k s f.sample bs hs hvk hd
    exact hne ((getData_updateValues h hs hvk hst hlen).symm.trans hgood)
  · intro hfit values hforms deserialize' provider' answer stack beans beans' ht hv hup k s v bs hs
      hvk hd
    have hlv : parser.mSensorsOrdered.length ≤ values.length := by
      rw [← hforms, List.length_map] at hl; exact hl
    rw [updateSensors_array _ { parser with mSensorProvider := provider' } _ _ _ ht hv hlv,
      Except.ok.injEq] at hup
    obtain ⟨hst, hlen⟩ := storedBytes_of_fits (stack k)
      (hfit k s _ hs (by rw [← hforms, List.getElem?_map, hvk, Option.map_some])) hd
      (size_of_getSensors h hs)
    rw [← hup]
    exact getData_updateValues h hs hvk hst hlen

end Storing

def sampleParser : JSONSensorsParser :=
  ⟨.plugin sampleDescription, ascii "g", [sampleSensor (ascii "g")]⟩

theorem getSensors_sample : getSensors sampleDeserialize .x86 (.plugin sampleDescription)
    (ascii "g") = .ok (sampleParser, mSensors [(ascii "t", sampleSensor (ascii "g"))]) := by rfl

/-- An integer for the `U8` sensor of the sample is encoded right. -/
theorem encoding_iff_sample : EncodesAll sampleParser [.int 7] := by
  have hiff := @encoding_iff _ _ _ _ _ _ getSensors_sample [.integer] (by decide)
  refine hiff.mpr (fun k s f hs hf => ?_) [.int 7] rfl
  match k with
  | 0 => cases hs; cases hf; trivial
  | k + 1 => cases hs

/-- `1.5` for a `U8` sensor: the low byte of the double is stored, not `1`. -/
theorem real_for_U8_not_encoded :
    getSensors sampleDeserialize .x86 (.plugin sampleDescription) (ascii "g") =
        .ok (sampleParser, mSensors [(ascii "t", sampleSensor (ascii "g"))]) ∧
      ¬ EncodesAll sampleParser [.double ⟨0x3FF8000000000000⟩] := by
  refine ⟨rfl, fun h => ?_⟩
  have h1 := h (fun _ => .ok (.array [.double ⟨0x3FF8000000000000⟩])) (.plugin []) [1]
    (fun _ _ => 0) (fun _ _ => 0) _ (show cstr [1] ≠ [] by decide) rfl rfl 0 _ _ _ rfl rfl
    (show _ = some [1] by decide)
  exact absurd h1 (by decide)

end JSONSensorsParser

end RecsDaemon
