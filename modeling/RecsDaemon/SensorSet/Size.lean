import RecsDaemon.SensorSet
import RecsDaemon.Base.System
import RecsDaemon.Base.Except

/-!
# The size of the data message

`mSize` and the buffer are fixed by the constructor, while `clear` and
`addJSONSensorProvider` change the map they were computed from. The size stays
right in a run exactly as long as no operation changes the sum of the sizes
(`sizeInvariant_iff`).
-/

namespace RecsDaemon

open Base Json

namespace SensorSet

inductive Op where
  | addJSONSensorProvider (provider : JSONSensorProvider) (name : Text)
  | clear
  | getMessage (inp : Inputs)
  | getDescriptionPage (bufferSize : Nat) (page : UInt8)

section Ops

variable (deserialize : Deserialize) (pf : Platform)

/-- The set after an operation, `none` where it does not return. -/
def step (set : SensorSet) : Op → Option SensorSet
  | .addJSONSensorProvider provider name =>
    (addJSONSensorProvider deserialize pf provider name set).toOption.map Prod.fst
  | .clear => some set.clear
  | .getMessage inp => (set.getMessage deserialize inp).toOption
  | .getDescriptionPage bufferSize page =>
    (set.getDescriptionPage pf bufferSize page).toOption.map fun p =>
      { set with mKnownGroups := p.mKnownGroups }

/-- The size is that of the header and all sensors, the buffer has as many bytes, and every
`getMessage` that returns writes only inside it. -/
structure SizeInvariant (set : SensorSet) : Prop where
  size_eq : set.mSize = MonitoringDataHeader.sizeof + set.totalDataSize
  size_le : set.mSize ≤ set.allocated
  inside : ∀ inp beans ws, set.messageWrites deserialize inp = .ok (beans, ws) →
    ∀ w ∈ ws, w.1 + w.2.length ≤ set.allocated

/-- The operation leaves the sum of the sizes as it is: a provider's sensors of non-zero size all
have names in use, and only sets of total size zero are cleared. -/
def KeepsTotal (set : SensorSet) : Op → Prop
  | .addJSONSensorProvider provider name =>
    name ∈ set.mJSONSensorsParsers ∨
      ∀ parser map, JSONSensorsParser.getSensors deserialize pf provider name = .ok (parser, map) →
        newTotal Sensor.getMaxDataSize set.mSensorMap map = 0
  | .clear => set.totalDataSize = 0
  | .getMessage _ => True
  | .getDescriptionPage _ _ => True

end Ops

/-! ## The writes of getMessage -/

@[simp] theorem length_sensorBytes (inp : Inputs) (beans : Beans) (s : Sensor) :
    (sensorBytes inp beans s).length = s.getMaxDataSize := by
  unfold sensorBytes
  split
  · next id hs => cases hr : inp.reading id with
    | mk ret data => cases ret <;> simp
  · simp [SensorBean.getData]

theorem sensorWrites_eq_consecutive (inp : Inputs) (beans : Beans) (off : Nat) (ss : List Sensor) :
    sensorWrites inp beans off ss = Mem.consecutive off (ss.map (sensorBytes inp beans)) := by
  induction ss generalizing off with
  | nil => rfl
  | cons s ss ih => rw [sensorWrites, ih, List.map_cons, Mem.consecutive, length_sensorBytes]

theorem sensorWrites_inside {inp : Inputs} {beans : Beans} {off : Nat} {ss : List Sensor} :
    ∀ w ∈ sensorWrites inp beans off ss,
      w.1 + w.2.length ≤ off + (ss.map Sensor.getMaxDataSize).sum := by
  induction ss generalizing off with
  | nil => intro w hw; cases hw
  | cons s ss ih =>
    intro w hw
    rw [List.map_cons, List.sum_cons]
    rcases List.mem_cons.mp hw with rfl | hw
    · rw [length_sensorBytes]; omega
    · have := ih w hw; omega

theorem messageWrites_ok {deserialize : Deserialize} {inp : Inputs} {set : SensorSet}
    {beans : Beans} {ws : List (Nat × Bytes)}
    (h : set.messageWrites deserialize inp = .ok (beans, ws)) :
    set.updateAll deserialize inp = .ok beans ∧
      ws = set.headerWrites ++
        sensorWrites inp beans MonitoringDataHeader.sizeof (set.sensors.map Prod.snd) := by
  unfold messageWrites at h
  cases hu : set.updateAll deserialize inp with
  | error f => rw [hu] at h; cases h
  | ok b => rw [hu] at h; cases h; exact ⟨rfl, rfl⟩

theorem headerWrites_inside {set : SensorSet} :
    ∀ w ∈ set.headerWrites, w.1 + w.2.length ≤ MonitoringDataHeader.sizeof := by
  intro w hw
  simp only [headerWrites, List.mem_cons, List.not_mem_nil, or_false] at hw
  rcases hw with rfl | rfl <;> simp [MonitoringDataHeader.sizeof]

theorem messageWrites_inside {deserialize : Deserialize} {inp : Inputs} {set : SensorSet}
    {beans : Beans} {ws : List (Nat × Bytes)}
    (h : set.messageWrites deserialize inp = .ok (beans, ws)) :
    ∀ w ∈ ws, w.1 + w.2.length ≤ MonitoringDataHeader.sizeof + set.totalDataSize := by
  obtain ⟨-, rfl⟩ := messageWrites_ok h
  intro w hw
  rcases List.mem_append.mp hw with hw | hw
  · have := headerWrites_inside w hw; omega
  · have := sensorWrites_inside w hw
    rw [List.map_map] at this
    exact this

theorem sizeInvariant_of {deserialize : Deserialize} {set : SensorSet}
    (h1 : set.mSize = MonitoringDataHeader.sizeof + set.totalDataSize)
    (h2 : set.mSize ≤ set.allocated) : SizeInvariant deserialize set :=
  ⟨h1, h2, fun _ _ _ hw w hm => by have := messageWrites_inside hw w hm; omega⟩

/-! ## The operations -/

section Ops

variable {deserialize : Deserialize} {pf : Platform} {set set' : SensorSet}

theorem addJSONSensorProvider_cases {provider : JSONSensorProvider} {name : Text} {b : Bool}
    (h : addJSONSensorProvider deserialize pf provider name set = .ok (set', b)) :
    (name ∈ set.mJSONSensorsParsers ∧ set' = set ∧ b = false) ∨
      (name ∉ set.mJSONSensorsParsers ∧ b = true ∧ ∃ parser map,
        JSONSensorsParser.getSensors deserialize pf provider name = .ok (parser, map) ∧
        set' = { set with
          mSensorMap := insertRange set.mSensorMap map
          mJSONSensorsParsers := set.mJSONSensorsParsers.insert name parser }) := by
  unfold addJSONSensorProvider at h
  split at h
  · next hn => cases h; exact .inl ⟨hn, rfl, rfl⟩
  · next hn =>
    cases hg : JSONSensorsParser.getSensors deserialize pf provider name with
    | error f => rw [hg] at h; cases h
    | ok r =>
      rw [hg] at h
      cases h
      exact .inr ⟨hn, rfl, r.1, r.2, rfl, rfl⟩

theorem getMessage_cases {inp : Inputs} (h : set.getMessage deserialize inp = .ok set') :
    ∃ beans ws, set.messageWrites deserialize inp = .ok (beans, ws) ∧
      set' = { set with beans := beans, mData := set.mData.writeAll ws } := by
  unfold getMessage at h
  cases hw : set.messageWrites deserialize inp with
  | error f => rw [hw] at h; cases h
  | ok r => rw [hw] at h; cases h; exact ⟨r.1, r.2, rfl, rfl⟩

theorem totalDataSize_clear : set.clear.totalDataSize = 0 := by
  simp only [totalDataSize, clear, total]; rfl

theorem totalDataSize_insertRange {map : SensorMap} {parsers : Std.TreeMap Text JSONSensorsParser} :
    totalDataSize { set with
      mSensorMap := insertRange set.mSensorMap map, mJSONSensorsParsers := parsers } =
      set.totalDataSize + newTotal Sensor.getMaxDataSize set.mSensorMap map :=
  total_insertRange _ _ _

/-- Adding a provider keeps the invariant exactly if it adds no size. -/
theorem addJSONSensorProvider_sizeInvariant {provider : JSONSensorProvider} {name : Text} {b : Bool}
    (hI : SizeInvariant deserialize set)
    (h : addJSONSensorProvider deserialize pf provider name set = .ok (set', b)) :
    KeepsTotal deserialize pf set (.addJSONSensorProvider provider name) ↔
      SizeInvariant deserialize set' := by
  rcases addJSONSensorProvider_cases h with ⟨hn, rfl, -⟩ | ⟨hn, -, parser, map, hg, rfl⟩
  · exact ⟨fun _ => hI, fun _ => .inl hn⟩
  have h2 := hI.size_eq
  constructor
  · rintro (hn' | hk)
    · exact absurd hn' hn
    · refine sizeInvariant_of ?_ hI.size_le
      rw [totalDataSize_insertRange, hk parser map hg]
      exact h2
  · intro hI'
    refine .inr fun parser' map' hg' => ?_
    rw [hg, Except.ok.injEq, Prod.mk.injEq] at hg'
    obtain ⟨-, rfl⟩ := hg'
    have h1 := hI'.size_eq
    rw [totalDataSize_insertRange] at h1
    simp only at h1
    omega

/-- Clearing keeps the invariant exactly if there is nothing to clear. -/
theorem clear_sizeInvariant (hI : SizeInvariant deserialize set) :
    set.totalDataSize = 0 ↔ SizeInvariant deserialize set.clear := by
  have h2 := hI.size_eq
  have h3 : set.clear.mSize = set.mSize := rfl
  constructor
  · intro h0
    exact sizeInvariant_of (by rw [h3, totalDataSize_clear, h2, h0]) hI.size_le
  · intro hI'
    have h1 := hI'.size_eq
    rw [h3, totalDataSize_clear] at h1
    omega

/-- **One operation keeps the invariant exactly if it keeps the sum of the sizes.** -/
theorem step_sizeInvariant {e : Op} (hI : SizeInvariant deserialize set)
    (h : step deserialize pf set e = some set') :
    KeepsTotal deserialize pf set e ↔ SizeInvariant deserialize set' := by
  cases e with
  | addJSONSensorProvider provider name =>
    obtain ⟨⟨s, b⟩, hadd, rfl⟩ := Option.map_eq_some_iff.mp h
    exact addJSONSensorProvider_sizeInvariant hI (toOption_eq_some.mp hadd)
  | clear =>
    obtain rfl : set.clear = set' := Option.some.inj h
    exact clear_sizeInvariant hI
  | getMessage inp =>
    obtain ⟨beans, ws, -, rfl⟩ := getMessage_cases (toOption_eq_some.mp h :
      set.getMessage deserialize inp = .ok set')
    exact ⟨fun _ => sizeInvariant_of hI.size_eq hI.size_le, fun _ => trivial⟩
  | getDescriptionPage bufferSize page =>
    obtain ⟨p, -, rfl⟩ := Option.map_eq_some_iff.mp h
    exact ⟨fun _ => sizeInvariant_of hI.size_eq hI.size_le, fun _ => trivial⟩

theorem keepsTotal_of_none {e : Op} (h : step deserialize pf set e = none) :
    KeepsTotal deserialize pf set e := by
  cases e with
  | addJSONSensorProvider provider name =>
    by_cases hn : name ∈ set.mJSONSensorsParsers
    · exact .inl hn
    · refine .inr fun parser map hg => ?_
      have ha : addJSONSensorProvider deserialize pf provider name set = .ok ({ set with
          mSensorMap := insertRange set.mSensorMap map
          mJSONSensorsParsers := set.mJSONSensorsParsers.insert name parser }, true) := by
        simp only [addJSONSensorProvider, if_neg hn, hg]; rfl
      rw [step, ha] at h
      cases h
  | clear => cases h
  | getMessage inp => trivial
  | getDescriptionPage bufferSize page => trivial

theorem sizeInvariant_construct {cfg : SensorsConfig} {fac : Factories} {mData : Mem}
    {beans : Beans} (h : construct deserialize pf cfg fac mData beans = .ok set) :
    SizeInvariant deserialize set := by
  unfold construct at h
  split at h
  · cases h
  · cases hf : (splitComma cfg.jsonSensorProviders).foldlM (addPlugin deserialize pf fac)
      { empty mData beans with
        mSensorMap := (splitComma cfg.sensorProviders).foldl (addSensorProvider fac)
          ((List.range cfg.count.toNat).foldl (addManualSensor cfg fac) ∅) } with
    | error f => simp only [hf] at h; cases h
    | ok s =>
      simp only [hf] at h
      cases h
      exact sizeInvariant_of rfl (Nat.le_refl _)

/-- **The size stays right in a run exactly as long as every operation keeps the sum of the
sizes.** -/
theorem sizeInvariant_iff {cfg : SensorsConfig} {fac : Factories} {mData : Mem} {beans : Beans}
    (h : construct deserialize pf cfg fac mData beans = .ok set) (es : List Op) :
    Always (step deserialize pf) (SizeInvariant deserialize) set es ↔
      Along (step deserialize pf) (KeepsTotal deserialize pf) set es :=
  always_iff_along (fun _ _ _ hI hs => step_sizeInvariant hI hs)
    (fun _ _ hs => keepsTotal_of_none hs) (sizeInvariant_construct h)

end Ops

open JSONSensorsParser in
/-- A group whose only sensor has the name of a manual one, added twice. -/
theorem sizeInvariant_iff_sample :
    ∃ set, constructSample sampleDeserialize 20 = .ok set ∧ ascii "t" ∈ set.mSensorMap ∧
      Always (step sampleDeserialize .x86) (SizeInvariant sampleDeserialize) set
        [.addJSONSensorProvider (.static sampleDescription []) (ascii "g"), .getMessage .zero,
          .addJSONSensorProvider (.static sampleDescription []) (ascii "g"),
          .getDescriptionPage 81 1] := by
  refine ⟨_, rfl, by decide, (sizeInvariant_iff (show construct sampleDeserialize .x86 (.sample 20)
    .sample (fun _ => 0) (fun _ _ => 0) = .ok _ from rfl) _).mpr ?_⟩
  refine ⟨.inr fun parser map hg => ?_, fun s hs => ⟨trivial, fun s' hs' => ⟨.inl ?_, fun _ _ =>
    ⟨trivial, fun _ _ => trivial⟩⟩⟩⟩
  · cases hg
    decide
  · obtain rfl : _ = s := Option.some.inj hs
    obtain rfl : _ = s' := Option.some.inj hs'
    exact Std.TreeMap.mem_insert_self

open JSONSensorsParser in
/-- A group added to a constructed set: one byte more than the buffer has. -/
theorem addJSONSensorProvider_breaks_size :
    ∃ set, constructSample sampleDeserialize 2 = .ok set ∧
      ¬ Always (step sampleDeserialize .x86) (SizeInvariant sampleDeserialize) set
        [.addJSONSensorProvider (.static sampleDescription []) (ascii "g")] := by
  refine ⟨_, rfl, fun h => ?_⟩
  have hI := (h _ _ (List.prefix_refl _) rfl).size_eq
  exact absurd hI (by decide)

end SensorSet

end RecsDaemon
