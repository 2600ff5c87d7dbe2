import RecsDaemon.SensorSet.Groups

/-!
# The names on the wire

The name field of an entry has 29 bytes, and `strncpy` stops at a zero. The
manual sensors and those of JSON providers are checked for the length of their
names, those of the sensor providers are not (`namesTrue_iff`).
-/

namespace RecsDaemon

open Base Json

/-- The name a reader finds in the field: up to the first zero, if there is one. -/
def SensorDescription.nameText (e : SensorDescription) : Text := cstr e.name.1

theorem JSONSensorsParser.length_of_entries {v : Value} {e : Text × SensorDataType × Nat}
    (h : e ∈ entries v) : e.1.length ≤ sensorNameLength := by
  unfold entries at h
  split at h
  · obtain ⟨w, -, hw⟩ := List.mem_filterMap.mp h
    unfold described at hw
    split at hw
    · split at hw
      · split at hw
        · next hl =>
          obtain ⟨d, -, rfl⟩ := Option.map_eq_some_iff.mp hw
          rw [Bool.and_eq_true, decide_eq_true_eq] at hl
          exact hl.1
        · cases hw
      · cases hw
    · cases hw
  · cases h

namespace SensorSet

/-! ## The field -/

/-- A text the field holds as a whole. -/
def FitsField (name : Text) : Prop := name.length ≤ sensorNameLength ∧ (0 : UInt8) ∉ name

instance (name : Text) : Decidable (FitsField name) :=
  inferInstanceAs (Decidable (_ ∧ _))

/-- The field spells a name exactly if the name fits in it. -/
theorem nameText_iff (name : Text) (s : Sensor) (id : UInt8) :
    (sensorDescription name s id).nameText = name ↔ FitsField name := by
  have he : (sensorDescription name s id).nameText = (cstr name).take sensorNameLength := by
    unfold SensorDescription.nameText sensorDescription
    rw [cstr_strncpy, cstr_of_no_zero (zero_notMem_cstr name)]
  rw [he]
  constructor
  · intro h
    refine ⟨?_, fun h0 => ?_⟩
    · rw [← h, List.length_take]
      exact Nat.min_le_left _ _
    · rw [← h] at h0
      exact zero_notMem_cstr name (List.mem_of_mem_take h0)
  · rintro ⟨hl, h0⟩
    rw [cstr_of_no_zero h0, List.take_of_length_le hl]

/-! ## The sensors a page lists -/

/-- The number of entries on a page, none where the call does not return. -/
def sensorEntries (pf : Platform) (bufferSize : Nat) (set : SensorSet) (page : UInt8) : Nat :=
  ((SensorSet.sensorsOnPage (set.mSensorMap.size % 2 ^ 16) (sensorsPerPage pf bufferSize) page
    (numberOfPages pf bufferSize set)).toOption.map UInt8.toNat).getD 0

/-- The sensors the loop of `getDescriptionPage` goes through. -/
def listedOn (pf : Platform) (bufferSize : Nat) (set : SensorSet) (page : UInt8) :
    List (Text × Sensor) :=
  (set.sensors.drop (startingSensor (sensorsPerPage pf bufferSize) page)).take
    (sensorEntries pf bufferSize set page)

/-- The sensors all description pages list, in order. -/
def listed (pf : Platform) (bufferSize : Nat) (set : SensorSet) : List (Text × Sensor) :=
  (pageNumbers (numberOfPages pf bufferSize set).toNat).flatMap (listedOn pf bufferSize set)

section Pages

variable {pf : Platform} {set : SensorSet} {bufferSize : Nat}

theorem sensorEntries_eq {page onPage : UInt8}
    (h : SensorSet.sensorsOnPage (set.mSensorMap.size % 2 ^ 16) (sensorsPerPage pf bufferSize) page
      (numberOfPages pf bufferSize set) = .ok onPage) :
    sensorEntries pf bufferSize set page = onPage.toNat := by
  unfold sensorEntries
  rw [h]
  rfl

theorem bytes_of_ok {page : UInt8} {p : Page}
    (h : set.getDescriptionPage pf bufferSize page = .ok p) : ∃ hdr,
      hdr.sensorEntries.toNat = (listedOn pf bufferSize set page).length ∧
      ∀ m, p.bytes m = MonitoringDescriptionHeader.bytes hdr ++
        ((describe set.mKnownGroups (listedOn pf bufferSize set page)).2.map
          SensorDescription.bytes).flatten := by
  unfold getDescriptionPage at h
  obtain ⟨onPage, ho, h⟩ := bind_eq_ok.mp h
  dsimp only at h
  split at h
  · cases h
  next hend =>
  have hcount := sensorEntries_eq ho
  have hlisted : listedOn pf bufferSize set page =
      (set.sensors.drop (startingSensor (sensorsPerPage pf bufferSize) page)).take
        onPage.toNat := by
    unfold listedOn
    rw [hcount]
  have hlen : (listedOn pf bufferSize set page).length = onPage.toNat := by
    rw [hlisted, List.length_take, List.length_drop, length_sensors]
    omega
  rw [← hlisted] at h
  clear hlisted hcount
  -- nothing below looks into the list
  generalize listedOn pf bufferSize set page = ss at *
  cases h
  refine ⟨descriptionHeader (MonitoringDescriptionHeader.sizeof +
      onPage.toNat * SensorDescription.sizeof) page
    (maxPages pf (set.mSensorMap.size % 2 ^ 16) (sensorsPerPage pf bufferSize)) onPage
    (startingSensor (sensorsPerPage pf bufferSize) page), hlen.symm, fun m => ?_⟩
  have hel := length_describe set.mKnownGroups ss
  rw [hlen] at hel
  have hb := read_header_entries (descriptionHeader (MonitoringDescriptionHeader.sizeof +
      onPage.toNat * SensorDescription.sizeof) page
    (maxPages pf (set.mSensorMap.size % 2 ^ 16) (sensorsPerPage pf bufferSize)) onPage
    (startingSensor (sensorsPerPage pf bufferSize) page)) (describe set.mKnownGroups ss).2 m
  rw [hel] at hb
  exact hb

/-- A reader finds the entries of the listed sensors, whatever the buffer held. -/
theorem readPage_of_ok {page : UInt8} {p : Page}
    (h : set.getDescriptionPage pf bufferSize page = .ok p) : ∃ hdr es,
      es.map ungrouped = ((listedOn pf bufferSize set page).map fun ns =>
        sensorDescription ns.1 ns.2 0) ∧
      ∀ m, readPage (p.bytes m) = some (hdr, es) := by
  obtain ⟨hdr, hn, hb⟩ := bytes_of_ok h
  refine ⟨hdr, _, ungrouped_describe set.mKnownGroups _, fun m => ?_⟩
  generalize hes : (describe set.mKnownGroups (listedOn pf bufferSize set page)).2 = es at hb
  have hel : hdr.sensorEntries.toNat = es.length := by rw [← hes, length_describe, hn]
  rw [hb, readPage_bytes hel]

/-- The reader of all pages finds the entries of the listed sensors, in order. -/
theorem describePages_read {ps : List UInt8} {pages : List Page}
    (h : describePages pf bufferSize ps set = .ok pages) :
    ∃ decoded : List (MonitoringDescriptionHeader × List SensorDescription),
      (∀ bufs : Nat → Mem,
        (pages.mapIdx fun i p => readPage (p.bytes (bufs i))) = decoded.map some) ∧
      (decoded.flatMap Prod.snd).map ungrouped =
        (ps.flatMap (listedOn pf bufferSize set)).map fun ns => sensorDescription ns.1 ns.2 0 := by
  induction ps generalizing set pages with
  | nil => cases h; exact ⟨[], fun _ => rfl, rfl⟩
  | cons page ps ih =>
    obtain ⟨p, hp, h⟩ := bind_eq_ok.mp h
    obtain ⟨rest, hrest, h⟩ := bind_eq_ok.mp h
    cases h
    obtain ⟨decoded, hread, hentries⟩ := ih hrest
    obtain ⟨hdr, es, hes, hpage⟩ := readPage_of_ok hp
    refine ⟨(hdr, es) :: decoded, fun bufs => ?_, ?_⟩
    · rw [List.mapIdx_cons, hpage, hread fun i => bufs (i + 1), List.map_cons]
    · rw [List.flatMap_cons, List.flatMap_cons, List.map_append, List.map_append, hes, hentries]
      rfl

theorem sensorEntries_le (pf : Platform) (bufferSize : Nat) (set : SensorSet) (page : UInt8) :
    sensorEntries pf bufferSize set page ≤ (sensorsPerPage pf bufferSize).toNat := by
  unfold sensorEntries
  cases h : SensorSet.sensorsOnPage (set.mSensorMap.size % 2 ^ 16) (sensorsPerPage pf bufferSize)
    page (numberOfPages pf bufferSize set) with
  | error e => exact Nat.zero_le _
  | ok onPage => exact UInt8.le_iff_toNat_le.mp (sensorsOnPage_le h)

theorem listed_sublist (pf : Platform) (bufferSize : Nat) (set : SensorSet) :
    (listed pf bufferSize set).Sublist set.sensors := by
  have hn : (numberOfPages pf bufferSize set).toNat ≤ 255 :=
    Nat.le_of_lt_succ (numberOfPages pf bufferSize set).toNat_lt
  unfold listed pageNumbers
  generalize (numberOfPages pf bufferSize set).toNat = n at hn
  have hpages : ((List.range n).map fun i => UInt8.ofNat (i + 1)).flatMap
      (listedOn pf bufferSize set) = (List.range n).flatMap fun i =>
        (set.sensors.drop (i * (sensorsPerPage pf bufferSize).toNat)).take
          (sensorEntries pf bufferSize set (UInt8.ofNat (i + 1))) := by
    rw [List.flatMap_map]
    apply List.flatMap_congr
    intro i hi
    have hlt := List.mem_range.mp hi
    unfold listedOn
    rw [startingSensor_eq _ (by omega)]
  rw [hpages]
  exact pages_sublist fun i _ => sensorEntries_le pf bufferSize set _

/-- What a reader of the pages finds in the name fields: different names, and each the one its
sensor is stored under. -/
def NamesTrue (pf : Platform) (bufferSize : Nat) (set : SensorSet) (pages : List Page) : Prop :=
  ∀ bufs : Nat → Mem, ∃ decoded : List (MonitoringDescriptionHeader × List SensorDescription),
    (pages.mapIdx fun i p => readPage (p.bytes (bufs i))) = decoded.map some ∧
    ((decoded.flatMap Prod.snd).map SensorDescription.nameText).Nodup ∧
    (decoded.flatMap Prod.snd).map SensorDescription.nameText =
      (listed pf bufferSize set).map Prod.fst

theorem nodup_listed (pf : Platform) (bufferSize : Nat) (set : SensorSet) :
    ((listed pf bufferSize set).map Prod.fst).Nodup := by
  have hkeys : (set.sensors.map Prod.fst).Nodup :=
    List.pairwise_map.mpr (Std.TreeMap.distinct_keys_toList.imp fun h e => h (by
      rw [e]; exact Std.ReflCmp.compare_self))
  exact hkeys.sublist ((listed_sublist pf bufferSize set).map Prod.fst)

/-- The names are true exactly if the field holds each of them. -/
theorem namesTrue_iff_fits {pages : List Page}
    (h : describePages pf bufferSize (pageNumbers (numberOfPages pf bufferSize set).toNat) set =
      .ok pages) :
    NamesTrue pf bufferSize set pages ↔ ∀ ns ∈ listed pf bufferSize set, FitsField ns.1 := by
  obtain ⟨decoded, hread, hentries⟩ := describePages_read h
  have hnames : (decoded.flatMap Prod.snd).map SensorDescription.nameText =
      (listed pf bufferSize set).map fun ns => (sensorDescription ns.1 ns.2 0).nameText := by
    have hm := congrArg (List.map SensorDescription.nameText) hentries
    rw [List.map_map, List.map_map] at hm
    exact hm
  have htrue : (decoded.flatMap Prod.snd).map SensorDescription.nameText =
      (listed pf bufferSize set).map Prod.fst ↔
        ∀ ns ∈ listed pf bufferSize set, FitsField ns.1 := by
    rw [hnames, List.map_inj_left]
    exact forall₂_congr fun ns _ => nameText_iff ns.1 ns.2 0
  constructor
  · intro hall
    obtain ⟨decoded', hread', -, hname⟩ := hall fun _ _ => 0
    rw [hread] at hread'
    rw [(List.map_injective_iff.mpr (Option.some_injective _)) hread'] at htrue
    exact htrue.mp hname
  · intro hfits bufs
    have hname := htrue.mpr hfits
    exact ⟨decoded, hread bufs, by rw [hname]; exact nodup_listed pf bufferSize set, hname⟩

end Pages

/-! ## Where the names come from -/

/-- A name some configured sensor provider has a sensor for. -/
def Provided (cfg : SensorsConfig) (fac : Factories) (name : Text) : Prop :=
  ∃ pluginName ∈ splitComma cfg.sensorProviders, ∃ map : Std.TreeMap Text PluginSensor,
    fac.createSensorProvider pluginName = some map ∧ name ∈ map

/-- Every name was checked for its length, or comes from a sensor provider. -/
def Checked (cfg : SensorsConfig) (fac : Factories) (m : SensorMap) : Prop :=
  ∀ name ∈ m, name.length ≤ sensorNameLength ∨ Provided cfg fac name

section Origin

variable {deserialize : Deserialize} {pf : Platform} {cfg : SensorsConfig} {fac : Factories}
  {m : SensorMap} {set set' : SensorSet}

theorem checked_addManualSensor (i : Nat) (h : Checked cfg fac m) :
    Checked cfg fac (addManualSensor cfg fac m i) := by
  unfold addManualSensor
  dsimp only
  split
  · exact h
  split
  · exact h
  next hl =>
  split
  · exact h
  split
  · exact h
  · intro name hn
    rcases Std.TreeMap.mem_insert.mp hn with he | hm
    · obtain rfl : cfg.sensorName i = name := Std.LawfulEqCmp.eq_of_compare he
      exact .inl (Nat.not_lt.mp hl)
    · exact h name hm

theorem checked_addSensorProvider {pluginName : Text}
    (hp : pluginName ∈ splitComma cfg.sensorProviders) (h : Checked cfg fac m) :
    Checked cfg fac (addSensorProvider fac m pluginName) := by
  unfold addSensorProvider
  split
  · exact h
  next map hmap =>
  apply List.foldlRecOn _ _ h
  intro b hb a ha name hn
  rcases Std.TreeMap.mem_insertIfNew.mp hn with he | hm
  · obtain rfl : a.1 = name := Std.LawfulEqCmp.eq_of_compare he
    exact .inr ⟨pluginName, hp, map, hmap, mem_of_mem_toList ha⟩
  · exact hb name hm

theorem length_of_getSensors {provider : JSONSensorProvider} {parserName : Text}
    {parser : JSONSensorsParser} {map : SensorMap}
    (h : JSONSensorsParser.getSensors deserialize pf provider parserName = .ok (parser, map))
    {name : Text} (hn : name ∈ map) : name.length ≤ sensorNameLength := by
  obtain ⟨ordered, ho, -, -⟩ := JSONSensorsParser.getSensors_ok h
  obtain ⟨v, hv, -⟩ := bind_eq_ok.mp ho
  obtain ⟨-, ordered, -, rfl, hsig⟩ := JSONSensorsParser.getSensors_entries h hv
  obtain ⟨s, hs⟩ := Option.isSome_iff_exists.mp (Std.TreeMap.isSome_getElem?_iff_mem.mpr hn)
  obtain ⟨k, hk⟩ := mSensors_ordered hs
  have hmem : JSONSensorsParser.signature (name, s) ∈ JSONSensorsParser.entries v := by
    rw [← hsig]
    exact List.mem_map_of_mem (List.mem_of_getElem? hk)
  exact JSONSensorsParser.length_of_entries hmem

theorem checked_addJSONSensorProvider {provider : JSONSensorProvider} {parserName : Text} {b : Bool}
    (h : addJSONSensorProvider deserialize pf provider parserName set = .ok (set', b))
    (hc : Checked cfg fac set.mSensorMap) : Checked cfg fac set'.mSensorMap := by
  rcases addJSONSensorProvider_cases h with ⟨-, rfl, -⟩ | ⟨-, -, parser, map, hg, rfl⟩
  · exact hc
  · intro name hn
    rcases mem_insertRange.mp hn with hm | hm
    · exact hc name hm
    · exact .inl (length_of_getSensors hg hm)

theorem checked_construct {mData : Mem} {beans : Beans}
    (h : construct deserialize pf cfg fac mData beans = .ok set) :
    Checked cfg fac set.mSensorMap := by
  unfold construct at h
  split at h
  · cases h
  obtain ⟨s, hf, h⟩ := bind_eq_ok.mp h
  cases h
  refine foldlM_induct (I := fun t => Checked cfg fac t.mSensorMap) (fun t c t' _ ht hstep => ?_)
    ?_ hf
  · unfold addPlugin at hstep
    split at hstep
    · cases hstep; exact ht
    · obtain ⟨⟨u, r⟩, ha, hstep⟩ := bind_eq_ok.mp hstep
      cases hstep
      exact checked_addJSONSensorProvider ha ht
  · refine List.foldlRecOn _ _ ?_ fun _ hb a ha => checked_addSensorProvider ha hb
    refine List.foldlRecOn _ _ ?_ fun _ hb a _ => checked_addManualSensor a hb
    intro name hn
    exact absurd hn Std.TreeMap.not_mem_emptyc

theorem checked_step {op : Op} (hc : Checked cfg fac set.mSensorMap)
    (h : step deserialize pf set op = some set') : Checked cfg fac set'.mSensorMap := by
  cases op with
  | addJSONSensorProvider provider name =>
    obtain ⟨⟨s, b⟩, hadd, rfl⟩ := Option.map_eq_some_iff.mp h
    exact checked_addJSONSensorProvider (toOption_eq_some.mp hadd) hc
  | clear =>
    obtain rfl : set.clear = set' := Option.some.inj h
    exact fun name hn => absurd hn Std.TreeMap.not_mem_emptyc
  | getMessage inp =>
    obtain ⟨beans, ws, -, rfl⟩ := getMessage_cases (toOption_eq_some.mp h :
      set.getMessage deserialize inp = .ok set')
    exact hc
  | getDescriptionPage bufferSize page =>
    obtain ⟨p, -, rfl⟩ := Option.map_eq_some_iff.mp h
    exact hc

theorem checked_becomes (h : Becomes deserialize pf set set')
    (hc : Checked cfg fac set.mSensorMap) : Checked cfg fac set'.mSensorMap := by
  induction h with
  | refl => exact hc
  | step _ hs ih => exact checked_step ih hs
  | update name data _ ih =>
    rw [TelnetServer.updateSensorsData_mSensorMap]
    exact ih

/-- **The names on the wire are true exactly if no listed name has a zero byte and the sensor
providers give no name that is too long**: for a set the constructor made, after any operations and
commands. -/
theorem namesTrue_iff {mData : Mem} {beans : Beans} {bufferSize : Nat} {pages : List Page}
    (hc : construct deserialize pf cfg fac mData beans = .ok set)
    (hr : Becomes deserialize pf set set')
    (hp : describePages pf bufferSize (pageNumbers (numberOfPages pf bufferSize set').toNat) set' =
      .ok pages) :
    NamesTrue pf bufferSize set' pages ↔ ∀ ns ∈ listed pf bufferSize set',
      (0 : UInt8) ∉ ns.1 ∧ (Provided cfg fac ns.1 → ns.1.length ≤ sensorNameLength) := by
  have hchecked : Checked cfg fac set'.mSensorMap := checked_becomes hr (checked_construct hc)
  rw [namesTrue_iff_fits hp]
  apply forall₂_congr
  intro ns hns
  have hmem : ns.1 ∈ set'.mSensorMap :=
    mem_of_mem_toList ((listed_sublist pf bufferSize set').subset hns)
  constructor
  · rintro ⟨hl, h0⟩
    exact ⟨h0, fun _ => hl⟩
  · rintro ⟨h0, hprov⟩
    exact ⟨(hchecked ns.1 hmem).elim id hprov, h0⟩

end Origin

/-- The names of two manual sensors, on two pages. -/
theorem namesTrue_iff_sample :
    ∃ set pages, constructSample (fun _ => .ok .null) 2 = .ok set ∧
      describePages .x86 81 (pageNumbers (numberOfPages .x86 81 set).toNat) set = .ok pages ∧
      NamesTrue .x86 81 set pages := by
  refine ⟨_, _, rfl, rfl, ?_⟩
  refine (namesTrue_iff (show construct (fun _ => .ok .null) .x86 (.sample 2) .sample
    (fun _ => 0) (fun _ _ => 0) = .ok _ from rfl) .refl rfl).mpr ?_
  intro ns hns
  have hname : ns.1 ∈ [ascii "a", ascii "b"] := List.mem_map_of_mem (f := Prod.fst) hns
  refine ⟨?_, ?_⟩
  · revert hname
    generalize ns.1 = name
    revert name
    decide
  · rintro ⟨pluginName, hp, -⟩
    cases hp

def byteSensor (id : Nat) : PluginSensor :=
  ⟨id, .u8, 1, .dimensionless, false, false, .zero, .zero, .zero, .zero, 1, [], .textual⟩

def longName (c : UInt8) : Text := List.replicate 29 97 ++ [c]

def longNamesConfig : SensorsConfig :=
  { SensorsConfig.sample 0 with sensorProviders := ascii "q" }

/-- A sensor provider with two names that differ in the last byte. -/
def longNames : Factories :=
  { Factories.sample with
    createSensorProvider := fun _ =>
      some ((Std.TreeMap.insert ∅ (longName 98) (byteSensor 0)).insert (longName 99) (byteSensor 1)) }

/-- Both sensors of the provider have the same name on the page. -/
theorem long_names_collide :
    ∃ set pages, construct (fun _ => .ok .null) .x86 longNamesConfig longNames (fun _ => 0)
        (fun _ _ => 0) = .ok set ∧
      describePages .x86 153 (pageNumbers (numberOfPages .x86 153 set).toNat) set = .ok pages ∧
      ¬ NamesTrue .x86 153 set pages := by
  refine ⟨_, _, rfl, rfl, fun h => ?_⟩
  have hfits := (namesTrue_iff_fits rfl).mp h (longName 98, (byteSensor 0).sensor)
    (List.mem_cons_self : _ ∈ [_, (longName 99, (byteSensor 1).sensor)])
  exact absurd hfits.1 (by decide)

end SensorSet

end RecsDaemon
