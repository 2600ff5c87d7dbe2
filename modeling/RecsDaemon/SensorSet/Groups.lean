import RecsDaemon.TelnetServer
import RecsDaemon.JSONSensorsParser.Kinds
import RecsDaemon.SensorSet.Pages

/-!
# Sensor groups

`addJSONSensorProvider` fills three containers: the parser's ordered vector,
the parser's map and the map of the set. A sensor whose name is taken is in the
first one only, and one behind the bytes the constructor counted is not in the
message (`losesNothing_iff`).
-/

namespace RecsDaemon

open Base Json

namespace SensorSet

/-! ## Reachable sets -/

/-- What the operations and the command line make of a set. -/
inductive Becomes (deserialize : Deserialize) (pf : Platform) (set : SensorSet) :
    SensorSet → Prop where
  | refl : Becomes deserialize pf set set
  | step {set' set'' : SensorSet} {op : Op} (h : Becomes deserialize pf set set')
      (hs : step deserialize pf set' op = some set'') : Becomes deserialize pf set set''
  | update {set' : SensorSet} (name data : Text) (h : Becomes deserialize pf set set') :
      Becomes deserialize pf set (TelnetServer.updateSensorsData name data set')

/-- The sets a program run can have: those of the constructor, and what becomes of them. -/
def Reachable (deserialize : Deserialize) (pf : Platform) (set : SensorSet) : Prop :=
  ∃ cfg fac mData beans start, construct deserialize pf cfg fac mData beans = .ok start ∧
    Becomes deserialize pf start set

section Reachable

variable {deserialize : Deserialize} {pf : Platform} {set set' : SensorSet}

theorem Reachable.construct {cfg : SensorsConfig} {fac : Factories} {mData : Mem} {beans : Beans}
    (h : construct deserialize pf cfg fac mData beans = .ok set) : Reachable deserialize pf set :=
  ⟨_, _, _, _, _, h, .refl⟩

theorem Reachable.step {op : Op} (h : Reachable deserialize pf set)
    (hs : step deserialize pf set op = some set') : Reachable deserialize pf set' := by
  obtain ⟨_, _, _, _, _, hc, hb⟩ := h
  exact ⟨_, _, _, _, _, hc, hb.step hs⟩

end Reachable

/-- Each bean in the map is one of a parser the set has, and each parser has its own beans. -/
structure Owned (set : SensorSet) : Prop where
  sensors : ∀ (n : Text) s p k, set.mSensorMap[n]? = some s → s.source = .bean p k →
    p ∈ set.mJSONSensorsParsers
  parsers : ∀ (p : Text) parser, set.mJSONSensorsParsers[p]? = some parser →
    ∀ (k : Nat) s, parser.mSensorsOrdered[k]? = some s → s.source = .bean p k

section Owned

variable {deserialize : Deserialize} {pf : Platform} {set set' : SensorSet}

/-- No sensor of the map is a bean. -/
def Plugins (m : SensorMap) : Prop := ∀ (n : Text) s, m[n]? = some s → ∃ id, s.source = .plugin id

theorem plugins_insertIfNew {m : SensorMap} {n : Text} {p : PluginSensor} (h : Plugins m) :
    Plugins (m.insertIfNew n p.sensor) := by
  intro a s hs
  rw [Std.TreeMap.getElem?_insertIfNew] at hs
  split at hs
  · cases hs; exact ⟨p.id, rfl⟩
  · exact h a s hs

theorem plugins_addManualSensor {cfg : SensorsConfig} {fac : Factories} {m : SensorMap} (i : Nat)
    (h : Plugins m) : Plugins (addManualSensor cfg fac m i) := by
  unfold addManualSensor
  dsimp only
  split
  · exact h
  split
  · exact h
  split
  · exact h
  split
  · exact h
  · next p _ =>
    intro a s hs
    rw [Std.TreeMap.getElem?_insert] at hs
    split at hs
    · cases hs; exact ⟨p.id, rfl⟩
    · exact h a s hs

theorem plugins_addSensorProvider {fac : Factories} {m : SensorMap} (n : Text) (h : Plugins m) :
    Plugins (addSensorProvider fac m n) := by
  unfold addSensorProvider
  split
  · exact h
  · exact List.foldlRecOn _ _ h fun b hb a _ => @plugins_insertIfNew b a.1 a.2 hb

theorem source_of_getSensors {provider : JSONSensorProvider} {name : Text}
    {parser : JSONSensorsParser} {map : SensorMap}
    (h : JSONSensorsParser.getSensors deserialize pf provider name = .ok (parser, map)) {k : Nat}
    {s : Sensor} (hs : parser.mSensorsOrdered[k]? = some s) : s.source = .bean name k := by
  obtain ⟨ordered, ho, rfl, -⟩ := JSONSensorsParser.getSensors_ok h
  obtain ⟨p, hp, rfl⟩ := Option.map_eq_some_iff.mp (List.getElem?_map .. ▸ hs)
  exact ((JSONSensorsParser.parseDescription_spec ho).1 k p hp).1

theorem mSensors_ordered {ordered : List (Text × Sensor)} {n : Text} {s : Sensor}
    (h : (JSONSensorsParser.mSensors ordered)[n]? = some s) :
    ∃ k : Nat, ordered[k]? = some (n, s) := by
  rw [JSONSensorsParser.mSensors, getElem?_foldl_insertIfNew, Std.TreeMap.getElem?_emptyc,
    Option.none_or] at h
  obtain ⟨p, hp, rfl⟩ := Option.map_eq_some_iff.mp h
  have hn : p.1 = n := by simpa using List.find?_some hp
  obtain ⟨k, hk⟩ := List.mem_iff_getElem?.mp (List.mem_of_find?_eq_some hp)
  exact ⟨k, by rw [hk, ← hn]⟩

theorem owned_addJSONSensorProvider {provider : JSONSensorProvider} {name : Text} {b : Bool}
    (hO : Owned set)
    (h : addJSONSensorProvider deserialize pf provider name set = .ok (set', b)) : Owned set' := by
  rcases addJSONSensorProvider_cases h with ⟨-, rfl, -⟩ | ⟨-, -, parser, map, hg, rfl⟩
  · exact hO
  refine ⟨fun n s p k hs hsrc => ?_, fun p parser' hp k s hs => ?_⟩
  · rw [getElem?_insertRange] at hs
    rw [Std.TreeMap.mem_insert]
    cases hold : set.mSensorMap[n]? with
    | some t =>
      rw [hold, Option.some_or, Option.some.injEq] at hs
      exact .inr (hO.sensors n t p k hold (by rw [hs]; exact hsrc))
    | none =>
      rw [hold, Option.none_or] at hs
      obtain ⟨ordered, ho, rfl, rfl⟩ := JSONSensorsParser.getSensors_ok hg
      obtain ⟨i, hi⟩ := mSensors_ordered hs
      have hbean := source_of_getSensors hg (k := i) (s := s) (by rw [List.getElem?_map, hi]; rfl)
      rw [hsrc, Source.bean.injEq] at hbean
      rw [hbean.1]
      exact .inl Std.ReflCmp.compare_self
  · rw [Std.TreeMap.getElem?_insert] at hp
    split at hp
    · next hname =>
      have hname : name = p := Std.LawfulEqCmp.eq_of_compare hname
      subst hname
      cases hp
      exact source_of_getSensors hg hs
    · exact hO.parsers p parser' hp k s hs

theorem owned_construct {cfg : SensorsConfig} {fac : Factories} {mData : Mem} {beans : Beans}
    (h : construct deserialize pf cfg fac mData beans = .ok set) : Owned set := by
  unfold construct at h
  split at h
  · cases h
  · obtain ⟨s, hf, h⟩ := bind_eq_ok.mp h
    cases h
    have hplugins : Plugins ((splitComma cfg.sensorProviders).foldl (addSensorProvider fac)
        ((List.range cfg.count.toNat).foldl (addManualSensor cfg fac) ∅)) := by
      refine List.foldlRecOn _ _ ?_ fun _ hb a _ => plugins_addSensorProvider a hb
      refine List.foldlRecOn _ _ ?_ fun _ hb a _ => plugins_addManualSensor a hb
      intro n s hs
      rw [Std.TreeMap.getElem?_emptyc] at hs
      cases hs
    have hstart : Owned { empty mData beans with
        mSensorMap := (splitComma cfg.sensorProviders).foldl (addSensorProvider fac)
          ((List.range cfg.count.toNat).foldl (addManualSensor cfg fac) ∅) } := by
      refine ⟨fun n s p k hs hsrc => ?_, fun p parser hp => ?_⟩
      · obtain ⟨id, hid⟩ := hplugins n s hs
        rw [hid] at hsrc; cases hsrc
      · rw [empty, Std.TreeMap.getElem?_emptyc] at hp
        cases hp
    have hO : Owned s := by
      refine foldlM_induct (fun b c b' _ hb hstep => ?_) hstart hf
      unfold addPlugin at hstep
      split at hstep
      · cases hstep; exact hb
      · obtain ⟨⟨t, r⟩, ha, hstep⟩ := bind_eq_ok.mp hstep
        cases hstep
        exact owned_addJSONSensorProvider hb ha
    exact ⟨hO.sensors, hO.parsers⟩

theorem owned_step {op : Op} (hO : Owned set) (h : step deserialize pf set op = some set') :
    Owned set' := by
  cases op with
  | addJSONSensorProvider provider name =>
    obtain ⟨⟨s, b⟩, hadd, rfl⟩ := Option.map_eq_some_iff.mp h
    exact owned_addJSONSensorProvider hO (toOption_eq_some.mp hadd)
  | clear =>
    obtain rfl : set.clear = set' := Option.some.inj h
    refine ⟨fun n s p k hs _ => ?_, fun p parser hp => ?_⟩
    · rw [clear, Std.TreeMap.getElem?_emptyc] at hs; cases hs
    · rw [clear, Std.TreeMap.getElem?_emptyc] at hp; cases hp
  | getMessage inp =>
    obtain ⟨beans, ws, -, rfl⟩ := getMessage_cases (toOption_eq_some.mp h :
      set.getMessage deserialize inp = .ok set')
    exact ⟨hO.sensors, hO.parsers⟩
  | getDescriptionPage bufferSize page =>
    obtain ⟨p, -, rfl⟩ := Option.map_eq_some_iff.mp h
    exact ⟨hO.sensors, hO.parsers⟩

theorem owned_updateSensorsData (name data : Text) (hO : Owned set) :
    Owned (TelnetServer.updateSensorsData name data set) := by
  unfold TelnetServer.updateSensorsData
  split
  · refine ⟨fun n s p k hs hsrc => ?_, fun p parser' hp => ?_⟩
    · exact Std.TreeMap.mem_modify.mpr (hO.sensors n s p k hs hsrc)
    · rw [Std.TreeMap.getElem?_modify] at hp
      split at hp
      · next hname =>
        obtain ⟨parser, hn, rfl⟩ := Option.map_eq_some_iff.mp hp
        have hname : name = p := Std.LawfulEqCmp.eq_of_compare hname
        exact hO.parsers p parser (hname ▸ hn)
      · exact hO.parsers p parser' hp
  · exact hO

theorem Reachable.owned (h : Reachable deserialize pf set) : Owned set := by
  obtain ⟨_, _, _, _, _, hc, hb⟩ := h
  induction hb with
  | refl => exact owned_construct hc
  | step _ hs ih => exact owned_step ih hs
  | update name data _ ih => exact owned_updateSensorsData name data ih

end Owned

/-! ## Updates of all groups -/

section Update

variable {deserialize : Deserialize} {set set' : SensorSet} {inp : Inputs}

theorem updateSensors_other {parser : JSONSensorsParser} {answer : Text} {stack : Nat → Mem}
    {beans beans' : Beans} {src : Source}
    (h : parser.updateSensors deserialize answer stack beans = .ok beans')
    (hsrc : ∀ s ∈ parser.mSensorsOrdered, src ≠ s.source) : beans' src = beans src := by
  unfold JSONSensorsParser.updateSensors at h
  dsimp only at h
  split at h
  · cases h; rfl
  obtain ⟨w, -, h⟩ := bind_eq_ok.mp h
  split at h
  · cases h; rfl
  split at h
  · cases h; rfl
  split at h
  · cases h; rfl
  · cases h
    exact JSONSensorsParser.updateValues_other hsrc
  · cases h

theorem foldlM_updateSensors_other {l : List (Text × JSONSensorsParser)} {b b' : Beans}
    {src : Source}
    (h : l.foldlM (fun beans p =>
      p.2.updateSensors deserialize (inp.answer p.1) (inp.stack p.1) beans) b = .ok b')
    (hsrc : ∀ p ∈ l, ∀ s ∈ p.2.mSensorsOrdered, src ≠ s.source) : b' src = b src :=
  foldlM_induct (I := fun c => c src = b src)
    (fun _ p _ hp hI hstep => (updateSensors_other hstep (hsrc p hp)).trans hI) rfl h

/-- **The bean of a group holds what its parser's update leaves in it.** -/
theorem updateAll_bean {p : Text} {parser : JSONSensorsParser} {k : Nat} {s : Sensor}
    {beans' : Beans} (hO : Owned set) (hp : set.mJSONSensorsParsers[p]? = some parser)
    (hs : parser.mSensorsOrdered[k]? = some s) (h : set.updateAll deserialize inp = .ok beans') :
    ∃ b b', b s.source = set.beans s.source ∧
      parser.updateSensors deserialize (inp.answer p) (inp.stack p) b = .ok b' ∧
      beans' s.source = b' s.source := by
  have hmem : (p, parser) ∈ set.mJSONSensorsParsers.toList :=
    Std.TreeMap.mem_toList_iff_getElem?_eq_some.mpr hp
  obtain ⟨l1, l2, hl⟩ := List.append_of_mem hmem
  have hkeys := Std.TreeMap.distinct_keys_toList (t := set.mJSONSensorsParsers)
  rw [hl, List.pairwise_append, List.pairwise_cons] at hkeys
  obtain ⟨-, ⟨hafter, -⟩, hbefore⟩ := hkeys
  have hsrc := hO.parsers p parser hp k s hs
  have hother : ∀ q, q ∈ set.mJSONSensorsParsers.toList → ¬ q.1 = p →
      ∀ t ∈ q.2.mSensorsOrdered, s.source ≠ t.source := by
    intro q hq hne t ht he
    obtain ⟨j, hj⟩ := List.mem_iff_getElem?.mp ht
    rw [hsrc, hO.parsers q.1 q.2 (Std.TreeMap.mem_toList_iff_getElem?_eq_some.mp hq) j t hj,
      Source.bean.injEq] at he
    exact hne he.1.symm
  unfold updateAll at h
  rw [hl, List.foldlM_append] at h
  obtain ⟨b, h1, h⟩ := bind_eq_ok.mp h
  rw [List.foldlM_cons] at h
  obtain ⟨b', h2, h3⟩ := bind_eq_ok.mp h
  refine ⟨b, b', ?_, h2, ?_⟩
  · refine foldlM_updateSensors_other h1 fun q hq => hother q ?_ ?_
    · rw [hl]; exact List.mem_append_left _ hq
    · rintro rfl
      exact hbefore q hq _ List.mem_cons_self Std.ReflCmp.compare_self
  · refine foldlM_updateSensors_other h3 fun q hq => hother q ?_ ?_
    · rw [hl]; exact List.mem_append_right _ (List.mem_cons_of_mem _ hq)
    · rintro rfl
      exact hafter q hq Std.ReflCmp.compare_self

theorem updateAll_other {beans' : Beans} {src : Source}
    (hsrc : ∀ (p : Text) parser, set.mJSONSensorsParsers[p]? = some parser →
      ∀ s ∈ parser.mSensorsOrdered, src ≠ s.source)
    (h : set.updateAll deserialize inp = .ok beans') : beans' src = set.beans src :=
  foldlM_updateSensors_other h fun p hp =>
    hsrc p.1 p.2 (Std.TreeMap.mem_toList_iff_getElem?_eq_some.mp hp)

/-- The groups are updated exactly if each of them can be. -/
theorem updateAll_ok_iff : (∃ beans', set.updateAll deserialize inp = .ok beans') ↔
    ∀ (p : Text) parser, set.mJSONSensorsParsers[p]? = some parser →
      ∀ b, ∃ b', parser.updateSensors deserialize (inp.answer p) (inp.stack p) b = .ok b' := by
  constructor
  · rintro ⟨beans', h⟩ p parser hp b
    obtain ⟨b1, b2, hup⟩ := ok_of_foldlM (Std.TreeMap.mem_toList_iff_getElem?_eq_some.mpr hp) h
    obtain ⟨b', hb', -⟩ := JSONSensorsParser.updateSensors_congr hup b
    exact ⟨b', hb'⟩
  · intro h
    exact foldlM_ok (fun p hp b =>
      h p.1 p.2 (Std.TreeMap.mem_toList_iff_getElem?_eq_some.mp hp) b) set.beans

/-- Two sets that have a group in common leave the same in its beans. -/
theorem updateAll_agree {set₁ set₂ : SensorSet} {beans₁ beans₂ : Beans} {p : Text}
    (hO₁ : Owned set₁) (hO₂ : Owned set₂) (hb : set₁.beans = set₂.beans)
    (hp : set₁.mJSONSensorsParsers[p]? = set₂.mJSONSensorsParsers[p]?)
    (h₁ : set₁.updateAll deserialize inp = .ok beans₁)
    (h₂ : set₂.updateAll deserialize inp = .ok beans₂) (k : Nat) :
    beans₁ (.bean p k) = beans₂ (.bean p k) := by
  by_cases hs : ∃ parser s, set₁.mJSONSensorsParsers[p]? = some parser ∧
      parser.mSensorsOrdered[k]? = some s
  · obtain ⟨parser, s, hparser, hk⟩ := hs
    obtain ⟨b, b', hb0, hup, hres⟩ := updateAll_bean hO₁ hparser hk h₁
    obtain ⟨c, c', hc0, hup', hres'⟩ := updateAll_bean hO₂ (hp ▸ hparser) hk h₂
    obtain ⟨d', hd', hsame⟩ := JSONSensorsParser.updateSensors_congr hup c
    rw [hup', Except.ok.injEq] at hd'
    rw [← hO₁.parsers p parser hparser k s hk, hres, hres', hd']
    exact hsame _ (by rw [hb0, hc0, hb])
  · have hnone : ∀ {set : SensorSet}, Owned set →
        set.mJSONSensorsParsers[p]? = set₁.mJSONSensorsParsers[p]? →
        ∀ (q : Text) parser, set.mJSONSensorsParsers[q]? = some parser →
          ∀ s ∈ parser.mSensorsOrdered, Source.bean p k ≠ s.source := by
      intro set hO hset q parser hq s hmem he
      obtain ⟨j, hj⟩ := List.mem_iff_getElem?.mp hmem
      rw [hO.parsers q parser hq j s hj, Source.bean.injEq] at he
      obtain ⟨rfl, rfl⟩ := he
      exact hs ⟨parser, s, hset ▸ hq, hj⟩
    rw [updateAll_other (hnone hO₁ rfl) h₁, updateAll_other (hnone hO₂ hp.symm) h₂, hb]

theorem getMessage_of_updateAll {beans' : Beans}
    (h : set.updateAll deserialize inp = .ok beans') :
    ∃ set', set.getMessage deserialize inp = .ok set' := by
  unfold getMessage messageWrites
  rw [h]
  exact ⟨_, rfl⟩

/-- Two sets with the same sensors of the same groups make the same message. -/
theorem getMessage_agree {set₁ set₂ set₁' set₂' : SensorSet} (hO₁ : Owned set₁) (hO₂ : Owned set₂)
    (hsensors : set₁.sensors = set₂.sensors) (hsize : set₁.mSize = set₂.mSize)
    (hdata : set₁.mData = set₂.mData) (hb : set₁.beans = set₂.beans)
    (hp : ∀ (n : Text) s p k, set₁.mSensorMap[n]? = some s → s.source = .bean p k →
      set₁.mJSONSensorsParsers[p]? = set₂.mJSONSensorsParsers[p]?)
    (h₁ : set₁.getMessage deserialize inp = .ok set₁')
    (h₂ : set₂.getMessage deserialize inp = .ok set₂') : set₁'.mData = set₂'.mData := by
  have hcount : set₁.mSensorMap.size = set₂.mSensorMap.size := by
    rw [← Std.TreeMap.length_toList, ← Std.TreeMap.length_toList]
    exact congrArg List.length hsensors
  have hheader : set₁.headerWrites = set₂.headerWrites := by
    rw [headerWrites, headerWrites, hsize, hcount]
  rw [(getMessage_mData h₁).2, (getMessage_mData h₂).2, hdata, hheader, ← hsensors]
  refine congrArg _ (congrArg List.flatten (List.map_congr_left fun ns hns => ?_))
  obtain ⟨beans₁, ws₁, hw₁, rfl⟩ := getMessage_cases h₁
  obtain ⟨beans₂, ws₂, hw₂, rfl⟩ := getMessage_cases h₂
  unfold sensorBytes
  cases hsrc : ns.2.source with
  | plugin id => rfl
  | bean p k =>
    have hn := Std.TreeMap.mem_toList_iff_getElem?_eq_some.mp
      (show (ns.1, ns.2) ∈ set₁.mSensorMap.toList from hns)
    have hsame := updateAll_agree hO₁ hO₂ hb (hp ns.1 ns.2 p k hn hsrc) (messageWrites_ok hw₁).1
      (messageWrites_ok hw₂).1 k
    show SensorBean.getData beans₁ ns.2 = SensorBean.getData beans₂ ns.2
    unfold SensorBean.getData
    rw [hsrc, hsame]

/-! ## The place of a sensor in the message -/

/-- The offset of a sensor's bytes: behind those of the sensors with a smaller name. -/
def place (set : SensorSet) (n : Text) : Nat :=
  MonitoringDataHeader.sizeof +
    ((set.sensors.filter fun p => compare p.1 n == .lt).map fun p => p.2.getMaxDataSize).sum

theorem read_place (h : set.getMessage deserialize inp = .ok set') {n : Text} {s : Sensor}
    (hs : set.mSensorMap[n]? = some s) :
    set'.mData.read (place set n) s.getMaxDataSize = sensorBytes inp set'.beans s := by
  obtain ⟨i, hi⟩ := List.mem_iff_getElem?.mp
    (Std.TreeMap.mem_toList_iff_getElem?_eq_some.mpr hs)
  obtain ⟨hlt, hget⟩ := List.getElem?_eq_some_iff.mp hi
  generalize hbss : (set.sensors.map fun ns => sensorBytes inp set'.beans ns.2) = bss
  have hm : set'.mData.read MonitoringDataHeader.sizeof bss.flatten.length = bss.flatten := by
    rw [(getMessage_mData h).2, hbss, Mem.read_write_self]
  have hl : i < bss.length := by
    rw [← hbss, List.length_map]
    exact hlt
  have hread := Mem.read_flatten _ _ bss hm i hl
  have hbs : bss[i] = sensorBytes inp set'.beans s := by
    simp only [← hbss, List.getElem_map]
    rw [show set.sensors[i] = (n, s) from hget]
  have htake : ((bss.take i).map List.length).sum =
      ((set.sensors.filter fun p => compare p.1 n == .lt).map fun p => p.2.getMaxDataSize).sum := by
    rw [sensors, ← take_toList hi, ← hbss, ← List.map_take, List.map_map]
    refine congrArg List.sum (List.map_congr_left fun ns _ => ?_)
    simp
  rw [hbs, length_sensorBytes, htake] at hread
  exact hread

/-- The message holds what the update of a bean's parser leaves in the bean. -/
theorem read_bean (hO : Owned set) {p n : Text} {parser : JSONSensorsParser} {k : Nat} {s : Sensor}
    (hp : set.mJSONSensorsParsers[p]? = some parser) (hs : parser.mSensorsOrdered[k]? = some s)
    (hmap : set.mSensorMap[n]? = some s) (h : set.getMessage deserialize inp = .ok set') :
    ∃ beans beans', beans s.source = set.beans s.source ∧
      parser.updateSensors deserialize (inp.answer p) (inp.stack p) beans = .ok beans' ∧
      set'.mData.read (place set n) s.getMaxDataSize = SensorBean.getData beans' s := by
  have hbytes := read_place h hmap
  obtain ⟨beans', ws, hw, rfl⟩ := getMessage_cases h
  obtain ⟨b, b', hb, hup, hres⟩ := updateAll_bean hO hp hs (messageWrites_ok hw).1
  refine ⟨b, b', hb, hup, hbytes.trans ?_⟩
  rw [sensorBytes, hO.parsers p parser hp k s hs]
  show SensorBean.getData beans' s = _
  unfold SensorBean.getData
  rw [hres]

end Update

/-! ## Adding a group -/

/-- Later values of the sensor appear in the message: its bytes have their place among the `mSize`
bytes, and `getMessage` leaves there what the update of its parser left in the bean. -/
structure Delivered (deserialize : Deserialize) (set : SensorSet) (group : Text)
    (parser : JSONSensorsParser) (n : Text) (s : Sensor) : Prop where
  inside : s.getMaxDataSize ≠ 0 → place set n + s.getMaxDataSize ≤ set.mSize
  value : ∀ inp set', set.getMessage deserialize inp = .ok set' →
    ∃ beans beans', beans s.source = set.beans s.source ∧
      parser.updateSensors deserialize (inp.answer group) (inp.stack group) beans = .ok beans' ∧
      set'.mData.read (place set n) s.getMaxDataSize = SensorBean.getData beans' s

open JSONSensorsParser in
/-- If a call adds the group, the old sensors are what they were, each sensor the description lists
is in the map as the bean of the new parser, and its values are delivered; else nothing changes. -/
def LosesNothing (deserialize : Deserialize) (pf : Platform) (provider : JSONSensorProvider)
    (name : Text) (set : SensorSet) : Prop :=
  ∀ set' b, addJSONSensorProvider deserialize pf provider name set = .ok (set', b) →
    if b then
      (∀ (n : Text) s, set.mSensorMap[n]? = some s → set'.mSensorMap[n]? = some s) ∧
        ∃ parser, set'.mJSONSensorsParsers[name]? = some parser ∧
          ∀ v, deserialize provider.getSensorsDescription = .ok v →
            ∀ (k : Nat) e, (entries v)[k]? = some e →
              ∃ s, parser.mSensorsOrdered[k]? = some s ∧
                (e.1, s.getDataType, s.getMaxDataSize) = e ∧
                set'.mSensorMap[e.1]? = some s ∧ Delivered deserialize set' name parser e.1 s
    else set' = set

/-- The place of a sensor once the sensors of `es` are added. -/
def placeWith (set : SensorSet) (es : List (Text × SensorDataType × Nat)) (n : Text) : Nat :=
  place set n + ((es.filter fun e => compare e.1 n == .lt).map fun e => e.2.2).sum

/-- The names are different and not in use, and the bytes have room in the message. -/
structure Fresh (set : SensorSet) (es : List (Text × SensorDataType × Nat)) : Prop where
  nodup : (es.map Prod.fst).Nodup
  unused : ∀ e ∈ es, e.1 ∉ set.mSensorMap
  inside : ∀ e ∈ es, e.2.2 ≠ 0 → placeWith set es e.1 + e.2.2 ≤ set.mSize

section Add

variable {deserialize : Deserialize} {pf : Platform} {provider : JSONSensorProvider} {name : Text}
  {set : SensorSet} {ordered : List (Text × Sensor)}

theorem mSensors_perm (hd : (ordered.map Prod.fst).Nodup) :
    (JSONSensorsParser.mSensors ordered).toList.Perm ordered := by
  have hp := toList_foldl_insertIfNew_perm ordered hd ∅ fun p _ => Std.TreeMap.not_mem_emptyc
  exact hp

theorem insertRange_mSensors_perm {m : SensorMap} (hd : (ordered.map Prod.fst).Nodup)
    (hm : ∀ p ∈ ordered, p.1 ∉ m) :
    (insertRange m (JSONSensorsParser.mSensors ordered)).toList.Perm (m.toList ++ ordered) := by
  have hp := mSensors_perm hd
  refine (toList_foldl_insertIfNew_perm _ ?_ m fun p hmem => hm p (hp.mem_iff.mp hmem)).trans
    (hp.append_left _)
  exact (hp.map Prod.fst).nodup_iff.mpr hd

theorem map_fst_signature (ordered : List (Text × Sensor)) :
    (ordered.map JSONSensorsParser.signature).map Prod.fst = ordered.map Prod.fst := by
  rw [List.map_map]
  rfl

theorem place_add (hd : (ordered.map Prod.fst).Nodup) (hm : ∀ p ∈ ordered, p.1 ∉ set.mSensorMap)
    (parsers : Std.TreeMap Text JSONSensorsParser) (n : Text) :
    place { set with
        mSensorMap := insertRange set.mSensorMap (JSONSensorsParser.mSensors ordered)
        mJSONSensorsParsers := parsers } n =
      placeWith set (ordered.map JSONSensorsParser.signature) n := by
  have hp := ((insertRange_mSensors_perm hd hm).filter fun p => compare p.1 n == .lt).map
    fun p => p.2.getMaxDataSize
  have hsum := hp.sum_nat
  rw [List.filter_append, List.map_append, List.sum_append] at hsum
  unfold placeWith place sensors
  rw [hsum, List.filter_map, List.map_map, Nat.add_assoc]
  rfl

theorem getElem?_mSensors (hd : (ordered.map Prod.fst).Nodup) {k : Nat} {p : Text × Sensor}
    (hp : ordered[k]? = some p) : (JSONSensorsParser.mSensors ordered)[p.1]? = some p.2 :=
  Std.TreeMap.mem_toList_iff_getElem?_eq_some.mp
    ((mSensors_perm hd).mem_iff.mpr (List.mem_of_getElem? hp))

theorem addJSONSensorProvider_new {parser : JSONSensorsParser} {map : SensorMap}
    (hname : name ∉ set.mJSONSensorsParsers)
    (hg : JSONSensorsParser.getSensors deserialize pf provider name = .ok (parser, map)) :
    addJSONSensorProvider deserialize pf provider name set = .ok ({ set with
      mSensorMap := insertRange set.mSensorMap map
      mJSONSensorsParsers := set.mJSONSensorsParsers.insert name parser }, true) := by
  rw [addJSONSensorProvider, if_neg hname, hg]
  rfl

open JSONSensorsParser in
/-- **When adding a group loses nothing.** -/
theorem losesNothing_iff (h : Reachable deserialize pf set) :
    LosesNothing deserialize pf provider name set ↔
      name ∈ set.mJSONSensorsParsers ∨
        ∀ v, deserialize provider.getSensorsDescription = .ok v → DescriptionReadable v →
          Fresh set (entries v) := by
  have hO := h.owned
  constructor
  · intro hall
    by_cases hname : name ∈ set.mJSONSensorsParsers
    · exact .inl hname
    refine .inr fun v hv hr => ?_
    obtain ⟨-, ordered, ho, hsig⟩ :=
      (@parseDescription_cases pf name deserialize _ v hv).resolve_right fun hbad => hbad.1 hr
    have hg : getSensors deserialize pf provider name =
        .ok (⟨provider, name, ordered.map Prod.snd⟩, mSensors ordered) := by
      rw [getSensors, ho]; rfl
    obtain ⟨hkeep, parser, hparser, hnew⟩ := hall _ true (addJSONSensorProvider_new hname hg)
    rw [Std.TreeMap.getElem?_insert_self, Option.some.injEq] at hparser
    subst hparser
    have hnames : (entries v).map Prod.fst = ordered.map Prod.fst := by
      rw [← hsig, map_fst_signature]
    have hd : (ordered.map Prod.fst).Nodup := by
      rw [← hnames]
      refine List.nodup_iff_getElem?_ne_getElem?.mpr fun i j hij hj he => ?_
      rw [List.length_map] at hj
      have hi := List.getElem?_eq_getElem (Nat.lt_trans hij hj)
      have hj := List.getElem?_eq_getElem hj
      rw [List.getElem?_map, List.getElem?_map, hi, hj, Option.map_some, Option.map_some,
        Option.some.injEq] at he
      obtain ⟨si, hsi, -, hmi, -⟩ := hnew v hv i _ hi
      obtain ⟨sj, hsj, -, hmj, -⟩ := hnew v hv j _ hj
      rw [he, hmj, Option.some.injEq] at hmi
      have hbean := (source_of_getSensors hg hsj).symm.trans
        (hmi ▸ source_of_getSensors hg hsi)
      rw [Source.bean.injEq] at hbean
      omega
    have hm : ∀ p ∈ ordered, p.1 ∉ set.mSensorMap := by
      intro p hp hused
      obtain ⟨k, hk⟩ := List.mem_iff_getElem?.mp hp
      have he : (entries v)[k]? = some (signature p) := by
        rw [← hsig, List.getElem?_map, hk, Option.map_some]
      obtain ⟨s, hs, -, hmap, -⟩ := hnew v hv k _ he
      obtain ⟨t, ht⟩ := Option.isSome_iff_exists.mp
        (Std.TreeMap.isSome_getElem?_iff_mem.mpr hused)
      rw [show (signature p).1 = p.1 from rfl, hkeep p.1 t ht, Option.some.injEq] at hmap
      exact hname (hO.sensors p.1 t name k ht (hmap ▸ source_of_getSensors hg hs))
    refine ⟨by rw [hnames]; exact hd, fun e he hused => ?_, fun e he h0 => ?_⟩
    · rw [← hsig] at he
      obtain ⟨p, hp, rfl⟩ := List.mem_map.mp he
      exact hm p hp hused
    · obtain ⟨k, hk⟩ := List.mem_iff_getElem?.mp he
      obtain ⟨s, -, hes, -, hdel⟩ := hnew v hv k e hk
      have hsize : s.getMaxDataSize = e.2.2 := congrArg (fun e => e.2.2) hes
      have hin := hdel.inside (by rw [hsize]; exact h0)
      rwa [place_add hd hm, hsig, hsize] at hin
  · intro hcond set' b hadd
    rcases addJSONSensorProvider_cases hadd with ⟨-, rfl, rfl⟩ | ⟨hname, rfl, parser, map, hg, rfl⟩
    · rfl
    obtain ⟨v, hv, -⟩ := bind_eq_ok.mp (getSensors_ok hg).choose_spec.1
    obtain ⟨hr, ordered, rfl, rfl, hsig⟩ := getSensors_entries hg hv
    have hfresh := hcond.resolve_left hname v hv hr
    have hd : (ordered.map Prod.fst).Nodup := by
      have := hfresh.nodup
      rwa [← hsig, map_fst_signature] at this
    have hm : ∀ p ∈ ordered, p.1 ∉ set.mSensorMap := fun p hp =>
      hfresh.unused (signature p) (hsig ▸ List.mem_map_of_mem hp)
    have hO' := owned_addJSONSensorProvider hO hadd
    refine ⟨fun n s hs => ?_, _, Std.TreeMap.getElem?_insert_self, fun v' hv' k e he => ?_⟩
    · rw [getElem?_insertRange, hs, Option.some_or]
    · rw [hv, Except.ok.injEq] at hv'
      subst hv'
      rw [← hsig] at he
      obtain ⟨p, hp, rfl⟩ := Option.map_eq_some_iff.mp (List.getElem?_map .. ▸ he)
      have hbean : (ordered.map Prod.snd)[k]? = some p.2 := by rw [List.getElem?_map, hp]; rfl
      have hmap : (insertRange set.mSensorMap (mSensors ordered))[p.1]? = some p.2 := by
        rw [getElem?_insertRange, Std.TreeMap.getElem?_eq_none (hm p (List.mem_of_getElem? hp)),
          Option.none_or]
        exact getElem?_mSensors hd hp
      refine ⟨p.2, hbean, rfl, hmap, fun h0 => ?_, fun inp set'' hmsg => ?_⟩
      · rw [place_add hd hm, hsig]
        exact hfresh.inside (signature p) (hsig ▸ List.mem_map_of_mem (List.mem_of_getElem? hp)) h0
      · exact read_bean hO' Std.TreeMap.getElem?_insert_self hbean hmap hmsg

end Add

open JSONSensorsParser in
/-- Two sensors and a number between them, next to the sample. -/
def pairDeserialize : Deserialize := fun text =>
  if text = sampleDescription then sampleDeserialize text
  else .ok (.array
    [.object [(ascii "dataType", .text (ascii "double")), (ascii "name", .text (ascii "v"))],
      .int 5,
      .object [(ascii "dataType", .text (ascii "U16")), (ascii "name", .text (ascii "w"))]])

open JSONSensorsParser in
/-- A group of two sensors next to the one a cleared set got first. -/
theorem losesNothing_iff_sample :
    ∃ set, Reachable pairDeserialize .x86 set ∧ ascii "t" ∈ set.mSensorMap ∧
      LosesNothing pairDeserialize .x86 (.static (ascii "[...]") []) (ascii "g") set := by
  have hreach : Reachable pairDeserialize .x86 _ := .construct
    (show construct pairDeserialize .x86 (.sample 11) .sample (fun _ => 0) (fun _ _ => 0) = .ok _
      from rfl)
  have hclear := hreach.step (show step pairDeserialize .x86 _ .clear = some _ from rfl)
  have hfirst := hclear.step (show step pairDeserialize .x86 _
    (.addJSONSensorProvider (.static sampleDescription []) (ascii "f")) = some _ from rfl)
  refine ⟨_, hfirst, by decide, (losesNothing_iff hfirst).mpr (.inr fun v hv _ => ?_)⟩
  obtain rfl : _ = v := Except.ok.inj hv
  exact ⟨by decide, by decide, by decide⟩

open JSONSensorsParser in
/-- The sample group and a manual sensor of the same name: the group's sensor is not in the map. -/
theorem name_in_use_loses :
    ∃ set, constructSample sampleDeserialize 20 = .ok set ∧
      ¬ LosesNothing sampleDeserialize .x86 (.static sampleDescription []) (ascii "g") set := by
  refine ⟨_, rfl, fun h => ?_⟩
  obtain ⟨-, parser, hp, hnew⟩ := h _ true rfl
  obtain ⟨s, hs, -, hmap, -⟩ := hnew _ rfl 0 _ rfl
  cases hp
  cases hs
  exact absurd hmap (by decide)

end SensorSet

end RecsDaemon
