import RecsDaemon.SensorSet.Groups
import RecsDaemon.Base.Lines

/-!
# Lines in lower case

The client's loop puts the whole line in lower case, the texts of
`addsensors` and `updatesensors` with it. A description has lost the key
`dataType` then, so the command adds a group without sensors (`sameAsPlugin_iff`).
-/

namespace RecsDaemon

open Base Json

namespace TelnetServer

/-- One round of the client's loop; `none` when the stream ends. -/
def serve (deserialize : Deserialize) (pf : Platform) (stream : Bytes) (set : SensorSet) :
    Option (Except Fault Outcome) :=
  (readline (bufferLength - 1) stream).map fun p => execute deserialize pf p.1 set

/-! ## Lines -/

/-- The buffer takes the line as it is. -/
structure FitsLine (line : Bytes) : Prop where
  length : line.length ≤ bufferLength - 1
  chars : ∀ c ∈ line, c ≠ 0 ∧ c ≠ 10 ∧ c ≠ 13

def addLine (group description : Text) : Bytes := ascii "addsensors " ++ group ++ 32 :: description

def updateLine (group data : Text) : Bytes := ascii "updatesensors " ++ group ++ 32 :: data

def IsGroup (group : Text) : Prop := ∀ c ∈ group, c ≠ 32 ∧ ¬ (65 ≤ c ∧ c ≤ 90)

section Line

variable {line rest group text : Bytes}

theorem readline_line {len : Nat} (hlen : line.length ≤ len)
    (hc : ∀ c ∈ line, c ≠ 10 ∧ c ≠ 13) :
    ∃ rest', readline len (line ++ 10 :: rest) = some (line, rest') := by
  induction line generalizing len with
  | nil =>
    cases len with
    | zero => exact ⟨_, rfl⟩
    | succ len => exact ⟨rest, rfl⟩
  | cons c line ih =>
    cases len with
    | zero => cases hlen
    | succ len =>
      obtain ⟨h10, h13⟩ := hc c List.mem_cons_self
      obtain ⟨rest', hr⟩ := @ih len (Nat.le_of_succ_le_succ hlen)
        fun d hd => hc d (List.mem_cons_of_mem c hd)
      refine ⟨rest', ?_⟩
      rw [List.cons_append, readline, if_neg h10, if_neg h13, hr]
      rfl

theorem serve_line {deserialize : Deserialize} {pf : Platform} {set : SensorSet}
    (h : FitsLine line) : serve deserialize pf (line ++ 10 :: rest) set =
      some (execute deserialize pf line set) := by
  obtain ⟨rest', hr⟩ := @readline_line line rest _ h.length fun c hc => (h.chars c hc).2
  rw [serve, hr]
  rfl

theorem toLower_of_group (h : IsGroup group) : group.map toLower = group := by
  refine (List.map_congr_left fun c hc => ?_).trans group.map_id
  exact if_neg (h c hc).2

theorem commandOf_line (h : FitsLine line) : commandOf line = line.map toLower := by
  rw [commandOf, cstr_of_no_zero fun h0 => (h.chars 0 h0).1 rfl]

theorem parameters_line {word : Text} (hw : (32 : UInt8) ∉ word) (hg : (32 : UInt8) ∉ group) :
    parameters (word ++ 32 :: (group ++ 32 :: text)) = some (group, text) := by
  unfold parameters
  have hd : (32 :: (group ++ 32 :: text)).drop 1 = group ++ 32 :: text := rfl
  simp only [(cut_at hw).2, hd, (cut_at hg).2, (cut_at hg).1]

end Line

section Execute

variable {deserialize : Deserialize} {pf : Platform} {group text : Text} {set : SensorSet}

theorem commandOf_addLine (hg : IsGroup group) (h : FitsLine (addLine group text)) :
    commandOf (addLine group text) =
      ascii "addsensors" ++ 32 :: (group ++ 32 :: text.map toLower) := by
  have hword : (ascii "addsensors ").map toLower = ascii "addsensors" ++ [32] := by decide
  rw [commandOf_line h, addLine, List.map_append, List.map_append, List.map_cons, hword,
    toLower_of_group hg, List.append_assoc, List.append_assoc]
  rfl

theorem commandOf_updateLine (hg : IsGroup group) (h : FitsLine (updateLine group text)) :
    commandOf (updateLine group text) =
      ascii "updatesensors" ++ 32 :: (group ++ 32 :: text.map toLower) := by
  have hword : (ascii "updatesensors ").map toLower = ascii "updatesensors" ++ [32] := by decide
  rw [commandOf_line h, updateLine, List.map_append, List.map_append, List.map_cons, hword,
    toLower_of_group hg, List.append_assoc, List.append_assoc]
  rfl

/-- **`addsensors` adds the description in lower case.** -/
theorem execute_addLine (hg : IsGroup group) (h : FitsLine (addLine group text)) :
    execute deserialize pf (addLine group text) set = (do
      let (set, added) ← SensorSet.addJSONSensorProvider deserialize pf
        (.static (text.map toLower) []) group set
      pure ⟨set, added⟩) := by
  unfold execute
  rw [commandOf_addLine hg h]
  have hne : ¬ (ascii "addsensors" ++ 32 :: (group ++ 32 :: text.map toLower) = ascii "getnodeid" ∨
      (ascii "addsensors" ++ 32 :: (group ++ 32 :: text.map toLower)).take 7 = ascii "monitor") := by
    rintro (he | he) <;> cases he
  have hadd : (ascii "addsensors" ++ 32 :: (group ++ 32 :: text.map toLower)).take 11 =
      ascii "addsensors " := rfl
  have hwords := @parameters_line group (text.map toLower) (ascii "addsensors") (by decide)
    fun h0 => (hg 32 h0).1 rfl
  dsimp only
  rw [if_neg hne, if_pos hadd, addsensors, hwords]

/-- **`updatesensors` stores the data in lower case.** -/
theorem execute_updateLine (hg : IsGroup group) (h : FitsLine (updateLine group text)) :
    execute deserialize pf (updateLine group text) set =
      .ok ⟨updateSensorsData group (text.map toLower) set, false⟩ := by
  unfold execute
  rw [commandOf_updateLine hg h]
  have hne : ¬ (ascii "updatesensors" ++ 32 :: (group ++ 32 :: text.map toLower) =
        ascii "getnodeid" ∨
      (ascii "updatesensors" ++ 32 :: (group ++ 32 :: text.map toLower)).take 7 =
        ascii "monitor") := by
    rintro (he | he) <;> cases he
  have hadd : ¬ (ascii "updatesensors" ++ 32 :: (group ++ 32 :: text.map toLower)).take 11 =
      ascii "addsensors " := fun he => by cases he
  have hupdate : (ascii "updatesensors" ++ 32 :: (group ++ 32 :: text.map toLower)).take 14 =
      ascii "updatesensors " := rfl
  have hwords := @parameters_line group (text.map toLower) (ascii "updatesensors") (by decide)
    fun h0 => (hg 32 h0).1 rfl
  dsimp only
  rw [if_neg hne, if_neg hadd, if_pos hupdate, updatesensors, hwords]
  rfl

end Execute

/-! ## Descriptions in lower case -/

/-- The keys of a description's entries are made of its bytes, as `json::Deserialize` cuts them out
of the text. -/
def KeysOfText (deserialize : Deserialize) : Prop :=
  ∀ text elems fields key v, deserialize text = .ok (.array elems) → Value.object fields ∈ elems →
    (key, v) ∈ fields → key ⊆ text

/-- The values `getSensors` returns on if no entry describes a sensor. -/
def Listed : Value → Prop
  | .null => True
  | .array elems => elems.length < 65536
  | v => v.size = 0

section Lower

variable {deserialize : Deserialize} {pf : Platform} {group text : Text}

theorem listed_of_readable {v : Value} (h : JSONSensorsParser.DescriptionReadable v) : Listed v := by
  cases v with
  | array elems => exact h.1
  | null => trivial
  | _ => exact h

theorem toLower_ne (c : UInt8) : toLower c ≠ 84 := by
  unfold toLower
  split
  · next h =>
    intro he
    have h1 : c.toNat ≤ 90 := UInt8.le_iff_toNat_le.mp h.2
    have h2 : 65 ≤ c.toNat := UInt8.le_iff_toNat_le.mp h.1
    have h3 := congrArg UInt8.toNat he
    rw [UInt8.toNat_add] at h3
    have h4 : (32 : UInt8).toNat = 32 := rfl
    have h5 : (84 : UInt8).toNat = 84 := rfl
    omega
  · next h => exact fun he => h (by rw [he]; decide)

theorem lookup_dataType_lower (hk : KeysOfText deserialize) {elems : List Value}
    {fields : List (Text × Value)} (hv : deserialize (text.map toLower) = .ok (.array elems))
    (hf : Value.object fields ∈ elems) : fields.lookup (ascii "dataType") = none := by
  apply Option.eq_none_iff_forall_ne_some.mpr
  intro v hl
  obtain ⟨l1, l2, rfl, -⟩ := List.lookup_eq_some_iff.mp hl
  have hmem := hk _ _ _ (ascii "dataType") v hv hf (by simp) (show (84 : UInt8) ∈ _ by decide)
  obtain ⟨c, -, hc⟩ := List.mem_map.mp hmem
  exact toLower_ne c hc

/-- Without the key an entry is skipped. -/
theorem entry_lower (hk : KeysOfText deserialize) {elems : List Value}
    (hv : deserialize (text.map toLower) = .ok (.array elems)) {e : Value} (he : e ∈ elems) :
    JSONSensorsParser.readable e = true ∧ JSONSensorsParser.described e = none := by
  cases e with
  | object fields =>
    have hl := lookup_dataType_lower hk hv he
    constructor
    · unfold JSONSensorsParser.readable
      dsimp only
      rw [hl]
      rcases Option.eq_none_or_eq_some (fields.lookup (ascii "name")) with hn | ⟨n, hn⟩
      · rw [hn]
      · rw [hn]
        cases n <;> rfl
    · unfold JSONSensorsParser.described JSONSensorsParser.declared
      dsimp only
      rw [hl]
      rcases Option.eq_none_or_eq_some (fields.lookup (ascii "name")) with hn | ⟨n, hn⟩
      · rw [hn]
      · rw [hn]
        cases n with
        | text t =>
          dsimp only
          split <;> rfl
        | _ => rfl
  | _ => exact ⟨rfl, rfl⟩

/-- **A description in lower case lists no sensor.** -/
theorem entries_lower (hk : KeysOfText deserialize) {v : Value}
    (hv : deserialize (text.map toLower) = .ok v) :
    (JSONSensorsParser.DescriptionReadable v ↔ Listed v) ∧ JSONSensorsParser.entries v = [] := by
  refine ⟨⟨listed_of_readable, fun h => ?_⟩, ?_⟩
  · cases v with
    | array elems => exact ⟨h, fun e he => (entry_lower hk hv he).1⟩
    | null => trivial
    | _ => exact h
  · cases v with
    | array elems =>
      exact List.filterMap_eq_nil_iff.mpr fun e he => (entry_lower hk hv he).2
    | _ => rfl

end Lower

/-! ## The two lines and a plugin -/

/-- The lines `addsensors` and `updatesensors` do what a plugin with the same texts does: if the set
can be given the plugin, the first line adds the same sensors; and if `getMessage` returns with the
plugin's data, it does so after the second line, with the same message. -/
def SameAsPlugin (deserialize : Deserialize) (pf : Platform) (set : SensorSet)
    (group description data : Text) : Prop :=
  ∀ set₁, SensorSet.addJSONSensorProvider deserialize pf (.plugin description) group set =
      .ok (set₁, true) →
    ∃ set₂ set₃,
      (∀ rest, serve deserialize pf (addLine group description ++ 10 :: rest) set =
        some (.ok ⟨set₂, true⟩)) ∧
      set₂.sensors = set₁.sensors ∧
      (∀ rest, serve deserialize pf (updateLine group data ++ 10 :: rest) set₂ =
        some (.ok ⟨set₃, false⟩)) ∧
      ∀ inp set₁', inp.answer group = data → set₁.getMessage deserialize inp = .ok set₁' →
        ∃ set₃', set₃.getMessage deserialize inp = .ok set₃' ∧
          set₃'.mData.read 0 set₃'.getSize = set₁'.mData.read 0 set₁'.getSize

/-- No `getMessage` returns with the plugin's data. -/
def NeverReturns (deserialize : Deserialize) (pf : Platform) (set : SensorSet)
    (group description data : Text) : Prop :=
  ∀ set₁ inp set₁', SensorSet.addJSONSensorProvider deserialize pf (.plugin description) group set =
    .ok (set₁, true) → inp.answer group = data → set₁.getMessage deserialize inp ≠ .ok set₁'

open JSONSensorsParser in
/-- If the description is readable, all its sensors are in use already, and in lower case it is a
list; and the data in lower case is empty or can be parsed. -/
def NothingToAdd (deserialize : Deserialize) (pf : Platform) (set : SensorSet)
    (group description data : Text) : Prop :=
  ∀ v, deserialize description = .ok v → DescriptionReadable v →
    (∀ e ∈ entries v, e.1 ∈ set.mSensorMap) ∧
    (∃ w, deserialize (description.map toLower) = .ok w ∧ Listed w) ∧
    (data = [] ∨ (∃ w, deserialize (data.map toLower) = .ok w) ∨
      NeverReturns deserialize pf set group description data)

section PluginAndLine

variable {deserialize : Deserialize} {pf : Platform} {set set₁ : SensorSet}
  {group description data : Text}

theorem FitsLine.no_zero {front : Bytes} (h : FitsLine (front ++ 32 :: data)) :
    (0 : UInt8) ∉ data := fun h0 =>
  (h.chars 0 (List.mem_append_right _ (List.mem_cons_of_mem _ h0))).1 rfl

def withPlugin (set : SensorSet) (group description : Text) (ordered : List (Text × Sensor)) :
    SensorSet :=
  { set with
    mSensorMap := insertRange set.mSensorMap (JSONSensorsParser.mSensors ordered)
    mJSONSensorsParsers := set.mJSONSensorsParsers.insert group
      ⟨.plugin description, group, ordered.map Prod.snd⟩ }

theorem addPlugin_cases (hd : (0 : UInt8) ∉ description)
    (h : SensorSet.addJSONSensorProvider deserialize pf (.plugin description) group set =
      .ok (set₁, true)) :
    ∃ v ordered, deserialize description = .ok v ∧ JSONSensorsParser.DescriptionReadable v ∧
      ordered.map JSONSensorsParser.signature = JSONSensorsParser.entries v ∧
      set₁ = withPlugin set group description ordered := by
  rcases SensorSet.addJSONSensorProvider_cases h with ⟨-, -, hb⟩ | ⟨-, -, parser, map, hg, rfl⟩
  · cases hb
  obtain ⟨v, hv, -⟩ := bind_eq_ok.mp (JSONSensorsParser.getSensors_ok hg).choose_spec.1
  obtain ⟨hr, ordered, rfl, rfl, hsig⟩ := JSONSensorsParser.getSensors_entries hg hv
  refine ⟨v, ordered, ?_, hr, hsig, rfl⟩
  rwa [show JSONSensorProvider.getSensorsDescription (.plugin description) = description from
    cstr_of_no_zero hd] at hv

/-- The set a description in lower case leaves. -/
def withGroup (set : SensorSet) (group description data : Text) : SensorSet :=
  { set with
    mSensorMap := insertRange set.mSensorMap ∅
    mJSONSensorsParsers := set.mJSONSensorsParsers.insert group
      ⟨.static description data, group, []⟩ }

/-- **What `addsensors` does.** -/
theorem serve_addLine (hk : KeysOfText deserialize) (hg : IsGroup group)
    (hname : group ∉ set.mJSONSensorsParsers) (hfit : FitsLine (addLine group description))
    (rest : Bytes) {set₂ : SensorSet} :
    serve deserialize pf (addLine group description ++ 10 :: rest) set = some (.ok ⟨set₂, true⟩) ↔
      (∃ w, deserialize (description.map toLower) = .ok w ∧ Listed w) ∧
        set₂ = withGroup set group (description.map toLower) [] := by
  have hdesc : JSONSensorProvider.getSensorsDescription (.static (description.map toLower) []) =
      description.map toLower := cstr_map_toLower hfit.no_zero
  rw [serve_line hfit, execute_addLine hg hfit, Option.some.injEq]
  constructor
  · intro h
    obtain ⟨⟨set', added⟩, hadd, h⟩ := bind_eq_ok.mp h
    cases h
    rcases SensorSet.addJSONSensorProvider_cases hadd with ⟨-, -, hb⟩ | ⟨-, -, parser, map, hget, rfl⟩
    · cases hb
    obtain ⟨w, hw, -⟩ := bind_eq_ok.mp (JSONSensorsParser.getSensors_ok hget).choose_spec.1
    obtain ⟨hr, ordered, rfl, rfl, hsig⟩ := JSONSensorsParser.getSensors_entries hget hw
    rw [hdesc] at hw
    obtain ⟨hlisted, hnone⟩ := entries_lower hk hw
    rw [hnone] at hsig
    obtain rfl := List.map_eq_nil_iff.mp hsig
    exact ⟨⟨w, hw, hlisted.mp hr⟩, rfl⟩
  · rintro ⟨⟨w, hw, hl⟩, rfl⟩
    obtain ⟨hlisted, hnone⟩ := entries_lower hk hw
    obtain ⟨-, ordered, ho, hsig⟩ :=
      (@JSONSensorsParser.parseDescription_cases pf group deserialize _ w hw).resolve_right
        fun hbad => hbad.1 (hlisted.mpr hl)
    rw [hnone] at hsig
    obtain rfl := List.map_eq_nil_iff.mp hsig
    have hget : JSONSensorsParser.getSensors deserialize pf
        (.static (description.map toLower) []) group =
          .ok (⟨.static (description.map toLower) [], group, []⟩, ∅) := by
      rw [JSONSensorsParser.getSensors, hdesc, ho]
      rfl
    rw [SensorSet.addJSONSensorProvider_new hname hget]
    rfl

/-- **What `updatesensors` does with such a group.** -/
theorem serve_updateLine (hg : IsGroup group) (hfit : FitsLine (updateLine group data))
    (rest : Bytes) :
    serve deserialize pf (updateLine group data ++ 10 :: rest) (withGroup set group description []) =
      some (.ok ⟨updateSensorsData group (data.map toLower) (withGroup set group description []),
        false⟩) := by
  rw [serve_line hfit, execute_updateLine hg hfit]

theorem parsers_updated (p : Text) :
    (updateSensorsData group data (withGroup set group description [])).mJSONSensorsParsers[p]? =
      if p = group then some ⟨.static description data, group, []⟩
      else set.mJSONSensorsParsers[p]? := by
  have hparser : (withGroup set group description []).mJSONSensorsParsers[group]? =
      some ⟨.static description [], group, []⟩ := Std.TreeMap.getElem?_insert_self
  have hprovider : (withGroup set group description []).getJSONSensorProvider group =
      some (.static description []) := by
    rw [SensorSet.getJSONSensorProvider, hparser]
    rfl
  unfold updateSensorsData
  rw [hprovider]
  show ((withGroup set group description []).mJSONSensorsParsers.modify group _)[p]? = _
  rw [Std.TreeMap.getElem?_modify]
  by_cases hp : p = group
  · rw [if_pos (hp ▸ Std.ReflCmp.compare_self), hparser, if_pos hp]
    rfl
  · have hne : ¬ compare group p = .eq := fun he => hp (Std.LawfulEqCmp.eq_of_compare he).symm
    rw [if_neg hne, if_neg hp]
    exact (Std.TreeMap.getElem?_insert).trans (if_neg hne)

theorem update_group {stack : Nat → Mem} {answer : Text} {b : Beans} :
    (∃ b', JSONSensorsParser.updateSensors deserialize ⟨.static description data, group, []⟩ answer
        stack b = .ok b') ↔ cstr data = [] ∨ ∃ w, deserialize (cstr data) = .ok w := by
  by_cases h0 : cstr data = []
  · exact ⟨fun _ => .inl h0, fun _ => ⟨b, if_pos h0⟩⟩
  constructor
  · rintro ⟨b', hb⟩
    obtain ⟨w, hw, -⟩ := bind_eq_ok.mp ((if_neg h0).symm.trans hb)
    exact .inr ⟨w, hw⟩
  · intro h
    obtain ⟨w, hw⟩ := h.resolve_left h0
    rcases @JSONSensorsParser.updateSensors_cases deserialize
      ⟨.static description data, group, []⟩ answer w stack b h0 hw with ⟨-, h⟩ | ⟨_, -, -, h⟩ | ⟨h, -⟩
    · exact ⟨_, h⟩
    · exact ⟨_, h⟩
    · exact absurd rfl h

open JSONSensorsParser in
theorem unused_iff {v : Value} {ordered : List (Text × Sensor)}
    (hsig : ordered.map signature = entries v) :
    (∀ e ∈ entries v, e.1 ∈ set.mSensorMap) ↔ ∀ n ∈ mSensors ordered, n ∈ set.mSensorMap := by
  constructor
  · intro h n hn
    obtain ⟨s, hs⟩ := Option.isSome_iff_exists.mp (Std.TreeMap.isSome_getElem?_iff_mem.mpr hn)
    obtain ⟨k, hk⟩ := SensorSet.mSensors_ordered hs
    apply h (signature (n, s))
    rw [← hsig]
    exact List.mem_map_of_mem (List.mem_of_getElem? hk)
  · intro h e he
    rw [← hsig] at he
    obtain ⟨p, hp, rfl⟩ := List.mem_map.mp he
    refine h p.1 (Std.TreeMap.isSome_getElem?_iff_mem.mp ?_)
    rw [mSensors, getElem?_foldl_insertIfNew, Std.TreeMap.getElem?_emptyc, Option.none_or,
      Option.isSome_map, List.find?_isSome]
    exact ⟨p, hp, by simp⟩

theorem sensors_withGroup : (withGroup set group description data).sensors = set.sensors :=
  toList_insertRange_of_mem fun _ hk => absurd hk Std.TreeMap.not_mem_emptyc

/-- The sensors are what they were, so none is of the group. -/
theorem source_ne_group {ordered : List (Text × Sensor)} (hO : SensorSet.Owned set)
    (hname : group ∉ set.mJSONSensorsParsers)
    (hused : ∀ n ∈ JSONSensorsParser.mSensors ordered, n ∈ set.mSensorMap) {n p : Text} {s : Sensor}
    {k : Nat} (hs : (withPlugin set group description ordered).mSensorMap[n]? = some s)
    (hsrc : s.source = .bean p k) : p ≠ group := by
  rintro rfl
  rw [withPlugin, getElem?_insertRange_of_mem hused] at hs
  exact hname (hO.sensors n s p k hs hsrc)

/-- **The message is the same** once the plugin's sensors are all in use and the data is parsed. -/
theorem message_same {ordered : List (Text × Sensor)} {set₁' : SensorSet} {inp : Inputs}
    {text : Text} (hO : SensorSet.Owned set) (hname : group ∉ set.mJSONSensorsParsers)
    (hO₁ : SensorSet.Owned (withPlugin set group description ordered))
    (hO₃ : SensorSet.Owned (updateSensorsData group data (withGroup set group text [])))
    (hused : ∀ n ∈ JSONSensorsParser.mSensors ordered, n ∈ set.mSensorMap)
    (hdata : cstr data = [] ∨ ∃ w, deserialize (cstr data) = .ok w)
    (h : (withPlugin set group description ordered).getMessage deserialize inp = .ok set₁') :
    ∃ set₃', (updateSensorsData group data (withGroup set group text [])).getMessage deserialize
        inp = .ok set₃' ∧ set₃'.mSize = set₁'.mSize ∧ set₃'.mData = set₁'.mData := by
  have hother : ∀ p : Text, p ≠ group →
      (withPlugin set group description ordered).mJSONSensorsParsers[p]? =
        (updateSensorsData group data (withGroup set group text [])).mJSONSensorsParsers[p]? := by
    intro p hp
    have hne : ¬ compare group p = .eq := fun he => hp (Std.LawfulEqCmp.eq_of_compare he).symm
    rw [parsers_updated, if_neg hp, withPlugin, Std.TreeMap.getElem?_insert, if_neg hne]
  obtain ⟨beans₁, ws, hw, -⟩ := SensorSet.getMessage_cases h
  have hupdates := SensorSet.updateAll_ok_iff.mp ⟨beans₁, (SensorSet.messageWrites_ok hw).1⟩
  obtain ⟨beans₃, hup⟩ : ∃ beans₃, SensorSet.updateAll deserialize inp
      (updateSensorsData group data (withGroup set group text [])) = .ok beans₃ := by
    apply SensorSet.updateAll_ok_iff.mpr
    intro p parser hp b
    by_cases hpg : p = group
    · rw [parsers_updated, if_pos hpg, Option.some.injEq] at hp
      rw [← hp]
      exact update_group.mpr hdata
    · exact hupdates p parser (by rw [hother p hpg]; exact hp) b
  obtain ⟨set₃', hmsg⟩ := SensorSet.getMessage_of_updateAll hup
  obtain ⟨parsers, hframe⟩ := updateSensorsData_eq group data (withGroup set group text [])
  refine ⟨set₃', hmsg, ?_, ?_⟩
  · rw [(SensorSet.getMessage_mData hmsg).1, (SensorSet.getMessage_mData h).1, hframe]
    rfl
  · have hsensors : (withPlugin set group description ordered).sensors =
        (updateSensorsData group data (withGroup set group text [])).sensors := by
      rw [hframe]
      exact (toList_insertRange_of_mem hused).trans (@sensors_withGroup set group text []).symm
    refine (SensorSet.getMessage_agree hO₁ hO₃ hsensors ?_ ?_ ?_ (fun n s p k hs hsrc =>
      hother p (source_ne_group hO hname hused hs hsrc)) h hmsg).symm
    all_goals
      rw [hframe]
      rfl

open JSONSensorsParser in
/-- **When the two lines do what the plugin does.** -/
theorem sameAsPlugin_iff (hk : KeysOfText deserialize)
    (hreach : SensorSet.Reachable deserialize pf set) (hg : IsGroup group)
    (hname : group ∉ set.mJSONSensorsParsers) (hadd : FitsLine (addLine group description))
    (hupdate : FitsLine (updateLine group data)) :
    SameAsPlugin deserialize pf set group description data ↔
      NothingToAdd deserialize pf set group description data := by
  have hdesc : JSONSensorProvider.getSensorsDescription (.plugin description) = description :=
    cstr_of_no_zero hadd.no_zero
  have hlower := cstr_map_toLower hupdate.no_zero
  constructor
  · intro hsame v hv hr
    obtain ⟨-, ordered, ho, hsig⟩ :=
      (@parseDescription_cases pf group deserialize _ v hv).resolve_right fun hbad => hbad.1 hr
    have hget : getSensors deserialize pf (.plugin description) group =
        .ok (⟨.plugin description, group, ordered.map Prod.snd⟩, mSensors ordered) := by
      rw [getSensors, hdesc, ho]
      rfl
    have hplugin := SensorSet.addJSONSensorProvider_new hname hget
    obtain ⟨set₂, set₃, hline, hsensors, hupd, hmsg⟩ := hsame _ hplugin
    obtain ⟨hw, rfl⟩ := (serve_addLine hk hg hname hadd []).mp (hline [])
    rw [sensors_withGroup] at hsensors
    refine ⟨(unused_iff hsig).mpr fun n hn => mem_of_toList_insertRange hsensors.symm hn, hw, ?_⟩
    by_cases hparsed : data = [] ∨ ∃ w, deserialize (data.map toLower) = .ok w
    · exact hparsed.imp_right .inl
    refine .inr (.inr fun set₁ inp set₁' hset₁ hinp hret => hparsed ?_)
    rw [hplugin, Except.ok.injEq, Prod.mk.injEq] at hset₁
    rw [← hset₁.1] at hret
    obtain ⟨set₃', hm, -⟩ := hmsg inp set₁' hinp hret
    have hline := (serve_updateLine hg hupdate []).symm.trans (hupd [])
    rw [Option.some.injEq, Except.ok.injEq, Outcome.mk.injEq] at hline
    obtain ⟨beans, ws, hws, -⟩ := SensorSet.getMessage_cases hm
    have hup := SensorSet.updateAll_ok_iff.mp ⟨beans, (SensorSet.messageWrites_ok hws).1⟩ group _
      (by rw [← hline.1, parsers_updated, if_pos rfl]) set.beans
    have hdata := update_group.mp hup
    rw [hlower] at hdata
    exact hdata.imp_left List.map_eq_nil_iff.mp
  · intro hcond set₁ hplugin
    obtain ⟨v, ordered, hv, hr, hsig, rfl⟩ := addPlugin_cases hadd.no_zero hplugin
    obtain ⟨hused, hw, hdata⟩ := hcond v hv hr
    have hused := (unused_iff hsig).mp hused
    have hO := hreach.owned
    have hO₁ := SensorSet.owned_addJSONSensorProvider hO hplugin
    have hline := (@serve_addLine _ pf _ _ _ hk hg hname hadd [] _).mpr ⟨hw, rfl⟩
    rw [serve_line hadd, Option.some.injEq, execute_addLine hg hadd] at hline
    obtain ⟨⟨set₂, b⟩, hstatic, h⟩ := bind_eq_ok.mp hline
    cases h
    have hO₃ := SensorSet.owned_updateSensorsData group (data.map toLower)
      (SensorSet.owned_addJSONSensorProvider hO hstatic)
    refine ⟨withGroup set group (description.map toLower) [], _,
      fun rest => (serve_addLine hk hg hname hadd rest).mpr ⟨hw, rfl⟩,
      sensors_withGroup.trans (toList_insertRange_of_mem hused).symm,
      serve_updateLine hg hupdate, fun inp set₁' hinp hmsg => ?_⟩
    have hparsed : cstr (data.map toLower) = [] ∨
        ∃ w, deserialize (cstr (data.map toLower)) = .ok w := by
      rw [hlower]
      rcases hdata with rfl | hparsed | hnever
      · exact .inl rfl
      · exact .inr hparsed
      · exact absurd hmsg (hnever _ inp set₁' hplugin hinp)
    obtain ⟨set₃', hm, hsize, hmem⟩ := message_same hO hname hO₁ hO₃ hused hparsed hmsg
    refine ⟨set₃', hm, ?_⟩
    rw [hmem, SensorSet.getSize, SensorSet.getSize, hsize]

end PluginAndLine

open JSONSensorsParser in
/-- The keys of the samples are cut out of their texts. -/
theorem keysOfText_sample : KeysOfText sampleDeserialize := by
  intro text elems fields key v h hf hkey
  unfold sampleDeserialize at h
  split at h
  · next ht =>
    cases h
    cases List.mem_singleton.mp hf
    rcases List.mem_pair.mp hkey with he | he <;> cases he <;> rw [ht] <;> decide
  split at h
  · next ht =>
    cases h
    cases List.mem_singleton.mp hf
    rcases List.mem_pair.mp hkey with he | he <;> cases he <;> rw [ht] <;> decide
  split at h
  · cases h
    cases List.mem_singleton.mp hf
  · cases h

open JSONSensorsParser in
/-- A sensor that is in use already. -/
theorem sameAsPlugin_iff_sample :
    ∃ set, SensorSet.constructSample sampleDeserialize 20 = .ok set ∧
      SameAsPlugin sampleDeserialize .x86 set (ascii "g") sampleDescription sampleData := by
  have hfits : ∀ {line : Bytes}, line.length ≤ 1023 → (0 : UInt8) ∉ line → (10 : UInt8) ∉ line →
      (13 : UInt8) ∉ line → FitsLine line := fun hl h0 h10 h13 =>
    ⟨hl, fun c hc => ⟨fun h => h0 (h ▸ hc), fun h => h10 (h ▸ hc), fun h => h13 (h ▸ hc)⟩⟩
  refine ⟨_, rfl, ?_⟩
  have hreach : SensorSet.Reachable sampleDeserialize .x86 _ := .construct
    (show SensorSet.construct sampleDeserialize .x86 (.sample 20) .sample (fun _ => 0)
      (fun _ _ => 0) = .ok _ from rfl)
  refine (sameAsPlugin_iff keysOfText_sample hreach (fun c hc => ?_) Std.TreeMap.not_mem_emptyc
    (hfits (by decide) (by decide) (by decide) (by decide))
    (hfits (by decide) (by decide) (by decide) (by decide))).mpr fun v hv _ => ?_
  · cases List.mem_singleton.mp hc
    decide
  · obtain rfl : _ = v := Except.ok.inj hv
    refine ⟨fun e he => ?_, ⟨_, rfl, show (1 : Nat) < 65536 by decide⟩, .inr (.inl ⟨_, rfl⟩)⟩
    cases List.mem_singleton.mp he
    decide

open JSONSensorsParser in
/-- The sample's sensor is not added over the command line. -/
theorem addsensors_adds_nothing :
    ∃ set, SensorSet.constructSample sampleDeserialize 2 = .ok set ∧
      ¬ SameAsPlugin sampleDeserialize .x86 set (ascii "g") sampleDescription sampleData := by
  refine ⟨_, rfl, fun h => ?_⟩
  obtain ⟨set₂, set₃, hline, hsensors, -⟩ := h _ rfl
  have hadd := congrArg (Option.map fun r => r.toOption.map fun o => o.sensors.sensors.length)
    (hline [])
  have hcount : set₂.sensors.length = 2 :=
    Option.some.inj (Option.some.inj (hadd.symm.trans (by decide +kernel)))
  rw [hsensors] at hcount
  exact absurd hcount (by decide +kernel)

end TelnetServer

end RecsDaemon
