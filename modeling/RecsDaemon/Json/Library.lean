import RecsDaemon.Json.RoundTrip
import RecsDaemon.TelnetServer.LowerCase

/-!
# The daemon with its JSON library

The daemon's texts go through `json::Deserialize`. No line of a client adds a
sensor (`sensors_session`), an update stores the values of a written array that
are not null (`updateSensors_serialize`), and one integer between `int` and
`long` takes its whole array with it (`updateSensors_integers`).
-/

namespace RecsDaemon

open Base

namespace Json

/-- The library as the daemon meets it: nothing catches what it throws. -/
def library (libc : Libc) : Deserialize := fun text =>
  (deserialize libc text).mapError fun _ => .json

theorem library_eq_ok {libc : Libc} {text : Text} {v : Value} :
    library libc text = .ok v ↔ deserialize libc text = .ok v := by
  unfold library
  cases deserialize libc text with
  | error e => exact ⟨nofun, nofun⟩
  | ok w => exact ⟨fun h => by cases h; rfl, fun h => by cases h; rfl⟩

/-! ## Sessions -/

/-- **The keys of a description are cut out of its text.** -/
theorem keysOfText_library (libc : Libc) : TelnetServer.KeysOfText (library libc) := by
  intro text elems fields key v h hf hkey
  have hin : KeyIn key (.array elems) := .elem hf (.key hkey)
  exact (key_piece (library_eq_ok.mp h) hin).subset

def session (libc : Libc) (pf : Platform) (lines : List Bytes) (set : SensorSet) :
    Except Fault SensorSet :=
  TelnetServer.executeAll (library libc) pf lines set

theorem parameters_lower {line : Bytes} {name description : Text}
    (h : TelnetServer.parameters (TelnetServer.commandOf line) = some (name, description)) :
    description.map toLower = description := by
  unfold TelnetServer.parameters at h
  dsimp only at h
  split at h
  · cases h
  · next c text hrest =>
    cases h
    have hmem : ∀ d ∈ description, ∃ e, toLower e = d := by
      intro d hd
      have hcmd : d ∈ TelnetServer.commandOf line :=
        (List.dropWhile_suffix _).subset ((List.drop_suffix _ _).subset
          ((List.dropWhile_suffix _).subset (hrest ▸ List.mem_cons_of_mem c hd)))
      obtain ⟨e, -, he⟩ := List.mem_map.mp hcmd
      exact ⟨e, he⟩
    refine (List.map_congr_left fun d hd => ?_).trans description.map_id
    obtain ⟨e, rfl⟩ := hmem d hd
    exact toLower_toLower e

theorem sensors_execute {libc : Libc} {pf : Platform} {line : Bytes} {set : SensorSet}
    {out : TelnetServer.Outcome}
    (h : TelnetServer.execute (library libc) pf line set = .ok out) :
    out.sensors.mSensorMap = set.mSensorMap := by
  obtain ⟨set', reset⟩ := out
  cases reset with
  | false => exact TelnetServer.execute_mSensorMap h
  | true =>
    unfold TelnetServer.execute at h
    dsimp only at h
    split at h
    · cases h
    split at h
    · unfold TelnetServer.addsensors at h
      split at h
      · cases h
      · next name description hp =>
        obtain ⟨⟨set1, added⟩, ha, h⟩ := bind_eq_ok.mp h
        cases h
        rcases SensorSet.addJSONSensorProvider_cases ha with ⟨-, -, hb⟩ | ⟨-, -, parser, map, hg, rfl⟩
        · cases hb
        have hlower := parameters_lower hp
        have hdesc : (JSONSensorProvider.getSensorsDescription (.static description [])).map
            toLower = JSONSensorProvider.getSensorsDescription
              (.static description []) := by
          refine (List.map_congr_left fun c hc => ?_).trans (List.map_id _)
          have hmem : c ∈ description := (List.takeWhile_prefix _).subset hc
          rw [← hlower] at hmem
          obtain ⟨e, -, rfl⟩ := List.mem_map.mp hmem
          exact toLower_toLower e
        obtain ⟨w, hw, -⟩ := bind_eq_ok.mp (JSONSensorsParser.getSensors_ok hg).choose_spec.1
        obtain ⟨-, ordered, -, rfl, hsig⟩ := JSONSensorsParser.getSensors_entries hg hw
        rw [← hdesc] at hw
        rw [(TelnetServer.entries_lower (keysOfText_library libc) hw).2] at hsig
        obtain rfl := List.map_eq_nil_iff.mp hsig
        rfl
    split at h
    · have hu := TelnetServer.updatesensors_mSensorMap (TelnetServer.commandOf line) set
      rw [Except.ok.inj h] at hu
      exact hu
    · cases h

/-- **No line adds a sensor**, whatever the clients send. -/
theorem sensors_session {libc : Libc} {pf : Platform} {lines : List Bytes} {set set' : SensorSet}
    (h : session libc pf lines set = .ok set') : set'.sensors = set.sensors := by
  have hmap : set'.mSensorMap = set.mSensorMap := by
    refine foldlM_induct (I := fun s : SensorSet => s.mSensorMap = set.mSensorMap)
      (fun s line s' _ hs hstep => ?_) rfl h
    obtain ⟨out, hout, hset⟩ := bind_eq_ok.mp hstep
    cases hset
    rw [sensors_execute hout, hs]
  rw [SensorSet.sensors, hmap, SensorSet.sensors]

open JSONSensorsParser in
/-- A client adds a group and sends it data. -/
theorem sensors_session_sample :
    ∃ set set', SensorSet.constructSample (library .integers) 2 = .ok set ∧
      session .integers .x86 [TelnetServer.addLine (ascii "g") sampleDescription,
        TelnetServer.updateLine (ascii "g") sampleData] set = .ok set' ∧
      set'.sensors = set.sensors :=
  ⟨_, _, rfl, rfl, @sensors_session .integers .x86
    [TelnetServer.addLine (ascii "g") sampleDescription,
      TelnetServer.updateLine (ascii "g") sampleData] _ _ rfl⟩

/-! ## Data -/

open JSONSensorsParser in
/-- The text of an array is read as its values, or nothing comes of it. -/
theorem updateSensors_elements {libc : Libc} {a t b : Text} {vs : Option (List Value)} (ha : Blank a)
    (he : Elements libc t vs) (hb : Blank b) {parser : JSONSensorsParser} {answer : Text}
    (ht : parser.mSensorProvider.getSensorsData answer = a ++ (91 :: t ++ [93]) ++ b)
    (stack : Nat → Mem) (beans : Beans) :
    updateSensors (library libc) parser answer stack beans =
      .ok (vs.elim beans fun values => if values.length < parser.mSensorsOrdered.length then beans
        else updateValues stack values 0 parser.mSensorsOrdered beans) := by
  have hd := Denotes.array he
  have hne : a ++ (91 :: t ++ [93]) ++ b ≠ [] := by simp
  unfold updateSensors
  rw [ht, if_neg hne, library_eq_ok.mpr (deserialize_of_trim hd (hd.trim_blank ha hb)), ok_bind]
  cases vs with
  | none => rfl
  | some values =>
    have hsize : (Value.array values).size = values.length := rfl
    simp only [Option.elim_some, document, hsize]
    by_cases hlen : values.length < parser.mSensorsOrdered.length
    · rw [if_pos hlen, if_pos hlen]
      rfl
    · rw [if_neg hlen, if_neg hlen]
      cases parser.mSensorsOrdered <;> rfl

open JSONSensorsParser in
/-- **An update with a written array** goes on with its values that are not null, if there are enough
of them and no string is cut. -/
theorem updateSensors_serialize {libc : Libc} (hl : 32 ≤ libc.longBits) {values : List Value}
    (hv : ElementsPlain libc values) {parser : JSONSensorsParser} {answer : Text}
    (ht : parser.mSensorProvider.getSensorsData answer = serialize libc (.array values))
    (stack : Nat → Mem) (beans : Beans) :
    updateSensors (library libc) parser answer stack beans =
      .ok (if values.any cutShort ∨
          (receivedElements libc values).length < parser.mSensorsOrdered.length then beans
        else updateValues stack (receivedElements libc values) 0 parser.mSensorsOrdered beans) := by
  have htext : serialize libc (.array values) =
      [] ++ (91 :: serializeElements libc true values ++ [93]) ++ [] := by
    rw [List.nil_append, List.append_nil]
    show serializeValue libc (.array values) = _
    rw [serializeValue]
  rw [updateSensors_elements blank_nil (elements_received hl values hv) blank_nil (ht.trans htext)]
  cases values.any cutShort with
  | true => rfl
  | false => simp only [Bool.false_eq_true, if_false, false_or, Option.elim_some]

open JSONSensorsParser in
/-- A `null` in front of the value of the one sensor of a group. -/
theorem updateSensors_serialize_sample :
    updateSensors (library .integers)
      ⟨.static [] (serialize .integers (.array [.null, .bool true])), ascii "g",
        [sampleSensor (ascii "g")]⟩ [] (fun _ _ => 0) (fun _ _ => 0) =
      .ok (updateValues (fun _ _ => 0) [.bool true] 0 [sampleSensor (ascii "g")] (fun _ _ => 0)) :=
  @updateSensors_serialize .integers (by decide) [.null, .bool true]
    (by simp [ElementsPlain, Plain]) _ [] (by decide) _ _

/-! ## Integers -/

/-- One of the elements between the brackets is this integer. -/
inductive HasInteger (libc : Libc) (n : Int) : Text → Prop where
  | last {a b : Text} : Blank a → Blank b → HasInteger libc n (a ++ intText n ++ b)
  | here {a b rest : Text} {vs : Option (List Value)} : Blank a → Blank b → Elements libc rest vs →
      HasInteger libc n (a ++ intText n ++ (b ++ 44 :: rest))
  | later {a t b rest : Text} {v : Option Value} : Blank a → Denotes libc t v → Blank b →
      HasInteger libc n rest → HasInteger libc n (a ++ t ++ (b ++ 44 :: rest))

/-- An integer without a value takes its array with it, wherever it stands. -/
theorem elements_hasInteger {libc : Libc} {n : Int} (hn : integerRead libc n = none) {t : Text}
    (h : HasInteger libc n t) : Elements libc t none := by
  have hvalue : Denotes libc (intText n) none := hn ▸ .scalar (.int n)
  induction h with
  | last ha hb => exact .last ha hvalue hb
  | here ha hb hrest => exact .cons ha hvalue hb hrest
  | later ha ht hb _ ih =>
    have hcons := Elements.cons ha ht hb ih
    simp only [Option.map_none, Option.bind_fun_none] at hcons
    exact hcons

open JSONSensorsParser in
/-- **One integer between the two ranges** among the elements of an array, and no sensor of the group
gets its value. -/
theorem updateSensors_integers {libc : Libc} {n : Int} (hint : n < -2 ^ 31 ∨ 2 ^ 31 ≤ n)
    (hlong : -2 ^ (libc.longBits - 1) ≤ n ∧ n < 2 ^ (libc.longBits - 1)) {a t b : Text}
    (ha : Blank a) (hn : HasInteger libc n t) (hb : Blank b) {parser : JSONSensorsParser}
    {answer : Text}
    (ht : parser.mSensorProvider.getSensorsData answer = a ++ (91 :: t ++ [93]) ++ b)
    (stack : Nat → Mem) (beans : Beans) :
    updateSensors (library libc) parser answer stack beans = .ok beans := by
  have hnone : integerRead libc n = none := by
    rw [integerRead, if_neg (by omega), if_neg (by omega)]
  exact updateSensors_elements ha (elements_hasInteger hnone hn) hb ht stack beans

open JSONSensorsParser in
/-- The integer stands between a string and a small one, with space around them. -/
theorem updateSensors_integers_sample :
    updateSensors (library .integers) ⟨.static [] (ascii " [\"a\", 3000000000 ,7]"), ascii "g",
      [sampleSensor (ascii "g")]⟩ [] (fun _ _ => 0) (fun _ _ => 0) = .ok (fun _ _ => 0) := by
  have hblank : Blank (ascii " ") := by
    intro c hc
    rw [List.mem_singleton.mp hc]
    rfl
  have hstring : Denotes .integers (34 :: ascii "a" ++ [34]) (some (.text (trim (ascii "a")))) :=
    .text (Bare.chars (by decide +kernel))
  have hseven : Elements .integers (ascii "7") (element (ascii "7") (integerRead .integers 7)) :=
    .last blank_nil (.scalar (.int 7)) blank_nil
  have hbetween := @HasInteger.here .integers 3000000000 _ _ _ _ hblank hblank hseven
  exact updateSensors_integers (by decide) (by decide) hblank
    (.later blank_nil hstring blank_nil hbetween) blank_nil (by decide +kernel) _ _

end Json

end RecsDaemon
