import RecsDaemon.SensorSet.Size

/-!
# The command line

`CommandLineServerClient`: `readline` takes a line from the stream of a client,
`execute` runs it on the sensor set.
-/

namespace RecsDaemon

open Base Json

namespace TelnetServer

def bufferLength : Nat := 1024

/-- The line in the buffer after at most `len` characters of the stream, and the rest of the stream;
`none` when the stream ends first. Carriage returns do not count. -/
def readline : Nat → Bytes → Option (Bytes × Bytes)
  | 0, stream => some ([], stream)
  | _ + 1, [] => none
  | len + 1, c :: stream =>
    if c = 10 then some ([], stream)
    else if c = 13 then readline (len + 1) stream
    else (readline len stream).map fun p => (c :: p.1, p.2)

/-- `cmd`: the line as a string, in lower case. -/
def commandOf (line : Bytes) : Text := (cstr line).map toLower

theorem commandOf_commandOf (line : Bytes) : commandOf (commandOf line) = commandOf line := by
  unfold commandOf
  rw [cstr_map_toLower (zero_notMem_cstr line), List.map_map]
  exact List.map_congr_left fun c _ => toLower_toLower c

/-- The two words of parameters after the command's own: `name` up to the second space of the line,
and all the rest. -/
def parameters (cmd : Text) : Option (Text × Text) :=
  let rest := (cmd.dropWhile (· ≠ 32)).drop 1
  let name := rest.takeWhile (· ≠ 32)
  match rest.dropWhile (· ≠ 32) with
  | [] => none
  | _ :: text => some (name, text)

/-- What a command does to the set, and whether it resets the state machine. -/
structure Outcome where
  sensors : SensorSet
  reset : Bool

/-- `addsensors <name> <description>`. -/
def addsensors (deserialize : Deserialize) (pf : Platform) (cmd : Text) (set : SensorSet) :
    Except Fault Outcome :=
  match parameters cmd with
  | none => pure ⟨set, false⟩
  | some (name, description) => do
    let (set, added) ←
      SensorSet.addJSONSensorProvider deserialize pf (.static description []) name set
    pure ⟨set, added⟩

/-- `updateSensorsData` of the group's provider, if it is a `StaticJSONSensorProvider`. The group's
parser points to it. -/
def updateSensorsData (name data : Text) (set : SensorSet) : SensorSet :=
  match set.getJSONSensorProvider name with
  | some (.static description _) =>
    { set with
      mJSONSensorsParsers := set.mJSONSensorsParsers.modify name fun parser =>
        { parser with mSensorProvider := .static description data } }
  | _ => set

/-- `updatesensors <name> <data>`. -/
def updatesensors (cmd : Text) (set : SensorSet) : Outcome :=
  match parameters cmd with
  | none => ⟨set, false⟩
  | some (name, data) => ⟨updateSensorsData name data set, false⟩

/-- One line of a client. The other commands only answer. -/
def execute (deserialize : Deserialize) (pf : Platform) (line : Bytes) (set : SensorSet) :
    Except Fault Outcome :=
  let cmd := commandOf line
  if cmd = ascii "getnodeid" ∨ cmd.take 7 = ascii "monitor" then pure ⟨set, false⟩
  else if cmd.take 11 = ascii "addsensors " then addsensors deserialize pf cmd set
  else if cmd.take 14 = ascii "updatesensors " then pure (updatesensors cmd set)
  else pure ⟨set, false⟩

/-- The lines of a client, one after the other, until one throws. -/
def executeAll (deserialize : Deserialize) (pf : Platform) (lines : List Bytes) (set : SensorSet) :
    Except Fault SensorSet :=
  lines.foldlM (fun set line => do pure (← execute deserialize pf line set).sensors) set

/-! ## What a line leaves as it is -/

theorem updateSensorsData_eq (name data : Text) (set : SensorSet) : ∃ parsers,
    updateSensorsData name data set = { set with mJSONSensorsParsers := parsers } := by
  unfold updateSensorsData
  split <;> exact ⟨_, rfl⟩

theorem updateSensorsData_mSensorMap (name data : Text) (set : SensorSet) :
    (updateSensorsData name data set).mSensorMap = set.mSensorMap := by
  obtain ⟨parsers, h⟩ := updateSensorsData_eq name data set
  rw [h]

theorem updatesensors_mSensorMap (cmd : Text) (set : SensorSet) :
    (updatesensors cmd set).sensors.mSensorMap = set.mSensorMap := by
  unfold updatesensors
  split
  · rfl
  · exact updateSensorsData_mSensorMap _ _ _

theorem addsensors_mSensorMap {deserialize : Deserialize} {pf : Platform} {cmd : Text}
    {set set' : SensorSet} (h : addsensors deserialize pf cmd set = .ok ⟨set', false⟩) :
    set'.mSensorMap = set.mSensorMap := by
  unfold addsensors at h
  split at h
  · cases h; rfl
  · obtain ⟨⟨set1, added⟩, ha, h⟩ := bind_eq_ok.mp h
    cases h
    rcases SensorSet.addJSONSensorProvider_cases ha with ⟨-, rfl, -⟩ | ⟨-, hb, -⟩
    · rfl
    · cases hb

/-- Without a reset no sensor comes or goes. -/
theorem execute_mSensorMap {deserialize : Deserialize} {pf : Platform} {line : Bytes}
    {set set' : SensorSet} (h : execute deserialize pf line set = .ok ⟨set', false⟩) :
    set'.mSensorMap = set.mSensorMap := by
  unfold execute at h
  simp only at h
  split at h
  · cases h; rfl
  split at h
  · exact addsensors_mSensorMap h
  split at h
  · have hu := updatesensors_mSensorMap (commandOf line) set
    rw [Except.ok.inj h] at hu
    exact hu
  · cases h; rfl

end TelnetServer

end RecsDaemon
