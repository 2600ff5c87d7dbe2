import RecsDaemon.JSONSensorsParser
import RecsDaemon.Base.Map

/-!
# The sensor set

`SensorSet`: the map of all sensors, the JSON providers some of them come from,
and the two encoders of the wire, `getMessage` for the readings and
`getDescriptionPage` for the descriptions. A function that fills a buffer gives
the list of its writes.
-/

namespace RecsDaemon

open Base Json

/-! ## Construction -/

/-- The entries of the configuration the constructor reads; sensors count from zero here. -/
structure SensorsConfig where
  count : Int
  pluginName : Nat → Text
  sensorName : Nat → Text
  options : Nat → Text
  sensorProviders : Text
  jsonSensorProviders : Text

structure PluginSensor where
  id : Nat
  info : SensorInfo
deriving DecidableEq

def PluginSensor.sensor (p : PluginSensor) : Sensor := ⟨.plugin p.id, p.info⟩

/-- What the plugins make: `none` where there is no such plugin, or no sensor with these options. -/
structure Factories where
  createSensor : Nat → Text → Option (Text → Option PluginSensor)
  createSensorProvider : Text → Option (Std.TreeMap Text PluginSensor)
  createJSONSensorProvider : Text → Option Text

/-- A configuration of `n` sensors `a`, `b`, ... of a plugin whose sensors have one byte. -/
def SensorsConfig.sample (n : Nat) : SensorsConfig :=
  ⟨n, fun _ => ascii "p", fun i => [UInt8.ofNat (97 + i)], fun _ => [], [], []⟩

def Factories.sample : Factories where
  createSensor i _ := some fun _ => some ⟨i, .u8, 1, .dimensionless, false, false, .zero, .zero,
    .zero, .zero, 1, [], .textual⟩
  createSensorProvider _ := none
  createJSONSensorProvider _ := none

/-- What a call of `getMessage` finds outside: the readings of the plugins' sensors, the data texts
of the JSON plugins, and the stack below the setters' arguments. -/
structure Inputs where
  reading : Nat → Bool × Mem
  answer : Text → Text
  stack : Text → Nat → Mem

def Inputs.zero : Inputs := ⟨fun _ => (true, fun _ => 0), fun _ => [], fun _ _ _ => 0⟩

/-- `mData` is a buffer of `allocated` bytes. -/
structure SensorSet where
  mSensorMap : SensorMap
  mJSONSensorsParsers : Std.TreeMap Text JSONSensorsParser
  mKnownGroups : Std.TreeMap Text UInt8
  mSize : Nat
  mData : Mem
  allocated : Nat
  beans : Beans

namespace SensorSet

def empty (mData : Mem) (beans : Beans) : SensorSet := ⟨∅, ∅, ∅, 0, mData, 0, beans⟩

def sensors (set : SensorSet) : List (Text × Sensor) := set.mSensorMap.toList

def totalDataSize (set : SensorSet) : Nat := total Sensor.getMaxDataSize set.mSensorMap

/-- One round of the loop over the manually configured sensors. -/
def addManualSensor (cfg : SensorsConfig) (fac : Factories) (m : SensorMap) (i : Nat) :
    SensorMap :=
  let pluginName := cfg.pluginName i
  let sensorName := cfg.sensorName i
  if pluginName = [] ∨ sensorName = [] then m
  else if sensorName.length > sensorNameLength then m
  else
    match fac.createSensor i pluginName with
    | none => m
    | some configure =>
      match configure (cfg.options i) with
      | none => m
      | some p => m.insert sensorName p.sensor

/-- `std::getline(ss, item, ',')` until it fails. -/
def splitComma : Text → List Text
  | [] => []
  | c :: cs =>
    if c = 44 then [] :: splitComma cs
    else
      match splitComma cs with
      | [] => [[c]]
      | item :: items => if cs.head? = some 44 then [c] :: items else (c :: item) :: items

/-- The sensors of one `ISensorProvider`; those of a name in use are dropped. -/
def addSensorProvider (fac : Factories) (m : SensorMap) (pluginName : Text) : SensorMap :=
  match fac.createSensorProvider pluginName with
  | none => m
  | some map => map.toList.foldl (fun m p => m.insertIfNew p.1 p.2.sensor) m

/-- `false` if the name is in use; else the provider's sensors are inserted, as far as their names
are not in use. -/
def addJSONSensorProvider (deserialize : Deserialize) (pf : Platform)
    (provider : JSONSensorProvider) (name : Text) (set : SensorSet) :
    Except Fault (SensorSet × Bool) :=
  if name ∈ set.mJSONSensorsParsers then pure (set, false)
  else do
    let (parser, map) ← JSONSensorsParser.getSensors deserialize pf provider name
    pure ({ set with
      mSensorMap := insertRange set.mSensorMap map
      mJSONSensorsParsers := set.mJSONSensorsParsers.insert name parser }, true)

def addPlugin (deserialize : Deserialize) (pf : Platform) (fac : Factories) (set : SensorSet)
    (pluginName : Text) : Except Fault SensorSet :=
  match fac.createJSONSensorProvider pluginName with
  | none => pure set
  | some description => do
    let (set, _) ← addJSONSensorProvider deserialize pf (.plugin description) pluginName set
    pure set

/-- The end of the constructor: the size of the data message is summed up and its buffer allocated. -/
def allocate (set : SensorSet) : SensorSet :=
  { set with
    mSize := MonitoringDataHeader.sizeof + set.totalDataSize
    allocated := MonitoringDataHeader.sizeof + set.totalDataSize }

/-- The constructor. `mData` and `beans` are what the allocated memory holds at first. -/
def construct (deserialize : Deserialize) (pf : Platform) (cfg : SensorsConfig) (fac : Factories)
    (mData : Mem) (beans : Beans) : Except Fault SensorSet := do
  -- the counter is a `uint16_t`
  if cfg.count > 65535 then throw .endless
  let manual := (List.range cfg.count.toNat).foldl (addManualSensor cfg fac) ∅
  let map := (splitComma cfg.sensorProviders).foldl (addSensorProvider fac) manual
  let set ← (splitComma cfg.jsonSensorProviders).foldlM (addPlugin deserialize pf fac)
    { empty mData beans with mSensorMap := map }
  pure set.allocate

def constructSample (deserialize : Deserialize) (n : Nat) : Except Fault SensorSet :=
  construct deserialize .x86 (.sample n) .sample (fun _ => 0) (fun _ _ => 0)

def getJSONSensorProvider (set : SensorSet) (name : Text) : Option JSONSensorProvider :=
  set.mJSONSensorsParsers[name]?.map JSONSensorsParser.mSensorProvider

def getSize (set : SensorSet) : Nat := set.mSize

def clear (set : SensorSet) : SensorSet :=
  { set with mSensorMap := ∅, mJSONSensorsParsers := ∅, mKnownGroups := ∅ }

/-! ## getMessage -/

/-- `Monitoring_Data_Header`, whose version byte is not written. -/
def headerWrites (set : SensorSet) : List (Nat × Bytes) :=
  [(0, MessageType.monitoringData.code :: be 2 set.mSize),
    (4, be 2 set.mSensorMap.size ++ [0])]

/-- The bytes of one sensor in the message: what its `getData` gave, or zeros if it failed. -/
def sensorBytes (inp : Inputs) (beans : Beans) (s : Sensor) : Bytes :=
  match s.source with
  | .plugin id =>
    let (ret, data) := inp.reading id
    if ret then data.read 0 s.getMaxDataSize else List.replicate s.getMaxDataSize 0
  | .bean _ _ => SensorBean.getData beans s

/-- The sensors one after the other, from `offset`. -/
def sensorWrites (inp : Inputs) (beans : Beans) : Nat → List Sensor → List (Nat × Bytes)
  | _, [] => []
  | offset, s :: ss =>
    (offset, sensorBytes inp beans s) :: sensorWrites inp beans (offset + s.getMaxDataSize) ss

/-- `updateSensors` of all parsers, in the order of their names. -/
def updateAll (deserialize : Deserialize) (inp : Inputs) (set : SensorSet) : Except Fault Beans :=
  set.mJSONSensorsParsers.toList.foldlM (fun beans p =>
    p.2.updateSensors deserialize (inp.answer p.1) (inp.stack p.1) beans) set.beans

/-- The writes of `getMessage` into `mData`, and the beans after it. -/
def messageWrites (deserialize : Deserialize) (inp : Inputs) (set : SensorSet) :
    Except Fault (Beans × List (Nat × Bytes)) := do
  let beans ← set.updateAll deserialize inp
  pure (beans, set.headerWrites ++
    sensorWrites inp beans MonitoringDataHeader.sizeof (set.sensors.map Prod.snd))

def getMessage (deserialize : Deserialize) (inp : Inputs) (set : SensorSet) :
    Except Fault SensorSet := do
  let (beans, writes) ← set.messageWrites deserialize inp
  pure { set with beans := beans, mData := set.mData.writeAll writes }

/-! ## getDescriptionPage -/

/-- The number of a group; a new name gets the next one, if there is one left. -/
def getGroupId (known : Std.TreeMap Text UInt8) (name : Text) : Std.TreeMap Text UInt8 × UInt8 :=
  if name = [] then (known, 0)
  else
    match known[name]? with
    | some id => (known, id)
    | none =>
      if 255 ≤ known.size then (known, 0)
      else
        let id := UInt8.ofNat (known.size + 1)
        (known.insert name id, id)

/-- The entry of a sensor with its group's number. -/
def sensorDescription (name : Text) (s : Sensor) (groupId : UInt8) : SensorDescription where
  entryLength := UInt8.ofNat SensorDescription.sizeof
  name := ⟨strncpy sensorNameLength (cstr name), length_strncpy _ _⟩
  dataType := s.info.dataType.code
  unit := s.info.unit.code
  maxDataSize := UInt16.ofNat s.getMaxDataSize
  useLowerThresholds := s.info.useLowerThresholds.toUInt8
  useUpperThresholds := s.info.useUpperThresholds.toUInt8
  lowerCriticalThreshold := s.info.lowerCriticalThreshold
  lowerWarningThreshold := s.info.lowerWarningThreshold
  upperWarningThreshold := s.info.upperWarningThreshold
  upperCriticalThreshold := s.info.upperCriticalThreshold
  numberOfValues := s.info.numberOfValues
  groupId := groupId
  renderingType := s.info.renderingType.code

/-- The entries of some sensors in order, and the groups known after them. -/
def describe : Std.TreeMap Text UInt8 → List (Text × Sensor) →
    Std.TreeMap Text UInt8 × List SensorDescription
  | known, [] => (known, [])
  | known, (name, s) :: ss =>
    let (known, id) := getGroupId known s.getGroup
    let (known, entries) := describe known ss
    (known, sensorDescription name s id :: entries)

/-- `(uint8_t)floor(n)` of a non-negative double of integer part `n`. -/
def toUInt8 (pf : Platform) (n : Nat) : UInt8 := if n < 256 then UInt8.ofNat n else pf.uint8OfLarge n

/-- The entries a page has room for; the subtraction of the header's size is one of `size_t`. -/
def sensorsPerPage (pf : Platform) (bufferSize : Nat) : UInt8 :=
  toUInt8 pf ((bufferSize + 2 ^ 64 - MonitoringDescriptionHeader.sizeof) % 2 ^ 64 /
    SensorDescription.sizeof)

/-- `ceil` of the quotient as a `uint8_t`, but at least one page. -/
def maxPages (pf : Platform) (sensorCnt : Nat) (perPage : UInt8) : UInt8 :=
  let n := if perPage = 0 then pf.uint8OfQuotient sensorCnt
    else toUInt8 pf ((sensorCnt + perPage.toNat - 1) / perPage.toNat)
  if n < 1 then 1 else n

def sensorsOnPage (sensorCnt : Nat) (perPage page maxPages : UInt8) : Except Fault UInt8 :=
  if page < maxPages then pure perPage
  else if perPage = 0 then throw .divisionByZero
  else
    let n := UInt8.ofNat (sensorCnt % perPage.toNat)
    if n = 0 ∧ 0 < sensorCnt then pure perPage else pure n

/-- `uint16_t startingSensor = (page - 1) * sensorsPerPage`. -/
def startingSensor (perPage page : UInt8) : Nat :=
  (((page.toNat : Int) - 1) * perPage.toNat % 2 ^ 16).toNat

/-- What a call of `getDescriptionPage` leaves behind: `*maxPages`, the writes into the buffer, the
returned size and the groups known after it. -/
structure Page where
  maxPages : UInt8
  writes : List (Nat × Bytes)
  size : Nat
  mKnownGroups : Std.TreeMap Text UInt8

/-- The message in a buffer that held `m` before. -/
def Page.bytes (p : Page) (m : Mem) : Bytes := (m.writeAll p.writes).read 0 p.size

def descriptionHeader (size : Nat) (page maxPages sensorsOnPage : UInt8) (startIndex : Nat) :
    MonitoringDescriptionHeader :=
  ⟨⟨MessageType.monitoringDescription.code, UInt16.ofNat size, 0⟩, page, maxPages, sensorsOnPage,
    UInt16.ofNat startIndex⟩

def getDescriptionPage (pf : Platform) (bufferSize : Nat) (page : UInt8) (set : SensorSet) :
    Except Fault Page := do
  let sensorCnt := set.mSensorMap.size % 2 ^ 16
  let perPage := sensorsPerPage pf bufferSize
  let max := maxPages pf sensorCnt perPage
  let onPage ← sensorsOnPage sensorCnt perPage page max
  let start := startingSensor perPage page
  -- the iterator is advanced to `start + onPage` by loops with a `uint16_t` counter
  if set.mSensorMap.size < start + onPage.toNat ∨ 65535 < start + onPage.toNat then throw .pastEnd
  let (known, entries) := describe set.mKnownGroups ((set.sensors.drop start).take onPage.toNat)
  let size := MonitoringDescriptionHeader.sizeof + onPage.toNat * SensorDescription.sizeof
  pure {
    maxPages := max
    writes := Mem.consecutive MonitoringDescriptionHeader.sizeof
      (entries.map SensorDescription.bytes) ++ [(0, (descriptionHeader size page max onPage
        start).bytes)]
    size := size
    mKnownGroups := known }

end SensorSet

end RecsDaemon
