import RecsDaemon.Json
import RecsDaemon.Base.Number

/-!
# JSON sensor providers

`JSONSensorsParser`: `getSensors` makes the beans a provider's description
lists, `updateSensors` stores the values of the provider's data in them, by
position. Conversions C++ leaves undefined are fields of `Platform`.
-/

namespace RecsDaemon

open Base Json

/-- What the platform does where a floating-point conversion is out of range. -/
structure Platform where
  /-- `(uint8_t)` of a double whose integer part is above 255. -/
  uint8OfLarge : Nat → UInt8
  /-- `(uint8_t)` of a quotient by `0.0`. -/
  uint8OfQuotient : Nat → UInt8
  /-- `(int)` of a double that no `int` is. -/
  intOfLarge : Double → Int32

/-- x86-64: a truncation to 32 bits, whose low byte is kept. What no `int` is gives the least one,
with a low byte of zero. -/
def Platform.x86 : Platform :=
  ⟨fun n => if n < 2 ^ 31 then UInt8.ofNat n else 0, fun _ => 0, fun _ => Int32.minValue⟩

/-- A truncation that stops at the bounds of its type, as on ARM. -/
def Platform.saturating : Platform :=
  ⟨fun n => UInt8.ofNat (min n (2 ^ 32 - 1)), fun n => if n = 0 then 0 else 255,
    fun d => if d.intPart < 0 then Int32.minValue else Int32.maxValue⟩

def Platform.toInt (pf : Platform) (d : Double) : Int32 :=
  if d.intPart < -2 ^ 31 ∨ 2 ^ 31 ≤ d.intPart then pf.intOfLarge d else Int32.ofInt d.intPart

/-! ## Providers -/

/-- A provider is a plugin, which is asked for its data at every update, or the
`StaticJSONSensorProvider` of a command line. -/
inductive JSONSensorProvider where
  | plugin (description : Text)
  | static (description data : Text)
deriving DecidableEq

namespace JSONSensorProvider

def getSensorsDescription : JSONSensorProvider → Text
  | plugin description => cstr description
  | static description _ => cstr description

/-- `getSensorsData`, `answer` being what a plugin gives. -/
def getSensorsData (answer : Text) : JSONSensorProvider → Text
  | plugin _ => cstr answer
  | static _ data => cstr data

end JSONSensorProvider

structure JSONSensorsParser where
  mSensorProvider : JSONSensorProvider
  mName : Text
  mSensorsOrdered : List Sensor
deriving DecidableEq

namespace JSONSensorsParser

/-! ## getSensors -/

/-- The `dataType` texts: the type, and the size unless the description gives it. -/
def dataTypeOf (s : Text) : Option (SensorDataType × Option Nat) :=
  if s = ascii "U8" then some (.u8, some 1)
  else if s = ascii "U16" then some (.u16, some 2)
  else if s = ascii "U32" then some (.u32, some 4)
  else if s = ascii "U64" then some (.u64, some 8)
  else if s = ascii "double" then some (.float, some 8)
  else if s = ascii "string" then some (.str, none)
  else none

/-- `istringstream(s) >> maxDataSize` reads a `uint8_t` as a character; `0` stays if there is none. -/
def extractUInt8 (s : Text) : Nat :=
  match s.dropWhile isSpace with
  | c :: _ => c.toNat
  | [] => 0

/-- The declared type and size; `none` skips the entry. -/
def parseDataType (sensor : Value) : Except Fault (Option (SensorDataType × Nat)) := do
  let dataTypeStr ← (← sensor.field (ascii "dataType")).toText
  match dataTypeOf dataTypeStr with
  | none => pure none
  | some (dataType, some maxDataSize) => pure (some (dataType, maxDataSize))
  | some (dataType, none) =>
    if ← sensor.hasKey (ascii "maxDataSize") then
      let s ← (← sensor.field (ascii "maxDataSize")).toText
      pure (some (dataType, extractUInt8 s))
    else
      pure none

def unitOf (s : Text) : SensorUnit :=
  if s = ascii "W" then .power
  else if s = ascii "A" then .current
  else if s = ascii "V" then .voltage
  else if s = [0xC2, 0xB0, 0x43] then .temperature -- "°C" in UTF-8
  else if s = ascii "RPM" then .rotationalSpeed
  else .dimensionless

def parseUnit (sensor : Value) : Except Fault SensorUnit := do
  if ← sensor.hasKey (ascii "unit") then
    pure (unitOf (← (← sensor.field (ascii "unit")).toText))
  else
    pure .dimensionless

/-- Whether the two thresholds under `key` are used, and their values. -/
def parseThresholds (sensor : Value) (key : Text) : Except Fault (Bool × Double × Double) := do
  if ← sensor.hasKey key then
    match ← sensor.field key with
    | .array (a :: b :: _) => pure (true, a.toDoubleOr .zero, b.toDoubleOr .zero)
    | _ => pure (false, .zero, .zero)
  else
    pure (false, .zero, .zero)

def parseNumberOfValues (pf : Platform) (sensor : Value) : Except Fault UInt16 := do
  if ← sensor.hasKey (ascii "numberOfValues") then
    match ← sensor.field (ascii "numberOfValues") with
    | .int n => pure n.toUInt32.toUInt16
    | .double d => pure (pf.toInt d).toUInt32.toUInt16
    | _ => pure 1
  else
    pure 1

def parseGroup (sensor : Value) : Except Fault Text := do
  if ← sensor.hasKey (ascii "group") then
    (← sensor.field (ascii "group")).toText
  else
    pure []

/-- One entry of the description: its bean, or `none` where it is skipped with an error message. -/
def parseSensor (pf : Platform) (source : Source) (sensor : Value) :
    Except Fault (Option (Text × Sensor)) := do
  if sensor.isObject then
    if (← sensor.hasKey (ascii "name")) && (← sensor.hasKey (ascii "dataType")) then
      let name ← (← sensor.field (ascii "name")).toText
      if name.length > sensorNameLength then pure none
      else
        match ← parseDataType sensor with
        | none => pure none
        | some (dataType, maxDataSize) =>
          let unit ← parseUnit sensor
          let (useLower, lowerCritical, lowerWarning) ←
            parseThresholds sensor (ascii "lowerThresholds")
          let (useUpper, upperWarning, upperCritical) ←
            parseThresholds sensor (ascii "upperThresholds")
          let numberOfValues ← parseNumberOfValues pf sensor
          let group ← parseGroup sensor
          pure (some (name, ⟨source, ⟨dataType, maxDataSize, unit, useLower, useUpper,
            lowerCritical, lowerWarning, upperWarning, upperCritical, numberOfValues, group,
            .textual⟩⟩))
    else pure none
  else pure none

/-- The entries after `done`, in order. A bean is known by its position in `mSensorsOrdered`. -/
def parseSensors (pf : Platform) (parser : Text) :
    List Value → List (Text × Sensor) → Except Fault (List (Text × Sensor))
  | [], done => pure done
  | v :: vs, done => do
    match ← parseSensor pf (.bean parser done.length) v with
    | some s => parseSensors pf parser vs (done ++ [s])
    | none => parseSensors pf parser vs done

/-- The elements the `uint16_t` loop of `getSensors` goes through; it ends only below `2^16`. -/
def parseElements (pf : Platform) (parser : Text) (elems : List Value) :
    Except Fault (List (Text × Sensor)) := do
  let done ← parseSensors pf parser (elems.take 65536) []
  if elems.length < 65536 then pure done else throw .endless

/-- The beans a description text lists, with their names, in order. -/
def parseDescription (deserialize : Deserialize) (pf : Platform) (parser description : Text) :
    Except Fault (List (Text × Sensor)) := do
  match ← deserialize description with
  | .null => pure []
  | .array elems => parseElements pf parser elems
  -- only an array can be indexed with a number
  | v => if v.size = 0 then pure [] else throw .json

/-- `mSensors`: of two beans with one name the first. -/
def mSensors (ordered : List (Text × Sensor)) : SensorMap :=
  ordered.foldl (fun m p => m.insertIfNew p.1 p.2) ∅

/-- A new parser and what its `getSensors` returns. -/
def getSensors (deserialize : Deserialize) (pf : Platform) (provider : JSONSensorProvider)
    (name : Text) : Except Fault (JSONSensorsParser × SensorMap) := do
  let ordered ← parseDescription deserialize pf name provider.getSensorsDescription
  pure (⟨provider, name, ordered.map Prod.snd⟩, mSensors ordered)

/-! ### A description of one sensor -/

def sampleDescription : Text :=
  ascii "[\x7b\"name\": \"t\", \"dataType\": \"U8\"\x7d]"

def sampleData : Text := ascii "[7]"

/-- What the JSON library makes of the sample, also in lower case. -/
def sampleDeserialize : Deserialize := fun text =>
  if text = sampleDescription then
    .ok (.array [.object [(ascii "dataType", .text (ascii "U8")), (ascii "name", .text (ascii "t"))]])
  else if text = ascii "[\x7b\"name\": \"t\", \"datatype\": \"u8\"\x7d]" then
    .ok (.array [.object [(ascii "datatype", .text (ascii "u8")), (ascii "name", .text (ascii "t"))]])
  else if text = sampleData then .ok (.array [.int 7])
  else .ok .null

def sampleSensor (parser : Text) : Sensor :=
  ⟨.bean parser 0, ⟨.u8, 1, .dimensionless, false, false, .zero, .zero, .zero, .zero, 1, [],
    .textual⟩⟩

example : parseDescription sampleDeserialize .x86 (ascii "g") sampleDescription =
    .ok [(ascii "t", sampleSensor (ascii "g"))] := by rfl

/-! ## updateSensors -/

/-- Store one value; the wrong kinds of value are skipped with an error message. -/
def updateSensor (stack : Mem) (sensor : Sensor) (value : Value) (beans : Beans) : Beans :=
  match value with
  | .null | .object _ | .array _ => beans
  | value =>
    if sensor.getDataType ≠ .str then
      match value with
      | .double d =>
        SensorBean.setData beans sensor (SensorBean.doubleBytes sensor.getMaxDataSize stack d)
      | .int v =>
        SensorBean.setData beans sensor
          (SensorBean.uint32Bytes sensor.getMaxDataSize stack v.toUInt32)
      | _ => beans
    else
      SensorBean.setData beans sensor
        (SensorBean.textBytes sensor.getMaxDataSize (value.toTextOr []))

/-- The loop over the beans: `i` is the `uint16_t` index of the next value. -/
def updateValues (stack : Nat → Mem) (values : List Value) :
    Nat → List Sensor → Beans → Beans
  | _, [], beans => beans
  | i, s :: ss, beans =>
    updateValues stack values ((i + 1) % 65536) ss
      (updateSensor (stack i) s (values.getD i .null) beans)

/-- `updateSensors`, with the text the provider gives and the stack below the setters' arguments. -/
def updateSensors (deserialize : Deserialize) (parser : JSONSensorsParser) (answer : Text)
    (stack : Nat → Mem) (beans : Beans) : Except Fault Beans := do
  let sensorsDataString := parser.mSensorProvider.getSensorsData answer
  if sensorsDataString = [] then pure beans
  else
    match ← deserialize sensorsDataString with
    | .null => pure beans
    | sensorsData =>
      if sensorsData.size < parser.mSensorsOrdered.length then pure beans
      else
        match parser.mSensorsOrdered, sensorsData with
        | [], _ => pure beans
        | ordered, .array values => pure (updateValues stack values 0 ordered beans)
        | _, _ => throw .json

end JSONSensorsParser

end RecsDaemon
