import RecsDaemon.Messages

/-!
# Sensors

What a sensor is to the daemon (`ISensor`): its description, and the object its
readings come from. The sensors of JSON providers are `SensorBean`s; the buffers
of all beans are one store, `Beans`, which the setters write.
-/

namespace RecsDaemon

open Base

/-! ## Enumerations -/

inductive SensorDataType where
  | none | u8 | u16 | u32 | s8 | s16 | s32 | bool | float | str | buf | lst | u64
deriving DecidableEq

def SensorDataType.code : SensorDataType → UInt8
  | .none => 0
  | .u8 => 1
  | .u16 => 2
  | .u32 => 3
  | .s8 => 4
  | .s16 => 5
  | .s32 => 6
  | .bool => 7
  | .float => 8
  | .str => 9
  | .buf => 10
  | .lst => 11
  | .u64 => 12

inductive SensorUnit where
  | power | current | voltage | temperature | rotationalSpeed | dimensionless | byteSecond | byte
  | percent
deriving DecidableEq

def SensorUnit.code : SensorUnit → UInt8
  | .power => 0
  | .current => 1
  | .voltage => 2
  | .temperature => 3
  | .rotationalSpeed => 4
  | .dimensionless => 5
  | .byteSecond => 6
  | .byte => 7
  | .percent => 8

inductive RenderingType where
  | textual
deriving DecidableEq

def RenderingType.code : RenderingType → UInt8
  | .textual => 0

/-! ## Sensors -/

/-- The object behind an `ISensor*`: one a plugin made, or a bean of a JSON provider. -/
inductive Source where
  | plugin (id : Nat)
  | bean (parser : Text) (index : Nat)
deriving DecidableEq

/-- What `ISensor` tells about a sensor. -/
structure SensorInfo where
  dataType : SensorDataType
  maxDataSize : Nat
  unit : SensorUnit
  useLowerThresholds : Bool
  useUpperThresholds : Bool
  lowerCriticalThreshold : Double
  lowerWarningThreshold : Double
  upperWarningThreshold : Double
  upperCriticalThreshold : Double
  numberOfValues : UInt16
  group : Text
  renderingType : RenderingType
deriving DecidableEq

structure Sensor where
  source : Source
  info : SensorInfo
deriving DecidableEq

namespace Sensor

def getDataType (s : Sensor) : SensorDataType := s.info.dataType

def getMaxDataSize (s : Sensor) : Nat := s.info.maxDataSize

/-- `getGroup` is a `const char*`. -/
def getGroup (s : Sensor) : Text := cstr s.info.group

end Sensor

abbrev SensorMap := Std.TreeMap Text Sensor

/-! ## Sensor beans -/

/-- The `mData` buffers of the beans. -/
abbrev Beans := Source → Mem

namespace SensorBean

/-- `setData(uint32_t)`: the last `n` bytes of the big-endian value, or, for `n > 4`, the value
and the `n - 4` bytes of stack before it. -/
def uint32Bytes (n : Nat) (stack : Mem) (value : UInt32) : Bytes :=
  (stack.read 0 (n - 4) ++ be 4 value.toNat).drop (4 - n)

/-- `setData(double)`: the first `n` bytes of the value in memory, with the stack after it. -/
def doubleBytes (n : Nat) (stack : Mem) (value : Double) : Bytes :=
  (value.bytes ++ stack.read 0 (n - 8)).take n

/-- `setData(string)`: with the terminator, as far as it fits. -/
def textBytes (n : Nat) (value : Text) : Bytes := (value ++ [0]).take n

def setData (beans : Beans) (s : Sensor) (bs : Bytes) : Beans :=
  Function.update beans s.source ((beans s.source).write 0 bs)

def getData (beans : Beans) (s : Sensor) : Bytes := (beans s.source).read 0 s.getMaxDataSize

theorem length_uint32Bytes (n : Nat) (stack : Mem) (v : UInt32) :
    (uint32Bytes n stack v).length = n := by
  simp [uint32Bytes]; omega

theorem length_doubleBytes (n : Nat) (stack : Mem) (d : Double) :
    (doubleBytes n stack d).length = n := by
  simp [doubleBytes]; omega

theorem length_textBytes_le (n : Nat) (t : Text) : (textBytes n t).length ≤ n := by
  simp [textBytes]

theorem setData_other {beans : Beans} {s : Sensor} {bs : Bytes} {src : Source}
    (h : src ≠ s.source) : setData beans s bs src = beans src :=
  Function.update_of_ne h _ _

end SensorBean

end RecsDaemon
