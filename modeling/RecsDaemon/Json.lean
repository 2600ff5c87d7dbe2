import RecsDaemon.Sensor

/-!
# JSON values

`json::Value` and its accessors, as far as the daemon uses them. An accessor
that throws gives `Fault.json`; nothing in the daemon catches it.
-/

namespace RecsDaemon

open Base

/-- What ends the program, or keeps it from going on. -/
inductive Fault where
  /-- an exception of the JSON library -/
  | json
  /-- a loop whose 16-bit counter never reaches its bound -/
  | endless
  /-- an integer division by zero -/
  | divisionByZero
  /-- an iterator moved past the end of its map -/
  | pastEnd
deriving DecidableEq

namespace Json

/-- `json::Value`: the kinds `json::Deserialize` makes. -/
inductive Value where
  | null
  | text (s : Text)
  | int (v : Int32)
  | double (d : Double)
  | object (fields : List (Text × Value))
  | array (elems : List Value)
  | bool (b : Bool)

inductive ValueType where
  | null | text | int | double | object | array | bool
deriving DecidableEq

namespace Value

def getType : Value → ValueType
  | null => .null
  | text _ => .text
  | int _ => .int
  | double _ => .double
  | object _ => .object
  | array _ => .array
  | bool _ => .bool

/-- `size()`: one for anything that is no object and no array. -/
def size : Value → Nat
  | object fields => fields.length
  | array elems => elems.length
  | _ => 1

def isObject : Value → Bool
  | object _ => true
  | _ => false

def hasKey (v : Value) (key : Text) : Except Fault Bool :=
  match v with
  | object fields => .ok (fields.lookup key).isSome
  | _ => .error .json

/-- `operator [](key)`: the value, null where there is none. -/
def field (v : Value) (key : Text) : Except Fault Value :=
  match v with
  | object fields => .ok ((fields.lookup key).getD null)
  | _ => .error .json

/-- `operator std::string` and `ToString()`. -/
def toText : Value → Except Fault Text
  | text s => .ok s
  | _ => .error .json

/-- `ToString(def)`. -/
def toTextOr (v : Value) (dflt : Text) : Text :=
  match v with
  | text s => s
  | _ => dflt

/-- `ToDouble(def)`. -/
def toDoubleOr (v : Value) (dflt : Double) : Double :=
  match v with
  | int i => .ofInt i.toInt
  | double d => d
  | _ => dflt

end Value

abbrev Deserialize := Text → Except Fault Value

end Json

end RecsDaemon
