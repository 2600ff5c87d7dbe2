import RecsDaemon.Json
import RecsDaemon.Base.Number

/-!
# The JSON library

`json::Deserialize` and `json::Serialize`, function by function. The functions
hand on what is left of their text, and a stack of the objects and arrays they
are in. An error they report ends in a null value; what they do not report is a
`Failure`. The recursion runs on fuel, of which `deserialize` gives enough.
-/

namespace RecsDaemon

open Base

namespace Json

/-- What the library does besides reporting an error. -/
inductive Failure where
  /-- `substr` throws `std::out_of_range`. -/
  | outOfRange
  /-- `top()` of an empty stack -/
  | emptyStack
  | fuel
deriving DecidableEq

inductive StackDepthType where
  | inObject
  | inArray
deriving DecidableEq

/-- `depth_stack`, the top first. -/
abbrev DepthStack := List StackDepthType

/-- The C library: what `printf` makes of a `double` with `%f`, what `strtod` makes of a whole
string (`none` if it does not read to the end or sets `errno`), and the width of a `long`. -/
structure Libc where
  printDouble : Double → Text
  strtod : Text → Option Double
  longBits : Nat

/-- A C library without floating-point numbers. -/
def Libc.integers : Libc := ⟨fun _ => [], fun _ => none, 64⟩

/-- The first character is no `"`, or follows a `\` that counts. -/
def quotePosFrom : Nat → Bool → Text → Option Nat
  | _, _, [] => none
  | i, foundSlash, c :: cs =>
    if c = 92 ∧ ¬ foundSlash then quotePosFrom (i + 1) true cs
    else if c = 34 ∧ ¬ foundSlash then some i
    else quotePosFrom (i + 1) false cs

/-- `GetQuotePos`: the first `"` from `startPos` on that is not escaped. -/
def getQuotePos (str : Text) (startPos : Nat) : Option Nat :=
  quotePosFrom startPos false (str.drop startPos)

/-- `str.find(c, pos)`. -/
def find (c : UInt8) (str : Text) (pos : Nat) : Option Nat :=
  ((str.drop pos).findIdx? (· = c)).map (pos + ·)

/-- `str.substr(pos, str.length())`. -/
def substr (str : Text) (pos : Nat) : Except Failure Text :=
  if pos ≤ str.length then .ok (str.drop pos) else .error .outOfRange

/-! ## Strings -/

def hexDigit (c : UInt8) : Option Nat :=
  if isDigit c then some (c.toNat - 48)
  else if 97 ≤ c ∧ c ≤ 102 then some (c.toNat - 87)
  else if 65 ≤ c ∧ c ≤ 70 then some (c.toNat - 55)
  else none

/-- `(char)strtoul(s, NULL, 16)` of at most two characters, which have no room for a digit behind
the prefix `0x`. -/
def hexChar (s : Text) : UInt8 :=
  let s := s.dropWhile isSpace
  let negative := s.head? = some 45
  let s := if s.head? = some 45 ∨ s.head? = some 43 then s.drop 1 else s
  let digits := (s.map hexDigit).takeWhile Option.isSome
  let hex := UInt8.ofNat (Nat.ofDigits 16 (digits.reverse.map (·.getD 0)))
  if negative then -hex else hex

/-- The character a `\` and this one stand for. -/
def escape (c : UInt8) : Option UInt8 :=
  if c = 34 ∨ c = 92 ∨ c = 47 then some c
  else if c = 116 then some 9
  else if c = 110 then some 10
  else if c = 114 then some 13
  else if c = 98 then some 8
  else if c = 102 then some 12
  else none

/-- The loop of `UnescapeJSONString`; `skip` characters belong to the escape before. -/
def unescapeFrom : Nat → Text → Except Failure Text
  | _, [] => .ok []
  | skip + 1, _ :: cs => unescapeFrom skip cs
  | 0, c :: cs =>
    if c = 92 ∧ cs ≠ [] then
      if cs.head? = some 117 then
        -- of the four digits of `\u` the last two
        if cs.length < 3 then .error .outOfRange
        else (unescapeFrom 5 cs).map (hexChar ((cs.drop 3).take 2) :: ·)
      else (unescapeFrom 1 cs).map ((cs.head?.bind escape).toList ++ ·)
    else (unescapeFrom 0 cs).map (c :: ·)

def unescapeJSONString (str : Text) : Except Failure Text := (unescapeFrom 0 str).map trim

/-! ## Numbers, booleans, null -/

def stricmp (a b : Text) : Bool := (cstr a).map toLower = (cstr b).map toLower

/-- What the loop over the characters of a number, a boolean or a null remembers. -/
structure Literal where
  hasDot : Bool
  hasE : Bool
  foundDigit : Bool
  tempVal : Text
deriving DecidableEq

namespace Literal

def empty : Literal := ⟨false, false, false, []⟩

/-- The character becomes part of the text, unless it is space. -/
def keep (l : Literal) (c : UInt8) : Literal :=
  if isSpace c then l
  else { l with foundDigit := l.foundDigit || isDigit c, tempVal := l.tempVal ++ [c] }

/-- The loop: the literal and the text from the comma on, or `none` for an error. -/
def scan : Text → Literal → DepthStack → Option (Literal × Text) × DepthStack
  | [], l, stack => (some (l, []), stack)
  | c :: cs, l, stack =>
    if c = 46 then
      if l.foundDigit then scan cs ({ l with hasDot := true }.keep c) stack else (none, stack)
    else if c = 101 ∨ c = 69 then
      if stricmp l.tempVal (ascii "fals") ∨ stricmp l.tempVal (ascii "tru") then
        scan cs (l.keep c) stack
      else if l.foundDigit ∧ ¬ l.hasE then scan cs ({ l with hasE := true }.keep c) stack
      else (none, stack)
    else if c = 93 then
      if stack.head? = some .inArray then scan cs (l.keep c) stack.tail else (none, stack)
    else if c = 125 then
      if stack.head? = some .inObject then scan cs (l.keep c) stack.tail else (none, stack)
    else if c = 44 then (some (l, c :: cs), stack)
    else if c = 91 ∨ c = 123 then (none, stack)
    else scan cs (l.keep c) stack

/-- An integer: an `int`, a `double` beyond the range of `long`, an error between the two. -/
def integer (libc : Libc) (s : Text) : Option Value :=
  match readInt s with
  -- the end of the conversion is the begin of the text
  | none => if s = [] then some (.int 0) else none
  | some (v, rest) =>
    if rest ≠ [] then none
    else if v < -2 ^ (libc.longBits - 1) ∨ 2 ^ (libc.longBits - 1) ≤ v then
      (libc.strtod s).map .double
    else if -2 ^ 31 ≤ v ∧ v < 2 ^ 31 then some (.int (.ofInt v))
    else none

def value (libc : Libc) (l : Literal) : Option Value :=
  if stricmp l.tempVal (ascii "true") then some (.bool true)
  else if stricmp l.tempVal (ascii "false") then some (.bool false)
  else if l.hasE ∨ l.hasDot then (libc.strtod (cstr l.tempVal)).map .double
  else if stricmp l.tempVal (ascii "null") then some .null
  else integer libc (cstr l.tempVal)

end Literal

/-! ## Objects and arrays -/

/-- The loop of `GetEndOfArrayOrObj` at index `i`, `prev` being the character before. The stack never
gets smaller than at the begin before the loop ends, so it is not empty where its top is read. -/
def endFrom (original : Nat) : Nat → UInt8 → Bool → DepthStack → Text → Option Nat × DepthStack
  | i, _, _, stack, [] => (some i, stack)
  | i, prev, inQuote, stack, c :: cs =>
    let close (t : StackDepthType) : Option Nat × DepthStack :=
      if stack.head? ≠ some t then (none, stack)
      else if stack.length = original then (some i, stack.tail)
      else endFrom original (i + 1) c inQuote stack.tail cs
    if c = 34 then
      endFrom original (i + 1) c (if prev ≠ 92 then !inQuote else inQuote) stack cs
    else if inQuote then endFrom original (i + 1) c inQuote stack cs
    else if c = 91 then endFrom original (i + 1) c inQuote (.inArray :: stack) cs
    else if c = 123 then endFrom original (i + 1) c inQuote (.inObject :: stack) cs
    else if c = 93 then close .inArray
    else if c = 125 then close .inObject
    else endFrom original (i + 1) c inQuote stack cs

/-- `GetEndOfArrayOrObj`: the index of the bracket that closes the one the text begins with; the
length of the text if there is none, and `none` if one does not match. -/
def getEndOfArrayOrObj (str : Text) (stack : DepthStack) : Option Nat × DepthStack :=
  endFrom stack.length 1 (str.headD 0) false stack (str.drop 1)

/-- `obj[key] = v` of a `std::map`. -/
def insert (key : Text) (v : Value) : List (Text × Value) → List (Text × Value)
  | [] => [(key, v)]
  | (k, w) :: fields =>
    match compare key k with
    | .lt => (key, v) :: (k, w) :: fields
    | .eq => (k, v) :: fields
    | .gt => (k, w) :: insert key v fields

/-- The key in front of a member's value, and the text behind its colon. -/
def keyOf (str : Text) : Option (Text × Text) := do
  let startQuote ← getQuotePos str 0
  let endQuote ← getQuotePos str (startQuote + 1)
  let colon ← find 58 str endQuote
  pure ((str.drop (startQuote + 1)).take (endQuote - startQuote - 1), str.drop (colon + 1))

/-- A value of an array; the ones that are null are left out. -/
def push (elems : List Value) (v : Value) : List Value :=
  if v.getType = .null then elems else elems ++ [v]

/-- The end of `DeserializeInternal`: an object or array takes its entry off the stack. -/
def leave (t : StackDepthType) (v : Value) (stack : DepthStack) :
    Except Failure (Value × DepthStack) :=
  if v.getType = .null then .ok (v, stack)
  else
    match stack with
    | [] => .error .emptyStack
    | t' :: stack' => .ok (v, if t' ≠ t then stack else stack')

def inner (str : Text) : Text := (str.drop 1).take (str.length - 2)

/-- What ends the text of an element: a comma, a bracket that closes the array, or one of an object
or array, which is read from the begin of the text on. -/
def endsElement (c : UInt8) : Bool := c = 44 || c = 93 || c = 123 || c = 91

mutual

def deserializeInternal (libc : Libc) :
    Nat → Text → DepthStack → Except Failure (Value × DepthStack)
  | 0, _, _ => .error .fuel
  | fuel + 1, str, stack =>
    let str := trim str
    if str.head? = some 123 then
      if str.getLast? ≠ some 125 then .ok (.null, stack)
      else do
        let (v, stack) ← deserializeObj libc fuel str (.inObject :: stack)
        leave .inObject v stack
    else if str.head? = some 91 then
      if str.getLast? ≠ some 93 then .ok (.null, stack)
      else do
        let (v, stack) ← deserializeArray libc fuel str (.inArray :: stack)
        leave .inArray v stack
    else .ok (.null, stack)

/-- The value at the front of the text and what follows it; `none` where `had_error` is set. -/
def deserializeValue (libc : Libc) :
    Nat → Text → DepthStack → Except Failure (Option (Value × Text) × DepthStack)
  | 0, _, _ => .error .fuel
  | fuel + 1, str, stack =>
    let str := trim str
    if str = [] then .ok (some (.null, []), stack)
    else if str.head? = some 91 then
      match getEndOfArrayOrObj str (.inArray :: stack) with
      | (none, stack) => .ok (none, stack)
      | (some i, stack) => do
        let (v, stack) ← deserializeArray libc fuel (str.take (i + 1)) stack
        let str ← substr str (i + 1)
        pure (some (v, str), stack)
    else if str.head? = some 123 then
      match getEndOfArrayOrObj str (.inObject :: stack) with
      | (none, stack) => .ok (none, stack)
      | (some i, stack) => do
        let (v, stack) ← deserializeInternal libc fuel (str.take (i + 1)) stack
        let str ← substr str (i + 1)
        pure (some (v, str), stack)
    else if str.head? = some 34 then
      match getQuotePos str 1 with
      | none => .ok (none, stack)
      | some endQuote => do
        let s ← unescapeJSONString ((str.drop 1).take (endQuote - 1))
        let str ← substr str (endQuote + 1)
        pure (some (.text s, str), stack)
    else
      match Literal.scan str .empty stack with
      | (none, stack) => .ok (none, stack)
      | (some (l, str), stack) => .ok ((l.value libc).map (·, str), stack)

def deserializeArray (libc : Libc) : Nat → Text → DepthStack → Except Failure (Value × DepthStack)
  | 0, _, _ => .error .fuel
  | fuel + 1, str, stack =>
    let str := trim str
    if str.head? = some 91 ∧ str.getLast? = some 93 then
      deserializeElements libc fuel (inner str) [] stack
    else .ok (.null, stack)

def deserializeElements (libc : Libc) :
    Nat → Text → List Value → DepthStack → Except Failure (Value × DepthStack)
  | 0, _, _, _ => .error .fuel
  | fuel + 1, str, a, stack =>
    if str = [] then .ok (.array a, stack)
    else
      let rest := str.dropWhile (!endsElement ·)
      if rest.head? = some 123 ∨ rest.head? = some 91 then do
        match ← deserializeValue libc fuel str stack with
        | (none, stack) => pure (.null, stack)
        | (some (v, str), stack) => deserializeElements libc fuel str (push a v) stack
      else do
        match ← deserializeValue libc fuel (str.takeWhile (!endsElement ·)) stack with
        | (none, stack) => pure (.null, stack)
        | (some (v, _), stack) => deserializeElements libc fuel (rest.drop 1) (push a v) stack

def deserializeObj (libc : Libc) : Nat → Text → DepthStack → Except Failure (Value × DepthStack)
  | 0, _, _ => .error .fuel
  | fuel + 1, str, stack =>
    let str := trim str
    if str.head? ≠ some 123 ∧ str.getLast? ≠ some 125 then .ok (.null, stack)
    else deserializeMembers libc fuel (inner str) [] stack

def deserializeMembers (libc : Libc) :
    Nat → Text → List (Text × Value) → DepthStack → Except Failure (Value × DepthStack)
  | 0, _, _, _ => .error .fuel
  | fuel + 1, str, obj, stack =>
    if str = [] then .ok (.object obj, stack)
    else
      match keyOf str with
      | none => .ok (.null, stack)
      | some (key, str) =>
        if key = [] then .ok (.null, stack)
        else do
          match ← deserializeValue libc fuel str stack with
          | (none, stack) => pure (.null, stack)
          | (some (v, str), stack) =>
            deserializeMembers libc fuel str (insert key v obj) stack

end

def deserialize (libc : Libc) (str : Text) : Except Failure Value :=
  (deserializeInternal libc (4 * str.length + 4) str []).map Prod.fst

/-! ## Serialize -/

mutual

/-- `SerializeValue`, and `SerializeArray` and `Serialize` with it. Strings are written as they
are. -/
def serializeValue (libc : Libc) : Value → Text
  | .int v => intText v.toInt
  | .double d => libc.printDouble d
  | .bool b => if b then ascii "true" else ascii "false"
  | .null => ascii "null"
  | .object fields => 123 :: serializeMembers libc true fields ++ [125]
  | .array elems => 91 :: serializeElements libc true elems ++ [93]
  | .text s => 34 :: s ++ [34]

/-- The elements; all but the first one follow a comma. -/
def serializeElements (libc : Libc) : Bool → List Value → Text
  | _, [] => []
  | first, v :: vs =>
    (if first then [] else [44]) ++ serializeValue libc v ++ serializeElements libc false vs

def serializeMembers (libc : Libc) : Bool → List (Text × Value) → Text
  | _, [] => []
  | first, (key, v) :: fields =>
    (if first then [] else [44]) ++ 34 :: key ++ [34, 58] ++ serializeValue libc v ++
      serializeMembers libc false fields

end

/-- `json::Serialize`: nothing for a value that is no object and no array. -/
def serialize (libc : Libc) (v : Value) : Text :=
  match v with
  | .object _ | .array _ => serializeValue libc v
  | _ => []

end Json

end RecsDaemon
