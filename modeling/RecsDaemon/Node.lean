import RecsDaemon.Communicator
import RecsDaemon.SensorSet
import RecsDaemon.Base.Number

/-!
# The node

`Node`: the basic information block, the commands, and the monitoring data of
the baseboard, which is looked up in the chunk area of the shared memory.
-/

namespace RecsDaemon

open Base

namespace Node

/-! ## Adapters -/

structure AdapterInfo where
  ipAddress : Field 16
  netMask : Field 4
  macAddress : Field 6

def AdapterInfo.none : AdapterInfo :=
  ⟨⟨List.replicate 16 0, rfl⟩, ⟨List.replicate 4 0, rfl⟩, ⟨List.replicate 6 0, rfl⟩⟩

/-- The four bytes all Christmann adapters begin with. -/
def AdapterInfo.isChristmann (a : AdapterInfo) : Bool :=
  a.macAddress.1.take 4 = [0x70, 0xB3, 0xD5, 0x56]

/-- The lowest bit of the address. -/
def AdapterInfo.isOdd (a : AdapterInfo) : Bool := a.macAddress.1.getD 5 0 &&& 1 = 1

/-- `christmannAdapters`, a `uint8_t`. -/
def christmannAdapters (adapters : List AdapterInfo) : UInt8 :=
  UInt8.ofNat (adapters.countP AdapterInfo.isChristmann)

def getManagementAdapter (adapters : List AdapterInfo) : AdapterInfo :=
  match adapters with
  | [] | [_] => .none
  | front :: _ =>
    if christmannAdapters adapters = 1 then
      ((adapters.filter fun a => !a.isChristmann).getLast?).getD .none
    else if 1 < christmannAdapters adapters then
      (adapters.find? fun a => a.isChristmann && a.isOdd).getD .none
    else front

def getComputeAdapter (adapters : List AdapterInfo) : AdapterInfo :=
  match adapters with
  | [] => .none
  | [front] => front
  | _ =>
    if christmannAdapters adapters = 1 then
      ((adapters.filter AdapterInfo.isChristmann).getLast?).getD .none
    else if 1 < christmannAdapters adapters then
      (adapters.find? fun a => a.isChristmann && !a.isOdd).getD .none
    else .none

/-! ## The basic information block -/

/-- What the build and the operating system tell about the node. `getNetworkAdapters` does not
initialize the adapters on its stack: bytes 4 to 15 of an `ipAddress`, and the fields a failed
`ioctl` leaves out, are what the stack held, here part of `adapters`. -/
structure HostInfo where
  adapters : List AdapterInfo
  hostname : Text
  daemonVersion : Field 3

/-- A node without adapters, running version 3.7.1. -/
def HostInfo.none : HostInfo := ⟨[], [], ⟨[3, 7, 1], rfl⟩⟩

def interfaceBytes (a : AdapterInfo) : Bytes := a.macAddress.1 ++ a.ipAddress.1 ++ a.netMask.1

/-- The writes of `getBasicInformationBlock` and its result; the version of the message header is
not written. -/
def getBasicInformationBlock (host : HostInfo) (bufferSize : Nat) : List (Nat × Bytes) × Nat :=
  if bufferSize < BasicInformationBlock.sizeof then ([], 0)
  else
    ([(0, MessageType.basicInformation.code :: be 2 BasicInformationBlock.sizeof),
      (MessageHeader.sizeof, host.daemonVersion.1 ++ interfaceBytes (getManagementAdapter host.adapters) ++
        interfaceBytes (getComputeAdapter host.adapters) ++
        strncpy hostnameLength (cstr host.hostname))], BasicInformationBlock.sizeof)

/-- The block in a buffer that held `m` before. -/
def basicInformationBytes (host : HostInfo) (bufferSize : Nat) (m : Mem) : Bytes :=
  (m.writeAll (getBasicInformationBlock host bufferSize).1).read 0
    (getBasicInformationBlock host bufferSize).2

theorem length_interfaceBytes (a : AdapterInfo) : (interfaceBytes a).length = 26 := by
  simp [interfaceBytes, a.macAddress.2, a.ipAddress.2, a.netMask.2]

theorem basicInformation_inside (host : HostInfo) (bufferSize : Nat) :
    (getBasicInformationBlock host bufferSize).2 ≤ bufferSize ∧
      ∀ w ∈ (getBasicInformationBlock host bufferSize).1, w.1 + w.2.length ≤ bufferSize := by
  unfold getBasicInformationBlock
  split
  · exact ⟨Nat.zero_le _, fun w hw => by cases hw⟩
  · next h =>
    simp only [BasicInformationBlock.sizeof, Nat.not_lt] at h ⊢
    refine ⟨h, fun w hw => ?_⟩
    simp only [List.mem_cons, List.not_mem_nil, or_false] at hw
    rcases hw with rfl | rfl
    · simp; omega
    · simp [length_interfaceBytes, MessageHeader.sizeof, host.daemonVersion.2, hostnameLength]; omega

/-- A buffer that holds the block gets its type. -/
theorem basicInformationBytes_spec {host : HostInfo} {bufferSize : Nat} {m : Mem}
    (h : BasicInformationBlock.sizeof ≤ bufferSize) :
    (basicInformationBytes host bufferSize m).length = BasicInformationBlock.sizeof ∧
      (basicInformationBytes host bufferSize m).head? = some MessageType.basicInformation.code := by
  have hb : ¬ bufferSize < BasicInformationBlock.sizeof := Nat.not_lt.mpr h
  have hw : (getBasicInformationBlock host bufferSize).2 = 1 + 314 := by
    rw [getBasicInformationBlock, if_neg hb]; rfl
  refine ⟨by simp [basicInformationBytes, hw, BasicInformationBlock.sizeof], ?_⟩
  rw [basicInformationBytes, hw, Mem.read_add, Mem.read_one, List.head?_append, List.head?_cons,
    Option.some_or, getBasicInformationBlock, if_neg hb]
  rfl

/-! ## Commands -/

/-- The command lines `shutdown` runs. -/
def systemCommand (command : Text) : Option Text :=
  if command = ascii "shutdown" then some (ascii "shutdown -P now")
  else if command = ascii "reboot" then some (ascii "reboot")
  else none

/-- `executeCommand`, `ret` being what `system` returns. No command has parameters. -/
def executeCommand (ret : Int) (command _parameters : Text) : Text :=
  match systemCommand command with
  | some _ => if ret ≠ 0 then ascii "failed" else ascii "success"
  | none => ascii "Unknown command"

/-! ## The chunk area -/

/-- The loop over the chunks from `pos`, `n` being the number of reads before it; `none` when the
fuel ends first. -/
def findChunk (reads : Reads) (chunkType : UInt8) (dynamicAreaOffset : Nat) :
    Nat → Nat → Nat → Option Nat
  | 0, _, _ => none
  | fuel + 1, n, pos =>
    let r := reads n pos ChunkHeader.sizeof
    if r.taken then
      if r.buf 0 = chunkType then some ((pos + ChunkHeader.sizeof) % 2 ^ 16)
      else
        let pos := (pos + ChunkHeader.sizeof + ofLE (r.buf.read 1 2)) % 2 ^ 16
        if pos < dynamicAreaOffset then findChunk reads chunkType dynamicAreaOffset fuel (n + 1) pos
        else some 0
    else some 0

def findHeaderDataChunkOffset (reads : Reads) (chunkType : UInt8) (fuel : Nat) : Option Nat :=
  let r := reads 0 0 DaemonHeader.sizeof
  if r.taken then
    let hdr := DaemonHeader.ofMem r.buf
    if hdr.version < 3 then some (if chunkType = chunkTypeMonitoring then 9 else 0)
    else findChunk reads chunkType hdr.dynamicAreaOffset.toNat fuel 1 hdr.chunksOffset.toNat
  else some 0

/-! ## Monitoring data -/

/-- `n / 1000.0` as a stream prints it, for a 16-bit `n`. -/
def printMilli (n : Nat) : Text :=
  let frac := n % 1000
  decimalText (n / 1000) ++
    if frac = 0 then []
    else if frac % 100 = 0 then 46 :: decimalText (frac / 100)
    else if frac % 10 = 0 then 46 :: ((decimalText (100 + frac / 10)).drop 1)
    else 46 :: ((decimalText (1000 + frac)).drop 1)

inductive NodeType where
  | apalis
  | cxp
deriving DecidableEq

/-- The JSON text of a `BB_Monitoring` block, from the offsets of its fields on. The block has 57 bytes:
the current of a slot from 11 on lies behind it, in whatever the stack holds there. `mon` is the block
and the memory behind. -/
def monitoringJSON (nodeType : NodeType) (slot : UInt8) (mon : Mem) : Text :=
  let value (off : Nat) : Text := printMilli (ofLE (mon.read off 2))
  let line (name : String) (value unit : Text) : Text :=
    ascii "\x7b\"name\": \"" ++ ascii name ++ ascii "\", \"value\": " ++ value ++ ascii ", \"unit\": \"" ++
      unit ++ ascii "\"\x7d,\r\n"
  ascii "[\r\n" ++
    line "nodeCurrent" (value (30 + 2 * (2 + slot.toNat))) (ascii "A") ++
    (if nodeType = .cxp then line "pegCurrent" (value 32) (ascii "A") else []) ++
    line "12vSupply" (value 14) (ascii "V") ++
    ascii "\x7b\"name\": \"temperatures\", \"values\": [" ++
    (ascii ", ").intercalate ((mon.read 46 5).map fun t => decimalText t.toNat) ++
    -- the unit is "°C" in Latin-1
    ascii "], \"unit\": \"" ++ [0xB0, 0x43] ++ ascii "\"\x7d\r\n" ++
    ascii "]\r\n"

theorem monitoringJSON_ne_nil (nodeType : NodeType) (slot : UInt8) (mon : Mem) :
    monitoringJSON nodeType slot mon ≠ [] :=
  List.append_ne_nil_of_right_ne_nil _ (show ascii "]\r\n" ≠ [] by decide)

/-- `mMonitoringDataOffset` after the search; a value that is not zero is kept. -/
def locateMonitoringData (search : Reads) (mMonitoringDataOffset : UInt16) (fuel : Nat) :
    Option UInt16 :=
  if mMonitoringDataOffset ≠ 0 then some mMonitoringDataOffset
  else (findHeaderDataChunkOffset search chunkTypeMonitoring fuel).map fun offset =>
    -- the length of the chunk is the first field of the block
    if 2 < offset then UInt16.ofNat (offset - 2) else 0

def readMonitoringData (block : Reads) (nodeType : NodeType) (slot : UInt8) (offset : UInt16) :
    Text :=
  if offset = 0 then []
  else
    let r := block 0 offset.toNat BBMonitoring.sizeof
    if r.taken then monitoringJSON nodeType slot r.buf else []

/-- `getJSONMonitoringData`: the text and `mMonitoringDataOffset` after it. The search makes the
first reads, the block is read after them. -/
def getJSONMonitoringData (search : Reads) (block : Reads) (nodeType : NodeType) (slot : UInt8)
    (mMonitoringDataOffset : UInt16) (fuel : Nat) : Option (Text × UInt16) :=
  (locateMonitoringData search mMonitoringDataOffset fuel).map fun offset =>
    (readMonitoringData block nodeType slot offset, offset)

end Node

end RecsDaemon
