import RecsDaemon.Communicator
import RecsDaemon.Base.Framing

/-!
# The communicator over TCP

`CommunicatorTCP` keeps a copy of the shared memory, `mData`. Each `readData`
also receives from the controller, and copies the payload of a frame that is
complete behind the header of the memory; each `writeData` that leaves a message
there sends it.
-/

namespace RecsDaemon

open Base

/-! ## Frames -/

def TcpMessageHeader.sizeof : Nat := 8

/-- A `TCP_Message_Header` with its payload, which has room behind the daemon header. -/
structure Frame where
  baseboard : UInt8
  node : UInt8
  payload : Bytes
  fits : payload.length ≤ 65521

namespace Frame

def bytes (f : Frame) : Bytes :=
  ascii "RECS" ++ [f.baseboard, f.node] ++ be 2 f.payload.length ++ f.payload

@[simp] theorem length_bytes (f : Frame) : f.bytes.length = 8 + f.payload.length := by
  simp [bytes, ascii]; omega

theorem bytes_ne_nil (f : Frame) : f.bytes ≠ [] := fun h => by
  have := f.length_bytes
  rw [h, List.length_nil] at this
  omega

theorem slices (f : Frame) (rest : Bytes) :
    slice 0 4 (f.bytes ++ rest) = ascii "RECS" ∧
      slice 6 2 (f.bytes ++ rest) = be 2 f.payload.length ∧
      slice 8 f.payload.length (f.bytes ++ rest) = f.payload := by
  have h4 : (ascii "RECS").length = 4 := rfl
  have h6 : (ascii "RECS" ++ [f.baseboard, f.node]).length = 6 := rfl
  have h8 : (ascii "RECS" ++ [f.baseboard, f.node] ++ be 2 f.payload.length).length = 8 := by
    rw [List.length_append, h6, length_be]
  refine ⟨?_, ?_, ?_⟩
  · unfold slice bytes
    rw [List.drop_zero, List.append_assoc, List.append_assoc, List.append_assoc,
      List.take_left' h4]
  · unfold slice bytes
    rw [List.append_assoc, List.append_assoc, List.drop_left' h6,
      List.take_left' (length_be _ _)]
  · unfold slice bytes
    rw [List.append_assoc, List.drop_left' h8, List.take_left' rfl]

theorem ofBE_length (f : Frame) : ofBE (be 2 f.payload.length) = f.payload.length :=
  ofBE_be_of_lt (by have := f.fits; omega)

theorem prefixFree : PrefixFree bytes := by
  intro f g x y h
  obtain ⟨-, hf, hpf⟩ := f.slices x
  obtain ⟨-, hg, hpg⟩ := g.slices y
  have hlen : f.payload.length = g.payload.length := by
    rw [← f.ofBE_length, ← g.ofBE_length, ← hf, ← hg, h]
  have hpay : f.payload = g.payload := by rw [← hpf, ← hpg, hlen, h]
  have hb : ∀ i : Nat, (f.bytes ++ x)[i]? = (g.bytes ++ y)[i]? := fun i => by rw [h]
  have hbase : f.baseboard = g.baseboard := Option.some.inj (hb 4)
  have hnode : f.node = g.node := Option.some.inj (hb 5)
  cases f
  cases g
  simp only [Frame.mk.injEq]
  exact ⟨hbase, hnode, hpay⟩

end Frame

/-! ## The communicator -/

/-- The communicator after `initInterface`; `mClient` says whether there is a connection. -/
structure CommunicatorTCP where
  mData : Mem
  mReceiveBuffer : Mem
  mReceiveBufferPos : Nat
  mClient : Bool

namespace CommunicatorTCP

def memorySize : Nat := 65535

/-- The end of `initInterface`: the header is written into the cleared memory, its reserved byte
being what the stack held. -/
def init (mBaseboardID reserved : UInt8) (mReceiveBuffer : Mem) : CommunicatorTCP where
  mData := Mem.write (fun _ => 0) 0 (ascii "RECS" ++ le 2 memorySize ++
    [mBaseboardID, 1, 3, reserved] ++
    le 2 DaemonHeader.sizeof ++ le 2 DaemonHeader.sizeof)
  mReceiveBuffer := mReceiveBuffer
  mReceiveBufferPos := 0
  mClient := true

section Receive

variable (c : CommunicatorTCP)

def received : Bytes := c.mReceiveBuffer.read 0 c.mReceiveBufferPos

def append (chunk : Bytes) : CommunicatorTCP :=
  { c with
    mReceiveBuffer := c.mReceiveBuffer.write c.mReceiveBufferPos chunk
    mReceiveBufferPos := c.mReceiveBufferPos + chunk.length }

inductive Packet where
  | incomplete
  | complete (length : Nat)
  | invalid
deriving DecidableEq

def packet : Packet :=
  if TcpMessageHeader.sizeof < c.mReceiveBufferPos then
    if c.mReceiveBuffer.read 0 4 = ascii "RECS" then
      let length := ofBE (c.mReceiveBuffer.read 6 2)
      if TcpMessageHeader.sizeof + length ≤ c.mReceiveBufferPos then .complete length
      else .incomplete
    else .invalid
  else .incomplete

/-- The payload goes behind the daemon header, the rest to the beginning of the buffer. -/
def install (length : Nat) : CommunicatorTCP :=
  { c with
    mData := c.mData.write DaemonHeader.sizeof
      (c.mReceiveBuffer.read TcpMessageHeader.sizeof length)
    mReceiveBuffer := c.mReceiveBuffer.write 0
      (c.mReceiveBuffer.read (TcpMessageHeader.sizeof + length)
        (c.mReceiveBufferPos - (TcpMessageHeader.sizeof + length)))
    mReceiveBufferPos := c.mReceiveBufferPos - (TcpMessageHeader.sizeof + length) }

def process : CommunicatorTCP :=
  match c.packet with
  | .incomplete => c
  | .complete length => c.install length
  | .invalid => { c with mReceiveBufferPos := 0 }

/-- `receiveData` gave `chunk`; only if it is not empty the buffer is looked at. -/
def receive (chunk : Bytes) : CommunicatorTCP :=
  if chunk = [] then c else (c.append chunk).process

/-- `count`, cut at the end of the memory; the arithmetic is one of `size_t`. -/
def clamp (offset count : Nat) : Nat :=
  if memorySize < (offset + count) % 2 ^ 64 then (memorySize + 2 ^ 64 - offset) % 2 ^ 64 else count

theorem clamp_of_le {offset count : Nat} (h : offset + count ≤ memorySize) :
    clamp offset count = count := by
  have hm : memorySize = 65535 := rfl
  exact if_neg (by omega)

/-- `readData(offset, buf, count)`, where `receiveData` gives `chunk` and `buf` held `old`. -/
def readData (offset count : Nat) (chunk : Bytes) (old : Mem) : CommunicatorTCP × ReadReply :=
  let c := if c.mClient then c.receive chunk else c
  let count := clamp offset count
  (c, ⟨count, old.write 0 (c.mData.read offset count)⟩)

/-- The outcomes of `writeData`: whether the two `sendData` succeed, and where there is no connection
whether a new one is made. -/
structure Sending where
  sent : Bool
  reconnected : Bool

/-- `writeData(offset, buf, count)` of the bytes `bs`, and whether it resets the state machine. -/
def writeData (offset : Nat) (bs : Bytes) (out : Sending) : CommunicatorTCP × Bool :=
  let mData := c.mData.write offset (bs.take (clamp offset bs.length))
  if mData DaemonHeader.sizeof ≠ 0 then
    let c := { c with mData := mData.write DaemonHeader.sizeof [0] }
    if c.mClient then ({ c with mClient := out.sent }, false)
    else ({ c with mClient := out.reconnected }, out.reconnected)
  else ({ c with mData := mData }, false)

end Receive

end CommunicatorTCP

end RecsDaemon
