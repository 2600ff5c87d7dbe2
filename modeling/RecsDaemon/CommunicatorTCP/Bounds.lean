import RecsDaemon.CommunicatorTCP.Reassembly
import RecsDaemon.Base.Access

/-!
# The bounds of the two buffers

A frame is accepted if the receive buffer holds it, but its payload goes behind
the daemon header of a memory of the same size, and the clamping of `count` is
arithmetic of `size_t` (`along_inBounds_iff`).
-/

namespace RecsDaemon

open Base

namespace CommunicatorTCP

/-! ## The accesses of a call -/

inductive Buffer where
  | mData
  | mReceiveBuffer

structure Access where
  buffer : Buffer
  offset : Nat
  length : Nat

def Access.Inside (a : Access) : Prop := Prog.Inside memorySize (a.offset, a.length)

section Accesses

variable (c : CommunicatorTCP)

/-- `MEMORY_SIZE - mReceiveBufferPos`, what `receiveData` may take. -/
def room : Nat := (memorySize + 2 ^ 64 - c.mReceiveBufferPos) % 2 ^ 64

def processAccesses : List Access :=
  if TcpMessageHeader.sizeof < c.mReceiveBufferPos then
    ⟨.mReceiveBuffer, 0, 4⟩ ::
      match c.packet with
      | .invalid => []
      | .incomplete => [⟨.mReceiveBuffer, 6, 2⟩]
      | .complete length =>
        let next := TcpMessageHeader.sizeof + length
        [⟨.mReceiveBuffer, 6, 2⟩,
          ⟨.mReceiveBuffer, TcpMessageHeader.sizeof, length⟩, ⟨.mData, DaemonHeader.sizeof, length⟩,
          ⟨.mReceiveBuffer, next, c.mReceiveBufferPos - next⟩,
          ⟨.mReceiveBuffer, 0, c.mReceiveBufferPos - next⟩]
  else []

def receiveAccesses (chunk : Bytes) : List Access :=
  ⟨.mReceiveBuffer, c.mReceiveBufferPos, chunk.length⟩ ::
    if chunk = [] then [] else (c.append chunk).processAccesses

def readDataAccesses (offset count : Nat) (chunk : Bytes) : List Access :=
  (if c.mClient then c.receiveAccesses chunk else []) ++ [⟨.mData, offset, clamp offset count⟩]

def writeDataAccesses (offset : Nat) (bs : Bytes) : List Access :=
  let n := clamp offset bs.length
  let mData := c.mData.write offset (bs.take n)
  ⟨.mData, offset, n⟩ :: ⟨.mData, DaemonHeader.sizeof, 1⟩ ::
    if mData DaemonHeader.sizeof ≠ 0 then
      (if c.mClient then [⟨.mData, offset, n⟩] else []) ++ [⟨.mData, DaemonHeader.sizeof, 1⟩]
    else []

end Accesses

/-! ## Runs -/

/-- A call with its outcome; what is there to be received at a `readData` is `arriving`. -/
inductive Transfer where
  | readData (offset count : UInt64) (arriving : Bytes) (old : Mem)
  | writeData (offset count : UInt64) (buf : Mem) (out : Sending)

def transfer (c : CommunicatorTCP) : Transfer → Option CommunicatorTCP
  | .readData offset count arriving old =>
    some (c.readData offset.toNat count.toNat (arriving.take c.room) old).1
  | .writeData offset count buf out =>
    some (c.writeData offset.toNat (buf.read 0 count.toNat) out).1

def accesses (c : CommunicatorTCP) : Transfer → List Access
  | .readData offset count arriving _ =>
    c.readDataAccesses offset.toNat count.toNat (arriving.take c.room)
  | .writeData offset count buf _ => c.writeDataAccesses offset.toNat (buf.read 0 count.toNat)

def Transfer.range : Transfer → Nat × Nat
  | .readData offset count _ _ => (offset.toNat, count.toNat)
  | .writeData offset count _ _ => (offset.toNat, count.toNat)

/-- The call keeps to the two buffers. -/
structure InBounds (c : CommunicatorTCP) (t : Transfer) : Prop where
  inside : ∀ a ∈ c.accesses t, a.Inside
  position : ∀ c', c.transfer t = some c' → c'.mReceiveBufferPos ≤ memorySize
  /-- `MEMORY_SIZE - offset` does not wrap where it is used. -/
  clamped : memorySize < (t.range.1 + t.range.2) % 2 ^ 64 → t.range.1 ≤ memorySize

/-! ## When a call does so -/

/-- The bytes begin with a frame whose payload is too long for the memory. -/
def BeginsTooLong (bs : Bytes) : Prop :=
  slice 0 4 bs = ascii "RECS" ∧ memorySize < DaemonHeader.sizeof + ofBE (slice 6 2 bs) ∧
    TcpMessageHeader.sizeof + ofBE (slice 6 2 bs) ≤ bs.length

/-- The offset is in the memory, the end of the range a number of `size_t`, and no frame that the call
completes is too long. -/
structure Proper (c : CommunicatorTCP) (t : Transfer) : Prop where
  offset : t.range.1 ≤ memorySize
  range : t.range.1 + t.range.2 < 2 ^ 64
  frame : match t with
    | .readData _ _ arriving _ =>
      let chunk := arriving.take c.room
      c.mClient = true → chunk ≠ [] → ¬ BeginsTooLong (c.received ++ chunk)
    | .writeData _ _ _ _ => True

section Along

variable {c : CommunicatorTCP}

theorem room_of_le (h : c.mReceiveBufferPos ≤ memorySize) :
    c.room = memorySize - c.mReceiveBufferPos := by
  have hm : memorySize = 65535 := rfl
  unfold room
  omega

theorem inside_clamp_iff {offset count : Nat} (ho : offset < 2 ^ 64) (hc : count < 2 ^ 64) :
    Prog.Inside memorySize (offset, clamp offset count) ↔
      offset ≤ memorySize ∧ offset + count < 2 ^ 64 := by
  have hm : memorySize = 65535 := rfl
  rw [Prog.inside_iff]
  unfold clamp
  split <;> omega

theorem inside_of_le {b : Buffer} {offset length : Nat} (h : offset + length ≤ memorySize) :
    (Access.mk b offset length).Inside :=
  Prog.inside_iff.mpr (.inr h)

/-- Only the copy of the payload can leave its buffer. -/
theorem processAccesses_inside_iff (h : c.mReceiveBufferPos ≤ memorySize) :
    (∀ a ∈ c.processAccesses, a.Inside) ↔ ¬ BeginsTooLong c.received := by
  have hm : memorySize = 65535 := rfl
  have h8 : TcpMessageHeader.sizeof = 8 := rfl
  have h14 : DaemonHeader.sizeof = 14 := rfl
  unfold processAccesses BeginsTooLong
  rw [length_received]
  by_cases hpos : TcpMessageHeader.sizeof < c.mReceiveBufferPos
  · rw [if_pos hpos, packet_eq hpos, length_received]
    have hmagic : (Access.mk .mReceiveBuffer 0 4).Inside := inside_of_le (by omega)
    have hsize : (Access.mk .mReceiveBuffer 6 2).Inside := inside_of_le (by omega)
    by_cases hrecs : slice 0 4 c.received = ascii "RECS"
    · rw [if_pos hrecs]
      by_cases hl : TcpMessageHeader.sizeof + ofBE (slice 6 2 c.received) ≤ c.mReceiveBufferPos
      · rw [if_pos hl]
        generalize ofBE (slice 6 2 c.received) = length at hl ⊢
        have hpayload : (Access.mk .mReceiveBuffer TcpMessageHeader.sizeof length).Inside :=
          inside_of_le (by omega)
        have hrest : (Access.mk .mReceiveBuffer (TcpMessageHeader.sizeof + length)
            (c.mReceiveBufferPos - (TcpMessageHeader.sizeof + length))).Inside :=
          inside_of_le (by omega)
        have hmoved : (Access.mk .mReceiveBuffer 0
            (c.mReceiveBufferPos - (TcpMessageHeader.sizeof + length))).Inside :=
          inside_of_le (by omega)
        have hcopy : (Access.mk .mData DaemonHeader.sizeof length).Inside ↔
            ¬ memorySize < DaemonHeader.sizeof + length := by
          apply Prog.inside_iff.trans
          dsimp only
          omega
        simp only [List.forall_mem_cons, hmagic, hsize, hpayload, hrest, hmoved, hcopy, hrecs, hl,
          true_and, and_true]
        exact and_iff_left nofun
      · rw [if_neg hl]
        refine iff_of_true ?_ fun ht => hl ht.2.2
        simp only [List.forall_mem_cons]
        exact ⟨hmagic, hsize, nofun⟩
    · rw [if_neg hrecs]
      refine iff_of_true ?_ fun ht => hrecs ht.1
      simp only [List.forall_mem_cons]
      exact ⟨hmagic, nofun⟩
  · rw [if_neg hpos]
    apply iff_of_true nofun
    rintro ⟨-, hlong, hall⟩
    omega

theorem append_pos_le (h : c.mReceiveBufferPos ≤ memorySize) {chunk : Bytes}
    (hc : chunk.length ≤ c.room) : (c.append chunk).mReceiveBufferPos ≤ memorySize := by
  have hpos : (c.append chunk).mReceiveBufferPos = c.mReceiveBufferPos + chunk.length := rfl
  rw [room_of_le h] at hc
  omega

theorem process_pos_le (c : CommunicatorTCP) :
    c.process.mReceiveBufferPos ≤ c.mReceiveBufferPos := by
  unfold process
  split
  · exact Nat.le_refl _
  · exact Nat.sub_le _ _
  · exact Nat.zero_le _

/-- The position stays in the buffer, whatever happens. -/
theorem transfer_pos_le {c' : CommunicatorTCP} {t : Transfer} (h : c.mReceiveBufferPos ≤ memorySize)
    (ht : c.transfer t = some c') : c'.mReceiveBufferPos ≤ memorySize := by
  cases t with
  | readData offset count arriving old =>
    cases ht
    have hchunk : (arriving.take c.room).length ≤ c.room := List.length_take_le _ _
    generalize arriving.take c.room = chunk at hchunk
    have happend := append_pos_le h hchunk
    unfold readData
    dsimp only
    split
    · unfold receive
      split
      · exact h
      · exact (process_pos_le _).trans happend
    · exact h
  | writeData offset count buf out =>
    cases ht
    unfold writeData
    dsimp only
    split
    · split <;> exact h
    · exact h

theorem receiveAccesses_inside_iff (h : c.mReceiveBufferPos ≤ memorySize) {chunk : Bytes}
    (hc : chunk.length ≤ c.room) :
    (∀ a ∈ c.receiveAccesses chunk, a.Inside) ↔
      (chunk ≠ [] → ¬ BeginsTooLong (c.received ++ chunk)) := by
  have happend := append_pos_le h hc
  have hrecv : (Access.mk .mReceiveBuffer c.mReceiveBufferPos chunk.length).Inside :=
    inside_of_le happend
  unfold receiveAccesses
  rw [List.forall_mem_cons, and_iff_right hrecv]
  by_cases hnil : chunk = []
  · rw [if_pos hnil]
    exact iff_of_true nofun fun hne => absurd hnil hne
  · rw [if_neg hnil, processAccesses_inside_iff happend, received_append]
    exact (imp_iff_right hnil).symm

theorem accesses_readData_iff (h : c.mReceiveBufferPos ≤ memorySize) {offset count : Nat}
    (ho : offset < 2 ^ 64) (hn : count < 2 ^ 64) {chunk : Bytes} (hc : chunk.length ≤ c.room) :
    (∀ a ∈ c.readDataAccesses offset count chunk, a.Inside) ↔
      (offset ≤ memorySize ∧ offset + count < 2 ^ 64) ∧
        (c.mClient = true → chunk ≠ [] → ¬ BeginsTooLong (c.received ++ chunk)) := by
  unfold readDataAccesses
  rw [List.forall_mem_append, List.forall_mem_singleton, and_comm]
  apply and_congr (inside_clamp_iff ho hn)
  cases c.mClient with
  | false => exact iff_of_true nofun nofun
  | true =>
    rw [if_pos rfl, receiveAccesses_inside_iff h hc]
    exact (imp_iff_right rfl).symm

theorem accesses_writeData_iff {offset : Nat} {bs : Bytes} (ho : offset < 2 ^ 64)
    (hn : bs.length < 2 ^ 64) :
    (∀ a ∈ c.writeDataAccesses offset bs, a.Inside) ↔
      offset ≤ memorySize ∧ offset + bs.length < 2 ^ 64 := by
  have htype : (Access.mk .mData DaemonHeader.sizeof 1).Inside := inside_of_le (by decide)
  rw [← inside_clamp_iff ho hn]
  unfold writeDataAccesses
  simp only [List.forall_mem_cons]
  refine ⟨fun h => h.1, fun h => ⟨h, htype, ?_⟩⟩
  split
  · intro a ha
    rcases List.mem_append.mp ha with ha | ha
    · split at ha
      · rw [List.mem_singleton.mp ha]
        exact h
      · cases ha
    · rw [List.mem_singleton.mp ha]
      exact htype
  · exact nofun

theorem inBounds_iff (h : c.mReceiveBufferPos ≤ memorySize) (t : Transfer) :
    c.InBounds t ↔ c.Proper t := by
  have hm : memorySize = 65535 := rfl
  cases t with
  | readData offset count arriving old =>
    have hacc := accesses_readData_iff h offset.toNat_lt count.toNat_lt
      (List.length_take_le c.room arriving)
    constructor
    · rintro ⟨hin, -, -⟩
      obtain ⟨⟨ho, hr⟩, hf⟩ := hacc.mp hin
      exact ⟨ho, hr, hf⟩
    · rintro ⟨ho, hr, hf⟩
      exact ⟨hacc.mpr ⟨⟨ho, hr⟩, hf⟩, fun c' => transfer_pos_le h, fun _ => ho⟩
  | writeData offset count buf out =>
    have hacc := @accesses_writeData_iff c offset.toNat (buf.read 0 count.toNat) offset.toNat_lt
      (by rw [Mem.length_read]; exact count.toNat_lt)
    rw [Mem.length_read] at hacc
    constructor
    · rintro ⟨hin, -, -⟩
      obtain ⟨ho, hr⟩ := hacc.mp hin
      exact ⟨ho, hr, trivial⟩
    · rintro ⟨ho, hr, -⟩
      exact ⟨hacc.mpr ⟨ho, hr⟩, fun c' => transfer_pos_le h, fun _ => ho⟩

/-- **The calls of a run keep to the buffers exactly if all of them are proper**. -/
theorem along_inBounds_iff (mBaseboardID reserved : UInt8) (mReceiveBuffer : Mem)
    (ts : List Transfer) :
    Along transfer InBounds (init mBaseboardID reserved mReceiveBuffer) ts ↔
      Along transfer Proper (init mBaseboardID reserved mReceiveBuffer) ts :=
  along_congr (I := fun c => c.mReceiveBufferPos ≤ memorySize)
    (fun _ _ _ => transfer_pos_le) (fun _ t h => inBounds_iff h t) (Nat.zero_le _)

end Along

def longFrame : Bytes := ascii "RECS" ++ [0, 0] ++ be 2 65522 ++ List.replicate 65522 0

/-- The payload leaves the memory by a byte. -/
theorem longFrame_out_of_bounds :
    ¬ Along transfer InBounds (init 0 0 fun _ => 0) [.readData 0 0 longFrame fun _ => 0] := by
  have hmagic : slice 0 4 longFrame = ascii "RECS" := rfl
  have hsize : ofBE (slice 6 2 longFrame) = 65522 := by
    have hbe : slice 6 2 longFrame = be 2 65522 := rfl
    rw [hbe]
    exact ofBE_be_of_lt (by decide)
  have hlen : longFrame.length = 65530 := by
    rw [longFrame, List.length_append, List.length_replicate]
    rfl
  have hroom : (init 0 0 fun _ => 0).room = 65535 := room_of_le (Nat.zero_le _)
  have hall : longFrame.take (init 0 0 fun _ => 0).room = longFrame := by
    rw [hroom]
    exact List.take_of_length_le (by omega)
  rintro ⟨h, -⟩
  have hframe := ((inBounds_iff (Nat.zero_le _) _).mp h).frame rfl
  have hempty : (init 0 0 fun _ => 0).received = [] := rfl
  rw [hall, hempty, List.nil_append] at hframe
  refine hframe ?_ ⟨hmagic, ?_, ?_⟩
  · intro hnil
    rw [hnil] at hlen
    cases hlen
  · rw [hsize]
    decide
  · rw [hsize, hlen]
    decide

end CommunicatorTCP

end RecsDaemon
