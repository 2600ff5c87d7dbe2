import RecsDaemon.Communicator
import RecsDaemon.Base.Access

/-!
# The dummy communicator

`CommunicatorDummy` has a memory of its own with four slots, and plays
management itself: each write is followed by a look at the slots that takes
whatever is in them.
-/

namespace RecsDaemon

open Base

/-- `mData` is `NULL` before `initInterface`. -/
structure CommunicatorDummy where
  mData : Option Mem

namespace CommunicatorDummy

def memorySize : Nat := 4096

def slots : Nat := 4

/-- The header of the memory, its reserved byte being what the stack held. -/
def headerBytes (reserved : UInt8) : Bytes :=
  ascii "RECS" ++ le 2 memorySize ++ [1, UInt8.ofNat slots, 3, reserved] ++
    le 2 DaemonHeader.sizeof ++ le 2 DaemonHeader.sizeof

def initial (reserved : UInt8) : Mem := Mem.write (fun _ => 0) 0 (headerBytes reserved)

/-- `initInterface`, where `malloc` succeeds or not. -/
def initInterface (allocated : Bool) (reserved : UInt8) : CommunicatorDummy × Bool :=
  if allocated then (⟨some (initial reserved)⟩, true) else (⟨none⟩, false)

/-- `count`, cut at the end of the memory; the arithmetic is one of `size_t`. -/
def clamp (offset count : Nat) : Nat :=
  if memorySize < (offset + count) % 2 ^ 64 then (memorySize + 2 ^ 64 - offset) % 2 ^ 64 else count

def slotOffset (i : Nat) : Nat :=
  DaemonHeader.sizeof + i * ((memorySize - DaemonHeader.sizeof) / slots)

/-- `parseData`: all messages are marked as processed. -/
def parseData (m : Mem) : Mem := m.writeAll ((List.range slots).map fun i => (slotOffset i, [0]))

/-- `readData(offset, buf, count)` into a buffer that held `old`. -/
def readData (offset count : Nat) (old : Mem) (c : CommunicatorDummy) : ReadReply :=
  match c.mData with
  | none => ⟨-3, old⟩
  | some m =>
    let count := clamp offset count
    ⟨toSigned count, old.fill 0 count fun a => m (offset + a)⟩

/-- `writeData(offset, buf, count)` of the bytes `bs`, and what it returns. -/
def writeData (offset : Nat) (bs : Bytes) (c : CommunicatorDummy) : CommunicatorDummy × Int :=
  match c.mData with
  | none => (c, -3)
  | some m =>
    let count := clamp offset bs.length
    (⟨some (parseData (m.write offset (bs.take count)))⟩, toSigned count)

def readRanges (offset count : Nat) (c : CommunicatorDummy) : List (Nat × Nat) :=
  if c.mData.isSome then [(offset, clamp offset count)] else []

/-- The ranges of `mData` a write touches, with those of `parseData`. -/
def writeRanges (offset count : Nat) (c : CommunicatorDummy) : List (Nat × Nat) :=
  if c.mData.isSome then
    (offset, clamp offset count) :: (List.range slots).map fun i => (slotOffset i, 1)
  else []

/-! ## Ranges -/

theorem clamp_of_le {offset count : Nat} (h : offset + count ≤ memorySize) :
    clamp offset count = count := by
  have hm : memorySize = 4096 := rfl
  exact if_neg (by omega)

/-- A range is cut where its offset is in the memory and its end is a `size_t`. -/
theorem inside_clamp_iff {offset count : Nat} (ho : offset < 2 ^ 64) (hc : count < 2 ^ 64) :
    Prog.Inside memorySize (offset, clamp offset count) ↔
      offset ≤ memorySize ∧ offset + count < 2 ^ 64 := by
  have hm : memorySize = 4096 := rfl
  rw [Prog.inside_iff]
  unfold clamp
  split <;> omega

theorem slotOffset_inside {i : Nat} (h : i < slots) : Prog.Inside memorySize (slotOffset i, 1) := by
  have hs : slots = 4 := rfl
  rw [Prog.inside_iff]
  refine .inr ?_
  simp only [slotOffset, memorySize, DaemonHeader.sizeof, slots]
  omega

theorem readRanges_inside {c : CommunicatorDummy} {offset count : Nat} (ho : offset ≤ memorySize)
    (hc : offset + count < 2 ^ 64) : ∀ a ∈ c.readRanges offset count, Prog.Inside memorySize a := by
  intro a ha
  unfold readRanges at ha
  split at ha
  · obtain rfl := List.mem_singleton.mp ha
    exact (inside_clamp_iff (by omega) (by omega)).mpr ⟨ho, hc⟩
  · cases ha

theorem writeRanges_inside {c : CommunicatorDummy} {offset count : Nat} (ho : offset ≤ memorySize)
    (hc : offset + count < 2 ^ 64) :
    ∀ a ∈ c.writeRanges offset count, Prog.Inside memorySize a := by
  intro a ha
  unfold writeRanges at ha
  split at ha
  · rcases List.mem_cons.mp ha with rfl | ha
    · exact (inside_clamp_iff (by omega) (by omega)).mpr ⟨ho, hc⟩
    · obtain ⟨i, hi, rfl⟩ := List.mem_map.mp ha
      exact slotOffset_inside (List.mem_range.mp hi)
  · cases ha

/-! ## Messages that are taken -/

theorem parseData_other {m : Mem} {a : Nat} (h : ∀ i < slots, a ≠ slotOffset i) :
    parseData m a = m a := by
  refine Mem.writeAll_uncovered fun w hw hc => ?_
  obtain ⟨i, hi, rfl⟩ := List.mem_map.mp hw
  obtain ⟨h1, h2⟩ := hc
  rw [List.length_singleton] at h2
  exact h i (List.mem_range.mp hi) (by omega)

theorem parseData_slot (m : Mem) {i : Nat} (h : i < slots) : parseData m (slotOffset i) = 0 := by
  have hs : slots = 4 := rfl
  have hi : i = 0 ∨ i = 1 ∨ i = 2 ∨ i = 3 := by omega
  rcases hi with rfl | rfl | rfl | rfl
  · rfl
  · rfl
  · rfl
  · rfl

theorem parseData_cases (m : Mem) (a : Nat) : parseData m a = m a ∨ parseData m a = 0 := by
  by_cases h : ∃ i < slots, a = slotOffset i
  · obtain ⟨i, hi, rfl⟩ := h
    exact .inr (parseData_slot m hi)
  · exact .inl (parseData_other fun i hi ha => h ⟨i, hi, ha⟩)

theorem readData_first {c : CommunicatorDummy} {m old : Mem} {offset count : Nat}
    (h : c.mData = some m) (ho : offset < memorySize) (hc : 0 < count) :
    (c.readData offset count old).buf 0 = m offset := by
  have hm : memorySize = 4096 := rfl
  have hpos : 0 < clamp offset count := by
    unfold clamp
    split <;> omega
  unfold readData
  rw [h]
  have hfill := @Mem.fill_inside old (fun a => m (offset + a)) 0 _ 0 hpos
  exact hfill

/-- The first byte of a message after a write: it is taken, or stays as it was written. -/
theorem writeData_first {c : CommunicatorDummy} {m : Mem} {offset : Nat} {bs : Bytes}
    (h : c.mData = some m) : ∃ m', (c.writeData offset bs).1.mData = some m' ∧
      (m' offset = 0 ∨ m' offset = m offset ∨ bs.head? = some (m' offset)) := by
  unfold writeData
  rw [h]
  refine ⟨_, rfl, ?_⟩
  rcases parseData_cases (m.write offset (bs.take (clamp offset bs.length))) offset with he | he
  · rw [he]
    refine .inr ?_
    cases bs with
    | nil => exact .inl (by rw [List.take_nil, Mem.write_nil])
    | cons b bs =>
      cases clamp offset (b :: bs).length with
      | zero => exact .inl (by rw [List.take_zero, Mem.write_nil])
      | succ n =>
        have hb := Mem.write_inside m offset ((b :: bs).take (n + 1)) (i := 0) (by simp)
        exact .inr (congrArg some hb.symm)
  · exact .inl he

theorem readData_inside {c : CommunicatorDummy} {m : Mem} {offset count : Nat}
    (h : c.mData = some m) (hle : offset + count ≤ memorySize) (old : Mem) :
    (c.readData offset count old).ret = count ∧
      ((c.readData offset count old).buf).read 0 count = m.read offset count := by
  have hm : memorySize = 4096 := rfl
  unfold readData
  rw [h]
  dsimp only
  rw [clamp_of_le hle]
  refine ⟨toSigned_of_lt (by omega), List.map_congr_left fun i hi => ?_⟩
  exact Mem.fill_inside (List.mem_range.mp hi)

theorem writeData_inside {c : CommunicatorDummy} {m : Mem} {offset : Nat} {bs : Bytes}
    (h : c.mData = some m) (hle : offset + bs.length ≤ memorySize) :
    (c.writeData offset bs).1.mData = some (parseData (m.write offset bs)) := by
  unfold writeData
  rw [h]
  dsimp only
  rw [clamp_of_le hle, List.take_length]

theorem slotOffset_eq (i : Nat) : slotOffset i = 14 + i * 1020 := rfl

end CommunicatorDummy

end RecsDaemon
