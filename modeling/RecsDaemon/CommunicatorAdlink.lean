import RecsDaemon.Base.Memory
import RecsDaemon.Base.Blocks

/-!
# The communicator over I2C

The Adlink communicator reads and writes the memory of the baseboard's
controller in blocks, through the calls of the SEMA library. Together they act
as one transfer (`blockwise`).
-/

namespace RecsDaemon

open Base

namespace CommunicatorAdlink

/-- The calls of the library on the external bus, with the address of the device, the bytes, and the
counts as they are passed; the first component of a result is whether the call succeeded. -/
structure Sema (σ : Type) where
  /-- `SemaEApiI2CWriteRaw`. -/
  writeRaw : Nat → Bytes → Nat → σ → Bool × σ
  /-- `SemaEApiI2CWriteReadRaw`, which also leaves bytes in the buffer. -/
  writeReadRaw : Nat → Bytes → Nat → Nat → Nat → σ → Bool × Bytes × σ

def deviceSize : Nat := 65536

/-- The library works on the memory of the device with this address. -/
structure Sema.Drives {σ : Type} (lib : Sema σ) (address : Nat) (memory : σ → Mem) : Prop where
  /-- A byte count of `n + 1` writes the bytes behind the two of the address. -/
  writeRaw_ok : ∀ (temp : Bytes) (n : Nat) (s : σ), temp.length = n →
    2 ≤ n → ofBE (temp.take 2) + (n - 2) ≤ deviceSize →
    (lib.writeRaw address temp (n + 1) s).1 = true →
    memory (lib.writeRaw address temp (n + 1) s).2 =
      (memory s).write (ofBE (temp.take 2)) (temp.drop 2)
  writeRaw_failed : ∀ (temp : Bytes) (count : Nat) (s : σ),
    (lib.writeRaw address temp count s).1 = false →
    memory (lib.writeRaw address temp count s).2 = memory s
  /-- `n` bytes are read, with a byte count of `n + 1`. -/
  writeReadRaw_ok : ∀ (temp : Bytes) (n : Nat) (s : σ), temp.length = 2 →
    ofBE temp + n ≤ deviceSize →
    (lib.writeReadRaw address temp (2 + 1) n (n + 1) s).1 = true →
    (lib.writeReadRaw address temp (2 + 1) n (n + 1) s).2.1 = (memory s).read (ofBE temp) n
  writeReadRaw_memory : ∀ (temp : Bytes) (writeCount n readCount : Nat) (s : σ),
    memory (lib.writeReadRaw address temp writeCount n readCount s).2.2 = memory s

/-! ## The code -/

def maxBlockLen : Nat := 29

end CommunicatorAdlink

structure CommunicatorAdlink where
  mHandle : UInt32
  mI2CAddress : Nat

namespace CommunicatorAdlink

structure BusCall where
  temp : Bytes
  ok : Bool

structure Transfer (σ : Type) where
  lib : σ
  buf : Mem
  calls : List BusCall

structure Reply (σ : Type) where
  ret : Int
  after : Transfer σ

section Code

variable {σ : Type} (lib : Sema σ) (c : CommunicatorAdlink) (offset : Nat)

def readBlock (pos n : Nat) (t : Transfer σ) : Bool × Transfer σ :=
  let temp := be 2 (offset + pos)
  let (ok, bytes, s) := lib.writeReadRaw c.mI2CAddress temp (2 + 1) n (n + 1) t.lib
  (ok, ⟨s, t.buf.write pos bytes, t.calls ++ [⟨temp, ok⟩]⟩)

def writeBlock (pos n : Nat) (t : Transfer σ) : Bool × Transfer σ :=
  let temp := be 2 (offset + pos) ++ t.buf.read pos n
  let (ok, s) := lib.writeRaw c.mI2CAddress temp (n + 2 + 1) t.lib
  (ok, ⟨s, t.buf, t.calls ++ [⟨temp, ok⟩]⟩)

/-- `readData(offset, buf, count)`; `remaining` is a `uint32_t`. -/
def readData (count : Nat) (buf : Mem) (s : σ) : Reply σ :=
  if c.mHandle = 0 then ⟨-3, ⟨s, buf, []⟩⟩
  else
    let r := inBlocks maxBlockLen (by decide) (c.readBlock lib offset) (count % 2 ^ 32) 0 ⟨s, buf, []⟩
    ⟨if r.1 then count else -1, r.2⟩

/-- `writeData(offset, buf, count)`; `malloc` says whether there is memory for a block. -/
def writeData (malloc : Bool) (count : Nat) (buf : Mem) (s : σ) : Reply σ :=
  if c.mHandle = 0 then ⟨-3, ⟨s, buf, []⟩⟩
  else if !malloc then ⟨-4, ⟨s, buf, []⟩⟩
  else
    let r := inBlocks (maxBlockLen - 2) (by decide) (c.writeBlock lib offset) (count % 2 ^ 32) 0
      ⟨s, buf, []⟩
    ⟨if r.1 then count else -1, r.2⟩

end Code

/-! ## One transfer -/

/-- The last two calls were one and the same, and failed. -/
def FailedTwice (calls : List BusCall) : Prop :=
  ∃ before temp, calls = before ++ [⟨temp, false⟩, ⟨temp, false⟩]

section Blocks

variable {σ : Type} {lib : Sema σ} {c : CommunicatorAdlink} {memory : σ → Mem} {offset : Nat}

theorem readBlock_calls (pos n : Nat) (t : Transfer σ) :
    (c.readBlock lib offset pos n t).2.calls =
      t.calls ++ [⟨be 2 (offset + pos), (c.readBlock lib offset pos n t).1⟩] := rfl

theorem writeBlock_calls (pos n : Nat) (t : Transfer σ) :
    (c.writeBlock lib offset pos n t).2.calls =
      t.calls ++ [⟨be 2 (offset + pos) ++ t.buf.read pos n, (c.writeBlock lib offset pos n t).1⟩] :=
  rfl

theorem writeBlock_buf (pos n : Nat) (t : Transfer σ) :
    (c.writeBlock lib offset pos n t).2.buf = t.buf := rfl

theorem ofBE_address {pos n : Nat} (hn : 0 < n) (hr : offset + (pos + n) ≤ deviceSize) :
    ofBE (be 2 (offset + pos)) = offset + pos := by
  have hd : deviceSize = 65536 := rfl
  exact ofBE_be_of_lt (by omega)

theorem readBlock_ok (hlib : lib.Drives c.mI2CAddress memory) {pos n : Nat} {t : Transfer σ}
    (hn : 0 < n) (hr : offset + (pos + n) ≤ deviceSize)
    (h : (c.readBlock lib offset pos n t).1 = true) :
    (c.readBlock lib offset pos n t).2.buf =
      t.buf.write pos ((memory t.lib).read (offset + pos) n) := by
  have ha := ofBE_address hn hr
  have hbytes := hlib.writeReadRaw_ok (be 2 (offset + pos)) n t.lib (length_be _ _)
    (by rw [ha]; omega) h
  rw [ha] at hbytes
  exact congrArg (t.buf.write pos) hbytes

theorem writeBlock_ok (hlib : lib.Drives c.mI2CAddress memory) {pos n : Nat} {t : Transfer σ}
    (hn : 0 < n) (hr : offset + (pos + n) ≤ deviceSize)
    (h : (c.writeBlock lib offset pos n t).1 = true) :
    memory (c.writeBlock lib offset pos n t).2.lib =
      (memory t.lib).write (offset + pos) (t.buf.read pos n) := by
  have ha := ofBE_address hn hr
  have htemp : (be 2 (offset + pos) ++ t.buf.read pos n).length = n + 2 := by
    rw [List.length_append, length_be, Mem.length_read, Nat.add_comm]
  have htake : (be 2 (offset + pos) ++ t.buf.read pos n).take 2 = be 2 (offset + pos) :=
    List.take_left' (length_be _ _)
  have hdrop : (be 2 (offset + pos) ++ t.buf.read pos n).drop 2 = t.buf.read pos n :=
    List.drop_left' (length_be _ _)
  have hmem := hlib.writeRaw_ok _ (n + 2) t.lib htemp (by omega)
    (by rw [htake, ha]; omega) h
  rw [htake, hdrop, ha] at hmem
  exact hmem

def ReadTo (memory : σ → Mem) (offset : Nat) (m : Mem) (pos : Nat) (t : Transfer σ) : Prop :=
  memory t.lib = m ∧ t.buf.read 0 pos = m.read offset pos

def WrittenTo (memory : σ → Mem) (offset : Nat) (m buf : Mem) (pos : Nat) (t : Transfer σ) : Prop :=
  memory t.lib = m.write offset (buf.read 0 pos) ∧ t.buf = buf

theorem failedTwice_append (calls : List BusCall) (temp : Bytes) :
    FailedTwice (calls ++ [⟨temp, false⟩] ++ [⟨temp, false⟩]) :=
  ⟨calls, temp, by rw [List.append_assoc]; rfl⟩

/-- The range is read, or a block failed twice. -/
theorem readBlocks (hlib : lib.Drives c.mI2CAddress memory) {count : Nat}
    (hr : offset + count ≤ deviceSize) (hl : 0 < maxBlockLen) (buf : Mem) (s : σ) :
    let r := inBlocks maxBlockLen hl (c.readBlock lib offset) count 0 ⟨s, buf, []⟩
    (r.1 = true → ReadTo memory offset (memory s) count r.2) ∧
      (r.1 = false → FailedTwice r.2.calls ∧ memory r.2.lib = memory s) := by
  have hrule := @inBlocks_induct _ _ hl (c.readBlock lib offset) count
    (ReadTo memory offset (memory s)) ?_ ?_ count 0 ⟨s, buf, []⟩ (Nat.zero_add count) ⟨rfl, rfl⟩
  · refine ⟨hrule.1, fun h => ?_⟩
    obtain ⟨k, -, ⟨n, t, -, h1, h2, heq⟩, hkept⟩ := hrule.2 h
    refine ⟨?_, hkept.1⟩
    rw [heq, readBlock_calls, readBlock_calls, h1, h2]
    exact failedTwice_append _ _
  · rintro pos n t hn - hle ⟨hmem, hread⟩ hok
    have hblock := Mem.read_write_self t.buf pos ((memory s).read (offset + pos) n)
    rw [Mem.length_read] at hblock
    refine ⟨(hlib.writeReadRaw_memory _ _ _ _ _).trans hmem, ?_⟩
    rw [readBlock_ok hlib hn (by omega) hok, Mem.read_add, Nat.zero_add, hmem, hblock,
      Mem.read_write_of_disjoint (.inl (by omega)), hread, Mem.read_add]
  · rintro pos n t ⟨hmem, hread⟩ -
    refine ⟨(hlib.writeReadRaw_memory _ _ _ _ _).trans hmem, ?_⟩
    exact (Mem.read_write_of_disjoint (.inl (by omega))).trans hread

/-- The range is written, or the blocks in front of one that failed twice. -/
theorem writeBlocks (hlib : lib.Drives c.mI2CAddress memory) {count : Nat}
    (hr : offset + count ≤ deviceSize) (hl : 0 < maxBlockLen - 2) (buf : Mem) (s : σ) :
    let r := inBlocks (maxBlockLen - 2) hl (c.writeBlock lib offset) count 0 ⟨s, buf, []⟩
    (r.1 = true → memory r.2.lib = (memory s).write offset (buf.read 0 count)) ∧
      (r.1 = false → FailedTwice r.2.calls ∧ ∃ k, (maxBlockLen - 2) * k < count ∧
        memory r.2.lib = (memory s).write offset (buf.read 0 ((maxBlockLen - 2) * k))) := by
  have hrule := @inBlocks_induct _ _ hl (c.writeBlock lib offset) count
    (WrittenTo memory offset (memory s) buf) ?_ ?_ count 0 ⟨s, buf, []⟩ (Nat.zero_add count)
    ⟨(Mem.write_nil (memory s) offset).symm, rfl⟩
  · refine ⟨fun h => (hrule.1 h).1, fun h => ?_⟩
    obtain ⟨k, hk, ⟨n, t, -, h1, h2, heq⟩, hkept⟩ := hrule.2 h
    rw [Nat.zero_add] at hkept
    refine ⟨?_, k, hk, hkept.1⟩
    rw [heq, writeBlock_calls, writeBlock_calls, writeBlock_buf, h1, h2]
    exact failedTwice_append _ _
  · rintro pos n t hn - hle ⟨hmem, rfl⟩ hok
    refine ⟨?_, rfl⟩
    rw [writeBlock_ok hlib hn (by omega) hok, hmem, Mem.read_add, Nat.zero_add, Mem.write_append,
      Mem.length_read]
  · rintro pos n t ⟨hmem, rfl⟩ hfailed
    exact ⟨(hlib.writeRaw_failed _ _ _ hfailed).trans hmem, rfl⟩

end Blocks

section Transfers

variable {σ : Type}

/-- A read of the range of a memory that holds `old`, as one transfer. -/
structure ReadsRange (memory : σ → Mem) (old : Mem) (offset count : Nat) (r : Reply σ) : Prop where
  all : r.ret = count → r.after.buf.read 0 count = old.read offset count
  failed : r.ret = -1 → FailedTwice r.after.calls
  memory : memory r.after.lib = old

/-- A write of `buf` to the range, as one transfer. -/
structure WritesRange (memory : σ → Mem) (old : Mem) (offset count : Nat) (buf : Mem)
    (r : Reply σ) : Prop where
  all : r.ret = count → memory r.after.lib = old.write offset (buf.read 0 count)
  failed : r.ret = -1 → FailedTwice r.after.calls
  /-- Whole blocks are written. -/
  part : r.ret = -1 → ∃ k, (maxBlockLen - 2) * k < count ∧
    memory r.after.lib = old.write offset (buf.read 0 ((maxBlockLen - 2) * k))

variable {lib : Sema σ} {c : CommunicatorAdlink} {memory : σ → Mem} {offset count : Nat}

theorem count_mod (hr : offset + count ≤ deviceSize) : count % 2 ^ 32 = count := by
  have hd : deviceSize = 65536 := rfl
  exact Nat.mod_eq_of_lt (by omega)

theorem readData_readsRange (hlib : lib.Drives c.mI2CAddress memory)
    (hr : offset + count ≤ deviceSize) (buf : Mem) (s : σ) :
    ReadsRange memory (memory s) offset count (c.readData lib offset count buf s) := by
  have hl : 0 < maxBlockLen := by decide
  obtain ⟨hall, hsome⟩ := readBlocks hlib hr hl buf s
  unfold readData
  rw [count_mod hr]
  by_cases hh : c.mHandle = 0
  · rw [if_pos hh]
    exact ⟨fun h => by dsimp only at h; omega, nofun, rfl⟩
  · rw [if_neg hh]
    generalize inBlocks maxBlockLen hl (c.readBlock lib offset) count 0 ⟨s, buf, []⟩ = r at *
    obtain ⟨ok, t⟩ := r
    cases ok with
    | true => exact ⟨fun _ => (hall rfl).2, fun h => by simp at h, (hall rfl).1⟩
    | false => exact ⟨fun h => by simp at h, fun _ => (hsome rfl).1, (hsome rfl).2⟩

theorem writeData_writesRange (hlib : lib.Drives c.mI2CAddress memory)
    (hr : offset + count ≤ deviceSize) (malloc : Bool) (buf : Mem) (s : σ) :
    WritesRange memory (memory s) offset count buf
      (c.writeData lib offset malloc count buf s) := by
  have hl : 0 < maxBlockLen - 2 := by decide
  obtain ⟨hall, hsome⟩ := writeBlocks hlib hr hl buf s
  unfold writeData
  rw [count_mod hr]
  by_cases hh : c.mHandle = 0
  · rw [if_pos hh]
    exact ⟨fun h => by dsimp only at h; omega, nofun, nofun⟩
  rw [if_neg hh]
  cases malloc with
  | false => exact ⟨fun h => by simp at h, fun h => by simp at h, fun h => by simp at h⟩
  | true =>
    rw [if_neg (by decide)]
    generalize inBlocks (maxBlockLen - 2) hl (c.writeBlock lib offset) count 0 ⟨s, buf, []⟩ = r at *
    obtain ⟨ok, t⟩ := r
    cases ok with
    | true => exact ⟨fun _ => hall rfl, fun h => by simp at h, fun h => by simp at h⟩
    | false => exact ⟨fun h => by simp at h, fun _ => (hsome rfl).1, fun _ => (hsome rfl).2⟩

theorem readData_ret (hh : c.mHandle ≠ 0) (buf : Mem) (s : σ) :
    (c.readData lib offset count buf s).ret = count ∨
      (c.readData lib offset count buf s).ret = -1 := by
  unfold readData
  rw [if_neg hh]
  dsimp only
  split
  · exact .inl rfl
  · exact .inr rfl

theorem writeData_ret (hh : c.mHandle ≠ 0) (buf : Mem) (s : σ) :
    (c.writeData lib offset true count buf s).ret = count ∨
      (c.writeData lib offset true count buf s).ret = -1 := by
  unfold writeData
  rw [if_neg hh, if_neg (by decide)]
  dsimp only
  split
  · exact .inl rfl
  · exact .inr rfl

/-- A library whose calls fail as listed, and then succeed. -/
def sampleSema : Sema (Mem × List Bool) where
  writeRaw _ temp byteCount s :=
    if s.2.head?.getD true then
      (true, s.1.write (ofBE (temp.take 2)) ((temp.take (byteCount - 1)).drop 2), s.2.tail)
    else (false, s.1, s.2.tail)
  writeReadRaw _ temp _ n _ s :=
    if s.2.head?.getD true then (true, s.1.read (ofBE temp) n, s.1, s.2.tail)
    else (false, [], s.1, s.2.tail)

theorem sampleSema_drives (address : Nat) : sampleSema.Drives address Prod.fst where
  writeRaw_ok temp n s hn _ _ h := by
    unfold sampleSema at h ⊢
    dsimp only at h ⊢
    split at h
    · next hok => rw [if_pos hok, Nat.add_sub_cancel, ← hn, List.take_length]
    · cases h
  writeRaw_failed temp byteCount s h := by
    unfold sampleSema at h ⊢
    dsimp only at h ⊢
    split at h
    · cases h
    · next hfailed => rw [if_neg hfailed]
  writeReadRaw_ok temp n s _ _ h := by
    unfold sampleSema at h ⊢
    dsimp only at h ⊢
    split at h
    · next hok => rw [if_pos hok]
    · cases h
  writeReadRaw_memory temp writeCount n readCount s := by
    unfold sampleSema
    dsimp only
    split <;> rfl

end Transfers

end CommunicatorAdlink

end RecsDaemon
