import RecsDaemon.Sensor

/-!
# Integer values of sensor beans

`setData(uint32_t)` and `setData(uint64_t)` swap the bytes of the value on the
stack and copy the last `mMaxDataSize` of them, from a place computed in
`size_t`. Up to the width of the value this is its big-endian encoding. A bean
of more than 4 bytes that is set by the 32-bit overload gets bytes of the stack
in front.
-/

namespace RecsDaemon

open Base

namespace SensorBean

/-! ## Byte order -/

/-- `htonl` of a little-endian host: the bytes of the value the other way round. -/
def htonl (value : UInt32) : UInt32 := UInt32.ofNat (ofBE (le 4 value.toNat))

def num : UInt32 := 42

def htonll (value : UInt64) : UInt64 :=
  -- the first byte of `num` in memory shows the endianness
  if ofLE ((le 4 num.toNat).take 1) = num.toNat then
    let highPart := htonl (value >>> 32).toUInt32
    let lowPart := htonl (value &&& 0xFFFFFFFF).toUInt32
    (lowPart.toUInt64 <<< 32) ||| highPart.toUInt64
  else value

theorem le_htonl (v : UInt32) : le 4 (htonl v).toNat = be 4 v.toNat := by
  have hb : ofBE (le 4 v.toNat) = ofLE (be 4 v.toNat) := by rw [ofBE, be]
  have hlt : ofLE (be 4 v.toNat) < 2 ^ 32 := by simpa using ofLE_lt (be 4 v.toNat)
  have hn : (htonl v).toNat = ofLE (be 4 v.toNat) := by
    rw [htonl, hb, UInt32.toNat_ofNat', Nat.mod_eq_of_lt hlt]
  have h := le_ofLE (be 4 v.toNat)
  rwa [length_be, ← hn] at h

theorem toNat_htonll (v : UInt64) :
    (htonll v).toNat = (htonl (v >>> 32).toUInt32).toNat
      + 2 ^ 32 * (htonl (v &&& 0xFFFFFFFF).toUInt32).toNat := by
  have hnum : ofLE ((le 4 num.toNat).take 1) = num.toNat := by decide
  unfold htonll
  rw [if_pos hnum]
  generalize htonl (v >>> 32).toUInt32 = high
  generalize htonl (v &&& 0xFFFFFFFF).toUInt32 = low
  have hh := high.toNat_lt
  have hl := low.toNat_lt
  simp only [UInt64.toNat_or, UInt64.toNat_shiftLeft, UInt32.toNat_toUInt64]
  rw [show (32 : UInt64).toNat % 64 = 32 from rfl, Nat.mod_eq_of_lt
    (by rw [Nat.shiftLeft_eq]; omega), ← Nat.shiftLeft_add_eq_or_of_lt hh, Nat.shiftLeft_eq]
  omega

theorem le_htonll (v : UInt64) : le 8 (htonll v).toNat = be 8 v.toNat := by
  have hhigh : (v >>> 32).toUInt32.toNat = v.toNat / 256 ^ 4 % 256 ^ 4 := by
    simp [Nat.shiftRight_eq_div_pow]
  have hlow : (v &&& 0xFFFFFFFF).toUInt32.toNat = v.toNat % 256 ^ 4 := by
    simp only [UInt64.toNat_toUInt32, UInt64.toNat_and]
    rw [show (0xFFFFFFFF : UInt64).toNat = 2 ^ 32 - 1 from rfl, Nat.and_two_pow_sub_one_eq_mod]
    omega
  have hlt := (htonl (v >>> 32).toUInt32).toNat_lt
  have h1 := le_mod 4 (htonll v).toNat
  have h2 : (htonll v).toNat / 256 ^ 4 = (htonl (v &&& 0xFFFFFFFF).toUInt32).toNat := by
    rw [toNat_htonll]; omega
  have h3 : (htonll v).toNat % 256 ^ 4 = (htonl (v >>> 32).toUInt32).toNat := by
    rw [toNat_htonll]; omega
  calc le 8 (htonll v).toNat
      = le 4 (htonll v).toNat ++ le 4 ((htonll v).toNat / 256 ^ 4) := (le_append 4 4 _).symm
    _ = be 4 (v.toNat / 256 ^ 4 % 256 ^ 4) ++ be 4 (v.toNat % 256 ^ 4) := by
        rw [← h1, h3, h2, le_htonl, le_htonl, hhigh, hlow]
    _ = be 8 v.toNat := by rw [be_mod, be_mod, be_append]

/-! ## The setters -/

/-- The stack in one call of a setter: where the local `val` lies, and what memory holds. -/
structure Frame where
  memory : Mem
  addr : Nat
  fits : addr + 8 ≤ 2 ^ 64

/-- `((uint8_t*)(&val)) + (width - mMaxDataSize)`, in `size_t`. -/
def copyStart (width n addr : Nat) : Nat := (addr + (width + 2 ^ 64 - n) % 2 ^ 64) % 2 ^ 64

/-- The `memcpy` of both setters, of a `val` of `width` bytes. -/
def copyLast (beans : Beans) (s : Sensor) (frame : Frame) (width val : Nat) : Beans :=
  let memory := frame.memory.write frame.addr (le width val)
  setData beans s
    (memory.read (copyStart width s.getMaxDataSize frame.addr) s.getMaxDataSize)

def setDataUint32 (beans : Beans) (s : Sensor) (frame : Frame) (value : UInt32) : Beans :=
  let val := htonl value
  copyLast beans s frame 4 val.toNat

def setDataUint64 (beans : Beans) (s : Sensor) (frame : Frame) (value : UInt64) : Beans :=
  let val := htonll value
  copyLast beans s frame 8 val.toNat

inductive Setter where
  | uint32 (value : UInt32)
  | uint64 (value : UInt64)

namespace Setter

def width : Setter → Nat
  | uint32 _ => 4
  | uint64 _ => 8

def value : Setter → Nat
  | uint32 v => v.toNat
  | uint64 v => v.toNat

def run (beans : Beans) (s : Sensor) (frame : Frame) : Setter → Beans
  | uint32 v => setDataUint32 beans s frame v
  | uint64 v => setDataUint64 beans s frame v

def converted : Setter → Nat
  | uint32 v => (htonl v).toNat
  | uint64 v => (htonll v).toNat

theorem run_eq (beans : Beans) (s : Sensor) (frame : Frame) (c : Setter) :
    c.run beans s frame = copyLast beans s frame c.width c.converted := by
  cases c <;> rfl

theorem le_converted (c : Setter) : le c.width c.converted = be c.width c.value := by
  cases c with
  | uint32 v => exact le_htonl v
  | uint64 v => exact le_htonll v

end Setter

/-- Calls one after the other, each with the stack it meets. -/
def runAll (beans : Beans) (s : Sensor) (calls : List (Frame × Setter)) : Beans :=
  calls.foldl (fun beans c => c.2.run beans s c.1) beans

/-! ## One call -/

/-- The copy of the call reads no byte outside the converted value. -/
def ReadsInside (s : Sensor) (frame : Frame) (c : Setter) : Prop :=
  ∀ i < s.getMaxDataSize,
    frame.addr ≤ copyStart c.width s.getMaxDataSize frame.addr + i ∧
      copyStart c.width s.getMaxDataSize frame.addr + i < frame.addr + c.width

theorem copyStart_of_le {width n addr : Nat} (h : n ≤ width) (hw : 0 < n)
    (hf : addr + width ≤ 2 ^ 64) : copyStart width n addr = addr + (width - n) := by
  unfold copyStart
  omega

/-- A bean wider than the value starts to copy in front of the value, or, where the address
wraps around, behind it. -/
theorem copyStart_of_lt {width n addr : Nat} (h : width < n) (hn : n ≤ 8)
    (hf : addr + width ≤ 2 ^ 64) :
    copyStart width n addr < addr ∨ addr + width ≤ copyStart width n addr := by
  unfold copyStart
  omega

theorem Setter.width_le (c : Setter) : c.width ≤ 8 := by cases c <;> simp [Setter.width]

theorem Frame.fits_width (frame : Frame) (c : Setter) : frame.addr + c.width ≤ 2 ^ 64 :=
  Nat.le_trans (Nat.add_le_add_left c.width_le _) frame.fits

/-- The copy stays inside the value exactly if the bean is not wider. -/
theorem readsInside_iff {s : Sensor} (hn : s.getMaxDataSize ≤ 8) (frame : Frame) (c : Setter) :
    ReadsInside s frame c ↔ s.getMaxDataSize ≤ c.width := by
  unfold ReadsInside
  generalize s.getMaxDataSize = n at *
  have hf := frame.fits_width c
  refine ⟨fun h => ?_, fun h i hi => ?_⟩
  · by_contra hlt
    have h0 := h 0 (by omega)
    rcases copyStart_of_lt (Nat.not_le.mp hlt) hn hf with hs | hs <;> omega
  · rw [copyStart_of_le h (by omega) hf]
    omega

theorem getData_setData {beans : Beans} {s : Sensor} {bs : Bytes}
    (h : bs.length = s.getMaxDataSize) : getData (setData beans s bs) s = bs := by
  unfold getData setData
  rw [Function.update_self, ← h, Mem.read_write_self]

/-- The last bytes of the converted value are the encoding of the value. -/
theorem getData_run {s : Sensor} (beans : Beans) (frame : Frame) {c : Setter}
    (h : s.getMaxDataSize ≤ c.width) :
    getData (c.run beans s frame) s = be s.getMaxDataSize c.value := by
  rw [c.run_eq, copyLast, getData_setData (Mem.length_read _ _ _)]
  generalize s.getMaxDataSize = n at *
  rcases Nat.eq_zero_or_pos n with rfl | hpos
  · rfl
  · have hlen : (be c.width c.value).length = c.width := length_be _ _
    rw [copyStart_of_le h hpos (frame.fits_width c), c.le_converted,
      Mem.read_write_slice _ _ _ _ _ (by omega), slice, be_drop h,
      List.take_of_length_le (Nat.le_of_eq (length_be _ _))]

/-- The 32-bit setter stores `uint32Bytes`, with the stack in front of the value. -/
theorem setDataUint32_eq {s : Sensor} (hn : s.getMaxDataSize ≤ 8) (beans : Beans) {frame : Frame}
    (hf : s.getMaxDataSize - 4 ≤ frame.addr) (v : UInt32) :
    setDataUint32 beans s frame v = setData beans s (uint32Bytes s.getMaxDataSize
      (fun a => frame.memory (frame.addr - (s.getMaxDataSize - 4) + a)) v) := by
  simp only [setDataUint32, copyLast, uint32Bytes, le_htonl]
  generalize s.getMaxDataSize = n at *
  have hfits := frame.fits
  congr 1
  rcases Nat.lt_or_ge 4 n with hlt | hle
  · obtain ⟨k, rfl⟩ := Nat.exists_eq_add_of_lt hlt
    have hk : 4 + k + 1 - 4 = k + 1 := by omega
    have hstart : copyStart 4 (4 + k + 1) frame.addr = frame.addr - (k + 1) := by
      unfold copyStart
      omega
    have hval := Mem.read_write_self frame.memory frame.addr (be 4 v.toNat)
    rw [length_be] at hval
    rw [hk] at hf ⊢
    rw [hstart, show 4 + k + 1 = (k + 1) + 4 by omega, Mem.read_add,
      Mem.read_write_of_disjoint (.inl (by omega)), show frame.addr - (k + 1) + (k + 1) = frame.addr
        by omega, hval, show 4 - (k + 1 + 4) = 0 by omega, List.drop_zero]
    simp [Mem.read]
  · rcases Nat.eq_zero_or_pos n with rfl | hpos
    · rfl
    · rw [copyStart_of_le hle hpos (by omega), Mem.read_write_slice _ _ _ _ _ (by simp; omega),
        slice, be_drop hle, List.take_of_length_le (by simp), show n - 4 = 0 by omega,
        Mem.read_zero, List.nil_append, be_drop hle]

/-! ## Any sequence of calls -/

theorem runAll_concat (beans : Beans) (s : Sensor) (calls : List (Frame × Setter)) (frame : Frame)
    (c : Setter) :
    runAll beans s (calls ++ [(frame, c)]) = c.run (runAll beans s calls) s frame := by
  simp [runAll]

/-- After each of the calls the bean delivers the encoding of the value just set, and the copy has
read no byte outside it. -/
def StoresBigEndian (beans : Beans) (s : Sensor) (calls : List (Frame × Setter)) : Prop :=
  ∀ before frame c, before ++ [(frame, c)] <+: calls →
    getData (runAll beans s (before ++ [(frame, c)])) s = be s.getMaxDataSize c.value ∧
      ReadsInside s frame c

/-- The values are stored exactly if no value of 32 bits is set in a bean of more than 4 bytes. -/
theorem storesBigEndian_iff {s : Sensor} (hn : s.getMaxDataSize ≤ 8) (beans : Beans)
    (calls : List (Frame × Setter)) :
    StoresBigEndian beans s calls ↔
      s.getMaxDataSize ≤ 4 ∨ ∀ x ∈ calls, ∃ v, x.2 = .uint64 v := by
  refine ⟨fun h => ?_, fun h before frame c hpre => ?_⟩
  · apply or_iff_not_imp_left.mpr
    intro hwide x hx
    obtain ⟨frame, c⟩ := x
    obtain ⟨before, after, rfl⟩ := List.append_of_mem hx
    have hin := (h before frame c ⟨after, by simp⟩).2
    cases c with
    | uint32 v => exact absurd ((readsInside_iff hn frame _).mp hin) hwide
    | uint64 v => exact ⟨v, rfl⟩
  · have hmem : (frame, c) ∈ calls := hpre.subset (by simp)
    have hw : s.getMaxDataSize ≤ c.width := by
      rcases h with h | h
      · exact Nat.le_trans h (by cases c <;> simp [Setter.width])
      · obtain ⟨v, hv⟩ := h _ hmem
        rw [show c = .uint64 v from hv]
        exact hn
    rw [runAll_concat]
    exact ⟨getData_run _ frame hw, (readsInside_iff hn frame c).mpr hw⟩

/-- The "CPU" sensor of the system's provider. -/
def cpu : Sensor :=
  ⟨.plugin 0, .float, 8, .percent, false, false, .zero, .zero, .zero, .zero, 1, [], .textual⟩

theorem cpu_size : cpu.getMaxDataSize = 8 := rfl

def ones : Frame := ⟨fun _ => 0xFF, 4096, by norm_num⟩

/-- Two values of different widths in a bean of 8 bytes, both as `uint64_t`. -/
theorem storesBigEndian_iff_sample :
    StoresBigEndian (fun _ _ => 0) cpu [(ones, .uint64 7), (ones, .uint64 0x1122334455667788)] :=
  (storesBigEndian_iff cpu_size.le _ _).mpr (.inr (by simp))

/-- The provider's `setData((uint32_t)0)` stores four bytes of the stack in front of the zero. -/
theorem narrow_setter_reads_stack :
    getData (runAll (fun _ _ => 0) cpu [(ones, .uint32 0)]) cpu
        = [0xFF, 0xFF, 0xFF, 0xFF, 0, 0, 0, 0] ∧
      ¬ StoresBigEndian (fun _ _ => 0) cpu [(ones, .uint32 0)] := by
  have hrun : runAll (fun _ _ => 0) cpu [(ones, .uint32 0)] =
      setData (fun _ _ => 0) cpu (uint32Bytes cpu.getMaxDataSize (fun _ => 0xFF) 0) :=
    setDataUint32_eq cpu_size.le _ (by simp [ones, cpu_size]) 0
  have hget : getData (runAll (fun _ _ => 0) cpu [(ones, .uint32 0)]) cpu
      = [0xFF, 0xFF, 0xFF, 0xFF, 0, 0, 0, 0] := by
    rw [hrun, getData_setData (length_uint32Bytes _ _ _), cpu_size]
    decide
  refine ⟨hget, fun h => ?_⟩
  have hbe := (h [] ones (.uint32 0) (List.prefix_refl _)).1
  rw [List.nil_append, hget] at hbe
  exact absurd hbe (by decide)

end SensorBean

end RecsDaemon
