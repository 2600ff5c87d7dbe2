import RecsDaemon.Node
import RecsDaemon.Base.Walk

/-!
# The search for a chunk

The chunk area is a sequence of chunks between the two offsets of the header.
The search adds up a 16-bit position, so it can come back to where it was
(`search_ends_iff`), and it reads a chunk before it looks where the area ends,
so an empty area makes it read what lies behind (`search_right_iff`).
-/

namespace RecsDaemon

open Base

namespace Node

/-- Reads that all succeed: the header first, and then the memory. -/
def searchReads (hdr m : Mem) : Reads := fun n off count =>
  if n = 0 then ⟨count, hdr⟩ else Reads.ofMem m n off count

/-- The loop looks at the reads from the `n`-th on. -/
theorem findChunk_congr {reads reads' : Reads} {chunkType : UInt8} {dyn fuel n pos : Nat}
    (h : ∀ k, n ≤ k → reads k = reads' k) :
    findChunk reads chunkType dyn fuel n pos = findChunk reads' chunkType dyn fuel n pos := by
  induction fuel generalizing n pos with
  | zero => rfl
  | succ fuel ih =>
    rw [findChunk, findChunk, h n (Nat.le_refl n)]
    simp only [ih fun k hk => h k (Nat.le_of_succ_le hk)]

theorem search_ofMem (m : Mem) (chunkType : UInt8) (fuel : Nat) :
    findHeaderDataChunkOffset (Reads.ofMem m) chunkType fuel =
      findHeaderDataChunkOffset (searchReads m m) chunkType fuel := by
  have h0 : Reads.ofMem m 0 0 DaemonHeader.sizeof = searchReads m m 0 0 DaemonHeader.sizeof := by
    simp [searchReads, Reads.ofMem]
  have hc (dyn fuel pos : Nat) : findChunk (Reads.ofMem m) chunkType dyn fuel 1 pos =
      findChunk (searchReads m m) chunkType dyn fuel 1 pos :=
    findChunk_congr fun k hk => by
      funext off count
      exact (if_neg (show k ≠ 0 by omega)).symm
  unfold findHeaderDataChunkOffset
  rw [h0]
  simp only [hc]

/-! ## The search ends -/

/-- Where the loop goes on after the chunk at `pos`. -/
def nextChunk (m : Mem) (chunkType : UInt8) (dynamicAreaOffset pos : Nat) : Option Nat :=
  if m pos = chunkType then none
  else
    let pos := (pos + ChunkHeader.sizeof + ofLE (m.read (pos + 1) 2)) % 2 ^ 16
    if pos < dynamicAreaOffset then some pos else none

section Ends

variable {hdr m : Mem} {chunkType : UInt8} {dyn n pos : Nat}

theorem findChunk_succ (fuel : Nat) (hn : n ≠ 0) :
    findChunk (searchReads hdr m) chunkType dyn (fuel + 1) n pos =
      if m pos = chunkType then some ((pos + ChunkHeader.sizeof) % 2 ^ 16)
      else
        let pos := (pos + ChunkHeader.sizeof + ofLE (m.read (pos + 1) 2)) % 2 ^ 16
        if pos < dyn then findChunk (searchReads hdr m) chunkType dyn fuel (n + 1) pos
        else some 0 := by
  have ht : (Reads.ofMem m n pos ChunkHeader.sizeof).taken := rfl
  have hb : (Reads.ofMem m n pos ChunkHeader.sizeof).buf.read 1 2 = m.read (pos + 1) 2 := by
    simp only [Reads.ofMem, Mem.read, Nat.add_assoc]
  rw [findChunk]
  simp only [searchReads, if_neg hn]
  rw [if_pos ht, hb]
  rfl

theorem findChunk_isSome (fuel : Nat) (hn : n ≠ 0) :
    (findChunk (searchReads hdr m) chunkType dyn fuel n pos).isSome ↔
      walk (nextChunk m chunkType dyn) fuel pos = none := by
  induction fuel generalizing n pos with
  | zero => simp [findChunk, walk]
  | succ fuel ih =>
    rw [findChunk_succ fuel hn, walk, nextChunk]
    by_cases hc : m pos = chunkType
    · rw [if_pos hc, if_pos hc]; simp
    rw [if_neg hc, if_neg hc]
    dsimp only
    by_cases hd : (pos + ChunkHeader.sizeof + ofLE (m.read (pos + 1) 2)) % 2 ^ 16 < dyn
    · rw [if_pos hd, if_pos hd, Option.bind_some]
      exact ih (Nat.succ_ne_zero n)
    · rw [if_neg hd, if_neg hd]; simp

/-- The loop is left exactly if the chain of the chunks' positions does not close. -/
theorem findChunk_ends (hn : n ≠ 0) (hpos : pos < 2 ^ 16) :
    (∃ fuel, (findChunk (searchReads hdr m) chunkType dyn fuel n pos).isSome) ↔
      ¬ Returns (nextChunk m chunkType dyn) pos := by
  rw [← ends_iff (Set.finite_lt_nat (2 ^ 16)) hpos]
  · exact exists_congr fun fuel => findChunk_isSome fuel hn
  · intro b _ c hc
    unfold nextChunk at hc
    split at hc
    · cases hc
    · dsimp only at hc
      split at hc
      · cases hc
        exact Nat.mod_lt _ (by decide)
      · cases hc

end Ends

/-- The chain of chunks from the header's first one comes to no position twice before a chunk of the
type or the end of the area. -/
def ChainOpen (hdr m : Mem) (chunkType : UInt8) : Prop :=
  ¬ Returns (nextChunk m chunkType (DaemonHeader.ofMem hdr).dynamicAreaOffset.toNat)
    (DaemonHeader.ofMem hdr).chunksOffset.toNat

/-- **The search ends exactly if the header is an old one or the chain of chunks does not close.** -/
theorem search_ends_iff (hdr m : Mem) (chunkType : UInt8) :
    (∃ fuel, (findHeaderDataChunkOffset (searchReads hdr m) chunkType fuel).isSome) ↔
      (DaemonHeader.ofMem hdr).version < 3 ∨ ChainOpen hdr m chunkType := by
  have ht : (searchReads hdr m 0 0 DaemonHeader.sizeof).taken := rfl
  have hb : (searchReads hdr m 0 0 DaemonHeader.sizeof).buf = hdr := rfl
  simp only [findHeaderDataChunkOffset, if_pos ht, hb]
  by_cases hv : (DaemonHeader.ofMem hdr).version < 3
  · simp [hv]
  · simp only [hv, false_or]
    exact findChunk_ends one_ne_zero (UInt16.toNat_lt _)

/-- A header of version 3 and a chunk of length 65533 behind it. -/
def closedChain : Mem := fun a =>
  (ascii "RECS" ++ [0, 4, 1, 1, 3, 0, 14, 0, 20, 0] ++ [2, 0xFD, 0xFF]).getD a 0

/-- A chunk of length 65533 is searched again and again. -/
theorem search_endless :
    ¬ ∃ fuel, (findHeaderDataChunkOffset (Reads.ofMem closedChain) chunkTypeMonitoring
      fuel).isSome := by
  rintro ⟨fuel, h⟩
  rw [search_ofMem] at h
  refine (@findChunk_ends _ _ _ _ _ 14 one_ne_zero (by decide)).mp ⟨fuel, h⟩ ?_
  exact ⟨0, 1, 14, Nat.zero_lt_one, rfl, by decide⟩

/-! ## The search finds the chunks -/

structure Chunk where
  type : UInt8
  payload : Bytes
  short : payload.length < 2 ^ 16

namespace Chunk

def bytes (c : Chunk) : Bytes := [c.type] ++ le 2 c.payload.length ++ c.payload

theorem length_bytes (c : Chunk) : c.bytes.length = ChunkHeader.sizeof + c.payload.length := by
  simp [bytes, ChunkHeader.sizeof]
  omega

end Chunk

def areaOf (cs : List Chunk) : Bytes := (cs.map Chunk.bytes).flatten

theorem areaOf_cons (c : Chunk) (cs : List Chunk) : areaOf (c :: cs) = c.bytes ++ areaOf cs := rfl

/-- The offset behind the header of the first chunk of a type, in an area from `pos` on. -/
def offsetOf (chunkType : UInt8) : Nat → List Chunk → Nat
  | _, [] => 0
  | pos, c :: cs =>
    if c.type = chunkType then pos + ChunkHeader.sizeof
    else offsetOf chunkType (pos + c.bytes.length) cs

/-- The chunks fill the area between the two offsets of the header. -/
def Fills (hdr : DaemonHeader) (cs : List Chunk) : Prop :=
  hdr.chunksOffset.toNat + (areaOf cs).length = hdr.dynamicAreaOffset.toNat

/-- The memory holds the chunks at the begin of the area. -/
def HoldsChunks (hdr : DaemonHeader) (cs : List Chunk) (m : Mem) : Prop :=
  m.read hdr.chunksOffset.toNat (areaOf cs).length = areaOf cs

/-- Whatever the rest of the memory holds, the search gives the offset of the first chunk of the
type, or 0. -/
def SearchRight (hdr : Mem) (cs : List Chunk) (chunkType : UInt8) : Prop :=
  ∀ m, HoldsChunks (.ofMem hdr) cs m →
    ∃ fuel, findHeaderDataChunkOffset (searchReads hdr m) chunkType fuel =
      some (offsetOf chunkType (DaemonHeader.ofMem hdr).chunksOffset.toNat cs)

section Area

variable {hdr m : Mem} {chunkType : UInt8} {dyn n pos : Nat} {c : Chunk} {cs : List Chunk}

theorem read_chunk (h : m.read pos c.bytes.length = c.bytes) :
    m pos = c.type ∧ ofLE (m.read (pos + 1) 2) = c.payload.length := by
  have hs := c.short
  rw [c.length_bytes, ChunkHeader.sizeof, show 3 + c.payload.length = 1 + 2 + c.payload.length by rfl,
    Mem.read_add, Mem.read_add, Mem.read_one] at h
  obtain ⟨h, -⟩ := List.append_inj h (by simp)
  obtain ⟨h1, h2⟩ := List.append_inj h rfl
  exact ⟨(List.cons.inj h1).1, by rw [h2, ofLE_le]; exact Nat.mod_eq_of_lt hs⟩

/-- **In a chunk area that is not empty** the loop gives the first chunk of the type; the induction
is on the chunks, the position being at the first one left. -/
theorem findChunk_area (hm : m.read pos (areaOf (c :: cs)).length = areaOf (c :: cs))
    (hend : pos + (areaOf (c :: cs)).length = dyn) (hdyn : dyn < 2 ^ 16) (hn : n ≠ 0) :
    findChunk (searchReads hdr m) chunkType dyn (cs.length + 1) n pos =
      some (offsetOf chunkType pos (c :: cs)) := by
  induction cs generalizing c n pos with
  | nil =>
    rw [areaOf_cons, List.length_append, Mem.read_add] at hm
    obtain ⟨hread, -⟩ := List.append_inj hm (by simp)
    obtain ⟨htype, hlen⟩ := read_chunk hread
    have hl := c.length_bytes
    have h3 : ChunkHeader.sizeof = 3 := rfl
    have hend' : pos + c.bytes.length = dyn := by
      rw [areaOf_cons, List.length_append] at hend
      exact hend
    rw [findChunk_succ _ hn, htype, hlen, offsetOf]
    by_cases hc : c.type = chunkType
    · rw [if_pos hc, if_pos hc, Nat.mod_eq_of_lt (by omega)]
    · rw [if_neg hc, if_neg hc, Nat.mod_eq_of_lt (by omega)]
      dsimp only
      rw [if_neg (by omega)]
      rfl
  | cons d ds ih =>
    rw [areaOf_cons, List.length_append, Mem.read_add] at hm
    obtain ⟨hread, hrest⟩ := List.append_inj hm (by simp)
    obtain ⟨htype, hlen⟩ := read_chunk hread
    have hl := c.length_bytes
    have hd := d.length_bytes
    have h3 : ChunkHeader.sizeof = 3 := rfl
    have hend' : pos + c.bytes.length + (areaOf (d :: ds)).length = dyn := by
      rw [areaOf_cons, List.length_append] at hend
      omega
    have hpos : 3 ≤ (areaOf (d :: ds)).length := by
      rw [areaOf_cons, List.length_append]
      omega
    rw [List.length_cons, findChunk_succ _ hn, htype, hlen, offsetOf]
    by_cases hc : c.type = chunkType
    · rw [if_pos hc, if_pos hc, Nat.mod_eq_of_lt (by omega)]
    · rw [if_neg hc, if_neg hc, Nat.mod_eq_of_lt (by omega)]
      dsimp only
      rw [if_pos (by omega), Nat.add_assoc, ← hl]
      exact ih hrest hend' (Nat.succ_ne_zero n)

theorem search_of_version (hv : ¬ (DaemonHeader.ofMem hdr).version < 3) (fuel : Nat) :
    findHeaderDataChunkOffset (searchReads hdr m) chunkType fuel =
      findChunk (searchReads hdr m) chunkType (DaemonHeader.ofMem hdr).dynamicAreaOffset.toNat fuel 1
        (DaemonHeader.ofMem hdr).chunksOffset.toNat := by
  have ht : (searchReads hdr m 0 0 DaemonHeader.sizeof).taken := rfl
  have hb : (searchReads hdr m 0 0 DaemonHeader.sizeof).buf = hdr := rfl
  simp only [findHeaderDataChunkOffset, if_pos ht, hb, if_neg hv]

/-- A chunk of the type where the area is empty. -/
theorem not_right_of_found {fuel : Nat} (hpos : pos ≠ 65533) (hlt : pos < 2 ^ 16) :
    findChunk (searchReads hdr fun _ => chunkType) chunkType dyn fuel 1 pos ≠ some 0 := by
  intro h
  cases fuel with
  | zero => cases h
  | succ fuel =>
    rw [findChunk_succ _ one_ne_zero, if_pos rfl, ChunkHeader.sizeof] at h
    have := Option.some.inj h
    omega

/-- From the end of the address space the search comes to its begin. -/
def behindEnd (chunkType : UInt8) : Mem := fun a =>
  if a = 65533 then chunkType + 1 else if a = 0 then chunkType else 0

theorem not_right_of_wrapped {fuel : Nat} (hdyn : 0 < dyn) :
    findChunk (searchReads hdr (behindEnd chunkType)) chunkType dyn fuel 1 65533 ≠ some 0 := by
  intro h
  have hne : behindEnd chunkType 65533 ≠ chunkType := by
    show chunkType + 1 ≠ chunkType
    simp
  have hnext : (65533 + ChunkHeader.sizeof +
      ofLE ((behindEnd chunkType).read (65533 + 1) 2)) % 2 ^ 16 = 0 := by
    have hlen : (behindEnd chunkType).read (65533 + 1) 2 = [0, 0] := by
      simp [Mem.read, behindEnd, List.range_succ]
    rw [hlen]
    rfl
  cases fuel with
  | zero => cases h
  | succ fuel =>
    rw [findChunk_succ _ one_ne_zero, if_neg hne, hnext] at h
    dsimp only at h
    rw [if_pos hdyn] at h
    cases fuel with
    | zero => cases h
    | succ fuel =>
      rw [findChunk_succ _ (by decide), if_pos (show behindEnd chunkType 0 = chunkType from rfl)] at h
      exact absurd (Option.some.inj h) (by decide)

/-- **The search is right exactly if there is a chunk.** -/
theorem search_right_iff (hv : 3 ≤ (DaemonHeader.ofMem hdr).version)
    (hf : Fills (.ofMem hdr) cs) : SearchRight hdr cs chunkType ↔ cs ≠ [] := by
  have hv' : ¬ (DaemonHeader.ofMem hdr).version < 3 := UInt8.not_lt.mpr hv
  constructor
  · rintro h rfl
    have hd : (DaemonHeader.ofMem hdr).chunksOffset.toNat =
        (DaemonHeader.ofMem hdr).dynamicAreaOffset.toNat := hf
    by_cases hw : (DaemonHeader.ofMem hdr).chunksOffset.toNat = 65533
    · obtain ⟨fuel, hr⟩ := h (behindEnd chunkType) rfl
      rw [search_of_version hv', hw] at hr
      exact not_right_of_wrapped (by rw [← hd, hw]; decide) hr
    · obtain ⟨fuel, hr⟩ := h (fun _ => chunkType) rfl
      rw [search_of_version hv'] at hr
      exact not_right_of_found hw (UInt16.toNat_lt _) hr
  · intro hcs m hm
    obtain ⟨c, cs, rfl⟩ := List.exists_cons_of_ne_nil hcs
    exact ⟨cs.length + 1, by
      rw [search_of_version hv']
      exact findChunk_area hm hf (UInt16.toNat_lt _) one_ne_zero⟩

end Area

/-- A header of version 3, and a chunk in front of the monitoring chunk. -/
def twoChunks : Mem := fun a =>
  (ascii "RECS" ++ [0, 4, 1, 1, 3, 0, 14, 0, 23, 0] ++ [2, 2, 0, 9, 9, 1, 1, 0, 7]).getD a 0

/-- The first chunk is skipped. -/
theorem search_right_iff_sample :
    let cs : List Chunk := [⟨2, [9, 9], by decide⟩, ⟨chunkTypeMonitoring, [7], by decide⟩]
    HoldsChunks (.ofMem twoChunks) cs twoChunks ∧ offsetOf chunkTypeMonitoring 14 cs = 22 ∧
      SearchRight twoChunks cs chunkTypeMonitoring := by
  intro cs
  have hf : Fills (.ofMem twoChunks) cs := rfl
  exact ⟨rfl, rfl, (search_right_iff (by decide) hf).mpr (List.cons_ne_nil _ _)⟩

/-- A header without chunks, and a description page of a node behind it. -/
def noChunks : Mem := fun a =>
  (ascii "RECS" ++ [0, 4, 1, 1, 3, 0, 14, 0, 14, 0] ++ [1, 0, 9, 0, 1, 1, 0, 0, 0]).getD a 0

/-- The description page is taken for the monitoring chunk. -/
theorem search_finds_message :
    Fills (.ofMem noChunks) [] ∧ HoldsChunks (.ofMem noChunks) [] noChunks ∧
      findHeaderDataChunkOffset (Reads.ofMem noChunks) chunkTypeMonitoring 1 = some 17 ∧
      offsetOf chunkTypeMonitoring (DaemonHeader.ofMem noChunks).chunksOffset.toNat [] = 0 :=
  ⟨rfl, rfl, rfl, rfl⟩

end Node

end RecsDaemon
