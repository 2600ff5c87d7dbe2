import RecsDaemon.Node.Chunks
import RecsDaemon.Daemon.Startup

/-!
# The monitoring block

The offset of the block is looked up once and kept. The constructor does not
set it, and for an old header the lookup is off by two, so the block is read
where it is only for some first values of the offset (`monitoring_right_iff`).
-/

namespace RecsDaemon

open Base

namespace Node

/-- The offset of the block that belongs to a header and its chunks, 0 if there is none: the length
of the monitoring chunk is its first field, and behind an old header it comes at once. -/
def blockOf (hdr : DaemonHeader) (cs : List Chunk) : UInt16 :=
  if hdr.version < 3 then 9
  else UInt16.ofNat (offsetOf chunkTypeMonitoring hdr.chunksOffset.toNat cs - 2)

section Calls

variable (hdr : Mem) (cs : List Chunk) (nodeType : NodeType) (slot : UInt8)

/-- The chunk area of a new header. -/
def HoldsLayout (m : Mem) : Prop :=
  3 ≤ (DaemonHeader.ofMem hdr).version → HoldsChunks (.ofMem hdr) cs m

/-- Calls of `getJSONMonitoringData` one after the other, each with the memory it finds. -/
def monitoringCalls (fuel : Nat) : UInt16 → List Mem → Option (List (Text × UInt16))
  | _, [] => some []
  | mMonitoringDataOffset, m :: ms => do
    let (text, offset) ← getJSONMonitoringData (searchReads hdr m) (Reads.ofMem m) nodeType slot
      mMonitoringDataOffset fuel
    let results ← monitoringCalls fuel offset ms
    pure ((text, offset) :: results)

/-- A call reads the block that belongs to the header, and nothing of the message area. -/
structure CallRight (m : Mem) (result : Text × UInt16) : Prop where
  offset : result.2 = blockOf (.ofMem hdr) cs
  text : result.1 = readMonitoringData (Reads.ofMem m) nodeType slot (blockOf (.ofMem hdr) cs)
  inside : result.2 ≠ 0 →
    result.2.toNat + BBMonitoring.sizeof ≤ Daemon.dynamicArea (.ofMem hdr)

/-- Every call does, from the first one on. -/
def MonitoringRight (mMonitoringDataOffset : UInt16) : Prop :=
  ∀ ms : List Mem, (∀ m ∈ ms, HoldsLayout hdr cs m) →
    ∃ fuel results, monitoringCalls hdr nodeType slot fuel mMonitoringDataOffset ms = some results ∧
      List.Forall₂ (CallRight hdr cs nodeType slot) ms results

end Calls

section Locate

variable {hdr m : Mem} {cs : List Chunk} {nodeType : NodeType} {slot : UInt8} {v : UInt16}

/-- The offset before the length field, as far as it is one. -/
theorem offset_sub (n : Nat) :
    (if 2 < n then UInt16.ofNat (n - 2) else 0) = UInt16.ofNat (n - 2) := by
  by_cases h : 2 < n
  · rw [if_pos h]
  · rw [if_neg h, Nat.sub_eq_zero_of_le (Nat.not_lt.mp h)]
    rfl

theorem locate_of_version (hv : 3 ≤ (DaemonHeader.ofMem hdr).version)
    (hf : Fills (.ofMem hdr) cs) (hcs : cs ≠ []) (hm : HoldsChunks (.ofMem hdr) cs m) :
    locateMonitoringData (searchReads hdr m) 0 cs.length = some (blockOf (.ofMem hdr) cs) := by
  have hv' : ¬ (DaemonHeader.ofMem hdr).version < 3 := UInt8.not_lt.mpr hv
  obtain ⟨c, ds, rfl⟩ := List.exists_cons_of_ne_nil hcs
  have hfind : findChunk (searchReads hdr m) chunkTypeMonitoring
      (DaemonHeader.ofMem hdr).dynamicAreaOffset.toNat (ds.length + 1) 1
      (DaemonHeader.ofMem hdr).chunksOffset.toNat = _ :=
    findChunk_area hm hf (UInt16.toNat_lt _) one_ne_zero
  rw [locateMonitoringData, if_neg (by decide), search_of_version hv', List.length_cons, hfind,
    Option.map_some, offset_sub, blockOf, if_neg hv']

theorem locate_of_old (hv : (DaemonHeader.ofMem hdr).version < 3) (fuel : Nat) :
    locateMonitoringData (searchReads hdr m) 0 fuel = some 7 := by
  have ht : (searchReads hdr m 0 0 DaemonHeader.sizeof).taken := rfl
  have hb : (searchReads hdr m 0 0 DaemonHeader.sizeof).buf = hdr := rfl
  rw [locateMonitoringData, if_neg (by decide), findHeaderDataChunkOffset]
  dsimp only
  rw [if_pos ht, hb, if_pos hv]
  rfl

theorem locate_of_ne_zero (hv : v ≠ 0) (fuel : Nat) :
    locateMonitoringData (searchReads hdr m) v fuel = some v := if_pos hv

/-- The offset a call finds is the one it reads from. -/
theorem call_of_locate {fuel : Nat} {b : UInt16}
    (h : locateMonitoringData (searchReads hdr m) v fuel = some b) :
    getJSONMonitoringData (searchReads hdr m) (Reads.ofMem m) nodeType slot v fuel =
      some (readMonitoringData (Reads.ofMem m) nodeType slot b, b) := by
  rw [getJSONMonitoringData, h, Option.map_some]

theorem calls_of_locate {fuel : Nat}
    (hin : blockOf (.ofMem hdr) cs ≠ 0 → (blockOf (.ofMem hdr) cs).toNat + BBMonitoring.sizeof ≤
      Daemon.dynamicArea (.ofMem hdr))
    (hkept : ∀ m, HoldsLayout hdr cs m → locateMonitoringData (searchReads hdr m)
      (blockOf (.ofMem hdr) cs) fuel = some (blockOf (.ofMem hdr) cs)) :
    ∀ {ms : List Mem} {v : UInt16}, (∀ m ∈ ms, HoldsLayout hdr cs m) →
      (∀ m ∈ ms, locateMonitoringData (searchReads hdr m) v fuel = some (blockOf (.ofMem hdr) cs)) →
      ∃ results, monitoringCalls hdr nodeType slot fuel v ms = some results ∧
        List.Forall₂ (CallRight hdr cs nodeType slot) ms results := by
  intro ms
  induction ms with
  | nil => intro v _ _; exact ⟨[], rfl, .nil⟩
  | cons m ms ih =>
    intro v hms hloc
    obtain ⟨results, hr, hall⟩ := ih (fun m' hm' => hms m' (List.mem_cons_of_mem _ hm'))
      fun m' hm' => hkept m' (hms m' (List.mem_cons_of_mem _ hm'))
    refine ⟨(readMonitoringData (Reads.ofMem m) nodeType slot (blockOf (.ofMem hdr) cs),
      blockOf (.ofMem hdr) cs) :: results, ?_, .cons ⟨rfl, rfl, hin⟩ hall⟩
    rw [monitoringCalls, call_of_locate (hloc m List.mem_cons_self)]
    simp [hr]

theorem first_call (h : MonitoringRight hdr cs nodeType slot v) (hm : HoldsLayout hdr cs m) :
    ∃ fuel, ∃ b, locateMonitoringData (searchReads hdr m) v fuel = some b ∧
      b = blockOf (.ofMem hdr) cs ∧
      (b ≠ 0 → b.toNat + BBMonitoring.sizeof ≤ Daemon.dynamicArea (.ofMem hdr)) := by
  obtain ⟨fuel, results, hc, hall⟩ := h [m] fun m' hm' => by rw [List.mem_singleton.mp hm']; exact hm
  rw [monitoringCalls] at hc
  obtain ⟨⟨text, b⟩, hcall, hc⟩ := Option.bind_eq_some_iff.mp hc
  obtain ⟨rest, -, hc⟩ := Option.bind_eq_some_iff.mp hc
  cases hc
  obtain ⟨b', hloc, hb⟩ := Option.map_eq_some_iff.mp hcall
  cases hb
  cases hall with
  | cons hr _ => exact ⟨fuel, b, hloc, hr.offset, hr.inside⟩

theorem exists_holdsLayout (hdr : Mem) (cs : List Chunk) : ∃ m, HoldsLayout hdr cs m :=
  ⟨Mem.write (fun _ => 0) (DaemonHeader.ofMem hdr).chunksOffset.toNat (areaOf cs),
    fun _ => Mem.read_write_self _ _ _⟩

/-- **The block is read where it belongs exactly if the offset was there at first, or was 0 and the
header is a new one, and the block of a new header ends before the message area.** -/
theorem monitoring_right_iff
    (hl : 3 ≤ (DaemonHeader.ofMem hdr).version → Fills (.ofMem hdr) cs ∧ cs ≠ []) :
    MonitoringRight hdr cs nodeType slot v ↔
      if (DaemonHeader.ofMem hdr).version < 3 then v = 9
      else (v = 0 ∨ v = blockOf (.ofMem hdr) cs) ∧ (blockOf (.ofMem hdr) cs ≠ 0 →
        (blockOf (.ofMem hdr) cs).toNat + BBMonitoring.sizeof ≤
          (DaemonHeader.ofMem hdr).dynamicAreaOffset.toNat) := by
  obtain ⟨m, hm⟩ := exists_holdsLayout hdr cs
  by_cases hv : (DaemonHeader.ofMem hdr).version < 3
  · have hb : blockOf (.ofMem hdr) cs = 9 := if_pos hv
    have hdyn : Daemon.dynamicArea (.ofMem hdr) = 66 := if_pos hv
    rw [if_pos hv]
    constructor
    · intro h
      obtain ⟨fuel, b, hloc, rfl, -⟩ := first_call h hm
      by_cases h0 : v = 0
      · subst h0
        rw [locate_of_old hv, hb] at hloc
        cases hloc
      · rw [locate_of_ne_zero h0, hb] at hloc
        exact Option.some.inj hloc
    · rintro rfl
      intro ms hms
      refine ⟨0, calls_of_locate (fun _ => by rw [hb, hdyn]; decide) (fun m _ => ?_) hms fun m _ => ?_⟩
      · rw [hb]; rfl
      · rw [hb]; rfl
  · have hv' : 3 ≤ (DaemonHeader.ofMem hdr).version := UInt8.not_lt.mp hv
    obtain ⟨hf, hcs⟩ := hl hv'
    have hdyn : Daemon.dynamicArea (.ofMem hdr) =
        (DaemonHeader.ofMem hdr).dynamicAreaOffset.toNat := if_neg hv
    rw [if_neg hv]
    constructor
    · intro h
      obtain ⟨fuel, b, hloc, rfl, hin⟩ := first_call h hm
      rw [hdyn] at hin
      refine ⟨?_, hin⟩
      by_cases h0 : v = 0
      · exact .inl h0
      · rw [locate_of_ne_zero h0] at hloc
        exact .inr (Option.some.inj hloc)
    · rintro ⟨hfirst, hin⟩ ms hms
      have hzero (m : Mem) (hm : HoldsLayout hdr cs m) :
          locateMonitoringData (searchReads hdr m) 0 cs.length = some (blockOf (.ofMem hdr) cs) :=
        locate_of_version hv' hf hcs (hm hv')
      have hkept (m : Mem) (hm : HoldsLayout hdr cs m) : locateMonitoringData (searchReads hdr m)
          (blockOf (.ofMem hdr) cs) cs.length = some (blockOf (.ofMem hdr) cs) := by
        by_cases h0 : blockOf (.ofMem hdr) cs = 0
        · have hz := hzero m hm
          rw [h0] at hz ⊢
          exact hz
        · exact locate_of_ne_zero h0 _
      refine ⟨cs.length, calls_of_locate (by rw [hdyn]; exact hin) hkept hms fun m hm => ?_⟩
      rcases hfirst with rfl | rfl
      · exact hzero m (hms m hm)
      · exact hkept m (hms m hm)

end Locate

def monitoringHeader : Mem := fun a =>
  (ascii "RECS" ++ [0, 4, 1, 1, 3, 0, 14, 0, 72, 0]).getD a 0

def monitoringChunk : Chunk := ⟨chunkTypeMonitoring, List.replicate 55 0, by decide⟩

/-- The block of the chunk is read when the offset was 0. -/
theorem monitoring_right_iff_sample :
    MonitoringRight monitoringHeader [monitoringChunk] .cxp 0 0 := by
  have hl : 3 ≤ (DaemonHeader.ofMem monitoringHeader).version →
      Fills (.ofMem monitoringHeader) [monitoringChunk] ∧ [monitoringChunk] ≠ [] :=
    fun _ => ⟨by rfl, by simp⟩
  apply (monitoring_right_iff hl).mpr
  rw [if_neg (by decide)]
  exact ⟨.inl rfl, fun _ => by decide⟩

def oldHeader : Mem := fun a => (ascii "RECS" ++ [0, 4, 1, 1, 2]).getD a 0

/-- Behind an old header the block is read two bytes early, and with an offset that was left in the
memory of the node it is read there. -/
theorem monitoring_not_right :
    ¬ MonitoringRight oldHeader [] .cxp 0 0 ∧
      ¬ MonitoringRight monitoringHeader [monitoringChunk] .cxp 0 100 := by
  refine ⟨fun h => ?_, fun h => ?_⟩
  · obtain ⟨m, hm⟩ := exists_holdsLayout oldHeader []
    obtain ⟨fuel, b, hloc, hb, -⟩ := first_call h hm
    rw [locate_of_old (by decide), hb] at hloc
    exact absurd hloc (by decide)
  · obtain ⟨m, hm⟩ := exists_holdsLayout monitoringHeader [monitoringChunk]
    obtain ⟨fuel, b, hloc, hb, -⟩ := first_call h hm
    rw [locate_of_ne_zero (by decide), hb] at hloc
    exact absurd hloc (by decide)

end Node

end RecsDaemon
