import RecsDaemon.CommunicatorDummy
import RecsDaemon.Daemon.Completion
import RecsDaemon.Daemon.Segment

/-!
# The daemon over the dummy communicator

The loop over `CommunicatorDummy`, which takes each message as it is written.
All accesses of its memory stay inside for the slots it has, and one behind
them (`dummy_inside_iff`); from one of its slots the daemon never waits: each
round writes the next message (`dummy_announces`).
-/

namespace RecsDaemon

open Base Json CommunicatorDummy

namespace Daemon

/-- The loop and its communicator; `touched` are the ranges of `mData` that were accessed. -/
structure OverDummy where
  loop : Loop
  comm : CommunicatorDummy
  touched : List (Nat × Nat)

/-- `old` is what the buffer of a read holds. -/
inductive DummyEvent where
  | header (old : Mem) (found : Found)
  | body (data : Option Mem)
  | wrote
  | reset
  | telnet (line : Bytes)
  | quit (buffer : Mem)

namespace OverDummy

section Step

variable (lib : Libraries) (run : Running) (s : OverDummy)

def onRead (offset count : Nat) (e : Event) : Option OverDummy :=
  (Daemon.step lib run s.loop e).map fun loop =>
    { s with loop := loop, touched := s.touched ++ s.comm.readRanges offset count }

/-- The rest of a message goes behind the header's place in the allocated memory. -/
def onBody (msgSize : Nat) (m : Mem) : Option OverDummy :=
  let offset := run.segment.messageOffset + MessageHeader.sizeof
  let count := (msgSize + 2 ^ 64 - MessageHeader.sizeof) % 2 ^ 64
  s.onRead lib run offset count
    (.body (some m) (s.comm.readData offset count fun a => m (MessageHeader.sizeof + a)))

def onLoop (e : Event) : Option OverDummy :=
  (Daemon.step lib run s.loop e).map fun loop => { s with loop := loop }

end Step

/-- One step; `none` where the event does not belong to the point of the thread. -/
def step (lib : Libraries) (run : Running) (s : OverDummy) : DummyEvent → Option OverDummy
  | .header old found =>
    s.onRead lib run run.segment.messageOffset MessageHeader.sizeof
      (.header (s.comm.readData run.segment.messageOffset MessageHeader.sizeof old) found)
  | .body data =>
    match s.loop.point, data with
    | .body _ msgSize, some m => s.onBody lib run msgSize m
    | .body _ _, none => s.onLoop lib run (.body none ⟨0, fun _ => 0⟩)
    | _, _ => none
  | .wrote => (Daemon.step lib run s.loop (.wrote false)).map fun loop =>
      { loop := loop
        comm := (s.comm.writeData run.segment.messageOffset s.loop.point.bytes).1
        touched := s.touched ++
          s.comm.writeRanges run.segment.messageOffset s.loop.point.bytes.length }
  | .reset => s.onLoop lib run .reset
  | .telnet line => s.onLoop lib run (.telnet line)
  | .quit buffer => s.onLoop lib run (.quit buffer)

def start (run : Running) (comm : CommunicatorDummy) : OverDummy :=
  ⟨.start run, comm, comm.readRanges 0 DaemonHeader.sizeof⟩

/-- What start-up finds of the dummy. -/
def interface (reserved : UInt8) (old : Mem) : Interface :=
  let (comm, ret) := initInterface true reserved
  ⟨ret, comm.readData 0 DaemonHeader.sizeof old⟩

/-! ## The segments -/

def dummyHeader : DaemonHeader := ⟨ascii "RECS", 4096, 1, 4, 3, 14, 14⟩

theorem share_dummyHeader : share dummyHeader = 1020 := by decide

theorem messageMaxSize_dummy (slot : Int8) : (segmentOf dummyHeader slot).messageMaxSize = 1020 :=
  (messageMaxSize_eq slot (by decide)).trans share_dummyHeader

theorem messageOffset_dummy {slot : Int8} (h : 0 ≤ slot.toInt) :
    (segmentOf dummyHeader slot).messageOffset = 14 + slot.toInt.toNat * 1020 := by
  rw [messageOffset_of_nonneg (by decide) (by decide) h, share_dummyHeader]
  rfl

/-- The segment begins in the memory for the four slots, and for one more. -/
theorem messageOffset_le_iff (slot : Int8) :
    (segmentOf dummyHeader slot).messageOffset ≤ memorySize ↔
      0 ≤ slot.toInt ∧ slot.toInt ≤ 4 := by
  have hm : memorySize = 4096 := rfl
  by_cases h0 : 0 ≤ slot.toInt
  · rw [messageOffset_dummy h0]
    omega
  · -- below the memory is above it
    have hlow := slot.le_toInt
    have hd : dynamicArea dummyHeader = 14 := rfl
    obtain ⟨k, hk⟩ : ∃ k : Nat, slot.toInt = -(k : Int) := ⟨(-slot.toInt).toNat, by omega⟩
    have hslot : (slot.toInt % 2 ^ 64).toNat = 2 ^ 64 - k := by omega
    have hoff : 14 + (2 ^ 64 - k) * 1020 = 2 ^ 64 * 1019 + (2 ^ 64 + 14 - k * 1020) := by omega
    rw [messageOffset_of_several (by decide) (by decide), share_dummyHeader, hd, hslot, hoff,
      Nat.mul_add_mod, Nat.mod_eq_of_lt (by omega)]
    omega

theorem messageOffset_lt (slot : Int8) : (segmentOf dummyHeader slot).messageOffset < 2 ^ 64 := by
  by_cases h0 : 0 ≤ slot.toInt
  · have hlt := slot.toInt_lt
    rw [messageOffset_dummy h0]
    omega
  · rw [messageOffset_of_several (by decide) (by decide)]
    exact Nat.mod_lt _ (by decide)

section Started

variable {lib : Libraries} {st : Startup} {run : Running} {reserved : UInt8} {old : Mem}

theorem header_interface (reserved : UInt8) (old : Mem) :
    DaemonHeader.ofMem (interface reserved old).header.buf = dummyHeader := by
  rfl

theorem segment_of_start (hcomm : st.communicator = some (interface reserved old))
    (hs : Daemon.start lib st = some run) : run.segment = segmentOf dummyHeader run.mSlot := by
  obtain ⟨c, hc, -, -, hofMem, -⟩ := readHeader_cases (start_header hs)
  rw [(start_cases hs).1, hofMem, ← Option.some.inj (hcomm.symm.trans hc), header_interface]

theorem messageOffset_of_start (hcomm : st.communicator = some (interface reserved old))
    (hs : Daemon.start lib st = some run) (h : 0 ≤ run.mSlot.toInt) :
    run.segment.messageOffset = 14 + run.mSlot.toInt.toNat * 1020 := by
  rw [segment_of_start hcomm hs, messageOffset_dummy h]

end Started

/-! ## Steps -/

section Steps

variable {lib : Libraries} {run : Running} {s s' : OverDummy}

/-- Each step is one of the loop. -/
theorem step_loop {e : DummyEvent} (h : s.step lib run e = some s') :
    ∃ e', Daemon.step lib run s.loop e' = some s'.loop := by
  cases e with
  | body data =>
    simp only [step] at h
    split at h
    · obtain ⟨loop, hs, rfl⟩ := Option.map_eq_some_iff.mp h
      exact ⟨_, hs⟩
    · obtain ⟨loop, hs, rfl⟩ := Option.map_eq_some_iff.mp h
      exact ⟨_, hs⟩
    · cases h
  | header old found =>
    obtain ⟨loop, hs, rfl⟩ := Option.map_eq_some_iff.mp h
    exact ⟨_, hs⟩
  | _ =>
    obtain ⟨loop, hs, rfl⟩ := Option.map_eq_some_iff.mp h
    exact ⟨_, hs⟩

theorem step_header {old : Mem} {found : Found} (h : s.step lib run (.header old found) = some s') :
    s.loop.point = .header ∧ s' = { s with
      loop := s.loop.onHeader lib run
        (s.comm.readData run.segment.messageOffset MessageHeader.sizeof old) found
      touched := s.touched ++
        s.comm.readRanges run.segment.messageOffset MessageHeader.sizeof } := by
  obtain ⟨loop, hs, rfl⟩ := Option.map_eq_some_iff.mp h
  cases hp : s.loop.point <;> simp only [Daemon.step, hp] at hs <;> cases hs
  exact ⟨rfl, rfl⟩

/-- The daemon's writes: a message, or what clears a command, or the last page. -/
theorem step_wrote (h : s.step lib run .wrote = some s') :
    ((∃ kind bs, s.loop.point = .write kind bs ∧
      s'.loop = (((s.loop.emit (.message kind bs)).afterWrite kind).goto .header)) ∨
    (s.loop.point = .clear ∧ s'.loop.point = .header) ∨
    ∃ bs, s.loop.point = .last bs ∧ s'.loop.point = .ended) ∧
      s'.comm = (s.comm.writeData run.segment.messageOffset s.loop.point.bytes).1 ∧
      s'.touched = s.touched ++
        s.comm.writeRanges run.segment.messageOffset s.loop.point.bytes.length := by
  obtain ⟨loop, hs, rfl⟩ := Option.map_eq_some_iff.mp h
  refine ⟨?_, rfl, rfl⟩
  cases hp : s.loop.point <;> simp only [Daemon.step, hp] at hs <;> cases hs
  · exact .inl ⟨_, _, rfl, rfl⟩
  · exact .inr (.inl ⟨rfl, rfl⟩)
  · exact .inr (.inr ⟨_, rfl, rfl⟩)

end Steps

/-! ## The accesses of the memory -/

/-- The segment begins in the memory behind the header, and takes the daemon's messages. -/
structure Placed (run : Running) : Prop where
  header_le : DaemonHeader.sizeof ≤ run.segment.messageOffset
  offset : run.segment.messageOffset < memorySize
  size : run.segment.messageMaxSize = 1020
  data_le : run.sensorSize ≤ run.segment.messageMaxSize
  data_ge : 1 ≤ run.sensorSize

/-- The thread is in no Command branch, and about to write no command. -/
structure Calm (p : Point) : Prop where
  bytes : p.bytes.head? ≠ some MessageType.command.code
  body : ∀ msg msgSize, p ≠ .body msg msgSize

/-- No command is in the slot or about to be written, and all accesses were in the memory. -/
structure Tame (run : Running) (s : OverDummy) : Prop where
  lengths : Inside run s.loop
  point : Calm s.loop.point
  memory : ∃ m, s.comm.mData = some m ∧ m run.segment.messageOffset ≠ MessageType.command.code
  touched : ∀ a ∈ s.touched, Prog.Inside memorySize a

section Tame

variable {lib : Libraries} {run : Running} {s s' : OverDummy}

theorem Placed.block (hp : Placed run) :
    BasicInformationBlock.sizeof ≤ run.segment.messageMaxSize := by
  rw [hp.size]
  decide

theorem Placed.roomy (hp : Placed run) : Roomy run :=
  ⟨le_trans (by decide) hp.block, hp.data_le, by rw [hp.size]; decide⟩

theorem head_ne_command (hp : Placed run) {map : SensorMap} {kind : Kind} {bs : Bytes}
    (hg : Genuine lib run map kind bs) : bs.head? ≠ some MessageType.command.code := by
  have hhead : bs.head? = some kind.type.code := by
    by_cases hk : kind = .data
    · subst hk
      obtain ⟨set, set', inputs, -, hm, rfl⟩ := hg
      exact head_data hp.data_ge hm
    · exact (isMessage_of_genuine hp.block hg hk).type
  rw [hhead]
  exact fun e => kind.type_ne_command (MessageType.code_injective (Option.some.inj e))

theorem calm_header : Calm .header := ⟨nofun, nofun⟩

theorem calm_ended : Calm .ended := ⟨nofun, nofun⟩

theorem calm_onHeader (hp : Placed run) {loop : Loop} (h : Calm loop.point) {r : ReadReply}
    (hr : (MessageHeader.ofMem r.buf 0).type ≠ MessageType.command.code) (found : Found) :
    Calm (loop.onHeader lib run r found).point := by
  rcases onHeader_cases lib run loop r found with he | ⟨-, hc, -⟩ | ⟨-, -, -, he⟩
  · rw [he]; exact h
  · exact absurd hc hr
  · rcases writeNext_cases lib run loop found with ⟨set, kind, bs, hc, hw⟩ | hw
    · rw [he, hw]
      exact ⟨head_ne_command hp (genuine_compose hp.block hc).2.2, nofun⟩
    · rw [he, hw]
      exact calm_ended

theorem calm_onTelnet {loop : Loop} (h : Calm loop.point) (line : Bytes) :
    Calm (loop.onTelnet lib line).point := by
  rcases onTelnet_cases lib loop line with ⟨set, he⟩ | ⟨set, -, he⟩ | he
  · rw [he]; exact h
  · rw [he]; exact h
  · rw [he]; exact calm_ended

theorem calm_onQuit (loop : Loop) (buffer : Mem) : Calm (loop.onQuit lib run buffer).point := by
  rcases onQuit_cases lib run loop buffer with ⟨set, page, hpage, he⟩ | ⟨set, he⟩
  · rw [he]
    refine ⟨?_, nofun⟩
    show (page.bytes buffer).head? ≠ _
    rw [(isMessage_page hpage).type]
    decide
  · rw [he]; exact calm_ended

theorem length_bytes_le (hp : Placed run) {loop : Loop} (h : Inside run loop) :
    loop.point.bytes.length ≤ 1020 := by
  rw [← hp.size]
  cases hpoint : loop.point with
  | write kind bs => exact h.message kind bs hpoint
  | last bs => exact h.last bs hpoint
  | clear => exact le_trans (by decide) hp.block
  | _ => exact Nat.zero_le _

theorem tame_header {old : Mem} {found : Found} (hp : Placed run) (h : Tame run s)
    (hs : s.step lib run (.header old found) = some s') (hl : Inside run s'.loop) : Tame run s' := by
  have hoff := hp.offset
  have hmem : memorySize = 4096 := rfl
  obtain ⟨m, hm, hne⟩ := h.memory
  obtain ⟨-, rfl⟩ := step_header hs
  refine ⟨hl, calm_onHeader hp h.point ?_ found, h.memory, fun a ha => ?_⟩
  · show (s.comm.readData run.segment.messageOffset MessageHeader.sizeof old).buf 0 ≠ _
    rw [readData_first hm hp.offset (by decide)]
    exact hne
  · rcases List.mem_append.mp ha with ha | ha
    · exact h.touched a ha
    · exact readRanges_inside (by omega) (by rw [MessageHeader.sizeof]; omega) a ha

theorem tame_wrote (hp : Placed run) (h : Tame run s) (hs : s.step lib run .wrote = some s')
    (hl : Inside run s'.loop) : Tame run s' := by
  have hoff := hp.offset
  have hmem : memorySize = 4096 := rfl
  have hlen := length_bytes_le hp h.lengths
  obtain ⟨m, hm, hne⟩ := h.memory
  obtain ⟨hpoint, hcomm, htouched⟩ := step_wrote hs
  obtain ⟨m', hm', hfirst⟩ :=
    @writeData_first s.comm m run.segment.messageOffset s.loop.point.bytes hm
  refine ⟨hl, ?_, ⟨m', by rw [hcomm]; exact hm', ?_⟩, fun a ha => ?_⟩
  · rcases hpoint with ⟨kind, bs, -, he⟩ | ⟨-, he⟩ | ⟨bs, -, he⟩
    · rw [he]; exact calm_header
    · rw [he]; exact calm_header
    · rw [he]; exact calm_ended
  · rcases hfirst with he | he | he
    · rw [he]; decide
    · rw [he]; exact hne
    · exact fun hc => h.point.bytes (by rw [he, hc])
  · rw [htouched] at ha
    rcases List.mem_append.mp ha with ha | ha
    · exact h.touched a ha
    · exact writeRanges_inside (by omega) (by omega) a ha

theorem tame_onLoop {e : Event} (h : Tame run s) (hs : s.onLoop lib run e = some s')
    (hl : Inside run s'.loop)
    (hc : ∀ loop, Daemon.step lib run s.loop e = some loop → Calm loop.point) : Tame run s' := by
  obtain ⟨loop, hloop, rfl⟩ := Option.map_eq_some_iff.mp hs
  exact ⟨hl, hc loop hloop, h.memory, h.touched⟩

/-- **No step leaves the memory.** -/
theorem tame_step {e : DummyEvent} (hp : Placed run) (h : Tame run s)
    (hs : s.step lib run e = some s') : Tame run s' := by
  have hl : Inside run s'.loop := by
    obtain ⟨e', he'⟩ := step_loop hs
    exact inside_step hp.roomy h.lengths he'
  cases e with
  | header old found => exact tame_header hp h hs hl
  | wrote => exact tame_wrote hp h hs hl
  | body data =>
    simp only [step] at hs
    split at hs
    · next hb => exact absurd hb (h.point.body _ _)
    · next hb => exact absurd hb (h.point.body _ _)
    · cases hs
  | reset =>
    refine tame_onLoop h hs hl fun loop hloop => ?_
    cases hpoint : s.loop.point <;> simp only [Daemon.step, hpoint] at hloop <;> cases hloop
    show Calm s.loop.point
    exact h.point
  | telnet line =>
    refine tame_onLoop h hs hl fun loop hloop => ?_
    cases hpoint : s.loop.point <;> simp only [Daemon.step, hpoint] at hloop <;> cases hloop
    exact calm_onTelnet h.point line
  | quit buffer =>
    refine tame_onLoop h hs hl fun loop hloop => ?_
    cases hpoint : s.loop.point <;> simp only [Daemon.step, hpoint] at hloop <;> cases hloop
    exact calm_onQuit s.loop buffer

theorem initial_above (reserved : UInt8) {a : Nat} (h : DaemonHeader.sizeof ≤ a) :
    initial reserved a = 0 :=
  Mem.write_above (show 0 + 14 ≤ a from (Nat.zero_add 14).symm ▸ h)

theorem tame_start (hp : Placed run) (reserved : UInt8) :
    Tame run (start run (initInterface true reserved).1) where
  lengths := inside_start run
  point := calm_header
  memory := ⟨initial reserved, rfl, by rw [initial_above reserved hp.header_le]; decide⟩
  touched := @readRanges_inside (initInterface true reserved).1 0 DaemonHeader.sizeof (by decide)
    (by decide)

theorem placed_of_start {st : Startup} {reserved : UInt8} {old : Mem}
    (hcomm : st.communicator = some (interface reserved old))
    (hs : Daemon.start lib st = some run) (h0 : 0 ≤ run.mSlot.toInt) (h4 : run.mSlot.toInt ≤ 4) :
    Placed run := by
  obtain ⟨-, -, hdata, hsize, hc⟩ := start_cases hs
  have hseg := segment_of_start hcomm hs
  have hoff := messageOffset_of_start hcomm hs h0
  have hmem : memorySize = 4096 := rfl
  refine ⟨?_, ?_, ?_, hdata, ?_⟩
  · rw [hoff]
    exact Nat.le_add_right _ _
  · omega
  · rw [hseg, messageMaxSize_dummy]
  · rw [hsize, SensorSet.getSize, (SensorSet.sizeInvariant_construct hc).size_eq]
    exact Nat.le_add_right_of_le (by decide)

end Tame

/-- **Nothing but the memory is accessed**, whatever happens in the loop and after it, exactly for the
slots of the memory and the next one. -/
theorem dummy_inside_iff {lib : Libraries} {st : Startup} {run : Running} {reserved : UInt8}
    {old : Mem} (hcomm : st.communicator = some (interface reserved old))
    (hs : Daemon.start lib st = some run) :
    (∀ es s, exec (step lib run) (start run (initInterface true reserved).1) es = some s →
      ∀ a ∈ s.touched, Prog.Inside memorySize a) ↔
    0 ≤ run.mSlot.toInt ∧ run.mSlot.toInt ≤ 4 := by
  have hseg := segment_of_start hcomm hs
  have hmem : memorySize = 4096 := rfl
  rw [← messageOffset_le_iff, ← hseg]
  constructor
  · intro h
    -- the first read of a header
    have hread := h [.header (fun _ => 0) .sample] _ rfl
      (run.segment.messageOffset, clamp run.segment.messageOffset MessageHeader.sizeof)
      (List.mem_append_right _ (List.mem_singleton.mpr rfl))
    have hlt := messageOffset_lt run.mSlot
    rw [← hseg] at hlt
    exact ((inside_clamp_iff hlt (by decide)).mp hread).1
  · intro hoff
    rw [hseg, messageOffset_le_iff] at hoff
    have hplaced := placed_of_start hcomm hs hoff.1 hoff.2
    intro es s he
    exact (Reaches.induct (fun _ _ _ hI hs => tame_step hplaced hI hs)
      (tame_start hplaced reserved) ⟨es, he⟩).touched

def startup (slot : Int32) (sensors : Nat) : Startup :=
  { Startup.sample 4 slot sensors with communicator := some (interface 0 fun _ => 0) }

/-- Slot 2 is in the memory. -/
theorem dummy_inside_iff_sample :
    ∃ run, Daemon.start .sample (startup 2 1) = some run ∧
      ∀ es s, exec (step .sample run) (start run (initInterface true 0).1) es = some s →
        ∀ a ∈ s.touched, Prog.Inside memorySize a := by
  obtain ⟨run, hs, hslot⟩ : ∃ run, Daemon.start .sample (startup 2 1) = some run ∧
      0 ≤ run.mSlot.toInt ∧ run.mSlot.toInt ≤ 4 := ⟨_, rfl, by decide, by decide⟩
  exact ⟨run, hs, (dummy_inside_iff rfl hs).mpr hslot⟩

/-! ## Rounds -/

/-- Without clients and until it is told to quit, the daemon reads headers and writes. -/
def IsRound : DummyEvent → Prop
  | .header _ _ => True
  | .wrote => True
  | _ => False

/-- How many messages are written after `n` steps; the loop ends only after `total` of them. -/
def Paced (total n : Nat) (loop : Loop) : Prop :=
  match loop.point with
  | .header => n = 2 * (announced loop.trace).length
  | .write _ _ => n = 2 * (announced loop.trace).length + 1
  | .ended => n = 2 * (announced loop.trace).length + 1 ∧
      total ≤ (announced loop.trace).length
  | _ => False

/-- The memory outside of the segment is as at first, and what is in it is no message. -/
structure Taken (run : Running) (reserved : UInt8) (m : Mem) : Prop where
  type : m run.segment.messageOffset = MessageType.empty.code
  size : (MessageHeader.ofMem m run.segment.messageOffset).size.toNat ≤ run.segment.messageMaxSize
  frame : ∀ a, a < run.segment.messageOffset ∨
    run.segment.messageOffset + run.segment.messageMaxSize ≤ a → m a = initial reserved a

/-- The daemon after `n` steps. -/
structure Heard (lib : Libraries) (run : Running) (reserved : UInt8) (n : Nat) (s : OverDummy) :
    Prop where
  announcing : Announcing lib run s.loop
  sized : Sized lib run s.loop
  lengths : Inside run s.loop
  memory : ∃ m, s.comm.mData = some m ∧ Taken run reserved m
  paced : Paced (script (numberOfPages lib run (Loop.start run))).length n s.loop

section Rounds

variable {lib : Libraries} {run : Running} {s s' : OverDummy} {reserved : UInt8} {k n : Nat}

/-- A segment of one of the four slots. -/
structure Slotted (run : Running) (i : Nat) : Prop where
  slot : i < slots
  offset : run.segment.messageOffset = slotOffset i
  size : run.segment.messageMaxSize = 1020

/-- A header in a slot whose message was taken lets the daemon go on. -/
theorem onHeader_taken {i : Nat} (hi : Slotted run i) {m : Mem} (hm : s.comm.mData = some m)
    (ht : Taken run reserved m) (old : Mem) (found : Found) :
    s.loop.onHeader lib run
        (s.comm.readData run.segment.messageOffset MessageHeader.sizeof old) found =
      s.loop.writeNext lib run found := by
  have hslots : slots = 4 := rfl
  have hmem : memorySize = 4096 := rfl
  have hslot := hi.slot
  have hend : run.segment.messageOffset + MessageHeader.sizeof ≤ memorySize := by
    rw [hi.offset, slotOffset_eq, MessageHeader.sizeof]
    omega
  obtain ⟨hret, hread⟩ := readData_inside hm hend old
  have hheader := MessageHeader.ofMem_congr hread
  have htype : (MessageHeader.ofMem m run.segment.messageOffset).type = MessageType.empty.code :=
    ht.type
  have htaken : (s.comm.readData run.segment.messageOffset MessageHeader.sizeof old).taken := by
    rw [ReadReply.taken, hret]
    decide
  simp only [Loop.onHeader, hheader]
  rw [if_pos htaken, if_pos ht.size, htype, if_neg (by decide), if_neg (by rintro ⟨h, -⟩; cases h)]

theorem roomy_of_ready (h : Ready lib run k) : Roomy run :=
  ⟨le_trans (by decide) h.block, h.size_le, lt_trans h.messageMaxSize_lt (by decide)⟩

theorem heard_header {i : Nat} (hi : Slotted run i) (hr : Ready lib run k)
    (h : Heard lib run reserved n s) {old : Mem} {found : Found}
    (hs : s.step lib run (.header old found) = some s') (hl : Inside run s'.loop) :
    Heard lib run reserved (n + 1) s' := by
  obtain ⟨m, hm, ht⟩ := h.memory
  obtain ⟨hpoint, rfl⟩ := step_header hs
  have hpaced := h.paced
  rw [Paced, hpoint] at hpaced
  have hsized := h.sized.writeNext found
  rw [onHeader_taken hi hm ht old found] at hl ⊢
  rcases writeNext_cases lib run s.loop found with ⟨set, kind, bs, hc, he⟩ | he
  · obtain ⟨hmap, hk, hg⟩ := genuine_compose hr.block hc
    rw [he] at hsized hl ⊢
    refine ⟨h.announcing.frame rfl rfl rfl hmap (.inl rfl) fun kind' bs' hw => ?_, hsized, hl,
      ⟨m, hm, ht⟩, congrArg (· + 1) hpaced⟩
    cases hw
    exact ⟨hk, hg⟩
  · rw [he] at hsized hl ⊢
    refine ⟨h.announcing.frame rfl rfl rfl rfl (.inl rfl) nofun, hsized, hl, ⟨m, hm, ht⟩,
      congrArg (· + 1) hpaced, ?_⟩
    -- a description can be made
    by_contra hlt
    obtain ⟨set, kind, bs, hc⟩ :=
      h.announcing.compose_ok h.sized.map hr.fits (Nat.lt_of_not_le hlt) found
    rw [Loop.writeNext, hc] at he
    cases congrArg Loop.point he

theorem taken_write {i : Nat} (hi : Slotted run i) (hr : Ready lib run k) {m : Mem}
    (ht : Taken run reserved m) {kind : Kind} {bs : Bytes}
    (hlen : bs.length ≤ run.segment.messageMaxSize)
    (hg : Genuine lib run run.sensors.mSensorMap kind bs)
    (hd : kind = .data → Measured lib run bs) :
    Taken run reserved (parseData (m.write run.segment.messageOffset bs)) where
  type := by
    rw [hi.offset]
    exact parseData_slot _ hi.slot
  size := by
    have hother : ∀ d < 2, ∀ j < slots, run.segment.messageOffset + 1 + d ≠ slotOffset j := by
      intro d hd j hj
      rw [hi.offset, slotOffset_eq, slotOffset_eq]
      omega
    have hread : (parseData (m.write run.segment.messageOffset bs)).read
        (run.segment.messageOffset + 1) 2 =
        (m.write run.segment.messageOffset bs).read (run.segment.messageOffset + 1) 2 :=
      List.map_congr_left fun d hd => parseData_other (hother d (List.mem_range.mp hd))
    show (UInt16.ofNat (ofBE (Mem.read _ _ 2))).toNat ≤ _
    rw [hread]
    exact size_of_genuine hr hg hd m _
  frame a ha := by
    have hsize := hi.size
    by_cases hslot : ∃ j < slots, a = slotOffset j
    · obtain ⟨j, hj, rfl⟩ := hslot
      rw [parseData_slot _ hj]
      exact (initial_above reserved (Nat.le_add_right 14 _)).symm
    · rw [parseData_other fun j hj he => hslot ⟨j, hj, he⟩, ← ht.frame a ha]
      rcases ha with ha | ha
      · exact Mem.write_below ha
      · exact Mem.write_above (by omega)

theorem heard_wrote {i : Nat} (hi : Slotted run i) (hr : Ready lib run k)
    (h : Heard lib run reserved n s) (hs : s.step lib run .wrote = some s')
    (hl : Inside run s'.loop) : Heard lib run reserved (n + 1) s' := by
  have hslots : slots = 4 := rfl
  have hmem : memorySize = 4096 := rfl
  have hslot := hi.slot
  obtain ⟨m, hm, ht⟩ := h.memory
  have hpaced := h.paced
  obtain ⟨hpoint, hcomm, -⟩ := step_wrote hs
  rcases hpoint with ⟨kind, bs, hw, he⟩ | ⟨hw, -⟩ | ⟨bs, hw, -⟩
  · rw [Paced, hw] at hpaced
    rw [hw] at hcomm
    have hlen := h.lengths.message kind bs hw
    have hg : Genuine lib run run.sensors.mSensorMap kind bs := by
      rw [← h.sized.map]; exact (h.announcing.asked kind bs hw).2
    have hpages : numberOfPages lib run s.loop ≤ 254 :=
      le_of_eq_of_le (numberOfPages_congr h.sized.map) hr.pages
    refine ⟨?_, ?_, hl, ⟨_, ?_, taken_write hi hr ht hlen hg fun hd =>
      h.sized.asked bs (by rw [hw, hd])⟩, ?_⟩
    · rw [he]
      exact announcing_onWrite h.announcing hw hpages
    · rw [he]
      exact h.sized.message hw
    · rw [hcomm]
      refine writeData_inside hm ?_
      rw [hi.size] at hlen
      rw [hi.offset, slotOffset_eq]
      show _ + bs.length ≤ _
      omega
    · rw [he]
      show n + 1 = 2 * (announced ((s.loop.emit (.message kind bs)).afterWrite kind).trace).length
      rw [announced_afterWrite, List.length_append, List.length_singleton, hpaced]
      omega
  · rw [Paced, hw] at hpaced
    exact hpaced.elim
  · rw [Paced, hw] at hpaced
    exact hpaced.elim

/-- **Every round writes a message.** -/
theorem heard_step {i : Nat} (hi : Slotted run i) (hr : Ready lib run k)
    (h : Heard lib run reserved n s) {e : DummyEvent} (he : IsRound e)
    (hs : s.step lib run e = some s') : Heard lib run reserved (n + 1) s' := by
  have hl : Inside run s'.loop := by
    obtain ⟨e', he'⟩ := step_loop hs
    exact inside_step (roomy_of_ready hr) h.lengths he'
  cases e with
  | header old found => exact heard_header hi hr h hs hl
  | wrote => exact heard_wrote hi hr h hs hl
  | _ => exact he.elim

theorem heard_run {i : Nat} (hi : Slotted run i) (hr : Ready lib run k) {es : List DummyEvent}
    (he : ∀ e ∈ es, IsRound e) (h : Heard lib run reserved n s)
    (hs : exec (step lib run) s es = some s') : Heard lib run reserved (n + es.length) s' := by
  induction es generalizing s n with
  | nil =>
    cases hs
    exact h
  | cons e es ih =>
    obtain ⟨t, ht, hs⟩ := exec_cons.mp hs
    rw [List.length_cons, Nat.add_comm es.length, ← Nat.add_assoc]
    exact ih (fun e' h' => he e' (List.mem_cons_of_mem _ h'))
      (heard_step hi hr h (he e List.mem_cons_self) ht) hs

theorem heard_start {i : Nat} (hi : Slotted run i) (hr : Ready lib run k) (reserved : UInt8) :
    Heard lib run reserved 0 (start run (initInterface true reserved).1) where
  announcing := announcing_start run
  sized := hr.sized
  lengths := inside_start run
  memory := ⟨initial reserved, rfl, by
    have hoff : 14 ≤ run.segment.messageOffset := by
      rw [hi.offset]
      exact Nat.le_add_right _ _
    have hzero : (initial reserved).read (run.segment.messageOffset + 1) 2 = [0, 0] :=
      @Mem.read_congr _ (fun _ => 0) _ _ fun a ha _ => initial_above reserved (by
        rw [DaemonHeader.sizeof]
        omega)
    refine ⟨initial_above reserved hoff, ?_, fun a _ => rfl⟩
    show (UInt16.ofNat (ofBE (Mem.read _ _ 2))).toNat ≤ _
    rw [hzero]
    exact Nat.zero_le _⟩
  paced := rfl

/-- What was announced are the first messages of the script, and data. -/
theorem Heard.announced_eq (h : Heard lib run reserved n s) :
    announced s.loop.trace = (script (numberOfPages lib run (Loop.start run)) ++
      List.replicate n Kind.data).take (n / 2) := by
  have hlen : (announced s.loop.trace).length = n / 2 := by
    have hpaced := h.paced
    unfold Paced at hpaced
    split at hpaced
    · omega
    · omega
    · omega
    · exact hpaced.elim
  have horder := h.announcing.described.order
  rw [numberOfPages_congr (s := Loop.start run) h.sized.map] at horder
  rw [← hlen]
  rcases horder with hp | ⟨j, hj⟩
  · rw [List.take_append_of_le_length hp.length_le]
    exact List.prefix_iff_eq_take.mp hp
  · have hj' := congrArg List.length hj
    rw [List.length_append, List.length_replicate] at hj'
    rw [hj', List.take_length_add_append, List.take_replicate, min_eq_left (by omega)]
    exact hj

end Rounds

/-- **The daemon never waits for the dummy.** In one of the four slots every second step of a run writes
the next message, the loop ends only after all descriptions, and the memory changes nowhere else. -/
theorem dummy_announces {lib : Libraries} {st : Startup} {run : Running} {reserved : UInt8}
    {old : Mem} {k : Nat} (hcomm : st.communicator = some (interface reserved old))
    (hs : Daemon.start lib st = some run) (h0 : 0 ≤ run.mSlot.toInt) (h3 : run.mSlot.toInt ≤ 3)
    (hf : SensorSet.Fits run.sensors run.segment.messageMaxSize k)
    (hn : SensorSet.pagesOf run.sensors k < 255) {es : List DummyEvent}
    (he : ∀ e ∈ es, IsRound e) {s : OverDummy}
    (h : exec (step lib run) (start run (initInterface true reserved).1) es = some s) :
    announced s.loop.trace = (script (numberOfPages lib run (Loop.start run)) ++
        List.replicate es.length Kind.data).take (es.length / 2) ∧
      (s.loop.point = .ended →
        (script (numberOfPages lib run (Loop.start run))).length ≤ es.length / 2) ∧
      ∃ m, s.comm.mData = some m ∧ Taken run reserved m := by
  have hplaced := placed_of_start hcomm hs h0 (by omega)
  have hi : Slotted run run.mSlot.toInt.toNat :=
    ⟨by rw [slots]; omega, messageOffset_of_start hcomm hs h0, hplaced.size⟩
  have hr := ready_of_start hs hplaced.block hf hn
  have hheard := heard_run hi hr he (heard_start hi hr reserved) h
  rw [Nat.zero_add] at hheard
  refine ⟨hheard.announced_eq, fun hended => ?_, hheard.memory⟩
  have hpaced := hheard.paced
  rw [Paced, hended] at hpaced
  omega

def sampleRounds : List DummyEvent :=
  [.header (fun _ => 0) .sample, .wrote, .header (fun _ => 0) .sample, .wrote,
    .header (fun _ => 0) .sample, .wrote]

/-- The messages of a daemon with one sensor. -/
theorem dummy_announces_sample :
    ∃ run, Daemon.start .sample (startup 3 1) = some run ∧
      ∃ s, exec (step .sample run) (start run (initInterface true 0).1) sampleRounds = some s ∧
        announced s.loop.trace = [.basicInformation, .page 1 1, .data] := by
  obtain ⟨run, hs, h0, h3, hf, hn, hscript, hrun⟩ : ∃ run,
      Daemon.start .sample (startup 3 1) = some run ∧ 0 ≤ run.mSlot.toInt ∧ run.mSlot.toInt ≤ 3 ∧
        SensorSet.Fits run.sensors run.segment.messageMaxSize 14 ∧
        SensorSet.pagesOf run.sensors 14 < 255 ∧
        (script (numberOfPages .sample run (Loop.start run)) ++
          List.replicate sampleRounds.length Kind.data).take (sampleRounds.length / 2) =
            [.basicInformation, .page 1 1, .data] ∧
        (exec (step .sample run) (start run (initInterface true 0).1) sampleRounds).isSome :=
    ⟨_, rfl, by decide, by decide, ⟨by decide, by decide, by decide, by decide⟩, by decide,
      by decide, by decide +kernel⟩
  obtain ⟨s, hexec⟩ := Option.isSome_iff_exists.mp hrun
  refine ⟨run, hs, s, hexec, ?_⟩
  have hround : ∀ e ∈ sampleRounds, IsRound e := by
    intro e he
    simp only [sampleRounds, List.mem_cons, List.not_mem_nil, or_false] at he
    rcases he with rfl | rfl | rfl | rfl | rfl | rfl
    all_goals trivial
  exact (dummy_announces rfl hs h0 h3 hf hn hround hexec).1.trans hscript

end OverDummy

end Daemon

end RecsDaemon
