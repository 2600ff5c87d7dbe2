import RecsDaemon.Daemon.Loop

/-!
# Daemon and management

The slot as a shared memory: the loop of the daemon reads a header, reads the
body of a command and writes, management takes a descriptive message and
clears it, or writes a command. Each of these is one atomic step; the steps of
both sides come in any order.
-/

namespace RecsDaemon

open Base Json

namespace Daemon

inductive Access where
  | readHeader (found : Found)
  | readBody (data : Option Mem)
  | write (reset : Bool)
  | reset
  | telnet (line : Bytes)
  | quit (buffer : Mem)
  | take
  | command (msg : Bytes)

structure Shared where
  mem : Mem
  loop : Loop
  /-- What management has picked up since the first write of the daemon. -/
  taken : List Bytes
  /-- The command management has written, until the daemon has read it in whole. -/
  pending : Option Bytes
  /-- The messages the Command branch has read, the last one first. -/
  examined : List Bytes
  /-- A command was overwritten before it was read. -/
  lost : Bool

/-- The types of the messages management takes. -/
def isDescriptive (type : UInt8) : Bool :=
  type = MessageType.monitoringDescription.code || type = MessageType.basicInformation.code

/-- A command message that is as long as it says, and holds a `Command_Header`. -/
def IsCommand (msg : Bytes) : Prop :=
  CommandHeader.sizeof ≤ msg.length ∧ msg.head? = some MessageType.command.code ∧
    ofBE (slice 1 2 msg) = msg.length

instance (msg : Bytes) : Decidable (IsCommand msg) :=
  inferInstanceAs (Decidable (_ ∧ _ ∧ _))

/-- A message of this type whose size field is its length. -/
structure IsMessage (type : MessageType) (msg : Bytes) : Prop where
  header : MessageHeader.sizeof ≤ msg.length
  type : msg.head? = some type.code
  size : ofBE (slice 1 2 msg) = msg.length

theorem IsCommand.isMessage {msg : Bytes} (h : IsCommand msg) : IsMessage .command msg :=
  ⟨Nat.le_trans (by decide) h.1, h.2.1, h.2.2⟩

def Point.bytes : Point → Bytes
  | .write _ bs => bs
  | .clear => [0]
  | .last bs => bs
  | _ => []

namespace Shared

def start (mem : Mem) (run : Running) : Shared := ⟨mem, .start run, [], none, [], false⟩

section Step

variable (lib : Libraries) (run : Running)

def header (s : Shared) : MessageHeader := .ofMem s.mem run.segment.messageOffset

def headerReply (s : Shared) : ReadReply :=
  Reads.ofMem s.mem 0 run.segment.messageOffset MessageHeader.sizeof

def bodyReply (msgSize : Nat) (s : Shared) : ReadReply :=
  Reads.ofMem s.mem 0 (run.segment.messageOffset + MessageHeader.sizeof)
    ((msgSize + 2 ^ 64 - MessageHeader.sizeof) % 2 ^ 64)

/-- The Command branch has read a message. -/
def examine (msg : Bytes) (s : Shared) : Shared :=
  { s with
    examined := msg :: s.examined
    pending := if s.pending = some msg then none else s.pending }

def onBody (msg : Bytes) (msgSize : Nat) (data : Option Mem) (s : Shared) : Shared :=
  let loop := s.loop.onBody lib run msg msgSize data (s.bodyReply run msgSize)
  let message := msg ++ (s.bodyReply run msgSize).buf.read 0 (msgSize - MessageHeader.sizeof)
  if data.isSome then { s with loop := loop }.examine message else { s with loop := loop }

def onWrite (loop : Loop) (s : Shared) : Shared :=
  { s with
    loop := loop
    mem := s.mem.write run.segment.messageOffset s.loop.point.bytes
    lost := s.lost || s.pending.isSome }

def onTake (s : Shared) : Shared :=
  { s with
    mem := s.mem.write run.segment.messageOffset [MessageType.empty.code]
    taken := if s.loop.mFirstWriteDone then s.taken ++
        [s.mem.read run.segment.messageOffset (s.header run).size.toNat]
      else s.taken }

def onCommand (msg : Bytes) (s : Shared) : Shared :=
  { s with
    mem := s.mem.write run.segment.messageOffset msg
    pending := some msg }

/-- Management writes a command that fits in the slot, where no message waits for it. -/
def MayCommand (msg : Bytes) (s : Shared) : Prop :=
  IsCommand msg ∧ msg.length ≤ run.segment.messageMaxSize ∧
    ((s.header run).type = MessageType.empty.code ∨
      (s.header run).type = MessageType.monitoringData.code)

instance (msg : Bytes) (s : Shared) : Decidable (MayCommand run msg s) :=
  inferInstanceAs (Decidable (_ ∧ _ ∧ _))

def step (s : Shared) (a : Access) : Option Shared :=
  match a with
  | .readHeader found =>
    (Daemon.step lib run s.loop (.header (s.headerReply run) found)).map fun loop =>
      { s with loop := loop }
  | .readBody data =>
    match s.loop.point with
    | .body msg msgSize => some (s.onBody lib run msg msgSize data)
    | _ => none
  | .write reset => (Daemon.step lib run s.loop (.wrote reset)).map fun loop => s.onWrite run loop
  | .reset => (Daemon.step lib run s.loop .reset).map fun loop => { s with loop := loop }
  | .telnet line => (Daemon.step lib run s.loop (.telnet line)).map fun loop => { s with loop := loop }
  | .quit buffer => (Daemon.step lib run s.loop (.quit buffer)).map fun loop => { s with loop := loop }
  | .take => if isDescriptive (s.header run).type then some (s.onTake run) else none
  | .command msg => if MayCommand run msg s then some (s.onCommand run msg) else none

end Step

/-! ## The slot -/

section Slot

variable {run : Running} {s : Shared}

theorem read_shifted (m : Mem) (off i n : Nat) :
    Mem.read (fun a => m (off + a)) i n = m.read (off + i) n := by
  simp only [Mem.read, Nat.add_assoc]

theorem read_part {m : Mem} {off i n : Nat} {msg : Bytes} (hm : m.read off msg.length = msg)
    (h : i + n ≤ msg.length) : m.read (off + i) n = slice i n msg := by
  rw [← read_shifted, ← Mem.slice_read (fun a => m (off + a)) h, read_shifted, Nat.add_zero, hm]

theorem header_of_message {m : Mem} {off : Nat} {type : MessageType} {msg : Bytes}
    (h : IsMessage type msg) (hm : m.read off msg.length = msg) :
    (MessageHeader.ofMem m off).type = type.code ∧
      (MessageHeader.ofMem m off).size.toNat = msg.length := by
  have h4 : 4 ≤ msg.length := h.header
  have hlt : msg.length < 65536 := by
    rw [← h.size]
    have := ofBE_lt (slice 1 2 msg)
    rwa [length_slice (by omega)] at this
  refine ⟨?_, ?_⟩
  · have h0 := read_part hm (i := 0) (n := 1) (by omega)
    have ht := h.type
    rw [Nat.add_zero, Mem.read_one] at h0
    cases msg with
    | nil => exact absurd h4 (by simp)
    | cons b bs => exact (List.cons.inj h0).1.trans (Option.some.inj ht)
  · show (UInt16.ofNat (ofBE (m.read (off + 1) 2))).toNat = msg.length
    rw [read_part hm (by omega), h.size, UInt16.toNat_ofNat', Nat.mod_eq_of_lt hlt]

theorem header_headerReply :
    MessageHeader.ofMem (s.headerReply run).buf 0 = s.header run := by
  rw [show (s.headerReply run).buf = fun a => s.mem (run.segment.messageOffset + a) from rfl,
    header, MessageHeader.ofMem, MessageHeader.ofMem, read_shifted]
  rfl

variable {lib : Libraries} {s' : Shared}

theorem step_readHeader {found : Found} (h : s.step lib run (.readHeader found) = some s') :
    s.loop.point = .header ∧
      s' = { s with loop := s.loop.onHeader lib run (s.headerReply run) found } := by
  obtain ⟨loop, hs, rfl⟩ := Option.map_eq_some_iff.mp h
  cases hp : s.loop.point <;> simp only [Daemon.step, hp] at hs <;> cases hs
  exact ⟨rfl, rfl⟩

theorem step_readBody {data : Option Mem} (h : s.step lib run (.readBody data) = some s') :
    ∃ m msgSize, s.loop.point = .body m msgSize ∧ s' = s.onBody lib run m msgSize data := by
  cases hp : s.loop.point <;> simp only [step, hp] at h <;> cases h
  exact ⟨_, _, rfl, rfl⟩

/-- A write comes from one of the calls of `writeData`. -/
theorem step_write {reset : Bool} (h : s.step lib run (.write reset) = some s') :
    (∃ kind bs, s.loop.point = .write kind bs ∧ s' = s.onWrite run
      (((s.loop.onWrite (.message kind bs) reset).afterWrite kind).goto .header)) ∨
    (s.loop.point = .clear ∧
      s' = s.onWrite run ((s.loop.onWrite .clear reset).goto .header)) ∨
    ∃ bs, s.loop.point = .last bs ∧
      s' = s.onWrite run ((s.loop.onWrite (.last bs) reset).goto .ended) := by
  obtain ⟨loop, hs, rfl⟩ := Option.map_eq_some_iff.mp h
  cases hp : s.loop.point <;> simp only [Daemon.step, hp] at hs <;> cases hs
  · exact .inl ⟨_, _, rfl, rfl⟩
  · exact .inr (.inl ⟨rfl, rfl⟩)
  · exact .inr (.inr ⟨_, rfl, rfl⟩)

theorem step_take (h : s.step lib run .take = some s') :
    isDescriptive (s.header run).type ∧ s' = s.onTake run := by
  simp only [step] at h
  split at h
  · next hd => exact ⟨hd, (Option.some.inj h).symm⟩
  · cases h

end Slot

end Shared

end Daemon

end RecsDaemon
