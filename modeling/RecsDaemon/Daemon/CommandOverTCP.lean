import RecsDaemon.Daemon.Loop
import RecsDaemon.CommunicatorTCP.Reassembly

/-!
# Commands over TCP

The loop over `CommunicatorTCP`: each of its reads also receives, and copies a
frame that is complete over the message of the one before. A command's header
and body are two reads, so they are of one frame only if the second one copies
nothing (`commands_whole`).
-/

namespace RecsDaemon

open Base CommunicatorTCP

namespace Daemon

/-! ## The messages of frames -/

def sizeOfMessage (p : Bytes) : Nat := ofBE (slice 1 2 p)

/-- A `Command` the loop does not refuse for its size. -/
def carriesCommand (messageMaxSize : Nat) (p : Bytes) : Bool :=
  4 ≤ p.length && p[0]? == some MessageType.command.code && sizeOfMessage p ≤ messageMaxSize

/-- The same of the header in the memory. -/
def acceptable (messageMaxSize : Nat) (h : MessageHeader) : Prop :=
  h.type = MessageType.command.code ∧ h.size.toNat ≤ messageMaxSize

/-- What the Command branch looks at: the header read before, and what it reads of the rest. -/
structure Pass where
  msg : Bytes
  body : Option Bytes
deriving DecidableEq

/-- The pass that examines the message of a payload. -/
def passOf (p : Bytes) : Pass := ⟨p.take 4, some (slice 4 (sizeOfMessage p - 4) p)⟩

/-! ## The system -/

/-- The loop and its communicator; `frames` are those of the controller, `passes` those of the
Command branch so far. -/
structure OverTCP where
  loop : Loop
  link : Link
  frames : List Frame
  passes : List Pass

inductive TcpEvent where
  | header (arriving : Nat) (old : Mem) (found : Found)
  | body (data : Option Mem) (arriving : Nat)
  /-- A `readData` of start-up or of another thread. -/
  | other (call : CommunicatorTCP.Call)
  /-- The frames are sent on a new connection, if one is made. -/
  | wrote (out : Sending) (frames : List Frame)
  | reset
  | telnet (line : Bytes)
  | quit (buffer : Mem)

namespace OverTCP

def headerCall (run : Running) (arriving : Nat) (old : Mem) : CommunicatorTCP.Call :=
  ⟨run.segment.messageOffset, MessageHeader.sizeof, arriving, old⟩

/-- The rest goes behind the header's place in the allocated memory. -/
def bodyCall (run : Running) (msgSize arriving : Nat) (m : Mem) : CommunicatorTCP.Call :=
  ⟨run.segment.messageOffset + MessageHeader.sizeof,
    (msgSize + 2 ^ 64 - MessageHeader.sizeof) % 2 ^ 64, arriving,
    fun a => m (MessageHeader.sizeof + a)⟩

def writing : Point → Option Bytes
  | .write _ bs => some bs
  | .clear => some [0]
  | .last bs => some bs
  | _ => none

section Step

variable (lib : Libraries) (run : Running) (s : OverTCP)

def onHeader (call : CommunicatorTCP.Call) (found : Found) : Option OverTCP :=
  (Daemon.step lib run s.loop (.header (s.link.read call).2 found)).map fun loop =>
    { s with loop := loop, link := (s.link.read call).1 }

def onBody (msg : Bytes) (m : Mem) (call : CommunicatorTCP.Call) : Option OverTCP :=
  let (link, r) := s.link.read call
  (Daemon.step lib run s.loop (.body (some m) r)).map fun loop =>
    { s with
      loop := loop
      link := link
      passes := s.passes ++ [⟨msg, if r.taken then some (r.buf.read 0 call.count) else none⟩] }

/-- No memory for the message: nothing is read. -/
def onNoMemory (msg : Bytes) : Option OverTCP :=
  (Daemon.step lib run s.loop (.body none ⟨0, fun _ => 0⟩)).map fun loop =>
    { s with loop := loop, passes := s.passes ++ [⟨msg, none⟩] }

/-- A new connection begins with new frames; those that were not installed are lost. -/
def onWrote (bs : Bytes) (out : Sending) (frames : List Frame) : Option OverTCP :=
  let (comm, reset) := s.link.comm.writeData run.segment.messageOffset bs out
  (Daemon.step lib run s.loop (.wrote reset)).map fun loop =>
    if reset then
      { s with
        loop := loop
        link := { s.link with comm := comm, pending := frames.flatMap Frame.bytes }
        frames := s.frames.take s.link.installed.length ++ frames }
    else { s with loop := loop, link := { s.link with comm := comm } }

def onLoop (e : Event) : Option OverTCP :=
  (Daemon.step lib run s.loop e).map fun loop => { s with loop := loop }

end Step

/-- One step; `none` where the event does not belong to the point of the thread. -/
def step (lib : Libraries) (run : Running) (s : OverTCP) : TcpEvent → Option OverTCP
  | .header arriving old found => s.onHeader lib run (headerCall run arriving old) found
  | .body data arriving =>
    match s.loop.point, data with
    | .body msg msgSize, some m => s.onBody lib run msg m (bodyCall run msgSize arriving m)
    | .body msg _, none => s.onNoMemory lib run msg
    | _, _ => none
  | .other call => some { s with link := (s.link.read call).1 }
  | .wrote out frames => (writing s.loop.point).bind fun bs => s.onWrote lib run bs out frames
  | .reset => s.onLoop lib run .reset
  | .telnet line => s.onLoop lib run (.telnet line)
  | .quit buffer => s.onLoop lib run (.quit buffer)

/-! ## What holds, and when -/

/-- The messages of the installed frames that carry a command. -/
def commands (run : Running) (s : OverTCP) : List Bytes :=
  s.link.installed.filter (carriesCommand run.segment.messageMaxSize)

/-- The frames are installed in order, those waiting in the buffer at the next read of a header, and
each command among them is examined by one pass, with header and body of its own. -/
structure CommandsWhole (run : Running) (s : OverTCP) : Prop where
  inOrder : s.link.InOrder s.frames
  served : s.link.Served fun call =>
    call.offset = run.segment.messageOffset ∧ call.count = MessageHeader.sizeof
  disjoint : s.link.Disjoint
  /-- The last command is between header and body, and is still in the memory. -/
  reading : ∀ msg msgSize, s.loop.point = .body msg msgSize → ∃ p,
    (s.commands run).map passOf = s.passes ++ [passOf p] ∧ msg = p.take 4 ∧ msgSize = sizeOfMessage p ∧
    s.link.comm.mData.read (run.segment.messageOffset + 4) (msgSize - 4) = slice 4 (msgSize - 4) p
  passes : (∀ msg msgSize, s.loop.point ≠ .body msg msgSize) → (s.commands run).map passOf = s.passes
  all : s.link.pending = [] → (∀ (f : Frame) rest, s.link.comm.received ≠ f.bytes ++ rest) →
    (∀ msg msgSize, s.loop.point ≠ .body msg msgSize) →
    ((s.frames.map Frame.payload).filter
      (carriesCommand run.segment.messageMaxSize)).map passOf = s.passes

/-- The call copies the payload of the frame. -/
def Completes (l : Link) (call : CommunicatorTCP.Call) (f : Frame) : Prop :=
  ∃ rest, l.chunk call.arriving ≠ [] ∧ l.comm.received ++ l.chunk call.arriving = f.bytes ++ rest ∧
    TcpMessageHeader.sizeof < (l.comm.received ++ l.chunk call.arriving).length

/-- A command is a whole message; and less than a header makes no command of what is in the
memory. -/
def WholeMessage (run : Running) (mData : Mem) (p : Bytes) : Prop :=
  if 4 ≤ p.length then
    carriesCommand run.segment.messageMaxSize p → 4 < sizeOfMessage p ∧ sizeOfMessage p ≤ p.length
  else
    ¬ acceptable run.segment.messageMaxSize
      (MessageHeader.ofMem (mData.write DaemonHeader.sizeof p) run.segment.messageOffset)

/-- The thread is about to read a header, or it never will again without a write. -/
def Away (p : Point) : Prop := p ≠ .clear ∧ ∀ msg msgSize, p ≠ .body msg msgSize

/-- A payload that is no command, makes none of what the next read of a header finds in the memory,
and leaves the rest of a command that is being read. -/
structure Harmless (run : Running) (s : OverTCP) (p : Bytes) : Prop where
  noCommand : ¬ carriesCommand run.segment.messageMaxSize p = true
  clean : Away s.loop.point → ¬ acceptable run.segment.messageMaxSize
    (MessageHeader.ofMem (s.link.comm.mData.write DaemonHeader.sizeof p) run.segment.messageOffset)
  rest : ∀ msg msgSize, s.loop.point = .body msg msgSize →
    (s.link.comm.mData.write DaemonHeader.sizeof p).read (run.segment.messageOffset + 4)
        (msgSize - 4) =
      s.link.comm.mData.read (run.segment.messageOffset + 4) (msgSize - 4)

/-- A frame the call completes is harmless, and what is behind it is not longer. -/
def Undisturbing (run : Running) (s : OverTCP) (call : CommunicatorTCP.Call) : Prop :=
  ∀ f, Completes s.link call f → s.link.Short call ∧ Harmless run s f.payload

/-- Frames that are not harmless are completed by the reads of headers, one at a time, by something
that arrives, and hold whole messages; there is memory for each command; and a connection is not
replaced while a part of a frame is in the buffer. -/
def Orderly (run : Running) (s : OverTCP) : TcpEvent → Prop
  | .header arriving old _ =>
    s.link.Fed (headerCall run arriving old) ∧
      ∀ f, Completes s.link (headerCall run arriving old) f →
        WholeMessage run s.link.comm.mData f.payload
  | .body data arriving =>
    ∃ m, data = some m ∧ ∀ msg msgSize, s.loop.point = .body msg msgSize →
      Undisturbing run s (bodyCall run msgSize arriving m)
  | .other call =>
    Undisturbing run s call ∧
      (call.offset = run.segment.messageOffset ∧ call.count = MessageHeader.sizeof →
        s.link.Arrives call)
  | .wrote out _ =>
    ∀ bs, writing s.loop.point = some bs →
      (s.link.comm.writeData run.segment.messageOffset bs out).2 = true → s.link.comm.received = []
  | _ => True

/-! ## Messages in the memory -/

section Header

variable {m : Mem} {off max : Nat} {p : Bytes}

theorem header_of_take (h4 : 4 ≤ p.length) (h : m.read off 4 = p.take 4) :
    (MessageHeader.ofMem m off).size.toNat = sizeOfMessage p ∧
      (acceptable max (MessageHeader.ofMem m off) ↔ carriesCommand max p = true) := by
  match p, h4 with
  | a :: b :: c :: d :: rest, h4 =>
    have hr : m.read off 4 = [m off, m (off + 1), m (off + 2), m (off + 3)] := rfl
    rw [hr] at h
    simp only [List.take_succ_cons, List.take_zero, List.cons.injEq, and_true] at h
    obtain ⟨ha, hb, hc, -⟩ := h
    have hsize : (MessageHeader.ofMem m off).size.toNat = sizeOfMessage (a :: b :: c :: d :: rest) := by
      have hread : m.read (off + 1) 2 = [b, c] := by
        rw [← hb, ← hc]
        rfl
      have hlt : ofBE [b, c] < 256 ^ 2 := ofBE_lt [b, c]
      show (UInt16.ofNat (ofBE (m.read (off + 1) 2))).toNat = ofBE [b, c]
      rw [hread, UInt16.toNat_ofNat']
      omega
    refine ⟨hsize, ?_⟩
    unfold acceptable carriesCommand
    rw [hsize, show (MessageHeader.ofMem m off).type = a from ha]
    simp

end Header

/-! ## Calls that change no command -/

section Quiet

variable {run : Running} {s : OverTCP} {e : CommunicatorTCP.Call}

theorem completes_of_takes {l : Link} {f : Frame} {rest : Bytes} (h : l.TakesFrame e f rest) :
    Completes l e f :=
  ⟨rest, h.chunk, h.frame, h.long⟩

/-- The link after such a call. -/
structure Quiet (run : Running) (s : OverTCP) (e : CommunicatorTCP.Call) : Prop where
  short : s.link.Short e
  commands : { s with link := s.link.next e }.commands run = s.commands run
  clean : Away s.loop.point → ¬ acceptable run.segment.messageMaxSize
    (MessageHeader.ofMem (s.link.next e).comm.mData run.segment.messageOffset)
  rest : ∀ msg msgSize, s.loop.point = .body msg msgSize →
    (s.link.next e).comm.mData.read (run.segment.messageOffset + 4) (msgSize - 4) =
      s.link.comm.mData.read (run.segment.messageOffset + 4) (msgSize - 4)

theorem commands_next (h : ∀ p ∈ (s.link.note e).payload,
    ¬ carriesCommand run.segment.messageMaxSize p = true) :
    { s with link := s.link.next e }.commands run = s.commands run := by
  show (Link.installed _).filter _ = _
  rw [Link.installed_next, List.filter_append]
  refine (congrArg _ (List.filter_eq_nil_iff.mpr fun p hp => ?_)).trans (List.append_nil _)
  exact h p (Option.mem_toList.mp hp)

theorem quiet_of_undisturbing (h : s.link.InOrder s.frames)
    (hclean : Away s.loop.point → ¬ acceptable run.segment.messageMaxSize
      (MessageHeader.ofMem s.link.comm.mData run.segment.messageOffset))
    (hu : Undisturbing run s e) : Quiet run s e := by
  rcases (Link.next_cases h e).2 with hi | hk | ⟨f, rest, ht⟩
  · refine ⟨fun _ _ hc => absurd hi.chunk hc, commands_next fun p hp => ?_, ?_, fun _ _ _ => ?_⟩
    · rw [hi.note] at hp
      cases hp
    · rw [hi.comm]
      exact hclean
    · rw [hi.comm]
  · refine ⟨fun f rest _ hb => ?_, commands_next fun p hp => ?_, ?_, fun _ _ _ => ?_⟩
    · rw [hk.incomplete f rest hb]
      exact Nat.zero_le _
    · rw [hk.note] at hp
      cases hp
    · rw [hk.mData]
      exact hclean
    · rw [hk.mData]
  · obtain ⟨hshort, hh⟩ := hu f (completes_of_takes ht)
    refine ⟨hshort, commands_next fun p hp => ?_, ?_, ?_⟩
    · rw [ht.note] at hp
      obtain rfl : f.payload = p := Option.some.inj hp
      exact hh.noCommand
    · rw [ht.mData]
      exact hh.clean
    · rw [ht.mData]
      exact hh.rest

end Quiet

/-! ## The loop's steps -/

section Loop

variable {lib : Libraries} {run : Running} {s s' : Loop}

theorem away_of_header (h : s.point = .header) : Away s.point := by
  rw [h]
  exact ⟨Point.noConfusion, fun _ _ => Point.noConfusion⟩

theorem step_header {r : ReadReply} {found : Found}
    (h : Daemon.step lib run s (.header r found) = some s') :
    s.point = .header ∧ s' = s.onHeader lib run r found := by
  rcases step_cases h with ⟨r', f', hp, he, hs⟩ | ⟨-, he, -⟩ | ⟨_, -, he, -⟩ | ⟨_, -, he, -⟩ |
    ⟨_, _, _, _, -, he, -⟩ | ⟨_, _, _, -, he, -⟩ | ⟨_, -, he, -⟩ | ⟨_, _, -, he, -⟩ <;> cases he
  exact ⟨hp, hs⟩

theorem step_body {data : Option Mem} {r : ReadReply}
    (h : Daemon.step lib run s (.body data r) = some s') :
    ∃ msg msgSize, s.point = .body msg msgSize ∧ s' = s.onBody lib run msg msgSize data r := by
  rcases step_cases h with ⟨_, _, -, he, -⟩ | ⟨-, he, -⟩ | ⟨_, -, he, -⟩ | ⟨_, -, he, -⟩ |
    ⟨msg, msgSize, _, _, hp, he, hs⟩ | ⟨_, _, _, -, he, -⟩ | ⟨_, -, he, -⟩ | ⟨_, _, -, he, -⟩ <;>
    cases he
  exact ⟨msg, msgSize, hp, hs⟩

theorem step_wrote {reset : Bool} (h : Daemon.step lib run s (.wrote reset) = some s') :
    Away s'.point := by
  have haway : ∀ t : Loop, Away (t.goto .header).point ∧ Away (t.goto .ended).point := fun t =>
    ⟨⟨Point.noConfusion, fun _ _ => Point.noConfusion⟩,
      ⟨Point.noConfusion, fun _ _ => Point.noConfusion⟩⟩
  rcases step_cases h with ⟨_, _, -, he, -⟩ | ⟨-, he, -⟩ | ⟨_, -, he, -⟩ | ⟨_, -, he, -⟩ |
    ⟨_, _, _, _, -, he, -⟩ | ⟨_, _, _, -, he, rfl⟩ | ⟨_, -, he, rfl⟩ | ⟨_, _, -, he, rfl⟩ <;> cases he
  · exact (haway _).1
  · exact (haway _).1
  · exact (haway _).2

theorem step_away {e : Event} (he : e = .reset ∨ (∃ line, e = .telnet line) ∨ ∃ b, e = .quit b)
    (h : Daemon.step lib run s e = some s') : s.point = .header ∧ Away s'.point := by
  rcases step_cases h with ⟨_, _, -, rfl, -⟩ | ⟨hp, rfl, rfl⟩ | ⟨line, hp, rfl, rfl⟩ |
    ⟨buffer, hp, rfl, rfl⟩ | ⟨_, _, _, _, -, rfl, -⟩ | ⟨_, _, _, -, rfl, -⟩ | ⟨_, -, rfl, -⟩ |
    ⟨_, _, -, rfl, -⟩
  · rcases he with he | ⟨_, he⟩ | ⟨_, he⟩ <;> cases he
  · exact ⟨hp, away_of_header hp⟩
  · refine ⟨hp, ?_⟩
    rcases onTelnet_cases lib s line with ⟨set, ht⟩ | ⟨set, -, ht⟩ | ht
    · rw [ht]; exact away_of_header hp
    · rw [ht]; exact away_of_header hp
    · rw [ht]; exact ⟨Point.noConfusion, fun _ _ => Point.noConfusion⟩
  · refine ⟨hp, ?_⟩
    rcases onQuit_cases lib run s buffer with ⟨set, page, -, hq⟩ | ⟨set, hq⟩
    · rw [hq]; exact ⟨Point.noConfusion, fun _ _ => Point.noConfusion⟩
    · rw [hq]; exact ⟨Point.noConfusion, fun _ _ => Point.noConfusion⟩
  all_goals rcases he with he | ⟨_, he⟩ | ⟨_, he⟩ <;> cases he

/-- A header that is no acceptable command leads to no body. -/
theorem onHeader_away {r : ReadReply} {found : Found} (hp : s.point = .header)
    (h : ¬ acceptable run.segment.messageMaxSize (MessageHeader.ofMem r.buf 0)) :
    Away (s.onHeader lib run r found).point := by
  rcases onHeader_cases lib run s r found with he | ⟨-, hc, hle, -⟩ | ⟨-, -, -, he⟩
  · rw [he]; exact away_of_header hp
  · exact absurd ⟨hc, hle⟩ h
  · rw [he]
    rcases writeNext_cases lib run s found with ⟨set, kind, bs, -, hw⟩ | hw
    · rw [hw]; exact ⟨Point.noConfusion, fun _ _ => Point.noConfusion⟩
    · rw [hw]; exact ⟨Point.noConfusion, fun _ _ => Point.noConfusion⟩

theorem onHeader_command {r : ReadReply} {found : Found} (ht : r.taken = true)
    (h : acceptable run.segment.messageMaxSize (MessageHeader.ofMem r.buf 0)) :
    s.onHeader lib run r found =
      s.goto (.body (r.buf.read 0 4) (MessageHeader.ofMem r.buf 0).size.toNat) := by
  unfold Loop.onHeader
  dsimp only
  rw [if_pos ht, if_pos h.2, if_pos h.1]
  rfl

section Branch

variable {checkSignature : Bytes → Bytes → Bool} {node : NodeAddress} {messageMaxSize msgSize : Nat}
  {m : Mem}

theorem runVerified_ne_unread {verified : Bytes} (h0 : m 74 = 0) :
    ((runVerified messageMaxSize msgSize verified).run m).1 ≠ .unread := by
  obtain ⟨n, -, he⟩ := run_runVerified messageMaxSize msgSize verified h0
  rw [he]
  exact CommandResult.noConfusion

theorem runAddressed_ne_unread :
    ((runAddressed checkSignature messageMaxSize msgSize).run m).1 ≠ .unread := by
  simp only [runAddressed, Prog.readBytes_bind, Prog.writeBytes_bind, Prog.run]
  split
  · exact runVerified_ne_unread zeroed_signature
  · exact CommandResult.noConfusion

/-- Once the rest of the message was read the branch says so. -/
theorem runAssembled_ne_unread :
    ((runAssembled checkSignature node messageMaxSize msgSize).run m).1 ≠ .unread := by
  have hwrong : (logWrongAddress.run m).1 ≠ .unread := CommandResult.noConfusion
  simp only [runAssembled, Prog.readBytes_bind, Prog.run]
  split
  · simp only [Prog.run]
    split
    · exact runAddressed_ne_unread
    · exact hwrong
  · exact hwrong

end Branch

theorem onBody_clear {msg : Bytes} {msgSize : Nat} {m : Mem} {r : ReadReply} (h4 : 4 ≤ msgSize)
    (hsize : msgSize < 2 ^ 16) (ht : r.taken = true) :
    (s.onBody lib run msg msgSize (some m) r).point = .clear := by
  have hrun := @run_handleCommand lib.checkSignature run.node run.segment.messageMaxSize msgSize msg
    r m h4 hsize
  rw [if_pos ht] at hrun
  unfold Loop.onBody
  dsimp only
  rw [hrun]
  split
  · next he => exact absurd he runAssembled_ne_unread
  · rfl
  · rfl

end Loop

/-! ## Writes -/

/-- A write leaves the receive buffer as it is, and no message in the memory. -/
theorem writeData_spec (c : CommunicatorTCP) (offset : Nat) (bs : Bytes) (out : Sending) :
    (c.writeData offset bs out).1.received = c.received ∧
      (c.writeData offset bs out).1.mReceiveBufferPos = c.mReceiveBufferPos ∧
      (c.writeData offset bs out).1.mData DaemonHeader.sizeof = 0 := by
  unfold CommunicatorTCP.writeData
  dsimp only
  split
  · have h0 := (c.mData.write offset (bs.take (clamp offset bs.length))).write_inside
      DaemonHeader.sizeof [0] (i := 0) (by decide)
    split
    · exact ⟨rfl, rfl, h0⟩
    · exact ⟨rfl, rfl, h0⟩
  · next h => exact ⟨rfl, rfl, of_not_not h⟩

/-- Without a message there is no command. -/
theorem not_acceptable_of_zero {m : Mem} {off max : Nat} (h : m off = 0) :
    ¬ acceptable max (MessageHeader.ofMem m off) := by
  rintro ⟨hc, -⟩
  rw [show (MessageHeader.ofMem m off).type = m off from rfl, h] at hc
  cases hc

/-! ## The invariant -/

def IsHeader (run : Running) (call : CommunicatorTCP.Call) : Prop :=
  call.offset = run.segment.messageOffset ∧ call.count = MessageHeader.sizeof

/-- Between the reads of a message `p`. -/
structure Between (run : Running) (s : OverTCP) (msg : Bytes) (msgSize : Nat) (p : Bytes) :
    Prop where
  passes : (s.commands run).map passOf = s.passes ++ [passOf p]
  msg : msg = p.take 4
  size : msgSize = sizeOfMessage p
  rest : s.link.comm.mData.read (run.segment.messageOffset + 4) (msgSize - 4) =
    slice 4 (msgSize - 4) p
  long : 4 < msgSize
  fits : msgSize ≤ run.segment.messageMaxSize

/-- What an orderly run keeps: before a read of a header the memory holds no command. -/
structure Steady (run : Running) (s : OverTCP) : Prop where
  inOrder : s.link.InOrder s.frames
  served : s.link.Served (IsHeader run)
  disjoint : s.link.Disjoint
  reading : ∀ msg msgSize, s.loop.point = .body msg msgSize → ∃ p, Between run s msg msgSize p
  passes : (∀ msg msgSize, s.loop.point ≠ .body msg msgSize) → (s.commands run).map passOf = s.passes
  clean : Away s.loop.point → ¬ acceptable run.segment.messageMaxSize
    (MessageHeader.ofMem s.link.comm.mData run.segment.messageOffset)

section Steady

variable {lib : Libraries} {run : Running} {s s' : OverTCP}

theorem Steady.whole (h : Steady run s) : CommandsWhole run s where
  inOrder := h.inOrder
  served := h.served
  disjoint := h.disjoint
  reading msg msgSize hp := by
    obtain ⟨p, hb⟩ := h.reading msg msgSize hp
    exact ⟨p, hb.passes, hb.msg, hb.size, hb.rest⟩
  passes := h.passes
  all hp hr hn := by
    rw [← h.inOrder.all hp hr]
    exact h.passes hn

theorem Steady.quiet {e : CommunicatorTCP.Call} (h : Steady run s) (hq : Quiet run s e)
    (ha : IsHeader run e → s.link.Arrives e) : Steady run { s with link := s.link.next e } := by
  refine ⟨(Link.next_cases h.inOrder e).1, (Link.served_next h.inOrder h.served).mp ha,
    (Link.disjoint_next h.inOrder h.disjoint).mp hq.short, fun msg msgSize hp => ?_, fun hn => ?_,
    hq.clean⟩
  · obtain ⟨p, hb⟩ := h.reading msg msgSize hp
    exact ⟨p, by rw [hq.commands]; exact hb.passes, hb.msg, hb.size,
      (hq.rest msg msgSize hp).trans hb.rest, hb.long, hb.fits⟩
  · rw [hq.commands]
    exact h.passes hn

theorem Steady.loop {loop : Loop} (h : Steady run s) (hp : s.loop.point = .header)
    (ha : Away loop.point) : Steady run { s with loop := loop } where
  inOrder := h.inOrder
  served := h.served
  disjoint := h.disjoint
  reading msg msgSize hb := absurd hb (ha.2 msg msgSize)
  passes _ := h.passes fun msg msgSize hb => by rw [hp] at hb; cases hb
  clean _ := h.clean (away_of_header hp)

theorem onLoop_steady {e : Event} (he : e = .reset ∨ (∃ line, e = .telnet line) ∨ ∃ b, e = .quit b)
    (h : Steady run s) (hs : s.onLoop lib run e = some s') : Steady run s' := by
  obtain ⟨loop, hl, rfl⟩ := Option.map_eq_some_iff.mp hs
  obtain ⟨hp, ha⟩ := step_away he hl
  exact h.loop hp ha

theorem headerCall_reply (hseg : run.segment = ⟨14, 65521⟩) (l : Link) (arriving : Nat) (old : Mem) :
    (l.read (headerCall run arriving old)).2.taken = true ∧
      (l.read (headerCall run arriving old)).2.buf.read 0 4 =
        (l.next (headerCall run arriving old)).comm.mData.read 14 4 := by
  have hclamp : clamp 14 4 = 4 := clamp_of_le (by decide)
  rw [Link.read_snd]
  unfold headerCall
  rw [hseg]
  refine ⟨rfl, ?_⟩
  show (old.write 0 (Mem.read _ 14 (clamp 14 4))).read 0 4 = _
  rw [hclamp]
  exact Mem.read_write_self _ _ _

theorem onHeader_other {arriving : Nat} {old : Mem} {found : Found}
    (hseg : run.segment = ⟨14, 65521⟩) (h : Steady run s)
    (ha : s.link.Arrives (headerCall run arriving old))
    (hshort : s.link.Short (headerCall run arriving old))
    (hclean : ¬ acceptable run.segment.messageMaxSize (MessageHeader.ofMem
      (s.link.next (headerCall run arriving old)).comm.mData run.segment.messageOffset))
    (hcommands : { s with link := s.link.next (headerCall run arriving old) }.commands run =
      s.commands run)
    (hs : s.onHeader lib run (headerCall run arriving old) found = some s') : Steady run s' := by
  obtain ⟨loop, hl, rfl⟩ := Option.map_eq_some_iff.mp hs
  obtain ⟨hp, rfl⟩ := step_header hl
  have hbuf := (headerCall_reply hseg s.link arriving old).2
  rw [hseg] at hclean
  have haway := @onHeader_away lib run s.loop (s.link.read (headerCall run arriving old)).2 found hp
    (by rw [MessageHeader.ofMem_congr hbuf, hseg]; exact hclean)
  rw [Link.read_fst]
  refine ⟨(Link.next_cases h.inOrder _).1, (Link.served_next h.inOrder h.served).mp fun _ => ha,
    (Link.disjoint_next h.inOrder h.disjoint).mp hshort, fun msg msgSize hb =>
    absurd hb (haway.2 msg msgSize), fun _ => ?_, fun _ => by rw [hseg]; exact hclean⟩
  refine Eq.trans (congrArg (List.map passOf) hcommands) (h.passes fun msg msgSize hb => ?_)
  rw [hp] at hb
  cases hb

/-- The read that takes a command goes on to its body. -/
theorem onHeader_takes {arriving : Nat} {old : Mem} {found : Found} {f : Frame} {rest : Bytes}
    (hseg : run.segment = ⟨14, 65521⟩) (h : Steady run s)
    (hfed : s.link.Fed (headerCall run arriving old))
    (ht : s.link.TakesFrame (headerCall run arriving old) f rest) (h4 : 4 ≤ f.payload.length)
    (hcommand : carriesCommand run.segment.messageMaxSize f.payload = true)
    (hlong : 4 < sizeOfMessage f.payload) (hfits : sizeOfMessage f.payload ≤ f.payload.length)
    (hs : s.onHeader lib run (headerCall run arriving old) found = some s') : Steady run s' := by
  obtain ⟨loop, hl, rfl⟩ := Option.map_eq_some_iff.mp hs
  obtain ⟨hp, rfl⟩ := step_header hl
  obtain ⟨htaken, hbuf⟩ := headerCall_reply hseg s.link arriving old
  have htake : (s.link.read (headerCall run arriving old)).2.buf.read 0 4 = f.payload.take 4 := by
    rw [hbuf, ht.mData]
    exact Mem.read_write_prefix h4
  obtain ⟨hsize, hacceptable⟩ :=
    @header_of_take _ 0 run.segment.messageMaxSize f.payload h4 htake
  have hgo := @onHeader_command lib run s.loop _ found htaken (hacceptable.mpr hcommand)
  rw [hsize, htake] at hgo
  have hinstalled : (s.link.next (headerCall run arriving old)).installed =
      s.link.installed ++ [f.payload] := by
    rw [Link.installed_next, ht.note]
    rfl
  rw [Link.read_fst, hgo]
  refine ⟨(Link.next_cases h.inOrder _).1, (Link.served_next h.inOrder h.served).mp fun _ => hfed.1,
    (Link.disjoint_next h.inOrder h.disjoint).mp hfed.2, fun msg msgSize hb => ?_,
    fun hn => absurd rfl (hn _ _), fun haway => absurd rfl (haway.2 _ _)⟩
  cases hb
  refine ⟨f.payload, ?_, rfl, rfl, ?_, hlong, ?_⟩
  · have hpasses := h.passes fun msg msgSize hb => by rw [hp] at hb; cases hb
    show ((Link.installed _).filter _).map passOf = _
    rw [hinstalled, List.filter_append, List.map_append, ← hpasses, List.filter_cons_of_pos hcommand]
    rfl
  · rw [hseg]
    show Mem.read (Link.comm _).mData (14 + 4) _ = _
    rw [ht.mData]
    exact Mem.read_write_slice _ _ _ _ _ (by omega)
  · have hmax := (hacceptable.mpr hcommand).2
    rwa [hsize] at hmax

/-- **Step lemma** for the read of a header. -/
theorem onHeader_steady {arriving : Nat} {old : Mem} {found : Found}
    (hseg : run.segment = ⟨14, 65521⟩) (h : Steady run s)
    (ho : Orderly run s (.header arriving old found))
    (hs : s.onHeader lib run (headerCall run arriving old) found = some s') : Steady run s' := by
  obtain ⟨hfed, hmessage⟩ := ho
  have hp : s.loop.point = .header := by
    obtain ⟨loop, hl, -⟩ := Option.map_eq_some_iff.mp hs
    exact (step_header hl).1
  have hclean := h.clean (away_of_header hp)
  rcases (Link.next_cases h.inOrder (headerCall run arriving old)).2 with hi | hk | ⟨f, rest, ht⟩
  · refine onHeader_other hseg h hfed.1 hfed.2 (by rw [hi.comm]; exact hclean) ?_ hs
    exact commands_next fun p hp => by rw [hi.note] at hp; cases hp
  · refine onHeader_other hseg h hfed.1 hfed.2 (by rw [hk.mData]; exact hclean) ?_ hs
    exact commands_next fun p hp => by rw [hk.note] at hp; cases hp
  have hwhole := hmessage f (completes_of_takes ht)
  unfold WholeMessage at hwhole
  by_cases hcommand : carriesCommand run.segment.messageMaxSize f.payload = true
  · have h4 : 4 ≤ f.payload.length := by
      unfold carriesCommand at hcommand
      simp only [Bool.and_eq_true, decide_eq_true_eq] at hcommand
      exact hcommand.1.1
    rw [if_pos h4] at hwhole
    exact onHeader_takes hseg h hfed ht h4 hcommand (hwhole hcommand).1 (hwhole hcommand).2 hs
  · refine onHeader_other hseg h hfed.1 hfed.2 ?_ ?_ hs
    · rw [ht.mData]
      by_cases h4 : 4 ≤ f.payload.length
      · rw [hseg] at hcommand ⊢
        exact mt (@header_of_take _ 14 65521 f.payload h4 (Mem.read_write_prefix h4)).2.mp hcommand
      · rw [if_neg h4] at hwhole
        exact hwhole
    · refine commands_next fun p hp => ?_
      rw [ht.note] at hp
      obtain rfl : f.payload = p := Option.some.inj hp
      exact hcommand

theorem bodyCall_reply (hseg : run.segment = ⟨14, 65521⟩) (l : Link) {msgSize arriving : Nat}
    (m : Mem) (hlong : 4 < msgSize) (hfits : msgSize ≤ 65521) :
    (l.read (bodyCall run msgSize arriving m)).2.taken = true ∧
      (l.read (bodyCall run msgSize arriving m)).2.buf.read 0 (bodyCall run msgSize arriving m).count =
        (l.next (bodyCall run msgSize arriving m)).comm.mData.read (run.segment.messageOffset + 4)
          (msgSize - 4) := by
  have hcount : (bodyCall run msgSize arriving m).count = msgSize - 4 := by
    show (msgSize + 2 ^ 64 - 4) % 2 ^ 64 = msgSize - 4
    omega
  have hoffset : (bodyCall run msgSize arriving m).offset = 18 := by
    unfold bodyCall
    rw [hseg]
    rfl
  have hclamp : clamp 18 (msgSize - 4) = msgSize - 4 :=
    clamp_of_le (by have hm : memorySize = 65535 := rfl; omega)
  rw [Link.read_snd, hcount, hoffset, hclamp, hseg]
  refine ⟨decide_eq_true fun h0 => ?_, ?_⟩
  · have h0 : ((msgSize - 4 : Nat) : Int) = 0 := h0
    omega
  · have hself := Mem.read_write_self (bodyCall run msgSize arriving m).old 0
      ((l.next (bodyCall run msgSize arriving m)).comm.mData.read 18 (msgSize - 4))
    rwa [Mem.length_read] at hself

theorem onBody_eq {msg : Bytes} {m : Mem} {call : CommunicatorTCP.Call}
    (hs : s.onBody lib run msg m call = some s') : ∃ loop,
      Daemon.step lib run s.loop (.body (some m) (s.link.read call).2) = some loop ∧
      s' = { s with
        loop := loop
        link := (s.link.read call).1
        passes := s.passes ++ [⟨msg, if (s.link.read call).2.taken then
          some ((s.link.read call).2.buf.read 0 call.count) else none⟩] } := by
  obtain ⟨loop, hl, he⟩ := Option.map_eq_some_iff.mp hs
  exact ⟨loop, hl, he.symm⟩

/-- **Step lemma** for the read of a body. -/
theorem onBody_steady {msg : Bytes} {msgSize arriving : Nat} {m : Mem}
    (hseg : run.segment = ⟨14, 65521⟩) (h : Steady run s) (hp : s.loop.point = .body msg msgSize)
    (hu : Undisturbing run s (bodyCall run msgSize arriving m))
    (hs : s.onBody lib run msg m (bodyCall run msgSize arriving m) = some s') : Steady run s' := by
  obtain ⟨loop, hl, hs'⟩ := onBody_eq hs
  obtain ⟨msg', msgSize', hp', hloop⟩ := step_body hl
  obtain ⟨rfl, rfl⟩ := Point.body.inj (hp.symm.trans hp')
  obtain ⟨p, hb⟩ := h.reading msg msgSize hp
  have hlong := hb.long
  have hfits : msgSize ≤ 65521 := by
    have := hb.fits
    rw [hseg] at this
    exact this
  have hq := quiet_of_undisturbing h.inOrder h.clean hu
  have hnot : ¬ IsHeader run (bodyCall run msgSize arriving m) := by
    rintro ⟨ho, -⟩
    unfold bodyCall at ho
    rw [hseg] at ho
    cases ho
  have hnext := h.quiet hq fun hh => absurd hh hnot
  obtain ⟨htaken, hbuf⟩ := @bodyCall_reply run hseg s.link msgSize arriving m hlong hfits
  have hclear : loop.point = .clear := by
    rw [hloop]
    exact onBody_clear (by omega) (by omega) htaken
  rw [hs', htaken, if_pos rfl, hbuf, hq.rest msg msgSize hp, hb.rest, Link.read_fst]
  refine ⟨hnext.inOrder, hnext.served, hnext.disjoint, fun _ _ hbody => ?_, fun _ => ?_,
    fun haway => absurd hclear haway.1⟩
  · rw [hclear] at hbody
    cases hbody
  · rw [show (⟨msg, some (slice 4 (msgSize - 4) p)⟩ : Pass) = passOf p by rw [hb.msg, hb.size]; rfl,
      ← hb.passes]
    exact congrArg (List.map passOf) hq.commands

/-- A new connection begins with its own frames where nothing is left of the old one. -/
theorem reconnected {l : Link} {c : CommunicatorTCP} {old frames : List Frame}
    (h : l.InOrder old) (hr : c.received = []) (hpos : c.mReceiveBufferPos < memorySize) :
    Link.InOrder { l with comm := c, pending := frames.flatMap Frame.bytes }
      (old.take l.installed.length ++ frames) := by
  obtain ⟨done, coming, rfl, hinstalled, -⟩ := h.split
  refine ⟨⟨done, frames, ?_, hinstalled, ?_⟩, hpos⟩
  · rw [hinstalled, List.length_map, List.take_left' rfl]
  · show c.received ++ frames.flatMap Frame.bytes = _
    rw [hr, List.nil_append]

/-- **Step lemma** for the end of a write. -/
theorem onWrote_steady {bs : Bytes} {out : Sending} {frames : List Frame}
    (hseg : run.segment = ⟨14, 65521⟩) (h : Steady run s) (hw : writing s.loop.point = some bs)
    (hr : (s.link.comm.writeData run.segment.messageOffset bs out).2 = true →
      s.link.comm.received = [])
    (hs : s.onWrote lib run bs out frames = some s') : Steady run s' := by
  obtain ⟨loop, hl, rfl⟩ := Option.map_eq_some_iff.mp hs
  have haway := step_wrote hl
  obtain ⟨hreceived, hpos, hzero⟩ :=
    writeData_spec s.link.comm run.segment.messageOffset bs out
  have hclean : ¬ acceptable run.segment.messageMaxSize (MessageHeader.ofMem
      (s.link.comm.writeData run.segment.messageOffset bs out).1.mData
        run.segment.messageOffset) := by
    apply not_acceptable_of_zero
    rw [hseg] at hzero ⊢
    exact hzero
  have hbody : ∀ msg msgSize, s.loop.point ≠ .body msg msgSize := fun msg msgSize hp => by
    rw [hp] at hw
    cases hw
  have hroom : (s.link.comm.writeData run.segment.messageOffset bs out).1.mReceiveBufferPos <
      memorySize := by
    rw [hpos]
    exact h.inOrder.room
  split
  · next hreset =>
    exact ⟨reconnected h.inOrder (hreceived.trans (hr hreset)) hroom, h.served, h.disjoint,
      fun msg msgSize hp => absurd hp (haway.2 msg msgSize), fun _ => h.passes hbody,
      fun _ => hclean⟩
  · obtain ⟨done, coming, h1, h2, h3⟩ := h.inOrder.split
    exact ⟨⟨⟨done, coming, h1, h2, by rw [← h3]; exact congrArg (· ++ _) hreceived⟩, hroom⟩,
      h.served, h.disjoint, fun msg msgSize hp => absurd hp (haway.2 msg msgSize),
      fun _ => h.passes hbody, fun _ => hclean⟩

/-- **An orderly step keeps the invariant.** -/
theorem step_steady {e : TcpEvent} (hseg : run.segment = ⟨14, 65521⟩) (h : Steady run s)
    (ho : Orderly run s e) (hs : OverTCP.step lib run s e = some s') : Steady run s' := by
  cases e with
  | header arriving old found => exact onHeader_steady hseg h ho hs
  | body data arriving =>
    obtain ⟨m, rfl, hu⟩ := ho
    unfold OverTCP.step at hs
    dsimp only at hs
    split at hs
    · next msg msgSize m' hp he =>
      cases he
      exact onBody_steady hseg h hp (hu msg msgSize hp) hs
    · next he => cases he
    · cases hs
  | other call =>
    obtain ⟨hu, ha⟩ := ho
    obtain rfl := Option.some.inj hs
    rw [Link.read_fst]
    exact h.quiet (quiet_of_undisturbing h.inOrder h.clean hu) ha
  | wrote out frames =>
    obtain ⟨bs, hw, hs⟩ := Option.bind_eq_some_iff.mp hs
    exact onWrote_steady hseg h hw (ho bs hw) hs
  | reset => exact onLoop_steady (.inl rfl) h hs
  | telnet line => exact onLoop_steady (.inr (.inl ⟨line, rfl⟩)) h hs
  | quit buffer => exact onLoop_steady (.inr (.inr ⟨buffer, rfl⟩)) h hs

end Steady

/-! ## The segment -/

def headerBytes (mBaseboardID reserved : UInt8) : Bytes :=
  ascii "RECS" ++ le 2 memorySize ++ [mBaseboardID, 1, 3, reserved] ++ le 2 DaemonHeader.sizeof ++
    le 2 DaemonHeader.sizeof

section Start

variable {mBaseboardID reserved : UInt8} {buffer : Mem} {frames : List Frame}
  {call : CommunicatorTCP.Call}

theorem header_kept (hcall : call.offset = 0 ∧ call.count = DaemonHeader.sizeof) :
    ((Link.start (.init mBaseboardID reserved buffer) frames).read call).2.buf.read 0 14 =
      headerBytes mBaseboardID reserved := by
  have hinit : (Link.start (.init mBaseboardID reserved buffer) frames).comm.mData.read 0 14 =
      headerBytes mBaseboardID reserved := Mem.read_write_self _ 0 _
  have hclamp : clamp 0 14 = 14 := clamp_of_le (by decide)
  rw [Link.read_snd, hcall.1, hcall.2, show DaemonHeader.sizeof = 14 from rfl, hclamp]
  have hself := Mem.read_write_self call.old 0
    (((Link.start (.init mBaseboardID reserved buffer) frames).next call).comm.mData.read 0 14)
  rw [Mem.length_read] at hself
  apply hself.trans
  rcases (Link.next_cases (Link.start_inOrder (.init mBaseboardID reserved buffer) frames) call).2
    with hi | hk | ⟨f, rest, ht⟩
  · rw [hi.comm, hinit]
  · rw [hk.mData, hinit]
  · rw [ht.mData, Mem.read_write_of_disjoint (.inl (by decide)), hinit]

/-- The memory behind the header is one slot. -/
theorem segmentOf_header {m : Mem} {slot : Int8}
    (h : m.read 0 14 = headerBytes mBaseboardID reserved) :
    segmentOf (DaemonHeader.ofMem m) slot = ⟨14, 65521⟩ := by
  have hs : ∀ off n, off + n ≤ 14 → m.read off n = slice off n (headerBytes mBaseboardID reserved) :=
    fun off n ho => by rw [← h, Mem.slice_read m ho]
  have hsize : (DaemonHeader.ofMem m).size.toNat = 65535 := by
    show (UInt16.ofNat (ofLE (m.read 4 2))).toNat = _
    rw [hs 4 2 (by decide), show slice 4 2 (headerBytes mBaseboardID reserved) = [255, 255] from rfl]
    decide
  have harea : (DaemonHeader.ofMem m).dynamicAreaOffset.toNat = 14 := by
    show (UInt16.ofNat (ofLE (m.read 12 2))).toNat = _
    rw [hs 12 2 (by decide), show slice 12 2 (headerBytes mBaseboardID reserved) = [14, 0] from rfl]
    decide
  have hslots : [(DaemonHeader.ofMem m).maxSlots] = [1] := hs 7 1 (by decide)
  have hversion : [(DaemonHeader.ofMem m).version] = [3] := hs 8 1 (by decide)
  rw [List.cons.injEq] at hslots hversion
  unfold segmentOf dynamicArea
  rw [hslots.1, hversion.1, if_neg (by decide), if_neg (by decide), hsize, harea]
  norm_num

/-- The loop and the communicator when the daemon starts. -/
def start (run : Running) (link : Link) (frames : List Frame) : OverTCP :=
  ⟨Loop.start run, link, frames, []⟩

theorem start_steady (run : Running) (hseg : run.segment = ⟨14, 65521⟩) :
    Steady run (start run (Link.start (.init mBaseboardID reserved buffer) frames) frames) where
  inOrder := Link.start_inOrder _ _
  served n hn := by cases hn
  disjoint n hn := by cases hn
  reading msg msgSize hp := by cases hp
  passes _ := rfl
  clean _ := not_acceptable_of_zero (by rw [hseg]; rfl)

theorem start_segment {lib : Libraries} {st : Startup} {run : Running}
    (hcall : call.offset = 0 ∧ call.count = DaemonHeader.sizeof)
    (hcomm : st.communicator =
      some ⟨true, ((Link.start (.init mBaseboardID reserved buffer) frames).read call).2⟩)
    (hstart : Daemon.start lib st = some run) : run.segment = ⟨14, 65521⟩ := by
  obtain ⟨c, hc, -, -, hofMem, -⟩ := readHeader_cases (start_header hstart)
  rw [(start_cases hstart).1, hofMem, ← Option.some.inj (hcomm.symm.trans hc)]
  exact segmentOf_header (header_kept hcall)

/-- **In an orderly run each command is examined whole and once**, whatever the frames and whenever
they arrive, from the read of the memory's header on. -/
theorem commands_whole {lib : Libraries} {st : Startup} {run : Running} {es : List TcpEvent}
    (hcall : call.offset = 0 ∧ call.count = DaemonHeader.sizeof)
    (hcomm : st.communicator =
      some ⟨true, ((Link.start (.init mBaseboardID reserved buffer) frames).read call).2⟩)
    (hstart : Daemon.start lib st = some run)
    (ho : Along (step lib run) (Orderly run)
      (start run (Link.start (.init mBaseboardID reserved buffer) frames) frames)
      (.other call :: es)) :
    Always (step lib run) (CommandsWhole run)
      (start run (Link.start (.init mBaseboardID reserved buffer) frames) frames)
      (.other call :: es) := by
  have hseg := start_segment hcall hcomm hstart
  exact (Along.always (fun _ _ _ hI ho hs => step_steady hseg hI ho hs)
    (start_steady run hseg) ho).mono fun _ hI => hI.whole

end Start

/-! ## A controller that waits -/

section Waiting

variable {run : Running} {s : OverTCP}

/-- The call finds the buffer empty, and receives nothing or one whole frame with such a payload. -/
def ReceivesWhole (l : Link) (frames : List Frame) (call : CommunicatorTCP.Call)
    (P : Bytes → Prop) : Prop :=
  l.comm.received = [] ∧
    (l.chunk call.arriving = [] ∨ ∃ f ∈ frames, l.chunk call.arriving = f.bytes ∧ P f.payload)

/-- The controller sends a frame at a time: those that are not harmless to the reads of headers, and
none between header and body of a command. -/
def Waiting (run : Running) (s : OverTCP) : TcpEvent → Prop
  | .header arriving old _ =>
    ReceivesWhole s.link s.frames (headerCall run arriving old) (WholeMessage run s.link.comm.mData)
  | .body data arriving => data.isSome = true ∧ arriving = 0
  | .other call =>
    s.loop.point = .header ∧ ReceivesWhole s.link s.frames call fun p =>
      ¬ carriesCommand run.segment.messageMaxSize p = true ∧
        ¬ acceptable run.segment.messageMaxSize (MessageHeader.ofMem
          (s.link.comm.mData.write DaemonHeader.sizeof p) run.segment.messageOffset)
  | .wrote _ _ => s.link.comm.received = []
  | _ => True

theorem fed_of_receivesWhole {l : Link} {frames : List Frame} {call : CommunicatorTCP.Call}
    {P : Bytes → Prop} (h : ReceivesWhole l frames call P) :
    l.Fed call ∧ ∀ f, Completes l call f → P f.payload := by
  obtain ⟨hr, hc⟩ := h
  have hheld : l.Arrives call := fun f rest hf _ =>
    f.bytes_ne_nil (List.append_eq_nil_iff.mp (hf.symm.trans hr)).1
  rcases hc with hc | ⟨g, -, hc, hp⟩
  · refine ⟨⟨hheld, fun _ _ hne => absurd hc hne⟩, ?_⟩
    rintro f ⟨rest, hne, -⟩
    exact absurd hc hne
  · -- what is received is the frame and nothing else
    have hone (f : Frame) (rest : Bytes)
        (hf : l.comm.received ++ l.chunk call.arriving = f.bytes ++ rest) : g = f ∧ rest = [] := by
      rw [hr, hc, List.nil_append] at hf
      have hf := (List.append_nil _).trans hf
      obtain rfl := Frame.prefixFree g f _ _ hf
      exact ⟨rfl, (List.append_cancel_left hf).symm⟩
    refine ⟨⟨hheld, fun f rest _ hf => ?_⟩, ?_⟩
    · rw [(hone f rest hf).2]
      exact Nat.zero_le _
    · rintro f ⟨rest, -, hf, -⟩
      exact (hone f rest hf).1 ▸ hp

theorem orderly_of_waiting {e : TcpEvent} (h : Waiting run s e) : Orderly run s e := by
  cases e with
  | header arriving old found => exact fed_of_receivesWhole h
  | body data arriving =>
    obtain ⟨hm, rfl⟩ := h
    obtain ⟨m, rfl⟩ := Option.isSome_iff_exists.mp hm
    refine ⟨m, rfl, fun msg msgSize _ f => ?_⟩
    rintro ⟨rest, hc, -⟩
    unfold Link.chunk bodyCall at hc
    rw [Nat.zero_min, List.take_zero, ite_self] at hc
    exact absurd rfl hc
  | other call =>
    obtain ⟨hp, hw⟩ := h
    obtain ⟨hfed, hharmless⟩ := fed_of_receivesWhole hw
    refine ⟨fun f hf => ⟨hfed.2, (hharmless f hf).1, fun _ => (hharmless f hf).2, ?_⟩, fun _ => hfed.1⟩
    intro msg msgSize hb
    rw [hp] at hb
    cases hb
  | wrote out frames => exact fun _ _ _ => h
  | reset => trivial
  | telnet line => trivial
  | quit buffer => trivial

instance (max : Nat) (hdr : MessageHeader) : Decidable (acceptable max hdr) :=
  inferInstanceAs (Decidable (_ ∧ _))

instance (run : Running) (m : Mem) : DecidablePred (WholeMessage run m) := fun p =>
  inferInstanceAs (Decidable (if 4 ≤ p.length then _ else _))

instance (l : Link) (frames : List Frame) (call : CommunicatorTCP.Call) (P : Bytes → Prop)
    [DecidablePred P] : Decidable (ReceivesWhole l frames call P) :=
  inferInstanceAs (Decidable (_ ∧ (_ ∨ _)))

instance (run : Running) (s : OverTCP) (e : TcpEvent) : Decidable (Waiting run s e) :=
  match e with
  | .header arriving old _ => inferInstanceAs (Decidable (ReceivesWhole s.link s.frames
      (headerCall run arriving old) (WholeMessage run s.link.comm.mData)))
  | .body _ _ => inferInstanceAs (Decidable (_ ∧ _))
  | .other _ => inferInstanceAs (Decidable (_ ∧ ReceivesWhole _ _ _ _))
  | .wrote _ _ => inferInstanceAs (Decidable (_ = _))
  | .reset => isTrue trivial
  | .telnet _ => isTrue trivial
  | .quit _ => isTrue trivial

end Waiting

/-- A frame without a command. -/
def quietFrame : Frame := ⟨0, 0, [0], Nat.le_of_ble_eq_true rfl⟩

def commandFrame (baseboard slot : UInt8) : Frame :=
  ⟨0, 0, [3, 0, 6, 0, baseboard, slot], Nat.le_of_ble_eq_true rfl⟩

def headerRead (arriving : Nat) : CommunicatorTCP.Call := ⟨0, 14, arriving, fun _ => 0⟩

def sampleLink (frames : List Frame) : Link := Link.start (.init 0 0 fun _ => 0) frames

/-- The sample daemon with this communicator. -/
def startup (frames : List Frame) (arriving : Nat) : Startup :=
  { Startup.sample 1 0 1 with
    communicator := some ⟨true, ((sampleLink frames).read (headerRead arriving)).2⟩ }

/-- A frame is completed by the read at start-up. Of two commands the second comes behind a reset. -/
theorem commands_whole_sample :
    let frames := [quietFrame, commandFrame 0 0, commandFrame 9 9]
    let es : List TcpEvent :=
      [.other (headerRead 9), .header 14 (fun _ => 0) .sample, .body (some fun _ => 0) 0,
        .wrote ⟨true, false⟩ [], .reset, .header 14 (fun _ => 0) .sample, .body (some fun _ => 0) 0,
        .wrote ⟨true, false⟩ []]
    ∃ run, Daemon.start .sample (startup frames 9) = some run ∧
      (exec (step .sample run) (start run (sampleLink frames) frames) es).map (·.passes) =
        some [⟨[3, 0, 6, 0], some [0, 0]⟩, ⟨[3, 0, 6, 0], some [9, 9]⟩] ∧
      Always (step .sample run) (CommandsWhole run) (start run (sampleLink frames) frames) es := by
  intro frames es
  have hend : (Daemon.start .sample (startup frames 9)).map (fun run =>
      ((exec (step .sample run) (start run (sampleLink frames) frames) es).map (·.passes),
        decide (Along (step .sample run) (Waiting run) (start run (sampleLink frames) frames) es))) =
      some (some [⟨[3, 0, 6, 0], some [0, 0]⟩, ⟨[3, 0, 6, 0], some [9, 9]⟩], true) := by
    decide +kernel
  obtain ⟨run, hrun, hp⟩ := Option.map_eq_some_iff.mp hend
  obtain ⟨hpasses, hwaiting⟩ := Prod.mk.inj hp
  exact ⟨run, hrun, hpasses, commands_whole ⟨rfl, rfl⟩ rfl hrun
    ((of_decide_eq_true hwaiting).imp fun _ _ => orderly_of_waiting)⟩

/-- The second command arrives between header and body of the first one: the first one is examined
with the body of the second one. -/
theorem commands_mixed :
    ∃ run, Daemon.start .sample (startup [commandFrame 0 0, commandFrame 9 9] 0) = some run ∧
      ¬ Always (step .sample run) (CommandsWhole run)
        (start run (sampleLink [commandFrame 0 0, commandFrame 9 9])
          [commandFrame 0 0, commandFrame 9 9])
        [.other (headerRead 0), .header 14 (fun _ => 0) .sample, .body (some fun _ => 0) 14] := by
  have hend : ((Daemon.start .sample (startup [commandFrame 0 0, commandFrame 9 9] 0)).bind fun run =>
      (exec (step .sample run) (start run (sampleLink [commandFrame 0 0, commandFrame 9 9])
        [commandFrame 0 0, commandFrame 9 9])
        [.other (headerRead 0), .header 14 (fun _ => 0) .sample, .body (some fun _ => 0) 14]).map
          fun s => (s.loop.point, s.commands run, s.passes)) =
      some (.clear, [[3, 0, 6, 0, 0, 0], [3, 0, 6, 0, 9, 9]], [⟨[3, 0, 6, 0], some [9, 9]⟩]) := by
    decide +kernel
  obtain ⟨run, hrun, hexec⟩ := Option.bind_eq_some_iff.mp hend
  obtain ⟨s, hs, hp⟩ := Option.map_eq_some_iff.mp hexec
  obtain ⟨hpoint, hcommands, hpasses⟩ : s.loop.point = .clear ∧ s.commands run = _ ∧ s.passes = _ :=
    ⟨congrArg Prod.fst hp, congrArg (fun t => t.2.1) hp, congrArg (fun t => t.2.2) hp⟩
  refine ⟨run, hrun, fun h => ?_⟩
  have hw := (h _ _ (List.prefix_refl _) hs).passes fun _ _ hb => by rw [hpoint] at hb; cases hb
  rw [hcommands, hpasses] at hw
  cases hw

end OverTCP

end Daemon

end RecsDaemon
