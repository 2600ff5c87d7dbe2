import RecsDaemon.Daemon.Startup
import RecsDaemon.TelnetServer
import RecsDaemon.Base.System
import RecsDaemon.Base.Except

/-!
# The loop

`Daemon::run` after start-up as a step function. A round of the loop is a read
of a header, for a command a read of its body, and at most one write; between
two rounds the state machine may be reset, a client of the command line may
send a line, and the daemon may be told to quit. What the communicator, the
plugins and the allocator do is part of the event.
-/

namespace RecsDaemon

open Base Json

namespace Daemon

inductive State where
  | basicInformation
  | monitoringDescription
  | monitoringData
deriving DecidableEq

/-- A message the loop writes; a page with its number and the number of pages. -/
inductive Kind where
  | basicInformation
  | page (page maxPages : UInt8)
  | data
deriving DecidableEq

/-- What the loop does to the world. -/
inductive Output where
  | message (kind : Kind) (bs : Bytes)
  | clear
  | last (bs : Bytes)
  | execute (call : Call)
  | reset
deriving DecidableEq

def Output.written : Output → Option Bytes
  | .message _ bs => some bs
  | .clear => some [0]
  | .last bs => some bs
  | .execute _ => none
  | .reset => none

def Output.writeData (segment : Segment) (o : Output) : Option (Nat × Bytes) :=
  o.written.map fun bs => (segment.messageOffset, bs)

/-- Where the thread is: about to read a header, to read the rest of a command, or in a call of
`writeData`. -/
inductive Point where
  | header
  | body (msg : Bytes) (msgSize : Nat)
  | write (kind : Kind) (bs : Bytes)
  | clear
  | last (bs : Bytes)
  | ended
deriving DecidableEq

/-- `trace` lists the outputs, the last one first. -/
structure Loop where
  mState : State
  mCurrentPage : UInt8
  mFirstWriteDone : Bool
  sensors : SensorSet
  point : Point
  trace : List Output

/-- What a round finds when it makes a message, `buffer` being the allocated memory. -/
structure Found where
  host : Node.HostInfo
  inputs : Inputs
  buffer : Mem

def Found.sample : Found := ⟨.none, .zero, fun _ => 0⟩

inductive Event where
  | header (r : ReadReply) (found : Found)
  /-- `data` is the allocated memory, `none` if there is none left. -/
  | body (data : Option Mem) (r : ReadReply)
  /-- The write returns; it may have reset the state machine. -/
  | wrote (reset : Bool)
  | reset
  | telnet (line : Bytes)
  | quit (buffer : Mem)

/-- A read of an empty slot. -/
def Event.idle : Event := .header ⟨4, fun _ => 0⟩ .sample

namespace Loop

def start (run : Running) : Loop := ⟨.basicInformation, 1, false, run.sensors, .header, []⟩

def emit (s : Loop) (o : Output) : Loop := { s with trace := o :: s.trace }

def goto (s : Loop) (p : Point) : Loop := { s with point := p }

def resetStatemachine (s : Loop) : Loop :=
  { s.emit .reset with mState := .basicInformation, mCurrentPage := 1, mFirstWriteDone := false }

section Round

variable (lib : Libraries) (run : Running)

/-- The message `mState` asks for, and the sensor set after it was made. -/
def compose (found : Found) (s : Loop) : Except Fault (SensorSet × Kind × Bytes) :=
  match s.mState with
  | .basicInformation =>
    pure (s.sensors, .basicInformation, Node.basicInformationBytes found.host
      run.segment.messageMaxSize found.buffer)
  | .monitoringData => do
    let set ← s.sensors.getMessage lib.deserialize found.inputs
    pure (set, .data, set.mData.read 0 run.sensorSize)
  | .monitoringDescription => do
    let page ← s.sensors.getDescriptionPage lib.platform run.segment.messageMaxSize s.mCurrentPage
    pure ({ s.sensors with mKnownGroups := page.mKnownGroups },
      .page s.mCurrentPage page.maxPages, page.bytes found.buffer)

/-- A message of one of these types has to be picked up first. -/
def isReply (type : UInt8) : Bool :=
  type = MessageType.monitoringDescription.code || type = MessageType.basicInformation.code ||
    type = MessageType.commandResult.code

/-- The slot is free: the next message is made. -/
def writeNext (found : Found) (s : Loop) : Loop :=
  match s.compose lib run found with
  | .ok (set, kind, bs) => { s with sensors := set, point := .write kind bs }
  | .error _ => s.goto .ended

/-- From the read of the header to the next access of the shared memory. -/
def onHeader (r : ReadReply) (found : Found) (s : Loop) : Loop :=
  let msg := MessageHeader.ofMem r.buf 0
  if r.taken then
    if msg.size.toNat ≤ run.segment.messageMaxSize then
      if msg.type = MessageType.command.code then
        s.goto (.body (r.buf.read 0 MessageHeader.sizeof) msg.size.toNat)
      else if isReply msg.type ∧ s.mFirstWriteDone then s
      else s.writeNext lib run found
    else s
  else s

/-- The Command branch up to the write that clears the message. -/
def onBody (msg : Bytes) (msgSize : Nat) (data : Option Mem) (r : ReadReply) (s : Loop) : Loop :=
  match data with
  | none => s.goto .header
  | some m =>
    match ((handleCommand lib.checkSignature run.node run.segment.messageMaxSize msgSize msg r).run
      m).1 with
    | .unread => s.goto .header
    | .ignored => s.goto .clear
    | .executed _ call => (s.emit (.execute call)).goto .clear

/-- The assignments that follow the write of a message. -/
def afterWrite (kind : Kind) (s : Loop) : Loop :=
  match kind with
  | .basicInformation => { s with mState := .monitoringDescription, mFirstWriteDone := true }
  | .data => { s with mFirstWriteDone := true }
  | .page _ maxPages =>
    let page := s.mCurrentPage + 1
    if maxPages < page then
      { s with mCurrentPage := 1, mState := .monitoringData, mFirstWriteDone := true }
    else { s with mCurrentPage := page, mFirstWriteDone := true }

/-- A write, with the reset it may raise. -/
def onWrite (o : Output) (reset : Bool) (s : Loop) : Loop :=
  if reset then (s.emit o).resetStatemachine else s.emit o

/-- A line of a client; an exception ends the process. -/
def onTelnet (line : Bytes) (s : Loop) : Loop :=
  match TelnetServer.execute lib.deserialize lib.platform line s.sensors with
  | .ok ⟨set, true⟩ => { s with sensors := set }.resetStatemachine
  | .ok ⟨set, false⟩ => { s with sensors := set }
  | .error _ => s.goto .ended

/-- The last write, of the page that was made of the cleared set. -/
def writeLast (page : Except Fault SensorSet.Page) (buffer : Mem) (s : Loop) : Loop :=
  match page with
  | .ok page =>
    { s with
      sensors := { s.sensors with mKnownGroups := page.mKnownGroups }
      point := .last (page.bytes buffer) }
  | .error _ => s.goto .ended

/-- After the loop: the first page of the cleared set is written in any case. -/
def onQuit (buffer : Mem) (s : Loop) : Loop :=
  let s := { s with sensors := s.sensors.clear }
  s.writeLast (s.sensors.getDescriptionPage lib.platform run.segment.messageMaxSize 1) buffer

end Round

end Loop

/-- One step; `none` where the event does not belong to the point of the thread. -/
def step (lib : Libraries) (run : Running) (s : Loop) (e : Event) : Option Loop :=
  match s.point, e with
  | .header, .header r found => some (s.onHeader lib run r found)
  | .header, .reset => some s.resetStatemachine
  | .header, .telnet line => some (s.onTelnet lib line)
  | .header, .quit buffer => some (s.onQuit lib run buffer)
  | .body msg msgSize, .body data r => some (s.onBody lib run msg msgSize data r)
  | .write kind bs, .wrote reset =>
    some (((s.onWrite (.message kind bs) reset).afterWrite kind).goto .header)
  | .clear, .wrote reset => some ((s.onWrite .clear reset).goto .header)
  | .last bs, .wrote reset => some ((s.onWrite (.last bs) reset).goto .ended)
  | _, _ => none

theorem step_cases {lib : Libraries} {run : Running} {s s' : Loop} {e : Event}
    (h : step lib run s e = some s') :
    (∃ r found, s.point = .header ∧ e = .header r found ∧ s' = s.onHeader lib run r found) ∨
    (s.point = .header ∧ e = .reset ∧ s' = s.resetStatemachine) ∨
    (∃ line, s.point = .header ∧ e = .telnet line ∧ s' = s.onTelnet lib line) ∨
    (∃ buffer, s.point = .header ∧ e = .quit buffer ∧ s' = s.onQuit lib run buffer) ∨
    (∃ msg msgSize data r, s.point = .body msg msgSize ∧ e = .body data r ∧
      s' = s.onBody lib run msg msgSize data r) ∨
    (∃ kind bs reset, s.point = .write kind bs ∧ e = .wrote reset ∧
      s' = ((s.onWrite (.message kind bs) reset).afterWrite kind).goto .header) ∨
    (∃ reset, s.point = .clear ∧ e = .wrote reset ∧ s' = (s.onWrite .clear reset).goto .header) ∨
    (∃ bs reset, s.point = .last bs ∧ e = .wrote reset ∧
      s' = (s.onWrite (.last bs) reset).goto .ended) := by
  unfold step at h
  split at h
  · next r found hp => exact .inl ⟨r, found, hp, rfl, (Option.some.inj h).symm⟩
  · next hp => exact .inr (.inl ⟨hp, rfl, (Option.some.inj h).symm⟩)
  · next line hp => exact .inr (.inr (.inl ⟨line, hp, rfl, (Option.some.inj h).symm⟩))
  · next buffer hp =>
    exact .inr (.inr (.inr (.inl ⟨buffer, hp, rfl, (Option.some.inj h).symm⟩)))
  · next msg msgSize data r hp =>
    exact .inr (.inr (.inr (.inr (.inl ⟨msg, msgSize, data, r, hp, rfl,
      (Option.some.inj h).symm⟩))))
  · next kind bs reset hp =>
    exact .inr (.inr (.inr (.inr (.inr (.inl ⟨kind, bs, reset, hp, rfl,
      (Option.some.inj h).symm⟩)))))
  · next reset hp =>
    exact .inr (.inr (.inr (.inr (.inr (.inr (.inl ⟨reset, hp, rfl,
      (Option.some.inj h).symm⟩))))))
  · next bs reset hp =>
    exact .inr (.inr (.inr (.inr (.inr (.inr (.inr ⟨bs, reset, hp, rfl,
      (Option.some.inj h).symm⟩))))))
  · cases h

/-! ## What the parts of a round can do -/

section Cases

variable {lib : Libraries} {run : Running} {s : Loop}

/-- A message and the state that asks for it. -/
theorem compose_cases {found : Found} {set : SensorSet} {kind : Kind} {bs : Bytes}
    (h : s.compose lib run found = .ok (set, kind, bs)) :
    (s.mState = .basicInformation ∧ set = s.sensors ∧ kind = .basicInformation ∧
      bs = Node.basicInformationBytes found.host run.segment.messageMaxSize found.buffer) ∨
    (s.mState = .monitoringData ∧ kind = .data ∧
      s.sensors.getMessage lib.deserialize found.inputs = .ok set ∧
      bs = set.mData.read 0 run.sensorSize) ∨
    (s.mState = .monitoringDescription ∧ ∃ page,
      s.sensors.getDescriptionPage lib.platform run.segment.messageMaxSize s.mCurrentPage =
        .ok page ∧
      set = { s.sensors with mKnownGroups := page.mKnownGroups } ∧
      kind = .page s.mCurrentPage page.maxPages ∧ bs = page.bytes found.buffer) := by
  unfold Loop.compose at h
  split at h
  · next hs => cases h; exact .inl ⟨hs, rfl, rfl, rfl⟩
  · next hs =>
    obtain ⟨set', hm, h⟩ := bind_eq_ok.mp h
    cases h
    exact .inr (.inl ⟨hs, rfl, hm, rfl⟩)
  · next hs =>
    obtain ⟨page, hp, h⟩ := bind_eq_ok.mp h
    cases h
    exact .inr (.inr ⟨hs, page, hp, rfl, rfl, rfl⟩)

theorem writeNext_cases (lib : Libraries) (run : Running) (s : Loop) (found : Found) :
    (∃ set kind bs, s.compose lib run found = .ok (set, kind, bs) ∧
      s.writeNext lib run found = { s with sensors := set, point := .write kind bs }) ∨
    s.writeNext lib run found = s.goto .ended := by
  unfold Loop.writeNext
  split
  · next set kind bs h => exact .inl ⟨set, kind, bs, h, rfl⟩
  · exact .inr rfl

/-- A header is ignored, begins a command, or leads to the next message. -/
theorem onHeader_cases (lib : Libraries) (run : Running) (s : Loop) (r : ReadReply)
    (found : Found) :
    (s.onHeader lib run r found = s) ∨
    (r.taken ∧ (MessageHeader.ofMem r.buf 0).type = MessageType.command.code ∧
      (MessageHeader.ofMem r.buf 0).size.toNat ≤ run.segment.messageMaxSize ∧
      s.onHeader lib run r found =
        s.goto (.body (r.buf.read 0 4) (MessageHeader.ofMem r.buf 0).size.toNat)) ∨
    (r.taken ∧ (MessageHeader.ofMem r.buf 0).type ≠ MessageType.command.code ∧
      ¬ (Loop.isReply (MessageHeader.ofMem r.buf 0).type ∧ s.mFirstWriteDone) ∧
      s.onHeader lib run r found = s.writeNext lib run found) := by
  simp only [Loop.onHeader]
  by_cases ht : r.taken
  swap
  · exact .inl (if_neg ht)
  by_cases hle : (MessageHeader.ofMem r.buf 0).size.toNat ≤ run.segment.messageMaxSize
  swap
  · exact .inl (by rw [if_pos ht, if_neg hle])
  rw [if_pos ht, if_pos hle]
  by_cases hc : (MessageHeader.ofMem r.buf 0).type = MessageType.command.code
  · exact .inr (.inl ⟨ht, hc, hle, if_pos hc⟩)
  rw [if_neg hc]
  by_cases hw : Loop.isReply (MessageHeader.ofMem r.buf 0).type ∧ s.mFirstWriteDone
  · exact .inl (if_pos hw)
  · exact .inr (.inr ⟨ht, hc, hw, if_neg hw⟩)

/-- The branch goes back to the loop, or to the write that clears the message. -/
theorem onBody_cases (lib : Libraries) (run : Running) (s : Loop) (msg : Bytes) (msgSize : Nat)
    (data : Option Mem) (r : ReadReply) :
    (s.onBody lib run msg msgSize data r = s.goto .header) ∨
    (s.onBody lib run msg msgSize data r = s.goto .clear) ∨
    (∃ call, s.onBody lib run msg msgSize data r = (s.emit (.execute call)).goto .clear) := by
  unfold Loop.onBody
  cases data with
  | none => exact .inl rfl
  | some m =>
    simp only
    split
    · exact .inl rfl
    · exact .inr (.inl rfl)
    · next call _ => exact .inr (.inr ⟨call, rfl⟩)

/-- A line changes the map of the sensors only together with a reset. -/
theorem onTelnet_cases (lib : Libraries) (s : Loop) (line : Bytes) :
    (∃ set, s.onTelnet lib line = { s with sensors := set }.resetStatemachine) ∨
    (∃ set, set.mSensorMap = s.sensors.mSensorMap ∧
      s.onTelnet lib line = { s with sensors := set }) ∨
    s.onTelnet lib line = s.goto .ended := by
  unfold Loop.onTelnet
  split
  · next set _ => exact .inl ⟨set, rfl⟩
  · next set h => exact .inr (.inl ⟨set, TelnetServer.execute_mSensorMap h, rfl⟩)
  · exact .inr (.inr rfl)

theorem writeLast_cases (s : Loop) (page : Except Fault SensorSet.Page) (buffer : Mem) :
    (∃ p, page = .ok p ∧ s.writeLast page buffer = { s with
      sensors := { s.sensors with mKnownGroups := p.mKnownGroups }
      point := .last (p.bytes buffer) }) ∨
    s.writeLast page buffer = s.goto .ended := by
  cases page with
  | ok p => exact .inl ⟨p, rfl, rfl⟩
  | error f => exact .inr rfl

/-- Quitting leaves the loop, to write a page or not. -/
theorem onQuit_cases (lib : Libraries) (run : Running) (s : Loop) (buffer : Mem) :
    (∃ set page, s.sensors.clear.getDescriptionPage lib.platform run.segment.messageMaxSize 1 =
        .ok page ∧
      s.onQuit lib run buffer = { s with sensors := set, point := .last (page.bytes buffer) }) ∨
    ∃ set, s.onQuit lib run buffer = { s with sensors := set, point := .ended } := by
  rcases writeLast_cases { s with sensors := s.sensors.clear }
    (s.sensors.clear.getDescriptionPage lib.platform run.segment.messageMaxSize 1) buffer with
    ⟨page, hp, he⟩ | he
  · exact .inl ⟨_, page, hp, he⟩
  · exact .inr ⟨_, he⟩

theorem onQuit_eq (lib : Libraries) (run : Running) (s : Loop) (buffer : Mem)
    {page : SensorSet.Page}
    (h : s.sensors.clear.getDescriptionPage lib.platform run.segment.messageMaxSize 1 = .ok page) :
    s.onQuit lib run buffer = { s with
      sensors := { s.sensors.clear with mKnownGroups := page.mKnownGroups }
      point := .last (page.bytes buffer) } :=
  congrArg (fun p => Loop.writeLast p buffer { s with sensors := s.sensors.clear }) h

end Cases

/-! ## Where writes come from -/

/-- The thread is in no call that writes a message or the last page. -/
def Point.Silent : Point → Prop
  | .write _ _ => False
  | .last _ => False
  | _ => True

/-- What a step from `s` to `s'` has to do with writes: those of `s'` that are new are what `s` was
about to write, and what `s'` is about to write was made in the step. -/
structure Writes (lib : Libraries) (run : Running) (s s' : Loop) : Prop where
  written : ∀ o ∈ s'.trace, ∀ bs, o.written = some bs →
    o ∈ s.trace ∨ (∃ kind, s.point = .write kind bs) ∨ bs = [0] ∨ s.point = .last bs
  message : ∀ kind bs, s'.point = .write kind bs →
    ∃ found set, s.compose lib run found = .ok (set, kind, bs)
  last : ∀ bs, s'.point = .last bs → ∃ page buffer, bs = page.bytes buffer ∧
    s.sensors.clear.getDescriptionPage lib.platform run.segment.messageMaxSize 1 = .ok page

section Writes

variable {lib : Libraries} {run : Running} {s s' : Loop} {e : Event}

theorem written_cons {t : List Output} {o : Output} {P : Output → Bytes → Prop}
    (h : ∀ o ∈ t, ∀ bs, o.written = some bs → P o bs) (ho : ∀ bs, o.written = some bs → P o bs) :
    ∀ o' ∈ o :: t, ∀ bs, o'.written = some bs → P o' bs := by
  intro o' ho'
  rcases List.mem_cons.mp ho' with rfl | ho'
  · exact ho
  · exact h o' ho'

theorem Writes.silent (hp : s'.point.Silent)
    (ht : s'.trace = s.trace ∨ ∃ o, o.written = none ∧ s'.trace = o :: s.trace) :
    Writes lib run s s' where
  written := by
    rcases ht with ht | ⟨o, hw, ht⟩
    · rw [ht]; exact fun o ho _ _ => .inl ho
    · rw [ht]
      exact written_cons (fun o ho _ _ => .inl ho) fun bs hb => by rw [hw] at hb; cases hb
  message kind bs hw := by rw [hw] at hp; exact hp.elim
  last bs hw := by rw [hw] at hp; exact hp.elim

theorem Writes.ofWrite {o : Output} {reset : Bool} (hp : s'.point.Silent)
    (ht : s'.trace = (s.onWrite o reset).trace)
    (ho : ∀ bs, o.written = some bs →
      (∃ kind, s.point = .write kind bs) ∨ bs = [0] ∨ s.point = .last bs) :
    Writes lib run s s' where
  written := by
    have hcons := written_cons (t := s.trace) (o := o) (P := fun o bs => o ∈ s.trace ∨
      (∃ kind, s.point = .write kind bs) ∨ bs = [0] ∨ s.point = .last bs)
      (fun o ho _ _ => .inl ho) fun bs hb => .inr (ho bs hb)
    rw [ht]
    cases reset with
    | false => exact hcons
    | true => exact written_cons hcons fun bs hb => by cases hb
  message kind bs hw := by rw [hw] at hp; exact hp.elim
  last bs hw := by rw [hw] at hp; exact hp.elim

theorem writes_onHeader {r : ReadReply} {found : Found} (hp : s.point = .header) :
    Writes lib run s (s.onHeader lib run r found) := by
  rcases onHeader_cases lib run s r found with he | ⟨-, -, -, he⟩ |
    ⟨-, -, -, he⟩
  · rw [he]; exact .silent (by rw [hp]; trivial) (.inl rfl)
  · rw [he]; exact .silent trivial (.inl rfl)
  · rw [he]
    rcases writeNext_cases lib run s found with ⟨set, kind, bs, hc, hw⟩ | hw
    · rw [hw]
      refine ⟨fun o ho _ _ => .inl ho, fun k b hk => ?_, nofun⟩
      cases hk
      exact ⟨found, set, hc⟩
    · rw [hw]; exact .silent trivial (.inl rfl)

theorem writes_onQuit {buffer : Mem} : Writes lib run s (s.onQuit lib run buffer) := by
  rcases onQuit_cases lib run s buffer with ⟨set, page, hg, he⟩ | ⟨set, he⟩
  · rw [he]
    refine ⟨fun o ho _ _ => .inl ho, nofun, fun b hl => ?_⟩
    cases hl
    exact ⟨page, buffer, rfl, hg⟩
  · rw [he]; exact .silent trivial (.inl rfl)

theorem writes_onTelnet {line : Bytes} (hp : s.point = .header) :
    Writes lib run s (s.onTelnet lib line) := by
  rcases onTelnet_cases lib s line with ⟨set, he⟩ | ⟨set, -, he⟩ | he
  · rw [he]
    exact .silent (show s.point.Silent by rw [hp]; trivial) (.inr ⟨.reset, rfl, rfl⟩)
  · rw [he]; exact .silent (show s.point.Silent by rw [hp]; trivial) (.inl rfl)
  · rw [he]; exact .silent trivial (.inl rfl)

theorem writes_onBody {msg : Bytes} {msgSize : Nat} {data : Option Mem} {r : ReadReply} :
    Writes lib run s (s.onBody lib run msg msgSize data r) := by
  rcases onBody_cases lib run s msg msgSize data r with he | he | ⟨call, he⟩
  · rw [he]; exact .silent trivial (.inl rfl)
  · rw [he]; exact .silent trivial (.inl rfl)
  · rw [he]; exact .silent trivial (.inr ⟨.execute call, rfl, rfl⟩)

/-- The trace, the sensors and the flag after the write of a message. -/
theorem afterWrite_frame (kind : Kind) (t : Loop) :
    (t.afterWrite kind).trace = t.trace ∧ (t.afterWrite kind).sensors = t.sensors ∧
      (t.afterWrite kind).mFirstWriteDone = true := by
  unfold Loop.afterWrite
  split
  · exact ⟨rfl, rfl, rfl⟩
  · exact ⟨rfl, rfl, rfl⟩
  · dsimp only
    split <;> exact ⟨rfl, rfl, rfl⟩

/-- **What a step writes, and what it leaves to be written.** -/
theorem step_writes (h : step lib run s e = some s') : Writes lib run s s' := by
  rcases step_cases h with ⟨r, found, hp, rfl, rfl⟩ | ⟨hp, rfl, rfl⟩ | ⟨line, hp, rfl, rfl⟩ |
    ⟨buffer, hp, rfl, rfl⟩ | ⟨msg, msgSize, data, r, hp, rfl, rfl⟩ | ⟨kind, bs, reset, hp, rfl, rfl⟩ |
    ⟨reset, hp, rfl, rfl⟩ | ⟨bs, reset, hp, rfl, rfl⟩
  · exact writes_onHeader hp
  · exact .silent (show s.point.Silent by rw [hp]; trivial) (.inr ⟨.reset, rfl, rfl⟩)
  · exact writes_onTelnet hp
  · exact writes_onQuit
  · exact writes_onBody
  · exact .ofWrite trivial (afterWrite_frame kind _).1 fun b hb => by
      cases hb; exact .inl ⟨kind, hp⟩
  · exact .ofWrite trivial rfl fun b hb => by cases hb; exact .inr (.inl rfl)
  · exact .ofWrite trivial rfl fun b hb => by cases hb; exact .inr (.inr hp)

end Writes

end Daemon

end RecsDaemon
