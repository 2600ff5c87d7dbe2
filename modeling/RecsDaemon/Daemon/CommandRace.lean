import RecsDaemon.Daemon.SharedMemory

/-!
# Commands and the writes of the daemon

Nothing binds management while the daemon goes from a header to the write it
decides on, so a command written then is overwritten (`command_overwritten`).
One that is written before the daemon reads the header is read in whole before
the daemon writes again (`commandSafe_of_timely`).
-/

namespace RecsDaemon

open Base Json

namespace Daemon

namespace Shared

section CommandSafe

variable (lib : Libraries) (run : Running)

/-- No command was overwritten, and one that is in the slot is read next: first its header, then the
rest of it, in the Command branch. -/
structure CommandSafe (s : Shared) : Prop where
  lost : s.lost = false
  next : ∀ msg, s.pending = some msg →
    (s.loop.point = .header ∧ ∀ found s', s.step lib run (.readHeader found) = some s' →
      s'.loop.point = .body (msg.take MessageHeader.sizeof) msg.length ∧ s'.pending = some msg) ∨
    (s.loop.point = .body (msg.take MessageHeader.sizeof) msg.length ∧
      ∀ data s', s.step lib run (.readBody (some data)) = some s' →
        s'.examined = msg :: s.examined ∧ s'.pending = none) ∨
    s.loop.point = .ended

/-- Management writes a command only between two rounds of the loop, and nobody makes the daemon
quit as long as a command is not read. -/
structure Timely (s : Shared) (a : Access) : Prop where
  command : ∀ msg, a = .command msg → s.loop.point = .header
  quit : ∀ buffer, a = .quit buffer → s.pending = none

/-- A command in the slot is whole, and the thread is about to read it. -/
structure Waiting (s : Shared) : Prop where
  lost : s.lost = false
  pending : ∀ msg, s.pending = some msg → IsCommand msg ∧
    msg.length ≤ run.segment.messageMaxSize ∧
    s.mem.read run.segment.messageOffset msg.length = msg ∧
    (s.loop.point = .header ∨
      s.loop.point = .body (msg.take MessageHeader.sizeof) msg.length ∨ s.loop.point = .ended)

end CommandSafe

section Slot

variable {lib : Libraries} {run : Running} {s s' : Shared} {msg : Bytes}

theorem header_of_command (hc : IsCommand msg)
    (hm : s.mem.read run.segment.messageOffset msg.length = msg) :
    (s.header run).type = MessageType.command.code ∧
      (s.header run).size.toNat = msg.length ∧
      (s.headerReply run).buf.read 0 4 = msg.take MessageHeader.sizeof := by
  obtain ⟨ht, hs⟩ := header_of_message hc.isMessage hm
  refine ⟨ht, hs, ?_⟩
  rw [show (s.headerReply run).buf = fun a => s.mem (run.segment.messageOffset + a) from rfl,
    read_shifted, read_part hm (Nat.le_trans (by decide) hc.isMessage.header)]
  rfl

theorem body_of_command (hc : IsCommand msg)
    (hm : s.mem.read run.segment.messageOffset msg.length = msg) :
    msg.take MessageHeader.sizeof ++ (s.bodyReply run msg.length).buf.read 0
      (msg.length - MessageHeader.sizeof) = msg := by
  have h204 : 204 ≤ msg.length := hc.1
  have hsplit := Mem.read_add s.mem run.segment.messageOffset 4 (msg.length - 4)
  rw [show 4 + (msg.length - 4) = msg.length by omega, hm] at hsplit
  rw [show (s.bodyReply run msg.length).buf = fun a => s.mem (run.segment.messageOffset + 4 + a)
    from rfl, read_shifted]
  conv_rhs => rw [hsplit]
  congr 1
  conv_lhs => rw [hsplit]
  exact List.take_left' (Mem.length_read _ _ _)

theorem onHeader_of_command (hc : IsCommand msg) (hl : msg.length ≤ run.segment.messageMaxSize)
    (hm : s.mem.read run.segment.messageOffset msg.length = msg) (found : Found) :
    s.loop.onHeader lib run (s.headerReply run) found =
      s.loop.goto (.body (msg.take MessageHeader.sizeof) msg.length) := by
  obtain ⟨htype, hsize, hread⟩ := header_of_command hc hm
  have ht : (s.headerReply run).taken := rfl
  unfold Loop.onHeader
  dsimp only
  rw [header_headerReply, if_pos ht, hsize, if_pos hl, if_pos htype]
  congr 2

theorem onBody_of_command (hc : IsCommand msg)
    (hm : s.mem.read run.segment.messageOffset msg.length = msg) (hp : s.pending = some msg)
    (data : Mem) :
    (s.onBody lib run (msg.take MessageHeader.sizeof) msg.length (some data)).examined =
        msg :: s.examined ∧
      (s.onBody lib run (msg.take MessageHeader.sizeof) msg.length (some data)).pending = none := by
  have hb := body_of_command hc hm
  refine ⟨congrArg (· :: s.examined) hb, ?_⟩
  show (if s.pending = some _ then none else s.pending) = none
  rw [hb, if_pos hp]

theorem lost_onBody (m : Bytes) (msgSize : Nat) (data : Option Mem) :
    (s.onBody lib run m msgSize data).lost = s.lost := by
  unfold onBody
  dsimp only
  split <;> rfl

end Slot

section Run

variable {lib : Libraries} {run : Running} {s s' : Shared}

theorem Waiting.commandSafe (h : Waiting run s) : CommandSafe lib run s where
  lost := h.lost
  next msg hp := by
    obtain ⟨hc, hl, hm, hpoint⟩ := h.pending msg hp
    rcases hpoint with hpoint | hpoint | hpoint
    · refine .inl ⟨hpoint, fun found s' hs => ?_⟩
      obtain ⟨-, rfl⟩ := step_readHeader hs
      rw [onHeader_of_command hc hl hm]
      exact ⟨rfl, hp⟩
    · refine .inr (.inl ⟨hpoint, fun data s' hs => ?_⟩)
      obtain ⟨m, n, hb, rfl⟩ := step_readBody hs
      cases hpoint.symm.trans hb
      exact onBody_of_command hc hm hp data
    · exact .inr (.inr hpoint)

/-- A step that leaves the slot and what is pending, with the thread still on its way. -/
theorem Waiting.frame (h : Waiting run s) (hlost : s'.lost = s.lost)
    (hp : s'.pending = s.pending) (hm : s'.mem = s.mem)
    (hpoint : ∀ msg, s.pending = some msg → s'.loop.point = .header ∨
      s'.loop.point = .body (msg.take MessageHeader.sizeof) msg.length ∨
      s'.loop.point = .ended) : Waiting run s' where
  lost := hlost.trans h.lost
  pending msg hs := by
    rw [hp] at hs
    obtain ⟨hc, hl, hread, -⟩ := h.pending msg hs
    exact ⟨hc, hl, hm ▸ hread, hpoint msg hs⟩

theorem Waiting.ofNone (hlost : s'.lost = false) (hp : s'.pending = none) : Waiting run s' where
  lost := hlost
  pending msg hs := by rw [hp] at hs; cases hs

theorem waiting_readHeader {found : Found} (h : Waiting run s)
    (hs : s.step lib run (.readHeader found) = some s') : Waiting run s' := by
  obtain ⟨-, rfl⟩ := step_readHeader hs
  refine h.frame rfl rfl rfl fun msg hp => ?_
  obtain ⟨hc, hl, hm, -⟩ := h.pending msg hp
  exact .inr (.inl (congrArg Loop.point (onHeader_of_command hc hl hm found)))

theorem waiting_readBody {data : Option Mem} (h : Waiting run s)
    (hs : s.step lib run (.readBody data) = some s') : Waiting run s' := by
  obtain ⟨m, n, hb, rfl⟩ := step_readBody hs
  cases data with
  | none => exact h.frame rfl rfl rfl fun _ _ => .inl rfl
  | some d =>
    cases hp : s.pending with
    | none =>
      refine .ofNone ((lost_onBody _ _ _).trans h.lost) ?_
      show (if s.pending = some _ then none else s.pending) = none
      rw [hp]
      rfl
    | some msg =>
      obtain ⟨hc, -, hm, hpoint⟩ := h.pending msg hp
      rw [hb] at hpoint
      obtain ⟨rfl, rfl⟩ : m = msg.take MessageHeader.sizeof ∧ n = msg.length := by
        simpa using hpoint
      exact .ofNone ((lost_onBody _ _ _).trans h.lost) (onBody_of_command hc hm hp d).2

theorem waiting_write {reset : Bool} (h : Waiting run s)
    (hs : s.step lib run (.write reset) = some s') : Waiting run s' := by
  have hn : s.pending = none := by
    cases hp : s.pending with
    | none => rfl
    | some msg =>
      obtain ⟨-, -, -, hpoint⟩ := h.pending msg hp
      rcases step_write hs with ⟨kind, bs, hw, -⟩ | ⟨hw, -⟩ | ⟨bs, hw, -⟩ <;>
        rw [hw] at hpoint <;> simp at hpoint
  have hlost (loop : Loop) : (s.onWrite run loop).lost = false := by
    show (s.lost || s.pending.isSome) = false
    rw [h.lost, hn]
    rfl
  rcases step_write hs with ⟨kind, bs, -, rfl⟩ | ⟨-, rfl⟩ | ⟨bs, -, rfl⟩
  · exact .ofNone (hlost _) hn
  · exact .ofNone (hlost _) hn
  · exact .ofNone (hlost _) hn

theorem waiting_telnet {line : Bytes} (h : Waiting run s)
    (hs : s.step lib run (.telnet line) = some s') : Waiting run s' := by
  obtain ⟨loop, hl, rfl⟩ := Option.map_eq_some_iff.mp hs
  cases hp : s.loop.point <;> simp only [Daemon.step, hp] at hl <;> cases hl
  refine h.frame rfl rfl rfl fun _ _ => ?_
  rcases onTelnet_cases lib s.loop line with ⟨set, he⟩ | ⟨set, -, he⟩ | he
  · exact .inl ((congrArg Loop.point he).trans hp)
  · exact .inl ((congrArg Loop.point he).trans hp)
  · exact .inr (.inr (congrArg Loop.point he))

/-- Management takes no message from where a command waits. -/
theorem waiting_take (h : Waiting run s) (hs : s.step lib run .take = some s') :
    Waiting run s' := by
  obtain ⟨hd, rfl⟩ := step_take hs
  cases hp : s.pending with
  | none => exact .ofNone h.lost hp
  | some msg =>
    obtain ⟨hc, -, hm, -⟩ := h.pending msg hp
    rw [(header_of_command hc hm).1] at hd
    exact absurd hd (by decide)

/-- **A timely step keeps the command.** -/
theorem waiting_step {a : Access} (h : Waiting run s) (ht : Timely s a)
    (hs : s.step lib run a = some s') : Waiting run s' := by
  cases a with
  | readHeader found => exact waiting_readHeader h hs
  | readBody data => exact waiting_readBody h hs
  | write reset => exact waiting_write h hs
  | telnet line => exact waiting_telnet h hs
  | take => exact waiting_take h hs
  | reset =>
    obtain ⟨loop, hl, rfl⟩ := Option.map_eq_some_iff.mp hs
    cases hp : s.loop.point <;> simp only [Daemon.step, hp] at hl <;> cases hl
    exact h.frame rfl rfl rfl fun _ _ => .inl hp
  | quit buffer =>
    obtain ⟨loop, -, rfl⟩ := Option.map_eq_some_iff.mp hs
    exact .ofNone h.lost (ht.quit buffer rfl)
  | command msg =>
    simp only [step] at hs
    split at hs
    · next hmay =>
      cases hs
      refine ⟨h.lost, fun msg' hp => ?_⟩
      cases hp
      exact ⟨hmay.1, hmay.2.1, Mem.read_write_self _ _ _, .inl (ht.command msg rfl)⟩
    · cases hs

/-- **Commands that are written between two rounds are read.** -/
theorem commandSafe_of_timely (mem : Mem) {as : List Access}
    (h : Along (step lib run) Timely (start mem run) as) :
    Always (step lib run) (CommandSafe lib run) (start mem run) as :=
  (Along.always (fun _ _ _ hI ht hs => waiting_step hI ht hs) (.ofNone rfl rfl) h).mono
    fun _ hI => hI.commandSafe

end Run

def sampleCommand : Bytes := [3, 0, 204, 0] ++ List.replicate 200 0

/-- A command in an empty slot is read. -/
theorem commandSafe_of_timely_sample :
    ∃ run, Daemon.start .sample (.sample 1 0 1) = some run ∧
      Always (step .sample run) (CommandSafe .sample run) (start (fun _ => 0) run)
        [.command sampleCommand, .readHeader .sample, .readBody (some fun _ => 0)] := by
  refine ⟨_, rfl, commandSafe_of_timely _ ?_⟩
  refine ⟨⟨fun _ _ => rfl, nofun⟩, fun s _ => ⟨⟨nofun, nofun⟩, fun t _ => ?_⟩⟩
  exact ⟨⟨nofun, nofun⟩, fun _ _ => trivial⟩

set_option maxRecDepth 4000 in
/-- Between the header and the write that follows it a command is overwritten; and so it is when the
daemon quits. -/
theorem command_overwritten :
    ∃ run, Daemon.start .sample (.sample 1 0 1) = some run ∧
      (∃ s, exec (step .sample run) (start (fun _ => 0) run)
        [.readHeader .sample, .command sampleCommand, .write false] = some s ∧ s.lost = true) ∧
      ∃ s, exec (step .sample run) (start (fun _ => 0) run)
        [.command sampleCommand, .quit fun _ => 0, .write false] = some s ∧ s.lost = true := by
  exact ⟨_, rfl, ⟨_, rfl, rfl⟩, ⟨_, rfl, rfl⟩⟩

end Shared

end Daemon

end RecsDaemon
