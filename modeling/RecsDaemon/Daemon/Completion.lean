import RecsDaemon.Daemon.Management
import RecsDaemon.Base.Fair

/-!
# The hand-over ends

A header in the slot that says more than the segment holds is ignored for ever.
Where there is none the hand-over is never stuck: if the daemon and management
each get their turn again and again, management comes to know all sensors
(`handover_completes`).
-/

namespace RecsDaemon

open Base Json

namespace Daemon

/-- What brings the hand-over on: the daemon reads a header or writes, or management takes. -/
inductive Turn where
  | read
  | write
  | take

def Turn.Has : Turn → Access → Prop
  | .read, .readHeader _ => True
  | .write, .write reset => reset = false
  | .take, .take => True
  | _, _ => False

/-- Whose turn it is. -/
def turn (run : Running) (s : Shared) : Turn :=
  if isDescriptive (s.header run).type ∧ s.loop.mFirstWriteDone then .take
  else
    match s.loop.point with
    | .write _ _ => .write
    | _ => .read

def Point.pending : Point → Nat
  | .write _ _ => 1
  | _ => 0

def progress (s : Shared) : Nat :=
  2 * (announced s.loop.trace).length + s.taken.length + s.loop.point.pending

theorem announced_afterWrite (s : Loop) (kind : Kind) (bs : Bytes) :
    announced ((s.emit (.message kind bs)).afterWrite kind).trace = announced s.trace ++ [kind] := by
  rw [(afterWrite_frame kind _).1]
  exact announced_message kind bs s.trace

theorem Announcing.compose_ok {lib : Libraries} {run : Running} {k : Nat} {s : Loop}
    (h : Announcing lib run s) (hm : s.sensors.mSensorMap = run.sensors.mSensorMap)
    (hf : SensorSet.Fits run.sensors run.segment.messageMaxSize k)
    (hlt : (announced s.trace).length < (script (numberOfPages lib run (Loop.start run))).length)
    (found : Found) : ∃ set kind bs, s.compose lib run found = .ok (set, kind, bs) := by
  have hp := h.progress
  have hpages : numberOfPages lib run s = numberOfPages lib run (Loop.start run) :=
    numberOfPages_congr hm
  unfold Progress at hp
  rw [hpages] at hp
  unfold Loop.compose
  cases hs : s.mState with
  | basicInformation => exact ⟨_, _, _, rfl⟩
  | monitoringDescription =>
    rw [hs] at hp
    obtain ⟨i, hi, hpage, -⟩ := hp
    rw [numberOfPages_start hf, SensorSet.pagesOf, ← hm] at hi
    have hget := SensorSet.getDescriptionPage_eq (hf.of_map hm) lib.platform
      s.sensors.mKnownGroups hi
    rw [← hpage] at hget
    dsimp only
    rw [hget]
    exact ⟨_, _, _, rfl⟩
  | monitoringData =>
    rw [hs] at hp
    obtain ⟨n, ha⟩ := hp
    rw [ha, List.length_append] at hlt
    omega

section Going

variable (lib : Libraries) (run : Running)

def Complete (s : Shared) : Prop :=
  List.Forall₂ (Genuine lib run run.sensors.mSensorMap)
    (script (numberOfPages lib run (Loop.start run))) s.taken

/-- The hand-over goes on: the header in the slot is one the daemon heeds, and only data can end the
loop. -/
structure Going (s : Shared) (m : Mailbox Kind) : Prop where
  handing : Handing lib run s m
  sized : Sized lib run s.loop
  fits : (s.header run).size.toNat ≤ run.segment.messageMaxSize
  result : s.loop.mFirstWriteDone → (s.header run).type ≠ MessageType.commandResult.code
  ended : s.loop.point = .ended → m.todo = [] ∧ m.box = none

variable {lib run} {s s' : Shared} {m : Mailbox Kind} {k : Nat}

theorem Going.left (h : Going lib run s m) (hc : ¬ Complete lib run s) :
    m.todo ≠ [] ∨ m.box ≠ none := by
  by_contra hn
  rw [not_or, not_not, not_not] at hn
  have hcontent := h.handing.content
  rw [Mailbox.content, hn.1, hn.2, Option.toList_none, List.append_nil, List.append_nil] at hcontent
  refine hc ?_
  rw [Complete, ← hcontent]
  exact h.handing.taken

theorem Going.lengths (h : Going lib run s m) (hleft : m.todo ≠ [] ∨ m.box ≠ none) :
    announced s.loop.trace = m.got ++ m.box.toList ∧ s.taken.length = m.got.length ∧
      m.got.length + m.box.toList.length + m.todo.length =
        (script (numberOfPages lib run (Loop.start run))).length := by
  obtain ⟨n, hsent, hrest⟩ := h.handing.sent
  have hn : n = 0 := by
    by_contra hn
    obtain ⟨ht, hb⟩ := hrest (Nat.pos_of_ne_zero hn)
    exact hleft.elim (· ht) (· hb)
  subst hn
  rw [List.replicate_zero, List.append_nil] at hsent
  refine ⟨hsent, h.handing.taken.length_eq.symm, ?_⟩
  rw [← h.handing.content, Mailbox.content, List.length_append, List.length_append]

theorem Going.progress_lt (h : Going lib run s m) (hleft : m.todo ≠ [] ∨ m.box ≠ none) :
    progress s < 3 * (script (numberOfPages lib run (Loop.start run))).length := by
  obtain ⟨hann, htaken, hlen⟩ := h.lengths hleft
  rw [progress, hann, htaken, List.length_append]
  have hpending : s.loop.point.pending ≤ 1 := by
    unfold Point.pending
    split <;> omega
  cases hbox : m.box with
  | none =>
    rw [hbox] at hlen
    have htodo := List.length_pos_of_ne_nil (hleft.resolve_right (not_not.mpr hbox))
    simp only [Option.toList_none, List.length_nil] at hlen ⊢
    omega
  | some kind =>
    have hp : s.loop.point.pending = 0 := by
      unfold Point.pending
      split
      · next k bs hw =>
        have hfree := h.handing.free k bs hw
        rw [hbox] at hfree
        cases hfree
      · rfl
    rw [hbox] at hlen
    simp only [Option.toList_some, List.length_singleton] at hlen ⊢
    omega

/-! ## Headers -/

theorem size_of_genuine (hr : Ready lib run k) {kind : Kind} {bs : Bytes}
    (hg : Genuine lib run run.sensors.mSensorMap kind bs)
    (hd : kind = .data → Measured lib run bs) (mem : Mem) (off : Nat) :
    (MessageHeader.ofMem (mem.write off bs) off).size.toNat ≤ run.segment.messageMaxSize := by
  have hle := hr.size_le
  have hmax := hr.messageMaxSize_lt
  by_cases hdata : kind = .data
  · obtain ⟨set, set', inputs, hm, hI, hget, rfl⟩ := hd hdata
    have hmSize : set.mSize = run.sensorSize := by
      rw [hI.size_eq, hr.size_eq, SensorSet.totalDataSize, SensorSet.totalDataSize, hm]
    obtain ⟨hs, -, -⟩ := SensorSet.read_message hI hget
    rw [(SensorSet.getMessage_mData hget).1, hmSize] at hs
    have h7 : 7 ≤ run.sensorSize := by
      rw [hr.size_eq]
      exact Nat.le_add_right _ _
    have hread := Shared.read_part (Mem.read_write_self mem off (set'.mData.read 0 run.sensorSize))
      (i := 1) (n := 2) (by rw [Mem.length_read]; omega)
    show (UInt16.ofNat (ofBE _)).toNat ≤ _
    rw [hread, hs, UInt16.toNat_ofNat']
    omega
  · have hlen : bs.length ≤ run.segment.messageMaxSize := by
      cases kind with
      | basicInformation =>
        obtain ⟨hl, -⟩ := hg
        rw [hl]
        exact hr.block
      | page p maxPages =>
        obtain ⟨set, page, buffer, -, -, rfl, hp⟩ := hg
        rw [SensorSet.length_bytes]
        exact SensorSet.size_le_of_ok (le_trans (by decide) hr.block) (by omega) hp
      | data => exact absurd rfl hdata
    rw [(Shared.header_of_message (isMessage_of_genuine hr.block hg hdata) (Mem.read_write_self _ _ _)).2]
    exact hlen

theorem header_onTake (run : Running) (s : Shared) : ((s.onTake run).header run).type = MessageType.empty.code ∧
    ((s.onTake run).header run).size = (s.header run).size := by
  refine ⟨Mem.write_inside s.mem run.segment.messageOffset [MessageType.empty.code] (i := 0)
    (by decide), ?_⟩
  show UInt16.ofNat (ofBE (Mem.read (s.mem.write _ _) _ 2)) = _
  rw [Mem.read_write_of_disjoint (.inr (by simp))]
  rfl

/-! ## Making a message -/

theorem Going.onHeader_eq (h : Going lib run s m) (hbox : m.box = none) (found : Found) :
    s.loop.onHeader lib run (s.headerReply run) found = s.loop.writeNext lib run found := by
  have hreply : ¬ (Loop.isReply (s.header run).type ∧ s.loop.mFirstWriteDone) := by
    rintro ⟨hr, hf⟩
    have hd := h.handing.empty hbox hf
    have hres := h.result hf
    simp only [Loop.isReply, Bool.or_eq_true, decide_eq_true_eq] at hr
    simp only [isDescriptive, Bool.or_eq_false_iff, decide_eq_false_iff_not] at hd
    rcases hr with (hr | hr) | hr
    · exact hd.1 hr
    · exact hd.2 hr
    · exact hres hr
  have htaken : (s.headerReply run).taken = true := rfl
  simp only [Loop.onHeader, Shared.header_headerReply]
  rw [if_pos htaken, if_pos h.fits, if_neg h.handing.command, if_neg hreply]

theorem Going.compose_ok (h : Going lib run s m)
    (hf : SensorSet.Fits run.sensors run.segment.messageMaxSize k) (htodo : m.todo ≠ [])
    (found : Found) : ∃ set kind bs, s.loop.compose lib run found = .ok (set, kind, bs) := by
  obtain ⟨hann, -, hlen⟩ := h.lengths (.inl htodo)
  have hpos := List.length_pos_of_ne_nil htodo
  refine h.handing.announcing.compose_ok h.handing.map hf ?_ found
  rw [hann, List.length_append]
  omega

/-! ## Whose turn it is -/

/-- The box is the slot: management can take what was written. -/
theorem Going.box_iff (h : Going lib run s m) (hr : Ready lib run k) :
    m.box ≠ none ↔ isDescriptive (s.header run).type ∧ s.loop.mFirstWriteDone := by
  constructor
  · intro hbox
    obtain ⟨kind, hk⟩ := Option.ne_none_iff_exists'.mp hbox
    obtain ⟨hd, bs, -, -, ht, -⟩ := h.handing.header_of_full hr.block hk
    refine ⟨?_, ?_⟩
    · rw [ht]
      cases kind with
      | basicInformation => rfl
      | page p maxPages => rfl
      | data => exact absurd rfl hd
    · cases hf : s.loop.mFirstWriteDone with
      | true => rfl
      | false => exact absurd (h.handing.first hf) hbox
  · rintro ⟨hd, hf⟩ hbox
    rw [h.handing.empty hbox hf] at hd
    cases hd

theorem Going.onHeader_full (h : Going lib run s m) (hr : Ready lib run k) (hbox : m.box ≠ none)
    (found : Found) : s.loop.onHeader lib run (s.headerReply run) found = s.loop := by
  obtain ⟨hd, hf⟩ := (h.box_iff hr).mp hbox
  have hreply : Loop.isReply (s.header run).type := by
    rw [Loop.isReply]
    exact Bool.or_eq_true_iff.mpr (.inl hd)
  have htaken : (s.headerReply run).taken = true := rfl
  simp only [Loop.onHeader, Shared.header_headerReply]
  rw [if_pos htaken, if_pos h.fits, if_neg h.handing.command, if_pos ⟨hreply, hf⟩]

/-! ## Steps -/

theorem going_readHeader {found : Found} (h : Going lib run s m) (hr : Ready lib run k)
    (hs : s.step lib run (.readHeader found) = some s') : Going lib run s' m := by
  have hz := sized_step h.sized (a := .readHeader found) trivial hs
  have hh := handing_readHeader h.handing hr.block hs
  obtain ⟨-, rfl⟩ := Shared.step_readHeader hs
  by_cases hbox : m.box = none
  swap
  · rw [h.onHeader_full hr hbox]
    exact h
  rw [h.onHeader_eq hbox] at hh hz ⊢
  rcases writeNext_cases lib run s.loop found with ⟨set, kind, bs, -, he⟩ | he
  · rw [he] at hh hz ⊢
    exact ⟨hh, hz, h.fits, h.result, nofun⟩
  · refine ⟨hh, hz, h.fits, by rw [he]; exact h.result, fun _ => ⟨?_, hbox⟩⟩
    -- a description that is missing could have been made
    by_contra htodo
    obtain ⟨set, kind, bs, hc⟩ := h.compose_ok hr.fits htodo found
    rw [Loop.writeNext, hc] at he
    cases congrArg Loop.point he

theorem going_write (h : Going lib run s m) (hr : Ready lib run k)
    (hs : s.step lib run (.write false) = some s') :
    ∃ m', Relation.ReflTransGen Mailbox.Next m m' ∧ Going lib run s' m' := by
  have hz := sized_step h.sized (a := .write false) rfl hs
  obtain ⟨m', hnext, hh⟩ := handing_write h.handing hr.block hr.one_le hr.pages hs
  rcases Shared.step_write hs with ⟨kind, bs, hw, rfl⟩ | ⟨hw, -⟩ | ⟨bs, hw, -⟩
  · have hg : Genuine lib run run.sensors.mSensorMap kind bs := by
      rw [← h.handing.map]; exact (h.handing.announcing.asked kind bs hw).2
    have hmem (loop : Loop) : (s.onWrite run loop).mem = s.mem.write run.segment.messageOffset bs := by
      show s.mem.write _ s.loop.point.bytes = _
      rw [hw]
      rfl
    refine ⟨m', hnext, hh, hz, ?_, fun _ => ?_, nofun⟩
    · rw [Shared.header, hmem]
      exact size_of_genuine hr hg (fun hd => h.sized.asked bs (by rw [hw, hd])) _ _
    · rw [Shared.header, hmem, header_of_genuine hr.block hr.one_le hg]
      exact fun e => by cases kind <;> cases MessageType.code_injective e
  · have hp := h.handing.point
    rw [hw] at hp
    exact hp.elim
  · have hp := h.handing.point
    rw [hw] at hp
    exact hp.elim

theorem going_take (h : Going lib run s m) (hr : Ready lib run k)
    (hs : s.step lib run .take = some s') :
    ∃ m', Relation.ReflTransGen Mailbox.Next m m' ∧ Going lib run s' m' := by
  obtain ⟨m', hnext, hh⟩ := handing_take h.handing hr.block hs
  obtain ⟨-, rfl⟩ := Shared.step_take hs
  refine ⟨m', hnext, hh, h.sized, ?_, fun _ => ?_, fun hended => ?_⟩
  · rw [(header_onTake run s).2]
    exact h.fits
  · rw [(header_onTake run s).1]
    decide
  · obtain ⟨htodo, hbox⟩ := h.ended hended
    rw [Mailbox.eq_of_done htodo hbox hnext]
    exact ⟨htodo, hbox⟩

/-- **The hand-over goes on.** -/
theorem going_step {a : Access} (h : Going lib run s m) (hr : Ready lib run k) (ha : a.IsHandover)
    (hs : s.step lib run a = some s') :
    ∃ m', Relation.ReflTransGen Mailbox.Next m m' ∧ Going lib run s' m' := by
  cases a with
  | readHeader found => exact ⟨m, .refl, going_readHeader h hr hs⟩
  | write reset =>
    obtain rfl : reset = false := ha
    exact going_write h hr hs
  | take => exact going_take h hr hs
  | _ => exact ha.elim

/-! ## Turns -/

/-- How far management is from having all. -/
def distance (lib : Libraries) (run : Running) (s : Shared) : Nat :=
  3 * (script (numberOfPages lib run (Loop.start run))).length - progress s

theorem Going.distance_lt (h : Going lib run s m) (hc : ¬ Complete lib run s)
    (hp : progress s < progress s') : distance lib run s' < distance lib run s := by
  have hlt := h.progress_lt (h.left hc)
  unfold distance
  omega

theorem turn_of_free (hf : ¬ (isDescriptive (s.header run).type ∧ s.loop.mFirstWriteDone)) :
    turn run s = match s.loop.point with
      | .write _ _ => .write
      | _ => .read := by
  rw [turn, if_neg hf]

theorem Going.read_helps {found : Found} (h : Going lib run s m) (hr : Ready lib run k)
    (hc : ¬ Complete lib run s) (hs : s.step lib run (.readHeader found) = some s') :
    distance lib run s' < distance lib run s ∨ (¬ (turn run s).Has (.readHeader found) ∧ s' = s) := by
  obtain ⟨hpoint, rfl⟩ := Shared.step_readHeader hs
  by_cases hbox : m.box = none
  swap
  · rw [h.onHeader_full hr hbox, turn, if_pos ((h.box_iff hr).mp hbox)]
    exact .inr ⟨id, rfl⟩
  obtain ⟨set, kind, bs, hcompose⟩ :=
    h.compose_ok hr.fits ((h.left hc).resolve_right (not_not.mpr hbox)) found
  refine .inl (h.distance_lt hc ?_)
  rw [h.onHeader_eq hbox, Loop.writeNext, hcompose, progress, progress, hpoint]
  exact Nat.lt_succ_self _

/-- A write is a message more. -/
theorem Going.write_helps (h : Going lib run s m) (hc : ¬ Complete lib run s)
    (hs : s.step lib run (.write false) = some s') : distance lib run s' < distance lib run s := by
  refine h.distance_lt hc ?_
  rcases Shared.step_write hs with ⟨kind, bs, hw, rfl⟩ | ⟨hw, -⟩ | ⟨bs, hw, -⟩
  · show _ < 2 * (announced ((s.loop.emit (.message kind bs)).afterWrite kind).trace).length +
      s.taken.length + 0
    rw [progress, announced_afterWrite, hw, List.length_append]
    simp only [Point.pending, List.length_singleton]
    omega
  · have hp := h.handing.point
    rw [hw] at hp
    exact hp.elim
  · have hp := h.handing.point
    rw [hw] at hp
    exact hp.elim

theorem Going.take_helps (h : Going lib run s m) (hc : ¬ Complete lib run s)
    (hs : s.step lib run .take = some s') :
    distance lib run s' < distance lib run s ∨ (¬ (turn run s).Has .take ∧
      distance lib run s' = distance lib run s ∧ turn run s' = turn run s) := by
  obtain ⟨hd, rfl⟩ := Shared.step_take hs
  by_cases hf : s.loop.mFirstWriteDone
  · refine .inl (h.distance_lt hc ?_)
    have htaken : (s.onTake run).taken.length = s.taken.length + 1 := by
      show (if s.loop.mFirstWriteDone then _ else _ : List Bytes).length = _
      rw [if_pos hf, List.length_append, List.length_singleton]
    rw [progress, progress, htaken]
    show _ < 2 * (announced s.loop.trace).length + _ + s.loop.point.pending
    omega
  · have htaken : (s.onTake run).taken = s.taken := if_neg hf
    have hfree : ¬ (isDescriptive (s.header run).type ∧ s.loop.mFirstWriteDone) := fun h => hf h.2
    have hfree' : ¬ (isDescriptive ((s.onTake run).header run).type ∧
        (s.onTake run).loop.mFirstWriteDone) := fun h => hf h.2
    rw [turn_of_free hfree, turn_of_free hfree']
    refine .inr ⟨?_, ?_, rfl⟩
    · split <;> exact id
    · rw [distance, distance, progress, progress, htaken]
      rfl

theorem Going.enabled (h : Going lib run s m) (hc : ¬ Complete lib run s) :
    Schedule.Enabled (Shared.step lib run) (turn run s).Has s := by
  by_cases hfull : isDescriptive (s.header run).type ∧ s.loop.mFirstWriteDone
  · rw [turn, if_pos hfull]
    exact ⟨.take, _, trivial, if_pos hfull.1⟩
  rw [turn_of_free hfull]
  have hpoint := h.handing.point
  cases hp : s.loop.point with
  | header =>
    have hs : s.step lib run (.readHeader .sample) =
        some { s with loop := s.loop.onHeader lib run (s.headerReply run) .sample } := by
      simp only [Shared.step, Daemon.step, hp]
      rfl
    show Schedule.Enabled _ (Turn.Has .read) s
    exact ⟨.readHeader .sample, _, trivial, hs⟩
  | write kind bs =>
    have hs : s.step lib run (.write false) = some (s.onWrite run
        (((s.loop.onWrite (.message kind bs) false).afterWrite kind).goto .header)) := by
      simp only [Shared.step, Daemon.step, hp]
      rfl
    show Schedule.Enabled _ (Turn.Has .write) s
    exact ⟨.write false, _, rfl, hs⟩
  | ended =>
    obtain ⟨htodo, hbox⟩ := h.ended hp
    exact absurd hbox ((h.left hc).resolve_left (not_not.mpr htodo))
  | body msg msgSize => rw [hp] at hpoint; exact hpoint.elim
  | clear => rw [hp] at hpoint; exact hpoint.elim
  | last bs => rw [hp] at hpoint; exact hpoint.elim

theorem Going.complete_step {a : Access} (h : Going lib run s m) (hr : Ready lib run k)
    (hc : Complete lib run s) (ha : a.IsHandover) (hs : s.step lib run a = some s') :
    Complete lib run s' := by
  cases a with
  | readHeader found =>
    obtain ⟨-, rfl⟩ := Shared.step_readHeader hs
    exact hc
  | write reset =>
    rcases Shared.step_write hs with ⟨kind, bs, -, rfl⟩ | ⟨-, rfl⟩ | ⟨bs, -, rfl⟩
    · exact hc
    · exact hc
    · exact hc
  | take =>
    obtain ⟨hd, rfl⟩ := Shared.step_take hs
    have hf : ¬ s.loop.mFirstWriteDone := by
      intro hf
      have hbox := (h.box_iff hr).mpr ⟨hd, hf⟩
      obtain ⟨-, htaken, hlen⟩ := h.lengths (.inr hbox)
      obtain ⟨kind, hk⟩ := Option.ne_none_iff_exists'.mp hbox
      have hall := hc.length_eq
      rw [hk, Option.toList_some, List.length_singleton] at hlen
      omega
    have htaken : (s.onTake run).taken = s.taken := if_neg hf
    rw [Complete, htaken]
    exact hc
  | _ => exact ha.elim

end Going

section Completion

variable {lib : Libraries} {run : Running} {s s' : Shared} {k : Nat}

/-- The hand-over as far as it has come. -/
def Underway (lib : Libraries) (run : Running) (s : Shared) : Prop :=
  ∃ m, Relation.ReflTransGen Mailbox.Next
    (.start (script (numberOfPages lib run (Loop.start run)))) m ∧ Going lib run s m

theorem underway_start (hr : Ready lib run k) {mem : Mem}
    (hm : (MessageHeader.ofMem mem run.segment.messageOffset).type ≠ MessageType.command.code)
    (hsize : (MessageHeader.ofMem mem run.segment.messageOffset).size.toNat ≤
      run.segment.messageMaxSize) : Underway lib run (.start mem run) :=
  ⟨_, .refl, handing_start hm, hr.sized, hsize, nofun, nofun⟩

theorem underway_step (hr : Ready lib run k) {a : Access} (h : Underway lib run s)
    (ha : a.IsHandover) (hs : s.step lib run a = some s') : Underway lib run s' := by
  obtain ⟨m, hm, hgoing⟩ := h
  obtain ⟨m', hnext, hgoing'⟩ := going_step hgoing hr ha hs
  exact ⟨m', hm.trans hnext, hgoing'⟩

/-- **Every step helps, or leaves the turn as it is.** -/
theorem underway_helps (hr : Ready lib run k) : Schedule.Helps (Shared.step lib run)
    Access.IsHandover (Underway lib run) (Complete lib run) Turn.Has (distance lib run)
    (turn run) := by
  intro s a s' hI hc ha hs
  obtain ⟨m, -, h⟩ := hI
  refine .inr ?_
  cases a with
  | readHeader found =>
    rcases h.read_helps hr hc hs with hlt | ⟨hno, rfl⟩
    · exact .inl hlt
    · exact .inr ⟨hno, rfl, rfl⟩
  | write reset =>
    obtain rfl : reset = false := ha
    exact .inl (h.write_helps hc hs)
  | take => exact h.take_helps hc hs
  | _ => exact ha.elim

/-- Who has all messages knows all sensors. -/
theorem Underway.informed (h : Underway lib run s) (hr : Ready lib run k)
    (hc : Complete lib run s) : ∃ decoded, Informed run k s decoded ∧
      (decoded.map Prod.snd).flatten.map SensorSet.ungrouped =
        run.sensors.sensors.map fun ns => SensorSet.sensorDescription ns.1 ns.2 0 := by
  obtain ⟨m, hrun, hgoing⟩ := h
  obtain ⟨decoded, hi⟩ := (hgoing.handing.handedOver hrun).informed hr hgoing.sized
  refine ⟨decoded, hi, ungrouped_of_all hr.fits hi.listed ?_⟩
  have hlen := congrArg List.length hi.pages
  have hall := hc.length_eq
  rw [List.length_map, List.length_map, List.length_drop] at hlen
  rw [script, List.length_cons, firstPages, SensorSet.pageNumbers, List.length_map, List.length_map,
    List.length_range, numberOfPages_start hr.fits] at hall
  omega

/-! ## A slot with too long a message -/

/-- The daemon has done nothing, and will not. -/
structure Refused (run : Running) (s : Shared) : Prop where
  size : run.segment.messageMaxSize < (s.header run).size.toNat
  point : s.loop.point = .header
  first : s.loop.mFirstWriteDone = false
  taken : s.taken = []

theorem refused_step {a : Access} (h : Refused run s) (ha : a.IsHandover)
    (hs : s.step lib run a = some s') : Refused run s' := by
  cases a with
  | readHeader found =>
    obtain ⟨-, rfl⟩ := Shared.step_readHeader hs
    have hignored : s.loop.onHeader lib run (s.headerReply run) found = s.loop := by
      have htaken : (s.headerReply run).taken = true := rfl
      simp only [Loop.onHeader, Shared.header_headerReply]
      rw [if_pos htaken, if_neg (Nat.not_le.mpr h.size)]
    rw [hignored]
    exact h
  | write reset =>
    rcases Shared.step_write hs with ⟨kind, bs, hw, -⟩ | ⟨hw, -⟩ | ⟨bs, hw, -⟩
    · cases h.point.symm.trans hw
    · cases h.point.symm.trans hw
    · cases h.point.symm.trans hw
  | take =>
    obtain ⟨-, rfl⟩ := Shared.step_take hs
    have htaken : (s.onTake run).taken = s.taken := if_neg (by rw [h.first]; decide)
    refine ⟨?_, h.point, h.first, htaken.trans h.taken⟩
    rw [(header_onTake run s).2]
    exact h.size
  | _ => exact ha.elim

theorem Refused.not_complete (h : Refused run s) : ¬ Complete lib run s := by
  rw [Complete, h.taken]
  nofun

end Completion

/-- Nothing happens any more where the loop has ended and the slot is free. -/
theorem not_enabled_of_ended {lib : Libraries} {run : Running} {s : Shared}
    (hp : s.loop.point = .ended) (hd : isDescriptive (s.header run).type = false) (t : Turn) :
    ¬ Schedule.Enabled (Shared.step lib run) t.Has s := by
  rintro ⟨a, s', ha, hs⟩
  cases a with
  | readHeader found => cases hp.symm.trans (Shared.step_readHeader hs).1
  | write reset =>
    rcases Shared.step_write hs with ⟨kind, bs, hw, -⟩ | ⟨hw, -⟩ | ⟨bs, hw, -⟩
    · cases hp.symm.trans hw
    · cases hp.symm.trans hw
    · cases hp.symm.trans hw
  | take => cases hd.symm.trans (Shared.step_take hs).1
  | _ => cases t <;> exact ha.elim

/-- The JSON library on the sample texts, and on a text of an object. -/
def Libraries.object : Libraries where
  checkSignature _ _ := true
  deserialize text :=
    if text = ascii "\x7b\"t\": 7\x7d" then .ok (.object [(ascii "t", .int 7)])
    else JSONSensorsParser.sampleDeserialize text
  platform := .x86

/-- A daemon with the sensor of a JSON plugin. -/
def Startup.object : Startup :=
  { Startup.sample 1 0 0 with
    sensors := { SensorsConfig.sample 0 with jsonSensorProviders := ascii "j" }
    factories := { Factories.sample with
      createJSONSensorProvider := fun _ => some JSONSensorsParser.sampleDescription } }

/-- The plugin's data is no array: making the message throws. -/
def Found.object : Found :=
  { Found.sample with inputs := { Inputs.zero with answer := fun _ => ascii "\x7b\"t\": 7\x7d" } }

/-- Basic information and one page, and then the data that ends the loop. -/
def objectAccesses : List Access :=
  [.readHeader .sample, .write false, .take, .readHeader .sample, .write false, .take,
    .readHeader .object]

end Daemon

end RecsDaemon
