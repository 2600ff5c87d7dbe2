import RecsDaemon.Daemon.SharedMemory
import RecsDaemon.Daemon.Statemachine
import RecsDaemon.Base.Mailbox

/-!
# The hand-over of descriptive messages

Without commands and resets the slot is a mailbox of one message: the daemon
writes the next message of its script only where the last one has been picked
up, so management gets them in order, each once, and data only after the last
page (`handover_in_order`).
-/

namespace RecsDaemon

open Base Json

namespace Daemon

def Kind.type : Kind → MessageType
  | .basicInformation => .basicInformation
  | .page _ _ => .monitoringDescription
  | .data => .monitoringData

theorem Kind.type_ne_command (kind : Kind) : kind.type ≠ .command := by
  cases kind <;> nofun

/-! ## The messages say what they are -/

section Messages

variable {lib : Libraries} {run : Running}

theorem isMessage_basicInformation {host : Node.HostInfo} {bufferSize : Nat} {m : Mem}
    (h : BasicInformationBlock.sizeof ≤ bufferSize) :
    IsMessage .basicInformation (Node.basicInformationBytes host bufferSize m) := by
  obtain ⟨hl, ht⟩ := @Node.basicInformationBytes_spec host bufferSize m h
  refine ⟨by rw [hl]; decide, ht, ?_⟩
  rw [hl]
  unfold Node.basicInformationBytes Node.getBasicInformationBlock
  rw [if_neg (Nat.not_lt.mpr h), Mem.slice_read _ (by dsimp only; decide), Mem.writeAll_cons,
    Mem.writeAll_cons, Mem.writeAll_nil, Mem.read_write_of_disjoint (.inl (by dsimp only; decide))]
  have hr := Mem.read_write_slice m 0 1 2
    (MessageType.basicInformation.code :: be 2 BasicInformationBlock.sizeof) (by decide)
  rw [Nat.zero_add] at hr
  rw [hr]
  rfl

theorem isMessage_page {set : SensorSet} {pf : Platform} {bufferSize : Nat} {page : UInt8}
    {p : SensorSet.Page} {m : Mem} (h : set.getDescriptionPage pf bufferSize page = .ok p) :
    IsMessage .monitoringDescription (p.bytes m) := by
  obtain ⟨ws, hdr, hw, htype, hsize⟩ := SensorSet.writes_of_ok h
  obtain ⟨-, onPage, -, hp⟩ := SensorSet.getDescriptionPage_ok h
  have h9 : 9 ≤ p.size := by
    rw [hp]; exact Nat.le_add_right _ _
  have hbytes : p.bytes m = ((m.writeAll ws).write 0 hdr.bytes).read 0 p.size := by
    rw [SensorSet.Page.bytes, hw, Mem.writeAll_append, Mem.writeAll_cons, Mem.writeAll_nil]
  have hlen := hdr.length_bytes
  refine ⟨?_, ?_, ?_⟩
  · rw [SensorSet.length_bytes]; exact Nat.le_trans (by decide) h9
  · obtain ⟨k, hk⟩ := Nat.exists_eq_add_of_le (show 1 ≤ p.size by omega)
    rw [hbytes, hk, Mem.read_add, Mem.read_write_prefix (by omega), ← htype]
    rfl
  · have hr := Mem.read_write_slice (m.writeAll ws) 0 1 2 hdr.bytes (by omega)
    rw [Nat.zero_add] at hr
    rw [SensorSet.length_bytes, hbytes, Mem.slice_read _ (by omega), hr, ← hsize]
    show ofBE (be 2 hdr.header.size.toNat) = _
    rw [ofBE_be_of_lt hdr.header.size.toNat_lt]

theorem head_data {set set' : SensorSet} {inputs : Inputs} {n : Nat} (hn : 1 ≤ n)
    (h : set.getMessage lib.deserialize inputs = .ok set') :
    (set'.mData.read 0 n).head? = some MessageType.monitoringData.code := by
  obtain ⟨-, hm⟩ := SensorSet.getMessage_mData h
  obtain ⟨k, rfl⟩ := Nat.exists_eq_add_of_le hn
  rw [Mem.read_add, hm, Mem.read_write_of_disjoint (.inl (by decide)), SensorSet.headerWrites,
    Mem.writeAll_cons, Mem.writeAll_cons, Mem.writeAll_nil,
    Mem.read_write_of_disjoint (.inl (by dsimp only; decide)), Mem.read_write_prefix (by simp)]
  rfl

theorem isMessage_of_genuine {map : SensorMap} {kind : Kind} {bs : Bytes}
    (hb : BasicInformationBlock.sizeof ≤ run.segment.messageMaxSize)
    (h : Genuine lib run map kind bs) (hk : kind ≠ .data) : IsMessage kind.type bs := by
  cases kind with
  | basicInformation =>
    obtain ⟨-, host, buffer, rfl⟩ := h
    exact isMessage_basicInformation hb
  | page p maxPages =>
    obtain ⟨set, page, buffer, -, -, rfl, hp⟩ := h
    exact isMessage_page hp
  | data => exact absurd rfl hk

theorem data_notMem_script (maxPages : UInt8) : Kind.data ∉ script maxPages := by
  simp [script, firstPages]

end Messages

/-! ## What may be sent next -/

section Next

variable {kinds : List Kind} {m : Mailbox Kind} {n : Nat} {kind : Kind}

theorem todo_of_descriptive (hc : m.content = kinds) (hb : m.box = none)
    (hd : Kind.data ∉ kinds) (hk : kind ≠ .data)
    (ho : m.got ++ List.replicate n Kind.data ++ [kind] <+: kinds ∨
      ∃ k, m.got ++ List.replicate n Kind.data ++ [kind] = kinds ++ List.replicate k Kind.data) :
    n = 0 ∧ ∃ todo, m.todo = kind :: todo := by
  have hp : m.got ++ List.replicate n Kind.data ++ [kind] <+: kinds := by
    rcases ho with ho | ⟨k, ho⟩
    · exact ho
    · cases k with
      | zero => rw [ho]; simp
      | succ k =>
        rw [List.replicate_succ', ← List.append_assoc] at ho
        exact absurd (List.cons.inj (List.append_inj' ho rfl).2).1 hk
  have hn : n = 0 := by
    by_contra hn
    refine hd (hp.subset ?_)
    simp [hn]
  subst hn
  refine ⟨rfl, ?_⟩
  rw [← hc, Mailbox.content, hb] at hp
  simp only [List.replicate_zero, List.append_nil, Option.toList_none] at hp
  obtain ⟨todo, ht⟩ := (List.prefix_append_right_inj _).mp hp
  exact ⟨todo, ht.symm⟩

/-- Data is in order only when everything was handed over. -/
theorem todo_of_data (hc : m.content = kinds) (hb : m.box = none) (hd : Kind.data ∉ kinds)
    (ho : m.got ++ List.replicate n Kind.data ++ [Kind.data] <+: kinds ∨
      ∃ k, m.got ++ List.replicate n Kind.data ++ [Kind.data] = kinds ++ List.replicate k Kind.data) :
    m.todo = [] := by
  rcases ho with ho | ⟨k, ho⟩
  · exact absurd (ho.subset (by simp)) hd
  · have hc' : kinds = m.got ++ m.todo := by
      rw [← hc, Mailbox.content, hb]; simp
    rw [hc', List.append_assoc, List.append_assoc, ← List.replicate_succ'] at ho
    have ht := List.append_cancel_left ho
    cases htodo : m.todo with
    | nil => rfl
    | cons t ts =>
      rw [htodo, List.replicate_succ, List.cons_append] at ht
      refine absurd ?_ hd
      rw [hc', htodo, (List.cons.inj ht).1]
      simp

end Next

/-! ## The slot is a mailbox -/

/-- The steps of the daemon and of management where there are neither commands nor resets. -/
def Access.IsHandover : Access → Prop
  | .readHeader _ => True
  | .write raised => raised = false
  | .take => True
  | _ => False

/-- The thread is in no branch of a command, and has not been told to quit. -/
def Point.IsHandover : Point → Prop
  | .header => True
  | .write _ _ => True
  | .ended => True
  | _ => False

section Handing

variable (lib : Libraries) (run : Running)

/-- The mailbox behind a shared state: the box is the slot as far as it holds a descriptive message
of the daemon. -/
structure Handing (s : Shared) (m : Mailbox Kind) : Prop where
  map : s.loop.sensors.mSensorMap = run.sensors.mSensorMap
  announcing : Announcing lib run s.loop
  point : s.loop.point.IsHandover
  unreset : Output.reset ∉ s.loop.trace
  content : m.content = script (numberOfPages lib run (Loop.start run))
  sent : ∃ n, announced s.loop.trace = m.got ++ m.box.toList ++ List.replicate n .data ∧
    (0 < n → m.todo = [] ∧ m.box = none)
  taken : List.Forall₂ (Genuine lib run run.sensors.mSensorMap) m.got s.taken
  free : ∀ kind bs, s.loop.point = .write kind bs → m.box = none
  first : s.loop.mFirstWriteDone = false → m.box = none
  full : ∀ kind, m.box = some kind → kind ≠ .data ∧ ∃ bs,
    Genuine lib run run.sensors.mSensorMap kind bs ∧
    s.mem.read run.segment.messageOffset bs.length = bs
  empty : m.box = none → s.loop.mFirstWriteDone → isDescriptive (s.header run).type = false
  command : (s.header run).type ≠ MessageType.command.code

/-- The messages management has picked up are the first ones of the script, and all of them before
the daemon writes data. -/
structure HandedOver (s : Shared) : Prop where
  order : ∃ kinds, kinds <+: script (numberOfPages lib run (Loop.start run)) ∧
    List.Forall₂ (Genuine lib run run.sensors.mSensorMap) kinds s.taken
  data : ∀ bs, .message .data bs ∈ s.loop.trace →
    List.Forall₂ (Genuine lib run run.sensors.mSensorMap)
      (script (numberOfPages lib run (Loop.start run))) s.taken

end Handing

section Steps

variable {lib : Libraries} {run : Running} {s s' : Shared} {m : Mailbox Kind}

theorem handing_start {mem : Mem}
    (hm : (MessageHeader.ofMem mem run.segment.messageOffset).type ≠ MessageType.command.code) :
    Handing lib run (.start mem run) (.start (script (numberOfPages lib run (Loop.start run)))) where
  map := rfl
  announcing := announcing_start run
  point := trivial
  unreset := List.not_mem_nil
  content := by simp [Mailbox.content, Mailbox.start]
  sent := ⟨0, rfl, fun h => absurd h (Nat.lt_irrefl 0)⟩
  taken := .nil
  free _ _ _ := rfl
  first _ := rfl
  full kind h := by cases h
  empty _ h := by cases h
  command := hm

/-- A box that holds a message is a slot with its header. -/
theorem Handing.header_of_full (h : Handing lib run s m)
    (hb : BasicInformationBlock.sizeof ≤ run.segment.messageMaxSize) {kind : Kind}
    (hk : m.box = some kind) : kind ≠ .data ∧ ∃ bs,
      Genuine lib run run.sensors.mSensorMap kind bs ∧
      s.mem.read run.segment.messageOffset bs.length = bs ∧
      (s.header run).type = kind.type.code ∧ (s.header run).size.toNat = bs.length := by
  obtain ⟨hd, bs, hg, hm⟩ := h.full kind hk
  obtain ⟨ht, hs⟩ := Shared.header_of_message (isMessage_of_genuine hb hg hd) hm
  exact ⟨hd, bs, hg, hm, ht, hs⟩

theorem Handing.ofLoop (h : Handing lib run s m) {loop : Loop}
    (ha : Announcing lib run loop) (hm : loop.sensors.mSensorMap = s.loop.sensors.mSensorMap)
    (ht : loop.trace = s.loop.trace) (hf : loop.mFirstWriteDone = s.loop.mFirstWriteDone)
    (hp : loop.point.IsHandover) (hw : ∀ kind bs, loop.point = .write kind bs → m.box = none) :
    Handing lib run { s with loop := loop } m where
  map := hm.trans h.map
  announcing := ha
  point := hp
  unreset := by rw [ht]; exact h.unreset
  content := h.content
  sent := by rw [ht]; exact h.sent
  taken := h.taken
  free := hw
  first := by rw [hf]; exact h.first
  full := h.full
  empty := by rw [hf]; exact h.empty
  command := h.command

/-- A round that makes a message finds the box empty. -/
theorem Handing.box_of_free (h : Handing lib run s m)
    (hb : BasicInformationBlock.sizeof ≤ run.segment.messageMaxSize)
    (hr : ¬ (Loop.isReply (s.header run).type ∧ s.loop.mFirstWriteDone)) : m.box = none := by
  cases hk : m.box with
  | none => rfl
  | some kind =>
    obtain ⟨hd, bs, -, -, ht, -⟩ := h.header_of_full hb hk
    refine absurd ⟨?_, ?_⟩ hr
    · rw [ht]
      cases kind with
      | basicInformation => rfl
      | page p maxPages => rfl
      | data => exact absurd rfl hd
    · cases hf : s.loop.mFirstWriteDone with
      | true => rfl
      | false => rw [h.first hf] at hk; cases hk

theorem handing_readHeader {found : Found} (h : Handing lib run s m)
    (hb : BasicInformationBlock.sizeof ≤ run.segment.messageMaxSize)
    (hs : s.step lib run (.readHeader found) = some s') : Handing lib run s' m := by
  obtain ⟨hpoint, rfl⟩ := Shared.step_readHeader hs
  rcases onHeader_cases lib run s.loop (s.headerReply run) found with he | ⟨-, hc, -, -⟩ |
    ⟨-, -, hr, he⟩
  · rw [he]; exact h
  · rw [Shared.header_headerReply] at hc
    exact absurd hc h.command
  · rw [Shared.header_headerReply] at hr
    have hbox := h.box_of_free hb hr
    rw [he]
    rcases writeNext_cases lib run s.loop found with ⟨set, kind, bs, hc, hw⟩ | hw
    · obtain ⟨hm, hk, hg⟩ := genuine_compose hb hc
      rw [hw]
      refine h.ofLoop (h.announcing.frame rfl rfl rfl hm (.inl rfl) fun kind' bs' hw' => ?_) hm rfl
        rfl trivial fun _ _ _ => hbox
      cases hw'
      exact ⟨hk, hg⟩
    · rw [hw]
      exact h.ofLoop (h.announcing.frame rfl rfl rfl rfl (.inl rfl) fun _ _ hw' => by cases hw')
        rfl rfl rfl trivial fun _ _ _ => hbox

theorem header_of_genuine {map : SensorMap} {kind : Kind} {bs : Bytes} {mem : Mem} {off : Nat}
    (hb : BasicInformationBlock.sizeof ≤ run.segment.messageMaxSize) (hsize : 1 ≤ run.sensorSize)
    (hg : Genuine lib run map kind bs) :
    (MessageHeader.ofMem (mem.write off bs) off).type = kind.type.code := by
  by_cases hk : kind = .data
  · subst hk
    obtain ⟨set, set', inputs, -, hm, rfl⟩ := hg
    have hh := head_data hsize hm
    obtain ⟨n, hn⟩ := Nat.exists_eq_add_of_le hsize
    show mem.write off _ (off + 0) = _
    rw [Mem.write_inside _ _ _ (by rw [Mem.length_read]; omega)]
    rw [List.head?_eq_getElem?, List.getElem?_eq_getElem (by rw [Mem.length_read]; omega)] at hh
    exact Option.some.inj hh
  · exact (Shared.header_of_message (isMessage_of_genuine hb hg hk) (Mem.read_write_self _ _ _)).1

/-- **A write is the next message of the mailbox, or data when there is none.** -/
theorem Handing.put (h : Handing lib run s m)
    (hb : BasicInformationBlock.sizeof ≤ run.segment.messageMaxSize) (hsize : 1 ≤ run.sensorSize)
    {kind : Kind} {bs : Bytes} (hw : s.loop.point = .write kind bs) {loop : Loop}
    (ha : Announcing lib run loop) (ht : loop.trace = .message kind bs :: s.loop.trace)
    (hm : loop.sensors = s.loop.sensors) (hp : loop.point = .header)
    (hf : loop.mFirstWriteDone = true) :
    ∃ m', Relation.ReflTransGen Mailbox.Next m m' ∧ Handing lib run (s.onWrite run loop) m' := by
  have hmap : loop.sensors.mSensorMap = run.sensors.mSensorMap := by rw [hm]; exact h.map
  have hg : Genuine lib run run.sensors.mSensorMap kind bs := by
    rw [← h.map]; exact (h.announcing.asked kind bs hw).2
  have hbox := h.free kind bs hw
  have hmem : (s.onWrite run loop).mem = s.mem.write run.segment.messageOffset bs := by
    show s.mem.write _ s.loop.point.bytes = _
    rw [hw]
    rfl
  have htype : ((s.onWrite run loop).header run).type = kind.type.code := by
    rw [Shared.header, hmem]
    exact header_of_genuine hb hsize hg
  obtain ⟨n, hsent, hrest⟩ := h.sent
  rw [hbox, Option.toList_none, List.append_nil] at hsent
  have hann : announced loop.trace = m.got ++ List.replicate n Kind.data ++ [kind] := by
    rw [ht, announced_message, hsent]
  have horder := ha.described.order
  have hpages : numberOfPages lib run loop = numberOfPages lib run (Loop.start run) :=
    numberOfPages_congr hmap
  rw [hpages, hann] at horder
  have hunreset : Output.reset ∉ loop.trace := by
    rw [ht]
    exact fun hr => (List.mem_cons.mp hr).elim (fun e => by cases e) h.unreset
  have hhandover : loop.point.IsHandover := by rw [hp]; trivial
  have hnowrite (k : Kind) (b : Bytes) : loop.point ≠ .write k b := fun hw' => by
    cases hp.symm.trans hw'
  have hcommand : ((s.onWrite run loop).header run).type ≠ MessageType.command.code := by
    rw [htype]; exact fun e => kind.type_ne_command (MessageType.code_injective e)
  by_cases hk : kind = .data
  · -- data: the mailbox has nothing to send, and its box is empty
    subst hk
    refine ⟨m, .refl, hmap, ha, hhandover, hunreset, h.content, ⟨n + 1, ?_, fun _ => ⟨?_, hbox⟩⟩,
      h.taken, fun k b hkb => absurd hkb (hnowrite k b), fun hff => ?_, fun k hkb => ?_,
      fun _ _ => ?_, hcommand⟩
    · show announced loop.trace = _
      rw [hann, hbox, List.replicate_succ']
      simp
    · exact todo_of_data h.content hbox (data_notMem_script _) horder
    · exact absurd (hf.symm.trans hff) (by decide)
    · rw [hbox] at hkb; cases hkb
    · rw [htype]; rfl
  · obtain ⟨rfl, todo, htodo⟩ :=
      todo_of_descriptive h.content hbox (data_notMem_script _) hk horder
    have hnext : Mailbox.Next m ⟨todo, some kind, m.got⟩ := by
      rw [show m = ⟨kind :: todo, none, m.got⟩ by rw [← htodo, ← hbox]]
      exact .put kind todo m.got
    refine ⟨⟨todo, some kind, m.got⟩, .single hnext, hmap, ha, hhandover, hunreset,
      hnext.content_eq.trans h.content, ⟨0, ?_, fun h0 => absurd h0 (Nat.lt_irrefl 0)⟩, h.taken,
      fun k b hkb => absurd hkb (hnowrite k b), fun hff => ?_, fun k hkb => ?_,
      fun h0 => (by cases h0), hcommand⟩
    · show announced loop.trace = _
      rw [hann]
      simp
    · exact absurd (hf.symm.trans hff) (by decide)
    · cases hkb
      exact ⟨hk, bs, hg, by rw [hmem]; exact Mem.read_write_self _ _ _⟩

theorem handing_write (h : Handing lib run s m)
    (hb : BasicInformationBlock.sizeof ≤ run.segment.messageMaxSize) (hsize : 1 ≤ run.sensorSize)
    (hn : numberOfPages lib run (Loop.start run) ≤ 254)
    (hs : s.step lib run (.write false) = some s') :
    ∃ m', Relation.ReflTransGen Mailbox.Next m m' ∧ Handing lib run s' m' := by
  rcases Shared.step_write hs with ⟨kind, bs, hw, rfl⟩ | ⟨hw, -⟩ | ⟨bs, hw, -⟩
  · obtain ⟨htrace, hsens, hfirst⟩ := afterWrite_frame kind (s.loop.emit (.message kind bs))
    have hpages : numberOfPages lib run s.loop ≤ 254 :=
      le_of_eq_of_le (numberOfPages_congr h.map) hn
    exact h.put hb hsize hw (announcing_onWrite h.announcing hw hpages)
      htrace hsens rfl hfirst
  · have hp := h.point
    rw [hw] at hp
    exact hp.elim
  · have hp := h.point
    rw [hw] at hp
    exact hp.elim

theorem handing_take (h : Handing lib run s m)
    (hb : BasicInformationBlock.sizeof ≤ run.segment.messageMaxSize)
    (hs : s.step lib run .take = some s') :
    ∃ m', Relation.ReflTransGen Mailbox.Next m m' ∧ Handing lib run s' m' := by
  obtain ⟨hd, rfl⟩ := Shared.step_take hs
  have htype : ((s.onTake run).header run).type = MessageType.empty.code :=
    Mem.write_inside s.mem run.segment.messageOffset [MessageType.empty.code] (i := 0) (by decide)
  have hcommand : ((s.onTake run).header run).type ≠ MessageType.command.code := by
    rw [htype]; decide
  cases hbox : m.box with
  | none =>
    -- what lay in the slot before the first write
    have hf : s.loop.mFirstWriteDone = false := by
      cases hf : s.loop.mFirstWriteDone with
      | false => rfl
      | true => rw [h.empty hbox hf] at hd; cases hd
    have htaken : (s.onTake run).taken = s.taken := if_neg (by rw [hf]; decide)
    refine ⟨m, .refl, h.map, h.announcing, h.point, h.unreset, h.content, h.sent, ?_, h.free, h.first,
      fun k hk => ?_, fun _ _ => ?_, hcommand⟩
    · rw [htaken]; exact h.taken
    · rw [hbox] at hk; cases hk
    · rw [htype]; rfl
  | some kind =>
    obtain ⟨hk, bs, hg, hm, -, hsize⟩ := h.header_of_full hb hbox
    have hf : s.loop.mFirstWriteDone = true := by
      cases hf : s.loop.mFirstWriteDone with
      | true => rfl
      | false => rw [h.first hf] at hbox; cases hbox
    have htaken : (s.onTake run).taken = s.taken ++ [bs] := by
      show (if s.loop.mFirstWriteDone then s.taken ++ _ else s.taken) = _
      rw [if_pos hf, hsize, hm]
    have hnext : Mailbox.Next m ⟨m.todo, none, m.got ++ [kind]⟩ := by
      rw [show m = ⟨m.todo, some kind, m.got⟩ by rw [← hbox]]
      exact .take kind m.todo m.got
    obtain ⟨n, hsent, hrest⟩ := h.sent
    refine ⟨⟨m.todo, none, m.got ++ [kind]⟩, .single hnext, h.map, h.announcing, h.point, h.unreset,
      hnext.content_eq.trans h.content, ⟨n, ?_, fun h0 => ⟨(hrest h0).1, rfl⟩⟩, ?_, fun _ _ _ => rfl,
      fun _ => rfl, nofun, fun _ _ => ?_, hcommand⟩
    · show announced s.loop.trace = _
      rw [hsent, hbox]
      simp
    · rw [htaken]; exact List.rel_append h.taken (.cons hg .nil)
    · rw [htype]; rfl

theorem Handing.handedOver (h : Handing lib run s m) (hrun : Relation.ReflTransGen Mailbox.Next
    (.start (script (numberOfPages lib run (Loop.start run)))) m) : HandedOver lib run s where
  order := ⟨m.got, Mailbox.in_order hrun, h.taken⟩
  data bs hd := by
    obtain ⟨n, hsent, hrest⟩ := h.sent
    have hmem : Kind.data ∈ announced s.loop.trace := by
      have hall : sinceReset s.loop.trace = s.loop.trace := by
        apply List.takeWhile_eq_self_iff.mpr
        intro o ho
        exact decide_eq_true fun e => h.unreset (e ▸ ho)
      rw [announced, hall]
      exact List.mem_filterMap.mpr ⟨_, List.mem_reverse.mpr hd, rfl⟩
    have hn : 0 < n := by
      by_contra hn
      obtain rfl : n = 0 := by omega
      apply data_notMem_script (numberOfPages lib run (Loop.start run))
      rw [hsent, List.replicate_zero, List.append_nil] at hmem
      rw [← h.content, Mailbox.content]
      exact List.mem_append_left _ hmem
    obtain ⟨ht, hb⟩ := hrest hn
    rw [← Mailbox.all_taken hrun ht hb]
    exact h.taken

end Steps

/-- **The messages are handed over in order, each once, and data after them.** -/
theorem handover_in_order {lib : Libraries} {st : Startup} {run : Running}
    (hs : start lib st = some run)
    (hb : BasicInformationBlock.sizeof ≤ run.segment.messageMaxSize)
    (hn : numberOfPages lib run (Loop.start run) < 255) {mem : Mem}
    (hm : (MessageHeader.ofMem mem run.segment.messageOffset).type ≠ MessageType.command.code)
    {as : List Access} (ha : ∀ a ∈ as, a.IsHandover) {s : Shared}
    (h : exec (Shared.step lib run) (.start mem run) as = some s) : HandedOver lib run s := by
  have hsize : 1 ≤ run.sensorSize := by
    obtain ⟨-, -, -, hg, hc⟩ := start_cases hs
    rw [hg, SensorSet.getSize, (SensorSet.sizeInvariant_construct hc).size_eq]
    exact Nat.le_add_right_of_le (by decide)
  have hn' : numberOfPages lib run (Loop.start run) ≤ 254 := by
    rw [UInt8.lt_iff_toNat_lt] at hn
    rw [UInt8.le_iff_toNat_le]
    exact Nat.le_of_lt_succ hn
  have hstep (s : Shared) (a : Access) (s' : Shared) (m : Mailbox Kind) (hR : Handing lib run s m)
      (hC : a.IsHandover) (hs : s.step lib run a = some s') :
      ∃ m', Relation.ReflTransGen Mailbox.Next m m' ∧ Handing lib run s' m' := by
    cases a with
    | readHeader found => exact ⟨m, .refl, handing_readHeader hR hb hs⟩
    | write reset =>
      obtain rfl : reset = false := hC
      exact handing_write hR hb hsize hn' hs
    | take => exact handing_take hR hb hs
    | _ => exact hC.elim
  obtain ⟨m, hrun, hR⟩ := exec_simulates hstep (handing_start hm) (along_of_forall ha _) h
  exact hR.handedOver hrun

/-- Management picks up the basic information of a daemon with one sensor. -/
theorem handover_in_order_sample :
    ∃ run, start .sample (.sample 1 0 1) = some run ∧
      ∃ s, exec (Shared.step .sample run) (.start (fun _ => 0) run)
        [.readHeader .sample, .write false, .take] = some s ∧ HandedOver .sample run s := by
  refine ⟨_, rfl, _, rfl, ?_⟩
  refine @handover_in_order .sample (.sample 1 0 1) _ rfl (by decide) (by decide) (fun _ => 0)
    (by decide) [.readHeader .sample, .write false, .take] (fun a ha => ?_) _ rfl
  simp only [List.mem_cons, List.not_mem_nil, or_false] at ha
  rcases ha with rfl | rfl | rfl
  · trivial
  · rfl
  · trivial

end Daemon

end RecsDaemon
