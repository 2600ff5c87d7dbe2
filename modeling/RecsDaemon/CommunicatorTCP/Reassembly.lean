import RecsDaemon.CommunicatorTCP
import RecsDaemon.Base.System

/-!
# Reassembly of frames

The receive buffer holds what has arrived behind the last installed frame. A
call looks at it only if something arrives, and takes one frame; the rest is
moved by a `memcpy` (`reassembles_iff`).
-/

namespace RecsDaemon

open Base

namespace CommunicatorTCP

/-! ## One call -/

section Receive

variable {c : CommunicatorTCP} {chunk : Bytes}

@[simp] theorem length_received (c : CommunicatorTCP) :
    c.received.length = c.mReceiveBufferPos := Mem.length_read _ _ _

theorem received_append (c : CommunicatorTCP) (chunk : Bytes) :
    (c.append chunk).received = c.received ++ chunk := by
  unfold received append
  rw [Mem.read_add, Nat.zero_add, Mem.read_write_self,
    Mem.read_write_of_disjoint (.inl (by omega))]

theorem packet_eq (h : TcpMessageHeader.sizeof < c.mReceiveBufferPos) :
    c.packet = if slice 0 4 c.received = ascii "RECS" then
        if TcpMessageHeader.sizeof + ofBE (slice 6 2 c.received) ≤ c.received.length then
          .complete (ofBE (slice 6 2 c.received)) else .incomplete
      else .invalid := by
  have h8 : 8 < c.mReceiveBufferPos := h
  unfold packet
  rw [if_pos h, length_received]
  unfold received
  rw [Mem.slice_read _ (by omega), Mem.slice_read _ (by omega)]

/-- A frame is found once something follows its header. -/
theorem packet_of_frame {f : Frame} {rest : Bytes} (h : c.received = f.bytes ++ rest)
    (h8 : TcpMessageHeader.sizeof < c.mReceiveBufferPos) :
    c.packet = .complete f.payload.length := by
  obtain ⟨hmagic, hsize, -⟩ := f.slices rest
  rw [packet_eq h8, h, hmagic, if_pos rfl, hsize, f.ofBE_length, if_pos]
  rw [List.length_append, f.length_bytes]
  exact Nat.le_add_right _ _

theorem packet_of_part {f : Frame} {pending rest : Bytes}
    (h : c.received ++ pending = f.bytes ++ rest) (hl : c.received.length < f.bytes.length) :
    c.packet = .incomplete := by
  by_cases h8 : TcpMessageHeader.sizeof < c.mReceiveBufferPos
  · obtain ⟨hmagic, hsize, -⟩ := f.slices rest
    have hlen : 8 < c.received.length := by rw [length_received]; exact h8
    rw [← h, slice_append_left (by omega)] at hmagic hsize
    rw [packet_eq h8, hmagic, if_pos rfl, hsize, f.ofBE_length, if_neg]
    rw [f.length_bytes] at hl
    exact Nat.not_le.mpr hl
  · exact if_neg h8

theorem install_frame {f : Frame} {rest : Bytes} (h : c.received = f.bytes ++ rest) :
    (c.install f.payload.length).received = rest ∧
      (c.install f.payload.length).mData = c.mData.write DaemonHeader.sizeof f.payload ∧
      c.mReceiveBuffer.read TcpMessageHeader.sizeof f.payload.length = f.payload ∧
      c.mReceiveBufferPos - (TcpMessageHeader.sizeof + f.payload.length) = rest.length := by
  have hlen : c.mReceiveBufferPos = 8 + f.payload.length + rest.length := by
    rw [← length_received, h, List.length_append, f.length_bytes]
  have hpay : c.mReceiveBuffer.read TcpMessageHeader.sizeof f.payload.length = f.payload := by
    have hs := (f.slices rest).2.2
    rw [← h, received, Mem.slice_read _ (by omega)] at hs
    exact hs
  have hrest : c.mReceiveBuffer.read (TcpMessageHeader.sizeof + f.payload.length) rest.length =
      rest := by
    have hr := h
    rw [received, hlen, Mem.read_add, Nat.zero_add] at hr
    exact (List.append_inj hr (by rw [Mem.length_read, f.length_bytes])).2
  have hn : c.mReceiveBufferPos - (TcpMessageHeader.sizeof + f.payload.length) = rest.length := by
    rw [hlen, show TcpMessageHeader.sizeof = 8 from rfl]
    omega
  refine ⟨?_, ?_, hpay, hn⟩
  · unfold received install
    dsimp only
    rw [hn, hrest]
    exact Mem.read_write_self _ _ _
  · unfold install
    dsimp only
    rw [hpay]

def taken (c : CommunicatorTCP) (chunk : Bytes) : Option Nat :=
  if chunk = [] then none
  else
    match (c.append chunk).packet with
    | .complete length => some length
    | _ => none

def installedBy (c : CommunicatorTCP) (chunk : Bytes) : Option Bytes :=
  (c.taken chunk).map fun length =>
    (c.append chunk).mReceiveBuffer.read TcpMessageHeader.sizeof length

/-- Source and length of the `memcpy` to the beginning of the receive buffer. -/
def movedBy (c : CommunicatorTCP) (chunk : Bytes) : Option (Nat × Nat) :=
  (c.taken chunk).map fun length => (TcpMessageHeader.sizeof + length,
    (c.append chunk).mReceiveBufferPos - (TcpMessageHeader.sizeof + length))

/-- What a call leaves that takes the frame `f` of the buffer, `rest` being behind it. -/
structure Takes (c : CommunicatorTCP) (chunk : Bytes) (f : Frame) (rest : Bytes) : Prop where
  received : (c.receive chunk).received = rest
  mData : (c.receive chunk).mData = c.mData.write DaemonHeader.sizeof f.payload
  client : (c.receive chunk).mClient = c.mClient
  payload : c.installedBy chunk = some f.payload
  moved : c.movedBy chunk = some (f.bytes.length, rest.length)

theorem takes_of_frame {f : Frame} {rest : Bytes} (hc : chunk ≠ [])
    (h : c.received ++ chunk = f.bytes ++ rest) (h8 : 8 < (c.received ++ chunk).length) :
    c.Takes chunk f rest := by
  have hb : (c.append chunk).received = f.bytes ++ rest := by rw [received_append, h]
  have hpacket := packet_of_frame hb (by rw [← length_received, received_append]; exact h8)
  have htaken : c.taken chunk = some f.payload.length := by rw [taken, if_neg hc, hpacket]
  have hreceive : c.receive chunk = (c.append chunk).install f.payload.length := by
    rw [receive, if_neg hc, process, hpacket]
  obtain ⟨hr, hm, hpay, hn⟩ := install_frame hb
  refine ⟨by rw [hreceive, hr], by rw [hreceive, hm]; rfl, by rw [hreceive]; rfl, ?_, ?_⟩
  · rw [installedBy, htaken, Option.map_some, hpay]
  · rw [movedBy, htaken, Option.map_some, hn, f.length_bytes]
    rfl

/-- **What a call does in which something of a stream of frames arrives**: it takes the first frame,
or only keeps the bytes, which are then no whole frame, or just one without payload. -/
theorem receive_cases {coming : List Frame} {pending : Bytes} (hc : chunk ≠ [])
    (h : c.received ++ (chunk ++ pending) = coming.flatMap Frame.bytes) :
    (∃ f more rest, coming = f :: more ∧ c.received ++ chunk = f.bytes ++ rest ∧
        rest ++ pending = more.flatMap Frame.bytes ∧ 8 < (c.received ++ chunk).length ∧
        c.Takes chunk f rest) ∨
      (c.taken chunk = none ∧ c.receive chunk = c.append chunk ∧
        (c.received ++ chunk).length < 65529 ∧
        ∀ (f : Frame) rest, c.received ++ chunk = f.bytes ++ rest → rest = []) := by
  rw [← List.append_assoc] at h
  cases coming with
  | nil =>
    rw [List.flatMap_nil, List.append_eq_nil_iff, List.append_eq_nil_iff] at h
    exact absurd h.1.2 hc
  | cons f more =>
    rw [List.flatMap_cons] at h
    have hfits := f.fits
    have hf := f.length_bytes
    have hkeep : (c.append chunk).packet = .incomplete →
        c.taken chunk = none ∧ c.receive chunk = c.append chunk := fun hp =>
      ⟨by rw [taken, if_neg hc, hp], by rw [receive, if_neg hc, process, hp]⟩
    by_cases hl : f.bytes.length ≤ (c.received ++ chunk).length
    · obtain ⟨rest, hb, hrest⟩ := split_code h hl
      by_cases h8 : 8 < (c.received ++ chunk).length
      · exact .inl ⟨f, more, rest, rfl, hb, hrest, h8, takes_of_frame hc hb h8⟩
      · obtain ⟨ht, hr⟩ := hkeep (if_neg (by
          rw [← length_received, received_append]
          exact h8))
        refine .inr ⟨ht, hr, by omega, fun g r hg => ?_⟩
        rw [hg, List.length_append, g.length_bytes] at h8
        exact List.eq_nil_of_length_eq_zero (by omega)
    · obtain ⟨ht, hr⟩ := hkeep (packet_of_part (by rw [received_append]; exact h)
        (by rw [received_append]; omega))
      refine .inr ⟨ht, hr, by omega, fun g r hg => ?_⟩
      rw [← List.flatMap_cons] at h
      obtain ⟨more', hcoming, -⟩ := Frame.prefixFree.head_eq Frame.bytes_ne_nil h hg
      cases hcoming
      rw [hg, List.length_append] at hl
      omega

end Receive

/-! ## Runs -/

/-- A call `readData(offset, buf, count)` during which `arriving` bytes are there to be received;
`buf` held `old`. -/
structure Call where
  offset : Nat
  count : Nat
  arriving : Nat
  old : Mem

/-- What is noted of a call: the receive buffer before it, and what it copied. -/
structure Note where
  call : Call
  held : Bytes
  payload : Option Bytes
  moved : Option (Nat × Nat)

/-- A communicator and the bytes on their way to it; `notes` lists the calls. -/
structure Link where
  comm : CommunicatorTCP
  pending : Bytes
  notes : List Note

namespace Link

/-- The controller has sent these frames to a communicator that has received nothing yet. -/
def start (c : CommunicatorTCP) (frames : List Frame) : Link :=
  ⟨{ c with mReceiveBufferPos := 0 }, frames.flatMap Frame.bytes, []⟩

variable (l : Link)

/-- What `receiveData` gives: not more than the buffer has room for. -/
def chunk (arriving : Nat) : Bytes :=
  if l.comm.mClient then l.pending.take (min arriving (memorySize - l.comm.mReceiveBufferPos))
  else []

def note (e : Call) : Note :=
  ⟨e, l.comm.received, l.comm.installedBy (l.chunk e.arriving),
    l.comm.movedBy (l.chunk e.arriving)⟩

/-- The reply to a call, and what is there after it. -/
def read (e : Call) : Link × ReadReply :=
  let (comm, r) := l.comm.readData e.offset e.count (l.chunk e.arriving) e.old
  (⟨comm, l.pending.drop (l.chunk e.arriving).length, l.notes ++ [l.note e]⟩, r)

def step (e : Call) : Option Link := some (l.read e).1

def installed : List Bytes := l.notes.filterMap Note.payload

/-- The frames are installed in order, each once, and what has been received of the next ones is in
the buffer. -/
structure InOrder (frames : List Frame) : Prop where
  split : ∃ done coming, frames = done ++ coming ∧ l.installed = done.map Frame.payload ∧
    l.comm.received ++ l.pending = coming.flatMap Frame.bytes
  room : l.comm.mReceiveBufferPos < memorySize

/-- A call of these that found a whole frame in the buffer installed it. -/
def Served (S : Call → Prop) : Prop :=
  ∀ n ∈ l.notes, S n.call → ∀ (f : Frame) rest, n.held = f.bytes ++ rest → n.payload = some f.payload

def Disjoint : Prop := ∀ n ∈ l.notes, ∀ m, n.moved = some m → m.2 ≤ m.1

/-- All frames are installed in order, each exactly once, at the latest by the next call once they
are in the buffer, which always has room, and no `memcpy` had overlapping areas. -/
structure Reassembled (frames : List Frame) : Prop where
  inOrder : l.InOrder frames
  all : l.pending = [] → (∀ (f : Frame) rest, l.comm.received ≠ f.bytes ++ rest) →
    l.installed = frames.map Frame.payload
  last : ∀ p, l.installed.getLast? = some p → l.comm.mData.read DaemonHeader.sizeof p.length = p
  served : l.Served fun _ => True
  disjoint : l.Disjoint

/-- Something arrives in a call that finds a whole frame in the buffer. -/
def Arrives (e : Call) : Prop :=
  ∀ (f : Frame) rest, l.comm.received = f.bytes ++ rest → l.chunk e.arriving ≠ []

/-- What is behind the frame that the call takes is not longer than it. -/
def Short (e : Call) : Prop :=
  ∀ (f : Frame) rest, l.chunk e.arriving ≠ [] →
    l.comm.received ++ l.chunk e.arriving = f.bytes ++ rest → rest.length ≤ f.bytes.length

def Fed (e : Call) : Prop := l.Arrives e ∧ l.Short e

section Step

variable {l : Link} {frames : List Frame} {e : Call}

def next (l : Link) (e : Call) : Link :=
  ⟨l.comm.receive (l.chunk e.arriving), l.pending.drop (l.chunk e.arriving).length,
    l.notes ++ [l.note e]⟩

theorem read_fst (l : Link) (e : Call) : (l.read e).1 = l.next e := by
  unfold read next CommunicatorTCP.readData
  dsimp only
  by_cases hc : l.comm.mClient = true
  · rw [if_pos hc]
  · rw [if_neg hc, show l.chunk e.arriving = [] from if_neg hc, receive, if_pos rfl]

theorem read_snd (l : Link) (e : Call) :
    (l.read e).2 = ⟨clamp e.offset e.count,
      e.old.write 0 ((l.next e).comm.mData.read e.offset (clamp e.offset e.count))⟩ := by
  rw [← read_fst]
  rfl

theorem chunk_append (l : Link) (n : Nat) :
    l.chunk n ++ l.pending.drop (l.chunk n).length = l.pending := by
  by_cases hc : l.comm.mClient = true
  · rw [chunk, if_pos hc, List.length_take]
    generalize min n (memorySize - l.comm.mReceiveBufferPos) = k
    rw [Nat.min_def]
    split
    · exact List.take_append_drop _ _
    · rw [List.drop_length, List.append_nil, List.take_of_length_le (by omega)]
  · rw [chunk, if_neg hc]
    rfl

theorem length_chunk_le (l : Link) (n : Nat) :
    (l.chunk n).length ≤ memorySize - l.comm.mReceiveBufferPos := by
  unfold chunk
  split
  · rw [List.length_take]
    omega
  · exact Nat.zero_le _

theorem installed_next (l : Link) (e : Call) :
    (l.next e).installed = l.installed ++ (l.note e).payload.toList := by
  unfold installed next
  rw [List.filterMap_append, List.filterMap_cons, List.filterMap_nil]
  cases (l.note e).payload <;> rfl

structure Idle (l : Link) (e : Call) : Prop where
  chunk : l.chunk e.arriving = []
  comm : (l.next e).comm = l.comm
  note : l.note e = ⟨e, l.comm.received, none, none⟩

/-- Bytes arrive, and complete no frame but one without payload. -/
structure Keeps (l : Link) (e : Call) : Prop where
  chunk : l.chunk e.arriving ≠ []
  mData : (l.next e).comm.mData = l.comm.mData
  note : l.note e = ⟨e, l.comm.received, none, none⟩
  incomplete : ∀ (f : Frame) rest,
    l.comm.received ++ l.chunk e.arriving = f.bytes ++ rest → rest = []

structure TakesFrame (l : Link) (e : Call) (f : Frame) (rest : Bytes) : Prop where
  chunk : l.chunk e.arriving ≠ []
  mData : (l.next e).comm.mData = l.comm.mData.write DaemonHeader.sizeof f.payload
  note : l.note e = ⟨e, l.comm.received, some f.payload, some (f.bytes.length, rest.length)⟩
  frame : l.comm.received ++ l.chunk e.arriving = f.bytes ++ rest
  long : 8 < (l.comm.received ++ l.chunk e.arriving).length

/-- **Step lemma**: whatever arrives, the frames stay in order, and a call does one of three
things. -/
theorem next_cases (h : l.InOrder frames) (e : Call) :
    (l.next e).InOrder frames ∧
      (l.Idle e ∨ l.Keeps e ∨ ∃ f rest, l.TakesFrame e f rest) := by
  obtain ⟨done, coming, h1, h2, h3⟩ := h.split
  have hle := length_chunk_le l e.arriving
  have hroom := h.room
  by_cases hc : l.chunk e.arriving = []
  · have hcomm : (l.next e).comm = l.comm := by
      show l.comm.receive _ = _
      rw [receive, if_pos hc]
    have hnote : l.note e = ⟨e, l.comm.received, none, none⟩ := by
      unfold note installedBy movedBy taken
      rw [if_pos hc]
      rfl
    refine ⟨⟨⟨done, coming, h1, ?_, ?_⟩, ?_⟩, .inl ⟨hc, hcomm, hnote⟩⟩
    · rw [installed_next, hnote, Option.toList_none, List.append_nil, h2]
    · rw [hcomm, ← h3, show (l.next e).pending = l.pending.drop _ from rfl, hc]
      rfl
    · rw [hcomm]
      exact hroom
  rcases @receive_cases l.comm (l.chunk e.arriving) coming
      (l.pending.drop (l.chunk e.arriving).length) hc (by rw [chunk_append]; exact h3) with
    ⟨f, more, rest, rfl, hb, hrest, h8, ht⟩ | ⟨ht, hr, hlt, hnone⟩
  · have hnote : l.note e =
        ⟨e, l.comm.received, some f.payload, some (f.bytes.length, rest.length)⟩ := by
      unfold note
      rw [ht.payload, ht.moved]
    have hreceived : (l.next e).comm.received = rest := ht.received
    refine ⟨⟨⟨done ++ [f], more, ?_, ?_, ?_⟩, ?_⟩,
      .inr (.inr ⟨f, rest, hc, ht.mData, hnote, hb, h8⟩)⟩
    · rw [h1, List.append_assoc, List.singleton_append]
    · rw [installed_next, hnote, Option.toList_some, h2, List.map_append, List.map_singleton]
    · rw [hreceived]
      exact hrest
    · have hlen := congrArg List.length hb
      rw [List.length_append, List.length_append, f.length_bytes, length_received] at hlen
      rw [← length_received, hreceived]
      omega
  · have hnote : l.note e = ⟨e, l.comm.received, none, none⟩ := by
      unfold note installedBy movedBy
      rw [ht]
      rfl
    have hreceived : (l.next e).comm.received = l.comm.received ++ l.chunk e.arriving := by
      show (l.comm.receive _).received = _
      rw [hr, received_append]
    refine ⟨⟨⟨done, coming, h1, ?_, ?_⟩, ?_⟩, .inr (.inl ⟨hc, ?_, hnote, hnone⟩)⟩
    · rw [installed_next, hnote, Option.toList_none, List.append_nil, h2]
    · rw [hreceived, List.append_assoc, ← h3]
      exact congrArg _ (chunk_append l e.arriving)
    · rw [← length_received, hreceived]
      exact Nat.lt_trans hlt (by decide)
    · rw [show (l.next e).comm = _ from hr]
      rfl

/-- A whole frame in the buffer has nothing behind it only if nothing arrives. -/
theorem Keeps.not_held (h : l.Keeps e) (f : Frame) (rest : Bytes) :
    l.comm.received ≠ f.bytes ++ rest := by
  intro hf
  have hb := h.incomplete f (rest ++ l.chunk e.arriving) (by rw [hf, List.append_assoc])
  exact h.chunk (List.append_eq_nil_iff.mp hb).2

theorem mem_notes_next {n : Note} : n ∈ (l.next e).notes ↔ n ∈ l.notes ∨ n = l.note e := by
  show n ∈ l.notes ++ [l.note e] ↔ _
  rw [List.mem_append, List.mem_singleton]

/-- A call keeps the buffer served exactly if something arrives where it has to. -/
theorem served_next {S : Call → Prop} (h : l.InOrder frames) (hs : l.Served S) :
    (S e → l.Arrives e) ↔ (l.next e).Served S := by
  constructor
  · intro ha n hn hS f rest hf
    rcases mem_notes_next.mp hn with hn | rfl
    · exact hs n hn hS f rest hf
    rcases (next_cases h e).2 with hi | hk | ⟨g, r, ht⟩
    · rw [hi.note] at hf
      exact absurd hi.chunk (ha hS f rest hf)
    · rw [hk.note] at hf
      exact absurd hf (hk.not_held f rest)
    · rw [ht.note] at hf ⊢
      have hf : l.comm.received = f.bytes ++ rest := hf
      have hb := ht.frame
      rw [hf, List.append_assoc] at hb
      obtain rfl := Frame.prefixFree f g _ _ hb
      rfl
  · intro hnext hS f rest hf hc
    have hserved := hnext (l.note e) (mem_notes_next.mpr (.inr rfl)) hS f rest hf
    rcases (next_cases h e).2 with hi | hk | ⟨g, r, ht⟩
    · rw [hi.note] at hserved; cases hserved
    · exact hk.chunk hc
    · exact ht.chunk hc

/-- A call keeps the copies disjoint exactly if what is behind its frame is short. -/
theorem disjoint_next (h : l.InOrder frames) (hd : l.Disjoint) :
    l.Short e ↔ (l.next e).Disjoint := by
  constructor
  · intro hshort n hn m hm
    rcases mem_notes_next.mp hn with hn | rfl
    · exact hd n hn m hm
    rcases (next_cases h e).2 with hi | hk | ⟨g, r, ht⟩
    · rw [hi.note] at hm; cases hm
    · rw [hk.note] at hm; cases hm
    · rw [ht.note, Option.some.injEq] at hm
      subst hm
      exact hshort g r ht.chunk ht.frame
  · intro hnext f rest hc hb
    rcases (next_cases h e).2 with hi | hk | ⟨g, r, ht⟩
    · exact absurd hi.chunk hc
    · rw [hk.incomplete f rest hb]
      exact Nat.zero_le _
    · have hsame := hb.symm.trans ht.frame
      obtain rfl := Frame.prefixFree f g _ _ hsame
      rw [List.append_cancel_left hsame]
      exact hnext (l.note e) (mem_notes_next.mpr (.inr rfl)) _ (by rw [ht.note])

/-- Once everything has arrived and no frame is left, all are installed. -/
theorem InOrder.all (h : l.InOrder frames) (hp : l.pending = [])
    (hr : ∀ (f : Frame) rest, l.comm.received ≠ f.bytes ++ rest) :
    l.installed = frames.map Frame.payload := by
  obtain ⟨done, coming, h1, h2, h3⟩ := h.split
  cases coming with
  | nil => rw [h1, h2, List.append_nil]
  | cons f more =>
    rw [hp, List.append_nil, List.flatMap_cons] at h3
    exact absurd h3 (hr f _)

theorem last_next (h : l.InOrder frames)
    (hl : ∀ p, l.installed.getLast? = some p → l.comm.mData.read DaemonHeader.sizeof p.length = p) :
    ∀ p, (l.next e).installed.getLast? = some p →
      (l.next e).comm.mData.read DaemonHeader.sizeof p.length = p := by
  rw [installed_next]
  rcases (next_cases h e).2 with hi | hk | ⟨g, r, ht⟩
  · rw [hi.note, hi.comm, Option.toList_none, List.append_nil]
    exact hl
  · rw [hk.note, hk.mData, Option.toList_none, List.append_nil]
    exact hl
  · intro p hp
    rw [ht.note, Option.toList_some, List.getLast?_concat, Option.some.injEq] at hp
    subst hp
    rw [ht.mData]
    exact Mem.read_write_self _ _ _

/-- A call keeps the reassembly right exactly if it is fed. -/
theorem step_reassembled {l' : Link} (h : l.Reassembled frames) (hs : l.step e = some l') :
    l.Fed e ↔ l'.Reassembled frames := by
  rw [step, read_fst, Option.some.injEq] at hs
  subst hs
  have hI := (next_cases h.inOrder e).1
  constructor
  · intro hfed
    exact ⟨hI, hI.all, last_next h.inOrder h.last,
      (served_next h.inOrder h.served).mp fun _ => hfed.1,
      (disjoint_next h.inOrder h.disjoint).mp hfed.2⟩
  · intro hnext
    exact ⟨(served_next h.inOrder h.served).mpr hnext.served trivial,
      (disjoint_next h.inOrder h.disjoint).mpr hnext.disjoint⟩

theorem start_inOrder (c : CommunicatorTCP) (frames : List Frame) :
    (start c frames).InOrder frames := by
  have hempty : (start c frames).comm.received = [] := rfl
  refine ⟨⟨[], frames, rfl, rfl, ?_⟩, show 0 < memorySize by decide⟩
  rw [hempty]
  rfl

theorem start_reassembled (c : CommunicatorTCP) (frames : List Frame) :
    (start c frames).Reassembled frames :=
  ⟨start_inOrder c frames, (start_inOrder c frames).all, fun p hp => (by cases hp),
    fun n hn => (by cases hn), fun n hn => (by cases hn)⟩

end Step

/-- **In which runs the frames are reassembled.** -/
theorem reassembles_iff (c : CommunicatorTCP) (frames : List Frame) (es : List Call) :
    Always step (fun l => l.Reassembled frames) (start c frames) es ↔
      Along step Fed (start c frames) es :=
  always_iff_along (fun _ _ _ h hs => step_reassembled h hs) (fun _ _ hs => by cases hs)
    (start_reassembled c frames)

def sampleFrame (b : UInt8) : Frame := ⟨0, 0, [b], Nat.le_of_ble_eq_true rfl⟩

/-- Two frames arrive in one call; the second one stays in the buffer when nothing more comes. -/
theorem second_frame_stays :
    ¬ Always step (fun l => l.Reassembled [sampleFrame 1, sampleFrame 2])
      (start (.init 0 0 fun _ => 0) [sampleFrame 1, sampleFrame 2])
      [⟨0, 14, 18, fun _ => 0⟩, ⟨0, 14, 18, fun _ => 0⟩] := by
  intro h
  obtain ⟨l, hl⟩ : ∃ l, exec step (start (.init 0 0 fun _ => 0) [sampleFrame 1, sampleFrame 2])
      [⟨0, 14, 18, fun _ => 0⟩, ⟨0, 14, 18, fun _ => 0⟩] = some l := ⟨_, rfl⟩
  have hnotes : l.notes[1]? =
      some ⟨⟨0, 14, 18, fun _ => 0⟩, (sampleFrame 2).bytes, none, none⟩ := by
    cases hl
    rfl
  cases (h _ _ (List.prefix_refl _) hl).served _ (List.mem_of_getElem? hnotes) trivial
    (sampleFrame 2) [] (List.append_nil _).symm

end Link

end CommunicatorTCP

end RecsDaemon
