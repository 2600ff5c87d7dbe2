import RecsDaemon.CommunicatorTCP
import RecsDaemon.Base.System

/-!
# What is sent to the controller

A message goes out in two sends, its header and its payload. A send that takes
only a part of its bytes counts as success, so the stream keeps to its frames as
long as nothing is accepted behind such a send (`wholeFrames_always`).
-/

namespace RecsDaemon

open Base

namespace CommunicatorTCP

/-! ## Sockets -/

/-- What `send` does with its bytes: it accepts the first `n + 1` of them, or all if there are fewer,
or it fails. -/
inductive Send where
  | accepted (n : Nat)
  | failed

def Send.ok : Send → Bool
  | accepted _ => true
  | failed => false

def Send.taken (bs : Bytes) : Send → Bytes
  | accepted n => bs.take (n + 1)
  | failed => []

theorem Send.taken_prefix (bs : Bytes) (r : Send) : r.taken bs <+: bs := by
  cases r with
  | accepted n => exact List.take_prefix _ _
  | failed => exact List.nil_prefix

/-- A connection: the messages written while it was there, and the bytes it accepted. -/
structure Connection where
  written : List Frame
  accepted : Bytes

/-- A write behind the daemon header, as all those of the daemon. -/
structure Write where
  offset : Nat
  bs : Bytes
  behind : DaemonHeader.sizeof ≤ offset
  fits : offset + bs.length ≤ memorySize

/-- The communicator with its connections, the last one first. -/
structure Sender where
  comm : CommunicatorTCP
  mBaseboardID : UInt8
  connections : List Connection

/-- A call and its outcome; a `readData` receives `chunk`, `node` is the slot a `writeData` asks for. -/
inductive Traffic where
  | readData (offset count : Nat) (chunk : Bytes) (old : Mem)
  | writeData (w : Write) (node : UInt8) (header payload : Send) (reconnected : Bool)

/-! ## The code -/

namespace Connection

/-- The two `sendData`, the second only if the first succeeds. -/
def send (k : Connection) (f : Frame) (hdr data : Bytes) (header payload : Send) : Connection where
  written := k.written ++ [f]
  accepted := k.accepted ++ header.taken hdr ++ if header.ok then payload.taken data else []

def Complete (k : Connection) : Prop := k.accepted = k.written.flatMap Frame.bytes

instance (k : Connection) : Decidable k.Complete := inferInstanceAs (Decidable (_ = _))

/-- Complete frames, then at most the beginning of one more. -/
def WholeFrames (k : Connection) : Prop :=
  ∃ sent rest part, k.written = sent ++ rest ∧
    k.accepted = sent.flatMap Frame.bytes ++ part ∧ part <+: (rest.take 1).flatMap Frame.bytes

end Connection

def header (baseboard node : UInt8) (size : Nat) : Bytes :=
  ascii "RECS" ++ [baseboard, node] ++ be 2 size

def Write.frame (w : Write) (baseboard node : UInt8) : Frame :=
  ⟨baseboard, node, w.bs, by
    have h1 := w.behind
    have h2 := w.fits
    have h3 : DaemonHeader.sizeof = 14 := rfl
    have h4 : memorySize = 65535 := rfl
    omega⟩

namespace Sender

variable (s : Sender)

def stored (w : Write) : Mem :=
  s.comm.mData.write w.offset (w.bs.take (clamp w.offset w.bs.length))

def sendMessage (w : Write) (node : UInt8) (header payload : Send) (k : Connection) : Connection :=
  let count := clamp w.offset w.bs.length
  k.send (w.frame s.mBaseboardID node) (CommunicatorTCP.header s.mBaseboardID node count)
    ((s.stored w).read w.offset count) header payload

/-- `writeData`, or a `readData` between two of them. -/
def step : Traffic → Option Sender
  | .readData offset count chunk old =>
    some { s with comm := (s.comm.readData offset count chunk old).1 }
  | .writeData w node header payload reconnected =>
    let comm := (s.comm.writeData w.offset w.bs ⟨header.ok && payload.ok, reconnected⟩).1
    if s.stored w DaemonHeader.sizeof ≠ 0 then
      if s.comm.mClient then
        some { s with
          comm := comm
          connections := s.connections.modifyHead (s.sendMessage w node header payload) }
      else if reconnected then some { s with comm := comm, connections := ⟨[], []⟩ :: s.connections }
      else some { s with comm := comm }
    else some { s with comm := comm }

def init (mBaseboardID reserved : UInt8) (mReceiveBuffer : Mem) : Sender :=
  ⟨CommunicatorTCP.init mBaseboardID reserved mReceiveBuffer, mBaseboardID, [⟨[], []⟩]⟩

/-! ## Runs -/

/-- Nothing is accepted behind a send that took only a part of its bytes. -/
def Careful : Traffic → Prop
  | .readData _ _ _ _ => True
  | .writeData w node hdr payload _ =>
    s.stored w DaemonHeader.sizeof ≠ 0 → s.comm.mClient = true → hdr.ok = true →
      (∀ k ∈ s.connections.head?, k.Complete) ∧
        (payload.taken w.bs = [] ∨
          hdr.taken (header s.mBaseboardID node w.bs.length) =
            header s.mBaseboardID node w.bs.length)

instance (s : Sender) (t : Traffic) : Decidable (s.Careful t) :=
  match t with
  | .readData _ _ _ _ => isTrue trivial
  | .writeData w node hdr payload _ =>
    inferInstanceAs (Decidable (s.stored w DaemonHeader.sizeof ≠ 0 → s.comm.mClient = true →
      hdr.ok = true → (∀ k ∈ s.connections.head?, k.Complete) ∧
        (payload.taken w.bs = [] ∨
          hdr.taken (header s.mBaseboardID node w.bs.length) =
            header s.mBaseboardID node w.bs.length)))

def WholeFrames : Prop := ∀ k ∈ s.connections, k.WholeFrames

end Sender

section WholeFrames

variable {s : Sender} {k : Connection}

theorem wholeFrames_iff : k.WholeFrames ↔ k.accepted <+: k.written.flatMap Frame.bytes :=
  prefix_flatMap_iff.symm

theorem stored_read (s : Sender) (w : Write) :
    (s.stored w).read w.offset (clamp w.offset w.bs.length) = w.bs := by
  unfold Sender.stored
  rw [clamp_of_le w.fits, List.take_length, Mem.read_write_self]

theorem sendMessage_eq (w : Write) (node : UInt8) (hdr payload : Send) :
    s.sendMessage w node hdr payload k = k.send (w.frame s.mBaseboardID node)
      (header s.mBaseboardID node w.bs.length) w.bs hdr payload := by
  have hread := stored_read s w
  unfold Sender.sendMessage
  rw [clamp_of_le w.fits] at hread ⊢
  dsimp only
  rw [hread]

/-- A message goes out behind complete ones. -/
theorem wholeFrames_send {f : Frame} {hdr data : Bytes} {rh rp : Send}
    (hf : f.bytes = hdr ++ data) (hk : k.WholeFrames)
    (h : rh.ok = true → k.Complete ∧ (rp.taken data = [] ∨ rh.taken hdr = hdr)) :
    (k.send f hdr data rh rp).WholeFrames := by
  rw [wholeFrames_iff] at hk ⊢
  unfold Connection.send
  dsimp only
  rw [List.flatMap_append, List.flatMap_singleton]
  cases hok : rh.ok with
  | false =>
    have hfailed : rh = .failed := by
      cases rh with
      | accepted n => cases hok
      | failed => rfl
    rw [hfailed, if_neg Bool.false_ne_true, Send.taken, List.append_nil, List.append_nil]
    exact hk.trans (List.prefix_append _ _)
  | true =>
    obtain ⟨hcomplete, htaken⟩ := h hok
    rw [if_pos rfl, hcomplete, List.append_assoc]
    apply (List.prefix_append_right_inj _).mpr
    rw [hf]
    rcases htaken with hnone | hall
    · rw [hnone, List.append_nil]
      exact (rh.taken_prefix hdr).trans (List.prefix_append _ _)
    · rw [hall]
      exact (List.prefix_append_right_inj _).mpr (rp.taken_prefix data)

theorem wholeFrames_step {t : Traffic} {s' : Sender} (hs : s.WholeFrames) (hc : s.Careful t)
    (h : s.step t = some s') : s'.WholeFrames := by
  cases t with
  | readData offset count chunk old =>
    cases h
    exact hs
  | writeData w node hdr payload reconnected =>
    unfold Sender.step at h
    dsimp only at h
    split at h
    · next hmessage =>
      split at h
      · next hclient =>
        cases h
        cases hks : s.connections with
        | nil => exact nofun
        | cons k ks =>
          have hhead : k ∈ s.connections.head? := by
            rw [hks]
            rfl
          have hk := hs k (by rw [hks]; exact List.mem_cons_self)
          intro k' hk'
          rcases List.mem_cons.mp hk' with rfl | hold
          · rw [sendMessage_eq]
            exact wholeFrames_send rfl hk fun hok =>
              ⟨(hc hmessage hclient hok).1 k hhead, (hc hmessage hclient hok).2⟩
          · exact hs k' (by rw [hks]; exact List.mem_cons_of_mem _ hold)
      · split at h
        · cases h
          intro k hk
          rcases List.mem_cons.mp hk with rfl | hold
          · exact wholeFrames_iff.mpr List.nil_prefix
          · exact hs k hold
        · cases h
          exact hs
    · cases h
      exact hs

theorem wholeFrames_always (mBaseboardID reserved : UInt8) (mReceiveBuffer : Mem)
    {ts : List Traffic}
    (h : Along Sender.step Sender.Careful (Sender.init mBaseboardID reserved mReceiveBuffer) ts) :
    Always Sender.step Sender.WholeFrames (Sender.init mBaseboardID reserved mReceiveBuffer) ts := by
  refine h.always (fun s t s' => wholeFrames_step) ?_
  intro k hk
  rw [List.mem_singleton.mp hk]
  exact wholeFrames_iff.mpr List.nil_prefix

def oneByte : Write := ⟨14, [1], by decide, by decide⟩

def fiveBytes : Write := ⟨14, [2, 0, 5, 0, 9], by decide, by decide⟩

/-- Two messages with a read between them, the second cut in its payload, which the daemon takes for a
success; one that fails; one that only finds the connection closed; and another on the new one. -/
def sampleTraffic : List Traffic :=
  [.writeData oneByte 3 (.accepted 7) (.accepted 0) false, .readData 14 4 [] fun _ => 0,
    .writeData fiveBytes 3 (.accepted 7) (.accepted 2) false,
    .writeData oneByte 3 .failed .failed false, .writeData oneByte 3 .failed .failed true,
    .writeData oneByte 3 (.accepted 7) (.accepted 0) false]

theorem wholeFrames_always_sample :
    (exec Sender.step (Sender.init 2 0 fun _ => 0) sampleTraffic).map
        (·.connections.map fun k => (k.written.length, k.accepted.length)) =
      some [(1, 9), (3, 9 + 11)] ∧
      Always Sender.step Sender.WholeFrames (Sender.init 2 0 fun _ => 0) sampleTraffic :=
  ⟨by decide, wholeFrames_always 2 0 _ (by decide)⟩

/-- Three bytes of the header go out, then the payload. -/
theorem short_header_no_frame :
    ¬ Always Sender.step Sender.WholeFrames (Sender.init 2 0 fun _ => 0)
      [.writeData oneByte 3 (.accepted 2) (.accepted 0) true] := by
  intro h
  have hk := wholeFrames_iff.mp (h _ _ (List.prefix_refl _) rfl _ List.mem_cons_self)
  exact absurd hk (by decide)

end WholeFrames

end CommunicatorTCP

end RecsDaemon
