import RecsDaemon.Node
import RecsDaemon.SensorSet.Names

/-!
# Leftover memory

The messages are put together in memory from `malloc`. A description page
consists of what is written into it. The basic information block and the data
message leave the version of the message header as it was (`determined_iff`);
of the other bytes they write, none depends on that memory (`sent_agrees`).
Memory from `malloc` is meant throughout. What the stack leaves in the addresses
of the adapters is part of `HostInfo`, and the same in the runs compared here.
-/

namespace RecsDaemon

open Base Json

/-- What memory from `malloc` holds: the buffer of a message, and those of the beans. -/
structure Leftover where
  buffer : Mem
  beans : Beans

/-- A set whose buffers held this memory. -/
def SensorSet.withLeftover (set : SensorSet) (l : Leftover) : SensorSet :=
  { set with mData := l.buffer, beans := l.beans }

/-- The messages of the daemon, with the state of the node and the sensors they come from. -/
inductive Message where
  | basicInformation (host : Node.HostInfo) (bufferSize : Nat)
  | descriptionPage (pf : Platform) (bufferSize : Nat) (page : UInt8) (set : SensorSet)
  | data (deserialize : Deserialize) (inp : Inputs) (set : SensorSet)

namespace Message

def sent (l : Leftover) : Message → Except Fault Bytes
  | basicInformation host bufferSize => pure (Node.basicInformationBytes host bufferSize l.buffer)
  | descriptionPage pf bufferSize page set => do
    let p ← SensorSet.getDescriptionPage pf bufferSize page (set.withLeftover l)
    pure (p.bytes l.buffer)
  | data deserialize inp set => do
    let set ← SensorSet.getMessage deserialize inp (set.withLeftover l)
    pure (set.mData.read 0 set.mSize)

/-- Two runs that differ in the memory send the same. -/
def Determined (msg : Message) : Prop :=
  ∀ l l' bs bs', msg.sent l = .ok bs → msg.sent l' = .ok bs' → bs = bs'

/-- Every byte is written: the version is, or the message ends before it. -/
def AllWritten : Message → Prop
  | basicInformation _ bufferSize => bufferSize < BasicInformationBlock.sizeof
  | descriptionPage _ _ _ _ => True
  | data _ _ set => set.mSize ≤ 3

section Encoders

/-! ## The three encoders -/

variable {l l' : Leftover} {bs bs' : Bytes}

/-- All bytes of the block are written but one. -/
theorem basicInformation_covered {host : Node.HostInfo} {bufferSize i : Nat}
    (hb : ¬ bufferSize < BasicInformationBlock.sizeof) (hi : i < BasicInformationBlock.sizeof) :
    (∃ w ∈ (Node.getBasicInformationBlock host bufferSize).1, Mem.Covers w i) ↔ i ≠ 3 := by
  have hs : BasicInformationBlock.sizeof = 315 := rfl
  rw [Node.getBasicInformationBlock, if_neg hb]
  simp only [List.mem_cons, List.not_mem_nil, or_false, exists_eq_or_imp, exists_eq_left,
    Mem.Covers, List.length_append, List.length_cons, length_be, Node.length_interfaceBytes,
    length_strncpy, MessageHeader.sizeof, host.daemonVersion.2, hostnameLength]
  omega

theorem basicInformation_version {host : Node.HostInfo} {bufferSize : Nat} {m : Mem}
    (hb : ¬ bufferSize < BasicInformationBlock.sizeof) :
    (Node.basicInformationBytes host bufferSize m)[3]? = some (m 3) := by
  have hnot := (@basicInformation_covered host bufferSize 3 hb (by decide)).not.mpr
    (not_not_intro rfl)
  have hsize : 3 < (Node.getBasicInformationBlock host bufferSize).2 := by
    rw [Node.getBasicInformationBlock, if_neg hb]
    exact (by decide : 3 < BasicInformationBlock.sizeof)
  unfold Node.basicInformationBytes
  rw [Mem.getElem?_read hsize, Mem.writeAll_uncovered fun w hw hc => hnot ⟨w, hw, hc⟩]

/-- A buffer that is too small gets nothing. -/
theorem basicInformation_none {host : Node.HostInfo} {bufferSize : Nat}
    (hb : bufferSize < BasicInformationBlock.sizeof)
    (h : (basicInformation host bufferSize).sent l = .ok bs)
    (h' : (basicInformation host bufferSize).sent l' = .ok bs') : bs = bs' := by
  cases h
  cases h'
  unfold Node.basicInformationBytes Node.getBasicInformationBlock
  rw [if_pos hb]
  rfl

theorem page_determined {pf : Platform} {bufferSize : Nat} {page : UInt8} {set : SensorSet}
    (h : (descriptionPage pf bufferSize page set).sent l = .ok bs)
    (h' : (descriptionPage pf bufferSize page set).sent l' = .ok bs') : bs = bs' := by
  obtain ⟨p, hp, h⟩ := bind_eq_ok.mp h
  obtain ⟨p', hp', h'⟩ := bind_eq_ok.mp h'
  obtain ⟨hdr, -, hbytes⟩ := SensorSet.bytes_of_ok hp
  have hsame : p = p' := Except.ok.inj (hp.symm.trans hp')
  cases h
  cases h'
  rw [← hsame, hbytes, hbytes]

/-- All bytes of the header and of the sensors are written but one. -/
theorem data_covered {set : SensorSet} {data : Bytes} {i : Nat}
    (hi : i < MonitoringDataHeader.sizeof + data.length) :
    (∃ w ∈ set.headerWrites ++ [(MonitoringDataHeader.sizeof, data)], Mem.Covers w i) ↔ i ≠ 3 := by
  have hs : MonitoringDataHeader.sizeof = 7 := rfl
  simp only [SensorSet.headerWrites, List.mem_append, List.mem_cons, List.not_mem_nil, or_false,
    or_assoc, exists_eq_or_imp, exists_eq_left, Mem.Covers, List.length_append, List.length_cons,
    length_be, List.length_nil]
  omega

theorem data_sent {deserialize : Deserialize} {inp : Inputs} {set : SensorSet}
    (h : (data deserialize inp set).sent l = .ok bs) :
    ∃ data, (∃ beans, SensorSet.updateAll deserialize inp (set.withLeftover l) = .ok beans ∧
        data = (set.sensors.map fun ns => SensorSet.sensorBytes inp beans ns.2).flatten) ∧
      data.length = set.totalDataSize ∧
      bs = (l.buffer.writeAll
        (set.headerWrites ++ [(MonitoringDataHeader.sizeof, data)])).read 0 set.mSize := by
  obtain ⟨set', hset, h⟩ := bind_eq_ok.mp h
  obtain ⟨hs, hm⟩ := SensorSet.getMessage_mData hset
  obtain ⟨beans, ws, hw, rfl⟩ := SensorSet.getMessage_cases hset
  cases h
  refine ⟨_, ⟨beans, (SensorSet.messageWrites_ok hw).1, rfl⟩, SensorSet.length_data inp beans set, ?_⟩
  rw [Mem.writeAll_append]
  exact congrArg (fun m => m.read 0 set.mSize) hm

theorem data_version {deserialize : Deserialize} {inp : Inputs} {set : SensorSet}
    (hsize : 3 < set.mSize) (h : (data deserialize inp set).sent l = .ok bs) :
    bs[3]? = some (l.buffer 3) := by
  obtain ⟨bytes, -, -, rfl⟩ := data_sent h
  have hnot := (@data_covered set bytes 3 (by
    have hs : MonitoringDataHeader.sizeof = 7 := rfl
    omega)).not.mpr (not_not_intro rfl)
  rw [Mem.getElem?_read hsize, Mem.writeAll_uncovered fun w hw hc => hnot ⟨w, hw, hc⟩]

/-- The beginning of the header does not depend on the sensors. -/
theorem data_header {deserialize : Deserialize} {inp : Inputs} {set : SensorSet}
    (hsize : set.mSize ≤ 3) (h : (data deserialize inp set).sent l = .ok bs)
    (h' : (data deserialize inp set).sent l' = .ok bs') : bs = bs' := by
  obtain ⟨bytes, -, -, rfl⟩ := data_sent h
  obtain ⟨bytes', -, -, rfl⟩ := data_sent h'
  apply Mem.read_congr
  intro a _ ha
  have hs : MonitoringDataHeader.sizeof = 7 := rfl
  have hbelow : a < MonitoringDataHeader.sizeof := by omega
  rw [Mem.writeAll_append, Mem.writeAll_append, Mem.writeAll_cons, Mem.writeAll_cons,
    Mem.writeAll_nil, Mem.writeAll_nil, Mem.write_below hbelow, Mem.write_below hbelow]
  exact Mem.writeAll_covered ⟨_, List.mem_cons_self, Nat.zero_le _, by simp; omega⟩

/-- A message that is sent with some memory is sent with any buffer. -/
theorem data_sent_of_sent {deserialize : Deserialize} {inp : Inputs} {set : SensorSet}
    (h : (data deserialize inp set).sent l = .ok bs) (buffer : Mem) :
    ∃ bs', (data deserialize inp set).sent ⟨buffer, l.beans⟩ = .ok bs' := by
  obtain ⟨-, ⟨beans, hup, -⟩, -⟩ := data_sent h
  have hup' : (set.withLeftover ⟨buffer, l.beans⟩).updateAll deserialize inp = .ok beans := hup
  obtain ⟨set', hset⟩ := SensorSet.getMessage_of_updateAll hup'
  exact ⟨_, bind_eq_ok.mpr ⟨set', hset, rfl⟩⟩

end Encoders

/-! ## The leftover byte -/

section LeftoverByte

variable {msg : Message}

/-- **A message is determined exactly if all its bytes are written**. -/
theorem determined_iff (h : ∃ l bs, msg.sent l = .ok bs) : msg.Determined ↔ msg.AllWritten := by
  obtain ⟨l, bs, hsent⟩ := h
  cases msg with
  | basicInformation host bufferSize =>
    constructor
    · intro hd
      by_contra hb
      have hsame := hd ⟨fun _ => 0, l.beans⟩ ⟨fun _ => 1, l.beans⟩ _ _ rfl rfl
      have hbyte := congrArg (fun bs => bs[3]?) hsame
      simp only [basicInformation_version hb] at hbyte
      exact absurd hbyte (by decide)
    · exact fun hb _ _ _ _ => basicInformation_none hb
  | descriptionPage pf bufferSize page set =>
    exact iff_of_true (fun _ _ _ _ => page_determined) trivial
  | data deserialize inp set =>
    constructor
    · intro hd
      by_contra hsize
      have hsize : 3 < set.mSize := Nat.not_le.mp hsize
      obtain ⟨bs', hsent'⟩ := data_sent_of_sent hsent fun _ => l.buffer 3 + 1
      have h3 := data_version hsize hsent
      rw [hd _ _ _ _ hsent hsent', data_version hsize hsent'] at h3
      exact absurd (Option.some.inj h3) (by simp)
    · exact fun hsize _ _ _ _ => data_header hsize

/-- The bytes an encoder is there for. -/
def extent : Message → Nat
  | basicInformation _ _ => BasicInformationBlock.sizeof
  | descriptionPage _ bufferSize _ _ => bufferSize
  | data _ _ set => MonitoringDataHeader.sizeof + set.totalDataSize

/-- For the same beans, and the same `HostInfo`, all the other bytes are the same. -/
theorem sent_agrees {l l' : Leftover} {bs bs' : Bytes} (hbeans : l.beans = l'.beans)
    (h : msg.sent l = .ok bs) (h' : msg.sent l' = .ok bs') {i : Nat} (hi : i ≠ 3)
    (hext : i < msg.extent) : bs[i]? = bs'[i]? := by
  cases msg with
  | basicInformation host bufferSize =>
    by_cases hb : bufferSize < BasicInformationBlock.sizeof
    · rw [basicInformation_none hb h h']
    · cases h
      cases h'
      have hext : i < BasicInformationBlock.sizeof := hext
      have hcover := (@basicInformation_covered host _ _ hb hext).mpr hi
      have hsize : (Node.getBasicInformationBlock host bufferSize).2 =
          BasicInformationBlock.sizeof := by
        rw [Node.getBasicInformationBlock, if_neg hb]
      unfold Node.basicInformationBytes
      rw [hsize, Mem.getElem?_read hext, Mem.getElem?_read hext, Mem.writeAll_covered hcover]
  | descriptionPage pf bufferSize page set => rw [page_determined h h']
  | data deserialize inp set =>
    obtain ⟨bytes, ⟨beans, hup, rfl⟩, hlen, rfl⟩ := data_sent h
    obtain ⟨bytes', ⟨beans', hup', rfl⟩, -, rfl⟩ := data_sent h'
    have hsame : beans = beans' := by
      have hset : SensorSet.updateAll deserialize inp (set.withLeftover l) =
          SensorSet.updateAll deserialize inp (set.withLeftover l') := by
        unfold SensorSet.updateAll SensorSet.withLeftover
        rw [hbeans]
      exact Except.ok.inj (hup.symm.trans (hset.trans hup'))
    subst hsame
    have hext : i < MonitoringDataHeader.sizeof + set.totalDataSize := hext
    rw [← hlen] at hext
    have hcover := (@data_covered set _ _ hext).mpr hi
    by_cases hin : i < set.mSize
    · rw [Mem.getElem?_read hin, Mem.getElem?_read hin, Mem.writeAll_covered hcover]
    · rw [List.getElem?_eq_none (by rw [Mem.length_read]; omega),
        List.getElem?_eq_none (by rw [Mem.length_read]; omega)]

/-- The second page of three sensors, and their data. -/
theorem determined_iff_sample :
    ∃ set, SensorSet.constructSample (fun _ => .ok .null) 3 = .ok set ∧
      (descriptionPage .x86 153 1 set).Determined ∧
      ¬ (data (fun _ => .ok .null) .zero set).Determined := by
  refine ⟨_, rfl, (determined_iff ?_).mpr trivial, fun hd => absurd ((determined_iff ?_).mp hd) ?_⟩
  · exact ⟨⟨fun _ => 0, fun _ _ => 0⟩, _, rfl⟩
  · exact ⟨⟨fun _ => 0, fun _ _ => 0⟩, _, rfl⟩
  · exact (by decide : ¬ 10 ≤ 3)

/-- The block of a node, in two buffers. -/
theorem basicInformation_leaks : ¬ (basicInformation .none 315).Determined := by
  intro hd
  have hsame := hd ⟨fun _ => 0, fun _ _ => 0⟩ ⟨fun _ => 1, fun _ _ => 0⟩ _ _ rfl rfl
  have hbyte := congrArg (fun bs => bs[3]?) hsame
  simp only [basicInformation_version (show ¬ 315 < BasicInformationBlock.sizeof by decide)] at hbyte
  exact absurd hbyte (by decide)

end LeftoverByte

end Message

end RecsDaemon
