import RecsDaemon.Daemon.Command
import RecsDaemon.Node
import RecsDaemon.Base.Except

/-!
# Start-up

The part of `Daemon::run` before its loop: the headers are read, the slot is
determined, the segment of the shared memory is computed, and the node is made
with its sensors. `start` is `none` where `run` returns -1.
-/

namespace RecsDaemon

open Base Json

namespace Daemon

/-- What the daemon calls: the check of signatures, the JSON library, the platform. -/
structure Libraries where
  checkSignature : Bytes → Bytes → Bool
  deserialize : Deserialize
  platform : Platform

/-- What start-up finds of a communicator. -/
structure Interface where
  initInterface : Bool
  header : ReadReply

/-- The configuration, the plugins it names and the memory of a new `SensorSet`. -/
structure Startup where
  communicatorPluginName : Text
  communicator : Option Interface
  baseboardCommunicatorPluginName : Text
  baseboardCommunicator : Option Interface
  defaultSlot : Int32
  slotDetectorPluginName : Text
  slotDetector : Option Int8
  sensors : SensorsConfig
  factories : Factories
  mData : Mem
  beans : Beans

structure Segment where
  messageOffset : Nat
  messageMaxSize : Nat
deriving DecidableEq

structure Running where
  hdr : DaemonHeader
  mSlot : Int8
  segment : Segment
  node : NodeAddress
  type : Node.NodeType
  sensors : SensorSet
  sensorSize : Nat

/-- The header behind an interface that works. -/
def readHeader (comm : Option Interface) : Option DaemonHeader := do
  let comm ← comm
  if comm.initInterface ∧ comm.header.taken then
    let hdr := DaemonHeader.ofMem comm.header.buf
    if hdr.hasMagic then pure hdr else none
  else none

/-- The header of the baseboard, if it has a communicator of its own. -/
def baseboardHeader (st : Startup) (hdr : DaemonHeader) : Option DaemonHeader :=
  if st.baseboardCommunicatorPluginName ≠ [] then readHeader st.baseboardCommunicator
  else some hdr

/-- `mSlot`, from the detector if there is one; only a detected slot is checked. -/
def detectSlot (st : Startup) : Option Int8 :=
  if st.slotDetectorPluginName ≠ [] then do
    let slot ← st.slotDetector
    if slot < 0 then none else pure slot
  else pure st.defaultSlot.toInt8

/-- The begin of the area that is shared out to the nodes. -/
def dynamicArea (hdr : DaemonHeader) : Nat :=
  -- the former size of the header and of the monitoring data
  if hdr.version < 3 then 9 + 57 else hdr.dynamicAreaOffset.toNat

/-- The segment of a slot, computed in `size_t`. -/
def segmentOf (hdr : DaemonHeader) (slot : Int8) : Segment :=
  let messageOffset := dynamicArea hdr
  let messageMaxSize := (hdr.size.toNat + 2 ^ 64 - messageOffset) % 2 ^ 64
  if 1 < hdr.maxSlots then
    let messageMaxSize := messageMaxSize / hdr.maxSlots.toNat
    let slot := (slot.toInt % 2 ^ 64).toNat
    ⟨(messageOffset + slot * messageMaxSize) % 2 ^ 64, messageMaxSize⟩
  else ⟨messageOffset, messageMaxSize⟩

/-- The address of the node; a baseboard without a logical ID counts as 0. -/
def addressOf (baseboard : DaemonHeader) (slot : Int8) : NodeAddress where
  baseboard := if baseboard.baseboardID &&& 0x80 = 0 then baseboard.baseboardID else 0
  slot := slot.toUInt8

def nodeType (baseboard : DaemonHeader) : Node.NodeType :=
  if baseboard.maxSlots = 4 then .apalis else .cxp

/-- From the slot on: the segment has to take the header of a message, and the sensors' data. -/
def prepare (lib : Libraries) (st : Startup) (hdr baseboard : DaemonHeader) (slot : Int8) :
    Option Running :=
  let segment := segmentOf hdr slot
  if segment.messageMaxSize < MessageHeader.sizeof then none
  else do
    let sensors ← (SensorSet.construct lib.deserialize lib.platform st.sensors st.factories
      st.mData st.beans).toOption
    if segment.messageMaxSize < sensors.getSize then none
    else some ⟨hdr, slot, segment, addressOf baseboard slot, nodeType baseboard, sensors,
      sensors.getSize⟩

def start (lib : Libraries) (st : Startup) : Option Running :=
  if st.communicatorPluginName = [] then none
  else do
    let hdr ← readHeader st.communicator
    let baseboard ← baseboardHeader st hdr
    if baseboard.maxSlots = 0 then none
    else do
      let slot ← detectSlot st
      prepare lib st hdr baseboard slot

/-- What start-up has made sure of when the loop is entered. -/
theorem start_cases {lib : Libraries} {st : Startup} {run : Running} (h : start lib st = some run) :
    run.segment = segmentOf run.hdr run.mSlot ∧
      MessageHeader.sizeof ≤ run.segment.messageMaxSize ∧
      run.sensorSize ≤ run.segment.messageMaxSize ∧ run.sensorSize = run.sensors.getSize ∧
      SensorSet.construct lib.deserialize lib.platform st.sensors st.factories st.mData st.beans =
        .ok run.sensors := by
  unfold start at h
  split at h
  · cases h
  obtain ⟨hdr, -, h⟩ := Option.bind_eq_some_iff.mp h
  obtain ⟨baseboard, -, h⟩ := Option.bind_eq_some_iff.mp h
  split at h
  · cases h
  obtain ⟨slot, -, h⟩ := Option.bind_eq_some_iff.mp h
  simp only [prepare] at h
  split at h
  · cases h
  next hm =>
  obtain ⟨sensors, hs, h⟩ := Option.bind_eq_some_iff.mp h
  split at h
  · cases h
  next hsize =>
  cases h
  exact ⟨rfl, Nat.not_lt.mp hm, Nat.not_lt.mp hsize, rfl, toOption_eq_some.mp hs⟩

theorem readHeader_cases {comm : Option Interface} {hdr : DaemonHeader}
    (h : readHeader comm = some hdr) : ∃ c, comm = some c ∧ c.initInterface = true ∧
      c.header.taken = true ∧ hdr = .ofMem c.header.buf ∧ hdr.hasMagic = true := by
  obtain ⟨c, hcomm, h⟩ := Option.bind_eq_some_iff.mp h
  split at h
  · next hc =>
    dsimp only at h
    split at h
    · next hm =>
      cases h
      exact ⟨c, hcomm, hc.1, hc.2, rfl, hm⟩
    · cases h
  · cases h

theorem start_header {lib : Libraries} {st : Startup} {run : Running}
    (h : start lib st = some run) : readHeader st.communicator = some run.hdr := by
  unfold start at h
  split at h
  · cases h
  obtain ⟨hdr, hh, h⟩ := Option.bind_eq_some_iff.mp h
  obtain ⟨baseboard, -, h⟩ := Option.bind_eq_some_iff.mp h
  split at h
  · cases h
  obtain ⟨slot, -, h⟩ := Option.bind_eq_some_iff.mp h
  simp only [prepare] at h
  split at h
  · cases h
  obtain ⟨sensors, -, h⟩ := Option.bind_eq_some_iff.mp h
  split at h
  · cases h
  cases h
  exact hh

/-! ## A sample -/

/-- The bytes of a header of version 3 for 1024 bytes of shared memory, all behind it to be used. -/
def sampleHeader (maxSlots : UInt8) : Mem := fun a =>
  (ascii "RECS" ++ [0, 4, 1, maxSlots, 3, 0, 14, 0, 14, 0]).getD a 0

/-- A daemon with some sample sensors whose slot is configured. -/
def Startup.sample (maxSlots : UInt8) (slot : Int32) (sensors : Nat) : Startup where
  communicatorPluginName := ascii "c"
  communicator := some ⟨true, 14, sampleHeader maxSlots⟩
  baseboardCommunicatorPluginName := []
  baseboardCommunicator := none
  defaultSlot := slot
  slotDetectorPluginName := []
  slotDetector := none
  sensors := .sample sensors
  factories := .sample
  mData := fun _ => 0
  beans := fun _ _ => 0

def Libraries.sample : Libraries := ⟨fun _ _ => true, fun _ => .ok .null, .x86⟩

example : (start .sample (.sample 2 1 3)).map Running.segment = some ⟨14 + 505, 505⟩ := by rfl

end Daemon

end RecsDaemon
