import RecsDaemon.Base.CString
import RecsDaemon.Double

/-!
# Messages of the shared memory

The packed structures of `daemon_msgs.h`: their sizes, field offsets and bytes.
Multi-byte fields of messages are big-endian; those of the daemon header are in
the order of the host, little-endian.
-/

namespace RecsDaemon

open Base

/-- `std::string`. -/
abbrev Text := Bytes

/-! ## Message header -/

/-- `Message_Type`. -/
inductive MessageType where
  | empty
  | monitoringDescription
  | monitoringData
  | command
  | commandResult
  | basicInformation
deriving DecidableEq

/-- The type byte of a message. -/
def MessageType.code : MessageType → UInt8
  | .empty => 0
  | .monitoringDescription => 1
  | .monitoringData => 2
  | .command => 3
  | .commandResult => 4
  | .basicInformation => 5

theorem MessageType.code_injective : Function.Injective MessageType.code := by
  intro a b h
  cases a <;> cases b <;> first | rfl | (exact absurd h (by decide))

/-- `Message_Header`, the size as `ntohs` gives it. -/
structure MessageHeader where
  type : UInt8
  size : UInt16
  version : UInt8
deriving DecidableEq

namespace MessageHeader

def sizeof : Nat := 4

def ofMem (m : Mem) (off : Nat) : MessageHeader :=
  ⟨m off, UInt16.ofNat (ofBE (m.read (off + 1) 2)), m (off + 3)⟩

/-- The header depends on its four bytes only, wherever they are. -/
theorem ofMem_congr {m m' : Mem} {off off' : Nat} (h : m.read off 4 = m'.read off' 4) :
    ofMem m off = ofMem m' off' := by
  have hb : ∀ i < 4, m (off + i) = m' (off' + i) := fun i hi =>
    List.map_inj_left.mp h i (List.mem_range.mpr hi)
  have h0 : m off = m' off' := hb 0 (by omega)
  have hr : m.read (off + 1) 2 = m'.read (off' + 1) 2 := List.map_inj_left.mpr fun i hi => by
    have h1 := hb (1 + i) (by have := List.mem_range.mp hi; omega)
    rwa [← Nat.add_assoc, ← Nat.add_assoc] at h1
  rw [ofMem, ofMem, h0, hr, hb 3 (by omega)]

end MessageHeader

/-! ## Monitoring data and description -/

def MonitoringDataHeader.sizeof : Nat := 7

def sensorNameLength : Nat := 29

/-- `Monitoring_Description_Header`. -/
structure MonitoringDescriptionHeader where
  header : MessageHeader
  currentPage : UInt8
  maxPages : UInt8
  sensorEntries : UInt8
  startIndex : UInt16
deriving DecidableEq

namespace MonitoringDescriptionHeader

def sizeof : Nat := 9

def bytes (h : MonitoringDescriptionHeader) : Bytes :=
  [[h.header.type], be 2 h.header.size.toNat, [h.header.version], [h.currentPage], [h.maxPages],
    [h.sensorEntries], be 2 h.startIndex.toNat].flatten

def ofBytes (bs : Bytes) : Option MonitoringDescriptionHeader :=
  match List.splitLengths [1, 2, 1, 1, 1, 1, 2] bs with
  | [[ty], sz, [ver], [cur], [max], [ents], start] =>
    some ⟨⟨ty, UInt16.ofNat (ofBE sz), ver⟩, cur, max, ents, UInt16.ofNat (ofBE start)⟩
  | _ => none

@[simp] theorem length_bytes (h : MonitoringDescriptionHeader) : h.bytes.length = 9 := by
  simp [bytes]

end MonitoringDescriptionHeader

@[simp] theorem ofBE_be_uint16 (v : UInt16) : UInt16.ofNat (ofBE (be 2 v.toNat)) = v := by
  rw [ofBE_be_of_lt v.toNat_lt, UInt16.ofNat_toNat]

theorem MonitoringDescriptionHeader.ofBytes_bytes (h : MonitoringDescriptionHeader)
    (rest : Bytes) : ofBytes (h.bytes ++ rest) = some h := by
  have hs := splitLengths_flatten [[h.header.type], be 2 h.header.size.toNat, [h.header.version],
    [h.currentPage], [h.maxPages], [h.sensorEntries], be 2 h.startIndex.toNat] rest
  simp only [List.map_cons, List.map_nil, length_be, List.length_cons, List.length_nil,
    Nat.zero_add] at hs
  simp only [ofBytes, bytes, hs, ofBE_be_uint16]

/-- `Sensor_Description`: one entry of a description page. -/
structure SensorDescription where
  entryLength : UInt8
  name : Field sensorNameLength
  dataType : UInt8
  unit : UInt8
  maxDataSize : UInt16
  useLowerThresholds : UInt8
  useUpperThresholds : UInt8
  lowerCriticalThreshold : Double
  lowerWarningThreshold : Double
  upperWarningThreshold : Double
  upperCriticalThreshold : Double
  numberOfValues : UInt16
  groupId : UInt8
  renderingType : UInt8
deriving DecidableEq

namespace SensorDescription

def sizeof : Nat := 72

def fields (d : SensorDescription) : List Bytes :=
  [[d.entryLength], d.name.1, [d.dataType], [d.unit], be 2 d.maxDataSize.toNat,
    [d.useLowerThresholds], [d.useUpperThresholds], d.lowerCriticalThreshold.bytes,
    d.lowerWarningThreshold.bytes, d.upperWarningThreshold.bytes, d.upperCriticalThreshold.bytes,
    be 2 d.numberOfValues.toNat, [d.groupId], [d.renderingType]]

def bytes (d : SensorDescription) : Bytes := d.fields.flatten

def lengths : List Nat := [1, 29, 1, 1, 2, 1, 1, 8, 8, 8, 8, 2, 1, 1]

def ofBytes (bs : Bytes) : Option SensorDescription :=
  match lengths.splitLengths bs with
  | [[len], name, [ty], [unit], sz, [ul], [uu], lc, lw, uw, uc, nv, [gr], [re]] =>
    if h : name.length = sensorNameLength then
      some ⟨len, ⟨name, h⟩, ty, unit, UInt16.ofNat (ofBE sz), ul, uu, .ofBytes lc, .ofBytes lw,
        .ofBytes uw, .ofBytes uc, UInt16.ofNat (ofBE nv), gr, re⟩
    else none
  | _ => none

theorem map_length_fields (d : SensorDescription) : d.fields.map List.length = lengths := by
  have hn : d.name.1.length = 29 := d.name.2
  simp [fields, lengths, hn]

@[simp] theorem length_bytes (d : SensorDescription) : d.bytes.length = sizeof := by
  rw [bytes, List.length_flatten, map_length_fields]; rfl

theorem ofBytes_bytes (d : SensorDescription) (rest : Bytes) :
    ofBytes (d.bytes ++ rest) = some d := by
  have hs : lengths.splitLengths (d.bytes ++ rest) = d.fields := by
    rw [← map_length_fields d]; exact splitLengths_flatten d.fields rest
  simp only [ofBytes, hs, fields, d.name.2, ofBE_be_uint16, Double.ofBytes_bytes, dite_true]

end SensorDescription

/-! ## Other structures -/

/-- `Daemon_Header`, at the beginning of the shared memory. -/
structure DaemonHeader where
  magic : Bytes
  size : UInt16
  baseboardID : UInt8
  maxSlots : UInt8
  version : UInt8
  chunksOffset : UInt16
  dynamicAreaOffset : UInt16
deriving DecidableEq

namespace DaemonHeader

def sizeof : Nat := 14

def ofMem (m : Mem) : DaemonHeader where
  magic := m.read 0 4
  size := UInt16.ofNat (ofLE (m.read 4 2))
  baseboardID := m 6
  maxSlots := m 7
  version := m 8
  chunksOffset := UInt16.ofNat (ofLE (m.read 10 2))
  dynamicAreaOffset := UInt16.ofNat (ofLE (m.read 12 2))

def hasMagic (hdr : DaemonHeader) : Bool := hdr.magic = ascii "RECS"

end DaemonHeader

def ChunkHeader.sizeof : Nat := 3

def chunkTypeMonitoring : UInt8 := 1

def BBMonitoring.sizeof : Nat := 57

def BasicInformationBlock.sizeof : Nat := 315

def hostnameLength : Nat := 256

def commandMaxLength : Nat := 64

def signatureLength : Nat := 128

namespace CommandHeader

/-! The offsets of the fields of `Command_Header`. -/

def baseboard : Nat := 4

def slot : Nat := 5

def command : Nat := 10

def signature : Nat := command + commandMaxLength

def parametersLength : Nat := signature + signatureLength

def sizeof : Nat := parametersLength + 2

theorem signature_eq : signature = 74 := rfl

theorem parametersLength_eq : parametersLength = 202 := rfl

theorem sizeof_eq : sizeof = 204 := rfl

end CommandHeader

end RecsDaemon
