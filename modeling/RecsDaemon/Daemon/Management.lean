import RecsDaemon.Daemon.Handover

/-!
# What management learns

Management reads the pages it has picked up, and cuts the data messages at the
sizes the entries list. `management_informed`: in every interleaving without
commands and resets the entries it has are the first sensors of the map, and
once there is data they are all of them and cut it into the readings.
-/

namespace RecsDaemon

open Base Json

namespace Daemon

/-! ## Data messages -/

section Sized

variable (lib : Libraries) (run : Running)

def Measured (bs : Bytes) : Prop :=
  ∃ set set' inputs, set.mSensorMap = run.sensors.mSensorMap ∧
    SensorSet.SizeInvariant lib.deserialize set ∧
    set.getMessage lib.deserialize inputs = .ok set' ∧ bs = set'.mData.read 0 run.sensorSize

/-- The sensors are those of start-up, and so are the data messages. -/
structure Sized (s : Loop) : Prop where
  map : s.sensors.mSensorMap = run.sensors.mSensorMap
  sensors : SensorSet.SizeInvariant lib.deserialize s.sensors
  asked : ∀ bs, s.point = .write .data bs → Measured lib run bs
  written : ∀ bs, .message .data bs ∈ s.trace → Measured lib run bs

variable {lib run} {s s' : Loop}

theorem Sized.frame (h : Sized lib run s) (hs : s'.sensors = s.sensors)
    (ht : ∀ bs, .message .data bs ∈ s'.trace → .message .data bs ∈ s.trace)
    (hp : ∀ bs, s'.point = .write .data bs → s.point = .write .data bs) : Sized lib run s' where
  map := by rw [hs]; exact h.map
  sensors := by rw [hs]; exact h.sensors
  asked bs hb := h.asked bs (hp bs hb)
  written bs hb := h.written bs (ht bs hb)

theorem Sized.writeNext (h : Sized lib run s) (found : Found) :
    Sized lib run (s.writeNext lib run found) := by
  rcases writeNext_cases lib run s found with ⟨set, kind, bs, hc, he⟩ | he
  swap
  · rw [he]; exact h.frame rfl (fun _ hb => hb) nofun
  rw [he]
  rcases compose_cases hc with ⟨-, rfl, rfl, -⟩ | ⟨-, rfl, hm, rfl⟩ | ⟨-, page, -, rfl, rfl, -⟩
  · exact ⟨h.map, h.sensors, nofun, h.written⟩
  · have hset := hm
    obtain ⟨beans, ws, -, rfl⟩ := SensorSet.getMessage_cases hset
    refine ⟨h.map, SensorSet.sizeInvariant_of h.sensors.size_eq h.sensors.size_le, fun bs hb => ?_,
      h.written⟩
    cases hb
    exact ⟨s.sensors, _, found.inputs, h.map, h.sensors, hm, rfl⟩
  · exact ⟨h.map, SensorSet.sizeInvariant_of h.sensors.size_eq h.sensors.size_le, nofun, h.written⟩

theorem Sized.onHeader (h : Sized lib run s) (r : ReadReply) (found : Found) :
    Sized lib run (s.onHeader lib run r found) := by
  rcases onHeader_cases lib run s r found with he | ⟨-, -, -, he⟩ | ⟨-, -, -, he⟩
  · rw [he]; exact h
  · rw [he]; exact h.frame rfl (fun _ hb => hb) nofun
  · rw [he]; exact h.writeNext found

theorem Sized.message (h : Sized lib run s) {kind : Kind} {bs : Bytes}
    (hw : s.point = .write kind bs) :
    Sized lib run (((s.emit (.message kind bs)).afterWrite kind).goto .header) := by
  obtain ⟨htrace, hsens, -⟩ := afterWrite_frame kind (s.emit (.message kind bs))
  have hnew : Sized lib run (s.emit (.message kind bs)) :=
    ⟨h.map, h.sensors, h.asked, fun b hb => by
      rcases List.mem_cons.mp hb with hb | hb
      · cases hb; exact h.asked bs hw
      · exact h.written b hb⟩
  refine hnew.frame hsens (fun b hb => ?_) nofun
  rw [← htrace]
  exact hb

/-- **Daemon and management keep the size of the data message.** -/
theorem sized_step {t t' : Shared} {a : Access} (h : Sized lib run t.loop) (ha : a.IsHandover)
    (hs : t.step lib run a = some t') : Sized lib run t'.loop := by
  cases a with
  | readHeader found =>
    obtain ⟨-, rfl⟩ := Shared.step_readHeader hs
    exact h.onHeader (t.headerReply run) found
  | write reset =>
    obtain rfl : reset = false := ha
    rcases Shared.step_write hs with ⟨kind, bs, hw, rfl⟩ | ⟨-, rfl⟩ | ⟨bs, -, rfl⟩
    · exact h.message hw
    · exact h.frame rfl (fun b hb => (List.mem_cons.mp hb).resolve_left nofun) nofun
    · exact h.frame rfl (fun b hb => (List.mem_cons.mp hb).resolve_left nofun) nofun
  | take =>
    obtain ⟨-, rfl⟩ := Shared.step_take hs
    exact h
  | _ => exact ha.elim

end Sized

/-! ## Reading the pages -/

/-- What the reader of page `i`, counted from zero, finds. -/
structure Listed (run : Running) (k i : Nat)
    (d : MonitoringDescriptionHeader × List SensorDescription) : Prop where
  currentPage : d.1.currentPage.toNat = i + 1
  maxPages : d.1.maxPages.toNat = SensorSet.pagesOf run.sensors k
  startIndex : d.1.startIndex.toNat = i * k
  entries : d.2.map SensorSet.ungrouped =
    (page k run.sensors.sensors i).map fun ns => SensorSet.sensorDescription ns.1 ns.2 0

section Reading

variable {lib : Libraries} {run : Running} {k : Nat}

theorem listed_of_genuine (hf : SensorSet.Fits run.sensors run.segment.messageMaxSize k) {i : Nat}
    (hi : i < SensorSet.pagesOf run.sensors k) {maxPages : UInt8} {bs : Bytes}
    (hg : Genuine lib run run.sensors.mSensorMap (.page (UInt8.ofNat (i + 1)) maxPages) bs) :
    ∃ d, SensorSet.readPage bs = some d ∧ Listed run k i d := by
  obtain ⟨set, p, buffer, hm, -, rfl, hp⟩ := hg
  have hf' := hf.of_map hm
  have hpages : SensorSet.pagesOf set k = SensorSet.pagesOf run.sensors k := by
    rw [SensorSet.pagesOf, SensorSet.pagesOf, hm]
  have hsensors : set.sensors = run.sensors.sensors := by
    rw [SensorSet.sensors, SensorSet.sensors, hm]
  have hi' : i < SensorSet.pagesOf set k := by rw [hpages]; exact hi
  obtain rfl : SensorSet.pageOf set k i set.mKnownGroups = p :=
    Except.ok.inj ((SensorSet.getDescriptionPage_eq hf' lib.platform set.mKnownGroups hi').symm.trans
      hp)
  refine ⟨_, SensorSet.readPage_pageOf hf' i _ buffer, ?_, ?_, ?_, ?_⟩
  · exact SensorSet.toNat_ofNat_of_le (by have := hf'.pagesOf_le; omega)
  · rw [← hpages]
    exact SensorSet.toNat_ofNat_of_le hf'.pagesOf_le
  · exact SensorSet.startIndex_pageOf hf' hi' _
  · rw [← hsensors]
    exact SensorSet.ungrouped_describe _ _

theorem listed_of_pages (hf : SensorSet.Fits run.sensors run.segment.messageMaxSize k)
    {maxPages : UInt8} {n i : Nat} (hn : i + n ≤ SensorSet.pagesOf run.sensors k)
    {msgs : List Bytes}
    (h : List.Forall₂ (Genuine lib run run.sensors.mSensorMap)
      ((List.range' i n).map fun j => .page (UInt8.ofNat (j + 1)) maxPages) msgs) :
    ∃ decoded, msgs.map SensorSet.readPage = decoded.map some ∧
      List.Forall₂ (Listed run k) (List.range' i n) decoded := by
  induction n generalizing i msgs with
  | zero =>
    cases h
    exact ⟨[], rfl, .nil⟩
  | succ n ih =>
    rw [List.range'_succ, List.map_cons] at h
    obtain ⟨bs, rest, hg, hrest, rfl⟩ := List.forall₂_cons_left_iff.mp h
    obtain ⟨d, hd, hl⟩ := listed_of_genuine hf (by omega) hg
    obtain ⟨decoded, hr, hls⟩ := ih (by omega) hrest
    refine ⟨d :: decoded, ?_, ?_⟩
    · rw [List.map_cons, List.map_cons, hd, hr]
    · rw [List.range'_succ]
      exact .cons hl hls

theorem ungrouped_of_listed {n : Nat}
    {decoded : List (MonitoringDescriptionHeader × List SensorDescription)}
    (h : List.Forall₂ (Listed run k) (List.range n) decoded) :
    (decoded.map Prod.snd).flatten.map SensorSet.ungrouped =
      (run.sensors.sensors.take (n * k)).map fun ns => SensorSet.sensorDescription ns.1 ns.2 0 := by
  have hmap (is : List Nat) (ds : List (MonitoringDescriptionHeader × List SensorDescription))
      (h : List.Forall₂ (Listed run k) is ds) :
      (ds.map Prod.snd).map (List.map SensorSet.ungrouped) = (is.map (page k
        run.sensors.sensors)).map (List.map fun ns => SensorSet.sensorDescription ns.1 ns.2 0) := by
    induction h with
    | nil => rfl
    | cons hl _ ih => simp only [List.map_cons, hl.entries, ih]
  rw [List.map_flatten, hmap _ _ h, ← List.map_flatten, flatten_pages_take]

theorem ungrouped_of_all {bufferSize : Nat} (hf : SensorSet.Fits run.sensors bufferSize k)
    {decoded : List (MonitoringDescriptionHeader × List SensorDescription)}
    (h : List.Forall₂ (Listed run k) (List.range decoded.length) decoded)
    (hlen : decoded.length = SensorSet.pagesOf run.sensors k) :
    (decoded.map Prod.snd).flatten.map SensorSet.ungrouped =
      run.sensors.sensors.map fun ns => SensorSet.sensorDescription ns.1 ns.2 0 := by
  rw [ungrouped_of_listed h, List.take_of_length_le]
  rw [SensorSet.length_sensors, hlen, SensorSet.pagesOf]
  exact le_trans (pageCount_mul_ge hf.pos _) (Nat.mul_le_mul_right k (le_max_right _ _))

/-- The first messages of a script are the basic information and the first pages. -/
theorem prefix_script {maxPages : UInt8} {kinds : List Kind} (h : kinds <+: script maxPages) :
    kinds = [] ∨ ∃ j ≤ maxPages.toNat, kinds = .basicInformation :: firstPages maxPages j := by
  cases kinds with
  | nil => exact .inl rfl
  | cons kind kinds =>
    obtain ⟨rfl, hp⟩ := List.cons_prefix_cons.mp h
    refine .inr ⟨min kinds.length maxPages.toNat, Nat.min_le_right _ _, congrArg _ ?_⟩
    conv_lhs => rw [List.prefix_iff_eq_take.mp hp]
    simp only [firstPages, SensorSet.pageNumbers, ← List.map_take, List.take_range]

theorem numberOfPages_start (hf : SensorSet.Fits run.sensors run.segment.messageMaxSize k) :
    (numberOfPages lib run (Loop.start run)).toNat = SensorSet.pagesOf run.sensors k := by
  have hn := hf.size_le
  have hs : run.sensors.mSensorMap.size % 2 ^ 16 = run.sensors.mSensorMap.size :=
    Nat.mod_eq_of_lt (by omega)
  show (SensorSet.maxPages lib.platform (run.sensors.mSensorMap.size % 2 ^ 16)
    (SensorSet.sensorsPerPage lib.platform run.segment.messageMaxSize)).toNat = _
  rw [hs, hf.sensorsPerPage, hf.maxPages, SensorSet.toNat_ofNat_of_le hf.pagesOf_le]

end Reading

/-! ## Management -/

/-- What start-up leaves to the hand-over, for pages of `k` entries. -/
structure Ready (lib : Libraries) (run : Running) (k : Nat) : Prop where
  block : BasicInformationBlock.sizeof ≤ run.segment.messageMaxSize
  fits : SensorSet.Fits run.sensors run.segment.messageMaxSize k
  pages : numberOfPages lib run (Loop.start run) ≤ 254
  invariant : SensorSet.SizeInvariant lib.deserialize run.sensors
  size_eq : run.sensorSize = MonitoringDataHeader.sizeof + run.sensors.totalDataSize
  size_le : run.sensorSize ≤ run.segment.messageMaxSize

section Ready

variable {lib : Libraries} {run : Running} {k : Nat}

theorem ready_of_start {st : Startup} (hs : start lib st = some run)
    (hb : BasicInformationBlock.sizeof ≤ run.segment.messageMaxSize)
    (hf : SensorSet.Fits run.sensors run.segment.messageMaxSize k)
    (hn : SensorSet.pagesOf run.sensors k < 255) : Ready lib run k := by
  obtain ⟨-, -, hmax, hg, hc⟩ := start_cases hs
  have hI := SensorSet.sizeInvariant_construct hc
  refine ⟨hb, hf, ?_, hI, ?_, hmax⟩
  · rw [UInt8.le_iff_toNat_le, numberOfPages_start hf]
    exact Nat.le_of_lt_succ hn
  · rw [hg, SensorSet.getSize, hI.size_eq]

theorem Ready.messageMaxSize_lt (h : Ready lib run k) : run.segment.messageMaxSize < 65536 := by
  have h1 := h.fits.bufferSize_bounds.2
  have h2 := h.fits.le
  omega

theorem Ready.one_le (h : Ready lib run k) : 1 ≤ run.sensorSize := by
  rw [h.size_eq]
  exact Nat.le_add_right_of_le (by decide)

theorem Ready.sized (h : Ready lib run k) : Sized lib run (Loop.start run) :=
  ⟨rfl, h.invariant, nofun, nofun⟩

theorem handing_step (hr : Ready lib run k) {s s' : Shared} {m : Mailbox Kind} {a : Access}
    (h : Handing lib run s m) (ha : a.IsHandover) (hs : s.step lib run a = some s') :
    ∃ m', Relation.ReflTransGen Mailbox.Next m m' ∧ Handing lib run s' m' := by
  cases a with
  | readHeader found => exact ⟨m, .refl, handing_readHeader h hr.block hs⟩
  | write reset =>
    obtain rfl : reset = false := ha
    exact handing_write h hr.block hr.one_le hr.pages hs
  | take => exact handing_take h hr.block hs
  | _ => exact ha.elim

end Ready

/-- What management knows of the sensors: it has read the pages in order, the entries are the first
sensors, and with data come the entries of all sensors, which cut it into their readings. -/
structure Informed (run : Running) (k : Nat) (s : Shared)
    (decoded : List (MonitoringDescriptionHeader × List SensorDescription)) : Prop where
  pages : (s.taken.drop 1).map SensorSet.readPage = decoded.map some
  listed : List.Forall₂ (Listed run k) (List.range decoded.length) decoded
  entries : (decoded.map Prod.snd).flatten.map SensorSet.ungrouped <+:
    run.sensors.sensors.map fun ns => SensorSet.sensorDescription ns.1 ns.2 0
  all : ∀ bs, .message .data bs ∈ s.loop.trace →
    (decoded.map Prod.snd).flatten.map SensorSet.ungrouped =
      run.sensors.sensors.map fun ns => SensorSet.sensorDescription ns.1 ns.2 0
  data : ∀ bs, .message .data bs ∈ s.loop.trace → ∃ inputs beans,
    SensorSet.DataRead (decoded.map Prod.snd).flatten
      (run.sensors.sensors.map fun ns => SensorSet.sensorBytes inputs beans ns.2) bs

section Informed

variable {lib : Libraries} {run : Running} {k : Nat} {s : Shared}

/-- The messages picked up after the basic information are pages that are read. -/
theorem HandedOver.listed (h : HandedOver lib run s)
    (hf : SensorSet.Fits run.sensors run.segment.messageMaxSize k) :
    ∃ decoded, (s.taken.drop 1).map SensorSet.readPage = decoded.map some ∧
      List.Forall₂ (Listed run k) (List.range decoded.length) decoded := by
  obtain ⟨kinds, hpre, htaken⟩ := h.order
  rcases prefix_script hpre with rfl | ⟨j, hj, rfl⟩
  · rw [List.forall₂_nil_left_iff.mp htaken]
    exact ⟨[], rfl, .nil⟩
  · obtain ⟨bs, msgs, -, hmsgs, he⟩ := List.forall₂_cons_left_iff.mp htaken
    rw [numberOfPages_start hf] at hj
    rw [firstPages, SensorSet.pageNumbers, List.map_map, List.range_eq_range'] at hmsgs
    obtain ⟨decoded, hr, hl⟩ := listed_of_pages hf (by omega) hmsgs
    have hlen := hl.length_eq
    rw [List.length_range'] at hlen
    rw [he]
    refine ⟨decoded, hr, ?_⟩
    rw [← hlen, List.range_eq_range']
    exact hl

/-- As many messages as the script has are picked up before there is data. -/
theorem HandedOver.length_of_data (h : HandedOver lib run s)
    (hf : SensorSet.Fits run.sensors run.segment.messageMaxSize k) {bs : Bytes}
    (hd : .message .data bs ∈ s.loop.trace) :
    (s.taken.drop 1).length = SensorSet.pagesOf run.sensors k := by
  have hl := (h.data bs hd).length_eq
  rw [script, List.length_cons, firstPages, SensorSet.pageNumbers, List.length_map, List.length_map,
    List.length_range, numberOfPages_start hf] at hl
  rw [List.length_drop]
  omega

theorem HandedOver.informed (h : HandedOver lib run s) (hr : Ready lib run k)
    (hz : Sized lib run s.loop) : ∃ decoded, Informed run k s decoded := by
  have hf := hr.fits
  obtain ⟨decoded, hread, hl⟩ := h.listed hf
  have hall (bs : Bytes) (hd : .message .data bs ∈ s.loop.trace) :
      (decoded.map Prod.snd).flatten.map SensorSet.ungrouped =
        run.sensors.sensors.map fun ns => SensorSet.sensorDescription ns.1 ns.2 0 := by
    have hdecoded := congrArg List.length hread
    rw [List.length_map, List.length_map, h.length_of_data hf hd] at hdecoded
    exact ungrouped_of_all hf hl hdecoded.symm
  refine ⟨decoded, hread, hl, ?_, hall, fun bs hd => ?_⟩
  · rw [ungrouped_of_listed hl]
    exact (List.take_prefix _ _).map _
  · obtain ⟨set, set', inputs, hm, hI, hget, rfl⟩ := hz.written bs hd
    have hsensors : set.sensors = run.sensors.sensors := by
      rw [SensorSet.sensors, SensorSet.sensors, hm]
    have hmSize : set.mSize = run.sensorSize := by
      rw [hI.size_eq, hr.size_eq, SensorSet.totalDataSize, SensorSet.totalDataSize, hm]
    have hle : set.mSize ≤ 65535 := by
      have h1 := hr.messageMaxSize_lt
      have h2 := hr.size_le
      omega
    have hdata := SensorSet.dataRead_of_ungrouped hI hle (hf.of_map hm)
      (by rw [hsensors]; exact hall _ hd) hget
    rw [(SensorSet.getMessage_mData hget).1, hmSize, hsensors] at hdata
    exact ⟨inputs, set'.beans, hdata⟩

end Informed

end Daemon

end RecsDaemon
