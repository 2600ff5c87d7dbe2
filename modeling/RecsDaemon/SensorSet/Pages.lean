import RecsDaemon.SensorSet.Size
import RecsDaemon.Base.Paging

/-!
# Description pages and the data message

A page of `getDescriptionPage` is a page of the sensor list (`getDescriptionPage_eq`),
so the pages in order list every sensor once. A reader that cuts the data message
at the listed sizes gets the bytes of each sensor (`pages_decode_message`).
-/

namespace RecsDaemon

open Base Json

namespace SensorSet

/-! ## Readers -/

def readEntries : Nat → Bytes → Option (List SensorDescription)
  | 0, _ => some []
  | n + 1, bs => do
    let e ← SensorDescription.ofBytes bs
    let es ← readEntries n (bs.drop SensorDescription.sizeof)
    pure (e :: es)

def readPage (bs : Bytes) : Option (MonitoringDescriptionHeader × List SensorDescription) := do
  let h ← MonitoringDescriptionHeader.ofBytes bs
  let es ← readEntries h.sensorEntries.toNat (bs.drop MonitoringDescriptionHeader.sizeof)
  pure (h, es)

/-- The size and the number of sensors in the header of a data message. -/
def dataSize (msg : Bytes) : Nat := ofBE (slice 1 2 msg)

def dataSensorCnt (msg : Bytes) : Nat := ofBE (slice 4 2 msg)

/-- The reader of a data message: the listed sizes, one after the other, from the header's end. -/
def readData (entries : List SensorDescription) (msg : Bytes) : List Bytes :=
  (entries.map fun e => e.maxDataSize.toNat).splitLengths (msg.drop MonitoringDataHeader.sizeof)

/-- An entry without the number of its group. -/
def ungrouped (e : SensorDescription) : SensorDescription := { e with groupId := 0 }

theorem readEntries_bytes (es : List SensorDescription) (rest : Bytes) :
    readEntries es.length ((es.map SensorDescription.bytes).flatten ++ rest) = some es := by
  induction es with
  | nil => rfl
  | cons e es ih =>
    have hd : (e.bytes ++ ((es.map SensorDescription.bytes).flatten ++ rest)).drop
        SensorDescription.sizeof = (es.map SensorDescription.bytes).flatten ++ rest :=
      List.drop_left' e.length_bytes
    simp [readEntries, SensorDescription.ofBytes_bytes, hd, ih]

theorem readPage_bytes {hdr : MonitoringDescriptionHeader} {es : List SensorDescription}
    (h : hdr.sensorEntries.toNat = es.length) :
    readPage (hdr.bytes ++ (es.map SensorDescription.bytes).flatten) = some (hdr, es) := by
  have hd := readEntries_bytes es []
  rw [List.append_nil] at hd
  have hdrop : (hdr.bytes ++ (es.map SensorDescription.bytes).flatten).drop
      MonitoringDescriptionHeader.sizeof = (es.map SensorDescription.bytes).flatten :=
    List.drop_left' (MonitoringDescriptionHeader.length_bytes _)
  rw [readPage, MonitoringDescriptionHeader.ofBytes_bytes]
  simp only [Option.bind_eq_bind, Option.bind_some, h, hdrop, hd, Option.pure_def]

theorem length_flatten_entries (es : List SensorDescription) :
    (es.map SensorDescription.bytes).flatten.length = es.length * SensorDescription.sizeof := by
  induction es with
  | nil => simp
  | cons e es ih => simp [ih]; ring

/-- The header is written last, in front of the entries. -/
theorem read_header_entries (hdr : MonitoringDescriptionHeader) (es : List SensorDescription)
    (m : Mem) :
    (m.writeAll (Mem.consecutive MonitoringDescriptionHeader.sizeof
        (es.map SensorDescription.bytes) ++ [(0, hdr.bytes)])).read 0
      (MonitoringDescriptionHeader.sizeof + es.length * SensorDescription.sizeof) =
      hdr.bytes ++ (es.map SensorDescription.bytes).flatten := by
  have hh : hdr.bytes.length = MonitoringDescriptionHeader.sizeof :=
    MonitoringDescriptionHeader.length_bytes _
  have h1 (m : Mem) : (m.write 0 hdr.bytes).read 0 MonitoringDescriptionHeader.sizeof =
      hdr.bytes := by
    rw [← hh]; exact Mem.read_write_self _ _ _
  rw [Mem.writeAll_append, Mem.writeAll_consecutive, Mem.writeAll_cons, Mem.writeAll_nil,
    Mem.read_add, h1, Nat.zero_add, ← length_flatten_entries,
    Mem.read_write_of_disjoint (.inr (by rw [hh]; omega)), Mem.read_write_self]

/-! ## Numbers -/

/-- The buffer takes `k` entries a page, and the number of pages is a byte. -/
structure Fits (set : SensorSet) (bufferSize k : Nat) : Prop where
  perPage : k = (bufferSize - MonitoringDescriptionHeader.sizeof) / SensorDescription.sizeof
  pos : 1 ≤ k
  le : k ≤ 255
  pages : pageCount k set.mSensorMap.size ≤ 255

/-- The number of pages: one even for no sensors. -/
def pagesOf (set : SensorSet) (k : Nat) : Nat := max 1 (pageCount k set.mSensorMap.size)

section Numbers

variable {set : SensorSet} {bufferSize k : Nat}

theorem Fits.of_map {set' : SensorSet} (h : Fits set bufferSize k)
    (hm : set'.mSensorMap = set.mSensorMap) : Fits set' bufferSize k :=
  ⟨h.perPage, h.pos, h.le, by rw [hm]; exact h.pages⟩

theorem Fits.bufferSize_bounds (h : Fits set bufferSize k) :
    9 + 72 * k ≤ bufferSize ∧ bufferSize < 9 + 72 * (k + 1) := by
  have h1 := h.perPage
  have h2 := h.pos
  simp only [MonitoringDescriptionHeader.sizeof, SensorDescription.sizeof] at h1
  omega

theorem Fits.size_le (h : Fits set bufferSize k) : set.mSensorMap.size ≤ 255 * 255 :=
  calc set.mSensorMap.size ≤ pageCount k set.mSensorMap.size * k := pageCount_mul_ge h.pos _
    _ ≤ 255 * 255 := Nat.mul_le_mul h.pages h.le

theorem Fits.sensorsPerPage (h : Fits set bufferSize k) (pf : Platform) :
    sensorsPerPage pf bufferSize = UInt8.ofNat k := by
  obtain ⟨h1, h2⟩ := h.bufferSize_bounds
  have h3 := h.le
  have hw : (bufferSize + 2 ^ 64 - MonitoringDescriptionHeader.sizeof) % 2 ^ 64 =
      bufferSize - MonitoringDescriptionHeader.sizeof := by
    simp only [MonitoringDescriptionHeader.sizeof]; omega
  rw [SensorSet.sensorsPerPage, hw, ← h.perPage, toUInt8, if_pos (by omega)]

theorem toNat_ofNat_of_le {n : Nat} (h : n ≤ 255) : (UInt8.ofNat n).toNat = n := by
  rw [UInt8.toNat_ofNat']; omega

theorem ofNat_eq_zero_iff {n : Nat} (h : n ≤ 255) : UInt8.ofNat n = 0 ↔ n = 0 := by
  rw [← UInt8.toNat_inj, toNat_ofNat_of_le h]; rfl

theorem Fits.maxPages (h : Fits set bufferSize k) (pf : Platform) :
    maxPages pf set.mSensorMap.size (UInt8.ofNat k) = UInt8.ofNat (pagesOf set k) := by
  have hk := toNat_ofNat_of_le h.le
  have h0 : UInt8.ofNat k ≠ 0 := fun e => by
    have := (ofNat_eq_zero_iff h.le).mp e; have := h.pos; omega
  have hp := h.pages
  have hn : toUInt8 pf ((set.mSensorMap.size + k - 1) / k) =
      UInt8.ofNat (pageCount k set.mSensorMap.size) :=
    if_pos (Nat.lt_succ_of_le hp)
  have hlt : UInt8.ofNat (pageCount k set.mSensorMap.size) < 1 ↔
      pageCount k set.mSensorMap.size < 1 := by
    rw [UInt8.lt_iff_toNat_lt, toNat_ofNat_of_le hp]; rfl
  simp only [SensorSet.maxPages, if_neg h0, hk, hn, hlt, pagesOf]
  split
  · rw [max_eq_left (by omega)]; rfl
  · rw [max_eq_right (by omega)]

theorem Fits.pagesOf_le (h : Fits set bufferSize k) : pagesOf set k ≤ 255 :=
  max_le (by omega) h.pages

/-- The entries of page `i`, counted from zero, are a page of the list. -/
theorem Fits.sensorsOnPage (h : Fits set bufferSize k) {i : Nat} (hi : i < pagesOf set k) :
    sensorsOnPage set.mSensorMap.size (UInt8.ofNat k) (UInt8.ofNat (i + 1))
      (UInt8.ofNat (pagesOf set k)) = .ok (UInt8.ofNat (min k (set.mSensorMap.size - i * k))) := by
  have hM := h.pagesOf_le
  have hk := toNat_ofNat_of_le h.le
  have hlt : UInt8.ofNat (i + 1) < UInt8.ofNat (pagesOf set k) ↔ i + 1 < pagesOf set k := by
    rw [UInt8.lt_iff_toNat_lt, toNat_ofNat_of_le (by omega), toNat_ofNat_of_le hM]
  have h0 : UInt8.ofNat k ≠ 0 := fun e => by
    have := (ofNat_eq_zero_iff h.le).mp e; have := h.pos; omega
  have hr : set.mSensorMap.size % k ≤ 255 := by
    have := Nat.mod_lt set.mSensorMap.size (show k > 0 from h.pos); have := h.le; omega
  simp only [SensorSet.sensorsOnPage, hlt, if_neg h0, hk]
  split
  · next hlast =>
    have hc : i + 1 < pageCount k set.mSensorMap.size := by unfold pagesOf at hlast; omega
    rw [min_eq_left (full_page h.pos hc)]; rfl
  · next hlast =>
    rcases Nat.eq_zero_or_pos set.mSensorMap.size with hn | hn
    · simp [hn]; rfl
    · have hc : i + 1 = pageCount k set.mSensorMap.size := by
        have := pageCount_pos hn h.pos; unfold pagesOf at hi hlast; omega
      rw [last_page h.pos hc]
      by_cases hz : set.mSensorMap.size % k = 0
      · rw [if_pos ⟨(ofNat_eq_zero_iff hr).mpr hz, hn⟩, if_pos hz, min_self]; rfl
      · rw [if_neg fun e => hz ((ofNat_eq_zero_iff hr).mp e.1), if_neg hz,
          min_eq_right (Nat.mod_lt _ h.pos).le]; rfl

theorem startingSensor_eq (perPage : UInt8) {i : Nat} (hi : i < 255) :
    startingSensor perPage (UInt8.ofNat (i + 1)) = i * perPage.toNat := by
  have hk : perPage.toNat ≤ 255 := Nat.le_of_lt_succ perPage.toNat_lt
  have hb : i * perPage.toNat ≤ 254 * 255 := Nat.mul_le_mul (by omega) hk
  have he : (((i + 1 : Nat) : Int) - 1) * (perPage.toNat : Int) =
      ((i * perPage.toNat : Nat) : Int) := by
    push_cast; ring
  unfold startingSensor
  rw [toNat_ofNat_of_le (by omega), he]
  omega

theorem Fits.startingSensor (h : Fits set bufferSize k) {i : Nat} (hi : i < pagesOf set k) :
    startingSensor (UInt8.ofNat k) (UInt8.ofNat (i + 1)) = i * k := by
  have hM := h.pagesOf_le
  rw [startingSensor_eq _ (by omega), toNat_ofNat_of_le h.le]

end Numbers

/-! ## Any page -/

section Any

variable {pf : Platform} {set : SensorSet} {bufferSize : Nat}

def numberOfPages (pf : Platform) (bufferSize : Nat) (set : SensorSet) : UInt8 :=
  SensorSet.maxPages pf (set.mSensorMap.size % 2 ^ 16) (sensorsPerPage pf bufferSize)

theorem one_le_maxPages (pf : Platform) (sensorCnt : Nat) (perPage : UInt8) :
    1 ≤ SensorSet.maxPages pf sensorCnt perPage := by
  simp only [SensorSet.maxPages]
  generalize (if perPage = 0 then pf.uint8OfQuotient sensorCnt
    else toUInt8 pf ((sensorCnt + perPage.toNat - 1) / perPage.toNat)) = n
  split
  · exact UInt8.le_refl 1
  · next h => exact UInt8.not_lt.mp h

theorem sensorsOnPage_le {sensorCnt : Nat} {perPage page maxPages onPage : UInt8}
    (h : SensorSet.sensorsOnPage sensorCnt perPage page maxPages = .ok onPage) :
    onPage ≤ perPage := by
  unfold SensorSet.sensorsOnPage at h
  split at h
  · cases h; exact UInt8.le_refl _
  split at h
  · cases h
  next h0 =>
  have hpos : 0 < perPage.toNat := by
    rcases Nat.eq_zero_or_pos perPage.toNat with h | h
    · exact absurd (UInt8.toNat_inj.mp h) h0
    · exact h
  have hmod : UInt8.ofNat (sensorCnt % perPage.toNat) ≤ perPage := by
    have hlt := Nat.mod_lt sensorCnt hpos
    have hb := perPage.toNat_lt
    rw [UInt8.le_iff_toNat_le, toNat_ofNat_of_le (by omega)]
    exact hlt.le
  simp only at h
  split at h <;> cases h
  · exact UInt8.le_refl _
  · exact hmod

/-- A call that returns reports the number of pages, and a size for the entries it wrote. -/
theorem getDescriptionPage_ok {page : UInt8} {p : Page}
    (h : set.getDescriptionPage pf bufferSize page = .ok p) :
    p.maxPages = numberOfPages pf bufferSize set ∧ ∃ onPage ≤ sensorsPerPage pf bufferSize,
      p.size = MonitoringDescriptionHeader.sizeof + onPage.toNat * SensorDescription.sizeof := by
  unfold getDescriptionPage at h
  obtain ⟨onPage, ho, h⟩ := bind_eq_ok.mp h
  dsimp only at h
  split at h
  · cases h
  · cases h; exact ⟨rfl, onPage, sensorsOnPage_le ho, rfl⟩

theorem writes_of_ok {page : UInt8} {p : Page}
    (h : set.getDescriptionPage pf bufferSize page = .ok p) :
    ∃ ws hdr, p.writes = ws ++ [(0, MonitoringDescriptionHeader.bytes hdr)] ∧
      hdr.header.type = MessageType.monitoringDescription.code ∧
      hdr.header.size.toNat = p.size := by
  unfold getDescriptionPage at h
  obtain ⟨onPage, -, h⟩ := bind_eq_ok.mp h
  dsimp only at h
  split at h
  · cases h
  · cases h
    refine ⟨_, _, rfl, rfl, ?_⟩
    have ho : onPage.toNat ≤ 255 := Nat.le_of_lt_succ onPage.toNat_lt
    show (UInt16.ofNat (9 + onPage.toNat * 72)).toNat = 9 + onPage.toNat * 72
    rw [UInt16.toNat_ofNat', Nat.mod_eq_of_lt (by omega)]

theorem end_of_ok {page : UInt8} {p : Page}
    (h : set.getDescriptionPage pf bufferSize page = .ok p) :
    ∃ onPage, SensorSet.sensorsOnPage (set.mSensorMap.size % 2 ^ 16)
        (sensorsPerPage pf bufferSize) page (numberOfPages pf bufferSize set) = .ok onPage ∧
      startingSensor (sensorsPerPage pf bufferSize) page + onPage.toNat ≤ 65535 := by
  unfold getDescriptionPage at h
  obtain ⟨onPage, ho, h⟩ := bind_eq_ok.mp h
  dsimp only at h
  split at h
  · cases h
  · next hend => exact ⟨onPage, ho, Nat.not_lt.mp fun hlt => hend (.inr hlt)⟩

theorem sensorsPerPage_le (pf : Platform) (h9 : MonitoringDescriptionHeader.sizeof ≤ bufferSize)
    (h64 : bufferSize < 2 ^ 64) :
    MonitoringDescriptionHeader.sizeof +
      (sensorsPerPage pf bufferSize).toNat * SensorDescription.sizeof ≤ bufferSize := by
  simp only [MonitoringDescriptionHeader.sizeof] at h9
  have hw : (bufferSize + 2 ^ 64 - MonitoringDescriptionHeader.sizeof) % 2 ^ 64 =
      bufferSize - MonitoringDescriptionHeader.sizeof := by
    simp only [MonitoringDescriptionHeader.sizeof]; omega
  have hle : (sensorsPerPage pf bufferSize).toNat ≤
      (bufferSize - MonitoringDescriptionHeader.sizeof) / SensorDescription.sizeof := by
    rw [sensorsPerPage, hw, toUInt8]
    split
    · next h => rw [toNat_ofNat_of_le (by omega)]
    · next h =>
      have := (pf.uint8OfLarge ((bufferSize - MonitoringDescriptionHeader.sizeof) /
        SensorDescription.sizeof)).toNat_lt
      omega
  simp only [MonitoringDescriptionHeader.sizeof, SensorDescription.sizeof] at hle ⊢
  omega

theorem size_le_of_ok {page : UInt8} {p : Page}
    (h9 : MonitoringDescriptionHeader.sizeof ≤ bufferSize) (h64 : bufferSize < 2 ^ 64)
    (h : set.getDescriptionPage pf bufferSize page = .ok p) : p.size ≤ bufferSize := by
  obtain ⟨-, onPage, hle, hsize⟩ := getDescriptionPage_ok h
  rw [UInt8.le_iff_toNat_le] at hle
  have hk := sensorsPerPage_le pf h9 h64
  rw [hsize]
  simp only [SensorDescription.sizeof] at hk ⊢
  omega

@[simp] theorem length_bytes (p : Page) (m : Mem) : (p.bytes m).length = p.size := by
  simp [Page.bytes]

theorem exists_getDescriptionPage {page onPage : UInt8}
    (ho : SensorSet.sensorsOnPage (set.mSensorMap.size % 2 ^ 16) (sensorsPerPage pf bufferSize) page
      (numberOfPages pf bufferSize set) = .ok onPage)
    (hend : ¬ (set.mSensorMap.size < SensorSet.startingSensor (sensorsPerPage pf bufferSize) page +
        onPage.toNat ∨
      65535 < SensorSet.startingSensor (sensorsPerPage pf bufferSize) page + onPage.toNat)) :
    ∃ p, set.getDescriptionPage pf bufferSize page = .ok p ∧
      p.size = MonitoringDescriptionHeader.sizeof + onPage.toNat * SensorDescription.sizeof := by
  rw [numberOfPages] at ho
  unfold getDescriptionPage
  dsimp only
  rw [ho]
  show ∃ p, (if set.mSensorMap.size < SensorSet.startingSensor (sensorsPerPage pf bufferSize) page +
    onPage.toNat ∨ _ then _ else _) = _ ∧ _
  rw [if_neg hend]
  exact ⟨_, rfl, rfl⟩

theorem maxPages_of_empty {perPage : UInt8} (h : perPage ≠ 0) :
    SensorSet.maxPages pf 0 perPage = 1 := by
  have hlt := perPage.toNat_lt
  have hpos : 0 < perPage.toNat := Nat.pos_of_ne_zero fun e => h (UInt8.toNat_inj.mp e)
  simp only [SensorSet.maxPages, if_neg h]
  rw [Nat.div_eq_of_lt (by omega)]
  rfl

theorem sensorsOnPage_of_empty {perPage : UInt8} (h : perPage ≠ 0) :
    SensorSet.sensorsOnPage 0 perPage 1 1 = .ok 0 := by
  simp only [SensorSet.sensorsOnPage, if_neg h, Nat.zero_mod]
  rfl

/-- Where a page has room for an entry, a cleared set has a first page of no entries. -/
theorem getDescriptionPage_clear (set : SensorSet) (h : sensorsPerPage pf bufferSize ≠ 0) :
    ∃ p, set.clear.getDescriptionPage pf bufferSize 1 = .ok p ∧
      p.size = MonitoringDescriptionHeader.sizeof := by
  have h0 : set.clear.mSensorMap.size = 0 := rfl
  have hon : SensorSet.sensorsOnPage (set.clear.mSensorMap.size % 2 ^ 16)
      (sensorsPerPage pf bufferSize) 1 (numberOfPages pf bufferSize set.clear) = .ok 0 := by
    rw [numberOfPages, h0, Nat.zero_mod, maxPages_of_empty h, sensorsOnPage_of_empty h]
  have hst : SensorSet.startingSensor (sensorsPerPage pf bufferSize) 1 = 0 := by
    simp [SensorSet.startingSensor]
  obtain ⟨p, hp, hs⟩ := exists_getDescriptionPage hon (by rw [hst, h0]; decide)
  exact ⟨p, hp, hs⟩

end Any

/-! ## One page -/

theorem length_sensors (set : SensorSet) : set.sensors.length = set.mSensorMap.size :=
  Std.TreeMap.length_toList

theorem length_describe (known : Std.TreeMap Text UInt8) (ss : List (Text × Sensor)) :
    (describe known ss).2.length = ss.length := by
  induction ss generalizing known with
  | nil => rfl
  | cons ns ss ih => simp [describe, ih]

/-- Whatever groups are known, the entries describe the sensors in order. -/
theorem ungrouped_describe (known : Std.TreeMap Text UInt8) (ss : List (Text × Sensor)) :
    (describe known ss).2.map ungrouped = ss.map fun ns => sensorDescription ns.1 ns.2 0 := by
  induction ss generalizing known with
  | nil => rfl
  | cons ns ss ih => simp [describe, ih]; rfl

/-- The entries on page `i`, counted from zero. -/
def entriesOn (set : SensorSet) (k i : Nat) (known : Std.TreeMap Text UInt8) :
    List SensorDescription :=
  (describe known (page k set.sensors i)).2

def headerOf (set : SensorSet) (k i : Nat) (known : Std.TreeMap Text UInt8) :
    MonitoringDescriptionHeader :=
  descriptionHeader (MonitoringDescriptionHeader.sizeof +
      (entriesOn set k i known).length * SensorDescription.sizeof)
    (UInt8.ofNat (i + 1)) (UInt8.ofNat (pagesOf set k))
    (UInt8.ofNat (entriesOn set k i known).length) (i * k)

def pageOf (set : SensorSet) (k i : Nat) (known : Std.TreeMap Text UInt8) : Page where
  maxPages := UInt8.ofNat (pagesOf set k)
  writes := Mem.consecutive MonitoringDescriptionHeader.sizeof
    ((entriesOn set k i known).map SensorDescription.bytes) ++ [(0, (headerOf set k i known).bytes)]
  size := MonitoringDescriptionHeader.sizeof +
    (entriesOn set k i known).length * SensorDescription.sizeof
  mKnownGroups := (describe known (page k set.sensors i)).1

section Page

variable {set : SensorSet} {bufferSize k : Nat}

theorem length_entriesOn (set : SensorSet) (k i : Nat) (known : Std.TreeMap Text UInt8) :
    (entriesOn set k i known).length = min k (set.mSensorMap.size - i * k) := by
  rw [entriesOn, length_describe, length_page, length_sensors]

theorem Fits.start_le (h : Fits set bufferSize k) {i : Nat} (hi : i < pagesOf set k) :
    i * k ≤ set.mSensorMap.size := by
  rcases Nat.eq_zero_or_pos i with rfl | h0
  · simp
  · have hc : 0 < set.mSensorMap.size := by
      rcases Nat.eq_zero_or_pos set.mSensorMap.size with hn | hn
      · rw [pagesOf, hn, pageCount_eq h.pos] at hi; simp at hi; omega
      · exact hn
    have hp : i ≤ pageCount k set.mSensorMap.size - 1 := by unfold pagesOf at hi; omega
    have h1 := Nat.mul_le_mul_right k hp
    have h2 := pageCount_sub_one_mul_lt h.pos hc
    omega

/-- **A description page is a page of the sensor list.** -/
theorem getDescriptionPage_eq (h : Fits set bufferSize k) (pf : Platform)
    (known : Std.TreeMap Text UInt8) {i : Nat} (hi : i < pagesOf set k) :
    getDescriptionPage pf bufferSize (UInt8.ofNat (i + 1)) { set with mKnownGroups := known } =
      .ok (pageOf set k i known) := by
  have hn := h.size_le
  have hs : set.mSensorMap.size % 2 ^ 16 = set.mSensorMap.size := Nat.mod_eq_of_lt (by omega)
  have hl := length_entriesOn set k i known
  have hlen : (UInt8.ofNat (min k (set.mSensorMap.size - i * k))).toNat =
      (entriesOn set k i known).length := by
    rw [hl, toNat_ofNat_of_le (by have := h.le; omega)]
  have hst := h.start_le hi
  have hend : ¬ (set.mSensorMap.size < i * k + (entriesOn set k i known).length ∨
      65535 < i * k + (entriesOn set k i known).length) := by omega
  have htake : (set.sensors.drop (i * k)).take (entriesOn set k i known).length =
      page k set.sensors i := by
    rw [hl, page, ← length_sensors, ← List.length_drop]
    exact List.take_eq_take_min.symm
  have hd : describe known (page k set.sensors i) =
      ((describe known (page k set.sensors i)).1, entriesOn set k i known) := rfl
  simp only [getDescriptionPage, hs, h.sensorsPerPage pf, h.maxPages pf, h.sensorsOnPage hi,
    h.startingSensor hi]
  show (if set.mSensorMap.size < i * k + (UInt8.ofNat _).toNat ∨ _ then _ else _) = _
  simp only [hlen]
  rw [if_neg hend]
  show Except.ok _ = Except.ok _
  simp only [sensors] at htake ⊢
  rw [htake, ← hl]
  rfl

theorem bytes_pageOf (set : SensorSet) (k i : Nat) (known : Std.TreeMap Text UInt8) (m : Mem) :
    (pageOf set k i known).bytes m = (headerOf set k i known).bytes ++
      ((entriesOn set k i known).map SensorDescription.bytes).flatten :=
  read_header_entries _ _ m

theorem length_bytes_pageOf (set : SensorSet) (k i : Nat) (known : Std.TreeMap Text UInt8)
    (m : Mem) : ((pageOf set k i known).bytes m).length = (pageOf set k i known).size := by
  simp [Page.bytes]

theorem length_entriesOn_le (set : SensorSet) (k i : Nat) (known : Std.TreeMap Text UInt8) :
    (entriesOn set k i known).length ≤ k := by
  rw [length_entriesOn]; exact min_le_left _ _

/-- A page is read back: its header and its entries. -/
theorem readPage_pageOf (h : Fits set bufferSize k) (i : Nat) (known : Std.TreeMap Text UInt8)
    (m : Mem) : readPage ((pageOf set k i known).bytes m) =
      some (headerOf set k i known, entriesOn set k i known) := by
  have hc : (headerOf set k i known).sensorEntries.toNat = (entriesOn set k i known).length :=
    toNat_ofNat_of_le (by have := length_entriesOn_le set k i known; have := h.le; omega)
  rw [bytes_pageOf, readPage_bytes hc]

theorem size_pageOf (h : Fits set bufferSize k) (i : Nat) (known : Std.TreeMap Text UInt8) :
    (pageOf set k i known).size ≤ bufferSize ∧
      (headerOf set k i known).header.size.toNat = (pageOf set k i known).size := by
  have he := length_entriesOn_le set k i known
  have hk := h.le
  obtain ⟨hb, -⟩ := h.bufferSize_bounds
  refine ⟨?_, ?_⟩
  · simp only [pageOf, MonitoringDescriptionHeader.sizeof, SensorDescription.sizeof]; omega
  · simp only [pageOf, headerOf, descriptionHeader, MonitoringDescriptionHeader.sizeof,
      SensorDescription.sizeof, UInt16.toNat_ofNat']
    omega

theorem startIndex_pageOf (h : Fits set bufferSize k) {i : Nat} (hi : i < pagesOf set k)
    (known : Std.TreeMap Text UInt8) : (headerOf set k i known).startIndex.toNat = i * k := by
  have hs := h.start_le hi
  have hn := h.size_le
  simp only [headerOf, descriptionHeader, UInt16.toNat_ofNat']
  omega

end Page

/-! ## All pages -/

/-- The calls for some pages in order; the groups known are handed on. -/
def describePages (pf : Platform) (bufferSize : Nat) :
    List UInt8 → SensorSet → Except Fault (List Page)
  | [], _ => pure []
  | p :: ps, set => do
    let page ← set.getDescriptionPage pf bufferSize p
    let pages ← describePages pf bufferSize ps { set with mKnownGroups := page.mKnownGroups }
    pure (page :: pages)

def pageNumbers (n : Nat) : List UInt8 := (List.range n).map fun i => UInt8.ofNat (i + 1)

section Pages

variable {set : SensorSet} {bufferSize k : Nat}

theorem describePages_eq (h : Fits set bufferSize k) (pf : Platform) {i n : Nat}
    (hn : i + n ≤ pagesOf set k) (known : Std.TreeMap Text UInt8) :
    ∃ groups : List (Std.TreeMap Text UInt8), groups.length = n ∧
      describePages pf bufferSize ((List.range' i n).map fun j => UInt8.ofNat (j + 1))
        { set with mKnownGroups := known } = .ok (groups.mapIdx fun j g => pageOf set k (i + j) g) := by
  induction n generalizing i known with
  | zero => exact ⟨[], rfl, rfl⟩
  | succ n ih =>
    obtain ⟨groups, hl, hg⟩ := ih (i := i + 1) (by omega) (pageOf set k i known).mKnownGroups
    refine ⟨known :: groups, by simp [hl], ?_⟩
    rw [List.range'_succ, List.map_cons, describePages,
      getDescriptionPage_eq h pf known (by omega)]
    show (describePages pf bufferSize _ { set with
      mKnownGroups := (pageOf set k i known).mKnownGroups } >>= fun pages =>
        pure (pageOf set k i known :: pages)) = _
    rw [hg, List.mapIdx_cons]
    show Except.ok _ = Except.ok _
    simp only [Nat.add_zero, Nat.add_assoc, Nat.add_comm 1]

/-- The entries on all pages are the sensors, each once, in the order of the map. -/
theorem ungrouped_entries (h : Fits set bufferSize k) {groups : List (Std.TreeMap Text UInt8)}
    (hl : groups.length = pagesOf set k) :
    (groups.mapIdx fun i g => entriesOn set k i g).flatten.map ungrouped =
      set.sensors.map fun ns => sensorDescription ns.1 ns.2 0 := by
  have hp : (groups.mapIdx fun i g => (entriesOn set k i g).map ungrouped) =
      (List.range (pagesOf set k)).map fun i =>
        (page k set.sensors i).map fun ns => sensorDescription ns.1 ns.2 0 := by
    apply List.ext_getElem (by simp [hl])
    intro i h1 h2
    simp only [List.getElem_mapIdx, List.getElem_map, List.getElem_range]
    exact ungrouped_describe _ _
  have hlen : set.sensors.length ≤ pagesOf set k * k := by
    rw [length_sensors]
    exact le_trans (pageCount_mul_ge h.pos _) (Nat.mul_le_mul_right k (le_max_right _ _))
  conv_rhs => rw [← flatten_pages hlen]
  have hm : ((groups.mapIdx fun i g => entriesOn set k i g).map fun es => es.map ungrouped) =
      groups.mapIdx fun i g => (entriesOn set k i g).map ungrouped :=
    List.ext_getElem (by simp) fun i h1 h2 => by simp
  rw [List.map_flatten, List.map_flatten, List.map_map, hm, hp]
  rfl

end Pages

/-! ## The data message -/

section Message

variable {deserialize : Deserialize} {set set' : SensorSet} {inp : Inputs}

theorem getMessage_mData (h : set.getMessage deserialize inp = .ok set') :
    set'.mSize = set.mSize ∧ set'.mData = (set.mData.writeAll set.headerWrites).write
      MonitoringDataHeader.sizeof
      (set.sensors.map fun ns => sensorBytes inp set'.beans ns.2).flatten := by
  obtain ⟨beans, ws, hw, rfl⟩ := getMessage_cases h
  obtain ⟨-, rfl⟩ := messageWrites_ok hw
  refine ⟨rfl, ?_⟩
  simp only [Mem.writeAll_append, sensorWrites_eq_consecutive, Mem.writeAll_consecutive,
    List.map_map]
  rfl

theorem length_data (inp : Inputs) (beans : Beans) (set : SensorSet) :
    (set.sensors.map fun ns => sensorBytes inp beans ns.2).flatten.length = set.totalDataSize := by
  rw [List.length_flatten, List.map_map]
  refine congrArg List.sum (List.map_congr_left fun ns _ => ?_)
  simp

/-- What a reader of the message's header and of its data finds. -/
theorem read_message (hI : SizeInvariant deserialize set)
    (h : set.getMessage deserialize inp = .ok set') :
    ofBE (slice 1 2 (set'.mData.read 0 set'.mSize)) = set.mSize % 256 ^ 2 ∧
      ofBE (slice 4 2 (set'.mData.read 0 set'.mSize)) = set.mSensorMap.size % 256 ^ 2 ∧
      (set'.mData.read 0 set'.mSize).drop MonitoringDataHeader.sizeof =
        (set.sensors.map fun ns => sensorBytes inp set'.beans ns.2).flatten := by
  obtain ⟨hs, hm⟩ := getMessage_mData h
  have hsize := hI.size_eq
  have hl := length_data inp set'.beans set
  rw [hs, hm, Mem.slice_read _ (by simp only [MonitoringDataHeader.sizeof] at hsize; omega),
    Mem.slice_read _ (by simp only [MonitoringDataHeader.sizeof] at hsize; omega)]
  refine ⟨?_, ?_, ?_⟩
  · rw [Mem.read_write_of_disjoint (.inl (by simp [MonitoringDataHeader.sizeof])), headerWrites,
      Mem.writeAll_cons, Mem.writeAll_cons, Mem.writeAll_nil,
      Mem.read_write_of_disjoint (.inl (by simp)), ← ofBE_be]
    have hr := Mem.read_write_slice set.mData 0 1 2
      (MessageType.monitoringData.code :: be 2 set.mSize) (by simp)
    rw [Nat.zero_add] at hr
    rw [hr, slice, List.drop_one, List.tail_cons, List.take_of_length_le (by simp)]
  · rw [Mem.read_write_of_disjoint (.inl (by simp [MonitoringDataHeader.sizeof])), headerWrites,
      Mem.writeAll_cons, Mem.writeAll_cons, Mem.writeAll_nil, ← ofBE_be,
      Mem.read_write_prefix (by simp)]
    simp
  · rw [hsize, Mem.read_add, List.drop_left' (Mem.length_read _ _ _), Nat.zero_add, ← hl,
      Mem.read_write_self]

end Message

/-! ## Pages and message together -/

/-- What a reader finds about page `i`: its true length, which the buffer holds, its number and the
number of entries before it. -/
structure PageRead (bufferSize i : Nat) (before : List (List SensorDescription)) (p : Page)
    (bytes : Bytes) (h : MonitoringDescriptionHeader) : Prop where
  length_le : bytes.length ≤ bufferSize
  writes_le : ∀ w ∈ p.writes, w.1 + w.2.length ≤ bufferSize
  size_eq : h.header.size.toNat = bytes.length
  currentPage_eq : h.currentPage.toNat = i + 1
  maxPages_eq : h.maxPages = p.maxPages
  startIndex_eq : h.startIndex.toNat = (before.map List.length).sum

/-- What a reader finds in a data message of the sensors the entries list. -/
structure DataRead (entries : List SensorDescription) (data : List Bytes) (msg : Bytes) : Prop where
  data_eq : readData entries msg = data
  size_eq : dataSize msg = msg.length
  consumed : MonitoringDataHeader.sizeof + (entries.map fun e => e.maxDataSize.toNat).sum =
    dataSize msg
  sensorCnt_eq : dataSensorCnt msg = entries.length

section Reader

variable {deserialize : Deserialize} {pf : Platform} {set : SensorSet} {bufferSize k : Nat}

/-- Entries that describe the sensors list their sizes, as long as these fit in the field. -/
theorem sizes_of_ungrouped {entries : List SensorDescription}
    (hs : ∀ ns ∈ set.sensors, ns.2.getMaxDataSize < 65536)
    (he : entries.map ungrouped = set.sensors.map fun ns => sensorDescription ns.1 ns.2 0) :
    entries.map (fun e => e.maxDataSize.toNat) =
      set.sensors.map fun ns => ns.2.getMaxDataSize := by
  have hm := congrArg (List.map fun e => e.maxDataSize.toNat) he
  rw [List.map_map, List.map_map] at hm
  calc entries.map (fun e => e.maxDataSize.toNat)
      = entries.map ((fun e => e.maxDataSize.toNat) ∘ ungrouped) := rfl
    _ = set.sensors.map _ := hm
    _ = set.sensors.map fun ns => ns.2.getMaxDataSize := List.map_congr_left fun ns hns => by
        simp only [Function.comp_apply, sensorDescription, UInt16.toNat_ofNat']
        exact Nat.mod_eq_of_lt (hs ns hns)

theorem getMaxDataSize_le_total {ns : Text × Sensor} (h : ns ∈ set.sensors) :
    ns.2.getMaxDataSize ≤ set.totalDataSize :=
  List.single_le_sum (by simp) _ (List.mem_map_of_mem h)

/-- **The entries cut the data message into the bytes of the sensors.** -/
theorem dataRead_of_ungrouped (hI : SizeInvariant deserialize set) (hs : set.mSize ≤ 65535)
    (h : Fits set bufferSize k) {entries : List SensorDescription}
    (he : entries.map ungrouped = set.sensors.map fun ns => sensorDescription ns.1 ns.2 0)
    {inp : Inputs} {set' : SensorSet} (hm : set.getMessage deserialize inp = .ok set') :
    DataRead entries (set.sensors.map fun ns => sensorBytes inp set'.beans ns.2)
      (set'.mData.read 0 set'.mSize) := by
  have hsize := hI.size_eq
  obtain ⟨hd, hc, hdata⟩ := read_message hI hm
  obtain ⟨hs', -⟩ := getMessage_mData hm
  have hsizes := sizes_of_ungrouped (fun ns hns => by
    have := getMaxDataSize_le_total hns; omega) he
  have hlen : entries.length = set.mSensorMap.size := by
    have := congrArg List.length he
    rwa [List.length_map, List.length_map, length_sensors] at this
  have hd' : dataSize (set'.mData.read 0 set'.mSize) = set.mSize := by
    rw [dataSize, hd]; omega
  refine ⟨?_, ?_, ?_, ?_⟩
  · have hcut := splitLengths_flatten (set.sensors.map fun ns => sensorBytes inp set'.beans ns.2) []
    rw [List.append_nil, List.map_map] at hcut
    rw [readData, hdata, hsizes]
    refine Eq.trans (congrArg₂ List.splitLengths (List.map_congr_left fun ns _ => ?_) rfl) hcut
    simp
  · rw [hd', Mem.length_read, hs']
  · rw [hd', hsizes, hsize]; rfl
  · have := h.size_le
    rw [dataSensorCnt, hc, hlen]; omega

theorem writes_pageOf (h : Fits set bufferSize k) (i : Nat) (known : Std.TreeMap Text UInt8) :
    ∀ w ∈ (pageOf set k i known).writes, w.1 + w.2.length ≤ bufferSize := by
  intro w hw
  obtain ⟨hb, -⟩ := h.bufferSize_bounds
  obtain ⟨hsz, -⟩ := size_pageOf h i known
  rcases List.mem_append.mp hw with hw | hw
  · have := Mem.consecutive_inside w hw
    rw [length_flatten_entries] at this
    exact le_trans this hsz
  · obtain rfl := List.mem_singleton.mp hw
    simp; omega

theorem pageRead_pageOf (h : Fits set bufferSize k) {groups : List (Std.TreeMap Text UInt8)}
    {i : Nat} (hi : i < groups.length) (hl : groups.length = pagesOf set k) (m : Mem) :
    PageRead bufferSize i ((groups.mapIdx fun i g => entriesOn set k i g).take i)
      (pageOf set k i groups[i]) ((pageOf set k i groups[i]).bytes m)
      (headerOf set k i groups[i]) where
  length_le := by rw [length_bytes_pageOf]; exact (size_pageOf h i _).1
  writes_le := writes_pageOf h i _
  size_eq := by rw [length_bytes_pageOf]; exact (size_pageOf h i _).2
  currentPage_eq := toNat_ofNat_of_le (by have := h.pagesOf_le; omega)
  maxPages_eq := rfl
  startIndex_eq := by
    rw [startIndex_pageOf h (by omega), ← sum_length_pages (l := set.sensors) (by
      rw [length_sensors]; exact h.start_le (by omega))]
    refine congrArg List.sum (List.ext_getElem (by simp; omega) fun j h1 h2 => ?_)
    simp [length_entriesOn, length_page, length_sensors]

/-- **Description pages decode the data message.** The pages `1` to `maxPages` of a new sensor set
list every sensor once in the order of the map, each page is what it says it is, and they cut every
data message into the bytes of the sensors. -/
theorem pages_decode_message {cfg : SensorsConfig} {fac : Factories} {mData : Mem} {beans : Beans}
    (hc : construct deserialize pf cfg fac mData beans = .ok set) (hs : set.mSize ≤ 65535)
    (h : Fits set bufferSize k) :
    ∃ n pages, describePages pf bufferSize (pageNumbers n) set = .ok pages ∧
      (∀ p ∈ pages, p.maxPages.toNat = n) ∧
      ∀ bufs : Nat → Mem, ∃ decoded : List (MonitoringDescriptionHeader × List SensorDescription),
        (pages.mapIdx fun i p => readPage (p.bytes (bufs i))) = decoded.map some ∧
        (decoded.map Prod.snd).flatten.map ungrouped =
          (set.sensors.map fun ns => sensorDescription ns.1 ns.2 0) ∧
        (∀ i p d, pages[i]? = some p → decoded[i]? = some d →
          PageRead bufferSize i ((decoded.map Prod.snd).take i) p (p.bytes (bufs i)) d.1) ∧
        ∀ inp set', set.getMessage deserialize inp = .ok set' →
          DataRead (decoded.map Prod.snd).flatten
            (set.sensors.map fun ns => sensorBytes inp set'.beans ns.2)
            (set'.mData.read 0 set'.mSize) := by
  have hI := sizeInvariant_construct hc
  obtain ⟨groups, hl, hg⟩ := describePages_eq h pf (i := 0) (n := pagesOf set k) (by omega)
    set.mKnownGroups
  simp only [Nat.zero_add, ← List.range_eq_range'] at hg
  refine ⟨pagesOf set k, _, hg, ?_, fun bufs => ⟨groups.mapIdx fun i g =>
    (headerOf set k i g, entriesOn set k i g), ?_, ?_, ?_, ?_⟩⟩
  · intro p hp
    obtain ⟨i, hi, rfl⟩ := List.mem_mapIdx.mp hp
    exact toNat_ofNat_of_le h.pagesOf_le
  · apply List.ext_getElem (by simp)
    intro i h1 h2
    simp only [List.getElem_mapIdx, List.getElem_map]
    exact readPage_pageOf h i _ _
  all_goals
    have hmap : ((groups.mapIdx fun i g => (headerOf set k i g, entriesOn set k i g)).map
        Prod.snd) = groups.mapIdx fun i g => entriesOn set k i g :=
      List.ext_getElem (by simp) fun i h1 h2 => by simp
    rw [hmap]
  · exact ungrouped_entries h hl
  · intro i p d hp hd
    obtain ⟨hi, rfl⟩ := List.getElem?_eq_some_iff.mp hp
    obtain ⟨hi', rfl⟩ := List.getElem?_eq_some_iff.mp hd
    simp only [List.getElem_mapIdx]
    exact pageRead_pageOf h (by simpa using hi) hl _
  · intro inp set' hm
    exact dataRead_of_ungrouped hI hs h (ungrouped_entries h hl) hm

end Reader

/-- Two sensors on two pages of a buffer of 81 bytes. -/
theorem pages_decode_message_sample :
    ∃ set, constructSample (fun _ => .ok .null) 2 = .ok set ∧
      ∃ n pages, describePages .x86 81 (pageNumbers n) set = .ok pages ∧
        ∀ p ∈ pages, p.maxPages.toNat = n := by
  refine ⟨_, rfl, ?_⟩
  obtain ⟨n, pages, h, hn, -⟩ := pages_decode_message (show construct (fun _ => .ok .null) .x86
    (.sample 2) .sample (fun _ => 0) (fun _ _ => 0) = .ok _ from rfl) (by decide)
    (⟨rfl, by decide, by decide, by decide⟩ : Fits _ 81 1)
  exact ⟨n, pages, h, hn⟩

end SensorSet

end RecsDaemon
