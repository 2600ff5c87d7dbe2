import RecsDaemon.Daemon.Loop
import RecsDaemon.SensorSet.Pages

/-!
# Segments

The segment of a slot is computed in unsigned arithmetic from the header and a
signed slot number that only a detector's answer was checked for. `owned_iff`:
for which headers and slots it is a segment of the dynamic area that holds all
writes of the daemon, apart from the segments of the other slots.
-/

namespace RecsDaemon

open Base Json

namespace Daemon

/-- The segment is part of the dynamic area, and whatever happens in the loop and after it, whatever
the libraries do, all writes are inside it. -/
structure Owned (run : Running) : Prop where
  area_le : dynamicArea run.hdr ≤ run.segment.messageOffset
  le_size : run.segment.messageOffset + run.segment.messageMaxSize ≤ run.hdr.size.toNat
  writes : ∀ lib es s, exec (step lib run) (Loop.start run) es = some s →
    ∀ o ∈ s.trace, ∀ off bs, o.writeData run.segment = some (off, bs) →
      run.segment.messageOffset ≤ off ∧
        off + bs.length ≤ run.segment.messageOffset + run.segment.messageMaxSize

def Segment.Disjoint (a b : Segment) : Prop :=
  a.messageOffset + a.messageMaxSize ≤ b.messageOffset ∨
    b.messageOffset + b.messageMaxSize ≤ a.messageOffset

def areaSize (hdr : DaemonHeader) : Nat := hdr.size.toNat - dynamicArea hdr

/-- The part of it that each slot gets. -/
def share (hdr : DaemonHeader) : Nat := areaSize hdr / max 1 hdr.maxSlots.toNat

/-- The dynamic area begins in the memory, a share of it takes the header of a description page, and
where there are several slots the number is that of a share. -/
structure HasShare (hdr : DaemonHeader) (slot : Int8) : Prop where
  area_le : dynamicArea hdr ≤ hdr.size.toNat
  header_le : MonitoringDescriptionHeader.sizeof ≤ share hdr
  slot_lt : 1 < hdr.maxSlots → 0 ≤ slot.toInt ∧ slot.toInt < areaSize hdr / share hdr

/-! ## Arithmetic -/

theorem dynamicArea_lt (hdr : DaemonHeader) : dynamicArea hdr < 65536 := by
  unfold dynamicArea
  split
  · decide
  · exact hdr.dynamicAreaOffset.toNat_lt

section Arithmetic

variable {hdr : DaemonHeader} {slot : Int8}

theorem messageMaxSize_eq (slot : Int8) (h : dynamicArea hdr ≤ hdr.size.toNat) :
    (segmentOf hdr slot).messageMaxSize = share hdr := by
  have hs := hdr.size.toNat_lt
  have hw : (hdr.size.toNat + 2 ^ 64 - dynamicArea hdr) % 2 ^ 64 = areaSize hdr := by
    unfold areaSize; omega
  simp only [segmentOf, hw, share]
  split
  · next hn =>
    rw [UInt8.lt_iff_toNat_lt] at hn
    rw [max_eq_right (by have : (1 : UInt8).toNat = 1 := rfl; omega)]
  · next hn =>
    rw [UInt8.not_lt, UInt8.le_iff_toNat_le] at hn
    have h1 : max 1 hdr.maxSlots.toNat = 1 := max_eq_left hn
    rw [h1, Nat.div_one]

theorem size_lt_messageMaxSize (slot : Int8) (h : hdr.size.toNat < dynamicArea hdr) :
    hdr.size.toNat < (segmentOf hdr slot).messageMaxSize := by
  have hd := dynamicArea_lt hdr
  have hn := hdr.maxSlots.toNat_lt
  have hw : 2 ^ 64 - 65536 ≤ (hdr.size.toNat + 2 ^ 64 - dynamicArea hdr) % 2 ^ 64 := by omega
  simp only [segmentOf]
  generalize (hdr.size.toNat + 2 ^ 64 - dynamicArea hdr) % 2 ^ 64 = m at *
  split
  · next h1 =>
    rw [UInt8.lt_iff_toNat_lt] at h1
    have h1' : 1 < hdr.maxSlots.toNat := h1
    rw [Nat.lt_iff_add_one_le, Nat.le_div_iff_mul_le (by omega)]
    calc (hdr.size.toNat + 1) * hdr.maxSlots.toNat ≤ 65536 * 256 :=
          Nat.mul_le_mul (by omega) hn.le
      _ ≤ m := by omega
  · simp only; omega

theorem share_le (hdr : DaemonHeader) : share hdr ≤ 65535 := by
  have hs := hdr.size.toNat_lt
  have := Nat.div_le_self (areaSize hdr) (max 1 hdr.maxSlots.toNat)
  unfold share
  unfold areaSize at *
  omega

theorem messageOffset_of_one (h : ¬ 1 < hdr.maxSlots) :
    (segmentOf hdr slot).messageOffset = dynamicArea hdr := by
  simp only [segmentOf, if_neg h]

theorem messageOffset_of_several (ha : dynamicArea hdr ≤ hdr.size.toNat) (h : 1 < hdr.maxSlots) :
    (segmentOf hdr slot).messageOffset =
      (dynamicArea hdr + (slot.toInt % 2 ^ 64).toNat * share hdr) % 2 ^ 64 := by
  have hm : (segmentOf hdr slot).messageMaxSize = share hdr := messageMaxSize_eq slot ha
  simp only [segmentOf, if_pos h] at hm ⊢
  rw [hm]

theorem messageOffset_of_nonneg (ha : dynamicArea hdr ≤ hdr.size.toNat) (h : 1 < hdr.maxSlots)
    (h0 : 0 ≤ slot.toInt) :
    (segmentOf hdr slot).messageOffset = dynamicArea hdr + slot.toInt.toNat * share hdr := by
  have hd := dynamicArea_lt hdr
  have hs := slot.toInt_lt
  have hmul : slot.toInt.toNat * share hdr ≤ 128 * 65535 :=
    Nat.mul_le_mul (by omega) (share_le hdr)
  have hslot : (slot.toInt % 2 ^ 64).toNat = slot.toInt.toNat := by omega
  rw [messageOffset_of_several ha h, hslot]
  omega

/-- The segment of a negative slot begins before the area, or ends behind the memory. -/
theorem outside_of_neg (ha : dynamicArea hdr ≤ hdr.size.toNat) (h : 1 < hdr.maxSlots)
    (h0 : slot.toInt < 0) (hm : 0 < share hdr) :
    ¬ (dynamicArea hdr ≤ (segmentOf hdr slot).messageOffset ∧
      (segmentOf hdr slot).messageOffset + share hdr ≤ hdr.size.toNat) := by
  have hs := hdr.size.toNat_lt
  have hlow := slot.le_toInt
  obtain ⟨k, hk⟩ : ∃ k : Nat, slot.toInt = -(k : Int) := ⟨(-slot.toInt).toNat, by omega⟩
  have hslot : (slot.toInt % 2 ^ 64).toNat = 2 ^ 64 - k := by omega
  have hmul : k * share hdr ≤ 128 * 65535 := Nat.mul_le_mul (by omega) (share_le hdr)
  have hle : share hdr ≤ k * share hdr := Nat.le_mul_of_pos_left _ (by omega)
  have hsplit : (2 ^ 64 - k) * share hdr + k * share hdr = 2 ^ 64 * share hdr := by
    rw [← Nat.add_mul, Nat.sub_add_cancel (by omega)]
  rw [messageOffset_of_several ha h, hslot]
  generalize (2 ^ 64 - k) * share hdr = x at *
  generalize k * share hdr = y at *
  obtain ⟨c, hc⟩ : ∃ c, share hdr = c + 1 := ⟨share hdr - 1, by omega⟩
  rw [hc] at hsplit hle ⊢
  by_cases hy : y ≤ dynamicArea hdr
  · have hoff : dynamicArea hdr + x = 2 ^ 64 * (c + 1) + (dynamicArea hdr - y) := by omega
    rw [hoff, Nat.mul_add_mod]
    omega
  · have hoff : dynamicArea hdr + x = 2 ^ 64 * c + (2 ^ 64 + dynamicArea hdr - y) := by omega
    rw [hoff, Nat.mul_add_mod]
    omega

/-- **The segment is in the area exactly for the slots that have a share.** -/
theorem segment_inside_iff (hm : 0 < (segmentOf hdr slot).messageMaxSize) :
    (dynamicArea hdr ≤ (segmentOf hdr slot).messageOffset ∧
      (segmentOf hdr slot).messageOffset + (segmentOf hdr slot).messageMaxSize ≤ hdr.size.toNat) ↔
      dynamicArea hdr ≤ hdr.size.toNat ∧
        (1 < hdr.maxSlots → 0 ≤ slot.toInt ∧ slot.toInt < areaSize hdr / share hdr) := by
  by_cases ha : dynamicArea hdr ≤ hdr.size.toNat
  swap
  · have := size_lt_messageMaxSize slot (Nat.lt_of_not_le ha)
    constructor
    · rintro ⟨h1, h2⟩; omega
    · rintro ⟨h1, -⟩; exact absurd h1 ha
  rw [messageMaxSize_eq slot ha] at hm ⊢
  by_cases hn : 1 < hdr.maxSlots
  swap
  · have hle : share hdr ≤ areaSize hdr := Nat.div_le_self _ _
    rw [messageOffset_of_one hn]
    unfold areaSize at hle
    constructor
    · intro _; exact ⟨ha, fun h => absurd h hn⟩
    · intro _; exact ⟨Nat.le_refl _, by omega⟩
  by_cases h0 : 0 ≤ slot.toInt
  · rw [messageOffset_of_nonneg ha hn h0]
    have hiff : slot.toInt < ((areaSize hdr / share hdr : Nat) : Int) ↔
        slot.toInt.toNat * share hdr + share hdr ≤ areaSize hdr := by
      rw [← Nat.succ_mul, ← Nat.le_div_iff_mul_le hm]
      omega
    have hiff' : slot.toInt < (areaSize hdr : Int) / (share hdr : Int) ↔
        slot.toInt.toNat * share hdr + share hdr ≤ areaSize hdr := by
      rw [← hiff]; push_cast; rfl
    rw [hiff']
    unfold areaSize
    constructor
    · rintro ⟨-, h2⟩; exact ⟨ha, fun _ => ⟨h0, by omega⟩⟩
    · rintro ⟨-, h2⟩; have := (h2 hn).2; exact ⟨by omega, by omega⟩
  · constructor
    · intro h; exact absurd h (outside_of_neg ha hn (by omega) hm)
    · rintro ⟨-, h⟩; exact absurd (h hn).1 h0

end Arithmetic

/-! ## Writes -/

section Writes

variable {lib : Libraries} {run : Running} {s s' : Loop}

/-- What has been written, and what is about to be, is no longer than the segment. -/
structure Inside (run : Running) (s : Loop) : Prop where
  trace : ∀ o ∈ s.trace, ∀ bs, o.written = some bs → bs.length ≤ run.segment.messageMaxSize
  message : ∀ kind bs, s.point = .write kind bs → bs.length ≤ run.segment.messageMaxSize
  last : ∀ bs, s.point = .last bs → bs.length ≤ run.segment.messageMaxSize

/-- The segment takes the header of a page and the data message. -/
structure Roomy (run : Running) : Prop where
  header_le : MonitoringDescriptionHeader.sizeof ≤ run.segment.messageMaxSize
  data_le : run.sensorSize ≤ run.segment.messageMaxSize
  lt : run.segment.messageMaxSize < 2 ^ 64

theorem length_compose {found : Found} {set : SensorSet} {kind : Kind} {bs : Bytes}
    (hr : Roomy run) (h : s.compose lib run found = .ok (set, kind, bs)) :
    bs.length ≤ run.segment.messageMaxSize := by
  rcases compose_cases h with ⟨-, -, -, rfl⟩ | ⟨-, -, -, rfl⟩ | ⟨-, page, hp, -, -, rfl⟩
  · rw [Node.basicInformationBytes, Mem.length_read]
    exact (Node.basicInformation_inside _ _).1
  · rw [Mem.length_read]; exact hr.data_le
  · rw [SensorSet.length_bytes]
    exact SensorSet.size_le_of_ok hr.header_le hr.lt hp

/-- **Every step writes inside the segment.** -/
theorem inside_step {e : Event} (hr : Roomy run) (h : Inside run s)
    (hs : step lib run s e = some s') : Inside run s' where
  trace o ho bs hbs := by
    rcases (step_writes hs).written o ho bs hbs with ho | ⟨kind, hp⟩ | rfl | hp
    · exact h.trace o ho bs hbs
    · exact h.message kind bs hp
    · exact le_trans (by decide) hr.header_le
    · exact h.last bs hp
  message kind bs hp := by
    obtain ⟨found, set, hc⟩ := (step_writes hs).message kind bs hp
    exact length_compose hr hc
  last bs hp := by
    obtain ⟨page, buffer, rfl, hg⟩ := (step_writes hs).last bs hp
    rw [SensorSet.length_bytes]
    exact SensorSet.size_le_of_ok hr.header_le hr.lt hg

theorem inside_start (run : Running) : Inside run (Loop.start run) where
  trace o ho := by cases ho
  message kind bs hp := by cases hp
  last bs hp := by cases hp

theorem inside_run (hr : Roomy run) (h : Reaches (step lib run) (Loop.start run) s) :
    Inside run s :=
  h.induct (fun _ _ _ hI hs => inside_step hr hI hs) (inside_start run)

/-- A segment that does not take the header is left by the last page, where the number of entries
that fit is too large for a byte and not cut to zero. -/
theorem last_outside (h4 : MessageHeader.sizeof ≤ run.segment.messageMaxSize)
    (h9 : run.segment.messageMaxSize < MonitoringDescriptionHeader.sizeof) :
    ∃ s bs, exec (step { Libraries.sample with platform := .saturating } run) (Loop.start run)
        [.quit fun _ => 0, .wrote false] = some s ∧
      .last bs ∈ s.trace ∧ run.segment.messageMaxSize < bs.length := by
  -- the size left for entries wraps
  have hper : SensorSet.sensorsPerPage .saturating run.segment.messageMaxSize ≠ 0 := by
    simp only [MessageHeader.sizeof, MonitoringDescriptionHeader.sizeof] at h4 h9
    generalize run.segment.messageMaxSize = m at *
    interval_cases m <;> decide
  obtain ⟨page, hpage, hsize⟩ := SensorSet.getDescriptionPage_clear run.sensors hper
  have hquit := onQuit_eq { Libraries.sample with platform := .saturating } run (Loop.start run)
    (fun _ => 0) hpage
  refine ⟨_, page.bytes fun _ => 0, exec_cons.mpr ⟨_, congrArg some hquit,
    exec_cons.mpr ⟨_, rfl, rfl⟩⟩, List.mem_cons_self, ?_⟩
  rw [SensorSet.length_bytes, hsize]
  exact h9

end Writes

/-! ## Ownership -/

section Ownership

variable {lib : Libraries} {st st' : Startup} {run run' : Running}

theorem owned_iff_hasShare (h : start lib st = some run) :
    Owned run ↔ HasShare run.hdr run.mSlot := by
  obtain ⟨hseg, h4, hdata, -, -⟩ := start_cases h
  have hpos : 0 < (segmentOf run.hdr run.mSlot).messageMaxSize := by
    rw [← hseg]; exact Nat.lt_of_lt_of_le (by decide) h4
  constructor
  · intro ho
    obtain ⟨ha, hslot⟩ := (segment_inside_iff hpos).mp (hseg ▸ ⟨ho.area_le, ho.le_size⟩)
    refine ⟨ha, ?_, hslot⟩
    rw [← messageMaxSize_eq run.mSlot ha, ← hseg]
    by_contra h9
    obtain ⟨s, bs, he, hmem, hlt⟩ := last_outside h4 (Nat.lt_of_not_le h9)
    have := (ho.writes _ _ s he _ hmem _ bs rfl).2
    omega
  · intro hs
    have hm : run.segment.messageMaxSize = share run.hdr := by
      rw [hseg]; exact messageMaxSize_eq run.mSlot hs.area_le
    obtain ⟨h1, h2⟩ := (segment_inside_iff hpos).mpr ⟨hs.area_le, hs.slot_lt⟩
    have hroomy : Roomy run := by
      refine ⟨by rw [hm]; exact hs.header_le, hdata, ?_⟩
      rw [hm]
      exact Nat.lt_of_le_of_lt (share_le _) (by decide)
    refine ⟨hseg ▸ h1, hseg ▸ h2, fun lib es s he o ho off bs hw => ?_⟩
    obtain ⟨b, hb, hw⟩ := Option.map_eq_some_iff.mp hw
    obtain ⟨rfl, rfl⟩ := Prod.mk.inj hw
    have := (inside_run hroomy ⟨es, he⟩).trace o ho b hb
    exact ⟨Nat.le_refl _, by omega⟩

theorem disjoint_of_hasShare {hdr : DaemonHeader} {a b : Int8} (ha : HasShare hdr a)
    (hb : HasShare hdr b) (h : 1 < hdr.maxSlots) (hab : a ≠ b) :
    (segmentOf hdr a).Disjoint (segmentOf hdr b) := by
  obtain ⟨ha0, -⟩ := ha.slot_lt h
  obtain ⟨hb0, -⟩ := hb.slot_lt h
  simp only [Segment.Disjoint, messageOffset_of_nonneg ha.area_le h ha0,
    messageOffset_of_nonneg ha.area_le h hb0, messageMaxSize_eq a ha.area_le,
    messageMaxSize_eq b ha.area_le]
  have hne : a.toInt ≠ b.toInt := fun e => hab (Int8.toInt_inj.mp e)
  rcases Nat.lt_or_gt_of_ne (show a.toInt.toNat ≠ b.toInt.toNat by omega) with hlt | hlt
  · have := Nat.mul_le_mul_right (share hdr) (Nat.succ_le_of_lt hlt)
    rw [Nat.succ_mul] at this
    omega
  · have := Nat.mul_le_mul_right (share hdr) (Nat.succ_le_of_lt hlt)
    rw [Nat.succ_mul] at this
    omega

/-- **Two slots of one header own disjoint segments exactly if both have a share, and there are
several slots if they differ.** -/
theorem owned_iff (h : start lib st = some run) (h' : start lib st' = some run')
    (hh : run'.hdr = run.hdr) :
    (Owned run ∧ Owned run' ∧
        (run.mSlot ≠ run'.mSlot → run.segment.Disjoint run'.segment)) ↔
      HasShare run.hdr run.mSlot ∧ HasShare run.hdr run'.mSlot ∧
        (run.mSlot ≠ run'.mSlot → 1 < run.hdr.maxSlots) := by
  obtain ⟨hseg, h4, -⟩ := start_cases h
  obtain ⟨hseg', -⟩ := start_cases h'
  rw [owned_iff_hasShare h, owned_iff_hasShare h', hh, hseg, hseg', hh]
  constructor
  · rintro ⟨ha, hb, hd⟩
    refine ⟨ha, hb, fun hne => ?_⟩
    -- the only slot has the whole area
    by_contra hn
    have hd := hd hne
    simp only [Segment.Disjoint, messageOffset_of_one hn, messageMaxSize_eq _ ha.area_le] at hd
    have := ha.header_le
    simp only [MonitoringDescriptionHeader.sizeof] at this
    omega
  · rintro ⟨ha, hb, hn⟩
    exact ⟨ha, hb, fun hne => disjoint_of_hasShare ha hb (hn hne) hne⟩

end Ownership

/-- Slots 0 and 1 of two. -/
theorem owned_iff_sample : ∃ run run', start .sample (.sample 2 0 1) = some run ∧
    start .sample (.sample 2 1 1) = some run' ∧
    Owned run ∧ Owned run' ∧ (run.mSlot ≠ run'.mSlot → run.segment.Disjoint run'.segment) :=
  ⟨_, _, rfl, rfl, (@owned_iff .sample (.sample 2 0 1) (.sample 2 1 1) _ _ rfl rfl rfl).mpr
    ⟨⟨by decide, by decide, by decide⟩, ⟨by decide, by decide, by decide⟩, fun _ => by decide⟩⟩

/-- Slot 2 of two ends behind the memory. -/
theorem configured_slot_not_owned :
    ∃ run, start .sample (.sample 2 2 1) = some run ∧ ¬ Owned run :=
  ⟨_, rfl, fun h => absurd h.le_size (by decide)⟩

end Daemon

end RecsDaemon
