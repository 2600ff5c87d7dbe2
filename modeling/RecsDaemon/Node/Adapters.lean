import RecsDaemon.Node

/-!
# Management and compute adapter

Both adapters are chosen by two passes over the same list. Here the passes keep
positions: the first counts the Christmann adapters in a `uint8_t` and remembers
the last other (or the last Christmann) adapter, the second looks for the first
Christmann adapter of a parity. For fewer than 256 adapters the count is right,
the remembered adapter is there when it is used, and the two choices part the list.
-/

namespace RecsDaemon

open Base

namespace Node

/-! ## The choice as a position -/

/-- Where a returned `AdapterInfo` comes from. -/
inductive Origin where
  | entry (position : Nat)
  | zero
  | uninitialised
deriving DecidableEq

/-- The two locals of the first pass. -/
structure Scan where
  christmannAdapters : UInt8
  remembered : Option Nat

/-- An `AdapterInfo` that was declared without an initialiser. -/
def Scan.origin (s : Scan) : Origin :=
  match s.remembered with
  | some i => .entry i
  | none => .uninitialised

/-- The first pass: count the Christmann adapters, remember the last one that `remembers`. -/
def scan (remembers : AdapterInfo → Bool) (adapters : List AdapterInfo) : Scan :=
  adapters.zipIdx.foldl (fun s x =>
    ⟨if x.1.isChristmann then s.christmannAdapters + 1 else s.christmannAdapters,
      if remembers x.1 then some x.2 else s.remembered⟩) ⟨0, none⟩

/-- The second pass: the first Christmann adapter of the parity. -/
def firstChristmann (odd : Bool) (adapters : List AdapterInfo) : Origin :=
  match adapters.findIdx? fun a => a.isChristmann && a.isOdd == odd with
  | some i => .entry i
  | none => .zero

/-- `getManagementAdapter`. -/
def managementOrigin (adapters : List AdapterInfo) : Origin :=
  if adapters.length = 1 then .zero
  else if 2 ≤ adapters.length then
    let s := scan (fun a => !a.isChristmann) adapters
    if s.christmannAdapters = 1 then s.origin
    else if 1 < s.christmannAdapters then firstChristmann true adapters
    else .entry 0
  else .zero

/-- `getComputeAdapter`. -/
def computeOrigin (adapters : List AdapterInfo) : Origin :=
  if adapters.length = 1 then .entry 0
  else if 2 ≤ adapters.length then
    let s := scan AdapterInfo.isChristmann adapters
    if s.christmannAdapters = 1 then s.origin
    else if 1 < s.christmannAdapters then firstChristmann false adapters
    else .zero
  else .zero

/-! ## The first pass -/

theorem scan_concat (p : AdapterInfo → Bool) (as : List AdapterInfo) (a : AdapterInfo) :
    scan p (as ++ [a]) =
      ⟨if a.isChristmann then (scan p as).christmannAdapters + 1
        else (scan p as).christmannAdapters,
        if p a then some as.length else (scan p as).remembered⟩ := by
  unfold scan
  rw [List.zipIdx_append, List.foldl_append]
  simp

theorem scan_christmannAdapters (p : AdapterInfo → Bool) (adapters : List AdapterInfo) :
    (scan p adapters).christmannAdapters = christmannAdapters adapters := by
  unfold christmannAdapters
  induction adapters using List.reverseRecOn with
  | nil => rfl
  | append_singleton as a ih =>
    rw [scan_concat, List.countP_append, List.countP_singleton, ih]
    split
    · rw [UInt8.ofNat_add]
      rfl
    · rw [Nat.add_zero]

/-- The remembered adapter is the last one of its kind. -/
theorem scan_remembered (p : AdapterInfo → Bool) (adapters : List AdapterInfo) :
    (adapters.filter p).getLast? = (scan p adapters).remembered.bind (adapters[·]?) ∧
      ∀ i, (scan p adapters).remembered = some i → i < adapters.length := by
  induction adapters using List.reverseRecOn with
  | nil => exact ⟨rfl, fun i h => by cases h⟩
  | append_singleton as a ih =>
    obtain ⟨hlast, hlt⟩ := ih
    rw [scan_concat, List.filter_append, List.filter_singleton]
    cases hp : p a with
    | true => simp
    | false =>
      simp only [Bool.false_eq_true, if_false, cond_false, List.append_nil, List.length_append,
        List.length_singleton]
      refine ⟨?_, fun i hi => Nat.lt_succ_of_lt (hlt i hi)⟩
      rw [hlast]
      cases hr : (scan p as).remembered with
      | none => rfl
      | some i => simp [List.getElem?_append_left (hlt i hr)]

theorem christmannAdapters_toNat {adapters : List AdapterInfo} (h : adapters.length < 256) :
    (christmannAdapters adapters).toNat = adapters.countP AdapterInfo.isChristmann := by
  have hle := List.countP_le_length (p := AdapterInfo.isChristmann) (l := adapters)
  rw [christmannAdapters, UInt8.toNat_ofNat', Nat.mod_eq_of_lt (by omega)]

theorem christmannAdapters_eq_one {adapters : List AdapterInfo} (h : adapters.length < 256) :
    christmannAdapters adapters = 1 ↔ adapters.countP AdapterInfo.isChristmann = 1 := by
  rw [← christmannAdapters_toNat h, ← UInt8.toNat_inj]
  rfl

theorem one_lt_christmannAdapters {adapters : List AdapterInfo} (h : adapters.length < 256) :
    1 < christmannAdapters adapters ↔ 1 < adapters.countP AdapterInfo.isChristmann := by
  rw [← christmannAdapters_toNat h, UInt8.lt_iff_toNat_lt]
  rfl

/-! ## What is selected -/

/-- An entry of the kind `Q` is selected and returned, or the zero adapter is returned. -/
def Selects (adapters : List AdapterInfo) (Q : AdapterInfo → Prop) (o : Origin)
    (returned : AdapterInfo) : Prop :=
  (∃ i, o = .entry i ∧ adapters[i]? = some returned ∧ Q returned) ∨ o = .zero ∧ returned = .none

theorem Selects.mono {adapters : List AdapterInfo} {P Q : AdapterInfo → Prop} {o : Origin}
    {a : AdapterInfo} (h : Selects adapters P o a) (hPQ : P a → Q a) : Selects adapters Q o a :=
  h.imp_left fun ⟨i, ho, hi, hP⟩ => ⟨i, ho, hi, hPQ hP⟩

theorem selects_remembered {p : AdapterInfo → Bool} {adapters : List AdapterInfo}
    (h : ∃ a ∈ adapters, p a) :
    Selects adapters (p · = true) (scan p adapters).origin
      (((adapters.filter p).getLast?).getD .none) := by
  obtain ⟨a, ha, hp⟩ := h
  have hne : adapters.filter p ≠ [] := List.ne_nil_of_mem (List.mem_filter.mpr ⟨ha, hp⟩)
  have hlast := List.getLast?_eq_some_getLast hne
  have hmem := List.mem_filter.mp (List.getLast_mem hne)
  have hr := (scan_remembered p adapters).1
  rw [hlast] at hr ⊢
  obtain ⟨i, hi, hget⟩ := Option.bind_eq_some_iff.mp hr.symm
  refine .inl ⟨i, ?_, hget, hmem.2⟩
  rw [Scan.origin, hi]

theorem selects_firstChristmann (odd : Bool) (adapters : List AdapterInfo) :
    Selects adapters (fun a => a.isChristmann = true ∧ a.isOdd = odd)
      (firstChristmann odd adapters)
      ((adapters.find? fun a => a.isChristmann && a.isOdd == odd).getD .none) := by
  unfold firstChristmann
  rw [List.find?_eq_bind_findIdx?_getElem?]
  cases hf : adapters.findIdx? fun a => a.isChristmann && a.isOdd == odd with
  | none => exact .inr ⟨rfl, rfl⟩
  | some i =>
    obtain ⟨hlt, hp, -⟩ := List.findIdx?_eq_some_iff_getElem.mp hf
    refine .inl ⟨i, rfl, ?_⟩
    simpa [hlt] using hp

section

variable {adapters : List AdapterInfo}

theorem getManagementAdapter_of_two (h : 2 ≤ adapters.length) :
    getManagementAdapter adapters =
      if christmannAdapters adapters = 1 then
        ((adapters.filter fun a => !a.isChristmann).getLast?).getD .none
      else if 1 < christmannAdapters adapters then
        (adapters.find? fun a => a.isChristmann && a.isOdd).getD .none
      else adapters.head?.getD .none := by
  match adapters, h with
  | _ :: _ :: _, _ => rfl

theorem getComputeAdapter_of_two (h : 2 ≤ adapters.length) :
    getComputeAdapter adapters =
      if christmannAdapters adapters = 1 then
        ((adapters.filter AdapterInfo.isChristmann).getLast?).getD .none
      else if 1 < christmannAdapters adapters then
        (adapters.find? fun a => a.isChristmann && !a.isOdd).getD .none
      else .none := by
  match adapters, h with
  | _ :: _ :: _, _ => rfl

end

/-! ## The two adapters -/

def lastMacByte (a : AdapterInfo) : Nat := (a.macAddress.1.getD 5 0).toNat

theorem isOdd_iff (a : AdapterInfo) : a.isOdd = true ↔ lastMacByte a % 2 = 1 := by
  have hn : (a.macAddress.1.getD 5 0 &&& 1).toNat = lastMacByte a % 2 := by
    rw [UInt8.toNat_and]
    exact Nat.and_one_is_mod _
  rw [AdapterInfo.isOdd, decide_eq_true_iff, ← hn, ← UInt8.toNat_inj]
  rfl

theorem isOdd_eq_false_iff (a : AdapterInfo) : a.isOdd = false ↔ lastMacByte a % 2 = 0 := by
  rw [← Bool.not_eq_true, isOdd_iff]
  omega

/-- The two adapters are never confused. -/
structure Separated (adapters : List AdapterInfo) : Prop where
  distinct : ∀ i j, managementOrigin adapters = .entry i → computeOrigin adapters = .entry j →
    i ≠ j
  management : Selects adapters (fun _ => True) (managementOrigin adapters)
    (getManagementAdapter adapters)
  compute : Selects adapters (fun a => 2 ≤ adapters.length → a.isChristmann)
    (computeOrigin adapters) (getComputeAdapter adapters)
  parity : 2 ≤ adapters.countP AdapterInfo.isChristmann →
    Selects adapters (fun a => lastMacByte a % 2 = 1) (managementOrigin adapters)
        (getManagementAdapter adapters) ∧
      Selects adapters (fun a => lastMacByte a % 2 = 0) (computeOrigin adapters)
        (getComputeAdapter adapters)

/-- Entries of different kinds are at different positions. -/
theorem Selects.ne {adapters : List AdapterInfo} {P Q : AdapterInfo → Prop} {o o' : Origin}
    {a a' : AdapterInfo} (h : Selects adapters P o a) (h' : Selects adapters Q o' a')
    (hPQ : ∀ a, P a → ¬ Q a) (i j : Nat) (hi : o = .entry i) (hj : o' = .entry j) : i ≠ j := by
  rintro rfl
  subst hi hj
  obtain ⟨k, hk, hget, hP⟩ | ⟨hz, -⟩ := h
  · obtain ⟨l, hl, hget', hQ⟩ | ⟨hz, -⟩ := h'
    · cases hk
      cases hl
      rw [hget, Option.some.injEq] at hget'
      exact hPQ a hP (hget' ▸ hQ)
    · cases hz
  · cases hz

section

variable {adapters : List AdapterInfo} (h2 : 2 ≤ adapters.length) (h : adapters.length < 256)

include h2 h

/-- One Christmann adapter is the compute adapter, the management adapter is one of the others. -/
theorem selects_of_one (hc : adapters.countP AdapterInfo.isChristmann = 1) :
    Selects adapters (fun a => (!a.isChristmann) = true) (managementOrigin adapters)
        (getManagementAdapter adapters) ∧
      Selects adapters (·.isChristmann = true) (computeOrigin adapters)
        (getComputeAdapter adapters) := by
  have h1 := (christmannAdapters_eq_one h).mpr hc
  have hc1 : ∃ a ∈ adapters, a.isChristmann := List.countP_pos_iff.mp (by omega)
  have hother : ∃ a ∈ adapters, (!a.isChristmann) = true := by
    by_contra hno
    have hall : adapters.countP AdapterInfo.isChristmann = adapters.length :=
      List.countP_eq_length.mpr fun a ha => by
        by_contra hn
        exact hno ⟨a, ha, by simpa using hn⟩
    omega
  rw [getManagementAdapter_of_two h2, getComputeAdapter_of_two h2, if_pos h1, if_pos h1]
  unfold managementOrigin computeOrigin
  simp only [scan_christmannAdapters, h1, if_true, h2, if_neg (show ¬ adapters.length = 1 by omega)]
  exact ⟨selects_remembered hother, selects_remembered hc1⟩

/-- Several Christmann adapters are told apart by the parity. -/
theorem selects_of_several (hc : 2 ≤ adapters.countP AdapterInfo.isChristmann) :
    Selects adapters (fun a => a.isChristmann = true ∧ a.isOdd = true) (managementOrigin adapters)
        (getManagementAdapter adapters) ∧
      Selects adapters (fun a => a.isChristmann = true ∧ a.isOdd = false) (computeOrigin adapters)
        (getComputeAdapter adapters) := by
  have h1 : ¬ christmannAdapters adapters = 1 := fun h1 => by
    have := (christmannAdapters_eq_one h).mp h1
    omega
  have hgt := (one_lt_christmannAdapters h).mpr hc
  have hm := selects_firstChristmann true adapters
  have hco := selects_firstChristmann false adapters
  simp only [beq_true, beq_false] at hm hco
  rw [getManagementAdapter_of_two h2, getComputeAdapter_of_two h2, if_neg h1, if_neg h1, if_pos hgt,
    if_pos hgt]
  unfold managementOrigin computeOrigin
  simp only [scan_christmannAdapters, h1, hgt, if_true, if_false, h2,
    if_neg (show ¬ adapters.length = 1 by omega)]
  exact ⟨hm, hco⟩

/-- Without Christmann adapters the first adapter is for the management. -/
theorem selects_of_no (hc : adapters.countP AdapterInfo.isChristmann = 0) :
    Selects adapters (fun _ => True) (managementOrigin adapters) (getManagementAdapter adapters) ∧
      computeOrigin adapters = .zero ∧ getComputeAdapter adapters = .none := by
  have h1 : ¬ christmannAdapters adapters = 1 := fun h1 => by
    have := (christmannAdapters_eq_one h).mp h1
    omega
  have hgt : ¬ 1 < christmannAdapters adapters := fun hgt => by
    have := (one_lt_christmannAdapters h).mp hgt
    omega
  rw [getManagementAdapter_of_two h2, getComputeAdapter_of_two h2, if_neg h1, if_neg h1, if_neg hgt,
    if_neg hgt]
  unfold managementOrigin computeOrigin
  simp only [scan_christmannAdapters, h1, hgt, if_true, if_false, h2,
    if_neg (show ¬ adapters.length = 1 by omega)]
  refine ⟨.inl ⟨0, rfl, ?_, trivial⟩, trivial, trivial⟩
  match adapters, h2 with
  | _ :: _, _ => rfl

end

/-- For every list of fewer than 256 adapters the two choices are separate. -/
theorem adapters_separated {adapters : List AdapterInfo} (h : adapters.length < 256) :
    Separated adapters := by
  by_cases h2 : 2 ≤ adapters.length
  · have hcount : adapters.countP AdapterInfo.isChristmann = 0 ∨
        adapters.countP AdapterInfo.isChristmann = 1 ∨
        2 ≤ adapters.countP AdapterInfo.isChristmann := by omega
    rcases hcount with hc | hc | hc
    · obtain ⟨hm, ho, hr⟩ := selects_of_no h2 h hc
      exact ⟨fun i j _ hj => (by rw [ho] at hj; cases hj), hm, .inr ⟨ho, hr⟩, fun hge => by omega⟩
    · obtain ⟨hm, hco⟩ := selects_of_one h2 h hc
      exact ⟨hm.ne hco fun a ha => by simpa using ha, hm.mono fun _ => trivial,
        hco.mono fun ha _ => ha, fun hge => by omega⟩
    · obtain ⟨hm, hco⟩ := selects_of_several h2 h hc
      exact ⟨hm.ne hco fun a ha ha' => (by rw [ha.2] at ha'; cases ha'.2), hm.mono fun _ => trivial,
        hco.mono fun ha _ => ha.1, fun _ => ⟨hm.mono fun ha => (isOdd_iff _).mp ha.2,
          hco.mono fun ha => (isOdd_eq_false_iff _).mp ha.2⟩⟩
  · have hp : ¬ 2 ≤ adapters.countP AdapterInfo.isChristmann := fun hge =>
      h2 (Nat.le_trans hge List.countP_le_length)
    match adapters, h2 with
    | [], _ =>
      exact ⟨fun i j hi => (by cases hi), .inr ⟨rfl, rfl⟩, .inr ⟨rfl, rfl⟩, fun hge => absurd hge hp⟩
    | [a], h2 =>
      exact ⟨fun i j hi => (by cases hi), .inr ⟨rfl, rfl⟩,
        .inl ⟨0, rfl, rfl, fun hge => absurd hge h2⟩, fun hge => absurd hge hp⟩
    | _ :: _ :: _, h2 => exact absurd (Nat.le_add_left 2 _) h2

def withMac (mac : Field 6) : AdapterInfo := { AdapterInfo.none with macAddress := mac }

/-- The two adapters of a baseboard, and a foreign one in front of them. -/
theorem adapters_separated_sample :
    Separated [withMac ⟨[2, 0, 0, 0, 0, 1], rfl⟩, withMac ⟨[0x70, 0xB3, 0xD5, 0x56, 0, 2], rfl⟩,
      withMac ⟨[0x70, 0xB3, 0xD5, 0x56, 0, 3], rfl⟩] :=
  adapters_separated (by decide)

/-- Of two foreign adapters none is the compute adapter: the returned MAC is zero. -/
theorem foreign_adapters_no_compute :
    2 ≤ [withMac ⟨[2, 0, 0, 0, 0, 1], rfl⟩, withMac ⟨[2, 0, 0, 0, 0, 2], rfl⟩].length ∧
      (getComputeAdapter [withMac ⟨[2, 0, 0, 0, 0, 1], rfl⟩,
        withMac ⟨[2, 0, 0, 0, 0, 2], rfl⟩]).isChristmann = false := by
  decide

end Node

end RecsDaemon
