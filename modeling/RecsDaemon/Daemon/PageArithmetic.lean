import RecsDaemon.Daemon.Statemachine

/-!
# Page numbers of an accepted configuration

Start-up accepts every segment that takes a message header and the sensors'
data. `defined_runs_iff`: in all runs the calls of `getDescriptionPage` are
defined exactly for segments of 81 to 18440 bytes and at most 254 pages.
-/

namespace RecsDaemon

open Base Json

namespace Daemon

def entriesPerPage (bufferSize : Nat) : Nat :=
  (bufferSize - MonitoringDescriptionHeader.sizeof) / SensorDescription.sizeof

/-- The arithmetic of a call of `getDescriptionPage` does not wrap, its numbers fit their variables,
and the iterator stays in the map. -/
structure PageDefined (pf : Platform) (bufferSize : Nat) (page : UInt8) (set : SensorSet) :
    Prop where
  header : MonitoringDescriptionHeader.sizeof ≤ bufferSize
  perPage : entriesPerPage bufferSize ≤ 255
  divisor : SensorSet.sensorsPerPage pf bufferSize ≠ 0
  pages : pageCount (entriesPerPage bufferSize) set.mSensorMap.size ≤ 255
  inside : ∃ p, set.getDescriptionPage pf bufferSize page = .ok p

section Runs

variable (lib : Libraries) (run : Running)

/-- The calls a state of the loop can make: of the current page, and of the first one when the daemon
is to quit. -/
def CallsDefined (s : Loop) : Prop :=
  InLoop s → (s.mState = .monitoringDescription →
      PageDefined lib.platform run.segment.messageMaxSize s.mCurrentPage s.sensors) ∧
    PageDefined lib.platform run.segment.messageMaxSize 1 s.sensors.clear

/-- A line of a client adds no sensors. -/
def KeepsSensors (s : Loop) (e : Event) : Prop :=
  ∀ line, e = .telnet line → ∀ s', step lib run s e = some s' →
    s'.sensors.mSensorMap = s.sensors.mSensorMap

/-- Every call of every run with the sensors of start-up. -/
def DefinedRuns : Prop :=
  ∀ es, Along (step lib run) (KeepsSensors lib run) (Loop.start run) es →
    Always (step lib run) (CallsDefined lib run) (Loop.start run) es

/-- The number of pages of the sensors of start-up. -/
def startPages : Nat := pageCount (entriesPerPage run.segment.messageMaxSize)
  run.sensors.mSensorMap.size

/-! ## The invariant -/

/-- The current page is one of the `n` pages. -/
structure Paging (n : Nat) (s : Loop) : Prop where
  map : s.sensors.mSensorMap = run.sensors.mSensorMap
  current : 1 ≤ s.mCurrentPage.toNat ∧ s.mCurrentPage.toNat ≤ n
  asked : ∀ p maxPages bs, s.point = .write (.page p maxPages) bs → maxPages = UInt8.ofNat n

end Runs

section Steps

variable {lib : Libraries} {run : Running} {s s' : Loop} {n k : Nat}

theorem Paging.ofLoop (h : Paging run n s) (hm : s'.sensors.mSensorMap = s.sensors.mSensorMap)
    (hc : s'.mCurrentPage = s.mCurrentPage)
    (ha : ∀ p maxPages bs, s'.point = .write (.page p maxPages) bs → maxPages = UInt8.ofNat n) :
    Paging run n s' :=
  ⟨hm.trans h.map, by rw [hc]; exact h.current, ha⟩

theorem maxPages_of_compose {found : Found} {set : SensorSet} {p maxPages : UInt8} {bs : Bytes}
    (hf : SensorSet.Fits s.sensors run.segment.messageMaxSize k)
    (h : s.compose lib run found = .ok (set, .page p maxPages, bs)) :
    maxPages = UInt8.ofNat (SensorSet.pagesOf s.sensors k) := by
  rcases compose_cases h with ⟨-, -, hk, -⟩ | ⟨-, hk, -⟩ | ⟨-, page, hp, -, hk, -⟩
  · cases hk
  · cases hk
  · cases hk
    have hsize := hf.size_le
    rw [(SensorSet.getDescriptionPage_ok hp).1, SensorSet.numberOfPages,
      hf.sensorsPerPage, Nat.mod_eq_of_lt (by omega), hf.maxPages]

theorem paging_onHeader {r : ReadReply} {found : Found}
    (hf : SensorSet.Fits run.sensors run.segment.messageMaxSize k)
    (h : Paging run (SensorSet.pagesOf run.sensors k) s) :
    InLoop (s.onHeader lib run r found) →
      Paging run (SensorSet.pagesOf run.sensors k) (s.onHeader lib run r found) := by
  intro hl
  rcases onHeader_cases lib run s r found with he | ⟨-, -, -, he⟩ | ⟨-, -, -, he⟩
  · rw [he]; exact h
  · rw [he]; exact h.ofLoop rfl rfl fun _ _ _ hw => by cases hw
  · rw [he] at hl ⊢
    rcases writeNext_cases lib run s found with ⟨set, kind, bs, hc, hw⟩ | hw
    · have hfs := hf.of_map h.map
      have hpages : SensorSet.pagesOf s.sensors k = SensorSet.pagesOf run.sensors k := by
        rw [SensorSet.pagesOf, SensorSet.pagesOf, h.map]
      have hset : set.mSensorMap = s.sensors.mSensorMap := by
        rcases compose_cases hc with ⟨-, rfl, -⟩ | ⟨-, -, hm, -⟩ | ⟨-, page, -, rfl, -⟩
        · rfl
        · obtain ⟨beans, ws, -, rfl⟩ := SensorSet.getMessage_cases hm; rfl
        · rfl
      rw [hw]
      refine h.ofLoop hset rfl fun p maxPages bs' hw' => ?_
      cases hw'
      rw [← hpages]
      exact maxPages_of_compose hfs hc
    · rw [hw] at hl
      exact hl.elim

theorem Paging.ofReset (hm : s'.sensors.mSensorMap = run.sensors.mSensorMap)
    (hc : s'.mCurrentPage = 1) (hn : 1 ≤ n) (hp : ∀ kind bs, s'.point ≠ .write kind bs) :
    Paging run n s' :=
  ⟨hm, by rw [hc]; exact ⟨Nat.le_refl 1, hn⟩, fun p maxPages bs hw => absurd hw (hp _ _)⟩

theorem current_afterWrite {t : Loop} {kind : Kind} (ht : 1 ≤ t.mCurrentPage.toNat ∧
      t.mCurrentPage.toNat ≤ n) (hn : n ≤ 254)
    (hk : ∀ p maxPages, kind = .page p maxPages → maxPages = UInt8.ofNat n) :
    1 ≤ (t.afterWrite kind).mCurrentPage.toNat ∧ (t.afterWrite kind).mCurrentPage.toNat ≤ n := by
  cases kind with
  | basicInformation => exact ht
  | data => exact ht
  | page p maxPages =>
    obtain rfl := hk p maxPages rfl
    have hsucc : (t.mCurrentPage + 1).toNat = t.mCurrentPage.toNat + 1 := by
      rw [UInt8.toNat_add]
      exact Nat.mod_eq_of_lt (by rw [show (1 : UInt8).toNat = 1 from rfl]; omega)
    unfold Loop.afterWrite
    dsimp only
    by_cases hl : UInt8.ofNat n < t.mCurrentPage + 1
    · rw [if_pos hl]
      exact ⟨Nat.le_refl 1, ht.1.trans ht.2⟩
    · rw [if_neg hl]
      rw [UInt8.lt_iff_toNat_lt, SensorSet.toNat_ofNat_of_le (by omega), hsucc] at hl
      show 1 ≤ (t.mCurrentPage + 1).toNat ∧ (t.mCurrentPage + 1).toNat ≤ n
      rw [hsucc]
      exact ⟨Nat.le_add_left 1 _, Nat.not_lt.mp hl⟩

theorem paging_onWrite (h : Paging run n s) (o : Output) (reset : Bool) :
    (s.onWrite o reset).sensors = s.sensors ∧
      1 ≤ (s.onWrite o reset).mCurrentPage.toNat ∧ (s.onWrite o reset).mCurrentPage.toNat ≤ n := by
  cases reset with
  | false => exact ⟨rfl, h.current⟩
  | true => exact ⟨rfl, Nat.le_refl 1, h.current.1.trans h.current.2⟩

/-- **A step keeps the current page among the pages.** -/
theorem paging_step {e : Event} (hf : SensorSet.Fits run.sensors run.segment.messageMaxSize k)
    (hn : SensorSet.pagesOf run.sensors k ≤ 254)
    (h : InLoop s → Paging run (SensorSet.pagesOf run.sensors k) s)
    (hk : KeepsSensors lib run s e) (hs : step lib run s e = some s') (hl : InLoop s') :
    Paging run (SensorSet.pagesOf run.sensors k) s' := by
  have h1 : 1 ≤ SensorSet.pagesOf run.sensors k := Nat.le_max_left _ _
  rcases step_cases hs with ⟨r, found, hp, rfl, rfl⟩ | ⟨hp, rfl, rfl⟩ | ⟨line, hp, rfl, rfl⟩ |
    ⟨buffer, hp, rfl, rfl⟩ | ⟨msg, msgSize, data, r, hp, rfl, rfl⟩ | ⟨kind, bs, reset, hp, rfl, rfl⟩ |
    ⟨reset, hp, rfl, rfl⟩ | ⟨bs, reset, hp, rfl, rfl⟩
  · exact paging_onHeader hf (h (by simp only [InLoop, hp])) hl
  · have hI := h (by simp only [InLoop, hp])
    exact .ofReset hI.map rfl h1 fun kind bs hw => by cases hp.symm.trans hw
  · have hI := h (by simp only [InLoop, hp])
    have hm := (hk line rfl _ hs).trans hI.map
    rcases onTelnet_cases lib s line with ⟨set, he⟩ | ⟨set, -, he⟩ | he
    · rw [he] at hm ⊢
      exact .ofReset hm rfl h1 fun kind bs hw => by cases hp.symm.trans hw
    · rw [he] at hm ⊢
      exact hI.ofLoop (hm.trans hI.map.symm) rfl fun _ _ _ hw => by cases hp.symm.trans hw
    · rw [he] at hl
      exact hl.elim
  · exact absurd hl (not_inLoop_onQuit buffer)
  · have hI := h (by simp only [InLoop, hp])
    rcases onBody_cases lib run s msg msgSize data r with he | he | ⟨call, he⟩
    · rw [he]; exact hI.ofLoop rfl rfl fun _ _ _ hw => by cases hw
    · rw [he]; exact hI.ofLoop rfl rfl fun _ _ _ hw => by cases hw
    · rw [he]; exact hI.ofLoop rfl rfl fun _ _ _ hw => by cases hw
  · have hI := h (by simp only [InLoop, hp])
    obtain ⟨hsens, hcur⟩ := paging_onWrite hI (.message kind bs) reset
    refine ⟨?_, current_afterWrite hcur hn fun p maxPages hkind => ?_,
      fun _ _ _ hw => by cases hw⟩
    · show ((s.onWrite (.message kind bs) reset).afterWrite kind).sensors.mSensorMap = _
      rw [(afterWrite_frame kind _).2.1, hsens]
      exact hI.map
    · rw [hkind] at hp
      exact hI.asked p maxPages bs hp
  · have hI := h (by simp only [InLoop, hp])
    obtain ⟨hsens, hcur⟩ := paging_onWrite hI .clear reset
    exact ⟨(congrArg SensorSet.mSensorMap hsens).trans hI.map, hcur,
      fun _ _ _ hw => by cases hw⟩
  · exact hl.elim

end Steps

/-! ## Where all calls are defined -/

section Defined

variable {lib : Libraries} {run : Running} {s : Loop} {set : SensorSet} {bufferSize k : Nat}

theorem pageDefined_of_fits (h : SensorSet.Fits set bufferSize k) (pf : Platform) {page : UInt8}
    (h1 : 1 ≤ page.toNat) (hp : page.toNat ≤ SensorSet.pagesOf set k) :
    PageDefined pf bufferSize page set := by
  have hk : entriesPerPage bufferSize = k := h.perPage.symm
  obtain ⟨i, hi⟩ := Nat.exists_eq_add_of_le h1
  have hpage : page = UInt8.ofNat (i + 1) := by
    rw [← UInt8.ofNat_toNat (x := page), hi, Nat.add_comm]
  have hdiv : SensorSet.sensorsPerPage pf bufferSize ≠ 0 := by
    rw [h.sensorsPerPage]
    intro e
    have := (SensorSet.ofNat_eq_zero_iff h.le).mp e
    have := h.pos
    omega
  refine ⟨?_, by rw [hk]; exact h.le, hdiv, by rw [hk]; exact h.pages, ?_⟩
  · have := h.bufferSize_bounds.1
    simp only [MonitoringDescriptionHeader.sizeof]
    omega
  · rw [hpage]
    exact ⟨_, SensorSet.getDescriptionPage_eq h pf set.mKnownGroups (by omega)⟩

theorem pageDefined_clear (h : SensorSet.Fits set bufferSize k) (pf : Platform) :
    PageDefined pf bufferSize 1 set.clear := by
  have h0 : pageCount k set.clear.mSensorMap.size = 0 := by
    show (0 + k - 1) / k = 0
    have := h.pos
    exact Nat.div_eq_of_lt (by omega)
  have hf : SensorSet.Fits set.clear bufferSize k :=
    ⟨h.perPage, h.pos, h.le, by rw [h0]; exact Nat.zero_le _⟩
  exact pageDefined_of_fits hf pf (Nat.le_refl 1) (Nat.le_max_left _ _)

theorem callsDefined_of_paging (hf : SensorSet.Fits run.sensors run.segment.messageMaxSize k)
    (h : InLoop s → Paging run (SensorSet.pagesOf run.sensors k) s) : CallsDefined lib run s := by
  intro hl
  have hI := h hl
  have hfs := hf.of_map hI.map
  have hpages : SensorSet.pagesOf s.sensors k = SensorSet.pagesOf run.sensors k := by
    rw [SensorSet.pagesOf, SensorSet.pagesOf, hI.map]
  refine ⟨fun _ => ?_, pageDefined_clear hfs _⟩
  exact pageDefined_of_fits hfs _ hI.current.1 (by rw [hpages]; exact hI.current.2)

theorem paging_start (run : Running) (k : Nat) :
    Paging run (SensorSet.pagesOf run.sensors k) (Loop.start run) :=
  ⟨rfl, ⟨Nat.le_refl 1, Nat.le_max_left _ _⟩, nofun⟩

theorem definedRuns_of_fits (hf : SensorSet.Fits run.sensors run.segment.messageMaxSize k)
    (hn : SensorSet.pagesOf run.sensors k ≤ 254) : DefinedRuns lib run := fun _ h =>
  (Along.always (I := fun s => InLoop s → Paging run (SensorSet.pagesOf run.sensors k) s)
    (fun _ _ _ hI hk hs => paging_step hf hn hI hk hs) (fun _ => paging_start run k) h).mono
    fun _ hI => callsDefined_of_paging hf hI

end Defined

/-! ## Where one is not -/

section Undefined

variable {lib : Libraries} {run : Running} {s : Loop} {k : Nat}

/-- Rounds that find the slot free. -/
def rounds (n : Nat) : List Event := (List.replicate n [Event.idle, .wrote false]).flatten

theorem rounds_succ (n : Nat) : rounds (n + 1) = rounds n ++ [.idle, .wrote false] := by
  rw [rounds, List.replicate_succ', List.flatten_append]
  simp [rounds]

theorem along_rounds (s : Loop) (n : Nat) :
    Along (step lib run) (KeepsSensors lib run) s (rounds n) := by
  have hquiet : ∀ e ∈ rounds n, ∀ line, e ≠ .telnet line := by
    intro e he line
    simp only [rounds, List.mem_flatten, List.mem_replicate] at he
    obtain ⟨l, ⟨-, rfl⟩, he⟩ := he
    simp only [List.mem_cons, List.not_mem_nil, or_false] at he
    rcases he with rfl | rfl
    · nofun
    · nofun
  exact (along_of_forall hquiet s).imp fun _ e he line h => absurd h (he line)

/-- A round that writes the message it makes. -/
theorem exec_round {set : SensorSet} {kind : Kind} {bs : Bytes} (hp : s.point = .header)
    (hc : s.compose lib run .sample = .ok (set, kind, bs)) :
    exec (step lib run) s [.idle, .wrote false] = some
      ((({ s with sensors := set, point := .write kind bs }.emit (.message kind bs)).afterWrite
        kind).goto .header) := by
  have hread : step lib run s .idle =
      some { s with sensors := set, point := .write kind bs } := by
    have hidle : s.onHeader lib run ⟨4, fun _ => 0⟩ .sample = s.writeNext lib run .sample := rfl
    simp only [step, hp, Event.idle, hidle]
    unfold Loop.writeNext
    rw [hc]
  rw [exec, hread]
  rfl

/-- The state before page `i`, counted from zero. -/
structure BeforePage (run : Running) (i : Nat) (s : Loop) : Prop where
  map : s.sensors.mSensorMap = run.sensors.mSensorMap
  point : s.point = .header
  state : s.mState = .monitoringDescription
  page : s.mCurrentPage = UInt8.ofNat (i + 1)

theorem exec_first :
    ∃ s, exec (step lib run) (Loop.start run) (rounds 1) = some s ∧ BeforePage run 0 s :=
  ⟨_, exec_round rfl rfl, rfl, rfl, rfl, rfl⟩

theorem exec_page (hf : SensorSet.Fits run.sensors run.segment.messageMaxSize k) {i : Nat}
    (hi : i < SensorSet.pagesOf run.sensors k) (hs : BeforePage run i s)
    (hnext : ¬ UInt8.ofNat (SensorSet.pagesOf run.sensors k) < UInt8.ofNat (i + 1) + 1) :
    ∃ s', exec (step lib run) s [.idle, .wrote false] = some s' ∧
      s'.sensors.mSensorMap = run.sensors.mSensorMap ∧ s'.point = .header ∧
      s'.mState = .monitoringDescription ∧ s'.mCurrentPage = UInt8.ofNat (i + 1) + 1 := by
  have hpages : SensorSet.pagesOf s.sensors k = SensorSet.pagesOf run.sensors k := by
    rw [SensorSet.pagesOf, SensorSet.pagesOf, hs.map]
  have hpage := SensorSet.getDescriptionPage_eq (hf.of_map hs.map) lib.platform
    s.sensors.mKnownGroups (by rw [hpages]; exact hi)
  have hc : s.compose lib run .sample = .ok
      ({ s.sensors with
        mKnownGroups := (SensorSet.pageOf s.sensors k i s.sensors.mKnownGroups).mKnownGroups },
      .page s.mCurrentPage (UInt8.ofNat (SensorSet.pagesOf s.sensors k)),
      (SensorSet.pageOf s.sensors k i s.sensors.mKnownGroups).bytes Found.sample.buffer) := by
    unfold Loop.compose
    rw [hs.state]
    dsimp only
    rw [hs.page, hpage]
    rfl
  refine ⟨_, exec_round hs.point hc, ?_⟩
  rw [hpages]
  unfold Loop.afterWrite
  dsimp only
  rw [if_neg (by rw [← hs.page] at hnext; exact hnext)]
  exact ⟨hs.map, rfl, hs.state, by rw [← hs.page]; rfl⟩

/-- **The rounds come to every page.** -/
theorem exec_rounds (hf : SensorSet.Fits run.sensors run.segment.messageMaxSize k) {i : Nat}
    (hi : i < SensorSet.pagesOf run.sensors k) :
    ∃ s, exec (step lib run) (Loop.start run) (rounds (i + 1)) = some s ∧ BeforePage run i s := by
  have hle := hf.pagesOf_le
  induction i with
  | zero => exact exec_first
  | succ i ih =>
    obtain ⟨s, hs, hb⟩ := ih (Nat.lt_of_succ_lt hi)
    have hsucc : UInt8.ofNat (i + 1) + 1 = UInt8.ofNat (i + 1 + 1) :=
      (UInt8.ofNat_add (i + 1) 1).symm
    obtain ⟨s', hs', hm, hp, hst, hc⟩ := @exec_page lib _ _ _ hf _ (Nat.lt_of_succ_lt hi) hb (by
      rw [hsucc, UInt8.lt_iff_toNat_lt, SensorSet.toNat_ofNat_of_le hle,
        SensorSet.toNat_ofNat_of_le (by omega)]
      omega)
    refine ⟨s', ?_, hm, hp, hst, hc.trans hsucc⟩
    rw [rounds_succ, exec_append]
    exact ⟨s, hs, hs'⟩

theorem not_pageDefined_zero {set : SensorSet} {bufferSize : Nat}
    (hf : SensorSet.Fits set bufferSize k) (pf : Platform) : ¬ PageDefined pf bufferSize 0 set := by
  intro h
  obtain ⟨p, hp⟩ := h.inside
  obtain ⟨onPage, ho, hend⟩ := SensorSet.end_of_ok hp
  have hk := hf.le
  have hpos := hf.pos
  have hnat := SensorSet.toNat_ofNat_of_le hk
  have hone := SensorSet.one_le_maxPages pf (set.mSensorMap.size % 2 ^ 16)
    (SensorSet.sensorsPerPage pf bufferSize)
  have hlt : (0 : UInt8) < SensorSet.numberOfPages pf bufferSize set := by
    rw [UInt8.lt_iff_toNat_lt]
    rw [UInt8.le_iff_toNat_le] at hone
    exact hone
  have hon : onPage = SensorSet.sensorsPerPage pf bufferSize := by
    unfold SensorSet.sensorsOnPage at ho
    rw [if_pos hlt] at ho
    exact (Except.ok.inj ho).symm
  rw [hon, hf.sensorsPerPage, SensorSet.startingSensor, hnat] at hend
  have hzero : (UInt8.toNat 0 : Int) = 0 := rfl
  rw [hzero] at hend
  omega

/-- What the calls of the first rounds ask for. -/
theorem fits_of_definedRuns (h : DefinedRuns lib run) :
    SensorSet.Fits run.sensors run.segment.messageMaxSize
      (entriesPerPage run.segment.messageMaxSize) := by
  obtain ⟨-, hclear⟩ := h [] trivial [] _ (List.prefix_refl _) rfl trivial
  obtain ⟨s, hs, hb⟩ := @exec_first lib run
  have hl : InLoop s := by simp only [InLoop, hb.point]
  have hpage := (h _ (along_rounds _ 1) _ s (List.prefix_refl _) hs hl).1 hb.state
  have hp := hpage.pages
  rw [hb.map] at hp
  refine ⟨rfl, ?_, hclear.perPage, hp⟩
  by_contra h0
  have hheader := hclear.header
  have hperPage := hclear.perPage
  apply hclear.divisor
  simp only [entriesPerPage, MonitoringDescriptionHeader.sizeof, SensorDescription.sizeof] at *
  have hw : (run.segment.messageMaxSize + 2 ^ 64 - 9) % 2 ^ 64 / 72 = 0 := by omega
  simp only [SensorSet.sensorsPerPage, MonitoringDescriptionHeader.sizeof,
    SensorDescription.sizeof, hw]
  rfl

/-- The page after page 255 is page 0. -/
theorem pages_of_definedRuns (h : DefinedRuns lib run)
    (hf : SensorSet.Fits run.sensors run.segment.messageMaxSize k) :
    SensorSet.pagesOf run.sensors k ≤ 254 := by
  by_contra hn
  have h255 : SensorSet.pagesOf run.sensors k = 255 := by
    have := hf.pagesOf_le
    omega
  obtain ⟨s, hs, hb⟩ := @exec_rounds lib _ _ hf 254 (by omega)
  obtain ⟨s', hs', hm, hp, hst, hc⟩ := @exec_page lib _ _ _ hf _ (by omega) hb
    (by rw [h255]; decide)
  have hrun : exec (step lib run) (Loop.start run) (rounds 256) = some s' := by
    rw [rounds_succ, exec_append]
    exact ⟨s, hs, hs'⟩
  have hl : InLoop s' := by simp only [InLoop, hp]
  have hpage := (h _ (along_rounds _ 256) _ s' (List.prefix_refl _) hrun hl).1 hst
  rw [hc, show UInt8.ofNat (254 + 1) + 1 = 0 by decide] at hpage
  exact not_pageDefined_zero (hf.of_map hm) _ hpage

/-- **All calls are defined exactly for segments that take between one and 255 entries a page, and at
most 254 pages.** -/
theorem defined_runs_iff (lib : Libraries) (run : Running) :
    DefinedRuns lib run ↔ 81 ≤ run.segment.messageMaxSize ∧
      run.segment.messageMaxSize ≤ 18440 ∧ startPages run ≤ 254 := by
  constructor
  · intro h
    have hf := fits_of_definedRuns h
    have hpos := hf.pos
    have hle := hf.le
    have hpages : startPages run ≤ 254 := (Nat.le_max_right 1 _).trans (pages_of_definedRuns h hf)
    simp only [entriesPerPage, MonitoringDescriptionHeader.sizeof, SensorDescription.sizeof]
      at hpos hle
    exact ⟨by omega, by omega, hpages⟩
  · rintro ⟨hlow, hhigh, hpages⟩
    have hf : SensorSet.Fits run.sensors run.segment.messageMaxSize
        (entriesPerPage run.segment.messageMaxSize) := by
      refine ⟨rfl, ?_, ?_, Nat.le_succ_of_le hpages⟩
      · simp only [entriesPerPage, MonitoringDescriptionHeader.sizeof, SensorDescription.sizeof]
        omega
      · simp only [entriesPerPage, MonitoringDescriptionHeader.sizeof, SensorDescription.sizeof]
        omega
    exact definedRuns_of_fits hf (max_le (by omega) hpages)

/-- A segment of 50 bytes is accepted, and takes no entry. -/
theorem small_segment_undefined :
    ∃ run, start .sample (.sample 20 0 1) = some run ∧ run.segment.messageMaxSize = 50 ∧
      ¬ DefinedRuns .sample run := by
  refine ⟨_, rfl, rfl, fun h => ?_⟩
  obtain ⟨-, hclear⟩ := h [] trivial [] _ (List.prefix_refl _) rfl trivial
  exact hclear.divisor (show SensorSet.sensorsPerPage .x86 50 = 0 by decide)

end Undefined

end Daemon

end RecsDaemon
