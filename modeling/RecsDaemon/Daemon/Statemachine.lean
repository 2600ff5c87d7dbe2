import RecsDaemon.Daemon.Loop
import RecsDaemon.SensorSet.Pages

/-!
# The order of the messages

After a reset the loop writes the basic information, the description pages in
order, and then data. `described_of_undisturbed`: this holds in every run in
which no write of a message resets the state machine and the number of pages
leaves `mCurrentPage` room for one more.
-/

namespace RecsDaemon

open Base Json

namespace Daemon

/-! ## What was announced -/

def Output.kind : Output → Option Kind
  | .message kind _ => some kind
  | _ => none

def sinceReset (trace : List Output) : List Output := trace.takeWhile (· ≠ .reset)

/-- The messages written after the last reset, in their order. -/
def announced (trace : List Output) : List Kind := (sinceReset trace).reverse.filterMap Output.kind

@[simp] theorem sinceReset_reset (os : List Output) : sinceReset (.reset :: os) = [] := by
  simp [sinceReset]

theorem sinceReset_cons {o : Output} (h : o ≠ .reset) (os : List Output) :
    sinceReset (o :: os) = o :: sinceReset os := by
  simp [sinceReset, h]

@[simp] theorem announced_reset (os : List Output) : announced (.reset :: os) = [] := by
  simp [announced]

@[simp] theorem announced_message (kind : Kind) (bs : Bytes) (os : List Output) :
    announced (.message kind bs :: os) = announced os ++ [kind] := by
  simp [announced, sinceReset_cons, Output.kind]

theorem announced_of_silent {o : Output} (h : o ≠ .reset) (hk : o.kind = none) (os : List Output) :
    announced (o :: os) = announced os := by
  simp [announced, sinceReset_cons h, hk]

/-! ## What is to be announced -/

/-- The first `i` of `maxPages` pages. -/
def firstPages (maxPages : UInt8) (i : Nat) : List Kind :=
  (SensorSet.pageNumbers i).map fun p => .page p maxPages

theorem firstPages_succ (maxPages : UInt8) (i : Nat) :
    firstPages maxPages (i + 1) = firstPages maxPages i ++ [.page (UInt8.ofNat (i + 1)) maxPages] := by
  simp [firstPages, SensorSet.pageNumbers, List.range_succ]

/-- The messages a reset calls for. -/
def script (maxPages : UInt8) : List Kind := .basicInformation :: firstPages maxPages maxPages.toNat

theorem firstPages_prefix (maxPages : UInt8) {i j : Nat} (h : i ≤ j) :
    firstPages maxPages i <+: firstPages maxPages j := by
  induction j, h using Nat.le_induction with
  | base => exact List.prefix_refl _
  | succ j _ ih => rw [firstPages_succ]; exact ih.trans (List.prefix_append _ _)

section Described

variable (lib : Libraries) (run : Running)

def numberOfPages (s : Loop) : UInt8 :=
  SensorSet.numberOfPages lib.platform run.segment.messageMaxSize s.sensors

/-- The bytes are what the encoder of their kind makes for a set of these sensors. -/
def Genuine (map : SensorMap) : Kind → Bytes → Prop
  | .basicInformation, bs => bs.length = BasicInformationBlock.sizeof ∧ ∃ host buffer,
      bs = Node.basicInformationBytes host run.segment.messageMaxSize buffer
  | .page p maxPages, bs => ∃ (set : SensorSet) (page : SensorSet.Page) (buffer : Mem),
      set.mSensorMap = map ∧ page.maxPages = maxPages ∧ bs = page.bytes buffer ∧
      set.getDescriptionPage lib.platform run.segment.messageMaxSize p = .ok page
  | .data, bs => ∃ (set set' : SensorSet) (inputs : Inputs), set.mSensorMap = map ∧
      set.getMessage lib.deserialize inputs = .ok set' ∧ bs = set'.mData.read 0 run.sensorSize

/-- The messages after the last reset are those of the script in order, and after them data; page
numbers are between 1 and the number of pages; and nothing undoes a reset. -/
structure Described (s : Loop) : Prop where
  order : announced s.trace <+: script (numberOfPages lib run s) ∨
    ∃ n, announced s.trace = script (numberOfPages lib run s) ++ List.replicate n .data
  genuine : ∀ kind bs, .message kind bs ∈ sinceReset s.trace →
    Genuine lib run s.sensors.mSensorMap kind bs
  passed : ∀ p maxPages bs, .message (.page p maxPages) bs ∈ s.trace → 1 ≤ p ∧ p ≤ maxPages
  next : s.mState = .monitoringDescription →
    1 ≤ s.mCurrentPage ∧ s.mCurrentPage ≤ numberOfPages lib run s
  kept : s.trace.head? = some .reset →
    s.mState = .basicInformation ∧ s.mCurrentPage = 1 ∧ s.mFirstWriteDone = false

/-- The loop has not been left. -/
def InLoop (s : Loop) : Prop :=
  match s.point with
  | .last _ => False
  | .ended => False
  | _ => True

/-- The step is not a write of a message that resets the state machine, there are at most 254 pages,
and the segment has room for the basic information. -/
structure Undisturbed (s : Loop) (e : Event) : Prop where
  reset : ∀ kind bs, s.point = .write kind bs → e ≠ .wrote true
  pages : numberOfPages lib run s ≤ 254
  block : BasicInformationBlock.sizeof ≤ run.segment.messageMaxSize

/-- A write of a message returns with a reset. -/
def resetsInWrite : Point → Event → Bool
  | .write _ _, .wrote reset => reset
  | _, _ => false

theorem resetsInWrite_eq_false {p : Point} {e : Event} :
    resetsInWrite p e = false ↔ ∀ kind bs, p = .write kind bs → e ≠ .wrote true := by
  constructor
  · rintro h kind bs rfl rfl
    cases h
  · intro h
    unfold resetsInWrite
    split
    · next kind bs reset => exact Bool.eq_false_iff.mpr fun hr => h kind bs rfl (by rw [hr])
    · rfl

instance (s : Loop) (e : Event) : Decidable (Undisturbed lib run s e) :=
  decidable_of_iff (resetsInWrite s.point e = false ∧ numberOfPages lib run s ≤ 254 ∧
      BasicInformationBlock.sizeof ≤ run.segment.messageMaxSize)
    ⟨fun h => ⟨resetsInWrite_eq_false.mp h.1, h.2.1, h.2.2⟩,
      fun h => ⟨resetsInWrite_eq_false.mpr h.reset, h.pages, h.block⟩⟩

/-! ## The invariant -/

/-- How much has been announced in each state. -/
def Progress (s : Loop) : Prop :=
  match s.mState with
  | .basicInformation => announced s.trace = []
  | .monitoringDescription => ∃ i < (numberOfPages lib run s).toNat,
      s.mCurrentPage = UInt8.ofNat (i + 1) ∧
      announced s.trace = .basicInformation :: firstPages (numberOfPages lib run s) i
  | .monitoringData => ∃ n,
      announced s.trace = script (numberOfPages lib run s) ++ List.replicate n .data

/-- The kind of the next message. -/
def nextKind (s : Loop) : Kind :=
  match s.mState with
  | .basicInformation => .basicInformation
  | .monitoringDescription => .page s.mCurrentPage (numberOfPages lib run s)
  | .monitoringData => .data

structure Announcing (s : Loop) : Prop where
  progress : Progress lib run s
  /-- Only `mState = State_BasicInformation` comes with no page number of its own. -/
  first : s.mState = .basicInformation → s.mCurrentPage = 1
  asked : ∀ kind bs, s.point = .write kind bs →
    kind = nextKind lib run s ∧ Genuine lib run s.sensors.mSensorMap kind bs
  genuine : ∀ kind bs, .message kind bs ∈ sinceReset s.trace →
    Genuine lib run s.sensors.mSensorMap kind bs
  passed : ∀ p maxPages bs, .message (.page p maxPages) bs ∈ s.trace → 1 ≤ p ∧ p ≤ maxPages
  kept : s.trace.head? = some .reset →
    s.mState = .basicInformation ∧ s.mCurrentPage = 1 ∧ s.mFirstWriteDone = false

end Described

section Invariant

variable {lib : Libraries} {run : Running} {s s' : Loop}

theorem ofNat_succ_bounds {i : Nat} {n : UInt8} (h : i < n.toNat) :
    1 ≤ UInt8.ofNat (i + 1) ∧ UInt8.ofNat (i + 1) ≤ n := by
  have hn := n.toNat_lt
  have hi : (UInt8.ofNat (i + 1)).toNat = i + 1 := SensorSet.toNat_ofNat_of_le (by omega)
  rw [UInt8.le_iff_toNat_le, UInt8.le_iff_toNat_le, hi]
  exact ⟨Nat.le_add_left 1 i, h⟩

theorem Announcing.described (h : Announcing lib run s) : Described lib run s where
  order := by
    have hp := h.progress
    unfold Progress at hp
    split at hp
    · rw [hp]; exact .inl List.nil_prefix
    · obtain ⟨i, hi, -, ha⟩ := hp
      rw [ha, script]
      exact .inl (List.cons_prefix_cons.mpr ⟨rfl, firstPages_prefix _ hi.le⟩)
    · exact .inr hp
  genuine := h.genuine
  passed := h.passed
  next := by
    intro hs
    have hp := h.progress
    simp only [Progress, hs] at hp
    obtain ⟨i, hi, hc, -⟩ := hp
    rw [hc]
    exact ofNat_succ_bounds hi
  kept := h.kept

theorem numberOfPages_congr (h : s'.sensors.mSensorMap = s.sensors.mSensorMap) :
    numberOfPages lib run s' = numberOfPages lib run s := by
  rw [numberOfPages, numberOfPages, SensorSet.numberOfPages, SensorSet.numberOfPages, h]

/-- A step that touches neither the variables of the state machine nor the sensors, with at most an
output that is no message. -/
theorem Announcing.frame (h : Announcing lib run s) (hs : s'.mState = s.mState)
    (hc : s'.mCurrentPage = s.mCurrentPage) (hf : s'.mFirstWriteDone = s.mFirstWriteDone)
    (hm : s'.sensors.mSensorMap = s.sensors.mSensorMap)
    (ht : s'.trace = s.trace ∨ ∃ o, o ≠ .reset ∧ o.kind = none ∧ s'.trace = o :: s.trace)
    (ha : ∀ kind bs, s'.point = .write kind bs →
      kind = nextKind lib run s ∧ Genuine lib run s.sensors.mSensorMap kind bs) :
    Announcing lib run s' := by
  have hn : numberOfPages lib run s' = numberOfPages lib run s := numberOfPages_congr hm
  have hk : nextKind lib run s' = nextKind lib run s := by simp only [nextKind, hs, hc, hn]
  have hann : announced s'.trace = announced s.trace := by
    rcases ht with ht | ⟨o, ho, hk, ht⟩
    · rw [ht]
    · rw [ht, announced_of_silent ho hk]
  have hmem (kind : Kind) (bs : Bytes) (hin : .message kind bs ∈ s'.trace) :
      .message kind bs ∈ s.trace := by
    rcases ht with ht | ⟨o, -, hk, ht⟩
    · rwa [ht] at hin
    · rw [ht] at hin
      rcases List.mem_cons.mp hin with rfl | hin
      · cases hk
      · exact hin
  refine ⟨?_, ?_, ?_, ?_, fun p n bs hin => h.passed p n bs (hmem _ _ hin), ?_⟩
  · have hp := h.progress
    simp only [Progress, hs, hc, hn, hann] at hp ⊢
    exact hp
  · rw [hs, hc]; exact h.first
  · rw [hk, hm]; exact ha
  · rw [hm]
    intro kind bs hin
    rcases ht with ht | ⟨o, ho, hk, ht⟩
    · rw [ht] at hin; exact h.genuine kind bs hin
    · rw [ht, sinceReset_cons ho] at hin
      rcases List.mem_cons.mp hin with rfl | hin
      · cases hk
      · exact h.genuine kind bs hin
  · rw [hs, hc, hf]
    rcases ht with ht | ⟨o, ho, -, ht⟩
    · rw [ht]; exact h.kept
    · intro hr
      rw [ht] at hr
      exact absurd (Option.some.inj hr) ho

theorem Announcing.ofReset {os : List Output} (ht : s'.trace = .reset :: os)
    (hs : s'.mState = .basicInformation) (hc : s'.mCurrentPage = 1)
    (hf : s'.mFirstWriteDone = false) (hp : ∀ kind bs, s'.point ≠ .write kind bs)
    (hpass : ∀ p n bs, .message (.page p n) bs ∈ os → 1 ≤ p ∧ p ≤ n) : Announcing lib run s' where
  progress := by simp only [Progress, hs, ht, announced_reset]
  first _ := hc
  asked kind bs h := absurd h (hp kind bs)
  genuine kind bs h := by rw [ht, sinceReset_reset] at h; cases h
  passed p n bs h := by
    rw [ht] at h
    rcases List.mem_cons.mp h with h | h
    · cases h
    · exact hpass p n bs h
  kept _ := ⟨hs, hc, hf⟩

theorem announcing_start (run : Running) : Announcing lib run (Loop.start run) where
  progress := rfl
  first _ := rfl
  asked kind bs h := by cases h
  genuine kind bs h := by cases h
  passed p n bs h := by cases h
  kept h := by cases h

/-! ## Steps -/

theorem genuine_compose {found : Found} {set : SensorSet} {kind : Kind} {bs : Bytes}
    (hb : BasicInformationBlock.sizeof ≤ run.segment.messageMaxSize)
    (h : s.compose lib run found = .ok (set, kind, bs)) :
    set.mSensorMap = s.sensors.mSensorMap ∧ kind = nextKind lib run s ∧
      Genuine lib run s.sensors.mSensorMap kind bs := by
  rcases compose_cases h with ⟨hs, rfl, rfl, rfl⟩ | ⟨hs, rfl, hm, rfl⟩ | ⟨hs, page, hp, rfl, rfl, rfl⟩
  · exact ⟨rfl, by simp only [nextKind, hs], (Node.basicInformationBytes_spec hb).1, _, _, rfl⟩
  · obtain ⟨beans, ws, -, rfl⟩ := SensorSet.getMessage_cases hm
    exact ⟨rfl, by simp only [nextKind, hs], s.sensors, _, _, rfl, hm, rfl⟩
  · refine ⟨rfl, ?_, s.sensors, page, _, rfl, rfl, rfl, hp⟩
    simp only [nextKind, hs, numberOfPages, (SensorSet.getDescriptionPage_ok hp).1]

theorem announcing_onHeader {r : ReadReply} {found : Found} (h : Announcing lib run s)
    (hb : BasicInformationBlock.sizeof ≤ run.segment.messageMaxSize)
    (hl : InLoop (s.onHeader lib run r found)) : Announcing lib run (s.onHeader lib run r found) := by
  rcases onHeader_cases lib run s r found with he | ⟨-, -, -, he⟩ |
    ⟨-, -, -, he⟩
  · rw [he]; exact h
  · rw [he]
    exact h.frame rfl rfl rfl rfl (.inl rfl) fun kind bs hw => by cases hw
  · rw [he] at hl ⊢
    rcases writeNext_cases lib run s found with ⟨set, kind, bs, hc, hw⟩ | hw
    · obtain ⟨hm, hk, hg⟩ := genuine_compose hb hc
      rw [hw]
      refine h.frame rfl rfl rfl hm (.inl rfl) fun kind' bs' hw' => ?_
      cases hw'
      exact ⟨hk, hg⟩
    · rw [hw] at hl
      exact hl.elim

theorem announcing_onBody {msg : Bytes} {msgSize : Nat} {data : Option Mem} {r : ReadReply}
    (h : Announcing lib run s) : Announcing lib run (s.onBody lib run msg msgSize data r) := by
  rcases onBody_cases lib run s msg msgSize data r with he | he | ⟨call, he⟩
  · rw [he]
    exact h.frame rfl rfl rfl rfl (.inl rfl) fun kind bs hw => by cases hw
  · rw [he]
    exact h.frame rfl rfl rfl rfl (.inl rfl) fun kind bs hw => by cases hw
  · rw [he]
    exact h.frame rfl rfl rfl rfl (.inr ⟨.execute call, by simp, rfl, rfl⟩) fun kind bs hw => by
      cases hw

theorem announcing_onTelnet {line : Bytes} (h : Announcing lib run s) (hp : s.point = .header)
    (hl : InLoop (s.onTelnet lib line)) : Announcing lib run (s.onTelnet lib line) := by
  rcases onTelnet_cases lib s line with ⟨set, he⟩ | ⟨set, hm, he⟩ | he
  · rw [he]
    exact .ofReset rfl rfl rfl rfl (fun kind bs hw => by cases hp.symm.trans hw) h.passed
  · rw [he]
    exact h.frame rfl rfl rfl hm (.inl rfl) fun kind bs hw => by cases hp.symm.trans hw
  · rw [he] at hl
    exact hl.elim

theorem Announcing.written {kind : Kind} {bs : Bytes} (h : Announcing lib run s)
    (hp : s.point = .write kind bs) (ht : s'.trace = .message kind bs :: s.trace)
    (hm : s'.sensors.mSensorMap = s.sensors.mSensorMap) (hpt : s'.point = .header)
    (hprog : Progress lib run s') (hfirst : s'.mState = .basicInformation → s'.mCurrentPage = 1) :
    Announcing lib run s' where
  progress := hprog
  first := hfirst
  asked k b hw := by rw [hpt] at hw; cases hw
  genuine k b hin := by
    rw [ht, sinceReset_cons (by simp)] at hin
    rw [hm]
    rcases List.mem_cons.mp hin with hin | hin
    · cases hin; exact (h.asked kind bs hp).2
    · exact h.genuine k b hin
  passed p n b hin := by
    rw [ht] at hin
    rcases List.mem_cons.mp hin with hin | hin
    · injection hin with hk _
      have hnext := h.described.next
      have hkind := hk.trans (h.asked kind bs hp).1
      unfold nextKind at hkind
      split at hkind
      · cases hkind
      · next hs => cases hkind; exact hnext hs
      · cases hkind
    · exact h.passed p n b hin
  kept hr := by rw [ht] at hr; cases hr

/-- The assignments after the write of the next message count it. -/
theorem announcing_onWrite {kind : Kind} {bs : Bytes} (h : Announcing lib run s)
    (hp : s.point = .write kind bs) (hn : numberOfPages lib run s ≤ 254) :
    Announcing lib run (((s.emit (.message kind bs)).afterWrite kind).goto .header) := by
  have hk := (h.asked kind bs hp).1
  have hprog := h.progress
  unfold nextKind at hk
  unfold Progress at hprog
  split at hk
  · next hs =>
    subst hk
    simp only [hs] at hprog
    refine h.written hp rfl rfl rfl ?_ fun hb => by cases hb
    have h1 : 1 ≤ numberOfPages lib run s := SensorSet.one_le_maxPages _ _ _
    rw [UInt8.le_iff_toNat_le] at h1
    show ∃ i < (numberOfPages lib run s).toNat, _ ∧ announced (_ :: s.trace) = _
    rw [announced_message, hprog]
    exact ⟨0, h1, h.first hs, rfl⟩
  · next hs =>
    subst hk
    simp only [hs] at hprog
    obtain ⟨i, hi, hc, ha⟩ := hprog
    rw [UInt8.le_iff_toNat_le] at hn
    have hn' : (numberOfPages lib run s).toNat ≤ 254 := hn
    -- no wrap: the page after the last one is at most 255
    have hsucc : s.mCurrentPage + 1 = UInt8.ofNat (i + 1 + 1) := by
      rw [hc, ← UInt8.toNat_inj]
      simp
    have hnat : (UInt8.ofNat (i + 1 + 1)).toNat = i + 1 + 1 :=
      SensorSet.toNat_ofNat_of_le (by omega)
    have hann : announced (.message (.page s.mCurrentPage (numberOfPages lib run s)) bs :: s.trace) =
        .basicInformation :: firstPages (numberOfPages lib run s) (i + 1) := by
      rw [announced_message, ha, hc, firstPages_succ]
      rfl
    have hlt : numberOfPages lib run s < s.mCurrentPage + 1 ↔
        (numberOfPages lib run s).toNat < i + 1 + 1 := by
      rw [hsucc, UInt8.lt_iff_toNat_lt, hnat]
    by_cases hlast : numberOfPages lib run s < s.mCurrentPage + 1
    · have he : (s.emit (.message (.page s.mCurrentPage (numberOfPages lib run s)) bs)).afterWrite
          (.page s.mCurrentPage (numberOfPages lib run s)) = _ := if_pos hlast
      have hi' : i + 1 = (numberOfPages lib run s).toNat := by rw [hlt] at hlast; omega
      rw [he]
      refine h.written hp rfl rfl rfl ?_ fun hb => by cases hb
      refine ⟨0, ?_⟩
      show announced _ = script (numberOfPages lib run s) ++ _
      rw [script, ← hi']
      exact hann.trans (List.append_nil _).symm
    · have he : (s.emit (.message (.page s.mCurrentPage (numberOfPages lib run s)) bs)).afterWrite
          (.page s.mCurrentPage (numberOfPages lib run s)) = _ := if_neg hlast
      rw [he]
      refine h.written hp rfl rfl rfl ?_ fun hb => by cases hs.symm.trans hb
      show Progress lib run { s with mCurrentPage := _, mFirstWriteDone := _, trace := _, point := _ }
      simp only [Progress, hs]
      have hi' : i + 1 < (numberOfPages lib run s).toNat := by rw [hlt] at hlast; omega
      exact ⟨i + 1, hi', hsucc, hann⟩
  · next hs =>
    subst hk
    simp only [hs] at hprog
    obtain ⟨n, ha⟩ := hprog
    refine h.written hp rfl rfl rfl ?_ fun hb => by cases hs.symm.trans hb
    show Progress lib run { s with mFirstWriteDone := _, trace := _, point := _ }
    simp only [Progress, hs]
    refine ⟨n + 1, ?_⟩
    show announced (.message .data bs :: s.trace) = _
    rw [announced_message, ha, List.append_assoc, ← List.replicate_succ']
    rfl

theorem not_inLoop_onQuit (buffer : Mem) : ¬ InLoop (s.onQuit lib run buffer) := by
  intro h
  rcases onQuit_cases lib run s buffer with ⟨set, page, -, he⟩ | ⟨set, he⟩
  · rw [he] at h; exact h
  · rw [he] at h; exact h

/-- **An undisturbed step keeps the invariant.** -/
theorem announcing_step {e : Event} (h : InLoop s → Announcing lib run s)
    (hu : Undisturbed lib run s e) (hs : step lib run s e = some s') (hl : InLoop s') :
    Announcing lib run s' := by
  rcases step_cases hs with ⟨r, found, hp, rfl, rfl⟩ | ⟨hp, rfl, rfl⟩ | ⟨line, hp, rfl, rfl⟩ |
    ⟨buffer, hp, rfl, rfl⟩ | ⟨msg, msgSize, data, r, hp, rfl, rfl⟩ | ⟨kind, bs, reset, hp, rfl, rfl⟩ |
    ⟨reset, hp, rfl, rfl⟩ | ⟨bs, reset, hp, rfl, rfl⟩
  · exact announcing_onHeader (h (by simp only [InLoop, hp])) hu.block hl
  · have ha := h (by simp only [InLoop, hp])
    exact .ofReset rfl rfl rfl rfl (fun kind bs hw => by cases hp.symm.trans hw) ha.passed
  · exact announcing_onTelnet (h (by simp only [InLoop, hp])) hp hl
  · exact absurd hl (not_inLoop_onQuit buffer)
  · exact announcing_onBody (h (by simp only [InLoop, hp]))
  · cases reset with
    | true => exact absurd rfl (hu.reset kind bs hp)
    | false => exact announcing_onWrite (h (by simp only [InLoop, hp])) hp hu.pages
  · have ha := h (by simp only [InLoop, hp])
    cases reset with
    | true =>
      refine .ofReset rfl rfl rfl rfl (fun kind bs hw => by cases hw) fun p n bs hm => ?_
      rcases List.mem_cons.mp hm with hm | hm
      · cases hm
      · exact ha.passed p n bs hm
    | false =>
      exact ha.frame rfl rfl rfl rfl (.inr ⟨.clear, by simp, rfl, rfl⟩) fun kind bs hw => by cases hw
  · exact hl.elim

/-- **In an undisturbed run the messages are announced in order.** -/
theorem described_of_undisturbed {es : List Event}
    (h : Along (step lib run) (Undisturbed lib run) (Loop.start run) es) :
    Always (step lib run) (fun s => InLoop s → Described lib run s) (Loop.start run) es :=
  (Along.always (I := fun s => InLoop s → Announcing lib run s)
    (fun _ _ _ hI hu hs => announcing_step hI hu hs) (fun _ => announcing_start run) h).mono
    fun _ hI hl => (hI hl).described

end Invariant

/-- A daemon with two pages is reset behind the first one, and begins again. -/
theorem described_of_undisturbed_sample :
    ∃ run, start .sample (.sample 2 1 8) = some run ∧ numberOfPages .sample run (.start run) = 2 ∧
      Always (step .sample run) (fun s => InLoop s → Described .sample run s) (Loop.start run)
        [.idle, .wrote false, .idle, .wrote false, .reset, .idle, .wrote false, .idle, .wrote false,
          .idle, .wrote false, .idle, .wrote false] :=
  ⟨_, rfl, by decide, described_of_undisturbed (by decide +kernel)⟩

/-- A reset in the write of the basic information: the next message is the page after it. -/
theorem reset_in_write_skips_basicInformation :
    ∃ run, start .sample (.sample 1 0 1) = some run ∧
      ¬ Always (step .sample run) (fun s => InLoop s → Described .sample run s) (Loop.start run)
        [.idle, .wrote true, .idle, .wrote false] := by
  refine ⟨_, rfl, fun h => ?_⟩
  rcases (h _ _ (List.prefix_refl _) rfl trivial).order with ho | ⟨n, ho⟩
  · exact absurd ho (by decide)
  · cases ho

end Daemon

end RecsDaemon
