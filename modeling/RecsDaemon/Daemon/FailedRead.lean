import RecsDaemon.Daemon.Loop

/-!
# Reads that fail

A communicator returns the number of bytes read, or an error that is negative;
the daemon takes every value but zero for success. `ignored_iff`: at each of
its calls of `readData`, an error is ignored exactly if it is zero.
-/

namespace RecsDaemon

open Base Json

namespace Daemon

/-- The calls of `readData`. -/
inductive Site where
  | baseboardHeader
  | ownHeader
  | loopHeader
  | loopBody
  | chunkSearchHeader
  | chunk
  | monitoringBlock
deriving DecidableEq

/-- A round that ends where it began: no command, no write, no change of the state machine. -/
structure NoEffect (s s' : Loop) : Prop where
  point : s'.point = .header
  trace : s'.trace = s.trace
  mState : s'.mState = s.mState
  mCurrentPage : s'.mCurrentPage = s.mCurrentPage
  mFirstWriteDone : s'.mFirstWriteDone = s.mFirstWriteDone

/-- A call at the site that returns `ret` decides nothing, whatever is in the buffer then. -/
def Ignored (site : Site) (ret : Int) : Prop :=
  match site with
  | .baseboardHeader => ∀ lib st buf, st.baseboardCommunicatorPluginName ≠ [] →
      st.baseboardCommunicator = some ⟨true, ⟨ret, buf⟩⟩ → start lib st = none
  | .ownHeader => ∀ lib st buf, st.communicator = some ⟨true, ⟨ret, buf⟩⟩ → start lib st = none
  | .loopHeader => ∀ lib st run s s' buf found, start lib st = some run →
      Reaches (step lib run) (Loop.start run) s →
      step lib run s (.header ⟨ret, buf⟩ found) = some s' → NoEffect s s'
  | .loopBody => ∀ lib st run s s' data buf, start lib st = some run →
      Reaches (step lib run) (Loop.start run) s →
      step lib run s (.body data ⟨ret, buf⟩) = some s' → NoEffect s s'
  | .chunkSearchHeader => ∀ (reads : Reads) chunkType fuel,
      (reads 0 0 DaemonHeader.sizeof).ret = ret →
      Node.findHeaderDataChunkOffset reads chunkType fuel = some 0
  | .chunk => ∀ (reads : Reads) chunkType dynamicAreaOffset fuel n pos,
      (reads n pos ChunkHeader.sizeof).ret = ret →
      Node.findChunk reads chunkType dynamicAreaOffset (fuel + 1) n pos = some 0
  | .monitoringBlock => ∀ (search block : Reads) nodeType slot cached fuel text offset,
      Node.getJSONMonitoringData search block nodeType slot cached fuel = some (text, offset) →
      (block 0 offset.toNat BBMonitoring.sizeof).ret = ret → text = []

/-! ## Zero -/

section Zero

variable {lib : Libraries} {st : Startup} {run : Running} {s : Loop} {buf : Mem}

theorem taken_zero (buf : Mem) : (⟨0, buf⟩ : ReadReply).taken = false := rfl

theorem taken_of_ret {r : ReadReply} (h : r.ret = 0) : r.taken = false := by
  rw [ReadReply.taken, h]; rfl

theorem readHeader_zero (b : Bool) (buf : Mem) : readHeader (some ⟨b, ⟨0, buf⟩⟩) = none := by
  show (if b ∧ (⟨0, buf⟩ : ReadReply).taken then _ else _) = _
  rw [taken_zero, if_neg (by simp)]

theorem start_of_no_header (h : readHeader st.communicator = none) : start lib st = none := by
  unfold start
  split
  · rfl
  · rw [h]; rfl

theorem start_of_no_baseboard (hn : st.baseboardCommunicatorPluginName ≠ [])
    (h : readHeader st.baseboardCommunicator = none) : start lib st = none := by
  have hb (hdr : DaemonHeader) : baseboardHeader st hdr = none := by
    rw [baseboardHeader, if_pos hn, h]
  unfold start
  split
  · rfl
  · cases readHeader st.communicator with
    | none => rfl
    | some hdr => simp only [Option.bind_eq_bind, Option.bind_some, hb, Option.bind_none]

theorem onBody_zero (msg : Bytes) (msgSize : Nat) (data : Option Mem) :
    s.onBody lib run msg msgSize data ⟨0, buf⟩ = s.goto .header := by
  cases data with
  | none => rfl
  | some m => rfl

/-- Every call takes zero for a failure. -/
theorem ignored_zero (site : Site) : Ignored site 0 := by
  cases site with
  | baseboardHeader =>
    intro lib st buf hn hc
    exact start_of_no_baseboard hn (by rw [hc, readHeader_zero])
  | ownHeader =>
    intro lib st buf hc
    exact start_of_no_header (by rw [hc, readHeader_zero])
  | loopHeader =>
    intro lib st run s s' buf found _ _ hs
    rcases step_cases hs with ⟨r, f, hp, he, rfl⟩ | ⟨-, he, -⟩ | ⟨_, -, he, -⟩ | ⟨_, -, he, -⟩ |
      ⟨_, _, _, _, -, he, -⟩ | ⟨_, _, _, -, he, -⟩ | ⟨_, -, he, -⟩ | ⟨_, _, -, he, -⟩
    · cases he
      exact ⟨hp, rfl, rfl, rfl, rfl⟩
    all_goals cases he
  | loopBody =>
    intro lib st run s s' data buf _ _ hs
    rcases step_cases hs with ⟨_, _, -, he, -⟩ | ⟨-, he, -⟩ | ⟨_, -, he, -⟩ | ⟨_, -, he, -⟩ |
      ⟨msg, msgSize, d, r, hp, he, rfl⟩ | ⟨_, _, _, -, he, -⟩ | ⟨_, -, he, -⟩ | ⟨_, _, -, he, -⟩
    case inr.inr.inr.inr.inl =>
      cases he
      rw [onBody_zero]
      exact ⟨rfl, rfl, rfl, rfl, rfl⟩
    all_goals cases he
  | chunkSearchHeader =>
    intro reads chunkType fuel h
    simp only [Node.findHeaderDataChunkOffset, taken_of_ret h]
    rfl
  | chunk =>
    intro reads chunkType dynamicAreaOffset fuel n pos h
    simp only [Node.findChunk, taken_of_ret h]
    rfl
  | monitoringBlock =>
    intro search block nodeType slot cached fuel text offset h hr
    obtain ⟨found, -, h⟩ := Option.map_eq_some_iff.mp h
    cases h
    simp only [Node.readMonitoringData, taken_of_ret hr]
    split <;> rfl

end Zero

/-! ## Negative values -/

section Negative

variable {ret : Int}

/-- A value that is not zero counts as one byte read does. -/
theorem taken_congr (h : ret ≠ 0) (buf : Mem) :
    (⟨ret, buf⟩ : ReadReply).taken = (⟨1, buf⟩ : ReadReply).taken := by
  simp [ReadReply.taken, h]

theorem readHeader_congr (h : ret ≠ 0) (b : Bool) (buf : Mem) :
    readHeader (some ⟨b, ⟨ret, buf⟩⟩) = readHeader (some ⟨b, ⟨1, buf⟩⟩) := by
  show (if b ∧ (⟨ret, buf⟩ : ReadReply).taken then _ else _) = _
  rw [taken_congr h]
  rfl

/-- The sample daemon whose communicator returns `ret` for the header. -/
def ownStartup (ret : Int) : Startup :=
  { Startup.sample 1 0 1 with communicator := some ⟨true, ⟨ret, sampleHeader 1⟩⟩ }

/-- The sample daemon with a second communicator that returns `ret`. -/
def baseboardStartup (ret : Int) : Startup :=
  { Startup.sample 1 0 1 with
    baseboardCommunicatorPluginName := ascii "b"
    baseboardCommunicator := some ⟨true, ⟨ret, sampleHeader 1⟩⟩ }

theorem start_ownStartup (h : ret ≠ 0) :
    start .sample (ownStartup ret) = start .sample (ownStartup 1) := by
  have hr : readHeader (ownStartup ret).communicator = readHeader (ownStartup 1).communicator :=
    readHeader_congr h true _
  have hb (hdr : DaemonHeader) :
      baseboardHeader (ownStartup ret) hdr = baseboardHeader (ownStartup 1) hdr := rfl
  unfold start
  rw [hr]
  simp only [hb]
  rfl

theorem start_baseboardStartup (h : ret ≠ 0) :
    start .sample (baseboardStartup ret) = start .sample (baseboardStartup 1) := by
  have hb (hdr : DaemonHeader) :
      baseboardHeader (baseboardStartup ret) hdr = baseboardHeader (baseboardStartup 1) hdr :=
    readHeader_congr h true _
  unfold start
  simp only [hb]
  rfl

def sampleCommand : Mem := fun a => [3, 0, 6, 0].getD a 0

/-- No call takes another value for a failure: there is a state in which the rest of the buffer is
used. -/
theorem not_ignored (site : Site) (h : ret ≠ 0) : ¬ Ignored site ret := by
  intro hI
  cases site with
  | baseboardHeader =>
    have hn := hI .sample (baseboardStartup ret) (sampleHeader 1)
      (show ascii "b" ≠ [] by decide) rfl
    rw [start_baseboardStartup h] at hn
    have hs : (start .sample (baseboardStartup 1)).isSome := rfl
    rw [hn] at hs
    cases hs
  | ownHeader =>
    have hn := hI .sample (ownStartup ret) (sampleHeader 1) rfl
    rw [start_ownStartup h] at hn
    have hs : (start .sample (ownStartup 1)).isSome := rfl
    rw [hn] at hs
    cases hs
  | loopHeader =>
    -- the empty header asks for the first message
    have hc (run : Running) (s : Loop) : s.onHeader .sample run ⟨ret, fun _ => 0⟩ .sample =
        s.onHeader .sample run ⟨1, fun _ => 0⟩ .sample := by
      simp only [Loop.onHeader, taken_congr h]
    have hn := (hI .sample (.sample 1 0 1) _ _ _ (fun _ => 0) .sample rfl (.refl _) rfl).point
    rw [hc] at hn
    cases hn
  | loopBody =>
    -- a command to another node is cleared, although it was not read
    have hc (run : Running) (s : Loop) (msg : Bytes) (n : Nat) :
        s.onBody .sample run msg n (some fun _ => 0) ⟨ret, fun _ => 0⟩ =
          s.onBody .sample run msg n (some fun _ => 0) ⟨1, fun _ => 0⟩ := by
      simp only [Loop.onBody, handleCommand, taken_congr h]
    have hn := (hI .sample (.sample 1 0 1) _ _ _ (some fun _ => 0) (fun _ => 0) rfl
      ⟨[.header ⟨4, sampleCommand⟩ .sample], rfl⟩ rfl).point
    rw [hc] at hn
    cases hn
  | chunkSearchHeader =>
    have hn := hI (fun _ _ _ => ⟨ret, fun _ => 0⟩) chunkTypeMonitoring 0 rfl
    simp only [Node.findHeaderDataChunkOffset, taken_congr h] at hn
    have h9 : some 9 = some 0 := hn
    cases h9
  | chunk =>
    have hn := hI (fun _ _ _ => ⟨ret, fun _ => 0⟩) 0 0 0 0 0 rfl
    simp only [Node.findChunk, taken_congr h] at hn
    have h3 : some 3 = some 0 := hn
    cases h3
  | monitoringBlock =>
    have hn := hI (fun _ _ _ => ⟨1, fun _ => 0⟩) (fun _ _ _ => ⟨ret, fun _ => 0⟩) .cxp 0 7 0 _ _ rfl
      rfl
    simp only [Node.readMonitoringData, taken_congr h] at hn
    exact absurd hn (Node.monitoringJSON_ne_nil _ _ _)

end Negative

/-- **A failed read is ignored exactly if it returns zero.** -/
theorem ignored_iff (site : Site) {ret : Int} (_ : ret ≤ 0) : Ignored site ret ↔ ret = 0 := by
  constructor
  · intro hI
    by_contra h
    exact not_ignored site h hI
  · rintro rfl
    exact ignored_zero site

theorem ignored_iff_sample : Ignored .ownHeader 0 :=
  (ignored_iff .ownHeader (Int.le_refl 0)).mpr rfl

/-- The error of a device that cannot be read, in the loop. -/
theorem negative_read_not_ignored : ¬ Ignored .loopHeader (-1) :=
  not_ignored .loopHeader (by decide)

end Daemon

end RecsDaemon
