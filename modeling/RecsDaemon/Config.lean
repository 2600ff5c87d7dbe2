import RecsDaemon.IniManage.Reload
import RecsDaemon.Base.Number
import RecsDaemon.Daemon.Startup

/-!
# The configuration

`Config` reads and writes the settings of the file as texts, booleans, integers
and doubles, and saves the file at the end of the process. A process is one run
of its file (`process_eq_life`), so later ones read what was set
(`start_processes`).
-/

namespace RecsDaemon

open Base IniManage

/-- `Config`; a handler is known by its number. -/
structure Config where
  content : Content
  mNoSaveMode : Bool
  mConfigChanged : Bool
  mListeners : List Nat
  mDisableChangeListeners : Bool
deriving DecidableEq

/-- The streams of the C++ library: what `<<` writes of a `double`, and what `>>` reads of a text. -/
structure Streams where
  write : Double → Text
  read : Text → Double
  written : ∀ d, write d ≠ [] ∧ 0 ∉ write d

/-- One half, as the library writes and reads it. -/
def Streams.half : Streams where
  write _ := ascii "0.5"
  read _ := ⟨0x3FE0000000000000⟩
  written _ := by decide

namespace Config

/-- The constructor; `none` is a file that cannot be opened. -/
def new (file : Option Text) : Except Overflow Config := do
  let (content, started) ←
    match file with
    | none => pure ([], false)
    | some file => load file
  pure ⟨content, !started, false, [], false⟩

theorem new_some (file : Text) :
    new (some file) = (load file).map fun p => ⟨p.1, !p.2, false, [], false⟩ := by
  unfold new
  dsimp only
  cases load file with
  | error e => rfl
  | ok p => rfl

/-! ## Reading -/

def getString (cfg : Config) (Section Setting Default : Text) : Text :=
  let buffer := getValue cfg.content (cstr Section) (cstr Setting)
  if buffer ≠ [] then buffer else Default

def getBoolean (cfg : Config) (Section Setting : Text) (Default : Bool) : Bool :=
  let buffer := getValue cfg.content (cstr Section) (cstr Setting)
  if buffer ≠ [] then
    buffer = ascii "wahr" || buffer = ascii "Wahr" || buffer = ascii "WAHR" ||
      buffer = ascii "true" || buffer = ascii "True" || buffer = ascii "TRUE"
  else Default

/-- `strin >> value` of an `int`: 0 where there is no number, else the nearest `int`. -/
def extractInt (s : Text) : Int32 :=
  match readInt s with
  | none => 0
  | some (v, _) => .ofInt (max (-2 ^ 31) (min v (2 ^ 31 - 1)))

def getInt (cfg : Config) (Section Setting : Text) (Default : Int32) : Int32 :=
  let buffer := getValue cfg.content (cstr Section) (cstr Setting)
  if buffer ≠ [] then extractInt buffer else Default

def getDouble (io : Streams) (cfg : Config) (Section Setting : Text) (Default : Double) : Double :=
  let buffer := getValue cfg.content (cstr Section) (cstr Setting)
  if buffer ≠ [] then io.read buffer else Default

/-! ## Writing -/

/-- What a setter returns: the negated result of `set_value`, the handlers it calls, and the
configuration. -/
abbrev SetResult := Bool × List Nat × Config

/-- `notifyChangeHandlers`: the handlers that are called. -/
def notifyChangeHandlers (cfg : Config) : List Nat × Config :=
  (if cfg.mDisableChangeListeners then [] else cfg.mListeners, { cfg with mConfigChanged := true })

/-- All setters store a text. The result is `false` as long as there is memory. -/
def set (cfg : Config) (Section Setting Value : Text) : Except Overflow SetResult := do
  let content ← setValue (cstr Section) (cstr Setting) (cstr Value) cfg.content
  pure (false, notifyChangeHandlers { cfg with content })

def setBoolean (cfg : Config) (Section Setting : Text) (Value : Bool) :
    Except Overflow SetResult :=
  set cfg Section Setting (if Value then ascii "true" else ascii "false")

def setString (cfg : Config) (Section Setting Value : Text) : Except Overflow SetResult :=
  set cfg Section Setting Value

def setInt (cfg : Config) (Section Setting : Text) (Value : Int32) : Except Overflow SetResult :=
  set cfg Section Setting (intText Value.toInt)

def setDouble (io : Streams) (cfg : Config) (Section Setting : Text) (Value : Double) :
    Except Overflow SetResult :=
  set cfg Section Setting (io.write Value)

/-! ## Processes -/

inductive Op where
  | setBoolean (Section Setting : Text) (Value : Bool)
  | setString (Section Setting Value : Text)
  | setInt (Section Setting : Text) (Value : Int32)
  | setDouble (Section Setting : Text) (Value : Double)
  | saveConfig
  | registerConfigChangeHandler (handler : Nat)
  | removeConfigChangeHandler (handler : Nat)
  | setDisableChangeListeners (state : Bool)

namespace Op

/-- The configuration and the file after the call. -/
def step (io : Streams) (s : Config × Text) : Op → Except Overflow (Config × Text)
  | setBoolean sec key v => do pure ((← s.1.setBoolean sec key v).2.2, s.2)
  | setString sec key v => do pure ((← s.1.setString sec key v).2.2, s.2)
  | setInt sec key v => do pure ((← s.1.setInt sec key v).2.2, s.2)
  | setDouble sec key v => do pure ((← s.1.setDouble io sec key v).2.2, s.2)
  | saveConfig =>
    if s.1.mNoSaveMode then pure s
    else pure ({ s.1 with mConfigChanged := false }, saved s.1.content)
  | registerConfigChangeHandler h => pure ({ s.1 with mListeners := s.1.mListeners ++ [h] }, s.2)
  | removeConfigChangeHandler h =>
    pure ({ s.1 with mListeners := s.1.mListeners.filter (· ≠ h) }, s.2)
  | setDisableChangeListeners b => pure ({ s.1 with mDisableChangeListeners := b }, s.2)

def change (io : Streams) : Op → Option Change
  | setBoolean sec key v =>
    some ⟨cstr sec, cstr key, cstr (if v then ascii "true" else ascii "false")⟩
  | setString sec key v => some ⟨cstr sec, cstr key, cstr v⟩
  | setInt sec key v => some ⟨cstr sec, cstr key, cstr (intText v.toInt)⟩
  | setDouble sec key v => some ⟨cstr sec, cstr key, cstr (io.write v)⟩
  | _ => none

def saves : Op → Bool
  | saveConfig => true
  | _ => false

end Op

/-- The file after the destructor. -/
def shutdown (s : Config × Text) : Text :=
  if s.1.mConfigChanged ∧ ¬ s.1.mNoSaveMode then saved s.1.content else s.2

/-- A process that can open the file, each time it reads or writes it. -/
def process (io : Streams) (file : Text) (ops : List Op) : Except Overflow Text := do
  let cfg ← new (some file)
  pure (shutdown (← ops.foldlM (Op.step io) (cfg, file)))

def runOf (io : Streams) (ops : List Op) : Run := ⟨ops.filterMap (Op.change io), ops.any Op.saves⟩

theorem set_eq (cfg : Config) (sec key v : Text) : set cfg sec key v =
    (setValue (cstr sec) (cstr key) (cstr v) cfg.content).map fun content =>
      (false, notifyChangeHandlers { cfg with content }) := by
  unfold set
  cases setValue (cstr sec) (cstr key) (cstr v) cfg.content <;> rfl

variable {io : Streams}

/-- A call sets its setting, or leaves the content and the file as they are unless it saves. -/
theorem step_cases (s : Config × Text) (op : Op) :
    (∃ w, op.change io = some w ∧ op.saves = false ∧
      op.step io s = (setValue w.sec w.key w.value s.1.content).map fun content =>
        ({ s.1 with content, mConfigChanged := true }, s.2)) ∨
    (op.change io = none ∧ op.saves = true ∧ op.step io s =
      .ok (if s.1.mNoSaveMode then s else ({ s.1 with mConfigChanged := false }, saved s.1.content))) ∨
    (op.change io = none ∧ op.saves = false ∧ ∃ listeners disable, op.step io s =
      .ok ({ s.1 with mListeners := listeners, mDisableChangeListeners := disable }, s.2)) := by
  have hset (sec key v : Text) : (do pure ((← set s.1 sec key v).2.2, s.2)) =
      (setValue (cstr sec) (cstr key) (cstr v) s.1.content).map fun content =>
        (({ s.1 with content, mConfigChanged := true } : Config), s.2) := by
    rw [set_eq]
    cases setValue (cstr sec) (cstr key) (cstr v) s.1.content <;> rfl
  cases op with
  | setBoolean sec key v => exact .inl ⟨_, rfl, rfl, hset _ _ _⟩
  | setString sec key v => exact .inl ⟨_, rfl, rfl, hset _ _ _⟩
  | setInt sec key v => exact .inl ⟨_, rfl, rfl, hset _ _ _⟩
  | setDouble sec key v => exact .inl ⟨_, rfl, rfl, hset _ _ _⟩
  | saveConfig =>
    refine .inr (.inl ⟨rfl, rfl, ?_⟩)
    rw [Op.step]
    split <;> rfl
  | registerConfigChangeHandler h => exact .inr (.inr ⟨rfl, rfl, _, _, rfl⟩)
  | removeConfigChangeHandler h => exact .inr (.inr ⟨rfl, rfl, _, _, rfl⟩)
  | setDisableChangeListeners b => exact .inr (.inr ⟨rfl, rfl, _, _, rfl⟩)

/-- The file on the disk is up to date, or the destructor will see to it; `done` says whether there
was anything to save. -/
def UpToDate (file : Text) (done : Bool) (s : Config × Text) : Prop :=
  if s.1.mNoSaveMode then s.2 = file
  else s.1.mConfigChanged = true ∧ done = true ∨
    s.1.mConfigChanged = false ∧ s.2 = if done then saved s.1.content else file

theorem ops_eq {file : Text} {done : Bool} {s : Config × Text} (h : UpToDate file done s)
    (ops : List Op) :
    (do pure (shutdown (← ops.foldlM (Op.step io) s))) =
      (setValues (ops.filterMap (Op.change io)) s.1.content).map fun c =>
        if (done = true ∨ ops.filterMap (Op.change io) ≠ [] ∨ ops.any Op.saves = true) ∧
          s.1.mNoSaveMode = false then saved c else file := by
  induction ops generalizing s done with
  | nil =>
    show Except.ok (shutdown s) = Except.ok _
    congr 1
    show shutdown s = if (done = true ∨ ([] : List Change) ≠ [] ∨ false = true) ∧
      s.1.mNoSaveMode = false then saved s.1.content else file
    unfold UpToDate at h
    unfold shutdown
    by_cases hn : s.1.mNoSaveMode = true
    · rw [if_pos hn] at h
      rw [if_neg fun hc => hc.2 hn, if_neg fun hc => Bool.false_ne_true (hc.2.symm.trans hn), h]
    · rw [if_neg hn] at h
      have hn' : s.1.mNoSaveMode = false := by simpa using hn
      rcases h with ⟨hc, rfl⟩ | ⟨hc, hf⟩
      · rw [if_pos ⟨hc, hn⟩, if_pos ⟨.inl rfl, hn'⟩]
      · rw [if_neg fun h => Bool.false_ne_true (hc.symm.trans h.1), hf]
        simp [hn']
  | cons op ops ih =>
    rw [List.foldlM_cons, List.filterMap_cons, List.any_cons]
    rcases step_cases s op with ⟨w, hw, -, hstep⟩ | ⟨hw, hsave, hstep⟩ | ⟨hw, hsave, l, d, hstep⟩
    · rw [hstep, hw]
      dsimp only
      rw [setValues, List.foldlM_cons]
      cases setValue w.sec w.key w.value s.1.content with
      | error e => rfl
      | ok content =>
        have hnext : UpToDate file true ({ s.1 with content, mConfigChanged := true }, s.2) := by
          unfold UpToDate at h ⊢
          split
          · next hn => rwa [if_pos hn] at h
          · exact .inl ⟨rfl, rfl⟩
        refine (ih hnext).trans ?_
        simp [setValues, ok_bind]
    · rw [hstep, hw, hsave]
      have hnext : UpToDate file true (if s.1.mNoSaveMode then s
          else ({ s.1 with mConfigChanged := false }, saved s.1.content)) := by
        unfold UpToDate at h ⊢
        by_cases hn : s.1.mNoSaveMode = true
        · rw [if_pos hn] at h
          simp [hn, h]
        · simp [hn]
      refine (ih hnext).trans ?_
      by_cases hn : s.1.mNoSaveMode = true <;> simp [hn]
    · rw [hstep, hw, hsave]
      exact (ih (show UpToDate file done ({ s.1 with mListeners := l, mDisableChangeListeners := d },
        s.2) from h)).trans (by rw [Bool.false_or])

/-- **A process is a run of its file.** -/
theorem process_eq_life (file : Text) (ops : List Op) :
    process io file ops = life file (runOf io ops) := by
  unfold process life runOf
  rw [new_some]
  cases load file with
  | error e => rfl
  | ok p =>
    obtain ⟨c, loaded⟩ := p
    have hstart : UpToDate file false (⟨c, !loaded, false, [], false⟩, file) := by
      unfold UpToDate
      split
      · rfl
      · exact .inr ⟨rfl, rfl⟩
    refine (ops_eq hstart ops).trans ?_
    dsimp only
    rw [ok_bind]
    cases setValues (ops.filterMap (Op.change io)) c with
    | error e => rfl
    | ok c' => simp [Except.map]

/-! ## Later processes -/

/-- What a call sets is read as it is written. -/
def Op.Kept (io : Streams) (op : Op) : Prop := ∀ w, op.change io = some w → w.Kept

instance (io : Streams) (op : Op) : Decidable (op.Kept io) :=
  inferInstanceAs (Decidable (∀ w ∈ op.change io, w.Kept))

theorem settings_processes {processes : List (List Op)}
    (hkept : ∀ ops ∈ processes, ∀ op ∈ ops, op.Kept io) {file₀ : Text} {c : Content}
    (hload : load file₀ = .ok (c, true)) (h : WellFormed c) (h0 : c ≠ [])
    (hroom : Room processes.length c) :
    ∃ file cfg, processes.foldlM (process io) file₀ = .ok file ∧ new (some file) = .ok cfg ∧
      cfg.mNoSaveMode = false ∧
      settings cfg.content = changed (processes.flatten.filterMap (Op.change io)) (settings c) := by
  have hlives (file : Text) :
      processes.foldlM (process io) file = lives file (processes.map (runOf io)) := by
    rw [lives, List.foldlM_map]
    congr 1
    funext file ops
    exact process_eq_life file ops
  have hw : ∀ run ∈ processes.map (runOf io), ∀ w ∈ run.changes, w.Kept := by
    intro run hrun w hw
    obtain ⟨ops, hops, rfl⟩ := List.mem_map.mp hrun
    obtain ⟨op, hop, hchange⟩ := List.mem_filterMap.mp hw
    exact hkept ops hops op hop w hchange
  obtain ⟨file, c', hrun, hload', hsettings⟩ := settings_lives hw hload h h0
    (by rwa [List.length_map])
  refine ⟨file, ⟨c', false, false, [], false⟩, (hlives _).trans hrun, ?_, rfl, ?_⟩
  · rewrite [new_some, hload']
    rfl
  · rw [hsettings]
    congr 1
    rw [List.flatMap_map, List.filterMap_flatten]
    rfl

/-! ## The start of the daemon -/

/-- What the constructor of the sensor set reads. -/
def sensorsConfig (cfg : Config) : SensorsConfig where
  count := (cfg.getInt (ascii "Sensors") (ascii "count") 0).toInt
  pluginName i := cfg.getString (ascii "Sensors") (ascii "pluginName" ++ decimalText (i + 1)) []
  sensorName i := cfg.getString (ascii "Sensors") (ascii "sensorName" ++ decimalText (i + 1)) []
  options i := cfg.getString (ascii "Sensors") (ascii "options" ++ decimalText (i + 1)) []
  sensorProviders := cfg.getString (ascii "Plugins") (ascii "SensorProviders") []
  jsonSensorProviders := cfg.getString (ascii "Plugins") (ascii "JSONSensorProviders") []

/-- What start-up finds outside of the configuration, by the plugins' names. -/
structure Plugins where
  communicator : Text → Option Daemon.Interface
  slotDetector : Text → Option Int8
  factories : Factories
  mData : Mem
  beans : Beans

/-- What `Daemon::run` reads. -/
def startup (cfg : Config) (plugins : Plugins) : Daemon.Startup :=
  let communicator := cfg.getString (ascii "Comm") (ascii "PluginName") []
  let baseboard := cfg.getString (ascii "Comm") (ascii "BaseboardPluginName") []
  let slotDetector := cfg.getString (ascii "Slot") (ascii "slotPluginName") []
  { communicatorPluginName := communicator
    communicator := plugins.communicator communicator
    baseboardCommunicatorPluginName := baseboard
    baseboardCommunicator := plugins.communicator baseboard
    defaultSlot := cfg.getInt (ascii "Slot") (ascii "defaultSlot") 0
    slotDetectorPluginName := slotDetector
    slotDetector := plugins.slotDetector slotDetector
    sensors := cfg.sensorsConfig
    factories := plugins.factories
    mData := plugins.mData
    beans := plugins.beans }

def ofStartup (sec : Text) : Bool :=
  sec = ascii "Comm" || sec = ascii "Slot" || sec = ascii "Sensors" || sec = ascii "Plugins"

theorem startup_congr {cfg cfg' : Config}
    (h : ∀ sec key, ofStartup sec = true →
      settings cfg.content (sec, key) = settings cfg'.content (sec, key)) (plugins : Plugins) :
    cfg.startup plugins = cfg'.startup plugins := by
  have hstring (sec key dflt : Text) (hs : ofStartup (cstr sec) = true) :
      cfg.getString sec key dflt = cfg'.getString sec key dflt := by
    have hv : getValue cfg.content (cstr sec) (cstr key) = getValue cfg'.content (cstr sec) (cstr key) :=
      h _ _ hs
    unfold getString
    rw [hv]
  have hint (sec key : Text) (dflt : Int32) (hs : ofStartup (cstr sec) = true) :
      cfg.getInt sec key dflt = cfg'.getInt sec key dflt := by
    have hv : getValue cfg.content (cstr sec) (cstr key) = getValue cfg'.content (cstr sec) (cstr key) :=
      h _ _ hs
    unfold getInt
    rw [hv]
  have hsec : ofStartup (cstr (ascii "Comm")) = true ∧ ofStartup (cstr (ascii "Slot")) = true ∧
      ofStartup (cstr (ascii "Sensors")) = true ∧ ofStartup (cstr (ascii "Plugins")) = true :=
    ⟨rfl, rfl, rfl, rfl⟩
  unfold startup sensorsConfig
  simp only [hstring _ _ _ hsec.1, hstring _ _ _ hsec.2.1, hstring _ _ _ hsec.2.2.1,
    hstring _ _ _ hsec.2.2.2, hint _ _ _ hsec.2.1, hint _ _ _ hsec.2.2.1]

theorem changed_of_ne {changes : List Change} {p : Text × Text}
    (h : ∀ v ∈ changes, (v.sec, v.key) ≠ p) (m : Settings) : changed changes m p = m p := by
  induction changes generalizing m with
  | nil => rfl
  | cons v changes ih =>
    rw [changed, List.foldl_cons]
    refine (ih (fun u hu => h u (List.mem_cons_of_mem v hu)) _).trans ?_
    exact Function.update_of_ne (h v List.mem_cons_self).symm _ _

/-- **Every later process finds the settings**, each as it was set last, whatever file the first one
loads; and the daemon starts as before if no call set one of those that start-up reads. -/
theorem start_processes {processes : List (List Op)}
    (hkept : ∀ ops ∈ processes, ∀ op ∈ ops, op.Kept io) {file₀ : Text} {c : Content}
    (hload : load file₀ = .ok (c, true)) (hreturn : OneReturn file₀) (h0 : c ≠ [])
    (hroom : Room processes.length c) :
    ∃ file cfg, processes.foldlM (process io) file₀ = .ok file ∧ new (some file) = .ok cfg ∧
      cfg.mNoSaveMode = false ∧
      settings cfg.content = changed (processes.flatten.filterMap (Op.change io)) (settings c) ∧
      ((∀ ops ∈ processes, ∀ op ∈ ops, ∀ w ∈ op.change io, ofStartup w.sec = false) →
        ∀ cfg₀ lib plugins, new (some file₀) = .ok cfg₀ →
          Daemon.start lib (cfg.startup plugins) = Daemon.start lib (cfg₀.startup plugins)) := by
  obtain ⟨file, cfg, hrun, hnew, hsave, hsettings⟩ := settings_processes hkept hload
    (wellFormed_load hreturn hload) h0 hroom
  refine ⟨file, cfg, hrun, hnew, hsave, hsettings, fun hother cfg₀ lib plugins hnew₀ => ?_⟩
  have hcfg₀ : cfg₀.content = c := by
    rw [new_some, hload] at hnew₀
    cases hnew₀
    rfl
  refine congrArg (Daemon.start lib) (startup_congr (fun sec key hs => ?_) plugins)
  rw [hsettings, hcfg₀]
  refine changed_of_ne (fun v hv he => ?_) _
  obtain ⟨op, hop, hchange⟩ := List.mem_filterMap.mp hv
  obtain ⟨ops, hops, hmem⟩ := List.mem_flatten.mp hop
  have hno := hother ops hops op hmem v hchange
  rw [(Prod.mk.inj he).1, hs] at hno
  cases hno

/-- A file as it is shipped, with carriage returns and an empty line. -/
def shippedFile : Text :=
  ascii "# all\r\n[Update]\r\nupdateInterval=1000\r\n[Sensors]\r\ncount=0\r\n\r\npluginName1=X\r\n"

/-- A process that sets the interval twice and saves in between, one that does nothing and one that
makes a new section. -/
def sampleProcesses : List (List Op) :=
  [[.setInt (ascii "Update") (ascii "updateInterval") 500, .saveConfig,
      .setDouble (ascii "Update") (ascii "updateInterval") ⟨0x3FE0000000000000⟩],
    [], [.setString (ascii "Log") (ascii "file") (ascii "log.txt")]]

theorem start_processes_sample :
    ∃ file cfg, sampleProcesses.foldlM (process .half) shippedFile = .ok file ∧
      new (some file) = .ok cfg ∧
      getValue cfg.content (ascii "Update") (ascii "updateInterval") = ascii "0.5" ∧
      getValue cfg.content (ascii "Sensors") (ascii "count") = ascii "0" ∧
      ∀ cfg₀ lib plugins, new (some shippedFile) = .ok cfg₀ →
        Daemon.start lib (cfg.startup plugins) = Daemon.start lib (cfg₀.startup plugins) := by
  obtain ⟨file, cfg, hrun, hnew, -, hsettings, hstart⟩ := @start_processes .half sampleProcesses
    (by decide +kernel) shippedFile _ rfl (by decide +kernel) (List.cons_ne_nil _ _)
    (by decide +kernel)
  exact ⟨file, cfg, hrun, hnew,
    (congrFun hsettings (ascii "Update", ascii "updateInterval")).trans (by decide +kernel),
    (congrFun hsettings (ascii "Sensors", ascii "count")).trans (by decide +kernel),
    hstart (by decide +kernel)⟩

/-! ## The types of settings -/

/-- What the call has set is read; the empty text counts as missing. -/
def Op.Read (io : Streams) (cfg : Config) : Op → Prop
  | setBoolean sec key v => ∀ dflt, cfg.getBoolean sec key dflt = v
  | setString sec key v => ∀ dflt, cfg.getString sec key dflt = if cstr v ≠ [] then cstr v else dflt
  | setInt sec key v => ∀ dflt, cfg.getInt sec key dflt = v
  | setDouble sec key v => ∀ dflt, cfg.getDouble io sec key dflt = io.read (io.write v)
  | _ => True

theorem extractInt_intText (v : Int32) : extractInt (intText v.toInt) = v := by
  have hread := @readInt_intText v.toInt [] rfl
  rw [List.append_nil] at hread
  have hlo := v.le_toInt
  have hhi := v.toInt_lt
  unfold extractInt
  rw [hread]
  dsimp only
  rw [min_eq_left (by omega), max_eq_right (by omega), Int32.ofInt_toInt]

theorem cstr_intText (n : Int) : cstr (intText n) = intText n := by
  refine cstr_of_no_zero fun h0 => ?_
  unfold intText at h0
  split at h0
  · rcases List.mem_cons.mp h0 with h | h
    · cases h
    · exact absurd (isDigit_decimalText h) (by decide)
  · exact absurd (isDigit_decimalText h0) (by decide)

theorem read_of_settings {cfg : Config} {op : Op}
    (h : ∀ w, op.change io = some w → settings cfg.content (w.sec, w.key) = w.value) :
    op.Read io cfg := by
  cases op with
  | setBoolean sec key v =>
    intro dflt
    have hv : getValue cfg.content (cstr sec) (cstr key) =
        cstr (if v then ascii "true" else ascii "false") := h _ rfl
    unfold getBoolean
    rw [hv]
    cases v <;> rfl
  | setString sec key v =>
    intro dflt
    have hv : getValue cfg.content (cstr sec) (cstr key) = cstr v := h _ rfl
    unfold getString
    rw [hv]
  | setInt sec key v =>
    intro dflt
    have hv : getValue cfg.content (cstr sec) (cstr key) = cstr (intText v.toInt) := h _ rfl
    unfold getInt
    rw [hv, cstr_intText]
    dsimp only
    rw [if_pos (intText_ne_nil _), extractInt_intText]
  | setDouble sec key v =>
    intro dflt
    have hv : getValue cfg.content (cstr sec) (cstr key) = cstr (io.write v) := h _ rfl
    unfold getDouble
    rw [hv, cstr_of_no_zero (io.written v).2]
    exact if_pos (io.written v).1
  | _ => trivial

theorem settings_steps {ops : List Op} {s s' : Config × Text}
    (h : ops.foldlM (Op.step io) s = .ok s') :
    settings s'.1.content = changed (ops.filterMap (Op.change io)) (settings s.1.content) := by
  induction ops generalizing s with
  | nil =>
    cases h
    rfl
  | cons op ops ih =>
    rw [List.foldlM_cons] at h
    obtain ⟨s1, hstep, h⟩ := bind_eq_ok.mp h
    rw [ih h, List.filterMap_cons]
    rcases step_cases s op with ⟨w, hw, -, hs⟩ | ⟨hw, -, hs⟩ | ⟨hw, -, l, d, hs⟩
    · rw [hs] at hstep
      cases hset : setValue w.sec w.key w.value s.1.content with
      | error e =>
        rw [hset] at hstep
        cases hstep
      | ok content =>
        rw [hset] at hstep
        cases hstep
        dsimp only
        rw [settings_append hset, hw]
        rfl
    · rw [hs] at hstep
      cases hstep
      rw [hw]
      split <;> rfl
    · rw [hs] at hstep
      cases hstep
      rw [hw]

theorem changed_last {before after : List Change} {w : Change}
    (h : ∀ v ∈ after, (v.sec, v.key) ≠ (w.sec, w.key)) (m : Settings) :
    changed (before ++ w :: after) m (w.sec, w.key) = w.value := by
  rw [changed, List.foldl_append, List.foldl_cons]
  refine (changed_of_ne h _).trans ?_
  exact Function.update_self _ _ _

/-- **A setting is read with its type** as long as no later call sets it. -/
theorem read_last {before after : List Op} {op : Op} {s s' : Config × Text}
    (h : (before ++ op :: after).foldlM (Op.step io) s = .ok s')
    (hafter : ∀ w ∈ op.change io, ∀ later ∈ after, ∀ v ∈ later.change io,
      (v.sec, v.key) ≠ (w.sec, w.key)) : op.Read io s'.1 := by
  refine read_of_settings fun w hw => ?_
  rw [settings_steps h, List.filterMap_append, List.filterMap_cons, hw]
  refine changed_last (fun v hv => ?_) _
  obtain ⟨later, hlater, hchange⟩ := List.mem_filterMap.mp hv
  exact hafter w hw later hlater v hchange

/-- Calls on a file that was loaded: the slot is set, and then another key and another section. -/
def sampleOps : List Op :=
  [.setString (ascii "Slot") (ascii "defaultSlot") (ascii "7"),
    .setInt (ascii "Slot") (ascii "defaultSlot") (-3), .saveConfig,
    .setBoolean (ascii "Slot") (ascii "set") true,
    .setDouble (ascii "Update") (ascii "defaultSlot") ⟨0x3FE0000000000000⟩]

theorem read_last_sample :
    ∃ cfg s', new (some sampleFile) = .ok cfg ∧
      sampleOps.foldlM (Op.step .half) (cfg, sampleFile) = .ok s' ∧
      Op.Read .half s'.1 (.setInt (ascii "Slot") (ascii "defaultSlot") (-3)) := by
  have hsome : (new (some sampleFile) >>= fun cfg =>
      sampleOps.foldlM (Op.step .half) (cfg, sampleFile)).toOption.isSome = true := by
    decide +kernel
  obtain ⟨s', h⟩ := Option.isSome_iff_exists.mp hsome
  obtain ⟨cfg, hnew, hrun⟩ := bind_eq_ok.mp (toOption_eq_some.mp h)
  exact ⟨cfg, s', hnew, hrun, @read_last .half (sampleOps.take 1) (sampleOps.drop 2)
    (.setInt (ascii "Slot") (ascii "defaultSlot") (-3)) _ _ hrun (by decide +kernel)⟩

end Config

end RecsDaemon
