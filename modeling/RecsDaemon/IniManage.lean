import RecsDaemon.Sensor
import RecsDaemon.Base.Except
import RecsDaemon.Base.Keyed
import RecsDaemon.Base.Lines

/-!
# The configuration file

`ini_manage`: the sections of an ini file and their records, in buffers of 255
characters that are filled without a check. The content is an abstract store of
settings: `set_value` updates it (`settings_append`), whatever file was loaded.
-/

namespace RecsDaemon

open Base

namespace IniManage

/-- A copy behind the end of a buffer. -/
inductive Overflow where
  | overflow
deriving DecidableEq

structure Record where
  comments : Text
  key : Text
  value : Text
deriving DecidableEq

structure Section where
  comments : Text
  name : Text
  data : List Record
deriving DecidableEq

abbrev Content := List Section

def strcpy (size : Nat) (s : Text) : Except Overflow Text :=
  if s.length < size then .ok s else .error .overflow

/-- The comment of an entry. The code means to give it a `#` if it has none. -/
def storedComment (comment : Text) : Text :=
  -- no character is both `#` and `;`
  if comment ≠ [] then 35 :: comment else comment

def getSection (c : Content) (sec : Text) : Option Section := entryOf Section.name sec c

def getRecord (s : Section) (key : Text) : Option Record := entryOf Record.key key s.data

def getValue (c : Content) (sec key : Text) : Text :=
  (((getSection c sec).bind (getRecord · key)).map Record.value).getD []

def newSection (sec comment : Text) : Except Overflow Section := do
  let name ← strcpy 255 sec
  let comments ← strcpy 255 (storedComment comment)
  pure ⟨comments, name, []⟩

/-- `add_section`; a section of this name keeps its records. -/
def addSection (sec comment : Text) (c : Content) : Except Overflow Content := do
  let s ← newSection sec comment
  pure (put Section.name { s with data := ((getSection c sec).map Section.data).getD [] } c)

def newRecord (key value comment : Text) : Except Overflow Record := do
  let comments ← strcpy 255 (storedComment comment)
  let key ← strcpy 255 key
  let value ← strcpy 255 value
  pure ⟨comments, key, value⟩

def append (sec key value comment : Text) (c : Content) : Except Overflow Content := do
  let s ←
    match getSection c sec with
    | some s => pure s
    | none => newSection sec []
  let r ← newRecord key value comment
  pure (put Section.name { s with data := put Record.key r s.data } c)

/-- `set_value`; the comment of the record goes. -/
def setValue (sec key value : Text) (c : Content) : Except Overflow Content :=
  append sec key value [] c

/-! ## load -/

/-- The lines `fgets` takes from the file into a buffer of 255 characters. -/
def fileLines (file : Text) : List Text :=
  pieces 254 10 [] file ++
    if unfinished 254 10 [] file = [] then [] else [unfinished 254 10 [] file]

/-- What is left of a line after `trim`; its newline is gone already. For an empty line the code also
looks at the byte in front of the buffer. -/
def trim (buffer : Text) : Text := if buffer.getLast? = some 13 then buffer.dropLast else buffer

structure Loading where
  content : Content
  comments : Text
  currentSection : Text
  sthLoaded : Bool
deriving DecidableEq

/-- One line; `none` is a parse error. -/
def loadLine (buffer : Text) (l : Loading) : Except Overflow (Option Loading) :=
  if buffer.head? = none then pure (some l)
  else if buffer.head? = some 91 then
    if 93 ∉ buffer then pure none
    else do
      -- up to the last `]`
      let sec := ((buffer.reverse.dropWhile (· ≠ 93)).drop 1).reverse.drop 1
      let content ← addSection sec l.comments l.content
      pure (some ⟨content, [], sec, true⟩)
  else if buffer.head? = some 35 ∨ buffer.head? = some 59 then do
    let comments ← strcpy 1024 (if l.comments ≠ [] then l.comments ++ 10 :: buffer else buffer)
    pure (some { l with comments, sthLoaded := true })
  else if 61 ∉ buffer then pure none
  else if l.currentSection = [] then pure none
  else do
    let key := buffer.takeWhile (· ≠ 61)
    let value := (buffer.dropWhile (· ≠ 61)).drop 1
    let content ← append l.currentSection key value l.comments l.content
    pure (some { l with content, comments := [], sthLoaded := true })

/-- The loop of `load`; what an error finds loaded stays. -/
def loadLines : List Text → Loading → Except Overflow (Content × Bool)
  | [], l => pure (l.content, l.sthLoaded)
  | buffer :: rest, l => do
    match ← loadLine (trim (cstr buffer)) l with
    | none => pure (l.content, false)
    | some l => loadLines rest l

/-- `load` of a file that can be opened. -/
def load (file : Text) : Except Overflow (Content × Bool) :=
  loadLines (fileLines file) ⟨[], [], [], false⟩

/-! ## save -/

def savedComment (comment : Text) : Text := if comment ≠ [] then comment ++ [10] else []

def savedRecord (r : Record) : Text := savedComment r.comments ++ r.key ++ 61 :: r.value ++ [10]

def savedSection (s : Section) : Text :=
  savedComment s.comments ++ 91 :: s.name ++ [93, 10] ++ s.data.flatMap savedRecord

/-- `save`: the text of the file. `content_string` gives the same. -/
def saved (c : Content) : Text := c.flatMap savedSection

def sampleFile : Text := ascii "# all\n[Slot]\ndefaultSlot=2\n[Sensors]\ncount=1\n"

example : (load sampleFile).map (fun p => (getValue p.1 (ascii "Slot") (ascii "defaultSlot"), p.2)) =
    .ok (ascii "2", true) := by rfl

example : (load sampleFile).map (fun p => saved p.1) = .ok (35 :: sampleFile) := by rfl

/-! ## The settings -/

/-- The settings of the sections; one that is not there is empty. -/
abbrev Settings := Text × Text → Text

def settings (c : Content) : Settings := fun p => getValue c p.1 p.2

theorem strcpy_eq_ok {size : Nat} {s t : Text} :
    strcpy size s = .ok t ↔ s = t ∧ t.length < size := by
  unfold strcpy
  split
  · next h =>
    rw [Except.ok.injEq]
    exact ⟨fun e => ⟨e, e ▸ h⟩, And.left⟩
  · next h => exact ⟨nofun, fun ⟨e, ht⟩ => absurd (e ▸ ht) h⟩

theorem newSection_eq_ok {sec comment : Text} {s : Section} :
    newSection sec comment = .ok s ↔ s = ⟨storedComment comment, sec, []⟩ ∧ sec.length < 255 ∧
      (storedComment comment).length < 255 := by
  constructor
  · intro h
    obtain ⟨name, hn, h⟩ := bind_eq_ok.mp h
    obtain ⟨comments, hc, h⟩ := bind_eq_ok.mp h
    obtain ⟨rfl, hn⟩ := strcpy_eq_ok.mp hn
    obtain ⟨rfl, hc⟩ := strcpy_eq_ok.mp hc
    exact ⟨(Except.ok.inj h).symm, hn, hc⟩
  · rintro ⟨rfl, hn, hc⟩
    rw [newSection, strcpy_eq_ok.mpr ⟨rfl, hn⟩, strcpy_eq_ok.mpr ⟨rfl, hc⟩]
    rfl

theorem newRecord_eq_ok {key value comment : Text} {r : Record} :
    newRecord key value comment = .ok r ↔ r = ⟨storedComment comment, key, value⟩ ∧
      (storedComment comment).length < 255 ∧ key.length < 255 ∧ value.length < 255 := by
  constructor
  · intro h
    obtain ⟨comments, hc, h⟩ := bind_eq_ok.mp h
    obtain ⟨k, hk, h⟩ := bind_eq_ok.mp h
    obtain ⟨v, hv, h⟩ := bind_eq_ok.mp h
    obtain ⟨rfl, hc⟩ := strcpy_eq_ok.mp hc
    obtain ⟨rfl, hk⟩ := strcpy_eq_ok.mp hk
    obtain ⟨rfl, hv⟩ := strcpy_eq_ok.mp hv
    exact ⟨(Except.ok.inj h).symm, hc, hk, hv⟩
  · rintro ⟨rfl, hc, hk, hv⟩
    rw [newRecord, strcpy_eq_ok.mpr ⟨rfl, hc⟩, strcpy_eq_ok.mpr ⟨rfl, hk⟩, strcpy_eq_ok.mpr ⟨rfl, hv⟩]
    rfl

def sectionOf (c : Content) (sec : Text) : Section := (getSection c sec).getD ⟨[], sec, []⟩

theorem data_sectionOf (c : Content) (sec : Text) :
    ((getSection c sec).map Section.data).getD [] = (sectionOf c sec).data := by
  unfold sectionOf
  cases getSection c sec <;> rfl

theorem name_sectionOf (c : Content) (sec : Text) : (sectionOf c sec).name = sec := by
  unfold sectionOf
  cases h : getSection c sec with
  | none => rfl
  | some s => exact key_of_entryOf h

/-- **What `_append` does**, and that all strings that are copied have to fit. -/
theorem append_eq_ok {sec key value comment : Text} {c c' : Content} :
    append sec key value comment c = .ok c' ↔
      c' = put Section.name { sectionOf c sec with
        data := put Record.key ⟨storedComment comment, key, value⟩ (sectionOf c sec).data } c ∧
      (getSection c sec = none → sec.length < 255) ∧ (storedComment comment).length < 255 ∧
      key.length < 255 ∧ value.length < 255 := by
  unfold append sectionOf
  cases hs : getSection c sec with
  | none =>
    constructor
    · intro h
      obtain ⟨s, hn, h⟩ := bind_eq_ok.mp h
      obtain ⟨r, hr, h⟩ := bind_eq_ok.mp h
      obtain ⟨rfl, hsec, -⟩ := newSection_eq_ok.mp hn
      obtain ⟨rfl, hfit⟩ := newRecord_eq_ok.mp hr
      exact ⟨(Except.ok.inj h).symm, fun _ => hsec, hfit⟩
    · rintro ⟨rfl, hsec, hfit⟩
      have hn : newSection sec [] = .ok ⟨[], sec, []⟩ :=
        newSection_eq_ok.mpr ⟨rfl, hsec rfl, Nat.zero_lt_succ _⟩
      dsimp only
      rw [hn, ok_bind, newRecord_eq_ok.mpr ⟨rfl, hfit⟩]
      rfl
  | some s =>
    constructor
    · intro h
      obtain ⟨s, hs, h⟩ := bind_eq_ok.mp h
      cases hs
      obtain ⟨r, hr, h⟩ := bind_eq_ok.mp h
      obtain ⟨rfl, hfit⟩ := newRecord_eq_ok.mp hr
      exact ⟨(Except.ok.inj h).symm, nofun, hfit⟩
    · rintro ⟨rfl, -, hfit⟩
      dsimp only
      rw [newRecord_eq_ok.mpr ⟨rfl, hfit⟩]
      rfl

/-- **`_append` updates the one setting.** -/
theorem settings_append {sec key value comment : Text} {c c' : Content}
    (h : append sec key value comment c = .ok c') :
    settings c' = Function.update (settings c) (sec, key) value := by
  obtain ⟨rfl, -⟩ := append_eq_ok.mp h
  funext ⟨sec', key'⟩
  have hold : (getSection c sec).bind (getRecord · key') = getRecord (sectionOf c sec) key' := by
    unfold sectionOf
    cases getSection c sec <;> rfl
  unfold settings getValue
  dsimp only
  rw [getSection, entryOf_put]
  dsimp only
  rw [name_sectionOf]
  by_cases hs : sec = sec'
  · subst hs
    rw [if_pos rfl, Option.bind_some, getRecord, entryOf_put]
    dsimp only
    by_cases hk : key = key'
    · subst hk
      rw [if_pos rfl, Function.update_self]
      rfl
    · rw [if_neg hk, Function.update_of_ne fun e => hk (Prod.mk.inj e).2.symm]
      dsimp only
      rw [hold]
      rfl
  · rw [if_neg hs, Function.update_of_ne fun e => hs (Prod.mk.inj e).1.symm]
    rfl

/-! ## Any content -/

structure FittingRecord (r : Record) : Prop where
  comments : r.comments.length < 255
  key : r.key.length < 255
  value : r.value.length < 255

structure FittingSection (s : Section) : Prop where
  comments : s.comments.length < 255
  name : s.name.length < 255
  records : ∀ r ∈ s.data, FittingRecord r
  keys : (s.data.map Record.key).Nodup

/-- No two sections have one name, no two records of a section one key, and nothing is too long. -/
structure Sound (c : Content) : Prop where
  names : (c.map Section.name).Nodup
  sections : ∀ s ∈ c, FittingSection s

theorem sound_nil : Sound [] := ⟨List.nodup_nil, fun _ h => absurd h List.not_mem_nil⟩

theorem Sound.put {c : Content} (h : Sound c) {s : Section} (hs : FittingSection s) :
    Sound (put Section.name s c) := by
  refine ⟨nodup_put h.names s, fun t ht => ?_⟩
  rcases mem_put ht with rfl | ht
  · exact hs
  · exact h.sections t ht

theorem Sound.records {c : Content} (h : Sound c) (sec : Text) :
    (∀ r ∈ (sectionOf c sec).data, FittingRecord r) ∧
      ((sectionOf c sec).data.map Record.key).Nodup := by
  unfold sectionOf
  cases hs : getSection c sec with
  | none => exact ⟨fun _ hr => absurd hr List.not_mem_nil, List.nodup_nil⟩
  | some s =>
    have hf := h.sections s (mem_of_entryOf hs)
    exact ⟨hf.records, hf.keys⟩

theorem sound_addSection {sec comment : Text} {c c' : Content} (h : Sound c)
    (ha : addSection sec comment c = .ok c') : Sound c' := by
  obtain ⟨s, hn, ha⟩ := bind_eq_ok.mp ha
  cases ha
  obtain ⟨rfl, hname, hcomments⟩ := newSection_eq_ok.mp hn
  obtain ⟨hrecords, hkeys⟩ := h.records sec
  rw [data_sectionOf]
  exact h.put ⟨hcomments, hname, hrecords, hkeys⟩

theorem sound_append {sec key value comment : Text} {c c' : Content} (h : Sound c)
    (ha : append sec key value comment c = .ok c') : Sound c' := by
  obtain ⟨rfl, hsec, hcomment, hkey, hvalue⟩ := append_eq_ok.mp ha
  obtain ⟨hrecords, hkeys⟩ := h.records sec
  have hfit : (sectionOf c sec).comments.length < 255 ∧ (sectionOf c sec).name.length < 255 := by
    unfold sectionOf
    cases hs : getSection c sec with
    | none => exact ⟨Nat.zero_lt_succ _, hsec hs⟩
    | some s =>
      have hf := h.sections s (mem_of_entryOf hs)
      exact ⟨hf.comments, hf.name⟩
  refine h.put ⟨hfit.1, hfit.2, fun r hr => ?_, nodup_put hkeys _⟩
  rcases mem_put hr with rfl | hr
  · exact ⟨hcomment, hkey, hvalue⟩
  · exact hrecords r hr

theorem sound_loadLine {buffer : Text} {l l' : Loading} (h : Sound l.content)
    (hl : loadLine buffer l = .ok (some l')) : Sound l'.content := by
  unfold loadLine at hl
  split at hl
  · cases hl
    exact h
  split at hl
  · split at hl
    · cases hl
    · obtain ⟨c, ha, hl⟩ := bind_eq_ok.mp hl
      cases hl
      exact sound_addSection h ha
  split at hl
  · obtain ⟨comments, -, hl⟩ := bind_eq_ok.mp hl
    cases hl
    exact h
  split at hl
  · cases hl
  split at hl
  · cases hl
  · obtain ⟨c, ha, hl⟩ := bind_eq_ok.mp hl
    cases hl
    exact sound_append h ha

theorem sound_loadLines {buffers : List Text} {l : Loading} {c : Content} {b : Bool}
    (h : Sound l.content) (hl : loadLines buffers l = .ok (c, b)) : Sound c := by
  induction buffers generalizing l with
  | nil =>
    cases hl
    exact h
  | cons buffer buffers ih =>
    obtain ⟨o, ho, hl⟩ := bind_eq_ok.mp hl
    cases o with
    | none =>
      cases hl
      exact h
    | some l' => exact ih (sound_loadLine h ho) hl

/-- What the daemon works with: the content of a file that is there, changed by `set_value`. -/
inductive Reachable : Content → Prop where
  | missing : Reachable []
  | load {file : Text} {c : Content} {b : Bool} : load file = .ok (c, b) → Reachable c
  | set {sec key value : Text} {c c' : Content} : Reachable c → setValue sec key value c = .ok c' →
      Reachable c'

/-- **Whatever file is loaded and whatever is set**, the content is sound. -/
theorem sound_of_reachable {c : Content} (h : Reachable c) : Sound c := by
  induction h with
  | missing => exact sound_nil
  | load hl => exact sound_loadLines sound_nil hl
  | set _ ha ih => exact sound_append ih ha

/-! ## Any sequence of changes -/

structure Change where
  sec : Text
  key : Text
  value : Text
deriving DecidableEq

def setValues (changes : List Change) (c : Content) : Except Overflow Content :=
  changes.foldlM (fun c w => setValue w.sec w.key w.value c) c

/-- What the changes do to the settings. -/
def changed (changes : List Change) (m : Settings) : Settings :=
  changes.foldl (fun m w => Function.update m (w.sec, w.key) w.value) m

/-- **The content refines the store of settings.** -/
theorem settings_setValues {changes : List Change} {c c' : Content}
    (h : setValues changes c = .ok c') : settings c' = changed changes (settings c) := by
  induction changes generalizing c with
  | nil =>
    cases h
    rfl
  | cons w changes ih =>
    obtain ⟨c1, hw, h⟩ := bind_eq_ok.mp h
    rw [ih h, settings_append hw]
    rfl

def Change.Fits (w : Change) : Prop :=
  w.sec.length < 255 ∧ w.key.length < 255 ∧ w.value.length < 255

/-- **Changes stay in the buffers exactly if all their strings do.** -/
theorem setValues_ok_iff {changes : List Change} {c : Content} (hc : Reachable c) :
    (∃ c', setValues changes c = .ok c') ↔ ∀ w ∈ changes, w.Fits := by
  induction changes generalizing c with
  | nil => exact ⟨fun _ _ h => absurd h List.not_mem_nil, fun _ => ⟨c, rfl⟩⟩
  | cons w changes ih =>
    have hstep : (∃ c1, setValue w.sec w.key w.value c = .ok c1) ↔ w.Fits := by
      constructor
      · rintro ⟨c1, h⟩
        obtain ⟨-, hsec, -, hkey, hvalue⟩ := append_eq_ok.mp h
        refine ⟨?_, hkey, hvalue⟩
        cases hs : getSection c w.sec with
        | none => exact hsec hs
        | some s =>
          rw [← key_of_entryOf hs]
          exact ((sound_of_reachable hc).sections s (mem_of_entryOf hs)).name
      · rintro ⟨hsec, hkey, hvalue⟩
        exact ⟨_, append_eq_ok.mpr ⟨rfl, fun _ => hsec, Nat.zero_lt_succ _, hkey, hvalue⟩⟩
    constructor
    · rintro ⟨c', h⟩
      obtain ⟨c1, hw, h⟩ := bind_eq_ok.mp h
      have hrest := (ih (.set hc hw)).mp ⟨c', h⟩
      intro v hv
      rcases List.mem_cons.mp hv with rfl | hv
      · exact hstep.mp ⟨c1, hw⟩
      · exact hrest v hv
    · intro h
      obtain ⟨c1, hw⟩ := hstep.mpr (h w List.mem_cons_self)
      obtain ⟨c', hc'⟩ := (ih (.set hc hw)).mpr fun v hv => h v (List.mem_cons_of_mem w hv)
      refine ⟨c', ?_⟩
      rw [setValues, List.foldlM_cons, hw, ok_bind]
      exact hc'

theorem Reachable.setValues {changes : List Change} {c c' : Content} (hc : Reachable c)
    (h : setValues changes c = .ok c') : Reachable c' :=
  foldlM_induct (I := Reachable) (fun _ _ _ _ hc hset => .set hc hset) hc h

/-- **A store of settings.** What the daemon works with can be changed exactly by strings that fit in
the buffers, and holds each setting as it was set last. -/
theorem setValues_refines {changes : List Change} {c : Content} (hc : Reachable c) :
    (∃ c', setValues changes c = .ok c' ∧ Sound c' ∧
      settings c' = changed changes (settings c)) ↔ ∀ w ∈ changes, w.Fits := by
  rw [← setValues_ok_iff hc]
  constructor
  · rintro ⟨c', h, -⟩
    exact ⟨c', h⟩
  · rintro ⟨c', h⟩
    exact ⟨c', h, sound_of_reachable (hc.setValues h), settings_setValues h⟩

/-- The slot is set in a file that was loaded. -/
theorem setValues_refines_sample :
    ∃ c b, load sampleFile = .ok (c, b) ∧ ∃ c',
      setValues [⟨ascii "Slot", ascii "defaultSlot", ascii "3"⟩] c = .ok c' ∧ Sound c' ∧
      settings c' = changed [⟨ascii "Slot", ascii "defaultSlot", ascii "3"⟩] (settings c) := by
  refine ⟨_, _, rfl, (setValues_refines (@Reachable.load sampleFile _ _ rfl)).mpr fun w hw => ?_⟩
  rw [List.mem_singleton.mp hw]
  exact ⟨by decide, by decide, by decide⟩

end IniManage

end RecsDaemon
