import RecsDaemon.PluginManager.LoadByPath
import RecsDaemon.Base.Distinct
import RecsDaemon.Base.CString

/-!
# Loading the plugins of a directory

`loadAll` goes through a directory in the order of `readdir`. What it makes of
a file name is longer than the name by a zero that is lost on the way
(`extension_iff`). `Opened` says what any run of loads leaves: each library is
opened once, and of several plugins for one type the first is registered.
-/

namespace RecsDaemon

open Base

namespace PluginManager

/-! ## Paths -/

def findLastOf (c : UInt8) : Text → Option Nat
  | [] => none
  | b :: bs =>
    match findLastOf c bs with
    | some i => some (i + 1)
    | none => if b = c then some 0 else none

/-- `Path::getBasename`; the length counts the terminating zero. -/
def getBasename (path : Text) : Text :=
  match findLastOf sep path with
  | none => path
  | some index => path.drop (index + 1) ++ [0]

def dot : UInt8 := 46

def getExtension (path : Text) : Text :=
  let filename := getBasename path
  match findLastOf dot filename with
  | none => []
  | some index => if index = 0 ∨ index = path.length - 1 then [] else filename.drop (index + 1)

def join (a b : Text) : Text := a ++ [sep] ++ b

/-! ## The directory -/

/-- What the operating system answers; `stat` says whether a path is a directory, `readdir` gives the
names in a directory. -/
structure FileSystem where
  env : Environment
  stat : Text → Option Bool
  readdir : Text → List Text

namespace FileSystem

variable (fs : FileSystem)

def pathExists (path : Text) : Bool := path ≠ [] && (fs.stat (cstr path)).isSome

def isDirectory (path : Text) : Bool := fs.stat (cstr path) = some true

/-- What `Directory::Iterator::next` gives, of the absolute path. -/
def entries (path : Text) : List Text :=
  (fs.readdir (cstr (makeAbsolute fs.env path))).filter fun e => e ≠ [dot] ∧ e ≠ [dot, dot]

end FileSystem

def dynamicLibraryExtension : Text := ascii "so"

/-- One round of the loop; the strings are taken from a `Path` over its `const char*`. -/
def loadEntry (fs : FileSystem) (dirPath : Text) (pm : PluginManager) (e : Text) : PluginManager :=
  let fullPath := join (cstr dirPath) (cstr e)
  if fs.isDirectory fullPath then pm
  else if cstr (getExtension fullPath) ≠ dynamicLibraryExtension then pm
  else (pm.loadByPath fs.env (cstr fullPath)).2

def loadAll (pm : PluginManager) (fs : FileSystem) (pluginDirectory : Text) : Int × PluginManager :=
  if pluginDirectory = [] then (-1, pm)
  else if ¬ fs.pathExists pluginDirectory ∨ ¬ fs.isDirectory pluginDirectory then (-1, pm)
  else (0, (fs.entries (cstr pluginDirectory)).foldl (loadEntry fs pluginDirectory) pm)

/-! ## Extensions -/

theorem findLastOf_eq_none {c : UInt8} {t : Text} (h : c ∉ t) : findLastOf c t = none := by
  induction t with
  | nil => rfl
  | cons b bs ih =>
    rw [List.mem_cons, not_or] at h
    rw [findLastOf, ih h.2]
    exact if_neg fun e => h.1 e.symm

theorem findLastOf_append (c : UInt8) (xs : Text) {ys : Text} (h : c ∉ ys) :
    findLastOf c (xs ++ c :: ys) = some xs.length := by
  induction xs with
  | nil =>
    rw [List.nil_append, findLastOf, findLastOf_eq_none h]
    exact if_pos rfl
  | cons b bs ih => rw [List.cons_append, findLastOf, ih]; rfl

theorem exists_last {c : UInt8} {t : Text} (h : c ∈ t) : ∃ xs ys, t = xs ++ c :: ys ∧ c ∉ ys := by
  obtain ⟨ys, xs, he, hys⟩ := List.eq_append_cons_of_mem (List.mem_reverse.mpr h)
  refine ⟨xs.reverse, ys.reverse, ?_, fun hm => hys (List.mem_reverse.mp hm)⟩
  rw [← List.reverse_reverse t, he, List.reverse_append, List.reverse_cons, List.append_assoc]
  rfl

theorem last_unique {c : UInt8} {xs xs' ys ys' : Text} (he : xs ++ c :: ys = xs' ++ c :: ys')
    (h : c ∉ ys) (h' : c ∉ ys') : xs = xs' ∧ ys = ys' := by
  have hl := findLastOf_append c xs h
  rw [he, findLastOf_append c xs' h', Option.some.injEq] at hl
  obtain ⟨hx, hy⟩ := List.append_inj he hl.symm
  exact ⟨hx, (List.cons.inj hy).2⟩

theorem getBasename_join (dir : Text) {name : Text} (h : sep ∉ name) :
    getBasename (join dir name) = name ++ [0] := by
  rw [getBasename, join, List.append_assoc, List.singleton_append, findLastOf_append sep dir h]
  dsimp only
  rw [← List.singleton_append, ← List.append_assoc, List.drop_left' (by simp)]

/-- **The extension is that of the name**, though the zero behind the name is part of it. -/
theorem extension_iff (dir : Text) {name : Text} (hsep : sep ∉ name) (h0 : 0 ∉ name) :
    cstr (getExtension (join dir name)) = dynamicLibraryExtension ↔
      ∃ base, base ≠ [] ∧ name = base ++ dot :: dynamicLibraryExtension := by
  have hno : dot ∉ dynamicLibraryExtension := by decide
  unfold getExtension
  rw [getBasename_join dir hsep]
  by_cases hdot : dot ∈ name
  swap
  · have hnone : dot ∉ name ++ [0] := fun hm =>
      (List.mem_append.mp hm).elim hdot (by decide)
    dsimp only
    rw [findLastOf_eq_none hnone]
    constructor
    · intro h
      cases h
    · rintro ⟨base, -, rfl⟩
      exact absurd (List.mem_append_right _ List.mem_cons_self) hdot
  obtain ⟨xs, ys, rfl, hys⟩ := exists_last hdot
  have hlast : findLastOf dot (xs ++ dot :: ys ++ [0]) = some xs.length := by
    rw [List.append_assoc, List.cons_append]
    refine findLastOf_append dot xs fun hm => ?_
    exact (List.mem_append.mp hm).elim hys (by decide)
  have hsplit : (∃ base, base ≠ [] ∧ xs ++ dot :: ys = base ++ dot :: dynamicLibraryExtension) ↔
      xs ≠ [] ∧ ys = dynamicLibraryExtension := by
    constructor
    · rintro ⟨base, hb, he⟩
      obtain ⟨rfl, rfl⟩ := last_unique he hys hno
      exact ⟨hb, rfl⟩
    · rintro ⟨hx, rfl⟩
      exact ⟨xs, hx, rfl⟩
  dsimp only
  rw [hsplit, hlast]
  dsimp only
  by_cases hx : xs = []
  · subst hx
    rw [if_pos (.inl rfl)]
    constructor
    · intro h
      cases h
    · rintro ⟨h, -⟩
      exact absurd rfl h
  · -- the whole path is longer than the name
    have hlen : ¬ (xs.length = 0 ∨ xs.length = (join dir (xs ++ dot :: ys)).length - 1) := by
      rintro (h | h)
      · exact hx (List.length_eq_zero_iff.mp h)
      · simp only [join, List.length_append, List.length_cons, List.length_nil] at h
        omega
    have hext : (xs ++ dot :: ys ++ [0]).drop (xs.length + 1) = ys ++ [0] := by
      rw [List.append_assoc, List.cons_append, ← List.singleton_append, ← List.append_assoc,
        List.drop_left' (by simp)]
    have hzero : (0 : UInt8) ∉ ys := fun hm =>
      h0 (List.mem_append_right _ (List.mem_cons_of_mem _ hm))
    rw [if_neg hlen, hext, cstr_append_zero, cstr_of_no_zero hzero]
    exact ⟨fun h => ⟨hx, h⟩, fun h => h.2⟩

/-! ## What a sequence of registrations leaves -/

/-- The entry of a call that is accepted unless its type is taken. -/
def offer (version : PluginAPIVersion) (r : Registration) : Option (Text × RegisterParams) :=
  r.entry.filter fun e => e.1 ≠ [] ∧ e.2.createFunc.isSome ∧ e.2.destroyFunc.isSome ∧
    version.major = e.2.version.major

def firstFor (version : PluginAPIVersion) (rs : List Registration) (k : Text) :
    Option RegisterParams :=
  if k = wildCard then none
  else ((rs.filterMap (offer version)).find? fun e => e.1 = k).map Prod.snd

def wildCards (version : PluginAPIVersion) (rs : List Registration) : List RegisterParams :=
  ((rs.filterMap (offer version)).filter fun e => e.1 = wildCard).map Prod.snd

/-- The plugin manager has the registrations of these calls. -/
structure Holds (v : PluginAPIVersion) (rs : List Registration) (pm : PluginManager) : Prop where
  version : pm.version = v
  exact : ∀ k : Text, pm.exactMatchMap[k]? = firstFor v rs k
  wild : pm.wildCardVec = wildCards v rs

theorem accepts_iff_offer {pm : PluginManager} {r : Registration} {key : Text} {p : RegisterParams}
    (he : r.entry = some (key, p)) :
    pm.Accepts key p ↔
      offer pm.version r = some (key, p) ∧ (key = wildCard ∨ key ∉ pm.exactMatchMap) := by
  have ho : offer pm.version r = some (key, p) ↔ key ≠ [] ∧ p.createFunc.isSome ∧
      p.destroyFunc.isSome ∧ pm.version.major = p.version.major := by
    rw [offer, he, Option.filter_eq_some_iff, decide_eq_true_eq]
    exact and_iff_right rfl
  rw [ho]
  exact ⟨fun ⟨hn, hu, hf⟩ => ⟨⟨hn, hu.creates, hu.destroys, hu.version⟩, hf⟩,
    fun ⟨⟨hn, hc, hd, hv⟩, hf⟩ => ⟨hn, ⟨hc, hd, hv⟩, hf⟩⟩

theorem registerObject_offer (pm : PluginManager) (r : Registration) :
    (offer pm.version r = none ∧ (pm.registerObject r.objectType r.params).2 = pm) ∨
    ∃ key p, offer pm.version r = some (key, p) ∧
      ((key = wildCard ∨ key ∉ pm.exactMatchMap) ∧
          (pm.registerObject r.objectType r.params).2 = pm.add key p ∨
        key ≠ wildCard ∧ key ∈ pm.exactMatchMap ∧
          (pm.registerObject r.objectType r.params).2 = pm) := by
  obtain ⟨_ | t, _ | p⟩ := r
  · exact .inl ⟨rfl, rfl⟩
  · exact .inl ⟨rfl, rfl⟩
  · exact .inl ⟨rfl, rfl⟩
  have haccepts := @accepts_iff_offer pm ⟨some t, some p⟩ (cstr t) p rfl
  cases ho : offer pm.version ⟨some t, some p⟩ with
  | none =>
    rw [ho] at haccepts
    refine .inl ⟨rfl, congrArg Prod.snd (registerObject_of_not_accepts fun ha => ?_)⟩
    cases (haccepts.mp ha).1
  | some e =>
    obtain rfl : (cstr t, p) = e := Option.some.inj (Option.mem_filter_iff.mp ho).1
    refine .inr ⟨cstr t, p, rfl, ?_⟩
    by_cases hf : cstr t = wildCard ∨ cstr t ∉ pm.exactMatchMap
    · exact .inl ⟨hf, congrArg Prod.snd (registerObject_of_accepts (haccepts.mpr ⟨ho, hf⟩))⟩
    · rw [not_or, not_not] at hf
      refine .inr ⟨hf.1, hf.2, congrArg Prod.snd (registerObject_of_not_accepts fun ha => ?_)⟩
      exact (haccepts.mp ha).2.elim hf.1 (· hf.2)

section Registrations

variable {v : PluginAPIVersion} {rs : List Registration} {pm : PluginManager} {r : Registration}

theorem firstFor_append (v : PluginAPIVersion) (rs rs' : List Registration) (k : Text) :
    firstFor v (rs ++ rs') k = (firstFor v rs k).or (firstFor v rs' k) := by
  unfold firstFor
  split
  · rfl
  · rw [List.filterMap_append, List.find?_append, Option.map_or]

theorem wildCards_append (v : PluginAPIVersion) (rs rs' : List Registration) :
    wildCards v (rs ++ rs') = wildCards v rs ++ wildCards v rs' := by
  rw [wildCards, List.filterMap_append, List.filter_append, List.map_append]
  rfl

theorem Holds.silent (h : Holds v rs pm) (ho : offer v r = none) : Holds v (rs ++ [r]) pm := by
  have hnil : [r].filterMap (offer v) = [] := by rw [List.filterMap_cons_none ho]; rfl
  refine ⟨h.version, fun k => ?_, ?_⟩
  · have hk : firstFor v [r] k = none := by
      rw [firstFor, hnil]
      exact ite_self none
    rw [firstFor_append, hk, Option.or_none, h.exact]
  · rw [wildCards_append, wildCards.eq_def v [r], hnil, h.wild]
    exact (List.append_nil _).symm

theorem offered {key : Text} {p : RegisterParams} (ho : offer v r = some (key, p)) :
    (∀ k, firstFor v [r] k = if k ≠ wildCard ∧ k = key then some p else none) ∧
      wildCards v [r] = if key = wildCard then [p] else [] := by
  have hone : [r].filterMap (offer v) = [(key, p)] := List.filterMap_cons_some ho
  refine ⟨fun k => ?_, ?_⟩
  · rw [firstFor, hone]
    by_cases hw : k = wildCard
    · rw [if_pos hw, if_neg fun h => h.1 hw]
    · by_cases hk : k = key
      · rw [if_neg hw, if_pos ⟨hw, hk⟩,
          List.find?_cons_of_pos (by rw [decide_eq_true_eq]; exact hk.symm)]
        rfl
      · rw [if_neg hw, if_neg fun h => hk h.2,
          List.find?_cons_of_neg (by rw [decide_eq_true_eq]; exact fun h => hk h.symm)]
        rfl
  · rw [wildCards, hone]
    by_cases hw : key = wildCard
    · rw [if_pos hw, List.filter_cons_of_pos (by rw [decide_eq_true_eq]; exact hw)]
      rfl
    · rw [if_neg hw, List.filter_cons_of_neg (by rw [decide_eq_true_eq]; exact hw)]
      rfl

/-- **One more call.** -/
theorem Holds.registerObject (h : Holds v rs pm) (r : Registration) :
    Holds v (rs ++ [r]) (pm.registerObject r.objectType r.params).2 := by
  have hv := h.version
  rcases registerObject_offer pm r with ⟨ho, he⟩ | ⟨key, p, ho, ⟨hfree, he⟩ | ⟨hw, htaken, he⟩⟩
  · rw [he]
    exact h.silent (hv ▸ ho)
  · obtain ⟨hfirst, hwild⟩ := offered (hv ▸ ho)
    rw [he]
    refine ⟨(add_version pm key p).trans hv, fun k => ?_, ?_⟩
    · rw [add_exactMatchMap, firstFor_append, hfirst, ← h.exact]
      by_cases hk : key ≠ wildCard ∧ k = key
      · obtain ⟨hne, rfl⟩ := hk
        have hnone : pm.exactMatchMap[k]? = none :=
          Std.TreeMap.getElem?_eq_none (hfree.resolve_left hne)
        rw [if_pos ⟨hne, rfl⟩, if_pos ⟨hne, rfl⟩, hnone, Option.none_or]
      · have hk' : ¬ (k ≠ wildCard ∧ k = key) := fun ⟨hw, e⟩ => hk ⟨e ▸ hw, e⟩
        rw [if_neg hk, if_neg hk', Option.or_none]
    · rw [add_wildCardVec, wildCards_append, hwild, h.wild]
  · obtain ⟨hfirst, hwild⟩ := offered (hv ▸ ho)
    rw [he]
    refine ⟨hv, fun k => ?_, ?_⟩
    · rw [firstFor_append, hfirst, ← h.exact]
      by_cases hk : k ≠ wildCard ∧ k = key
      · obtain ⟨-, rfl⟩ := hk
        obtain ⟨q, hq⟩ := Option.isSome_iff_exists.mp (Std.TreeMap.mem_iff_isSome_getElem?.mp htaken)
        rw [hq, Option.some_or]
      · rw [if_neg hk, Option.or_none]
    · rw [wildCards_append, hwild, if_neg hw, h.wild, List.append_nil]

theorem Holds.registerAll (h : Holds v rs pm) (rs' : List Registration) :
    Holds v (rs ++ rs') (pm.registerAll rs') := by
  induction rs' generalizing rs pm with
  | nil => rw [List.append_nil]; exact h
  | cons r rs' ih =>
    rw [registerAll_cons, ← List.singleton_append, ← List.append_assoc]
    exact ih (h.registerObject r)

end Registrations

/-! ## What a sequence of loads leaves -/

def opened (env : Environment) (paths : List Text) : List DynamicLibrary :=
  paths.eraseDups.filterMap (load env)

/-- The calls of `registerObject` their entry points make. -/
def registrationsOf (env : Environment) (paths : List Text) : List Registration :=
  (opened env paths).flatMap fun d => (d.initPlugin.map InitFunc.registrations).getD []

/-- The plugin manager has loaded the libraries at these paths, in this order. -/
structure Opened (env : Environment) (paths : List Text) (pm : PluginManager) : Prop where
  holds : Holds initial.version (registrationsOf env paths) pm
  exits : pm.exitFuncVec = (opened env paths).filterMap fun d => d.initPlugin.bind InitFunc.exitFunc
  libraries : ∀ k : Text, pm.dynamicLibraryMap[k]? = if k ∈ paths then load env k else none

/-- A path that is its own key: absolute, and a C string. -/
def Proper (p : Text) : Prop := isAbsolute p ∧ 0 ∉ p

theorem Proper.makeAbsolute_eq {p : Text} (h : Proper p) (env : Environment) :
    makeAbsolute env p = p := if_pos h.1

theorem Proper.cstr_eq {p : Text} (h : Proper p) : cstr p = p := cstr_of_no_zero h.2

section Opened

variable {env : Environment} {paths : List Text} {pm : PluginManager} {p : Text}

theorem filterMap_one {α β : Type} (f : α → Option β) (a : α) :
    [a].filterMap f = (f a).toList := by
  cases h : f a with
  | none => rw [List.filterMap_cons_none h]; rfl
  | some b => rw [List.filterMap_cons_some h]; rfl

theorem opened_concat (env : Environment) (paths : List Text) (p : Text) :
    opened env (paths ++ [p]) =
      opened env paths ++ if p ∈ paths then [] else (load env p).toList := by
  rw [opened, eraseDups_concat]
  by_cases h : p ∈ paths
  · rw [if_pos h, if_pos h, List.append_nil, opened]
  · rw [if_neg h, if_neg h, List.filterMap_append, filterMap_one, opened]

theorem Opened.mem_iff (h : Opened env paths pm) (k : Text) :
    k ∈ pm.dynamicLibraryMap ↔ k ∈ paths ∧ (load env k).isSome := by
  rw [Std.TreeMap.mem_iff_isSome_getElem?, h.libraries]
  by_cases hk : k ∈ paths
  · rw [if_pos hk]
    exact (and_iff_right hk).symm
  · rw [if_neg hk]
    exact iff_of_false Bool.false_ne_true fun h0 => hk h0.1

/-- A library that is there already, or cannot be loaded. -/
theorem Opened.refused (h : Opened env paths pm) (hp : p ∈ paths ∨ load env p = none) :
    Opened env (paths ++ [p]) pm := by
  have hsame : opened env (paths ++ [p]) = opened env paths := by
    rw [opened_concat]
    by_cases hm : p ∈ paths
    · rw [if_pos hm, List.append_nil]
    · rw [if_neg hm, hp.resolve_left hm]
      exact List.append_nil _
  refine ⟨?_, ?_, fun k => ?_⟩
  · rw [registrationsOf, hsame]
    exact h.holds
  · rw [hsame]
    exact h.exits
  · rw [h.libraries]
    by_cases hk : k ∈ paths
    · rw [if_pos hk, if_pos (List.mem_append_left _ hk)]
    · rw [if_neg hk]
      by_cases hkp : k = p
      · subst hkp
        rw [if_pos (List.mem_append_right _ List.mem_cons_self), hp.resolve_left hk]
      · rw [if_neg fun hm => (List.mem_append.mp hm).elim hk fun e => hkp (List.mem_singleton.mp e)]

/-- The plugin manager after a library that is new: what its entry point registers, and its exit
function. -/
def afterOpen (pm : PluginManager) (p : Text) (d : DynamicLibrary) : PluginManager :=
  let pm := pm.withLibraries (pm.dynamicLibraryMap.insert p d)
  match d.initPlugin with
  | none => pm
  | some initFunc => (pm.initializePlugin initFunc).2

theorem afterOpen_frame (pm : PluginManager) (p : Text) (d : DynamicLibrary) :
    (pm.afterOpen p d).dynamicLibraryMap = pm.dynamicLibraryMap.insert p d ∧
      (pm.afterOpen p d).exitFuncVec =
        pm.exitFuncVec ++ (d.initPlugin.bind InitFunc.exitFunc).toList := by
  unfold afterOpen
  cases hi : d.initPlugin with
  | none => exact ⟨rfl, (List.append_nil _).symm⟩
  | some i =>
    have hframe := registerAll_frame
      (pm.withLibraries (pm.dynamicLibraryMap.insert p d)) i.registrations
    dsimp only [initializePlugin, Option.bind_some]
    cases i.exitFunc with
    | none => exact ⟨hframe.1, hframe.2.trans (List.append_nil _).symm⟩
    | some f => exact ⟨hframe.1, congrArg (· ++ [f]) hframe.2⟩

theorem Holds.afterOpen {v : PluginAPIVersion} {rs : List Registration} (h : Holds v rs pm)
    (p : Text) (d : DynamicLibrary) :
    Holds v (rs ++ (d.initPlugin.map InitFunc.registrations).getD []) (pm.afterOpen p d) := by
  have hlib : Holds v rs (pm.withLibraries (pm.dynamicLibraryMap.insert p d)) :=
    ⟨h.version, h.exact, h.wild⟩
  unfold PluginManager.afterOpen
  cases d.initPlugin with
  | none => simpa using hlib
  | some i =>
    have hall := hlib.registerAll i.registrations
    dsimp only [initializePlugin, Option.map_some, Option.getD_some]
    cases i.exitFunc with
    | none => exact hall
    | some f => exact ⟨hall.version, hall.exact, hall.wild⟩

theorem Opened.afterOpen {d : DynamicLibrary} (h : Opened env paths pm) (hp : p ∉ paths)
    (hd : load env p = some d) : Opened env (paths ++ [p]) (pm.afterOpen p d) := by
  have hopen : opened env (paths ++ [p]) = opened env paths ++ [d] := by
    rw [opened_concat, if_neg hp, hd]
    rfl
  obtain ⟨hmap, hexits⟩ := afterOpen_frame pm p d
  refine ⟨?_, ?_, fun k => ?_⟩
  · rw [registrationsOf, hopen, List.flatMap_append, List.flatMap_singleton]
    exact h.holds.afterOpen p d
  · rw [hexits, hopen, List.filterMap_append, filterMap_one, h.exits]
  · rw [hmap, getElem?_insert, h.libraries]
    by_cases hk : k = p
    · subst hk
      rw [if_pos rfl, if_pos (List.mem_append_right _ List.mem_cons_self), hd]
    · have hiff : k ∈ paths ++ [p] ↔ k ∈ paths := by
        rw [List.mem_append, List.mem_singleton, or_iff_left hk]
      rw [if_neg hk]
      simp only [hiff]

/-- **One more load.** -/
theorem Opened.loadByPath {pluginPath : Text} (h : Opened env paths pm)
    (hproper : ∀ p ∈ resolve env pluginPath, Proper p) :
    Opened env (paths ++ (resolve env pluginPath).toList) (pm.loadByPath env pluginPath).2 := by
  cases hr : resolve env pluginPath with
  | none =>
    rw [PluginManager.loadByPath, hr, Option.toList_none, List.append_nil]
    exact h
  | some p =>
    have hp := hproper p hr
    rw [Option.toList_some]
    rcases loadByPath_cases pm env pluginPath with ⟨hno, he⟩ | ⟨key, d, hl, he⟩
    · rw [he]
      refine h.refused ?_
      by_contra hne
      rw [not_or] at hne
      obtain ⟨d, hd⟩ := Option.ne_none_iff_exists'.mp hne.2
      refine hno _ d ⟨p, hr, fun hm => ?_, ?_, rfl⟩
      · rw [hp.cstr_eq, h.mem_iff] at hm
        exact hne.1 hm.1
      · rw [hp.makeAbsolute_eq, hp.cstr_eq, hd]
    · obtain ⟨q, hq, hnew, hd, rfl⟩ := hl
      obtain rfl : p = q := Option.some.inj (hr.symm.trans hq)
      rw [hp.makeAbsolute_eq, hp.cstr_eq] at hd
      rw [hp.cstr_eq, h.mem_iff, hd] at hnew
      have hafter := h.afterOpen (fun hm => hnew ⟨hm, rfl⟩) hd
      rw [hp.makeAbsolute_eq, hp.cstr_eq, hp.makeAbsolute_eq] at he
      rw [he]
      unfold PluginManager.afterOpen at hafter
      cases hi : d.initPlugin with
      | none => simpa only [hi] using hafter
      | some i => simpa only [hi] using hafter

end Opened

/-! ## A directory -/

namespace FileSystem

variable (fs : FileSystem)

/-- A plugin of the directory: a file whose name is more than its extension. -/
def isPluginFile (dir name : Text) : Bool :=
  !fs.isDirectory (join dir name) &&
    ((dot :: dynamicLibraryExtension).isSuffixOf name && name ≠ dot :: dynamicLibraryExtension)

def pluginPath (dir name : Text) : Option Text :=
  if fs.isPluginFile dir name then resolve fs.env (join dir name) else none

def pluginPaths (dir : Text) : List Text := (fs.entries dir).filterMap (fs.pluginPath dir)

/-- What a file system promises: a name has neither a separator nor a zero in it. -/
def Named : Prop := ∀ dir, ∀ e ∈ fs.readdir dir, sep ∉ e ∧ 0 ∉ e

end FileSystem

section Directory

variable {fs : FileSystem} {paths : List Text} {pm : PluginManager} {dir : Text}

theorem isPluginFile_iff (fs : FileSystem) (dir : Text) {name : Text} (hsep : sep ∉ name)
    (h0 : 0 ∉ name) :
    fs.isPluginFile dir name ↔ ¬ fs.isDirectory (join dir name) ∧
      cstr (getExtension (join dir name)) = dynamicLibraryExtension := by
  rw [extension_iff dir hsep h0, FileSystem.isPluginFile, Bool.and_eq_true, Bool.and_eq_true,
    Bool.not_eq_true', decide_eq_true_eq, List.isSuffixOf_iff_suffix, Bool.not_eq_true]
  refine and_congr_right fun _ => ⟨?_, ?_⟩
  · rintro ⟨⟨base, rfl⟩, hne⟩
    exact ⟨base, fun hb => hne (by rw [hb, List.nil_append]), rfl⟩
  · rintro ⟨base, hb, rfl⟩
    exact ⟨⟨base, rfl⟩, fun he => hb (List.append_left_eq_self.mp he)⟩

theorem Opened.loadEntry {e : Text} (h : Opened fs.env paths pm) (hdir : 0 ∉ dir) (hsep : sep ∉ e)
    (h0 : 0 ∉ e) (hproper : ∀ p ∈ fs.pluginPath dir e, Proper p) :
    Opened fs.env (paths ++ (fs.pluginPath dir e).toList) (loadEntry fs dir pm e) := by
  have hjoin : (0 : UInt8) ∉ join dir e := by
    simp only [join, List.mem_append, List.mem_singleton, not_or]
    exact ⟨⟨hdir, by decide⟩, h0⟩
  have hiff := isPluginFile_iff fs dir hsep h0
  rw [PluginManager.loadEntry, cstr_of_no_zero hdir, cstr_of_no_zero h0, cstr_of_no_zero hjoin]
  unfold FileSystem.pluginPath at hproper ⊢
  by_cases hf : fs.isPluginFile dir e
  · obtain ⟨hnd, hext⟩ := hiff.mp hf
    rw [if_pos hf] at hproper ⊢
    rw [if_neg hnd, if_neg (not_not_intro hext)]
    exact h.loadByPath hproper
  · rw [if_neg hf, Option.toList_none, List.append_nil]
    by_cases hd : fs.isDirectory (join dir e)
    · rw [if_pos hd]
      exact h
    · rw [if_neg hd, if_pos fun hext => hf (hiff.mpr ⟨hd, hext⟩)]
      exact h

theorem Opened.loadEntries {es : List Text} (h : Opened fs.env paths pm) (hdir : 0 ∉ dir)
    (hnames : ∀ e ∈ es, sep ∉ e ∧ 0 ∉ e)
    (hproper : ∀ p ∈ es.filterMap (fs.pluginPath dir), Proper p) :
    Opened fs.env (paths ++ es.filterMap (fs.pluginPath dir))
      (es.foldl (PluginManager.loadEntry fs dir) pm) := by
  induction es generalizing paths pm with
  | nil => rw [List.filterMap_nil, List.append_nil]; exact h
  | cons e es ih =>
    rw [← List.singleton_append, List.filterMap_append, filterMap_one] at hproper ⊢
    rw [← List.append_assoc, List.foldl_append]
    obtain ⟨hsep, h0⟩ := hnames e List.mem_cons_self
    have hone := h.loadEntry hdir hsep h0 fun p hp =>
      hproper p (List.mem_append_left _ (Option.mem_toList.mpr hp))
    exact ih hone (fun e' he' => hnames e' (List.mem_cons_of_mem _ he')) fun p hp =>
      hproper p (List.mem_append_right _ hp)

end Directory

/-! ## Runs -/

/-- `shutdown`: the exit functions are called, an exception counts as -1, and nothing is left. -/
def shutdown (pm : PluginManager) (exitFunc : Nat → Option Int) : Int × PluginManager :=
  (pm.exitFuncVec.foldl (fun _ func => (exitFunc func).getD (-1)) 0,
    { initial with version := pm.version })

inductive Op where
  | loadAll (pluginDirectory : Text)
  | loadByPath (pluginPath : Text)
  | shutdown

namespace Op

def apply (fs : FileSystem) (exitFunc : Nat → Option Int) (pm : PluginManager) : Op → PluginManager
  | loadAll dir => (pm.loadAll fs dir).2
  | loadByPath path => (pm.loadByPath fs.env path).2
  | shutdown => (pm.shutdown exitFunc).2

def paths (fs : FileSystem) : Op → List Text
  | loadAll dir => if dir ≠ [] ∧ fs.isDirectory dir then fs.pluginPaths dir else []
  | loadByPath path => (resolve fs.env path).toList
  | shutdown => []

/-- The paths loaded from since the last `shutdown`. -/
def since (fs : FileSystem) (ps : List Text) (op : Op) : List Text :=
  match op with
  | loadAll _ => ps ++ op.paths fs
  | loadByPath _ => ps ++ op.paths fs
  | shutdown => []

/-- The directory of the operation is a C string, and what it loads from are proper paths. -/
structure Fine (fs : FileSystem) (op : Op) : Prop where
  directory : ∀ dir, op = loadAll dir → 0 ∉ dir
  proper : ∀ p ∈ op.paths fs, Proper p

end Op

theorem opened_initial (env : Environment) : Opened env [] initial where
  holds := ⟨rfl, fun k => by simp [firstFor, registrationsOf, opened, initial], rfl⟩
  exits := rfl
  libraries k := by simp [initial]

theorem Opened.loadAll {fs : FileSystem} {ps : List Text} {pm : PluginManager} {dir : Text}
    (hfs : fs.Named) (h : Opened fs.env ps pm) (hop : (Op.loadAll dir).Fine fs) :
    Opened fs.env (ps ++ (Op.loadAll dir).paths fs) (pm.loadAll fs dir).2 := by
  have hdir := hop.directory dir rfl
  have hproper := hop.proper
  rw [Op.paths] at hproper ⊢
  rw [PluginManager.loadAll]
  by_cases hempty : dir = []
  · rw [if_pos hempty, if_neg fun hd => hd.1 hempty, List.append_nil]
    exact h
  · rw [if_neg hempty]
    by_cases hd : fs.isDirectory dir
    · have hexists : fs.pathExists dir := by
        rw [FileSystem.isDirectory, decide_eq_true_eq] at hd
        rw [FileSystem.pathExists, hd, Bool.and_eq_true, decide_eq_true_eq]
        exact ⟨hempty, rfl⟩
      rw [if_pos ⟨hempty, hd⟩] at hproper ⊢
      rw [if_neg fun hno => hno.elim (· hexists) (· hd), cstr_of_no_zero hdir]
      refine h.loadEntries hdir (fun e he => ?_) hproper
      exact hfs _ e (List.mem_of_mem_filter he)
    · rw [if_neg fun h0 => hd h0.2, if_pos (.inr hd), List.append_nil]
      exact h

theorem Opened.apply {fs : FileSystem} {ps : List Text} {pm : PluginManager} {op : Op}
    (hfs : fs.Named) (exitFunc : Nat → Option Int) (h : Opened fs.env ps pm) (hop : op.Fine fs) :
    Opened fs.env (op.since fs ps) (op.apply fs exitFunc pm) := by
  cases op with
  | loadAll dir => exact h.loadAll hfs hop
  | loadByPath path =>
    exact h.loadByPath fun p hp => hop.proper p (Option.mem_toList.mpr hp)
  | shutdown =>
    have hv : pm.version = initial.version := h.holds.version
    rw [Op.since, Op.apply, PluginManager.shutdown, hv]
    exact opened_initial fs.env

/-- **What is loaded in any run.** Since the last shutdown every library is opened once, its exit
function is called once in its turn, a type belongs to the first plugin that offers it, and all
wild cards stay. -/
theorem loadAll_registers (fs : FileSystem) (hfs : fs.Named) (exitFunc : Nat → Option Int)
    (ops : List Op) (hops : ∀ op ∈ ops, op.Fine fs) :
    Opened fs.env (ops.foldl (Op.since fs) []) (ops.foldl (Op.apply fs exitFunc) initial) := by
  suffices hrun : ∀ ps pm, Opened fs.env ps pm →
      Opened fs.env (ops.foldl (Op.since fs) ps) (ops.foldl (Op.apply fs exitFunc) pm) from
    hrun [] initial (opened_initial fs.env)
  induction ops with
  | nil => exact fun ps pm h => h
  | cons op ops ih =>
    intro ps pm h
    rw [List.foldl_cons, List.foldl_cons]
    exact ih (fun op' hop' => hops op' (List.mem_cons_of_mem _ hop')) _ _
      (h.apply hfs exitFunc (hops op List.mem_cons_self))

/-- A directory of two plugins for one type, and a text. -/
def twoPlugins : FileSystem where
  env :=
    { isSymbolicLink := fun _ => false
      readlink := fun _ => none
      getcwd := some (ascii "/")
      dlopen := fun path =>
        if path = ascii "/p/a.so" then
          some ⟨7, some ⟨[⟨some (ascii "CPU"), some cppParams⟩], some 3⟩⟩
        else if path = ascii "/p/b.so" then
          some ⟨8, some ⟨[⟨some (ascii "CPU"), some ⟨⟨1, 4⟩, some 5, some 6, .c⟩⟩], some 4⟩⟩
        else none }
  stat path := some (path = ascii "/p")
  readdir _ := [ascii ".", ascii "..", ascii "b.so", ascii "b.txt", ascii "a.so"]

theorem loadAll_registers_sample :
    let pm := [Op.loadByPath (ascii "/p/a.so"), .shutdown, .loadAll (ascii "/p"),
      .loadByPath (ascii "/p/b.so")].foldl (Op.apply twoPlugins fun _ => some 0) initial
    pm.exactMatchMap[ascii "CPU"]? = some ⟨⟨1, 4⟩, some 5, some 6, .c⟩ ∧ pm.exitFuncVec = [4, 3] := by
  intro pm
  have hnamed : twoPlugins.Named := by
    intro dir e he
    fin_cases he <;> exact ⟨by decide, by decide⟩
  have hrun : Opened twoPlugins.env _ pm := loadAll_registers twoPlugins hnamed (fun _ => some 0) _
    fun op hop => by
      fin_cases hop
      all_goals exact ⟨fun dir hd => by cases hd <;> decide, by unfold Proper; decide⟩
  exact ⟨(hrun.holds.exact _).trans (by decide), hrun.exits.trans (by decide)⟩

end PluginManager

end RecsDaemon
