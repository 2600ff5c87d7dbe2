import RecsDaemon.PluginManager

/-!
# A plugin that fails to load

Registrations take effect at once, and the library is in the map before its
entry point is looked up. So a plugin that fails in between stays registered.
-/

namespace RecsDaemon

open Base

namespace PluginManager

/-! ## Specification -/

structure Same (pm pm' : PluginManager) : Prop where
  version : pm'.version = pm.version
  libraries : ∀ k : Text, pm'.dynamicLibraryMap[k]? = pm.dynamicLibraryMap[k]?
  exits : pm'.exitFuncVec = pm.exitFuncVec
  exact : ∀ k : Text, pm'.exactMatchMap[k]? = pm.exactMatchMap[k]?
  wildCards : pm'.wildCardVec = pm.wildCardVec

def accepted (pm : PluginManager) : List Registration → List (Text × RegisterParams)
  | [] => []
  | r :: rs =>
    let (res, pm') := pm.registerObject r.objectType r.params
    (if res = 0 then r.entry.toList else []) ++ accepted pm' rs

/-- Exactly the entries are added, under types no plugin handles yet. -/
structure Registered (pm pm' : PluginManager) (entries : List (Text × RegisterParams)) : Prop where
  new : ∀ e ∈ entries, e.1 ≠ wildCard → e.1 ∉ pm.exactMatchMap
  exact : ∀ (k : Text) p, pm'.exactMatchMap[k]? = some p ↔
    pm.exactMatchMap[k]? = some p ∨ k ≠ wildCard ∧ (k, p) ∈ entries
  wildCards : pm'.wildCardVec =
    pm.wildCardVec ++ (entries.filter fun e => e.1 = wildCard).map Prod.snd

/-- A plugin is there: its accepted registrations, its exit function and its library. -/
structure Loaded (pm pm' : PluginManager) (d : DynamicLibrary) (initFunc : InitFunc)
    (exitFunc : Nat) (key : Text) : Prop where
  entryPoint : d.initPlugin = some initFunc
  initialised : initFunc.exitFunc = some exitFunc
  registered : Registered pm pm' (pm.accepted initFunc.registrations)
  exits : pm'.exitFuncVec = pm.exitFuncVec ++ [exitFunc]
  new : key ∉ pm.dynamicLibraryMap
  libraries : ∀ k : Text, pm'.dynamicLibraryMap[k]? =
    if k = key then some d else pm.dynamicLibraryMap[k]?

/-- `createObject` answers alike, with the same calls. -/
def CreatesAlike (pm pm' : PluginManager) : Prop :=
  ∀ objectType f, (pm'.createObject objectType f).object = (pm.createObject objectType f).object ∧
    (pm'.createObject objectType f).events = (pm.createObject objectType f).events

/-- A load that fails leaves no trace, one that succeeds leaves the plugin. -/
structure AllOrNothing (pm : PluginManager) (env : Environment) (pluginPath : Text) : Prop where
  failure : (pm.loadByPath env pluginPath).1 < 0 →
    Same pm (pm.loadByPath env pluginPath).2 ∧ CreatesAlike pm (pm.loadByPath env pluginPath).2
  success : 0 ≤ (pm.loadByPath env pluginPath).1 → ∃ d initFunc exitFunc key,
    Loaded pm (pm.loadByPath env pluginPath).2 d initFunc exitFunc key

/-! ## Equal registries -/

section Same

variable {pm pm' : PluginManager}

theorem Same.refl (pm : PluginManager) : Same pm pm := ⟨rfl, fun _ => rfl, rfl, fun _ => rfl, rfl⟩

theorem Same.mem (h : Same pm pm') (k : Text) : k ∈ pm'.exactMatchMap ↔ k ∈ pm.exactMatchMap := by
  rw [Std.TreeMap.mem_iff_isSome_getElem?, Std.TreeMap.mem_iff_isSome_getElem?, h.exact]

theorem Same.accepts (h : Same pm pm') (key : Text) (p : RegisterParams) :
    pm'.Accepts key p ↔ pm.Accepts key p := by
  refine ⟨fun ⟨hn, hu, hf⟩ => ⟨hn, ⟨hu.creates, hu.destroys, ?_⟩, ?_⟩,
    fun ⟨hn, hu, hf⟩ => ⟨hn, ⟨hu.creates, hu.destroys, ?_⟩, ?_⟩⟩
  · rw [← h.version]; exact hu.version
  · rwa [h.mem] at hf
  · rw [h.version]; exact hu.version
  · rwa [h.mem]

theorem Same.result (h : Same pm pm') (t : Text) (p : RegisterParams) :
    (pm'.registerObject (some t) (some p)).1 = (pm.registerObject (some t) (some p)).1 := by
  by_cases ha : pm.Accepts (cstr t) p
  · rw [registerObject_of_accepts ha, registerObject_of_accepts ((h.accepts _ _).mpr ha)]
  · rw [registerObject_of_not_accepts ha,
      registerObject_of_not_accepts fun ha' => ha ((h.accepts _ _).mp ha')]

theorem Same.tryWildCards (h : Same pm pm') (t : Text) (f : Factories) (rps : List RegisterParams)
    (i : Nat) :
    (pm'.tryWildCards t f rps i).object = (pm.tryWildCards t f rps i).object ∧
      (pm'.tryWildCards t f rps i).events = (pm.tryWildCards t f rps i).events := by
  induction rps generalizing i with
  | nil => exact ⟨rfl, rfl⟩
  | cons rp rps ih =>
    unfold PluginManager.tryWildCards
    cases f.wildCard i with
    | none => exact ⟨(ih (i + 1)).1, congrArg (.create rp none :: ·) (ih (i + 1)).2⟩
    | some pointer =>
      simp only [h.result]
      split <;> exact ⟨rfl, rfl⟩

theorem Same.createsAlike (h : Same pm pm') : CreatesAlike pm pm' := by
  intro t f
  have hw := h.tryWildCards t f pm.wildCardVec 0
  unfold createObject
  rw [h.exact t, h.wildCards]
  by_cases ht : t = wildCard
  · simp only [if_pos ht, and_self]
  · simp only [if_neg ht]
    cases pm.exactMatchMap[t]? with
    | none => exact hw
    | some rp =>
      cases f.exact with
      | none => exact ⟨hw.1, congrArg (.create rp none :: ·) hw.2⟩
      | some pointer => exact ⟨rfl, rfl⟩

end Same

/-! ## The registrations of a plugin -/

theorem Registered.nil (pm : PluginManager) : Registered pm pm [] where
  new e he := by cases he
  exact k p := by simp
  wildCards := by simp

theorem Registered.cons {pm pm' : PluginManager} {key : Text} {p : RegisterParams}
    {entries : List (Text × RegisterParams)} (ha : pm.Accepts key p)
    (h : Registered (pm.add key p) pm' entries) : Registered pm pm' ((key, p) :: entries) where
  new e he hw := by
    rcases List.mem_cons.mp he with rfl | he
    · exact ha.free.resolve_left hw
    · have hn := h.new e he hw
      rw [Std.TreeMap.mem_iff_isSome_getElem?, add_exactMatchMap] at hn
      rw [Std.TreeMap.mem_iff_isSome_getElem?]
      split at hn
      · simp at hn
      · exact hn
  exact k q := by
    rw [h.exact, add_exactMatchMap, List.mem_cons, Prod.mk.injEq]
    by_cases hk : key ≠ wildCard ∧ k = key
    · obtain ⟨hw, rfl⟩ := hk
      have hnew : pm.exactMatchMap[k]? = none :=
        Std.TreeMap.getElem?_eq_none (ha.free.resolve_left hw)
      rw [if_pos ⟨hw, rfl⟩, hnew, Option.some.injEq]
      constructor
      · rintro (rfl | ⟨-, hm⟩)
        · exact .inr ⟨hw, .inl ⟨rfl, rfl⟩⟩
        · exact .inr ⟨hw, .inr hm⟩
      · rintro (h0 | ⟨-, ⟨-, rfl⟩ | hm⟩)
        · cases h0
        · exact .inl rfl
        · exact .inr ⟨hw, hm⟩
    · rw [if_neg hk]
      refine or_congr_right (and_congr_right fun hw => ?_)
      have hne : k ≠ key := fun e => hk ⟨e ▸ hw, e⟩
      simp [hne]
  wildCards := by
    rw [h.wildCards, add_wildCardVec, List.append_assoc]
    by_cases hk : key = wildCard <;> simp [hk]

theorem registerAll_cons (pm : PluginManager) (r : Registration) (rs : List Registration) :
    pm.registerAll (r :: rs) = (pm.registerObject r.objectType r.params).2.registerAll rs := rfl

theorem accepted_cons (pm : PluginManager) (r : Registration) (rs : List Registration) :
    pm.accepted (r :: rs) =
      (if (pm.registerObject r.objectType r.params).1 = 0 then r.entry.toList else []) ++
        (pm.registerObject r.objectType r.params).2.accepted rs := rfl

theorem registered_registerAll (pm : PluginManager) (rs : List Registration) :
    Registered pm (pm.registerAll rs) (pm.accepted rs) := by
  induction rs generalizing pm with
  | nil => exact .nil pm
  | cons r rs ih =>
    rw [registerAll_cons, accepted_cons]
    rcases registerObject_cases pm r with ⟨key, p, he, ha, hr⟩ | hr
    · rw [hr, he]
      exact .cons ha (ih _)
    · rw [hr]
      exact ih pm

theorem registerAll_frame (pm : PluginManager) (rs : List Registration) :
    (pm.registerAll rs).dynamicLibraryMap = pm.dynamicLibraryMap ∧
      (pm.registerAll rs).exitFuncVec = pm.exitFuncVec := by
  induction rs generalizing pm with
  | nil => exact ⟨rfl, rfl⟩
  | cons r rs ih =>
    rw [registerAll_cons]
    rcases registerObject_cases pm r with ⟨key, p, -, -, hr⟩ | hr
    · rw [hr]
      simpa using ih (pm.add key p)
    · rw [hr]
      exact ih pm

def withLibraries (pm : PluginManager) (m : Std.TreeMap Text DynamicLibrary) : PluginManager :=
  { pm with dynamicLibraryMap := m }

theorem accepts_withLibraries (pm : PluginManager) (m : Std.TreeMap Text DynamicLibrary)
    (key : Text) (p : RegisterParams) :
    (pm.withLibraries m).Accepts key p ↔ pm.Accepts key p :=
  ⟨fun ⟨hn, hu, hf⟩ => ⟨hn, ⟨hu.creates, hu.destroys, hu.version⟩, hf⟩,
    fun ⟨hn, hu, hf⟩ => ⟨hn, ⟨hu.creates, hu.destroys, hu.version⟩, hf⟩⟩

theorem add_withLibraries (pm : PluginManager) (m : Std.TreeMap Text DynamicLibrary)
    (key : Text) (p : RegisterParams) :
    (pm.withLibraries m).add key p = (pm.add key p).withLibraries m := by
  unfold add withLibraries
  split <;> rfl

theorem registerObject_withLibraries (pm : PluginManager) (m : Std.TreeMap Text DynamicLibrary)
    (r : Registration) :
    (pm.withLibraries m).registerObject r.objectType r.params =
      ((pm.registerObject r.objectType r.params).1,
        (pm.registerObject r.objectType r.params).2.withLibraries m) := by
  obtain ⟨_ | t, _ | p⟩ := r
  · rfl
  · rfl
  · rfl
  · by_cases ha : pm.Accepts (cstr t) p
    · rw [registerObject_of_accepts ha,
        registerObject_of_accepts ((accepts_withLibraries pm m _ _).mpr ha), add_withLibraries]
    · rw [registerObject_of_not_accepts ha,
        registerObject_of_not_accepts fun h => ha ((accepts_withLibraries pm m _ _).mp h)]

theorem accepted_withLibraries (pm : PluginManager) (m : Std.TreeMap Text DynamicLibrary)
    (rs : List Registration) : (pm.withLibraries m).accepted rs = pm.accepted rs := by
  induction rs generalizing pm with
  | nil => rfl
  | cons r rs ih => rw [accepted_cons, accepted_cons, registerObject_withLibraries, ih]

/-! ## The outcomes of a load -/

/-- The library `d` is loaded from the path, and put into the map under `key`. -/
def Loads (pm : PluginManager) (env : Environment) (pluginPath : Text) (key : Text)
    (d : DynamicLibrary) : Prop :=
  ∃ path, resolve env pluginPath = some path ∧ cstr path ∉ pm.dynamicLibraryMap ∧
    load env (cstr (makeAbsolute env path)) = some d ∧
    key = makeAbsolute env (cstr (makeAbsolute env path))

/-- No library is loaded and nothing changes, or one is loaded and its entry point is called. -/
theorem loadByPath_cases (pm : PluginManager) (env : Environment) (pluginPath : Text) :
    ((∀ key d, ¬ Loads pm env pluginPath key d) ∧ pm.loadByPath env pluginPath = (-1, pm)) ∨
    ∃ key d, Loads pm env pluginPath key d ∧
      pm.loadByPath env pluginPath =
        match d.initPlugin with
        | none => (-1, pm.withLibraries (pm.dynamicLibraryMap.insert key d))
        | some initFunc =>
          (pm.withLibraries (pm.dynamicLibraryMap.insert key d)).initializePlugin initFunc := by
  unfold loadByPath
  cases hr : resolve env pluginPath with
  | none =>
    refine .inl ⟨fun key d ⟨p, hp, _⟩ => ?_, rfl⟩
    rw [hr] at hp
    cases hp
  | some path =>
    by_cases hm : cstr path ∈ pm.dynamicLibraryMap
    · refine .inl ⟨fun key d ⟨p, hp, hn, _⟩ => ?_, if_pos hm⟩
      rw [hr, Option.some.injEq] at hp
      exact hn (hp ▸ hm)
    · cases hl : load env (cstr (makeAbsolute env path)) with
      | none =>
        refine .inl ⟨fun key d ⟨p, hp, _, hd, _⟩ => ?_, ?_⟩
        · rw [hr, Option.some.injEq] at hp
          rw [← hp, hl] at hd
          cases hd
        · simp only [if_neg hm, loadLibrary, hl]
      | some d =>
        refine .inr ⟨_, d, ⟨path, hr, hm, hl, rfl⟩, ?_⟩
        cases hi : d.initPlugin with
        | none => simp only [if_neg hm, loadLibrary, hl, hi, withLibraries]
        | some initFunc => simp only [if_neg hm, loadLibrary, hl, hi, withLibraries]

theorem Loads.unique {pm : PluginManager} {env : Environment} {pluginPath key key' : Text}
    {d d' : DynamicLibrary} (h : Loads pm env pluginPath key d)
    (h' : Loads pm env pluginPath key' d') : key' = key ∧ d' = d := by
  obtain ⟨path, hr, -, hl, rfl⟩ := h
  obtain ⟨path', hr', -, hl', rfl⟩ := h'
  rw [hr, Option.some.injEq] at hr'
  subst hr'
  rw [hl, Option.some.injEq] at hl'
  exact ⟨rfl, hl'.symm⟩

/-- The plugin that is loaded returns an exit function, and no library has its absolute path. -/
def Completes (pm : PluginManager) (env : Environment) (pluginPath : Text) : Prop :=
  ∀ key d, Loads pm env pluginPath key d →
    (∃ initFunc, d.initPlugin = some initFunc ∧ initFunc.exitFunc.isSome) ∧
      key ∉ pm.dynamicLibraryMap

/-- What the caller of `new` relies on: a new library object is none of those in the map. -/
def NewObjects (pm : PluginManager) (env : Environment) : Prop :=
  ∀ path d, env.dlopen path = some d →
    ∀ (k : Text) d', pm.dynamicLibraryMap[k]? = some d' → d'.object ≠ d.object

theorem Loads.changed {pm pm' : PluginManager} {env : Environment} {pluginPath key : Text}
    {d : DynamicLibrary} (h : Loads pm env pluginPath key d) (hnew : NewObjects pm env)
    (hm : pm'.dynamicLibraryMap = pm.dynamicLibraryMap.insert key d) : ¬ Same pm pm' := by
  intro hs
  obtain ⟨path, -, -, hl, -⟩ := h
  unfold load at hl
  split at hl
  · cases hl
  · have hk := hs.libraries key
    rw [hm, getElem?_insert, if_pos rfl] at hk
    exact hnew _ _ hl key d hk.symm rfl

theorem registerAll_libraries (pm : PluginManager) (m : Std.TreeMap Text DynamicLibrary)
    (rs : List Registration) : ((pm.withLibraries m).registerAll rs).dynamicLibraryMap = m :=
  (registerAll_frame (pm.withLibraries m) rs).1

/-- A load is all or nothing exactly if the library it loads initialises and is a new one. -/
theorem allOrNothing_iff {pm : PluginManager} {env : Environment} (hnew : NewObjects pm env)
    (pluginPath : Text) : AllOrNothing pm env pluginPath ↔ Completes pm env pluginPath := by
  refine ⟨fun h key d hl => ?_, fun h => ?_⟩
  · obtain ⟨hfail, hsucc⟩ := h
    rcases loadByPath_cases pm env pluginPath with ⟨hno, -⟩ | ⟨key', d', hl', hr⟩
    · exact absurd hl (hno key d)
    obtain ⟨rfl, rfl⟩ := hl.unique hl'
    rw [hr] at hfail hsucc
    cases hi : d'.initPlugin with
    | none =>
      simp only [hi] at hfail
      exact absurd (hfail (by decide)).1 (hl.changed hnew rfl)
    | some i =>
      cases he : i.exitFunc with
      | none =>
        simp only [hi, initializePlugin, he] at hfail
        exact absurd (hfail (by decide)).1 (hl.changed hnew (registerAll_libraries _ _ _))
      | some f =>
        refine ⟨⟨i, rfl, by rw [he]; rfl⟩, fun hin => ?_⟩
        simp only [hi, initializePlugin, he] at hsucc
        obtain ⟨d₀, _, _, key₀, hload⟩ := hsucc (by decide)
        have hk := hload.libraries key₀
        rw [registerAll_libraries, getElem?_insert, if_pos rfl] at hk
        by_cases hkey : key₀ = key'
        · exact hload.new (hkey ▸ hin)
        · rw [if_neg hkey, Std.TreeMap.getElem?_eq_none hload.new] at hk
          cases hk
  · rcases loadByPath_cases pm env pluginPath with ⟨-, hr⟩ | ⟨key, d, hl, hr⟩
    · refine ⟨fun _ => ?_, fun h0 => ?_⟩
      · rw [hr]
        exact ⟨.refl pm, (Same.refl pm).createsAlike⟩
      · rw [hr] at h0
        exact absurd h0 (by norm_num)
    · obtain ⟨⟨i, hi, he⟩, hkey⟩ := h key d hl
      obtain ⟨f, he⟩ := Option.isSome_iff_exists.mp he
      have hreg := registered_registerAll
        (pm.withLibraries (pm.dynamicLibraryMap.insert key d)) i.registrations
      have hframe := registerAll_frame
        (pm.withLibraries (pm.dynamicLibraryMap.insert key d)) i.registrations
      rw [accepted_withLibraries] at hreg
      simp only [hi, initializePlugin, he] at hr
      refine ⟨fun h0 => ?_, fun _ => ⟨d, i, f, key, hi, he, ?_, ?_, hkey, fun k => ?_⟩⟩
      · rw [hr] at h0
        exact absurd h0 (by simp)
      · rw [hr]
        exact ⟨hreg.new, hreg.exact, hreg.wildCards⟩
      · rw [hr, hframe.2]
        rfl
      · rw [hr, hframe.1]
        exact getElem?_insert _ _ _ _

def cppParams : RegisterParams := ⟨⟨1, 0⟩, some 1, some 2, .cpp⟩

/-- A file system whose only library registers the type "CPU" and returns the exit function. -/
def onePlugin (exitFunc : FuncPtr) : Environment where
  isSymbolicLink _ := false
  readlink _ := none
  getcwd := some (ascii "/")
  dlopen _ := some ⟨7, some ⟨[⟨some (ascii "CPU"), some cppParams⟩], exitFunc⟩⟩

theorem newObjects_initial (env : Environment) : NewObjects initial env := by
  intro path d _ k d' hk
  simp [initial] at hk

theorem allOrNothing_iff_sample :
    AllOrNothing initial (onePlugin (some 3)) (ascii "/plugins/system.so") :=
  (allOrNothing_iff (newObjects_initial _) _).mpr fun key d hl => by
    obtain ⟨path, -, -, hd, -⟩ := hl
    unfold load at hd
    split at hd
    · cases hd
    · cases hd
      exact ⟨⟨_, rfl, rfl⟩, by simp [initial]⟩

/-- The plugin reports that it failed, but its type is registered and its library in the map. -/
theorem failed_plugin_registered :
    (initial.loadByPath (onePlugin none) (ascii "/plugins/system.so")).1 = -1 ∧
      (initial.loadByPath (onePlugin none) (ascii "/plugins/system.so")).2.exactMatchMap[ascii "CPU"]?
        = some cppParams ∧
      ¬ AllOrNothing initial (onePlugin none) (ascii "/plugins/system.so") := by
  have hfail : (initial.loadByPath (onePlugin none) (ascii "/plugins/system.so")).1 = -1 := by
    decide
  have hexact : (initial.loadByPath (onePlugin none)
      (ascii "/plugins/system.so")).2.exactMatchMap[ascii "CPU"]? = some cppParams := by decide
  refine ⟨hfail, hexact, fun h => ?_⟩
  have hs := (h.failure (by rw [hfail]; decide)).1.exact (ascii "CPU")
  rw [hexact] at hs
  simp [initial] at hs

end PluginManager

end RecsDaemon
