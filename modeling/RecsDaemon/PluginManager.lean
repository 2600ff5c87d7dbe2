import RecsDaemon.Messages
import RecsDaemon.Base.Map
import RecsDaemon.Base.System

/-!
# The plugin manager

Plugins are shared libraries. `loadByPath` loads one and calls its
`PF_initPlugin`, which registers the object types the plugin provides;
`createObject` asks the registrations for an object of a type. The file system,
the loader, what a plugin does in its entry point and what its factories return
are inputs.
-/

namespace RecsDaemon

open Base

/-! ## Registrations -/

/-- A function of a plugin; the pointers in its registrations may be null. -/
abbrev FuncPtr := Option Nat

inductive ProgrammingLanguage where
  | c | cpp
deriving DecidableEq

structure PluginAPIVersion where
  major : Int32
  minor : Int32
deriving DecidableEq

structure RegisterParams where
  version : PluginAPIVersion
  createFunc : FuncPtr
  destroyFunc : FuncPtr
  programmingLanguage : ProgrammingLanguage
deriving DecidableEq

/-- A call of `registerObject`: both arguments are pointers of a plugin. -/
structure Registration where
  objectType : Option Text
  params : Option RegisterParams
deriving DecidableEq

/-- The entry a call of `registerObject` is to make. -/
def Registration.entry (r : Registration) : Option (Text × RegisterParams) :=
  r.objectType.bind fun t => r.params.map fun p => (cstr t, p)

/-- A `PF_initPlugin`: the registrations it makes, and the exit function it returns. -/
structure InitFunc where
  registrations : List Registration
  exitFunc : FuncPtr
deriving DecidableEq

/-- A library object: where it lies, and what `getSymbol("PF_initPlugin")` finds in it. -/
structure DynamicLibrary where
  object : Nat
  initPlugin : Option InitFunc
deriving DecidableEq

structure PluginManager where
  version : PluginAPIVersion
  dynamicLibraryMap : Std.TreeMap Text DynamicLibrary
  exitFuncVec : List Nat
  exactMatchMap : Std.TreeMap Text RegisterParams
  wildCardVec : List RegisterParams

namespace PluginManager

/-- `PluginManager::PluginManager`. -/
def initial : PluginManager := ⟨⟨1, 0⟩, ∅, [], ∅, []⟩

def wildCard : Text := ascii "*"

def isValid (objectType : Option Text) (params : Option RegisterParams) : Bool :=
  match objectType, params with
  | some t, some p => !(cstr t).isEmpty && p.createFunc.isSome && p.destroyFunc.isSome
  | _, _ => false

/-- `registerObject`, with the plugin manager after it. -/
def registerObject (pm : PluginManager) (objectType : Option Text) (params : Option RegisterParams) :
    Int × PluginManager :=
  match objectType, params with
  | some t, some p =>
    if !isValid objectType params then (-1, pm)
    else if pm.version.major ≠ p.version.major then (-1, pm)
    else
      let key := cstr t
      if key = wildCard then (0, { pm with wildCardVec := pm.wildCardVec ++ [p] })
      else if key ∈ pm.exactMatchMap then (-1, pm)
      else (0, { pm with exactMatchMap := pm.exactMatchMap.insert key p })
  | _, _ => (-1, pm)

/-! ## Loading -/

def registerAll (pm : PluginManager) (rs : List Registration) : PluginManager :=
  rs.foldl (fun pm r => (pm.registerObject r.objectType r.params).2) pm

def initializePlugin (pm : PluginManager) (initFunc : InitFunc) : Int × PluginManager :=
  let pm := pm.registerAll initFunc.registrations
  match initFunc.exitFunc with
  | none => (-1, pm)
  | some exitFunc => (0, { pm with exitFuncVec := pm.exitFuncVec ++ [exitFunc] })

/-- What the operating system answers. -/
structure Environment where
  isSymbolicLink : Text → Bool
  readlink : Text → Option Text
  getcwd : Option Text
  /-- The handle `dlopen` returns, in a new library object. -/
  dlopen : Text → Option DynamicLibrary

def sep : UInt8 := 47

def getCWD (env : Environment) : Text := cstr (env.getcwd.getD [])

def isAbsolute (path : Text) : Bool := path.head? = some sep

def makeAbsolute (env : Environment) (path : Text) : Text :=
  if isAbsolute path then path
  else
    let cwd := getCWD env
    if cwd.isPrefixOf path then path
    else
      -- `find_last_of` of an empty path is `npos`, as its length minus one
      let cwd := if path.getLast?.getD sep = sep then cwd.dropLast else cwd
      if path.head? = some sep then cwd ++ path else cwd ++ [sep] ++ path

def load (env : Environment) (path : Text) : Option DynamicLibrary :=
  if path = [] then none else env.dlopen path

def loadLibrary (pm : PluginManager) (env : Environment) (path : Text) :
    Option (DynamicLibrary × PluginManager) :=
  match load env path with
  | none => none
  | some d =>
    some (d, { pm with dynamicLibraryMap := pm.dynamicLibraryMap.insert (makeAbsolute env path) d })

/-- The path with a symbolic link resolved once. -/
def resolve (env : Environment) (pluginPath : Text) : Option Text :=
  if env.isSymbolicLink (cstr pluginPath) then
    (env.readlink (cstr pluginPath)).map (·.take 1024)
  else some pluginPath

/-- `loadByPath`, with the plugin manager after it. -/
def loadByPath (pm : PluginManager) (env : Environment) (pluginPath : Text) : Int × PluginManager :=
  match resolve env pluginPath with
  | none => (-1, pm)
  | some path =>
    -- a `Path` is turned into a string over its `const char*`
    if cstr path ∈ pm.dynamicLibraryMap then (-1, pm)
    else
      match pm.loadLibrary env (cstr (makeAbsolute env path)) with
      | none => (-1, pm)
      | some (d, pm) =>
        match d.initPlugin with
        | none => (-1, pm)
        | some initFunc => pm.initializePlugin initFunc

/-! ## Creating objects -/

/-- An object, as `createFunc` returned it or wrapped by `ObjectAdapter::adapt`. -/
inductive Object where
  | raw (pointer : Nat)
  | adapted (pointer : Nat) (destroyFunc : FuncPtr)
deriving DecidableEq

/-- The pointer `createFunc` returned. -/
def Object.pointer : Object → Nat
  | raw p => p
  | adapted p _ => p

/-- A call of a plugin's function: a creation with what it returns, a destruction. -/
inductive Event where
  | create (rp : RegisterParams) (object : Option Nat)
  | destroy (destroyFunc : FuncPtr) (object : Object)
deriving DecidableEq

/-- What the factories of a call return: the exact match's, and each wild card's. -/
structure Factories where
  exact : Option Nat
  wildCard : Nat → Option Nat

/-- The result of `createObject`, the plugin manager after it, and the calls it made. -/
structure Creation where
  object : Option Object
  pm : PluginManager
  events : List Event

/-- Wrap the objects of C plugins. -/
def adapt (rp : RegisterParams) (object : Nat) : Object :=
  match rp.programmingLanguage with
  | .c => .adapted object rp.destroyFunc
  | .cpp => .raw object

/-- The loop over the wild cards, from the `i`-th on. -/
def tryWildCards (pm : PluginManager) (objectType : Text) (f : Factories) :
    List RegisterParams → Nat → Creation
  | [], _ => ⟨none, pm, []⟩
  | rp :: rps, i =>
    match f.wildCard i with
    | none =>
      let r := tryWildCards pm objectType f rps (i + 1)
      { r with events := .create rp none :: r.events }
    | some pointer =>
      let object := adapt rp pointer
      let (res, pm) := pm.registerObject (some objectType) (some rp)
      if res < 0 then
        ⟨none, pm, [.create rp (some pointer), .destroy rp.destroyFunc object]⟩
      else ⟨some object, pm, [.create rp (some pointer)]⟩

def createObject (pm : PluginManager) (objectType : Text) (f : Factories) : Creation :=
  if objectType = wildCard then ⟨none, pm, []⟩
  else
    match pm.exactMatchMap[objectType]? with
    | some rp =>
      match f.exact with
      | some pointer => ⟨some (adapt rp pointer), pm, [.create rp (some pointer)]⟩
      | none =>
        let r := pm.tryWildCards objectType f pm.wildCardVec 0
        { r with events := .create rp none :: r.events }
    | none => pm.tryWildCards objectType f pm.wildCardVec 0

/-! ## What a registration changes -/

/-- The functions of a registration are there, and its version is the framework's. -/
structure Usable (pm : PluginManager) (p : RegisterParams) : Prop where
  creates : p.createFunc.isSome
  destroys : p.destroyFunc.isSome
  version : pm.version.major = p.version.major

/-- What `registerObject` accepts: only one plugin can handle a type, but any number the rest. -/
structure Accepts (pm : PluginManager) (key : Text) (p : RegisterParams) : Prop where
  named : key ≠ []
  usable : pm.Usable p
  free : key = wildCard ∨ key ∉ pm.exactMatchMap

def add (pm : PluginManager) (key : Text) (p : RegisterParams) : PluginManager :=
  if key = wildCard then { pm with wildCardVec := pm.wildCardVec ++ [p] }
  else { pm with exactMatchMap := pm.exactMatchMap.insert key p }

@[simp] theorem add_version (pm : PluginManager) (key : Text) (p : RegisterParams) :
    (pm.add key p).version = pm.version := by
  unfold add; split <;> rfl

@[simp] theorem add_dynamicLibraryMap (pm : PluginManager) (key : Text) (p : RegisterParams) :
    (pm.add key p).dynamicLibraryMap = pm.dynamicLibraryMap := by
  unfold add; split <;> rfl

@[simp] theorem add_exitFuncVec (pm : PluginManager) (key : Text) (p : RegisterParams) :
    (pm.add key p).exitFuncVec = pm.exitFuncVec := by
  unfold add; split <;> rfl

theorem add_wildCardVec (pm : PluginManager) (key : Text) (p : RegisterParams) :
    (pm.add key p).wildCardVec = pm.wildCardVec ++ if key = wildCard then [p] else [] := by
  unfold add; split <;> simp

theorem add_exactMatchMap (pm : PluginManager) (key : Text) (p : RegisterParams) (k : Text) :
    (pm.add key p).exactMatchMap[k]? =
      if key ≠ wildCard ∧ k = key then some p else pm.exactMatchMap[k]? := by
  unfold add
  split
  · next h => simp [h]
  · next h => simp [h, getElem?_insert]

theorem isValid_iff (t : Text) (p : RegisterParams) :
    isValid (some t) (some p) = true ↔ cstr t ≠ [] ∧ p.createFunc.isSome ∧ p.destroyFunc.isSome := by
  simp [isValid, and_assoc]

theorem registerObject_of_accepts {pm : PluginManager} {t : Text} {p : RegisterParams}
    (h : pm.Accepts (cstr t) p) :
    pm.registerObject (some t) (some p) = (0, pm.add (cstr t) p) := by
  have hv := (isValid_iff t p).mpr ⟨h.named, h.usable.creates, h.usable.destroys⟩
  simp only [registerObject, hv, h.usable.version, add]
  by_cases hk : cstr t = wildCard
  · simp [hk]
  · simp [hk, h.free.resolve_left hk]

theorem registerObject_of_not_accepts {pm : PluginManager} {t : Text} {p : RegisterParams}
    (h : ¬ pm.Accepts (cstr t) p) : pm.registerObject (some t) (some p) = (-1, pm) := by
  unfold registerObject
  by_cases hv : isValid (some t) (some p)
  · by_cases hm : pm.version.major = p.version.major
    · have hn := (isValid_iff t p).mp hv
      have hf : ¬ (cstr t = wildCard ∨ cstr t ∉ pm.exactMatchMap) := fun hf =>
        h ⟨hn.1, ⟨hn.2.1, hn.2.2, hm⟩, hf⟩
      simp only [not_or, not_not] at hf
      simp [hv, hm, hf.1, hf.2]
    · simp [hv, hm]
  · simp [hv]

/-- A call is accepted and adds its entry, or is refused and changes nothing. -/
theorem registerObject_cases (pm : PluginManager) (r : Registration) :
    (∃ key p, r.entry = some (key, p) ∧ pm.Accepts key p ∧
      pm.registerObject r.objectType r.params = (0, pm.add key p)) ∨
    pm.registerObject r.objectType r.params = (-1, pm) := by
  obtain ⟨_ | t, _ | p⟩ := r
  · exact .inr rfl
  · exact .inr rfl
  · exact .inr rfl
  · by_cases h : pm.Accepts (cstr t) p
    · exact .inl ⟨cstr t, p, rfl, h, registerObject_of_accepts h⟩
    · exact .inr (registerObject_of_not_accepts h)

end PluginManager

end RecsDaemon
