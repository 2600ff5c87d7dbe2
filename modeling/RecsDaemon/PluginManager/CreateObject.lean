import RecsDaemon.PluginManager

/-!
# Falling back to the wild cards

`createObject` asks the exact match and then the wild cards, and registers the
wild card that delivers as the exact match of the type. If that is refused, the
object is destroyed and nothing returned: the refusal is a rule for plugins, and
hits a type whose exact match failed, or one without a name.
-/

namespace RecsDaemon

open Base

namespace PluginManager

/-! ## Specification -/

/-- The registrations for a type, in the order they are to be asked, with what they deliver. -/
def candidates (pm : PluginManager) (objectType : Text) (f : Factories) :
    List (RegisterParams × Option Nat) :=
  (pm.exactMatchMap[objectType]?.toList.map fun rp => (rp, f.exact)) ++
    pm.wildCardVec.zipIdx.map fun x => (x.1, f.wildCard x.2)

/-- The candidates up to the first that delivers. -/
def asked : List (RegisterParams × Option Nat) → List (RegisterParams × Option Nat)
  | [] => []
  | (rp, some pointer) :: _ => [(rp, some pointer)]
  | (rp, none) :: rest => (rp, none) :: asked rest

/-- The candidate an event asks. -/
def Event.candidate : Event → Option (RegisterParams × Option Nat)
  | .create rp object => some (rp, object)
  | .destroy _ _ => none

/-- A complete fallback that cleans up. -/
structure FallsBack (pm : PluginManager) (objectType : Text) (f : Factories) : Prop where
  returns : (pm.createObject objectType f).object.isSome ↔
    ∃ c ∈ pm.candidates objectType f, c.2.isSome
  order : (pm.createObject objectType f).events.filterMap Event.candidate =
    asked (pm.candidates objectType f)
  cleanUp : ∀ rp pointer, .create rp (some pointer) ∈ (pm.createObject objectType f).events →
    (pm.createObject objectType f).object = some (adapt rp pointer) ∨
      ∃ df object, .destroy df object ∈ (pm.createObject objectType f).events ∧
        object.pointer = pointer
  destroys : ∀ df object, .destroy df object ∈ (pm.createObject objectType f).events →
    ∃ rp pointer, .create rp (some pointer) ∈ (pm.createObject objectType f).events ∧
      df = rp.destroyFunc ∧ object = .raw pointer

/-- The wild card that delivers can become the exact match of the type. -/
def Promotable (pm : PluginManager) (objectType : Text) : Prop :=
  cstr objectType ≠ [] ∧ (cstr objectType = wildCard ∨ cstr objectType ∉ pm.exactMatchMap)

/-- The exact match delivers, or no wild card does, or the one that does can be promoted. -/
def Unhindered (pm : PluginManager) (objectType : Text) (f : Factories) : Prop :=
  (objectType ∈ pm.exactMatchMap ∧ f.exact.isSome) ∨
    (∀ i < pm.wildCardVec.length, f.wildCard i = none) ∨ pm.Promotable objectType

/-! ## Histories -/

inductive Call where
  | registerObject (r : Registration)
  | createObject (objectType : Text) (f : Factories)

def step (pm : PluginManager) : Call → Option PluginManager
  | .registerObject r => some (pm.registerObject r.objectType r.params).2
  | .createObject objectType f => some (pm.createObject objectType f).pm

/-- The wild cards of a plugin manager are registrations that were accepted. -/
def WildCardsUsable (pm : PluginManager) : Prop := ∀ rp ∈ pm.wildCardVec, pm.Usable rp

theorem Usable.congr {pm pm' : PluginManager} {p : RegisterParams} (h : pm.Usable p)
    (hv : pm'.version = pm.version) : pm'.Usable p :=
  ⟨h.creates, h.destroys, hv ▸ h.version⟩

theorem WildCardsUsable.add {pm : PluginManager} (h : pm.WildCardsUsable) {key : Text}
    {p : RegisterParams} (ha : pm.Accepts key p) : (pm.add key p).WildCardsUsable := by
  intro rp hrp
  rw [add_wildCardVec, List.mem_append] at hrp
  rcases hrp with hrp | hrp
  · exact (h rp hrp).congr (add_version pm key p)
  · split at hrp
    · rw [List.mem_singleton.mp hrp]
      exact ha.usable.congr (add_version pm key p)
    · cases hrp

theorem WildCardsUsable.registerObject {pm : PluginManager} (h : pm.WildCardsUsable)
    (r : Registration) : (pm.registerObject r.objectType r.params).2.WildCardsUsable := by
  rcases registerObject_cases pm r with ⟨key, p, -, ha, hr⟩ | hr
  · rw [hr]
    exact h.add ha
  · rw [hr]
    exact h

/-! ## The loop over the wild cards -/

def wildCandidates (f : Factories) (rps : List RegisterParams) (i : Nat) :
    List (RegisterParams × Option Nat) :=
  (rps.zipIdx i).map fun x => (x.1, f.wildCard x.2)

theorem wildCandidates_cons (f : Factories) (rp : RegisterParams) (rps : List RegisterParams)
    (i : Nat) :
    wildCandidates f (rp :: rps) i = (rp, f.wildCard i) :: wildCandidates f rps (i + 1) := rfl

/-- What becomes of the object a wild card delivers, after the candidates `before`. -/
def promoted (pm : PluginManager) (objectType : Text) (before : List (RegisterParams × Option Nat))
    (rp : RegisterParams) (pointer : Nat) : Creation :=
  let (res, pm') := pm.registerObject (some objectType) (some rp)
  if res < 0 then
    ⟨none, pm', before.map (fun c => .create c.1 c.2) ++
      [.create rp (some pointer), .destroy rp.destroyFunc (adapt rp pointer)]⟩
  else
    ⟨some (adapt rp pointer), pm', before.map (fun c => .create c.1 c.2) ++
      [.create rp (some pointer)]⟩

/-- No candidate delivers, or the first that does is a wild card, and to be promoted. -/
def Outcome (pm : PluginManager) (objectType : Text) (cs : List (RegisterParams × Option Nat))
    (r : Creation) : Prop :=
  ((∀ c ∈ cs, c.2 = none) ∧ r = ⟨none, pm, cs.map fun c => .create c.1 c.2⟩) ∨
    ∃ before rp pointer after, cs = before ++ (rp, some pointer) :: after ∧
      (∀ c ∈ before, c.2 = none) ∧ rp ∈ pm.wildCardVec ∧
      r = pm.promoted objectType before rp pointer

theorem Outcome.cons {pm : PluginManager} {t : Text} {cs : List (RegisterParams × Option Nat)}
    {r : Creation} (h : Outcome pm t cs r) (rp : RegisterParams) :
    Outcome pm t ((rp, none) :: cs) { r with events := .create rp none :: r.events } := by
  rcases h with ⟨hno, rfl⟩ | ⟨before, rp', pointer, after, rfl, hb, hm, rfl⟩
  · exact .inl ⟨List.forall_mem_cons.mpr ⟨rfl, hno⟩, rfl⟩
  · refine .inr ⟨(rp, none) :: before, rp', pointer, after, rfl,
      List.forall_mem_cons.mpr ⟨rfl, hb⟩, hm, ?_⟩
    simp only [promoted]
    split <;> rfl

theorem tryWildCards_outcome (pm : PluginManager) (t : Text) (f : Factories)
    {rps : List RegisterParams} (hrps : ∀ rp ∈ rps, rp ∈ pm.wildCardVec) (i : Nat) :
    Outcome pm t (wildCandidates f rps i) (pm.tryWildCards t f rps i) := by
  induction rps generalizing i with
  | nil => exact .inl ⟨by simp [wildCandidates], rfl⟩
  | cons rp rps ih =>
    have hrest := ih (fun rp' h => hrps rp' (List.mem_cons_of_mem _ h)) (i + 1)
    rw [wildCandidates_cons]
    unfold tryWildCards
    cases hf : f.wildCard i with
    | none => exact hrest.cons rp
    | some pointer =>
      exact .inr ⟨[], rp, pointer, _, rfl, by simp, hrps rp (by simp), rfl⟩

theorem candidates_eq (pm : PluginManager) (t : Text) (f : Factories) :
    pm.candidates t f = (pm.exactMatchMap[t]?.toList.map fun rp => (rp, f.exact)) ++
      wildCandidates f pm.wildCardVec 0 := rfl

/-- The exact match delivers, or the loop goes through the candidates. -/
theorem createObject_outcome (pm : PluginManager) {t : Text} (ht : t ≠ wildCard) (f : Factories) :
    (∃ rp pointer, pm.exactMatchMap[t]? = some rp ∧ f.exact = some pointer ∧
      pm.createObject t f = ⟨some (adapt rp pointer), pm, [.create rp (some pointer)]⟩) ∨
    (¬ (t ∈ pm.exactMatchMap ∧ f.exact.isSome) ∧
      Outcome pm t (pm.candidates t f) (pm.createObject t f)) := by
  have hw := pm.tryWildCards_outcome t f (fun _ h => h) 0
  rw [candidates_eq, Std.TreeMap.mem_iff_isSome_getElem?]
  unfold createObject
  rw [if_neg ht]
  cases pm.exactMatchMap[t]? with
  | none => exact .inr ⟨by simp, hw⟩
  | some rp =>
    cases hf : f.exact with
    | none => exact .inr ⟨by simp, hw.cons rp⟩
    | some pointer => exact .inl ⟨rp, pointer, rfl, rfl, rfl⟩

theorem createObject_pm (pm : PluginManager) (t : Text) (f : Factories) :
    (pm.createObject t f).pm = pm ∨
      ∃ rp ∈ pm.wildCardVec, (pm.createObject t f).pm =
        (pm.registerObject (some t) (some rp)).2 := by
  by_cases ht : t = wildCard
  · unfold createObject
    rw [if_pos ht]
    exact .inl rfl
  · rcases createObject_outcome pm ht f with ⟨rp, pointer, -, -, hr⟩ |
      ⟨-, ⟨-, hr⟩ | ⟨before, rp, pointer, after, -, -, hm, hr⟩⟩
    · rw [hr]; exact .inl rfl
    · rw [hr]; exact .inl rfl
    · refine .inr ⟨rp, hm, ?_⟩
      rw [hr]
      unfold promoted
      dsimp only
      split <;> rfl

theorem wildCardsUsable_reached {pm : PluginManager} (h : Reaches step initial pm) :
    pm.WildCardsUsable := by
  refine h.induct (fun pm call pm' hI hs => ?_) (fun rp hrp => by simp [initial] at hrp)
  cases call with
  | registerObject r =>
    cases hs
    exact hI.registerObject r
  | createObject t f =>
    cases hs
    rcases createObject_pm pm t f with hp | ⟨rp, -, hp⟩
    · rw [hp]; exact hI
    · rw [hp]; exact hI.registerObject ⟨some t, some rp⟩

/-! ## The candidates that are asked -/

theorem asked_of_none {cs : List (RegisterParams × Option Nat)} (h : ∀ c ∈ cs, c.2 = none) :
    asked cs = cs := by
  induction cs with
  | nil => rfl
  | cons c cs ih =>
    obtain ⟨hc, hcs⟩ := List.forall_mem_cons.mp h
    obtain ⟨rp, object⟩ := c
    cases hc
    rw [asked, ih hcs]

theorem asked_append {before : List (RegisterParams × Option Nat)} (h : ∀ c ∈ before, c.2 = none)
    (rp : RegisterParams) (pointer : Nat) (after : List (RegisterParams × Option Nat)) :
    asked (before ++ (rp, some pointer) :: after) = before ++ [(rp, some pointer)] := by
  induction before with
  | nil => rfl
  | cons c before ih =>
    obtain ⟨hc, hbefore⟩ := List.forall_mem_cons.mp h
    obtain ⟨rp', object⟩ := c
    cases hc
    rw [List.cons_append, asked, ih hbefore, List.cons_append]

theorem filterMap_create (cs : List (RegisterParams × Option Nat)) :
    (cs.map fun c => Event.create c.1 c.2).filterMap Event.candidate = cs := by
  induction cs with
  | nil => rfl
  | cons c cs ih => simp [Event.candidate, ih]

theorem delivers_of_mem {before : List (RegisterParams × Option Nat)}
    (h : ∀ c ∈ before, c.2 = none) {e : Event} (he : e ∈ before.map fun c => Event.create c.1 c.2) :
    ∃ rp, e = .create rp none := by
  obtain ⟨c, hc, rfl⟩ := List.mem_map.mp he
  exact ⟨c.1, by rw [h c hc]⟩

/-! ## The fallback -/

/-- A promotion of a usable wild card is accepted exactly for a type that is free. -/
theorem accepts_iff_promotable {pm : PluginManager} {rp : RegisterParams} (hu : pm.Usable rp)
    (t : Text) : pm.Accepts (cstr t) rp ↔ pm.Promotable t :=
  ⟨fun h => ⟨h.named, h.free⟩, fun h => ⟨h.1, hu, h.2⟩⟩

theorem promoted_of_promotable {pm : PluginManager} {t : Text} {rp : RegisterParams}
    (hu : pm.Usable rp) (hp : pm.Promotable t) (before : List (RegisterParams × Option Nat))
    (pointer : Nat) :
    pm.promoted t before rp pointer = ⟨some (adapt rp pointer), pm.add (cstr t) rp,
      before.map (fun c => .create c.1 c.2) ++ [.create rp (some pointer)]⟩ := by
  rw [promoted, registerObject_of_accepts ((accepts_iff_promotable hu t).mpr hp)]
  rfl

theorem promoted_of_not_promotable {pm : PluginManager} {t : Text} {rp : RegisterParams}
    (hu : pm.Usable rp) (hp : ¬ pm.Promotable t) (before : List (RegisterParams × Option Nat))
    (pointer : Nat) : (pm.promoted t before rp pointer).object = none := by
  rw [promoted, registerObject_of_not_accepts fun h => hp ((accepts_iff_promotable hu t).mp h)]
  rfl

theorem wildCandidates_none {f : Factories} {rps : List RegisterParams} :
    (∀ c ∈ wildCandidates f rps 0, c.2 = none) ↔ ∀ i < rps.length, f.wildCard i = none := by
  unfold wildCandidates
  simp only [List.mem_map, forall_exists_index, and_imp, forall_apply_eq_imp_iff₂]
  refine ⟨fun h i hi => h (rps[i], i) ?_, fun h x hx => h x.2 ?_⟩
  · simp [List.mem_zipIdx_iff_getElem?]
  · have hlt := List.snd_lt_of_mem_zipIdx hx
    omega

section

variable {pm : PluginManager} {t : Text} {f : Factories}

theorem fallsBack_of_exact {rp : RegisterParams} {pointer : Nat}
    (hrp : pm.exactMatchMap[t]? = some rp) (hf : f.exact = some pointer)
    (hr : pm.createObject t f = ⟨some (adapt rp pointer), pm, [.create rp (some pointer)]⟩) :
    FallsBack pm t f := by
  have hcs : pm.candidates t f = (rp, some pointer) :: wildCandidates f pm.wildCardVec 0 := by
    rw [candidates_eq, hrp, hf]
    rfl
  refine ⟨?_, ?_, ?_, ?_⟩
  · rw [hr, hcs]
    simp
  · rw [hr, hcs]
    rfl
  · rw [hr]
    rintro rp' pointer' hm
    cases List.mem_singleton.mp hm
    exact .inl rfl
  · rw [hr]
    rintro df object hm
    cases List.mem_singleton.mp hm

theorem fallsBack_of_none (hno : ∀ c ∈ pm.candidates t f, c.2 = none)
    (hr : pm.createObject t f =
      ⟨none, pm, (pm.candidates t f).map fun c => .create c.1 c.2⟩) : FallsBack pm t f := by
  refine ⟨?_, ?_, ?_, ?_⟩
  · rw [hr]
    refine ⟨fun h => (by cases h), fun ⟨c, hc, hs⟩ => ?_⟩
    rw [hno c hc] at hs
    cases hs
  · rw [hr, filterMap_create, asked_of_none hno]
  · rw [hr]
    intro rp pointer hm
    obtain ⟨rp', he⟩ := delivers_of_mem hno hm
    cases he
  · rw [hr]
    intro df object hm
    obtain ⟨rp', he⟩ := delivers_of_mem hno hm
    cases he

/-- The wild card that delivers first is promoted. -/
theorem fallsBack_of_promoted {before after : List (RegisterParams × Option Nat)}
    {rp : RegisterParams} {pointer : Nat}
    (hcs : pm.candidates t f = before ++ (rp, some pointer) :: after)
    (hb : ∀ c ∈ before, c.2 = none)
    (hr : pm.createObject t f = ⟨some (adapt rp pointer), pm.add (cstr t) rp,
      before.map (fun c => .create c.1 c.2) ++ [.create rp (some pointer)]⟩) :
    FallsBack pm t f := by
  refine ⟨?_, ?_, ?_, ?_⟩
  · rw [hr, hcs]
    exact iff_of_true rfl ⟨(rp, some pointer), by simp, rfl⟩
  · rw [hr, hcs, asked_append hb, List.filterMap_append, filterMap_create]
    rfl
  · rw [hr]
    intro rp' pointer' hm
    rcases List.mem_append.mp hm with hm | hm
    · obtain ⟨rp'', he⟩ := delivers_of_mem hb hm
      cases he
    · cases List.mem_singleton.mp hm
      exact .inl rfl
  · rw [hr]
    intro df object hm
    rcases List.mem_append.mp hm with hm | hm
    · obtain ⟨rp'', he⟩ := delivers_of_mem hb hm
      cases he
    · cases List.mem_singleton.mp hm

end

/-- In every reached registry the fallback is complete exactly if no promotion is refused. -/
theorem fallsBack_iff {pm : PluginManager} (h : Reaches step initial pm) {t : Text}
    (ht : t ≠ wildCard) (f : Factories) : FallsBack pm t f ↔ Unhindered pm t f := by
  have husable := wildCardsUsable_reached h
  rcases createObject_outcome pm ht f with ⟨rp, pointer, hrp, hf, hr⟩ |
    ⟨hexact, ⟨hno, hr⟩ | ⟨before, rp, pointer, after, hcs, hb, hm, hr⟩⟩
  · have hmem : t ∈ pm.exactMatchMap := by
      rw [Std.TreeMap.mem_iff_isSome_getElem?, hrp]
      rfl
    exact iff_of_true (fallsBack_of_exact hrp hf hr) (.inl ⟨hmem, by rw [hf]; rfl⟩)
  · refine iff_of_true (fallsBack_of_none hno hr) (.inr (.inl ?_))
    rw [candidates_eq] at hno
    exact wildCandidates_none.mp fun c hc => hno c (List.mem_append_right _ hc)
  · by_cases hp : pm.Promotable t
    · rw [promoted_of_promotable (husable rp hm) hp] at hr
      exact iff_of_true (fallsBack_of_promoted hcs hb hr) (.inr (.inr hp))
    · have hnone := promoted_of_not_promotable (husable rp hm) hp before pointer
      have hin : (rp, some pointer) ∈ pm.candidates t f := by
        rw [hcs]
        simp
      refine iff_of_false (fun hfb => ?_) ?_
      · have hs := hfb.returns.mpr ⟨_, hin, rfl⟩
        rw [hr, hnone] at hs
        cases hs
      · rintro (he | hw | hpr)
        · exact hexact he
        · rw [candidates_eq, List.mem_append] at hin
          rcases hin with hin | hin
          · obtain ⟨rp', hrp', he⟩ := List.mem_map.mp hin
            rw [Prod.mk.injEq] at he
            refine hexact ⟨?_, by rw [he.2]; rfl⟩
            rw [Std.TreeMap.mem_iff_isSome_getElem?, Option.mem_toList.mp hrp']
            rfl
          · exact absurd (wildCandidates_none.mpr hw _ hin) (by simp)
        · exact hp hpr

def cpuParams : RegisterParams := ⟨⟨1, 0⟩, some 1, some 2, .cpp⟩

def wildParams : RegisterParams := ⟨⟨1, 0⟩, some 3, some 4, .c⟩

/-- The exact match fails, the first wild card delivers the pointer 5. -/
def onlyWildCard : Factories := ⟨none, fun i => if i = 0 then some 5 else none⟩

def exactAndWild : PluginManager :=
  initial.registerAll [⟨some (ascii "CPU"), some cpuParams⟩, ⟨some wildCard, some wildParams⟩]

theorem reaches_exactAndWild : Reaches step initial exactAndWild :=
  ⟨[.registerObject ⟨some (ascii "CPU"), some cpuParams⟩,
    .registerObject ⟨some wildCard, some wildParams⟩], rfl⟩

/-- A type without an exact match falls back to the wild card. -/
theorem fallsBack_iff_sample : FallsBack exactAndWild (ascii "Memory") onlyWildCard :=
  (fallsBack_iff reaches_exactAndWild (by decide) _).mpr
    (.inr (.inr ⟨by decide, .inr (by decide)⟩))

/-- After the exact match failed, the object of the wild card is destroyed as its adapter, and
nothing is returned. -/
theorem failed_exact_match_returns_nothing :
    Reaches step initial exactAndWild ∧
      (exactAndWild.createObject (ascii "CPU") onlyWildCard).object = none ∧
      (exactAndWild.createObject (ascii "CPU") onlyWildCard).events =
        [.create cpuParams none, .create wildParams (some 5),
          .destroy (some 4) (.adapted 5 (some 4))] ∧
      ¬ FallsBack exactAndWild (ascii "CPU") onlyWildCard := by
  have hnone : (exactAndWild.createObject (ascii "CPU") onlyWildCard).object = none := by decide
  refine ⟨reaches_exactAndWild, hnone, by decide, fun h => ?_⟩
  have hs := h.returns.mpr ⟨(wildParams, some 5), by decide, rfl⟩
  rw [hnone] at hs
  cases hs

end PluginManager

end RecsDaemon
