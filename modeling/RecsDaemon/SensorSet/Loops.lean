import RecsDaemon.SensorSet
import RecsDaemon.JSONSensorsParser.Kinds
import RecsDaemon.Base.Counter

/-!
# The loops that set up the sensors

The constructor and `getSensors` count with a `uint16_t` against an `int` and a
`size_t`. From 65536 on the counter wraps around before it reaches the bound. The
model of both, a fold and an error for the endless case, is what the loops do.
-/

namespace RecsDaemon

open Base

/-! ## The manual sensors -/

namespace SensorSet

/-- `Config::GetInt` of a configured integer; what is outside an `int` becomes its next value. -/
def getInt (configured : Int) : Int := max (-2 ^ 31) (min (2 ^ 31 - 1) configured)

/-- The loop over the manual sensors, with the sensors so far. -/
def manualLoop (cfg : SensorsConfig) (fac : Factories) (fuel : Nat) :
    Option (Ending Fault SensorMap) :=
  forLoop 16 cfg.count (fun i m => .ok (addManualSensor cfg fac m i)) fuel 0 ∅

theorem manualLoop_result {cfg : SensorsConfig} {fac : Factories} {fuel : Nat}
    {r : Ending Fault SensorMap} (h : manualLoop cfg fac fuel = some r) :
    r.result = .ok ((List.range cfg.count.toNat).foldl (addManualSensor cfg fac) ∅) := by
  unfold manualLoop at h
  rw [forLoop_toNat] at h
  have hm : cfg.count.toNat < 2 ^ 16 := by
    by_contra hge
    obtain ⟨_, _, e, -, he, -⟩ := forLoop_narrow (by omega) (by decide) h
    cases he
  have hr := forLoop_result hm (Nat.zero_le _) h
  rw [Nat.sub_zero, ← List.range_eq_range'] at hr
  rw [hr]
  exact List.foldlM_pure

/-- The loop never ends where the constructor is modelled as endless. -/
theorem manualLoop_endless (cfg : SensorsConfig) (h : 65535 < cfg.count) (fac : Factories)
    (fuel : Nat) : manualLoop cfg fac fuel = none := by
  apply Option.eq_none_iff_forall_ne_some.mpr
  intro r hr
  obtain ⟨_, _, e, -, he, -⟩ := forLoop_narrow (by omega) (by decide) hr
  cases he

end SensorSet

/-! ## The elements of a description -/

namespace JSONSensorsParser

open Json

/-- The body of the loop over the description, with the sensors made so far. -/
def considerElement (pf : Platform) (parser : Text) (elems : List Value) (i : Nat)
    (done : List (Text × Sensor)) : Except Fault (List (Text × Sensor)) :=
  match parseSensor pf (.bean parser done.length) (elems.getD i .null) with
  | .error e => .error e
  | .ok none => .ok done
  | .ok (some s) => .ok (done ++ [s])

def elementsLoop (pf : Platform) (parser : Text) (elems : List Value) (fuel : Nat) :
    Option (Ending Fault (List (Text × Sensor))) :=
  forLoop 16 elems.length (considerElement pf parser elems) fuel 0 []

variable {pf : Platform} {parser : Text} {elems : List Value}

theorem considerElement_ok {i : Nat} (h : readable (elems.getD i .null) = true)
    (done : List (Text × Sensor)) : ∃ done', considerElement pf parser elems i done = .ok done' := by
  unfold considerElement
  rcases parseSensor_cases pf (.bean parser done.length) (elems.getD i .null) with
    ⟨hr, -⟩ | ⟨-, -, hp⟩ | ⟨-, p, -, hp⟩
  · rw [h] at hr
    cases hr
  · exact ⟨done, by rw [hp]⟩
  · exact ⟨done ++ [p], by rw [hp]⟩

theorem readable_of_ok {i : Nat} {done done' : List (Text × Sensor)}
    (h : considerElement pf parser elems i done = .ok done') :
    readable (elems.getD i .null) = true := by
  unfold considerElement at h
  rcases parseSensor_cases pf (.bean parser done.length) (elems.getD i .null) with
    ⟨-, hp⟩ | ⟨hr, -⟩ | ⟨hr, -⟩
  · rw [hp] at h
    cases h
  · exact hr
  · exact hr

theorem considerElement_error {i : Nat} {done : List (Text × Sensor)} {e : Fault}
    (h : considerElement pf parser elems i done = .error e) :
    readable (elems.getD i .null) = false ∧ e = .json := by
  unfold considerElement at h
  rcases parseSensor_cases pf (.bean parser done.length) (elems.getD i .null) with
    ⟨hr, hp⟩ | ⟨-, -, hp⟩ | ⟨-, p, -, hp⟩
  · rw [hp] at h
    cases h
    exact ⟨hr, rfl⟩
  · rw [hp] at h
    cases h
  · rw [hp] at h
    cases h

/-- The rounds of the loop over a part of the description are `parseSensors` of it. -/
theorem parseSensors_eq_fold {i k : Nat} (h : i + k ≤ elems.length)
    (done : List (Text × Sensor)) :
    parseSensors pf parser ((elems.drop i).take k) done =
      (List.range' i k).foldlM (fun done j => considerElement pf parser elems j done) done := by
  induction k generalizing i done with
  | zero => rfl
  | succ k ih =>
    have hi : i < elems.length := by omega
    have hget : elems.getD i .null = elems[i] := by
      rw [List.getD_eq_getElem?_getD, List.getElem?_eq_getElem hi, Option.getD_some]
    rw [List.drop_eq_getElem_cons hi, List.take_succ_cons, List.range'_succ, List.foldlM_cons,
      parseSensors, considerElement, hget]
    cases parseSensor pf (.bean parser done.length) elems[i] with
    | error e => rfl
    | ok s =>
      cases s with
      | none => exact ih (by omega) done
      | some s => exact ih (by omega) (done ++ [s])

theorem elementsLoop_result {fuel : Nat} {r : Ending Fault (List (Text × Sensor))}
    (h : elementsLoop pf parser elems fuel = some r) :
    r.result = parseElements pf parser elems := by
  unfold parseElements
  by_cases hl : elems.length < 65536
  · have hr := forLoop_result hl (Nat.zero_le _) h
    have hfold := @parseSensors_eq_fold pf parser elems 0 elems.length (by omega) []
    rw [List.drop_zero, List.take_of_length_le (Nat.le_refl _)] at hfold
    rw [Nat.sub_zero, ← hfold] at hr
    rw [hr, List.take_of_length_le (Nat.le_of_lt hl)]
    cases parseSensors pf parser elems [] with
    | error e => rfl
    | ok done => rw [ok_bind, if_pos hl]; rfl
  · obtain ⟨j, done, e, hj, he, hr⟩ := forLoop_narrow (by omega) (by decide) h
    obtain ⟨hbad, rfl⟩ := considerElement_error he
    have hj' : j < elems.length := by omega
    rw [List.getD_eq_getElem?_getD, List.getElem?_eq_getElem hj', Option.getD_some] at hbad
    have hmem : elems[j] ∈ elems.take 65536 := by
      rw [List.mem_take_iff_getElem]
      exact ⟨j, by omega, rfl⟩
    rw [hr, parseSensors_error ⟨_, hmem, hbad⟩]
    rfl

/-- Where the loop never ends `parseElements` is endless. -/
theorem parseElements_endless (h : ∀ fuel, elementsLoop pf parser elems fuel = none) :
    parseElements pf parser elems = .error .endless := by
  have hl : ¬ elems.length < 65536 := fun hl => by
    have hfold := @parseSensors_eq_fold pf parser elems 0 elems.length (by omega) []
    cases hp : parseSensors pf parser ((elems.drop 0).take elems.length) [] with
    | error e =>
      rw [hp] at hfold
      obtain ⟨fuel, visited, hr⟩ := @forLoop_of_fold_error _ _ 16 elems.length _ 0 _ elems.length
        (by omega) (by omega) _ hfold.symm
      exact absurd ((h fuel).symm.trans hr) (by simp)
    | ok done =>
      rw [hp] at hfold
      have hr := forLoop_of_fold (w := 16) hl (Nat.zero_add _) hfold.symm
      exact absurd ((h _).symm.trans hr) (by simp)
  have hfold := @parseSensors_eq_fold pf parser elems 0 65536 (by omega) []
  rw [List.drop_zero] at hfold
  unfold parseElements
  cases hp : parseSensors pf parser (elems.take 65536) [] with
  | error e =>
    rw [hp] at hfold
    obtain ⟨fuel, visited, hr⟩ := @forLoop_of_fold_error _ _ 16 elems.length _ 0 _ 65536
      (by omega) (by omega) _ hfold.symm
    exact absurd ((h fuel).symm.trans hr) (by simp)
  | ok done => rw [ok_bind, if_neg hl]; rfl

theorem elementsLoop_visitsEach :
    VisitsEach (elementsLoop pf parser elems) elems.length ↔
      elems.length ≤ 65535 ∧ ∀ v ∈ elems, readable v = true := by
  have hiff : VisitsEach (elementsLoop pf parser elems) elems.length ↔
      elems.length < 2 ^ 16 ∧ ∀ j < elems.length, readable (elems.getD j .null) = true :=
    visitsEach_iff (fun j => readable (elems.getD j .null) = true)
      (fun _ done h => considerElement_ok h done) (fun _ _ _ h => readable_of_ok h) elems.length []
  refine hiff.trans (and_congr Nat.lt_succ_iff ⟨fun h v hv => ?_, fun h j hj => ?_⟩)
  · obtain ⟨j, hj⟩ := List.mem_iff_getElem?.mp hv
    have hlt := (List.getElem?_eq_some_iff.mp hj).1
    have hread := h j hlt
    rwa [List.getD_eq_getElem?_getD, hj, Option.getD_some] at hread
  · rw [List.getD_eq_getElem?_getD, List.getElem?_eq_getElem hj, Option.getD_some]
    exact h _ (List.getElem_mem hj)

end JSONSensorsParser

/-! ## Both loops -/

namespace SensorSet

open Json JSONSensorsParser

theorem manualLoop_visitsEach (cfg : SensorsConfig) (fac : Factories) (configured : Int) :
    VisitsEach (manualLoop { cfg with count := getInt configured } fac) configured.toNat ↔
      configured ≤ 65535 := by
  unfold getInt
  refine ⟨fun h => ?_, fun h => ?_⟩
  · by_contra hgt
    obtain ⟨fuel, s, hr⟩ := h
    rw [manualLoop_endless _ (by dsimp only; omega)] at hr
    cases hr
  · have hm : configured.toNat = (max (-2 ^ 31) (min (2 ^ 31 - 1) configured)).toNat := by omega
    unfold manualLoop
    simp only [forLoop_toNat 16 (max _ _)]
    rw [hm]
    exact (visitsEach_iff (fun _ => True) (fun _ _ _ => ⟨_, rfl⟩) (fun _ _ _ _ => trivial) _ _).mpr
      ⟨by omega, fun _ _ => trivial⟩

/-- The loop of the constructor ends with each index visited exactly up to a count of 65535, the
loop of `getSensors` exactly for so many elements, all of them readable. -/
theorem setUpLoops_iff (cfg : SensorsConfig) (fac : Factories) (configured : Int) (pf : Platform)
    (parser : Text) (elems : List Value) :
    (VisitsEach (manualLoop { cfg with count := getInt configured } fac) configured.toNat ↔
        configured ≤ 65535) ∧
      (VisitsEach (elementsLoop pf parser elems) elems.length ↔
        elems.length ≤ 65535 ∧ ∀ v ∈ elems, readable v = true) :=
  ⟨manualLoop_visitsEach cfg fac configured, elementsLoop_visitsEach⟩

/-- The loop over 65536 configured sensors never ends. -/
theorem manual_sensors_endless :
    (∀ fuel, manualLoop { SensorsConfig.sample 0 with count := getInt 65536 } .sample fuel = none) ∧
      ¬ VisitsEach (manualLoop { SensorsConfig.sample 0 with count := getInt 65536 } .sample)
        65536 := by
  have hnone := manualLoop_endless { SensorsConfig.sample 0 with count := getInt 65536 } (by decide)
    .sample
  refine ⟨hnone, fun ⟨fuel, s, hs⟩ => ?_⟩
  rw [hnone] at hs
  cases hs

end SensorSet

end RecsDaemon
