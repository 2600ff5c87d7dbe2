import RecsDaemon.Base.System

/-!
# Threads

A `Thread` is started and stopped by the one that owns it. The new thread sets
`running` under the mutex when it begins to execute, `stop` clears it and then
joins the thread named by `mThreadId`; if `running` is not set, it does not wait.
So a thread that has not come to the mutex yet executes after `stop` returned, and
of two threads only the last is waited for.
-/

namespace RecsDaemon

open Base

namespace Thread

/-! ## Model -/

/-- How far a thread is: before its section in `Run`, in `execute`, or behind it. -/
inductive Phase where
  | created | executing | ended
deriving DecidableEq

/-- Where the owner is: outside, or in `stop` behind its section. -/
inductive Owner where
  | outside | joining
deriving DecidableEq

end Thread

/-- A thread object. Its threads are numbered in the order they were created in. -/
structure Thread where
  running : Bool
  /-- The thread it names, `none` where it is no thread of the object. -/
  mThreadId : Option Nat
  threads : List Thread.Phase
  owner : Thread.Owner
  /-- How many threads there were when a `stop` last returned. -/
  stopped : Nat
deriving DecidableEq

namespace Thread

/-- `Thread::Thread`: `mThreadId` is the thread of the owner. -/
def init : Thread := ⟨false, none, [], .outside, 0⟩

inductive Event where
  /-- `start`. -/
  | start
  /-- `start`, where `pthread_create` fails and leaves this in `mThreadId`. -/
  | startFails (mThreadId : Option Nat)
  /-- `stop`, up to the end of its section. -/
  | stop
  /-- `pthread_join` returns, and `stop`. -/
  | join
  /-- The section of a thread in `Run`, and what `setup` returns there. -/
  | run (t : Nat) (setup : Bool)
  /-- `execute` returns, by itself or because it saw `running` cleared. -/
  | executeEnds (t : Nat)

/-- `pthread_join(mThreadId)` returns when the thread has ended; joining oneself is an error. -/
def joinReturns (s : Thread) : Prop := ∀ t, s.mThreadId = some t → s.threads[t]? = some .ended

instance (s : Thread) : Decidable s.joinReturns :=
  match h : s.mThreadId with
  | none => .isTrue fun t ht => by rw [h] at ht; cases ht
  | some t =>
    decidable_of_iff (s.threads[t]? = some .ended)
      ⟨fun he u hu => by rw [h] at hu; cases hu; exact he, fun hj => hj t h⟩

def runSection (s : Thread) (t : Nat) (setup : Bool) : Thread :=
  if !s.running then
    if setup then { s with running := true, threads := s.threads.set t .executing }
    else { s with threads := s.threads.set t .ended }
  else { s with threads := s.threads.set t .ended }

def step (s : Thread) : Event → Option Thread
  | .start =>
    if s.owner = .outside then
      some { s with threads := s.threads ++ [.created], mThreadId := some s.threads.length }
    else none
  | .startFails mThreadId =>
    if s.owner = .outside then some { s with mThreadId := mThreadId } else none
  | .stop =>
    if s.owner = .outside then
      if s.running then some { s with running := false, owner := .joining }
      else some { s with stopped := s.threads.length }
    else none
  | .join =>
    if s.owner = .joining ∧ s.joinReturns then
      some { s with owner := .outside, stopped := s.threads.length }
    else none
  | .run t setup =>
    if s.threads[t]? = some .created then some (s.runSection t setup) else none
  | .executeEnds t =>
    if s.threads[t]? = some .executing then some { s with threads := s.threads.set t .ended }
    else none

/-! ## What `stop` is to guarantee -/

/-- No thread executes that was there when `stop` returned. -/
def Over (s : Thread) : Prop := ∀ t < s.stopped, s.threads[t]? ≠ some .executing

/-- `stop` is called when every thread has ended but the one it waits for. -/
def Stoppable (s : Thread) (e : Event) : Prop :=
  e = .stop → ∀ t p, s.threads[t]? = some p → p = .ended ∨ s.running = true ∧ s.mThreadId = some t

/-- What holds as long as every `stop` is called so. -/
structure Settled (s : Thread) : Prop where
  past : ∀ t < s.stopped, s.threads[t]? = some .ended
  outside : s.owner = .outside → ∀ t : Nat, s.threads[t]? = some .executing → s.running = true
  joining : s.owner = .joining →
    ∀ t p, s.threads[t]? = some p → p = .ended ∨ s.mThreadId = some t

theorem settled_init : Settled init := by
  refine ⟨fun t ht => absurd ht (Nat.not_lt_zero t), fun _ t ht => ?_, fun h => (by cases h)⟩
  simp [init] at ht

variable {s s' : Thread}

theorem Settled.over (h : Settled s) : Over s := fun t ht he => by
  rw [h.past t ht] at he
  cases he

theorem getElem?_set_of_some {ps : List Phase} {t : Nat} {q : Phase} (ht : ps[t]? = some q)
    (p : Phase) (u : Nat) : (ps.set t p)[u]? = if u = t then some p else ps[u]? := by
  obtain ⟨hlt, -⟩ := List.getElem?_eq_some_iff.mp ht
  rw [List.getElem?_set]
  by_cases hu : u = t
  · subst hu
    rw [if_pos rfl, if_pos hlt, if_pos rfl]
  · rw [if_neg (Ne.symm hu), if_neg hu]

theorem getElem?_append_created {ps : List Phase} {t : Nat} {p : Phase}
    (h : (ps ++ [.created])[t]? = some p) : ps[t]? = some p ∨ t = ps.length ∧ p = .created := by
  rcases Nat.lt_trichotomy t ps.length with hlt | rfl | hgt
  · rw [List.getElem?_append_left hlt] at h
    exact .inl h
  · rw [List.getElem?_concat_length, Option.some.injEq] at h
    exact .inr ⟨rfl, h.symm⟩
  · rw [List.getElem?_eq_none (by simp; omega)] at h
    cases h

/-! ## The steps -/

theorem Settled.ends (h : Settled s) {t : Nat} {q : Phase} (ht : s.threads[t]? = some q) :
    Settled { s with threads := s.threads.set t .ended } := by
  have hset := getElem?_set_of_some ht .ended
  refine ⟨fun u hu => ?_, fun ho u hu => ?_, fun ho u p hu => ?_⟩
  · rw [hset]
    split
    · rfl
    · exact h.past u hu
  · rw [hset] at hu
    split at hu
    · cases hu
    · exact h.outside ho u hu
  · rw [hset] at hu
    split at hu
    · cases hu
      exact .inl rfl
    · exact h.joining ho u p hu

/-- A thread that begins to execute is behind the last `stop`, and the one a `stop` waits for. -/
theorem Settled.executes (h : Settled s) {t : Nat} (ht : s.threads[t]? = some .created) :
    Settled { s with running := true, threads := s.threads.set t .executing } := by
  have hset := getElem?_set_of_some ht .executing
  refine ⟨fun u hu => ?_, fun _ _ _ => rfl, fun ho u p hu => ?_⟩
  · have hne : u ≠ t := fun e => by
      rw [← e, h.past u hu] at ht
      cases ht
    rw [hset, if_neg hne]
    exact h.past u hu
  · rw [hset] at hu
    split at hu
    · next hut => exact .inr (hut ▸ (h.joining ho t _ ht).resolve_left (by decide))
    · exact h.joining ho u p hu

theorem Settled.run (h : Settled s) {t : Nat} (ht : s.threads[t]? = some .created)
    (setup : Bool) : Settled (s.runSection t setup) := by
  unfold runSection
  split
  · split
    · exact h.executes ht
    · exact h.ends ht
  · exact h.ends ht

theorem Settled.start (h : Settled s) (ho : s.owner = .outside) :
    Settled { s with threads := s.threads ++ [.created], mThreadId := some s.threads.length } := by
  refine ⟨fun u hu => ?_, fun _ u hu => ?_, fun hj => ?_⟩
  · obtain ⟨hlt, -⟩ := List.getElem?_eq_some_iff.mp (h.past u hu)
    rw [List.getElem?_append_left hlt]
    exact h.past u hu
  · rcases getElem?_append_created hu with hu | ⟨-, hu⟩
    · exact h.outside ho u hu
    · cases hu
  · exact absurd (ho.symm.trans hj) (by decide)

/-- A `stop` that returns leaves no thread that has not ended. -/
theorem settled_returned (hall : ∀ (t : Nat) p, s.threads[t]? = some p → p = .ended) :
    Settled { s with owner := .outside, stopped := s.threads.length } := by
  refine ⟨fun u hu => ?_, fun _ u hu => ?_, fun hj => (by cases hj)⟩
  · have hget := List.getElem?_eq_getElem hu
    exact hget.trans (congrArg some (hall u _ hget))
  · cases hall u _ hu

theorem Settled.step {e : Event} (h : Settled s) (hc : Stoppable s e) (hs : s.step e = some s') :
    Settled s' := by
  cases e with
  | start =>
    simp only [Thread.step, Option.ite_none_right_eq_some, Option.some.injEq] at hs
    obtain ⟨ho, rfl⟩ := hs
    exact h.start ho
  | startFails mThreadId =>
    simp only [Thread.step, Option.ite_none_right_eq_some, Option.some.injEq] at hs
    obtain ⟨ho, rfl⟩ := hs
    exact ⟨h.past, h.outside, fun hj => absurd (ho.symm.trans hj) (by decide)⟩
  | stop =>
    have hstop := hc rfl
    simp only [Thread.step, Option.ite_none_right_eq_some] at hs
    obtain ⟨ho, hs⟩ := hs
    split at hs
    · cases hs
      exact ⟨h.past, fun hj => (by cases hj), fun _ t p ht => (hstop t p ht).imp_right And.right⟩
    · next hr =>
      have hall : ∀ (t : Nat) p, s.threads[t]? = some p → p = .ended := fun t p ht =>
        (hstop t p ht).resolve_right fun hrun => hr hrun.1
      cases hs
      have hret := settled_returned hall
      rwa [← ho] at hret
  | join =>
    simp only [Thread.step, Option.ite_none_right_eq_some, Option.some.injEq] at hs
    obtain ⟨⟨hj, hret⟩, rfl⟩ := hs
    apply settled_returned
    intro t p ht
    rcases h.joining hj t p ht with hp | hm
    · exact hp
    · rw [hret t hm] at ht
      cases ht
      rfl
  | run t setup =>
    simp only [Thread.step, Option.ite_none_right_eq_some, Option.some.injEq] at hs
    obtain ⟨ht, rfl⟩ := hs
    exact h.run ht setup
  | executeEnds t =>
    simp only [Thread.step, Option.ite_none_right_eq_some, Option.some.injEq] at hs
    obtain ⟨ht, rfl⟩ := hs
    exact h.ends ht

/-! ## Runs -/

/-- In every run that calls `stop` only so, no thread executes that was there when it returned. -/
theorem over_of_stoppable {es : List Event} (h : Along step Stoppable init es) :
    Always step Over init es :=
  (h.always (fun _ _ _ hI hC hs => hI.step hC hs) settled_init).mono fun _ hI => hI.over

/-- A thread that had not ended when `stop` returned can come to execute. -/
theorem reaches_not_over {t : Nat} {p : Phase} (hr : s.running = false) (hlt : t < s.stopped)
    (ht : s.threads[t]? = some p) (hp : p ≠ .ended) : ∃ s', Reaches step s s' ∧ ¬ Over s' := by
  cases p with
  | created =>
    refine ⟨s.runSection t true, (Reaches.refl s).tail (e := .run t true) (if_pos ht), fun ho => ?_⟩
    have hrun : s.runSection t true =
        { s with running := true, threads := s.threads.set t .executing } := by
      simp [runSection, hr]
    rw [hrun] at ho
    exact ho t hlt (by rw [getElem?_set_of_some ht, if_pos rfl])
  | executing => exact ⟨s, .refl s, fun ho => ho t hlt ht⟩
  | ended => exact absurd rfl hp

/-- The thread that `stop` waits for can end, and the others stay where they are. -/
theorem reaches_joined (hr : s.running = false) (ho : s.owner = .joining)
    (hm : ∀ m, s.mThreadId = some m → m < s.threads.length) :
    ∃ s', Reaches step s s' ∧ s'.running = false ∧ s'.stopped = s.threads.length ∧
      ∀ t, s.mThreadId ≠ some t → s'.threads[t]? = s.threads[t]? := by
  cases hid : s.mThreadId with
  | none =>
    have hj : s.joinReturns := fun t ht => by rw [hid] at ht; cases ht
    exact ⟨_, (Reaches.refl s).tail (e := .join) (if_pos ⟨ho, hj⟩), hr, rfl, fun _ _ => rfl⟩
  | some m =>
    obtain ⟨q, hget⟩ : ∃ q, s.threads[m]? = some q :=
      ⟨_, List.getElem?_eq_getElem (hm m hid)⟩
    let ended : Thread := { s with threads := s.threads.set m .ended }
    have hends : Reaches step s ended := by
      cases q with
      | created =>
        apply (Reaches.refl s).tail (e := .run m false)
        simp [step, hget, runSection, hr, ended]
      | executing =>
        apply (Reaches.refl s).tail (e := .executeEnds m)
        simp [step, hget, ended]
      | ended =>
        have hsame : ended = s := by
          have hset : s.threads.set m .ended = s.threads := List.ext_getElem? fun t => by
            rw [getElem?_set_of_some hget]
            split
            · next ht => rw [ht, hget]
            · rfl
          simp [ended, hset]
        rw [hsame]
        exact .refl s
    have hset := getElem?_set_of_some hget .ended
    have hj : ended.joinReturns := fun t ht => by
      have htm : m = t := Option.some.inj (hid.symm.trans ht)
      rw [show ended.threads[t]? = _ from hset t, if_pos htm.symm]
    refine ⟨_, hends.tail (e := .join) (if_pos ⟨ho, hj⟩), hr, List.length_set, fun t ht => ?_⟩
    rw [show ended.threads[t]? = _ from hset t, if_neg fun e => ht (by rw [e])]

/-- The condition is exact: after a `stop` that is called otherwise, a thread can execute. -/
theorem unstoppable_not_over (ho : s.owner = .outside)
    (hm : ∀ m, s.mThreadId = some m → m < s.threads.length) (hc : ¬ Stoppable s .stop) :
    ∃ s₁ s', s.step .stop = some s₁ ∧ Reaches step s₁ s' ∧ ¬ Over s' := by
  simp only [Stoppable, true_imp_iff, not_forall, not_or, not_and] at hc
  obtain ⟨t, p, ht, hp, hother⟩ := hc
  obtain ⟨hlt, -⟩ := List.getElem?_eq_some_iff.mp ht
  cases hr : s.running with
  | false =>
    obtain ⟨s', hs, hover⟩ := reaches_not_over (s := { s with stopped := s.threads.length })
      hr hlt ht hp
    exact ⟨_, s', by simp [step, ho, hr], hs, hover⟩
  | true =>
    obtain ⟨s₂, hs₂, hr₂, hstop, hsame⟩ := reaches_joined
      (s := { s with running := false, owner := .joining }) rfl rfl hm
    obtain ⟨s', hs, hover⟩ := reaches_not_over (p := p) hr₂ (by rw [hstop]; exact hlt)
      (by rw [hsame t (hother hr)]; exact ht) hp
    refine ⟨_, s', ?_, hs₂.trans hs, hover⟩
    simp [step, ho, hr]

/-- One thread that executes, is stopped and ends. -/
theorem over_of_stoppable_sample :
    Always step Over init [.start, .run 0 true, .stop, .executeEnds 0, .join] :=
  over_of_stoppable (by
    simp only [Along, Stoppable, step, init, runSection]
    simp
    intro t p ht
    cases t with
    | zero => exact .inr rfl
    | succ t => simp at ht)

/-- A thread is created, `stop` returns before the thread comes to its section, and it executes. -/
theorem executes_after_stop :
    exec step init [.start, .stop, .run 0 true] =
        some ⟨true, some 0, [.executing], .outside, 1⟩ ∧
      ¬ Always step Over init [.start, .stop, .run 0 true] := by
  refine ⟨rfl, fun h => ?_⟩
  exact h _ _ (List.prefix_refl _) rfl 0 (by decide) rfl

end Thread

end RecsDaemon
