import Joblib.Threads.Loop

/-! Aborting a running call.

The callbacks test `_aborting` under the lock before they register or dispatch anything.
The loop of `_get_outputs` tests it at its bottom only. So what an abort does depends on
where it finds the loop: at a point from which the loop reaches its bottom without
dispatching, an exception being there to raise, nothing more is dispatched and the
generator raises (`abort_safe`); elsewhere the loop goes on to dispatch, or to its end
(`late_abort_dispatches`). -/
namespace Joblib.System

variable {α ε : Type} {host : Host α ε}

/-- From this point the loop reaches its bottom without a dispatch. -/
def ReachesBottom (completed dispatched : Nat) : Pc → Prop
  | .retrieving | .suspended | .counting | .clearing | .bottom | .raising => True
  | .loopIterating | .loopCompleted | .ifCompleted => completed < dispatched
  | .loopDispatched c => c < dispatched ∧ completed < dispatched
  | .ifDispatched c => c < dispatched
  | _ => False

/-- The generator has ended, or will raise at the bottom of its loop once the flag is set. -/
def Doomed (s : System α ε) : Prop :=
  s.main = .finished ∨ s.main = .raised ∨
    s.parallel.backend.firstException.isSome = true ∧
      ReachesBottom s.parallel.nCompletedTasks s.parallel.nDispatchedTasks s.main

/-- What is promised of a step taken with the flag set: no dispatch, no task taken, no result
registered, and no end but by raising the exception. -/
structure Halted (s : System α ε) (a : Action α ε) (t : System α ε) : Prop where
  dispatch : ¬ (a = .main ∧ s.main = .dispatching)
  dispatches : t.dispatches = s.dispatches
  iterator : t.parallel.originalIterator = s.parallel.originalIterator
  jobs : t.parallel.jobs = s.parallel.jobs
  callbacks : t.trackers.map Tracker.callback = s.trackers.map Tracker.callback
  finishes : t.main = .finished → s.main = .finished
  raises : a = .main → s.main = .raising →
    t.main = .raised ∧ ∃ e, s.parallel.backend.firstException = some e ∧ Generator.raiseErrorFast s.parallel = some e

/-- An abort finds the generator doomed, and no call begins with the flag set. -/
def AbortsInTime (s : System α ε) (a : Action α ε) (_ : System α ε) : Prop :=
  (a = .abort → s.Doomed) ∧ ∀ iterable, a = .start iterable → s.parallel.aborting = false

/-! ### Steps with the flag set -/

section Aborting
variable {s t : System α ε}

/-- Replacing an element by one with the same callback changes no callback. -/
theorem map_callback_set {trackers : List (Tracker α ε)} {i : Nat} {old new : Tracker α ε}
    (hold : trackers[i]? = some old) (hnew : new.callback = old.callback) :
    (trackers.set i new).map Tracker.callback = trackers.map Tracker.callback := by
  apply List.ext_getElem?
  intro j
  rw [List.map_set, List.getElem?_set, List.getElem?_map, List.length_map]
  by_cases hij : i = j
  · subst hij
    have hlt := (List.getElem?_eq_some_iff.mp hold).1
    rw [if_pos rfl, if_pos hlt, hold, hnew]
    rfl
  · simp [hij]

/-- A tracker invoked with the flag set writes nothing. -/
theorem entered_aborting (haborting : s.parallel.aborting = true) (i : Nat) (tracker : Tracker α ε) (success : Bool)
    (result : Obj α ε) :
    ∃ pc, s.entered i tracker success result = {s with trackers := s.trackers.set i {tracker with pc := pc}} := by
  have hrefused : ¬ BatchCompletionCallBack.Accepted tracker.callback.parallelCallId s.parallel := by
    rintro ⟨_, _, hclear⟩
    rw [haborting] at hclear
    cases hclear
  unfold entered
  rw [BatchCompletionCallBack.enter_refused hrefused]
  exact ⟨_, rfl⟩

/-- A step of a tracker. -/
theorem Halted.tracker {a : Action α ε} (ha : a ≠ .main) {i : Nat} {old new : Tracker α ε}
    (hold : s.trackers[i]? = some old) (hnew : new.callback = old.callback) :
    Halted s a {s with trackers := s.trackers.set i new} where
  dispatch h := ha h.1
  dispatches := rfl
  iterator := rfl
  jobs := rfl
  callbacks := map_callback_set hold hnew
  finishes h := h
  raises h := absurd h ha

theorem ReachesBottom.inCall {completed dispatched : Nat} {pc : Pc} (h : ReachesBottom completed dispatched pc) :
    InCall pc := by
  cases pc <;> simp_all [ReachesBottom, InCall, Pc.inLoop]

/-- The main thread of a doomed generator. -/
theorem Doomed.mainStep (h : s.Doomed) (haborting : s.parallel.aborting = true) (ht : s.mainStep host = some t) :
    t.Doomed ∧ t.parallel.aborting = true ∧ Halted s .main t := by
  rcases h with hmain | hmain | ⟨hexception, hpoint⟩
  · simp [System.mainStep, hmain] at ht
  · simp [System.mainStep, hmain] at ht
  · cases mainStep_loop hpoint.inCall ht with
    | dispatches hmain =>
      rw [hmain] at hpoint
      exact hpoint.elim
    | counts hmain | clears hmain =>
      exact ⟨.inr (.inr ⟨hexception, trivial⟩), haborting,
        ⟨by simp [hmain], rfl, rfl, rfl, rfl, by simp, by simp [hmain]⟩⟩
    | @goes pc hgoes =>
      have hraises : Generator.raiseErrorFast s.parallel = s.parallel.backend.firstException := by
        simp [Generator.raiseErrorFast, haborting]
      have hdispatching : s.main ≠ .dispatching := by
        intro hmain
        rw [hmain] at hpoint
        exact hpoint.elim
      have hraising : s.main = .raising → pc = .raised := by
        intro hmain
        rw [hmain] at hgoes
        cases hgoes with
        | raises => rfl
        | loopsAnyway hnone =>
          rw [hraises, hexception] at hnone
          cases hnone
      have hnext : pc = .raised ∨ ReachesBottom s.parallel.nCompletedTasks s.parallel.nDispatchedTasks pc := by
        generalize s.main = before at hgoes hpoint
        cases hgoes <;> simp only [ReachesBottom] at hpoint ⊢ <;> grind
      refine ⟨.inr (hnext.imp_right fun hpoint' => ⟨hexception, hpoint'⟩), haborting, ?_⟩
      refine ⟨fun h => hdispatching h.2, rfl, rfl, rfl, rfl, fun hfinished => ?_, fun _ hmain => ⟨hraising hmain, ?_⟩⟩
      · obtain rfl : pc = .finished := hfinished
        rcases hnext with hraised | hpoint'
        · cases hraised
        · exact hpoint'.elim
      · obtain ⟨e, he⟩ := Option.isSome_iff_exists.mp hexception
        exact ⟨e, he, hraises.trans he⟩

/-- Step: a doomed generator stays so, and nothing is dispatched or registered. -/
theorem Doomed.step {a : Action α ε} (h : s.Doomed) (haborting : s.parallel.aborting = true)
    (ha : ∀ iterable, a ≠ .start iterable) (ht : s.step host a = some t) :
    t.Doomed ∧ t.parallel.aborting = true ∧ Halted s a t := by
  cases a with
  | start iterable => exact absurd rfl (ha iterable)
  | main => exact h.mainStep haborting ht
  | retrieve raises =>
    obtain ⟨hmain, rfl⟩ := step_retrieve ht
    rcases h with hfinished | hraised | ⟨hexception, _⟩
    · rw [hmain] at hfinished
      cases hfinished
    · rw [hmain] at hraised
      cases hraised
    · refine ⟨?_, haborting, ⟨by simp, rfl, rfl, rfl, rfl, ?_, by simp⟩⟩
      · cases raises with
        | true => exact .inr (.inl rfl)
        | false => exact .inr (.inr ⟨hexception, trivial⟩)
      · cases raises <;> simp
  | enter i success result =>
    obtain ⟨tracker, htracker, rfl⟩ := step_enter ht
    obtain ⟨pc, hsame⟩ := entered_aborting haborting i tracker success result
    rw [hsame]
    exact ⟨h, haborting, .tracker (by simp) htracker rfl⟩
  | dispatchNew i =>
    obtain ⟨tracker, htracker, rfl⟩ := step_dispatchNew ht
    rw [dispatchedNew_aborting haborting]
    exact ⟨h, haborting, .tracker (by simp) htracker rfl⟩
  | abort =>
    obtain rfl := Option.some.inj ht
    exact ⟨h, rfl, ⟨by simp, rfl, rfl, rfl, rfl, fun h => h, by simp⟩⟩

end Aborting

/-- **In every run whose aborts come in time, nothing is dispatched or registered once the flag
is set, and the generator ends only by raising.** -/
theorem abort_safe (host : Host α ε) {s : System α ε} (hs : s.parallel.aborting = false)
    {actions : List (Action α ε)} (hguard : Runs.Every (step host) AbortsInTime s actions) :
    Runs.Every (step host) (fun s a t => s.parallel.aborting = true → Halted s a t) s actions := by
  refine Runs.every_of_guarded (I := fun s => s.parallel.aborting = true → s.Doomed) ?_ (fun h => ?_) hguard
  · intro s a t hinv ht hintime
    cases haborting : s.parallel.aborting with
    | false =>
      refine ⟨fun hset => ?_, fun h => by cases h⟩
      by_cases ha : a = .abort
      · subst ha
        obtain rfl := Option.some.inj ht
        exact hintime.1 rfl
      · rw [step_aborting ht haborting ha] at hset
        cases hset
    | true =>
      have hstart (iterable : Iterable (Item α ε) ε) : a ≠ .start iterable := by
        intro heq
        have hclear := hintime.2 iterable heq
        rw [haborting] at hclear
        cases hclear
      obtain ⟨hdoomed, _, hhalted⟩ := (hinv haborting).step haborting hstart ht
      exact ⟨fun _ => hdoomed, fun _ => hhalted⟩
  · rw [hs] at h
    cases h

/-- An instance whose backend has a task's exception to show. -/
def failing : Parallel Nat Empty :=
  .created 2 (.count 1) .list
    {Backend.idle "LokyBackend" true with firstException := some (.runtimeError "task failed")} true

/-- The call is aborted while its first result is with the caller. -/
def aborted : List (Action Nat Empty) :=
  .start (.ofList oneTask) :: List.replicate 17 .main ++ .retrieve false :: .abort :: List.replicate 4 .main

theorem abort_safe_suspended :
    (Runs.run (step (.plain Nat Empty)) (created failing) aborted).map main = some .raised ∧
      Runs.Every (step (.plain Nat Empty)) (fun s a t => s.parallel.aborting = true → Halted s a t)
        (created failing) aborted := by
  refine ⟨rfl, abort_safe (.plain Nat Empty) rfl ?_⟩
  -- the call begins with the flag clear, and the abort finds the generator suspended
  intro s hs
  obtain rfl := Option.some.inj hs
  refine ⟨⟨fun h => (by cases h), fun _ _ => rfl⟩, .append (.of_forall_mem ?_ _) ?_⟩
  · rintro s a t ha
    obtain rfl := List.eq_of_mem_replicate ha
    exact ⟨fun h => (by cases h), fun _ h => by cases h⟩
  · intro s hs
    obtain rfl := Option.some.inj hs
    intro t ht
    refine ⟨⟨fun h => (by cases h), fun _ h => by cases h⟩, ?_⟩
    obtain rfl := Option.some.inj ht
    intro u hu
    refine ⟨⟨fun _ => .inr (.inr ⟨rfl, trivial⟩), fun _ h => by cases h⟩, .of_forall_mem ?_ _⟩
    rintro s a t ha
    obtain rfl := List.eq_of_mem_replicate ha
    exact ⟨fun h => (by cases h), fun _ h => by cases h⟩

/-! The call is aborted at the head of the loop, nothing dispatched yet: the loop goes on to
dispatch before it next tests the flag. -/

def abortedEarly : List (Action Nat Empty) :=
  .start (.ofList oneTask) :: List.replicate 8 .main ++ .abort :: List.replicate 4 .main

theorem late_abort_dispatches :
    (created failing).parallel.aborting = false ∧
      ¬ Runs.Every (step (.plain Nat Empty)) (fun s a t => s.parallel.aborting = true → Halted s a t)
        (created failing) (abortedEarly ++ [.main]) := by
  refine ⟨rfl, fun h => ?_⟩
  have hdispatching := h.last (t := ((Runs.run (step (.plain Nat Empty)) (created failing) abortedEarly).getD
    (created failing))) rfl rfl rfl
  exact hdispatching.dispatch ⟨rfl, rfl⟩

end Joblib.System
