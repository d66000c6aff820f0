import Joblib.Parallel.Sequential
import Joblib.Threads.Loop

/-! The progress counters, wherever the generator is suspended or has ended.

`_is_completed`, `_wait_retrieval` and `print_progress` compare `_n_completed_tasks` with
`_n_dispatched_tasks`. The sequential loop counts what it completes and nothing as
dispatched. The concurrent loop counts both, and keeps them in order over any number of
trackers; what can go wrong there is the untimely step of `finished_drained`, and an abort
that raises with no result outstanding, which leaves `_is_completed()` true of a failed
call. -/
namespace Joblib

variable {α ε : Type}

/-- What the counters say of a call, `taken` of whose `total` tasks have been taken from the
iterable, and which has ended without an error or not. -/
structure Parallel.CountersConsistent (p : Parallel α ε) (taken total : Nat) (ended : Prop) : Prop where
  completed_le : p.nCompletedTasks ≤ p.nDispatchedTasks
  dispatched_le : p.nDispatchedTasks ≤ taken
  ended_eq : ended → p.nCompletedTasks = total ∧ p.nDispatchedTasks = total
  isCompleted_iff : p.isCompleted = true ↔ ended

theorem Parallel.isCompleted_iff_eq (p : Parallel α ε) :
    p.isCompleted = true ↔ p.nCompletedTasks = p.nDispatchedTasks := by
  simp [Parallel.isCompleted]

/-! ### The sequential path -/

namespace Generator
open Resumable (Resumed next)

/-- Whatever the generator comes back with, the counters are consistent. The tasks it has
taken are those it has called. -/
def CountersConsistent (D : Dispatcher α ε) (g : Generator α ε) (total : Nat) : Prop :=
  ∀ event g', Resumed (step D) g event g' →
    g'.2.CountersConsistent (g'.2.executed.length - g.2.executed.length) total (event = .stopped)

/-- Over no tasks it ends at once, and stays ended. -/
theorem next_nil (D : Dispatcher α ε) {p : Parallel α ε} {g g' : Generator α ε} {n : Nat}
    {event : Resumable.Event α (Exc ε)} (hg : g = (.sequential (.ofList []), p) ∨ g = (.finished, p))
    (h : next (step D) n g = some (event, g')) : g' = (.finished, p) ∧ event = .stopped := by
  cases n with
  | zero => cases h
  | succ n =>
    rcases hg with rfl | rfl <;>
    · cases h
      exact ⟨rfl, rfl⟩

/-- **The sequential loop's counters are consistent exactly over no tasks.** -/
theorem sequential_consistent_iff (D : Dispatcher α ε) (p : Parallel α ε) (ts : List (Item α ε))
    (hcompleted : p.nCompletedTasks = 0) (hdispatched : p.nDispatchedTasks = 0) :
    CountersConsistent D (.sequential (.ofList ts), p) ts.length ↔ ts = [] := by
  constructor
  · intro h
    cases ts with
    | nil => rfl
    | cons task rest =>
      -- at its first event nothing has been counted, so all looks completed
      have hfirst : ∃ event frame, event ≠ .stopped ∧
          step D (.sequential (.ofList (task :: rest)), p) = .came event (frame, p.execute task) := by
        cases hcall : task.call with
        | ok value => exact ⟨_, _, by simp, Parallel.sequentialTurn_value hcall rest p⟩
        | error e => exact ⟨_, _, by simp, Parallel.sequentialTurn_raise hcall rest p⟩
      obtain ⟨event, frame, hrunning, hturn⟩ := hfirst
      have hconsistent := h _ _ (.first (Resumable.next_came (n := 0) hturn))
      have hcompleted : (p.execute task).isCompleted = true := by
        rw [Parallel.isCompleted_iff_eq]
        exact hcompleted.trans hdispatched.symm
      exact absurd (hconsistent.isCompleted_iff.mp hcompleted) hrunning
  · rintro rfl event g' h
    obtain ⟨hg', rfl⟩ := Resumed.of_next
      (I := fun g => g = (.sequential (.ofList []), p) ∨ g = (.finished, p))
      (Q := fun event g => g = (.finished, p) ∧ event = .stopped)
      (fun hg hnext => ⟨.inr (next_nil D hg hnext).1, next_nil D hg hnext⟩) (.inl rfl) h |>.2
    subst hg'
    exact
      { completed_le := by simp [hcompleted]
        dispatched_le := by simp [hdispatched]
        ended_eq := fun _ => ⟨hcompleted, hdispatched⟩
        isCompleted_iff := by simp [Parallel.isCompleted, hcompleted, hdispatched] }

end Generator

/-! ### The concurrent path -/

namespace System
variable {host : Host α ε} {s t : System α ε} {rest : List (Item α ε)}

/-- Where the generator is suspended, or has ended. -/
def AtRest : Pc → Prop
  | .suspended | .finished | .raised => True
  | _ => False

/-- Of the tasks `ts`, those no longer in `_original_iterator` have been taken. -/
def CountersConsistent (s : System α ε) (ts : List (Item α ε)) : Prop :=
  ∃ taken rest, ts = taken ++ rest ∧ s.parallel.originalIterator = some (.ofList rest) ∧
    s.parallel.CountersConsistent taken.length ts.length (s.main = .finished)

/-- The step begins no other call, is timely, and an abort raises only with a result
outstanding. -/
def Orderly (s : System α ε) (a : Action α ε) (t : System α ε) : Prop :=
  (∀ iterable, a ≠ .start iterable) ∧ Timely s a t ∧
    (a = .main → s.main = .raising → (Generator.raiseErrorFast s.parallel).isSome = true →
      s.parallel.nCompletedTasks < s.parallel.nDispatchedTasks)

/-- What the main thread may rely on, on its way to an abort's exception as well. -/
def Counted (completed dispatched : Nat) (iterating : Bool) (rest : List (Item α ε)) : Pc → Prop
  | .raising => completed ≤ dispatched
  | .raised => completed < dispatched
  | pc => At completed dispatched iterating rest pc

/-- The loop is running, or has ended, aborted or not. -/
structure Counting (s : System α ε) (rest : List (Item α ε)) : Prop where
  iterator : s.parallel.originalIterator = some (.ofList rest)
  iterating : s.parallel.iterating = false → rest = []
  counted : Counted s.parallel.nCompletedTasks s.parallel.nDispatchedTasks s.parallel.iterating rest s.main

theorem AtHead.counting {ts : List (Item α ε)} (h : AtHead s ts) : Counting s ts where
  iterator := h.iterator
  iterating := h.inLoop.iterating
  counted := by
    have hat := h.inLoop.at_
    rw [h.main] at hat ⊢
    exact hat

theorem Counted.submit {c d n : Nat} {iterating : Bool} {left : List (Item α ε)} {pc : Pc}
    (h : Counted c d iterating rest pc) (hi : iterating = true) (hne : rest ≠ []) :
    Counted c (d + n) iterating left pc := by
  cases pc with
  | raising => exact Nat.le_add_right_of_le h
  | raised => exact Nat.lt_add_right n h
  | _ =>
    simp only [Counted] at h ⊢
    exact h.submit hi hne

theorem Counted.clear {c d : Nat} {iterating : Bool} {pc : Pc} (h : Counted c d iterating ([] : List (Item α ε)) pc)
    (hpc : pc = .elseIterating → c = d) : Counted c d false ([] : List (Item α ε)) pc := by
  cases pc with
  | raising => exact h
  | raised => exact h
  | _ =>
    simp only [Counted] at h ⊢
    exact h.clear hpc

/-- Something left to dispatch, the flag is up. -/
theorem Counting.up (h : Counting s rest) (hne : rest ≠ []) : s.parallel.iterating = true := by
  by_contra hdown
  exact hne (h.iterating (by simpa using hdown))

/-- A batch dispatched, by whomever. -/
theorem Counting.sent {batch left : List (Item α ε)} (h : Counting s (batch ++ left)) (hne : batch ≠ []) :
    Counting (s.sent batch left) left where
  iterator := rfl
  iterating hdown := by
    have hup := h.up fun hnil => hne (List.append_eq_nil_iff.mp hnil).1
    rw [show (s.sent batch left).parallel.iterating = true from hup] at hdown
    cases hdown
  counted := by
    have hrest : batch ++ left ≠ [] := fun hnil => hne (List.append_eq_nil_iff.mp hnil).1
    exact h.counted.submit (h.up hrest) hrest

/-- What a step does to the tasks: `taken` of those left go to the backend. -/
structure Takes (s : System α ε) (rest : List (Item α ε)) (t : System α ε) (taken left : List (Item α ε)) : Prop where
  counting : Counting t left
  rest : rest = taken ++ left
  dispatched : t.parallel.nDispatchedTasks = s.parallel.nDispatchedTasks + taken.length

theorem Takes.nothing (h : Counting t rest) (hsame : t.parallel.nDispatchedTasks = s.parallel.nDispatchedTasks) :
    Takes s rest t [] rest :=
  ⟨h, rfl, hsame⟩

theorem Counting.mainDispatch (h : Counting s rest) (hmain : s.main = .dispatching) :
    ∃ taken left, Takes s rest (s.mainDispatch host) taken left := by
  have hcounted := h.counted
  rw [hmain] at hcounted
  rcases mainDispatch_ofList host h.iterator with ⟨rfl, hrun⟩ | ⟨batch, left, hne, rfl, hrun⟩
  · rw [hrun]
    exact ⟨[], [], .nothing ⟨h.iterator, h.iterating, rfl, hcounted⟩ rfl⟩
  · rw [hrun]
    have hsent := h.sent hne
    have hsentCounted := hsent.counted
    rw [show (s.sent batch left).main = .dispatching from hmain] at hsentCounted
    exact ⟨batch, left, ⟨hsent.iterator, hsent.iterating, hsentCounted⟩, rfl, rfl⟩

theorem Counting.dispatchedNew (h : Counting s rest) (i : Nat) (tracker : Tracker α ε)
    (htimely : s.main = .elseIterating → s.parallel.nCompletedTasks < s.parallel.nDispatchedTasks → ¬ s.Exhausted) :
    ∃ taken left, Takes s rest (s.dispatchedNew host i tracker) taken left := by
  cases haborting : s.parallel.aborting with
  | true =>
    rw [dispatchedNew_aborting haborting]
    exact ⟨[], rest, .nothing ⟨h.iterator, h.iterating, h.counted⟩ rfl⟩
  | false =>
    rcases dispatchedNew_ofList host haborting h.iterator i tracker with
      ⟨rfl, hrun⟩ | ⟨batch, left, hne, rfl, hrun⟩
    · rw [hrun]
      have hclear : s.main = .elseIterating → s.parallel.nCompletedTasks = s.parallel.nDispatchedTasks := by
        intro hmain
        have hcounted := h.counted
        rw [hmain] at hcounted
        by_contra hne
        exact htimely hmain (Nat.lt_of_le_of_ne hcounted.1 hne) ((exhausted_iff h.iterator).mpr rfl)
      exact ⟨[], [], .nothing ⟨h.iterator, fun _ => rfl, h.counted.clear hclear⟩ rfl⟩
    · rw [hrun]
      have hsent := h.sent hne
      exact ⟨batch, left, ⟨hsent.iterator, hsent.iterating, hsent.counted⟩, rfl, rfl⟩

theorem Counted.inCall {c d : Nat} {iterating : Bool} {pc : Pc} (h : Counted c d iterating rest pc) : InCall pc := by
  cases pc <;> simp_all [Counted, At, InCall, Pc.inLoop]

/-- The main thread. -/
theorem Counting.mainStep (h : Counting s rest) (ht : s.mainStep host = some t)
    (hraising : s.main = .raising → (Generator.raiseErrorFast s.parallel).isSome = true →
      s.parallel.nCompletedTasks < s.parallel.nDispatchedTasks) : ∃ taken left, Takes s rest t taken left := by
  have hcounted := h.counted
  cases mainStep_loop hcounted.inCall ht with
  | dispatches hmain => exact h.mainDispatch hmain
  | counts hmain =>
    rw [hmain] at hcounted
    exact ⟨[], rest, .nothing ⟨h.iterator, h.iterating, hcounted⟩ rfl⟩
  | clears hmain =>
    rw [hmain] at hcounted
    exact ⟨[], rest, .nothing ⟨h.iterator, fun _ => hcounted.1, hcounted.2⟩ rfl⟩
  | goes hgoes =>
    refine ⟨[], rest, .nothing ⟨h.iterator, h.iterating, ?_⟩ rfl⟩
    have hiterating := h.iterating
    generalize s.main = pc at hgoes hcounted hraising
    cases hgoes <;> simp only [goto, Counted, At] at hcounted ⊢ <;> grind

/-- **Step: the counters stay in order, and what is dispatched was left to dispatch.** -/
theorem Counting.step {a : Action α ε} (h : Counting s rest) (ht : s.step host a = some t) (horderly : Orderly s a t) :
    ∃ taken left, Takes s rest t taken left := by
  obtain ⟨hstart, htimely, hraising⟩ := horderly
  cases a with
  | start iterable => exact absurd rfl (hstart iterable)
  | main => exact h.mainStep ht (hraising rfl)
  | retrieve raises =>
    obtain ⟨hmain, rfl⟩ := step_retrieve ht
    have hcounted := h.counted
    rw [hmain] at hcounted
    refine ⟨[], rest, .nothing ⟨h.iterator, h.iterating, ?_⟩ rfl⟩
    cases raises <;> exact hcounted
  | enter i success result =>
    obtain ⟨tracker, _, rfl⟩ := step_enter ht
    obtain ⟨jobs, hparallel⟩ := s.entered_parallel i tracker success result
    refine ⟨[], rest, .nothing ⟨?_, ?_, ?_⟩ ?_⟩ <;> rw [hparallel]
    · exact h.iterator
    · exact h.iterating
    · exact h.counted
  | dispatchNew i =>
    obtain ⟨tracker, _, rfl⟩ := step_dispatchNew ht
    exact h.dispatchedNew i tracker (htimely i rfl)
  | abort =>
    obtain rfl := Option.some.inj ht
    exact ⟨[], rest, .nothing ⟨h.iterator, h.iterating, h.counted⟩ rfl⟩

/-- From the head of the loop over `ts`: what has been taken has been dispatched. -/
def Progressed (ts : List (Item α ε)) (s : System α ε) : Prop :=
  ∃ taken rest, Counting s rest ∧ ts = taken ++ rest ∧ s.parallel.nDispatchedTasks = taken.length

theorem AtHead.progressed {ts : List (Item α ε)} (h : AtHead s ts) : Progressed ts s :=
  ⟨[], ts, h.counting, rfl, h.nDispatchedTasks⟩

theorem Progressed.step {ts : List (Item α ε)} {a : Action α ε} (h : Progressed ts s) (ht : s.step host a = some t)
    (horderly : Orderly s a t) : Progressed ts t := by
  obtain ⟨before, rest, hcounting, rfl, hdispatched⟩ := h
  obtain ⟨taken, left, hcounting', rfl, hdispatched'⟩ := hcounting.step ht horderly
  refine ⟨before ++ taken, left, hcounting', (List.append_assoc ..).symm, ?_⟩
  rw [hdispatched', hdispatched, List.length_append]

/-- At rest that is what the counters promise. -/
theorem Progressed.consistent {ts : List (Item α ε)} (h : Progressed ts s) (hrest : AtRest s.main) :
    s.CountersConsistent ts := by
  obtain ⟨taken, rest, hcounting, rfl, hdispatched⟩ := h
  have hcounted := hcounting.counted
  refine ⟨taken, rest, rfl, hcounting.iterator, ?_⟩
  cases hmain : s.main with
  | suspended | raised =>
    rw [hmain] at hcounted
    have hlt : s.parallel.nCompletedTasks < s.parallel.nDispatchedTasks := hcounted
    exact
      { completed_le := Nat.le_of_lt hlt
        dispatched_le := Nat.le_of_eq hdispatched
        ended_eq := fun hended => by cases hended
        isCompleted_iff := by
          rw [Parallel.isCompleted_iff_eq]
          exact ⟨fun heq => absurd heq (Nat.ne_of_lt hlt), fun hended => by cases hended⟩ }
  | finished =>
    rw [hmain] at hcounted
    obtain ⟨rfl, heq⟩ := hcounted
    exact
      { completed_le := Nat.le_of_eq heq
        dispatched_le := Nat.le_of_eq hdispatched
        ended_eq := fun _ => by simp [heq, hdispatched]
        isCompleted_iff := by simp [Parallel.isCompleted_iff_eq, heq] }
  | _ =>
    rw [hmain] at hrest
    exact hrest.elim

/-- **On the sequential path the counters are consistent exactly over no tasks; on the
concurrent path they are in every orderly run of the loop.** -/
theorem progress_consistent (host : Host α ε) (ts : List (Item α ε)) :
    (∀ p : Parallel α ε, (p.resetRunTracking.workers host).1 = .ok 1 →
      (Generator.CountersConsistent host.dispatcher
        (.sequential (.ofList ts), (p.resetRunTracking.workers host).2) ts.length ↔ ts = [])) ∧
    ∀ (s t : System α ε) (actions : List (Action α ε)), AtHead s ts →
      Runs.Every (step host) Orderly s actions → Runs.run (step host) s actions = some t → AtRest t.main →
        t.CountersConsistent ts := by
  refine ⟨fun p _ => ?_, fun s t actions hs horderly hrun hrest => ?_⟩
  · obtain ⟨configured, hframe⟩ := Parallel.workers_frame host p.resetRunTracking
    exact Generator.sequential_consistent_iff _ _ ts (by rw [hframe]; rfl) (by rw [hframe]; rfl)
  · have hprogressed : Progressed ts t :=
      Runs.guarded_run (I := Progressed ts) (fun _ _ _ h ht hguard => h.step ht hguard) hs.progressed horderly hrun
    exact hprogressed.consistent hrest

/-! Three tasks with their trackers, and the same with an abort while the second task is under way. -/

/-- The backend has a task's exception to show. -/
def loopingFailing : System Nat Empty :=
  let s := looping threeTasks
  {s with parallel := s.parallel.withBackend {s.parallel.backend with firstException := some (.runtimeError "no")}}

/-- The first task's tracker dispatches the second, the first result is out, and the call is aborted. -/
def abortedUnderWay : List (Action Nat Empty) :=
  List.replicate 9 .main ++ tracked 0 ++ .retrieve false :: .abort :: List.replicate 4 .main

/-- No tracker dispatches between the loop's two tests, and an abort finds a result outstanding. -/
def orderlyStep (s : System Nat Empty) : Action Nat Empty → Bool
  | .start _ => false
  | .dispatchNew i => timelyStep s (.dispatchNew i)
  | .main => s.main != .raising || decide (s.parallel.nCompletedTasks < s.parallel.nDispatchedTasks)
  | _ => true

theorem orderly_of_checks {s : System Nat Empty} {actions : List (Action Nat Empty)}
    (h : Runs.checks (step (.plain Nat Empty)) orderlyStep s actions = true) :
    Runs.Every (step (.plain Nat Empty)) Orderly s actions := by
  refine .of_checks orderlyStep (fun s a t htest _ => ⟨?_, ?_, ?_⟩) h
  · rintro iterable rfl
    cases htest
  · rintro i rfl hmain
    simp [orderlyStep, timelyStep, hmain] at htest
  · rintro rfl hmain _
    simpa [orderlyStep, hmain] using htest

theorem progress_consistent_attended :
    (Generator.CountersConsistent (Host.plain Nat Empty).dispatcher
      (.sequential (.ofList []), (Parallel.single.resetRunTracking.workers (.plain Nat Empty)).2) 0) ∧
    (∃ t, Runs.run (step (.plain Nat Empty)) (looping threeTasks) attended = some t ∧ t.main = .finished ∧
      t.CountersConsistent threeTasks) ∧
    ∃ t, Runs.run (step (.plain Nat Empty)) loopingFailing abortedUnderWay = some t ∧ t.main = .raised ∧
      t.CountersConsistent threeTasks := by
  obtain ⟨t, hrun, hmain⟩ : ∃ t, Runs.run (step (.plain Nat Empty)) (looping threeTasks) attended = some t ∧
      t.main = .finished := ⟨_, rfl, rfl⟩
  obtain ⟨u, hrun', hmain'⟩ : ∃ u, Runs.run (step (.plain Nat Empty)) loopingFailing abortedUnderWay = some u ∧
      u.main = .raised := ⟨_, rfl, rfl⟩
  have hhead : AtHead loopingFailing threeTasks := ⟨rfl, rfl, rfl, rfl, rfl, rfl⟩
  refine ⟨?_, ⟨t, hrun, hmain, ?_⟩, u, hrun', hmain', ?_⟩
  · exact ((progress_consistent (.plain Nat Empty) []).1 Parallel.single rfl).mpr rfl
  · exact (progress_consistent (.plain Nat Empty) threeTasks).2 _ t attended (looping_atHead threeTasks)
      (orderly_of_checks rfl) hrun (hmain ▸ trivial)
  · exact (progress_consistent (.plain Nat Empty) threeTasks).2 _ u abortedUnderWay hhead (orderly_of_checks rfl) hrun'
      (hmain' ▸ trivial)

/-! Two tasks on one worker: when the second value comes, one task is completed of none
dispatched. -/

theorem two_sequential_overcount :
    (Parallel.single.resetRunTracking.workers (.plain Nat Empty)).1 = .ok 1 ∧
      ¬ Generator.CountersConsistent (Host.plain Nat Empty).dispatcher
        (.sequential (.ofList [delayed (fun _ _ => .ok 1) [] [], delayed (fun _ _ => .ok 2) [] []]),
          (Parallel.single.resetRunTracking.workers (.plain Nat Empty)).2) 2 := by
  refine ⟨rfl, fun h => ?_⟩
  have hsecond := h (.yielded 2) _ (.again (.first (n := 1) rfl) (n := 1) rfl)
  exact absurd hsecond.completed_le (by decide)

end System

end Joblib
