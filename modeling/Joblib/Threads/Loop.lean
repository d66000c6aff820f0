import Joblib.Threads.Steps

/-! The loop of `_get_outputs` against trackers that dispatch.

The loop reads the flag and the two counters one at a time. `InLoop` is its invariant at
each of these points, for any number of trackers dispatching in between: a counter can
only grow, and the flag is only cleared once the iterator is exhausted. One point does
not bear it. Between the test that finds no result outstanding and the test of the flag,
one tracker may dispatch the last batch and another find the iterator exhausted; the loop
then takes its `break` with a task dispatched and not retrieved (`untimely_loses`). Where
no tracker does the latter (`Timely`), none is lost (`finished_drained`). -/
namespace Joblib.System

variable {α ε : Type} {host : Host α ε}

/-- The running call is neither aborted nor followed by another. -/
def Undisturbed : Action α ε → Prop
  | .start _ => False
  | .abort => False
  | _ => True

/-- The iterator the trackers dispatch from has nothing left. -/
def Exhausted (s : System α ε) : Prop :=
  ∃ it, s.parallel.originalIterator = some it ∧ it.head = .error .stopIteration

/-- A tracker does not find the iterator exhausted between the loop's two tests while a
result is outstanding. -/
def Timely (s : System α ε) (a : Action α ε) (_ : System α ε) : Prop :=
  ∀ i, a = .dispatchNew i → s.main = .elseIterating →
    s.parallel.nCompletedTasks < s.parallel.nDispatchedTasks → ¬ s.Exhausted

/-- `_reset_run_tracking` is done, `_original_iterator` is over `ts`, and the loop begins;
trackers of any kind may be about. -/
structure AtHead (s : System α ε) (ts : List (Item α ε)) : Prop where
  main : s.main = .loopIterating
  iterator : s.parallel.originalIterator = some (.ofList ts)
  nCompletedTasks : s.parallel.nCompletedTasks = 0
  nDispatchedTasks : s.parallel.nDispatchedTasks = 0
  iterating : s.parallel.iterating = true
  aborting : s.parallel.aborting = false

/-- So it does where `__call__` opens it on a list, the counters and flags still as reset. -/
theorem mainOpen_atHead {s : System α ε} {nJobs : Int} {ts : List (Item α ε)} (hiterable : s.iterable = .ofList ts)
    (hreset : s.parallel.resetRunTracking = s.parallel) (hpre : s.parallel.preDispatch ≠ .text "all")
    (hmain : (s.mainOpen host nJobs).main = .loopIterating) : AtHead (s.mainOpen host nJobs) ts := by
  unfold mainOpen at hmain ⊢
  by_cases hn : nJobs = 0
  · rw [if_pos hn] at hmain
    cases hmain
  · rw [if_neg hn] at hmain ⊢
    rw [hiterable] at hmain ⊢
    have hiterator := Parallel.openOutputs_some host nJobs (.ofList ts) (p := {s.parallel with calling := true}) hpre
    obtain ⟨q, hopens, ⟨e, hq⟩ | ⟨iterator, hq⟩⟩ :=
      Parallel.openOutputs_cases host nJobs (.ofList ts) {s.parallel with calling := true}
    · rw [hq] at hmain
      cases hmain
    · change (Parallel.openOutputs host nJobs (.ofList ts) _).2.originalIterator = _ at hiterator
      rw [hq] at hiterator ⊢
      exact
        { main := rfl
          iterator := hiterator
          nCompletedTasks := by
            rw [hopens.eq]
            exact (congrArg Parallel.nCompletedTasks hreset).symm
          nDispatchedTasks := by
            rw [hopens.eq]
            exact (congrArg Parallel.nDispatchedTasks hreset).symm
          iterating := by
            rw [hopens.eq]
            exact (congrArg Parallel.iterating hreset).symm
          aborting := by
            rw [hopens.eq]
            exact (congrArg Parallel.aborting hreset).symm }

/-! ### The invariant -/

/-- What the main thread may rely on at each of its points, of the two counters, the flag
and what is left to dispatch. -/
def At (completed dispatched : Nat) (iterating : Bool) (rest : List (Item α ε)) : Pc → Prop
  | .loopIterating | .ifCompleted | .dispatching | .bottom => completed ≤ dispatched
  | .loopCompleted => iterating = false ∧ completed ≤ dispatched
  | .loopDispatched c => iterating = false ∧ c = completed ∧ completed ≤ dispatched
  | .ifDispatched c => c = completed ∧ completed ≤ dispatched
  | .retrieving | .suspended | .counting => completed < dispatched
  | .elseIterating => completed ≤ dispatched ∧ (iterating = false → completed = dispatched)
  | .clearing => rest = [] ∧ completed ≤ dispatched
  | .finished => rest = [] ∧ completed = dispatched
  | .raised => True
  | _ => False

/-- The loop is running, or has ended, with `rest` left to dispatch. -/
structure InLoop (s : System α ε) (rest : List (Item α ε)) : Prop where
  aborting : s.parallel.aborting = false
  iterator : s.parallel.originalIterator = some (.ofList rest)
  iterating : s.parallel.iterating = false → rest = []
  at_ : At s.parallel.nCompletedTasks s.parallel.nDispatchedTasks s.parallel.iterating rest s.main

theorem AtHead.inLoop {s : System α ε} {ts : List (Item α ε)} (h : AtHead s ts) : InLoop s ts where
  aborting := h.aborting
  iterator := h.iterator
  iterating hi := by
    rw [h.iterating] at hi
    cases hi
  at_ := by
    rw [h.main, h.nCompletedTasks]
    exact Nat.zero_le _

theorem exhausted_iff {s : System α ε} {rest : List (Item α ε)}
    (h : s.parallel.originalIterator = some (.ofList rest)) : s.Exhausted ↔ rest = [] := by
  constructor
  · rintro ⟨it, hit, hhead⟩
    obtain rfl : Iterator.ofList rest = it := Option.some.inj (h.symm.trans hit)
    cases rest with
    | nil => rfl
    | cons task rest => cases hhead
  · rintro rfl
    exact ⟨_, h, rfl⟩

/-! ### Dispatching -/

/-- A batch more dispatched breaks nothing: there was something left, so the flag is up. -/
theorem At.submit {c d n : Nat} {iterating : Bool} {rest left : List (Item α ε)} {pc : Pc}
    (h : At c d iterating rest pc) (hi : iterating = true) (hne : rest ≠ []) : At c (d + n) iterating left pc := by
  subst hi
  cases pc <;> simp only [At] at h ⊢ <;> first | exact absurd h.1 hne | (simp at h; done) | grind

/-- Clearing the flag breaks nothing once there is nothing left, but for the point
between the two tests. -/
theorem At.clear {c d : Nat} {iterating : Bool} {pc : Pc} (h : At c d iterating ([] : List (Item α ε)) pc)
    (hpc : pc = .elseIterating → c = d) : At c d false ([] : List (Item α ε)) pc := by
  cases pc <;> simp only [At] at h ⊢ <;> grind

/-! ### Steps -/

/-- A batch sent, by whomever. -/
theorem InLoop.sent {s : System α ε} {batch left : List (Item α ε)} (h : InLoop s (batch ++ left)) (hne : batch ≠ []) :
    InLoop (s.sent batch left) left := by
  have hrest : batch ++ left ≠ [] := fun hnil => hne (List.append_eq_nil_iff.mp hnil).1
  have hup : s.parallel.iterating = true := by
    by_contra hdown
    exact hrest (h.iterating (by simpa using hdown))
  refine ⟨h.aborting, rfl, fun hdown => ?_, h.at_.submit hup hrest⟩
  exact absurd (hup.symm.trans hdown) (by simp)

theorem InLoop.mainDispatch {s : System α ε} {rest : List (Item α ε)} (h : InLoop s rest)
    (hmain : s.main = .dispatching) : ∃ left, InLoop (s.mainDispatch host) left := by
  have hat := h.at_
  rw [hmain] at hat
  rcases mainDispatch_ofList host h.iterator with ⟨rfl, hrun⟩ | ⟨batch, left, hne, rfl, hrun⟩
  · rw [hrun]
    exact ⟨[], h.aborting, h.iterator, h.iterating, rfl, hat⟩
  · rw [hrun]
    have hsent := h.sent hne
    exact ⟨left, hsent.aborting, hsent.iterator, hsent.iterating, Nat.le_trans hat (Nat.le_add_right _ _)⟩

theorem At.inCall {completed dispatched : Nat} {iterating : Bool} {rest : List (Item α ε)} {pc : Pc}
    (h : At completed dispatched iterating rest pc) : InCall pc := by
  cases pc <;> simp_all [At, InCall, Pc.inLoop]

/-- A step that only reads: what a test finds is what the next point needs. -/
theorem InLoop.goes {s : System α ε} {rest : List (Item α ε)} {pc : Pc} (h : InLoop s rest)
    (hgoes : Goes s.parallel s.main pc) : InLoop (s.goto pc) rest := by
  refine ⟨h.aborting, h.iterator, h.iterating, ?_⟩
  have hat := h.at_
  have hiterating := h.iterating
  have haborting := h.aborting
  generalize s.main = before at hgoes hat
  cases hgoes <;> simp only [goto, At] at hat ⊢ <;> grind

/-- The main thread, between dispatches. -/
theorem InLoop.mainStep {s s' : System α ε} {rest : List (Item α ε)} (h : InLoop s rest)
    (hs : s.mainStep host = some s') : ∃ left, InLoop s' left := by
  have hat := h.at_
  cases mainStep_loop hat.inCall hs with
  | dispatches hmain => exact h.mainDispatch hmain
  | counts hmain =>
    rw [hmain] at hat
    exact ⟨rest, h.aborting, h.iterator, h.iterating, hat⟩
  | clears hmain =>
    rw [hmain] at hat
    exact ⟨rest, h.aborting, h.iterator, fun _ => hat.1, hat.2⟩
  | goes hgoes => exact ⟨rest, h.goes hgoes⟩

theorem InLoop.dispatchedNew {s : System α ε} {rest : List (Item α ε)} (h : InLoop s rest) (i : Nat)
    (t : Tracker α ε) (htimely : s.main = .elseIterating →
      s.parallel.nCompletedTasks < s.parallel.nDispatchedTasks → ¬ s.Exhausted) :
    ∃ left, InLoop (s.dispatchedNew host i t) left := by
  have hat := h.at_
  rcases dispatchedNew_ofList host h.aborting h.iterator i t with ⟨rfl, hrun⟩ | ⟨batch, left, hne, rfl, hrun⟩
  · rw [hrun]
    have hclear : s.main = .elseIterating → s.parallel.nCompletedTasks = s.parallel.nDispatchedTasks := by
      intro hmain
      rw [hmain] at hat
      by_contra hne
      exact htimely hmain (Nat.lt_of_le_of_ne hat.1 hne) ((exhausted_iff h.iterator).mpr rfl)
    exact ⟨[], h.aborting, h.iterator, fun _ => rfl, hat.clear hclear⟩
  · rw [hrun]
    have hsent := h.sent hne
    exact ⟨left, hsent.aborting, hsent.iterator, hsent.iterating, hsent.at_⟩

theorem InLoop.entered {s : System α ε} {rest : List (Item α ε)} (h : InLoop s rest) (i : Nat)
    (t : Tracker α ε) (success : Bool) (result : Obj α ε) : InLoop (s.entered i t success result) rest := by
  obtain ⟨jobs, hparallel⟩ := s.entered_parallel i t success result
  refine ⟨?_, ?_, ?_, ?_⟩ <;> rw [hparallel]
  · exact h.aborting
  · exact h.iterator
  · exact h.iterating
  · exact h.at_

/-- **Every timely step keeps the invariant.** -/
theorem InLoop.step {s s' : System α ε} {a : Action α ε} {rest : List (Item α ε)} (h : InLoop s rest)
    (hs : s.step host a = some s') (hundisturbed : Undisturbed a) (htimely : Timely s a s') :
    ∃ left, InLoop s' left := by
  cases a with
  | start iterable => exact hundisturbed.elim
  | abort => exact hundisturbed.elim
  | main => exact h.mainStep hs
  | retrieve raises =>
    obtain ⟨hmain, rfl⟩ := step_retrieve hs
    have hat := h.at_
    rw [hmain] at hat
    refine ⟨rest, h.aborting, h.iterator, h.iterating, ?_⟩
    cases raises with
    | false => exact hat
    | true => trivial
  | enter i success result =>
    obtain ⟨t, _, rfl⟩ := step_enter hs
    exact ⟨rest, h.entered i t success result⟩
  | dispatchNew i =>
    obtain ⟨t, _, rfl⟩ := step_dispatchNew hs
    exact h.dispatchedNew i t (htimely i rfl)

/-! ### Runs -/

/-- What is reached from the head of the loop by timely steps is in it. -/
theorem inLoop_run {s t : System α ε} {ts : List (Item α ε)} (hs : AtHead s ts)
    {actions : List (Action α ε)} (hundisturbed : ∀ a ∈ actions, Undisturbed a)
    (htimely : Runs.Every (step host) Timely s actions) (h : Runs.run (step host) s actions = some t) :
    ∃ rest, InLoop t rest :=
  Runs.guarded_run (I := fun s => ∃ rest, InLoop s rest)
    (fun _ _ _ hin hstep hguard => hin.elim fun _ hin => hin.step hstep hguard.1 hguard.2)
    ⟨ts, hs.inLoop⟩ (htimely.and_forall hundisturbed) h

variable (host) in
/-- **In every run of the loop whose steps are timely, the generator finishes only with
the iterator exhausted and one result yielded for each task dispatched.** -/
theorem finished_drained {s t : System α ε} {ts : List (Item α ε)} (hs : AtHead s ts)
    (actions : List (Action α ε)) (hundisturbed : ∀ a ∈ actions, Undisturbed a)
    (htimely : Runs.Every (step host) Timely s actions) (h : Runs.run (step host) s actions = some t)
    (hfinished : t.main = .finished) :
    t.Exhausted ∧ t.parallel.nCompletedTasks = t.parallel.nDispatchedTasks := by
  obtain ⟨rest, hin⟩ := inLoop_run hs hundisturbed htimely h
  have hat := hin.at_
  rw [hfinished] at hat
  exact ⟨(exhausted_iff hin.iterator).mpr hat.1, hat.2⟩

/-- A call over `ts`, up to the loop. -/
def calling (ts : List (Item Nat Empty)) : Option (System Nat Empty) :=
  Runs.run (step (.plain Nat Empty)) (created (.created 2 (.count 1) .list (.idle "LokyBackend" true) true))
    (.start (.ofList ts) :: List.replicate 8 .main)

/-- Where it gets. -/
def looping (ts : List (Item Nat Empty)) : System Nat Empty :=
  (calling ts).getD (created (.created 2 (.count 1) .list (.idle "LokyBackend" true) true))

theorem looping_atHead (ts : List (Item Nat Empty)) : AtHead (looping ts) ts :=
  ⟨rfl, rfl, rfl, rfl, rfl, rfl⟩

/-- The loop dispatches a task and yields its result. -/
def firstResult : List (Action Nat Empty) :=
  List.replicate 9 .main ++ .retrieve false :: List.replicate 6 .main

def oneTask : List (Item Nat Empty) := [delayed (fun _ _ => .ok 1) [] []]

/-! Three tasks: the loop dispatches the first, the first's tracker the second and the second's the third,
and the third's finds the iterator exhausted while the loop waits for its result. -/

def threeTasks : List (Item Nat Empty) := [1, 2, 3].map fun n => delayed (fun _ _ => .ok n) [] []

/-- The tracker's batch is completed, and it dispatches the next. -/
def tracked (i : Nat) : List (Action Nat Empty) := [.enter i true (.value 1), .dispatchNew i]

def attended : List (Action Nat Empty) :=
  List.replicate 9 .main ++ tracked 0 ++ .retrieve false :: List.replicate 6 .main ++ tracked 1 ++
    .retrieve false :: List.replicate 6 .main ++ tracked 2 ++ .retrieve false :: List.replicate 6 .main

/-- No tracker dispatches between the loop's two tests. -/
def timelyStep (s : System Nat Empty) : Action Nat Empty → Bool
  | .dispatchNew _ => s.main != .elseIterating
  | _ => true

theorem attended_timely : Runs.Every (step (.plain Nat Empty)) Timely (looping threeTasks) attended := by
  refine .of_checks timelyStep (fun s a t htest _ => ?_) rfl
  rintro i rfl hmain
  simp [timelyStep, hmain] at htest

theorem attended_undisturbed : ∀ a ∈ attended, Undisturbed a := by
  simp [attended, tracked, Undisturbed]

theorem finished_drained_attended : ∃ t,
    Runs.run (step (.plain Nat Empty)) (looping threeTasks) attended = some t ∧ t.parallel.nDispatchedTasks = 3 ∧
      t.Exhausted ∧ t.parallel.nCompletedTasks = t.parallel.nDispatchedTasks :=
  ⟨_, rfl, rfl, finished_drained (.plain Nat Empty) (looping_atHead threeTasks) attended attended_undisturbed
    attended_timely rfl rfl⟩

/-- **An untimely step lets the generator finish with a task lost.** -/
theorem untimely_loses {s t u : System α ε} {ts : List (Item α ε)} (hs : AtHead s ts)
    {actions : List (Action α ε)} {a : Action α ε} (hundisturbed : ∀ a ∈ actions, Undisturbed a)
    (htimely : Runs.Every (step host) Timely s actions) (h : Runs.run (step host) s actions = some t)
    (hstep : t.step host a = some u) (huntimely : ¬ Timely t a u) :
    ∃ v, u.step host .main = some v ∧ v.main = .finished ∧
      v.parallel.nCompletedTasks < v.parallel.nDispatchedTasks := by
  obtain ⟨rest, hin⟩ := inLoop_run hs hundisturbed htimely h
  simp only [Timely, not_forall, not_not] at huntimely
  obtain ⟨i, rfl, hmain, hless, hexhausted⟩ := huntimely
  obtain rfl : rest = [] := (exhausted_iff hin.iterator).mp hexhausted
  obtain ⟨tracker, _, rfl⟩ := step_dispatchNew hstep
  have hparallel : (t.dispatchedNew host i tracker).parallel = {t.parallel with iterating := false} := by
    rcases dispatchNew_ofList hin.aborting hin.iterator host.dispatcher with
      ⟨_, hrun⟩ | ⟨batch, left, hne, hnil, _⟩
    · exact hrun
    · exact absurd (List.append_eq_nil_iff.mp hnil.symm).1 hne
  have hat : (t.dispatchedNew host i tracker).main = .elseIterating := hmain
  refine ⟨(t.dispatchedNew host i tracker).goto .finished, ?_, rfl, ?_⟩
  · simp only [step, mainStep, hat]
    rw [hparallel]
    rfl
  · show (t.dispatchedNew host i tracker).parallel.nCompletedTasks <
      (t.dispatchedNew host i tracker).parallel.nDispatchedTasks
    rw [hparallel]
    exact hless

/-! The first result is out and no other is due; then its tracker dispatches the second
task, that task's tracker finds nothing left, and the loop reads the flag. -/

def overtaken : List (Action Nat Empty) :=
  firstResult ++ [.enter 0 true (.value 1), .dispatchNew 0, .enter 1 true (.value 2), .dispatchNew 1, .main]

theorem second_task_lost : ∃ s t,
    calling [delayed (fun _ _ => .ok 1) [] [], delayed (fun _ _ => .ok 2) [] []] = some s ∧
      (∀ a ∈ overtaken, Undisturbed a) ∧ Runs.run (step (.plain Nat Empty)) s overtaken = some t ∧
      t.main = .finished ∧ ¬ (t.Exhausted ∧ t.parallel.nCompletedTasks = t.parallel.nDispatchedTasks) := by
  refine ⟨_, _, rfl, ?_, rfl, rfl, ?_⟩
  · simp [overtaken, firstResult, Undisturbed]
  · rintro ⟨_, heq⟩
    exact absurd heq (by decide)

end Joblib.System
