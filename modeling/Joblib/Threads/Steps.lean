import Joblib.Threads.System

/-! What a dispatch does to the system, over a list of tasks.

The main thread and the trackers dispatch in the same way: the next batch goes out and gets
a tracker, or nothing is left. A tracker whose call is aborting does neither. So a step of a
running call sends one batch or none (`Ledger.step`). Only another thread sets the flag
(`step_aborting`). -/
namespace Joblib.System

variable {α ε : Type} {host : Host α ε} {s : System α ε} {rest : List (Item α ε)}

/-- What a dispatch from the iterator of a list does: a batch goes out, or nothing is
left. -/
theorem dispatchOneBatch_ofList (D : Dispatcher α ε) (p : Parallel α ε) (rest : List (Item α ε)) :
    (rest = [] ∧ D.dispatchOneBatch p (some (.ofList rest)) = ⟨.ok false, some (.ofList []), p⟩) ∨
      ∃ batch left, batch ≠ [] ∧ rest = batch ++ left ∧
        D.dispatchOneBatch p (some (.ofList rest)) = ⟨.ok true, some (.ofList left), p.submit batch⟩ := by
  cases rest with
  | nil => exact .inl ⟨rfl, D.exhausted p _ rfl⟩
  | cons task rest =>
    obtain ⟨batch, it, hne, htake, hrun⟩ := D.submits p (.ofList (task :: rest)) task rfl
    obtain ⟨left, hleft, rfl⟩ := Iterator.ofList_eq_append htake
    exact .inr ⟨batch, left, hne, hleft, hrun⟩

/-- `_dispatch_new` of a call that is not aborting. -/
theorem dispatchNew_ofList {p : Parallel α ε} {rest : List (Item α ε)} (haborting : p.aborting = false)
    (hiterator : p.originalIterator = some (.ofList rest)) (D : Dispatcher α ε) :
    (rest = [] ∧ BatchCompletionCallBack.dispatchNew D p = {p with iterating := false}) ∨
      ∃ batch left, batch ≠ [] ∧ rest = batch ++ left ∧
        BatchCompletionCallBack.dispatchNew D p =
          {p.submit batch with originalIterator := some (.ofList left)} := by
  have hnext : BatchCompletionCallBack.dispatchNew D p = (p.dispatchNext D).2 := by
    rw [BatchCompletionCallBack.dispatchNew_eq, if_pos]
    simp [BatchCompletionCallBack.reachesDispatch, haborting, hiterator]
  rw [hnext]
  unfold Parallel.dispatchNext
  rw [hiterator]
  rcases dispatchOneBatch_ofList D p rest with ⟨rfl, hrun⟩ | ⟨batch, left, hne, hrest, hrun⟩
  · rw [hrun, ← hiterator]
    exact .inl ⟨rfl, rfl⟩
  · rw [hrun]
    exact .inr ⟨batch, left, hne, hrest, rfl⟩

/-- The instance with a batch more submitted and `left` to come. -/
def sentParallel (p : Parallel α ε) (batch left : List (Item α ε)) : Parallel α ε :=
  {p.submit batch with originalIterator := some (.ofList left)}

/-- The batch has been submitted and has a tracker. -/
def sent (s : System α ε) (batch left : List (Item α ε)) : System α ε :=
  { s with
    parallel := sentParallel s.parallel batch left
    trackers := s.trackers ++ [⟨.create (sentParallel s.parallel batch left), .waiting, s.idCall⟩] }

theorem dispatched_sent (s : System α ε) (batch left : List (Item α ε)) :
    s.dispatched (sentParallel s.parallel batch left) = s.sent batch left := by
  have hone : (sentParallel s.parallel batch left).nDispatchedBatches - s.parallel.nDispatchedBatches = 1 :=
    Nat.add_sub_cancel_left ..
  simp only [dispatched, newTrackers, hone]
  rfl

/-- The tracker `i` is done, and waits. -/
def settle (s : System α ε) (i : Nat) (t : Tracker α ε) : System α ε :=
  {s with trackers := s.trackers.set i {t with pc := .waiting}}

variable (host) in
/-- A dispatch of the main thread. -/
theorem mainDispatch_ofList (h : s.parallel.originalIterator = some (.ofList rest)) :
    (rest = [] ∧ s.mainDispatch host = s.goto .clearing) ∨
      ∃ batch left, batch ≠ [] ∧ rest = batch ++ left ∧
        s.mainDispatch host = (s.sent batch left).goto .bottom := by
  unfold mainDispatch
  rw [h]
  rcases dispatchOneBatch_ofList host.dispatcher s.parallel rest with
    ⟨rfl, hrun⟩ | ⟨batch, left, hne, rfl, hrun⟩
  · left
    refine ⟨rfl, ?_⟩
    have hsame : ({s.parallel with originalIterator := some (.ofList [])} : Parallel α ε) = s.parallel := by
      rw [← h]
    simp only [hrun, hsame]
    simp [goto, dispatched, newTrackers]
  · refine .inr ⟨batch, left, hne, rfl, ?_⟩
    simp only [hrun]
    exact congrArg (goto · .bottom) (dispatched_sent s batch left)

variable (host) in
/-- It leaves the iterator as `dispatch_one_batch` does. -/
theorem mainDispatch_iterator (s : System α ε) :
    (s.mainDispatch host).parallel.originalIterator =
      (host.dispatcher.dispatchOneBatch s.parallel s.parallel.originalIterator).iterator := by
  unfold mainDispatch
  dsimp only
  split <;> rfl

/-- The `_dispatch_new` of a tracker whose call is aborting. -/
theorem dispatchedNew_aborting (h : s.parallel.aborting = true) (i : Nat) (t : Tracker α ε) :
    s.dispatchedNew host i t = s.settle i t := by
  have hnone : BatchCompletionCallBack.reachesDispatch s.parallel = false := by
    simp [BatchCompletionCallBack.reachesDispatch, h]
  have hsame : BatchCompletionCallBack.dispatchNew host.dispatcher s.parallel = s.parallel := by
    rw [BatchCompletionCallBack.dispatchNew_eq, hnone]
    rfl
  simp [dispatchedNew, hsame, hnone, settle, dispatched, newTrackers]

variable (host) in
/-- The `_dispatch_new` of any other. -/
theorem dispatchedNew_ofList (haborting : s.parallel.aborting = false)
    (h : s.parallel.originalIterator = some (.ofList rest)) (i : Nat) (t : Tracker α ε) :
    (rest = [] ∧ s.dispatchedNew host i t =
        {s.settle i t with parallel := {s.parallel with iterating := false}, dispatches := s.dispatches + 1}) ∨
      ∃ batch left, batch ≠ [] ∧ rest = batch ++ left ∧
        s.dispatchedNew host i t = {(s.sent batch left).settle i t with dispatches := s.dispatches + 1} := by
  have hreaches : BatchCompletionCallBack.reachesDispatch s.parallel = true := by
    simp [BatchCompletionCallBack.reachesDispatch, haborting, h]
  rcases dispatchNew_ofList haborting h host.dispatcher with ⟨rfl, hrun⟩ | ⟨batch, left, hne, rfl, hrun⟩
  · left
    refine ⟨rfl, ?_⟩
    simp [dispatchedNew, hrun, hreaches, settle, dispatched, newTrackers]
  · refine .inr ⟨batch, left, hne, rfl, ?_⟩
    simp only [dispatchedNew, hrun, hreaches, if_true]
    rw [show s.dispatched {s.parallel.submit batch with originalIterator := some (.ofList left)} = s.sent batch left from
      dispatched_sent s batch left]
    rfl

/-- A tracker's first block writes nothing of the instance but `_jobs`. -/
theorem entered_parallel (s : System α ε) (i : Nat) (t : Tracker α ε) (success : Bool) (result : Obj α ε) :
    ∃ jobs, (s.entered i t success result).parallel = {s.parallel with jobs := jobs} :=
  t.callback.enter_parallel s.parallel i success result

/-! ### The flag -/

theorem mainDispatch_aborting (s : System α ε) : (s.mainDispatch host).parallel.aborting = s.parallel.aborting := by
  have hframe := host.dispatcher.frame s.parallel s.parallel.originalIterator
  unfold mainDispatch
  dsimp only
  split <;>
  · show (host.dispatcher.dispatchOneBatch s.parallel s.parallel.originalIterator).parallel.aborting = _
    rw [hframe.eq]

theorem mainInitialize_aborting (s : System α ε) :
    (s.mainInitialize host).parallel.aborting = s.parallel.aborting := by
  obtain ⟨configured, hframe⟩ := Parallel.workers_frame host s.parallel
  unfold mainInitialize
  cases h : s.parallel.workers host with
  | mk r q =>
    rw [h] at hframe
    obtain rfl : q = _ := hframe
    cases r <;> rfl

theorem mainOpen_aborting (s : System α ε) (nJobs : Int) :
    (s.mainOpen host nJobs).parallel.aborting = s.parallel.aborting := by
  unfold mainOpen
  split
  · rfl
  · obtain ⟨q, hopens, ⟨e, hq⟩ | ⟨iterator, hq⟩⟩ :=
      Parallel.openOutputs_cases host nJobs s.iterable {s.parallel with calling := true} <;>
    · rw [hq]
      show q.aborting = _
      rw [hopens.eq]

/-- Only another thread sets the flag. -/
theorem step_aborting {s t : System α ε} {a : Action α ε} (h : s.step host a = some t)
    (haborting : s.parallel.aborting = false) (ha : a ≠ .abort) : t.parallel.aborting = false := by
  cases a with
  | abort => exact absurd rfl ha
  | start iterable => rwa [step_start h]
  | retrieve raises =>
    obtain ⟨_, rfl⟩ := step_retrieve h
    exact haborting
  | enter i success result =>
    obtain ⟨tracker, _, rfl⟩ := step_enter h
    obtain ⟨jobs, hparallel⟩ := s.entered_parallel i tracker success result
    rwa [hparallel]
  | dispatchNew i =>
    obtain ⟨tracker, _, rfl⟩ := step_dispatchNew h
    show (BatchCompletionCallBack.dispatchNew host.dispatcher s.parallel).aborting = false
    rwa [(BatchCompletionCallBack.dispatchNew_frame host.dispatcher s.parallel).eq]
  | main =>
    have h : s.mainStep host = some t := h
    cases hmain : s.main with
    | dispatching =>
      simp only [mainStep, hmain, Option.some.injEq] at h
      rwa [← h, mainDispatch_aborting]
    | initializing =>
      simp only [mainStep, hmain, Option.some.injEq] at h
      rwa [← h, mainInitialize_aborting]
    | opening nJobs =>
      simp only [mainStep, hmain, Option.some.injEq] at h
      rwa [← h, mainOpen_aborting]
    | renewing nJobs =>
      simp only [mainStep, hmain, Option.some.injEq, mainRenew] at h
      subst h
      split <;> exact haborting
    | resetAborting =>
      simp only [mainStep, hmain, Option.some.injEq] at h
      rw [← h]
    | idle | retrieving | finished | raised => simp [mainStep, hmain] at h
    | _ =>
      simp only [mainStep, hmain, Option.some.injEq] at h
      subst h
      exact haborting

/-! ### What is sent -/

/-- The counters of what has been dispatched, and what is left to dispatch. -/
structure Ledger (s : System α ε) (rest : List (Item α ε)) (batches tasks : Nat) : Prop where
  inCall : InCall s.main
  iterator : s.parallel.originalIterator = some (.ofList rest)
  batches : s.parallel.nDispatchedBatches = batches
  tasks : s.parallel.nDispatchedTasks = tasks

/-- Who may send a batch: the loop at its dispatch, and a tracker's `_dispatch_new`. -/
def Sender (s : System α ε) (a : Action α ε) : Prop :=
  (a = .main ∧ s.main = .dispatching) ∨ ∃ i, a = .dispatchNew i

/-- A step sends one batch of what is left, or none. -/
def Sends (s : System α ε) (a : Action α ε) (rest : List (Item α ε)) (batches tasks : Nat) (t : System α ε) : Prop :=
  Ledger t rest batches tasks ∨
    ∃ batch left, batch ≠ [] ∧ rest = batch ++ left ∧ Sender s a ∧
      Ledger t left (batches + 1) (tasks + batch.length)

theorem Goes.inCall {p : Parallel α ε} {pc pc' : Pc} (h : Goes p pc pc') : InCall pc' := by
  cases h <;> simp [InCall, Pc.inLoop]

theorem Ledger.mainStep {t : System α ε} {batches tasks : Nat} (h : Ledger s rest batches tasks)
    (ht : s.mainStep host = some t) : Sends s .main rest batches tasks t := by
  cases mainStep_loop h.inCall ht with
  | goes hgoes => exact .inl ⟨hgoes.inCall, h.iterator, h.batches, h.tasks⟩
  | counts => exact .inl ⟨.inl rfl, h.iterator, h.batches, h.tasks⟩
  | clears => exact .inl ⟨.inl rfl, h.iterator, h.batches, h.tasks⟩
  | dispatches hmain =>
    rcases mainDispatch_ofList host h.iterator with ⟨rfl, hrun⟩ | ⟨batch, left, hne, rfl, hrun⟩
    · rw [hrun]
      exact .inl ⟨.inl rfl, h.iterator, h.batches, h.tasks⟩
    · rw [hrun]
      exact .inr ⟨batch, left, hne, rfl, .inl ⟨rfl, hmain⟩,
        .inl rfl, rfl, congrArg (· + 1) h.batches, congrArg (· + batch.length) h.tasks⟩

/-- **Everything a step of a running call can send.** -/
theorem Ledger.step {t : System α ε} {a : Action α ε} {batches tasks : Nat} (h : Ledger s rest batches tasks)
    (ht : s.step host a = some t) (hstart : ∀ iterable, a ≠ .start iterable) : Sends s a rest batches tasks t := by
  cases a with
  | start iterable => exact absurd rfl (hstart iterable)
  | main => exact h.mainStep ht
  | retrieve raises =>
    obtain ⟨_, rfl⟩ := step_retrieve ht
    refine .inl ⟨?_, h.iterator, h.batches, h.tasks⟩
    cases raises <;> simp [InCall, Pc.inLoop]
  | enter i success result =>
    obtain ⟨tracker, _, rfl⟩ := step_enter ht
    obtain ⟨jobs, hparallel⟩ := s.entered_parallel i tracker success result
    refine .inl ⟨h.inCall, ?_, ?_, ?_⟩ <;> rw [hparallel]
    · exact h.iterator
    · exact h.batches
    · exact h.tasks
  | dispatchNew i =>
    obtain ⟨tracker, _, rfl⟩ := step_dispatchNew ht
    cases haborting : s.parallel.aborting with
    | true =>
      rw [dispatchedNew_aborting haborting]
      exact .inl ⟨h.inCall, h.iterator, h.batches, h.tasks⟩
    | false =>
      rcases dispatchedNew_ofList host haborting h.iterator i tracker with
        ⟨rfl, hrun⟩ | ⟨batch, left, hne, rfl, hrun⟩
      · rw [hrun]
        exact .inl ⟨h.inCall, h.iterator, h.batches, h.tasks⟩
      · rw [hrun]
        exact .inr ⟨batch, left, hne, rfl, .inr ⟨i, rfl⟩,
          h.inCall, rfl, congrArg (· + 1) h.batches, congrArg (· + batch.length) h.tasks⟩
  | abort =>
    obtain rfl := Option.some.inj ht
    exact .inl ⟨h.inCall, h.iterator, h.batches, h.tasks⟩

end Joblib.System
