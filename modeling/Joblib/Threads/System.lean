import Joblib.Lib.Runs
import Joblib.Callback.State
import Joblib.Parallel.Call

/-! One `Parallel` instance under several threads.

The main thread runs `__call__` and the loop of `_get_outputs`; every batch handed to
the backend has a tracker, which some thread of the backend invokes. A step is one
access to a shared attribute: a write of the reset, a read of a counter or of a flag,
or one of the two locked blocks of a tracker. What lies between two locked blocks, or
between two reads of the loop, may be interrupted.

Calls are numbered, as history: `callNo` is the latest call, `idCall` the one that drew
the current call id, `call` the one whose id a tracker carries, `dispatches` counts the
trackers' calls of `dispatch_next`. Only statements look at these. -/
namespace Joblib

/-- Where the main thread stands: before the access it is named after. -/
inductive Pc where
  | idle
  | resetCompleted
  | resetDispatched
  | resetBatches
  | resetAborting
  | resetIterating
  | initializing
  | renewing (nJobs : Int)
  | opening (nJobs : Int)
  | sequential
  | loopIterating
  | loopCompleted
  | loopDispatched (completed : Nat)
  | ifCompleted
  | ifDispatched (completed : Nat)
  | retrieving
  | suspended
  | counting
  | elseIterating
  | dispatching
  | clearing
  | bottom
  | raising
  | finished
  | raised
deriving DecidableEq

namespace Pc

/-- A call has begun and `_reset_run_tracking` has not returned. -/
def resetting : Pc → Bool
  | .resetCompleted | .resetDispatched | .resetBatches | .resetAborting | .resetIterating => true
  | _ => false

/-- In the call, before it draws its id. -/
def beforeId : Pc → Bool
  | .initializing | .renewing _ => true
  | pc => pc.resetting

/-- In `_get_outputs`. -/
def inLoop : Pc → Bool
  | .loopIterating | .loopCompleted | .loopDispatched _ | .ifCompleted | .ifDispatched _ | .retrieving
  | .suspended | .counting | .elseIterating | .dispatching | .clearing | .bottom | .raising => true
  | _ => false

/-- Where the thread is its caller's, who may call again. -/
def free : Pc → Bool
  | .idle | .sequential | .suspended | .finished | .raised => true
  | _ => false

end Pc

/-- A tracker is about to be invoked, or between its two locked blocks. -/
inductive TrackerPc where
  | waiting
  | dispatching
deriving DecidableEq

structure Tracker (α ε : Type) where
  callback : BatchCompletionCallBack α ε
  pc : TrackerPc
  call : Nat

structure System (α ε : Type) where
  parallel : Parallel α ε
  trackers : List (Tracker α ε)
  main : Pc
  /-- The argument of the latest call. -/
  iterable : Iterable (Item α ε) ε
  callNo : Nat
  idCall : Nat
  dispatches : Nat

inductive Action (α ε : Type) where
  /-- The instance is called. -/
  | start (iterable : Iterable (Item α ε) ε)
  /-- The main thread takes a step. -/
  | main
  /-- `_backend.retrieve()` comes back with the outcome of some dispatched task. -/
  | retrieve (raises : Bool)
  /-- A tracker is invoked: its `__call__` up to `_dispatch_new`. -/
  | enter (i : Nat) (success : Bool) (result : Obj α ε)
  /-- A tracker's `_dispatch_new`. -/
  | dispatchNew (i : Nat)
  /-- Another thread aborts the call. -/
  | abort

/-- The tracker an action is a step of. -/
def Action.tracker {α ε : Type} : Action α ε → Option Nat
  | .enter i _ _ => some i
  | .dispatchNew i => some i
  | _ => none

namespace System
open Parallel (openOutputs)
variable {α ε : Type} (host : Host α ε)

/-- No call yet. -/
def created (parallel : Parallel α ε) : System α ε where
  parallel := parallel
  trackers := []
  main := .idle
  iterable := .ofList []
  callNo := 0
  idCall := 0
  dispatches := 0

def goto (s : System α ε) (pc : Pc) : System α ε := {s with main := pc}

/-- The trackers of the batches submitted between two states of the instance. -/
def newTrackers (before after : Parallel α ε) (call : Nat) : List (Tracker α ε) :=
  List.replicate (after.nDispatchedBatches - before.nDispatchedBatches)
    ⟨.create after, .waiting, call⟩

/-- The instance after a dispatch, with a tracker for each batch. -/
def dispatched (s : System α ε) (p : Parallel α ε) : System α ε :=
  {s with parallel := p, trackers := s.trackers ++ newTrackers s.parallel p s.idCall}

/-- `dispatch_one_batch(self._original_iterator)` in the main thread. -/
def mainDispatch (s : System α ε) : System α ε :=
  let r := host.dispatcher.dispatchOneBatch s.parallel s.parallel.originalIterator
  let s := s.dispatched {r.parallel with originalIterator := r.iterator}
  match r.outcome with
  | .ok true => s.goto .bottom
  | .ok false => s.goto .clearing
  | .error _ => s.goto .raised

/-- `_initialize_backend` or `_effective_n_jobs`. -/
def mainInitialize (s : System α ε) : System α ε :=
  match s.parallel.workers host with
  | (.error _, p) => {s with parallel := p, main := .raised}
  | (.ok nJobs, p) => {s with parallel := p, main := if nJobs = 1 then .sequential else .renewing nJobs}

/-- `with self._lock: self._call_id = …`. -/
def mainRenew (nJobs : Int) (s : System α ε) : System α ε :=
  if !s.parallel.hasLock then s.goto .raised
  else
    { s with
      parallel := s.parallel.enterConcurrent nJobs s.parallel.calling
      main := .opening nJobs
      idCall := s.callNo }

/-- From the worker test to the first resumption of `_get_outputs`. -/
def mainOpen (nJobs : Int) (s : System α ε) : System α ε :=
  if nJobs = 0 then s.goto .raised
  else
    match openOutputs host nJobs s.iterable {s.parallel with calling := true} with
    | (.error _, p) => {s with parallel := p, main := .raised}
    | (.ok _, p) => {s with parallel := p, main := .loopIterating}

/-- The next step of the main thread. Waiting for its caller at a `yield`, it is resumed. -/
def mainStep (s : System α ε) : Option (System α ε) :=
  let p := s.parallel
  match s.main with
  | .resetCompleted => some {s with parallel := {p with nCompletedTasks := 0}, main := .resetDispatched}
  | .resetDispatched => some {s with parallel := {p with nDispatchedTasks := 0}, main := .resetBatches}
  | .resetBatches => some {s with parallel := {p with nDispatchedBatches := 0}, main := .resetAborting}
  | .resetAborting => some {s with parallel := {p with aborting := false}, main := .resetIterating}
  | .resetIterating => some {s with parallel := {p with iterating := true}, main := .initializing}
  | .initializing => some (s.mainInitialize host)
  | .renewing nJobs => some (s.mainRenew nJobs)
  | .opening nJobs => some (s.mainOpen host nJobs)
  | .sequential => some {s with parallel := p.complete}
  | .loopIterating => some (s.goto (if p.iterating then .ifCompleted else .loopCompleted))
  | .loopCompleted => some (s.goto (.loopDispatched p.nCompletedTasks))
  | .loopDispatched completed =>
    some (s.goto (if completed < p.nDispatchedTasks then .ifCompleted else .finished))
  | .ifCompleted => some (s.goto (.ifDispatched p.nCompletedTasks))
  | .ifDispatched completed =>
    some (s.goto (if completed < p.nDispatchedTasks then .retrieving else .elseIterating))
  | .suspended => some (s.goto .counting)
  | .counting => some {s with parallel := p.complete, main := .bottom}
  | .elseIterating => some (s.goto (if p.iterating then .dispatching else .finished))
  | .dispatching => some (s.mainDispatch host)
  | .clearing => some {s with parallel := {p with iterating := false}, main := .bottom}
  | .bottom => some (s.goto (if p.aborting then .raising else .loopIterating))
  | .raising => some (s.goto (if (Generator.raiseErrorFast p).isSome then .raised else .loopIterating))
  | .idle | .retrieving | .finished | .raised => none

/-- `enter` of the tracker `t`, the `i`-th. -/
def entered (s : System α ε) (i : Nat) (t : Tracker α ε) (success : Bool) (result : Obj α ε) : System α ε :=
  let r := t.callback.enter i (success, result) s.parallel
  { s with
    parallel := r.parallel
    trackers := s.trackers.set i ⟨r.tracker, if r.dispatches then .dispatching else .waiting, t.call⟩ }

/-- `_dispatch_new` of the tracker `t`, the `i`-th. -/
def dispatchedNew (s : System α ε) (i : Nat) (t : Tracker α ε) : System α ε :=
  let s' := s.dispatched (BatchCompletionCallBack.dispatchNew host.dispatcher s.parallel)
  { s' with
    trackers := s'.trackers.set i {t with pc := .waiting}
    dispatches :=
      if BatchCompletionCallBack.reachesDispatch s.parallel then s.dispatches + 1 else s.dispatches }

def step (s : System α ε) : Action α ε → Option (System α ε)
  | .start iterable =>
    if s.main.free then
      some {s with main := .resetCompleted, iterable := iterable, callNo := s.callNo + 1}
    else none
  | .main => s.mainStep host
  | .retrieve raises =>
    if s.main = .retrieving ∧ s.parallel.backend.retrieved < s.parallel.backend.submitted.length then
      let b := s.parallel.backend
      some
        { s with
          parallel := s.parallel.withBackend {b with retrieved := b.retrieved + 1}
          main := if raises then .raised else .suspended }
    else none
  | .enter i success result =>
    match s.trackers[i]? with
    | some t => if t.pc = .waiting then some (s.entered i t success result) else none
    | none => none
  | .dispatchNew i =>
    match s.trackers[i]? with
    | some t => if t.pc = .dispatching then some (s.dispatchedNew host i t) else none
    | none => none
  | .abort => some {s with parallel := {s.parallel with aborting := true}}

/-! ### What a step is -/

/-- In the loop, or past it. -/
def InCall (pc : Pc) : Prop := pc.inLoop = true ∨ pc = .finished ∨ pc = .raised

/-- Where the loop goes next, `p` being the instance: the steps of the main thread that only read. -/
inductive Goes (p : Parallel α ε) : Pc → Pc → Prop
  | enters : p.iterating = true → Goes p .loopIterating .ifCompleted
  | tests : p.iterating = false → Goes p .loopIterating .loopCompleted
  | reads : Goes p .loopCompleted (.loopDispatched p.nCompletedTasks)
  | goesOn {completed : Nat} : completed < p.nDispatchedTasks → Goes p (.loopDispatched completed) .ifCompleted
  | ends {completed : Nat} : ¬ completed < p.nDispatchedTasks → Goes p (.loopDispatched completed) .finished
  | readsAgain : Goes p .ifCompleted (.ifDispatched p.nCompletedTasks)
  | retrieves {completed : Nat} : completed < p.nDispatchedTasks → Goes p (.ifDispatched completed) .retrieving
  | elses {completed : Nat} : ¬ completed < p.nDispatchedTasks → Goes p (.ifDispatched completed) .elseIterating
  | resumes : Goes p .suspended .counting
  | dispatches : p.iterating = true → Goes p .elseIterating .dispatching
  | breaks : p.iterating = false → Goes p .elseIterating .finished
  | aborts : p.aborting = true → Goes p .bottom .raising
  | loops : p.aborting = false → Goes p .bottom .loopIterating
  | raises : (Generator.raiseErrorFast p).isSome = true → Goes p .raising .raised
  | loopsAnyway : (Generator.raiseErrorFast p).isSome = false → Goes p .raising .loopIterating

/-- A step of the main thread in the loop. -/
inductive LoopStep (s : System α ε) : System α ε → Prop
  | goes {pc : Pc} : Goes s.parallel s.main pc → LoopStep s (s.goto pc)
  | counts : s.main = .counting → LoopStep s {s with parallel := s.parallel.complete, main := .bottom}
  | dispatches : s.main = .dispatching → LoopStep s (s.mainDispatch host)
  | clears : s.main = .clearing → LoopStep s {s with parallel := {s.parallel with iterating := false}, main := .bottom}

section Steps
variable {host} {s s' : System α ε}

theorem step_start {iterable : Iterable (Item α ε) ε} (h : s.step host (.start iterable) = some s') :
    s' = {s with main := .resetCompleted, iterable := iterable, callNo := s.callNo + 1} := by
  simp only [step] at h
  split at h
  · exact (Option.some.inj h).symm
  · cases h

/-- **Everything the main thread can do in the loop.** -/
theorem mainStep_loop (hin : InCall s.main) (h : s.mainStep host = some s') : LoopStep host s s' := by
  have hgoes : ∀ pc, Goes s.parallel s.main pc → s.goto pc = s' → LoopStep host s s' := by
    rintro pc hpc rfl
    exact .goes hpc
  cases hmain : s.main with
  | loopIterating | loopDispatched | ifDispatched | elseIterating | bottom | raising =>
    simp only [mainStep, hmain, Option.some.injEq] at h
    split at h
    next htest => exact hgoes _ (hmain ▸ by constructor; exact htest) h
    next htest => exact hgoes _ (hmain ▸ by constructor; simpa using htest) h
  | loopCompleted | ifCompleted | suspended =>
    simp only [mainStep, hmain, Option.some.injEq] at h
    exact hgoes _ (hmain ▸ by constructor) h
  | counting =>
    simp only [mainStep, hmain, Option.some.injEq] at h
    exact h ▸ .counts hmain
  | dispatching =>
    simp only [mainStep, hmain, Option.some.injEq] at h
    exact h ▸ .dispatches hmain
  | clearing =>
    simp only [mainStep, hmain, Option.some.injEq] at h
    exact h ▸ .clears hmain
  | retrieving | finished | raised => simp [mainStep, hmain] at h
  | _ =>
    rw [hmain] at hin
    simp [InCall, Pc.inLoop] at hin

theorem step_retrieve {raises : Bool} (h : s.step host (.retrieve raises) = some s') :
    s.main = .retrieving ∧
      s' = { s with
        parallel := s.parallel.withBackend {s.parallel.backend with retrieved := s.parallel.backend.retrieved + 1}
        main := if raises then .raised else .suspended } := by
  simp only [step] at h
  split at h
  next hmain => exact ⟨hmain.1, (Option.some.inj h).symm⟩
  next => cases h

theorem step_enter {i : Nat} {success : Bool} {result : Obj α ε}
    (h : s.step host (.enter i success result) = some s') :
    ∃ t, s.trackers[i]? = some t ∧ s' = s.entered i t success result := by
  simp only [step] at h
  cases ht : s.trackers[i]? with
  | none => simp [ht] at h
  | some t =>
    simp only [ht] at h
    split at h
    · exact ⟨t, rfl, (Option.some.inj h).symm⟩
    · cases h

theorem step_dispatchNew {i : Nat} (h : s.step host (.dispatchNew i) = some s') :
    ∃ t, s.trackers[i]? = some t ∧ s' = s.dispatchedNew host i t := by
  simp only [step] at h
  cases ht : s.trackers[i]? with
  | none => simp [ht] at h
  | some t =>
    simp only [ht] at h
    split at h
    · exact ⟨t, rfl, (Option.some.inj h).symm⟩
    · cases h

end Steps

/-! ### What a step keeps -/

/-- A step other than the three that begin a call: it draws no id, sets no iterator, and
its new trackers carry the current id. -/
structure Keeps (s s' : System α ε) : Prop where
  callId : s'.parallel.callId = s.parallel.callId
  fresh : s'.parallel.fresh = s.parallel.fresh
  preDispatch : s'.parallel.preDispatch = s.parallel.preDispatch
  iterator : s'.parallel.originalIterator = none ↔ s.parallel.originalIterator = none
  callNo : s'.callNo = s.callNo
  idCall : s'.idCall = s.idCall
  trackers : ∀ t' ∈ s'.trackers,
    (∃ t ∈ s.trackers, t'.callback.parallelCallId = t.callback.parallelCallId ∧ t'.call = t.call) ∨
      (t'.callback.parallelCallId = s.parallel.callId ∧ t'.call = s.idCall ∧
        (s.trackers ≠ [] ∨ s.main.inLoop = true))
  inLoop : s'.main.inLoop = true → s.main.inLoop = true
  beforeId : s'.main.beforeId = true → s.main.beforeId = true

/-- What a step that touches no tracker and only writes `q` over the instance keeps. -/
theorem Keeps.main {s : System α ε} {q : Parallel α ε} {pc : Pc}
    (hid : q.callId = s.parallel.callId ∧ q.fresh = s.parallel.fresh)
    (hpre : q.preDispatch = s.parallel.preDispatch)
    (hit : q.originalIterator = none ↔ s.parallel.originalIterator = none)
    (hloop : pc.inLoop = true → s.main.inLoop = true)
    (hbefore : pc.beforeId = true → s.main.beforeId = true) :
    Keeps s {s with parallel := q, main := pc} where
  callId := hid.1
  fresh := hid.2
  preDispatch := hpre
  iterator := hit
  callNo := rfl
  idCall := rfl
  trackers t ht := .inl ⟨t, ht, rfl, rfl⟩
  inLoop := hloop
  beforeId := hbefore

theorem Keeps.goto {s : System α ε} {pc : Pc} (hloop : pc.inLoop = true → s.main.inLoop = true)
    (hbefore : pc.beforeId = true → s.main.beforeId = true) : Keeps s (s.goto pc) :=
  .main ⟨rfl, rfl⟩ rfl Iff.rfl hloop hbefore

theorem newTrackers_mem {before after : Parallel α ε} {call : Nat} {t : Tracker α ε}
    (h : t ∈ newTrackers before after call) :
    t.callback.parallelCallId = after.callId ∧ t.call = call ∧ t.pc = .waiting := by
  obtain rfl := List.eq_of_mem_replicate h
  exact ⟨rfl, rfl, rfl⟩

end System

end Joblib
