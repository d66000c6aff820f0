import Joblib.Runtime.Python

/-! A `Parallel` instance and the dispatch of tasks from its iterator.

`Parallel` holds the attributes the call machinery reads or writes. Objects
compared by identity (a call id, a pickle cache, a generator behind a weak
reference) are numbers from one supply, `fresh`, so that a new one differs from
every earlier one. `executed` is history: the tasks the sequential loop has
called.

`dispatch_one_batch` has a docstring and no body. A `Dispatcher` is any function
that does what the docstring says. -/
namespace Joblib

/-- `return_as`. -/
inductive ReturnAs where
  | list
  | generator
  | generatorUnordered
deriving DecidableEq, Repr

/-- `self.return_generator`. -/
def ReturnAs.returnGenerator : ReturnAs → Bool
  | .list => false
  | _ => true

/-- `self.return_ordered`. -/
def ReturnAs.returnOrdered : ReturnAs → Bool
  | .generatorUnordered => false
  | _ => true

/-- `pre_dispatch`: a string, `'all'` among them, or an integer. -/
inductive PreDispatch where
  | text (expression : String)
  | count (amount : Int)
deriving DecidableEq, Repr

/-- What a `Parallel` asks of its backend, and what the backend has been given:
the tasks submitted to it, oldest first, how many of their results it has handed
back, and how many times it was configured. -/
structure Backend (α ε : Type) where
  name : String
  supportsRetrieveCallback : Bool
  submitted : List (Item α ε)
  retrieved : Nat
  configured : Nat
  firstException : Option (Exc ε)

/-- A backend that has been given nothing yet. -/
def Backend.idle {α ε : Type} (name : String) (supportsRetrieveCallback : Bool) : Backend α ε :=
  ⟨name, supportsRetrieveCallback, [], 0, 0, none⟩

/-- `_backend.retrieve()`: the outcome of the oldest submitted task not yet
retrieved, an exception being raised; with none outstanding it blocks. -/
def Backend.retrieve {α ε : Type} (b : Backend α ε) : Option (Except (Exc ε) α × Backend α ε) :=
  b.submitted[b.retrieved]?.map fun task => (task.call, {b with retrieved := b.retrieved + 1})

structure Parallel (α ε : Type) where
  nJobs : Int
  preDispatch : PreDispatch
  returnAs : ReturnAs
  backend : Backend α ε
  /-- Whether `__init__` made `_lock`, `_jobs` and `_pending_outputs`: it does
  unless the backend is a `SequentialBackend`. -/
  hasLock : Bool
  managedBackend : Bool
  calling : Bool
  callId : Option Nat
  callRef : Option Nat
  nCompletedTasks : Nat
  nDispatchedTasks : Nat
  nDispatchedBatches : Nat
  aborting : Bool
  iterating : Bool
  originalIterator : Option (Iterator (Item α ε) ε)
  preDispatchAmount : Int
  pickleCache : Option Nat
  cachedEffectiveNJobs : Int
  jobs : List Nat
  fresh : Nat
  executed : List (Item α ε)

namespace Parallel
variable {α ε : Type}

/-- An instance no call has been made on: what `__init__` sets, and for the
attributes that only a call creates the values one would find after a reset. -/
def created (nJobs : Int) (preDispatch : PreDispatch) (returnAs : ReturnAs) (backend : Backend α ε)
    (hasLock : Bool) : Parallel α ε where
  nJobs := nJobs
  preDispatch := preDispatch
  returnAs := returnAs
  backend := backend
  hasLock := hasLock
  managedBackend := false
  calling := false
  callId := none
  callRef := none
  nCompletedTasks := 0
  nDispatchedTasks := 0
  nDispatchedBatches := 0
  aborting := false
  iterating := true
  originalIterator := none
  preDispatchAmount := 0
  pickleCache := none
  cachedEffectiveNJobs := 0
  jobs := []
  fresh := 0
  executed := []

/-- `_reset_run_tracking`. -/
def resetRunTracking (p : Parallel α ε) : Parallel α ε :=
  { p with
    nCompletedTasks := 0
    nDispatchedTasks := 0
    nDispatchedBatches := 0
    aborting := false
    iterating := true }

/-- `with self._lock: self._call_id = uuid4().hex`. -/
def renewCallId (p : Parallel α ε) : Parallel α ε :=
  {p with callId := some p.fresh, fresh := p.fresh + 1}

/-- `_is_completed`. -/
def isCompleted (p : Parallel α ε) : Bool := p.nCompletedTasks == p.nDispatchedTasks

/-- The sequential loop calls a task. -/
def execute (p : Parallel α ε) (task : Item α ε) : Parallel α ε :=
  {p with executed := p.executed ++ [task]}

/-- `self._n_completed_tasks += 1`. -/
def complete (p : Parallel α ε) : Parallel α ε := {p with nCompletedTasks := p.nCompletedTasks + 1}

/-- The backend has changed, the attributes have not. -/
def withBackend (p : Parallel α ε) (b : Backend α ε) : Parallel α ε := {p with backend := b}

section Fields
variable (p : Parallel α ε) (task : Item α ε) (b : Backend α ε)

@[simp] theorem execute_executed : (p.execute task).executed = p.executed ++ [task] := rfl
@[simp] theorem execute_nCompletedTasks : (p.execute task).nCompletedTasks = p.nCompletedTasks := rfl
@[simp] theorem complete_executed : p.complete.executed = p.executed := rfl
@[simp] theorem complete_nCompletedTasks : p.complete.nCompletedTasks = p.nCompletedTasks + 1 := rfl
@[simp] theorem complete_backend : p.complete.backend = p.backend := rfl
@[simp] theorem withBackend_backend : (p.withBackend b).backend = b := rfl

end Fields

/-- A batch handed to the backend. -/
def submit (p : Parallel α ε) (batch : List (Item α ε)) : Parallel α ε :=
  { p with
    nDispatchedTasks := p.nDispatchedTasks + batch.length
    nDispatchedBatches := p.nDispatchedBatches + 1
    backend := {p.backend with submitted := p.backend.submitted ++ batch} }

end Parallel

/-- What a `dispatch_one_batch(iterator)` does: its outcome, the state it leaves
its argument in, and the instance. -/
structure Dispatch (α ε : Type) where
  outcome : Except (Exc ε) Bool
  iterator : Option (Iterator (Item α ε) ε)
  parallel : Parallel α ε

/-- Everything but the two dispatch counters and the backend's queue is as before;
the queue may only grow, and each task put there is counted. -/
structure OnlySubmits {α ε : Type} (p q : Parallel α ε) : Prop where
  eq : q = { p with
    nDispatchedTasks := q.nDispatchedTasks
    nDispatchedBatches := q.nDispatchedBatches
    backend := {p.backend with submitted := q.backend.submitted} }
  grows : p.backend.submitted <+: q.backend.submitted
  counted : q.nDispatchedTasks + p.backend.submitted.length =
    p.nDispatchedTasks + q.backend.submitted.length

/-- `dispatch_one_batch` as documented: it takes the next non-empty batch of the
iterator, submits it and returns `True`; with no more jobs to dispatch it returns
`False`. Of an argument that is no iterator, or one that raises, it is only known
what the method may write. -/
structure Dispatcher (α ε : Type) where
  dispatchOneBatch : Parallel α ε → Option (Iterator (Item α ε) ε) → Dispatch α ε
  submits : ∀ p (it : Iterator (Item α ε) ε) task, it.head = .ok task →
    ∃ batch rest, batch ≠ [] ∧ it = Stream'.appendStream' (batch.map .ok) rest ∧
      dispatchOneBatch p (some it) = ⟨.ok true, some rest, p.submit batch⟩
  exhausted : ∀ p (it : Iterator (Item α ε) ε), it.head = .error .stopIteration →
    dispatchOneBatch p (some it) = ⟨.ok false, some it, p⟩
  frame : ∀ p it, OnlySubmits p (dispatchOneBatch p it).parallel
  keepsNone : ∀ p it, (dispatchOneBatch p it).iterator = none ↔ it = none

theorem OnlySubmits.submit {α ε : Type} (p : Parallel α ε) (batch : List (Item α ε)) :
    OnlySubmits p (p.submit batch) :=
  ⟨rfl, List.prefix_append _ _, by simp only [Parallel.submit, List.length_append]; omega⟩

theorem OnlySubmits.refl {α ε : Type} (p : Parallel α ε) : OnlySubmits p p :=
  ⟨rfl, List.prefix_rfl, rfl⟩

/-- The batches of one task: the docstring's behaviour with nothing left open. -/
def Dispatcher.oneByOne (α ε : Type) : Dispatcher α ε where
  dispatchOneBatch p
    | none => ⟨.error (.typeError "'NoneType' object is not iterable"), none, p⟩
    | some it =>
      match it.head with
      | .ok task => ⟨.ok true, some it.tail, p.submit [task]⟩
      | .error .stopIteration => ⟨.ok false, some it, p⟩
      | .error e => ⟨.error e, some it.tail, p⟩
  submits p it task h := by
    refine ⟨[task], it.tail, by simp, ?_, ?_⟩
    · show it = Stream'.cons (.ok task) it.tail
      rw [← h]
      exact (Stream'.eta it).symm
    · simp only [h]
  exhausted p it h := by simp only [h]
  frame p it := by
    cases it with
    | none => exact .refl p
    | some it =>
      dsimp only
      split
      · exact .submit p _
      · exact .refl p
      · exact .refl p
  keepsNone p it := by
    cases it with
    | none => simp
    | some it =>
      dsimp only
      split <;> simp

namespace Parallel
variable {α ε : Type} (D : Dispatcher α ε)

/-- `dispatch_next`. The iterator a batch is taken from is the object
`_original_iterator` refers to, so it is left there as the dispatch left it. -/
def dispatchNext (p : Parallel α ε) : Except (Exc ε) Bool × Parallel α ε :=
  let r := D.dispatchOneBatch p p.originalIterator
  let p' := {r.parallel with originalIterator := r.iterator}
  match r.outcome with
  | .ok true => (.ok true, p')
  | .ok false => (.ok false, {p' with iterating := false})
  | .error e => (.error e, p')

/-- Everything `dispatch_next` may write. -/
structure OnlyDispatches (p q : Parallel α ε) : Prop where
  eq : q = { p with
    nDispatchedTasks := q.nDispatchedTasks
    nDispatchedBatches := q.nDispatchedBatches
    backend := {p.backend with submitted := q.backend.submitted}
    originalIterator := q.originalIterator
    iterating := q.iterating }
  grows : p.backend.submitted <+: q.backend.submitted
  counted : q.nDispatchedTasks + p.backend.submitted.length =
    p.nDispatchedTasks + q.backend.submitted.length
  keepsNone : q.originalIterator = none ↔ p.originalIterator = none

theorem OnlyDispatches.refl (p : Parallel α ε) : OnlyDispatches p p :=
  ⟨rfl, List.prefix_rfl, rfl, Iff.rfl⟩

theorem dispatchNext_frame (p : Parallel α ε) : OnlyDispatches p (p.dispatchNext D).2 := by
  have hframe := D.frame p p.originalIterator
  have hnone := D.keepsNone p p.originalIterator
  unfold dispatchNext
  dsimp only
  split <;> exact ⟨by rw [hframe.eq], hframe.grows, hframe.counted, hnone⟩

/-- With a task left, a non-empty batch goes to the backend. -/
theorem dispatchNext_submits (p : Parallel α ε) (it : Iterator (Item α ε) ε) (task : Item α ε)
    (hit : p.originalIterator = some it) (h : it.head = .ok task) :
    ∃ batch rest, batch ≠ [] ∧ it = Stream'.appendStream' (batch.map .ok) rest ∧
      p.dispatchNext D = (.ok true, {p.submit batch with originalIterator := some rest}) := by
  obtain ⟨batch, rest, hne, heq, hrun⟩ := D.submits p it task h
  refine ⟨batch, rest, hne, heq, ?_⟩
  unfold dispatchNext
  rw [hit, hrun]

/-- On an exhausted iterator only the flag is cleared. -/
theorem dispatchNext_exhausted (p : Parallel α ε) (it : Iterator (Item α ε) ε)
    (hit : p.originalIterator = some it) (h : it.head = .error .stopIteration) :
    p.dispatchNext D = (.ok false, {p with iterating := false}) := by
  unfold dispatchNext
  rw [hit, D.exhausted p it h, ← hit]

end Parallel

end Joblib
