import Joblib.Parallel.State

/-! `BatchCompletionCallBack`: the tracker of one batch.

Its `result` holds either kind of Python object, a value or an exception (`Obj`). Its
`__call__` has two locked blocks: `enter`, which may register the outcome, and
`dispatchNew`. The polling mode reads the outcome off the `job` instead, an
`AsyncResult`; a `wait` or `get` that waits stands where it returns. -/
namespace Joblib

/-- An object where the code tells only exceptions from the rest. -/
inductive Obj (α ε : Type) where
  | value (v : α)
  | exception (e : Exc ε)
deriving DecidableEq

/-- `isinstance(outcome, BaseException)`. -/
def Obj.isException {α ε : Type} : Obj α ε → Bool
  | .exception _ => true
  | .value _ => false

/-- `TASK_DONE`, `TASK_ERROR` and `TASK_PENDING`. -/
inductive Status where
  | done
  | error
  | pending
deriving DecidableEq, Repr

/-- `multiprocessing`'s `AsyncResult`: what it has been set to. -/
structure Job (α ε : Type) where
  outcome : Option (Except (Exc ε) α)

namespace Job
variable {α ε : Type}

/-- `wait(timeout)` returns `None`, ready or not; without a timeout it blocks until
ready. -/
def wait (job : Job α ε) (timeout : Option Nat) : Option Unit :=
  match job.outcome, timeout with
  | none, none => none
  | _, _ => some ()

/-- `get(timeout)`. -/
def get (job : Job α ε) (timeout : Option Nat) : Option (Except (Exc ε) α) :=
  match job.outcome, timeout with
  | some r, _ => some r
  | none, some _ => some (.error (.timeoutError ""))
  | none, none => none

/-- The pool sets the outcome, once. -/
def finish (job : Job α ε) (r : Except (Exc ε) α) : Job α ε := ⟨job.outcome <|> some r⟩

end Job

structure BatchCompletionCallBack (α ε : Type) where
  parallelCallId : Option Nat
  job : Option (Job α ε)
  /-- `None` for a backend without `supports_retrieve_callback`. -/
  status : Option Status
  /-- Absent until an outcome is registered. -/
  result : Option (Obj α ε)

namespace BatchCompletionCallBack
variable {α ε : Type}

/-- `__init__`. -/
def create (parallel : Parallel α ε) : BatchCompletionCallBack α ε where
  parallelCallId := parallel.callId
  job := none
  status := if !parallel.backend.supportsRetrieveCallback then none else some .pending
  result := none

/-- `register_job`. -/
def registerJob (cb : BatchCompletionCallBack α ε) (job : Job α ε) : BatchCompletionCallBack α ε :=
  {cb with job := some job}

/-- What `get_result` raises when no outcome is registered. -/
def noOutcome : Exc ε := .timeoutError "Timeout reached while waiting for result"

/-- What it raises in the polling mode before `register_job`. -/
def noJob : Exc ε := .attributeError "'NoneType' object has no attribute 'get'"

/-- `get_status`: `none` when it blocks. -/
def getStatus (parallel : Parallel α ε) (timeout : Option Nat) (cb : BatchCompletionCallBack α ε) :
    Option (Except (Exc ε) (Option Status)) :=
  if parallel.backend.supportsRetrieveCallback then some (.ok cb.status)
  else
    match cb.job with
    | none => some (.error (.attributeError "'NoneType' object has no attribute 'wait'"))
    | some job => (job.wait timeout).map fun _ => .ok (some .done)

/-- `get_result`: `none` when it blocks. -/
def getResult (parallel : Parallel α ε) (timeout : Option Nat) (cb : BatchCompletionCallBack α ε) :
    Option (Except (Exc ε) (Obj α ε)) :=
  if parallel.backend.supportsRetrieveCallback then
    if cb.status = some .pending then
      some (.error noOutcome)
    else
      match cb.result with
      | some result => some (.ok result)
      | none => some (.error (.attributeError
          "'BatchCompletionCallBack' object has no attribute 'result'"))
  else
    match cb.job with
    | none => some (.error noJob)
    | some job => (job.get timeout).map fun r => r.map .value

/-- `_retrieve_result`. -/
def retrieveResult (cb : BatchCompletionCallBack α ε) (out : Bool × Obj α ε) :
    Bool × BatchCompletionCallBack α ε :=
  let (success, result) := out
  let cb := {cb with result := some result}
  if success then (true, {cb with status := some .done}) else (false, {cb with status := some .error})

/-- `_register_outcome`. -/
def registerOutcome (cb : BatchCompletionCallBack α ε) (outcome : Obj α ε) :
    BatchCompletionCallBack α ε :=
  if cb.status = some .pending then
    {cb with
      result := some outcome
      status := some (if outcome.isException then .error else .done)}
  else cb

/-- What the first part of a `__call__` leaves: whether it goes on to `_dispatch_new`. -/
structure Entry (α ε : Type) where
  dispatches : Bool
  tracker : BatchCompletionCallBack α ε
  parallel : Parallel α ε

/-- `__call__` up to `_dispatch_new`; `self` is the tracker's place in `_jobs`. -/
def enter (self : Nat) (out : Bool × Obj α ε) (cb : BatchCompletionCallBack α ε) (parallel : Parallel α ε) :
    Entry α ε :=
  if !parallel.backend.supportsRetrieveCallback then ⟨true, cb, parallel⟩
  else if parallel.callId ≠ cb.parallelCallId then ⟨false, cb, parallel⟩
  else if parallel.aborting then ⟨false, cb, parallel⟩
  else
    let (jobSucceeded, cb) := cb.retrieveResult out
    let parallel :=
      if !parallel.returnAs.returnOrdered then {parallel with jobs := parallel.jobs ++ [self]}
      else parallel
    ⟨jobSucceeded, cb, parallel⟩

/-- `_dispatch_new`. -/
def dispatchNew (D : Dispatcher α ε) (parallel : Parallel α ε) : Parallel α ε :=
  if parallel.aborting then parallel
  else
    match parallel.originalIterator with
    | none => parallel
    | some _ => (parallel.dispatchNext D).2

/-! ### The first locked block -/

/-- In the retrieving mode, the tests of `__call__` let a tracker of the call `id` pass. -/
def Accepted (id : Option Nat) (parallel : Parallel α ε) : Prop :=
  parallel.backend.supportsRetrieveCallback = true ∧ parallel.callId = id ∧ parallel.aborting = false

instance (id : Option Nat) (parallel : Parallel α ε) : Decidable (Accepted id parallel) :=
  inferInstanceAs (Decidable (_ ∧ _ ∧ _))

variable {cb : BatchCompletionCallBack α ε} {parallel : Parallel α ε} {self : Nat}

/-- Past the tests the outcome is recorded, and an unordered call collects the tracker. -/
theorem enter_accepted (h : Accepted cb.parallelCallId parallel) (success : Bool) (result : Obj α ε) :
    cb.enter self (success, result) parallel =
      ⟨success, {cb with result := some result, status := some (if success then .done else .error)},
        if !parallel.returnAs.returnOrdered then {parallel with jobs := parallel.jobs ++ [self]}
        else parallel⟩ := by
  obtain ⟨hsupports, hid, haborting⟩ := h
  unfold enter retrieveResult
  rw [if_neg (by simp [hsupports]), if_neg (by simp [hid]), if_neg (by simp [haborting])]
  cases success <;> rfl

/-- Short of them nothing is written; in the polling mode it goes on all the same. -/
theorem enter_refused (h : ¬ Accepted cb.parallelCallId parallel) (out : Bool × Obj α ε) :
    cb.enter self out parallel = ⟨!parallel.backend.supportsRetrieveCallback, cb, parallel⟩ := by
  unfold enter
  cases hsupports : parallel.backend.supportsRetrieveCallback with
  | false => rfl
  | true =>
    rw [if_neg (by simp)]
    by_cases hid : parallel.callId = cb.parallelCallId
    · have haborting : parallel.aborting = true := by
        by_contra hneg
        exact h ⟨hsupports, hid, Bool.eq_false_iff.mpr hneg⟩
      rw [if_neg (not_not.mpr hid), if_pos haborting]
      rfl
    · rw [if_pos hid]
      rfl

variable (cb parallel) in
theorem enter_parallelCallId (self : Nat) (success : Bool) (result : Obj α ε) :
    (cb.enter self (success, result) parallel).tracker.parallelCallId = cb.parallelCallId := by
  by_cases h : Accepted cb.parallelCallId parallel
  · rw [enter_accepted h]
  · rw [enter_refused h]

variable (cb parallel) in
/-- The first block writes `_jobs` at most. -/
theorem enter_parallel (self : Nat) (success : Bool) (result : Obj α ε) :
    ∃ jobs, (cb.enter self (success, result) parallel).parallel = {parallel with jobs := jobs} := by
  by_cases h : Accepted cb.parallelCallId parallel
  · rw [enter_accepted h]
    dsimp only
    split <;> exact ⟨_, rfl⟩
  · rw [enter_refused h]
    exact ⟨parallel.jobs, rfl⟩

/-! ### The second -/

/-- Whether `_dispatch_new` gets to `dispatch_next`. -/
def reachesDispatch (parallel : Parallel α ε) : Bool :=
  !parallel.aborting && parallel.originalIterator.isSome

theorem dispatchNew_eq (D : Dispatcher α ε) (parallel : Parallel α ε) :
    dispatchNew D parallel = if reachesDispatch parallel then (parallel.dispatchNext D).2 else parallel := by
  unfold dispatchNew reachesDispatch
  cases parallel.aborting with
  | true => rfl
  | false => cases parallel.originalIterator <;> rfl

theorem dispatchNew_frame (D : Dispatcher α ε) (parallel : Parallel α ε) :
    Parallel.OnlyDispatches parallel (dispatchNew D parallel) := by
  rw [dispatchNew_eq]
  split
  · exact Parallel.dispatchNext_frame D parallel
  · exact .refl parallel

end BatchCompletionCallBack

end Joblib
