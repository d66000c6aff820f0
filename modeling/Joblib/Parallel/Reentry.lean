import Joblib.Parallel.Call

/-! A second call on an instance whose generator is still running.

`Reachable` is every use of one instance: entered or not, called again and again,
its generators resumed in any order, with callbacks of other threads dispatching,
collecting and aborting in between. `__call__` starts by resetting the counters and
has no guard before that, so what a second call leaves alone is what `call_cases`
says of any call. The one refusal that touches nothing comes from elsewhere
(`Refused`). -/
namespace Joblib

/-- The generator a call returned, if it did. -/
def Result.generators {α ε : Type} : Result α ε → List (Frame α ε)
  | .generator f => [f]
  | _ => []

namespace Parallel
open Resumable (next drain next_came)

variable {α ε : Type} {host : Host α ε}

/-- `__enter__`. -/
def enter (host : Host α ε) (p : Parallel α ε) : Parallel α ε :=
  ({p with managedBackend := true, calling := false}.initializeBackend host).2

/-- `__exit__`, up to the methods it calls that the class does not have. -/
def exit (p : Parallel α ε) : Parallel α ε := {p with managedBackend := false}

/-- An instance and the generators its calls have returned. -/
inductive Reachable (host : Host α ε) : Parallel α ε → List (Frame α ε) → Prop where
  | created (nJobs : Int) (preDispatch : PreDispatch) (returnAs : ReturnAs) (backend : Backend α ε)
      (hasLock : Bool) : Reachable host (.created nJobs preDispatch returnAs backend hasLock) []
  | entered {p gs} : Reachable host p gs → Reachable host (p.enter host) gs
  | exited {p gs} : Reachable host p gs → Reachable host p.exit gs
  | called {p q gs n iterable r} : Reachable host p gs → p.call host n iterable = some (r, q) →
      Reachable host q (r.generators ++ gs)
  | resumed {p q before f f' after n event} : Reachable host p (before ++ f :: after) →
      next (Generator.step host.dispatcher) n (f, p) = some (event, (f', q)) →
      Reachable host q (before ++ f' :: after)
  | dispatched {p gs} : Reachable host p gs → Reachable host (p.dispatchNext host.dispatcher).2 gs
  | collected {p gs} (job : Nat) : Reachable host p gs → Reachable host {p with jobs := p.jobs ++ [job]} gs
  | aborted {p gs} : Reachable host p gs → Reachable host {p with aborting := true} gs

/-! ### Call ids are never reused -/

/-- The current call id was drawn from the supply. -/
def IdDrawn (p : Parallel α ε) : Prop := ∀ i, p.callId = some i → i < p.fresh

theorem IdDrawn.of_eq {p q : Parallel α ε} (h : IdDrawn p) (hid : q.callId = p.callId)
    (hfresh : p.fresh ≤ q.fresh) : IdDrawn q := by
  intro i hi
  have := h i (hid.symm.trans hi)
  omega

theorem IdDrawn.runs {p q : Parallel α ε} (h : IdDrawn p) (hruns : Generator.OnlyRuns p q) : IdDrawn q :=
  h.of_eq (by rw [hruns.eq]) (by rw [hruns.eq])

theorem workers_callId (host : Host α ε) (p : Parallel α ε) :
    (p.resetRunTracking.workers host).2.callId = p.callId ∧
      (p.resetRunTracking.workers host).2.fresh = p.fresh := by
  obtain ⟨configured, hframe⟩ := workers_frame host p.resetRunTracking
  rw [hframe]
  exact ⟨rfl, rfl⟩

/-- Past the lock, the call id is a new one. -/
theorem OnlyOpens.callId {p q : Parallel α ε} {w : Int} {calling : Bool}
    (h : OnlyOpens (p.enterConcurrent w calling) q) : q.callId = some p.fresh ∧ p.fresh < q.fresh := by
  refine ⟨?_, h.fresh⟩
  rw [h.eq]
  rfl

theorem IdDrawn.call {n : Nat} {iterable : Iterable (Item α ε) ε} {p q : Parallel α ε} {r : Result α ε}
    (hp : IdDrawn p) (h : p.call host n iterable = some (r, q)) : IdDrawn q := by
  obtain ⟨hid, hfresh⟩ := workers_callId host p
  have hworkers : IdDrawn (p.resetRunTracking.workers host).2 := hp.of_eq hid (Nat.le_of_eq hfresh.symm)
  rcases call_cases h with ⟨e, _, _, rfl⟩ | ⟨_, hdeliver⟩ | ⟨_, _, rfl⟩ | ⟨w, calling, p', hopens, hruns⟩
  · exact hworkers
  · exact hworkers.runs (deliver_frame hdeliver)
  · exact hworkers
  · refine IdDrawn.runs (fun i hi => ?_) hruns
    obtain ⟨hid', hlt⟩ := hopens.callId
    rw [hid'] at hi
    cases hi
    exact hlt

theorem reachable_idDrawn {p : Parallel α ε} {gs : List (Frame α ε)} (h : Reachable host p gs) :
    IdDrawn p := by
  induction h with
  | created => exact fun i hi => by cases hi
  | @entered p _ _ ih =>
    unfold enter
    rcases initializeBackend_cases host {p with managedBackend := true, calling := false} with ⟨_, h⟩ | h <;>
      rw [h] <;> exact ih
  | exited _ ih => exact ih
  | called _ hcall ih => exact ih.call hcall
  | resumed _ hnext ih => exact ih.runs (Generator.next_frame _ hnext)
  | dispatched _ ih => exact ih.runs (.dispatchNext _ _)
  | collected _ _ ih => exact ih
  | aborted _ ih => exact ih

/-! ### What a second call leaves alone -/

/-- What a running call must find as it left it. -/
structure Untouched (p q : Parallel α ε) : Prop where
  nCompletedTasks : q.nCompletedTasks = p.nCompletedTasks
  nDispatchedTasks : q.nDispatchedTasks = p.nDispatchedTasks
  nDispatchedBatches : q.nDispatchedBatches = p.nDispatchedBatches
  aborting : q.aborting = p.aborting
  iterating : q.iterating = p.iterating
  callId : q.callId = p.callId
  originalIterator : q.originalIterator = p.originalIterator
  pickleCache : q.pickleCache = p.pickleCache
  callRef : q.callRef = p.callRef
  executed : q.executed = p.executed
  submitted : q.backend.submitted = p.backend.submitted
  configured : q.backend.configured = p.backend.configured

/-- A second call raises `RuntimeError` and touches nothing. -/
def RefusesSecondCall (host : Host α ε) (p : Parallel α ε) (second : Iterable (Item α ε) ε) : Prop :=
  ∃ n e q, p.call host n second = some (.raised e, q) ∧ e.isRuntimeError = true ∧ Untouched p q

/-- Iterating over it fails before its first item, and the failure leaves a generator
as a `RuntimeError`. -/
def FailsAtOnce : Iterable (Item α ε) ε → Prop
  | .error e => e.leavingGenerator.isRuntimeError = true
  | .ok it => ∃ message, it.head = .error (.runtimeError message)

/-- Where a refusal that touches nothing comes from: there is nothing to reset, the
backend is managed, and either no worker count is to be had or the one worker's path
fails at once. -/
structure Refused (host : Host α ε) (p : Parallel α ε) (second : Iterable (Item α ε) ε) : Prop where
  tracking : p.resetRunTracking = p
  managed : p.managedBackend = true
  fails : (∃ message, host.effectiveNJobs p = .error (.runtimeError message)) ∨
    (host.effectiveNJobs p = .ok 1 ∧ FailsAtOnce second)

theorem isRuntimeError_eq {e : Exc ε} (h : e.isRuntimeError = true) : ∃ message, e = .runtimeError message := by
  cases e with
  | runtimeError message => exact ⟨message, rfl⟩
  | _ => cases h

/-- The counters that a call resets are as before only if they were reset already. -/
theorem Untouched.tracking {p q : Parallel α ε} (h : Untouched p q)
    (hq : Untouched p.resetRunTracking q) : p.resetRunTracking = p := by
  have hc := hq.nCompletedTasks.symm.trans h.nCompletedTasks
  have hd := hq.nDispatchedTasks.symm.trans h.nDispatchedTasks
  have hb := hq.nDispatchedBatches.symm.trans h.nDispatchedBatches
  have ha := hq.aborting.symm.trans h.aborting
  have hi := hq.iterating.symm.trans h.iterating
  cases p
  simp_all [resetRunTracking]

/-- What a call that ran the sequential path at all has executed. -/
theorem deliver_sequential_executes {n : Nat} {it : Iterator (Item α ε) ε} {func : Item α ε}
    {p q : Parallel α ε} {r : Result α ε} (hfunc : it.head = .ok func)
    (h : p.deliver host n (.sequential (.ok it)) = some (r, q)) : q.executed ≠ p.executed := by
  have hturn : ∃ event f, Generator.step host.dispatcher (.sequential (.ok it), p) =
      .came event (f, p.execute func) := by
    show ∃ event f, Generator.sequentialTurn it p = .came event (f, p.execute func)
    unfold Generator.sequentialTurn
    rw [hfunc]
    dsimp only
    split <;> exact ⟨_, _, rfl⟩
  obtain ⟨event, f, hturn⟩ := hturn
  have hruns : Generator.OnlyRuns (p.execute func) q := by
    cases n with
    | zero => simp [deliver, next] at h
    | succ n => exact deliver_after (next_came hturn) h
  intro heq
  have hlength := hruns.executed.length_le
  rw [heq, execute_executed, List.length_append, List.length_singleton] at hlength
  omega

theorem deliver_sequential_fails {n : Nat} {second : Iterable (Item α ε) ε} {p q : Parallel α ε}
    {e : Exc ε} (h : p.deliver host n (.sequential second) = some (.raised e, q))
    (he : e.isRuntimeError = true) (hq : q.executed = p.executed) : FailsAtOnce second ∧ q = p := by
  cases n with
  | zero => simp [deliver, next] at h
  | succ n =>
    cases second with
    | error e' =>
      have hturn : Generator.step host.dispatcher (.sequential (.error e'), p) =
          .came (.raised e'.leavingGenerator) (.finished, p) := rfl
      unfold deliver at h
      rw [next_came hturn] at h
      cases h
      exact ⟨he, rfl⟩
    | ok it =>
      cases hhead : it.head with
      | ok func => exact absurd hq (deliver_sequential_executes hhead h)
      | error e' =>
        have hturn : Generator.step host.dispatcher (.sequential (.ok it), p) =
            Generator.sequentialTurn it p := rfl
        unfold Generator.sequentialTurn at hturn
        rw [hhead] at hturn
        unfold deliver at h
        cases e' with
        | stopIteration =>
          rw [next_came hturn] at h
          cases h
          cases he
        | runtimeError message =>
          rw [next_came hturn] at h
          cases h
          exact ⟨⟨message, hhead⟩, rfl⟩
        | _ =>
          rw [next_came hturn] at h
          cases h
          cases he

/-- Outside `with`, a call that has a worker count to go by has configured the backend. -/
theorem runs_configured {p q : Parallel α ε} (h : Generator.OnlyRuns p.resetRunTracking.configureOnce q) :
    q.backend.configured ≠ p.backend.configured := by
  rw [h.eq]
  exact Nat.succ_ne_self _

theorem Refused.of_refuses {p : Parallel α ε} {second : Iterable (Item α ε) ε} (hp : IdDrawn p)
    (h : RefusesSecondCall host p second) : Refused host p second := by
  obtain ⟨n, e, q, hcall, he, hq⟩ := h
  have hreset : q = p.resetRunTracking → p.resetRunTracking = p := by
    rintro rfl
    exact hq.tracking ⟨rfl, rfl, rfl, rfl, rfl, rfl, rfl, rfl, rfl, rfl, rfl, rfl⟩
  rcases call_cases hcall with ⟨e', hw, hr, hend⟩ | ⟨hw, hdeliver⟩ | ⟨_, hr, _⟩ |
    ⟨w, calling, p', hopens, hruns⟩
  · -- the worker count raised
    cases hr
    rcases workers_cases host p.resetRunTracking with ⟨hm, h⟩ | ⟨_, message, h⟩ | ⟨_, h⟩
    · rw [h] at hw hend
      have htracking := hreset hend
      obtain ⟨message, rfl⟩ := isRuntimeError_eq he
      exact ⟨htracking, hm, .inl ⟨message, by rw [htracking] at hw; exact hw⟩⟩
    · rw [h] at hw
      cases hw
      cases he
    · rw [h] at hend
      exact absurd hq.configured (runs_configured (hend ▸ .refl _))
  · -- one worker
    rcases workers_cases host p.resetRunTracking with ⟨hm, h⟩ | ⟨_, message, h⟩ | ⟨_, h⟩
    · rw [h] at hw hdeliver
      obtain ⟨hfails, hend⟩ := deliver_sequential_fails hdeliver he hq.executed
      have htracking := hreset hend
      exact ⟨htracking, hm, .inr ⟨by rw [htracking] at hw; exact hw, hfails⟩⟩
    · rw [h] at hw
      cases hw
    · rw [h] at hdeliver
      exact absurd hq.configured (runs_configured (deliver_frame hdeliver))
  · cases hr
    cases he
  · -- a new call id
    obtain ⟨hid, hfresh⟩ := workers_callId host p
    have hrenewed : q.callId = some p.fresh := by
      rw [← hfresh, ← hopens.callId.1, hruns.eq]
    exact absurd (hp p.fresh (hq.callId.symm.trans hrenewed)) (Nat.lt_irrefl _)

theorem Refused.refuses {p : Parallel α ε} {second : Iterable (Item α ε) ε} (h : Refused host p second) :
    RefusesSecondCall host p second := by
  have huntouched : Untouched p p := ⟨rfl, rfl, rfl, rfl, rfl, rfl, rfl, rfl, rfl, rfl, rfl, rfl⟩
  have hworkers : p.resetRunTracking.workers host = (host.effectiveNJobs p, p) := by
    rw [h.tracking]
    exact if_pos h.managed
  rcases h.fails with ⟨message, hn⟩ | ⟨hn, hfails⟩
  · refine ⟨0, .runtimeError message, p, ?_, rfl, huntouched⟩
    unfold call prepare
    rw [hworkers, hn]
  · have hprepare := prepare_sequential host second p (by rw [hworkers]; exact hn)
    rw [hworkers] at hprepare
    have hcall : p.call host 1 second = p.deliver host 1 (.sequential second) := by
      unfold call
      rw [hprepare]
    cases second with
    | error e =>
      have hturn : Generator.step host.dispatcher (.sequential (.error e), p) =
          .came (.raised e.leavingGenerator) (.finished, p) := rfl
      refine ⟨1, e.leavingGenerator, p, ?_, hfails, huntouched⟩
      rw [hcall]
      unfold deliver
      rw [next_came hturn]
    | ok it =>
      obtain ⟨message, hhead⟩ := hfails
      have hturn : Generator.step host.dispatcher (.sequential (.ok it), p) =
          .came (.raised (.runtimeError message)) (.finished, p) := by
        show Generator.sequentialTurn it p = _
        unfold Generator.sequentialTurn
        rw [hhead]
        rfl
      refine ⟨1, .runtimeError message, p, ?_, rfl, huntouched⟩
      rw [hcall]
      unfold deliver
      rw [next_came hturn]

/-- **A second call is refused exactly where it fails for a reason of its own** before
it has anything to undo. -/
theorem second_call_refused_iff {p : Parallel α ε} {gs : List (Frame α ε)} (h : Reachable host p gs)
    (second : Iterable (Item α ε) ε) : RefusesSecondCall host p second ↔ Refused host p second :=
  ⟨Refused.of_refuses (reachable_idDrawn h), Refused.refuses⟩

/-! `Parallel(n_jobs=1, return_as='generator')` takes a second call while the generator
of its first has two of three tasks to go. -/

/-- A function that returns 5, delayed. -/
def five : Item Nat Empty := delayed (fun _ _ => .ok 5) [] []

/-- A generator call on one worker. -/
def streaming : Parallel Nat Empty :=
  .created 1 (.text "2 * n_jobs") .generator (.idle "SequentialBackend" false) false

/-- The instance when its call has returned. -/
def streamed : Parallel Nat Empty := streaming.resetRunTracking.configureOnce.execute five

def remaining : Frame Nat Empty := .sequentialYield (.ofList [five, five])

theorem second_call_accepted :
    Reachable (.plain Nat Empty) streamed [remaining] ∧ remaining.suspended = true ∧
      ¬ RefusesSecondCall (.plain Nat Empty) streamed (.ofList [five]) := by
  have hcall : streaming.call (.plain Nat Empty) 1 (.ofList [five, five, five]) =
      some (.generator remaining, streamed) := rfl
  have hreachable : Reachable (.plain Nat Empty) streamed [remaining] :=
    Reachable.called (.created _ _ _ _ _) hcall
  refine ⟨hreachable, rfl, fun hrefuses => ?_⟩
  have hmanaged := (Refused.of_refuses (reachable_idDrawn hreachable) hrefuses).managed
  cases hmanaged

/-- The same inside `with`. -/
def managedStreamed : Parallel Nat Empty := (streaming.enter (.plain Nat Empty)).resetRunTracking.execute five

/-- An iterable that cannot be iterated over. -/
def broken : Iterable (Item Nat Empty) Empty := .error (.runtimeError "cannot iterate")

theorem second_call_refused_broken :
    Reachable (.plain Nat Empty) managedStreamed [remaining] ∧ remaining.suspended = true ∧
      RefusesSecondCall (.plain Nat Empty) managedStreamed broken := by
  have hcall : (streaming.enter (.plain Nat Empty)).call (.plain Nat Empty) 1 (.ofList [five, five, five]) =
      some (.generator remaining, managedStreamed) := rfl
  have hreachable : Reachable (.plain Nat Empty) managedStreamed [remaining] :=
    Reachable.called (.entered (.created _ _ _ _ _)) hcall
  exact ⟨hreachable, rfl, (second_call_refused_iff hreachable broken).mpr ⟨rfl, rfl, .inr ⟨rfl, rfl⟩⟩⟩

end Parallel

end Joblib
