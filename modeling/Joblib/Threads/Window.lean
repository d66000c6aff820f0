import Joblib.Threads.Loop

/-! The `pre_dispatch` window.

`__call__` puts an `islice` of `_pre_dispatch_amount` in front of the loop, which never
looks at it: the loop dispatches from `_original_iterator`, one batch at a time and only
while no result is outstanding. So the window is not filled before the first completion
unless one batch fills it (`fills_iff`), and with `'all'`, where `_original_iterator` is
`None`, nothing is dispatched at all (`submitsAll_iff`). Later on each completed batch is
replaced by its callback, and the loop dispatches besides: the window holds where the loop
finds room for its batch beside those its callbacks still owe (`within_run`).

A `Window` adds to the system what its backend has completed. A callback is invoked once,
after its batch, and a result comes only of a completed one. -/
namespace Joblib

/-- The trackers whose batch is completed, and those of them whose callback is still to be
invoked or still to dispatch. -/
structure Window (α ε : Type) where
  system : System α ε
  completed : List Nat
  pending : List Nat

namespace Window
open Joblib.System (InCall Ledger AtHead)
variable {α ε : Type}

inductive Event (α ε : Type) where
  /-- The backend has completed the batch of a tracker. -/
  | completes (i : Nat)
  | acts (a : Action α ε)

/-- The batches submitted by the running call. -/
def submitted (w : Window α ε) : Nat := w.system.parallel.nDispatchedBatches

/-- A tracker of the running call. -/
def ofCall (s : System α ε) (i : Nat) : Bool := s.trackers[i]?.any fun t => t.call == s.idCall

/-- A tracker between its two locked blocks. -/
def inside (s : System α ε) (i : Nat) : Bool := s.trackers[i]?.any fun t => t.pc == .dispatching

/-- Whether the backend has done what the action waits for. -/
def admits (w : Window α ε) : Action α ε → Bool
  | .enter i _ _ | .dispatchNew i => w.pending.contains i
  | .retrieve _ => !w.completed.isEmpty
  | _ => true

/-- The callbacks still owed after an action that led to `s`. -/
def owed (w : Window α ε) (s : System α ε) : Action α ε → List Nat
  | .enter i _ _ => if inside s i then w.pending else w.pending.erase i
  | .dispatchNew i => w.pending.erase i
  | _ => w.pending

def step (host : Host α ε) (w : Window α ε) : Event α ε → Option (Window α ε)
  | .completes i =>
    if ofCall w.system i && !w.completed.contains i then
      some {w with completed := i :: w.completed, pending := i :: w.pending}
    else none
  | .acts a =>
    if w.admits a then (w.system.step host a).map fun s => ⟨s, w.completed, w.owed s a⟩ else none

section Steps
variable {host : Host α ε} {w w' : Window α ε}

theorem step_completes {i : Nat} (h : w.step host (.completes i) = some w') :
    w' = {w with completed := i :: w.completed, pending := i :: w.pending} := by
  simp only [step] at h
  split at h
  · exact (Option.some.inj h).symm
  · cases h

theorem step_acts {a : Action α ε} (h : w.step host (.acts a) = some w') :
    w.admits a = true ∧ ∃ s, w.system.step host a = some s ∧ w' = ⟨s, w.completed, w.owed s a⟩ := by
  simp only [step] at h
  split at h
  next hadmits =>
    obtain ⟨s, hs, heq⟩ := Option.map_eq_some_iff.mp h
    exact ⟨hadmits, s, hs, heq.symm⟩
  next => cases h

theorem step_main {s : System α ε} (h : w.system.mainStep host = some s) :
    w.step host (.acts .main) = some {w with system := s} := by
  have hs : w.system.step host .main = some s := h
  simp [step, admits, hs, owed]

/-- An action pays off at most one callback, and a `_dispatch_new` pays off its own. -/
theorem owed_length (s : System α ε) (a : Action α ε) (h : w.admits a = true) :
    (w.owed s a).length ≤ w.pending.length ∧
      ∀ i, a = .dispatchNew i → (w.owed s a).length + 1 = w.pending.length := by
  refine ⟨?_, ?_⟩
  · cases a with
    | enter i success result =>
      simp only [owed]
      split
      · exact Nat.le_refl _
      · exact List.length_erase_le
    | dispatchNew i => exact List.length_erase_le
    | _ => exact Nat.le_refl _
  · rintro i rfl
    have hmem : i ∈ w.pending := by simpa [admits] using h
    have hpos := List.length_pos_of_mem hmem
    simp only [owed, List.length_erase_of_mem hmem]
    omega

end Steps

/-! ### After the first completion -/

/-- What the call has taken from its tasks `ts` it has dispatched, and nothing else. -/
def Took (s : System α ε) (ts : List (Item α ε)) : Prop :=
  ∃ taken rest, ts = taken ++ rest ∧ s.parallel.originalIterator = some (.ofList rest) ∧
    s.parallel.nDispatchedTasks = taken.length

/-- At most `k` batches are submitted and not completed, and no task is taken but theirs. -/
structure Within (w : Window α ε) (ts : List (Item α ε)) (k : Nat) : Prop where
  outstanding : w.submitted ≤ w.completed.length + k
  took : Took w.system ts

/-- No other call begins, and a dispatch of the loop finds the iterator exhausted, or room
in the window for its batch and for one of every callback still owed. -/
def Spared (k : Nat) (w : Window α ε) (e : Event α ε) (_ : Window α ε) : Prop :=
  (∀ iterable, e ≠ .acts (.start iterable)) ∧
    (e = .acts .main → w.system.main = .dispatching →
      w.system.Exhausted ∨ w.submitted + w.pending.length < w.completed.length + k)

/-- What keeps the window: the callbacks owed are counted in. -/
structure Kept (w : Window α ε) (ts : List (Item α ε)) (k : Nat) : Prop where
  room : w.submitted + w.pending.length ≤ w.completed.length + k
  ledger : ∃ taken rest, ts = taken ++ rest ∧ Ledger w.system rest w.submitted taken.length

theorem Kept.within {w : Window α ε} {ts : List (Item α ε)} {k : Nat} (h : Kept w ts k) : Within w ts k where
  outstanding := Nat.le_trans (Nat.le_add_right _ _) h.room
  took := by
    obtain ⟨taken, rest, hts, hledger⟩ := h.ledger
    exact ⟨taken, rest, hts, hledger.iterator, hledger.tasks⟩

/-- Step: a callback sends at most the batch it owes, and the loop finds room for its own. -/
theorem Kept.step {host : Host α ε} {w w' : Window α ε} {ts : List (Item α ε)} {k : Nat} {e : Event α ε}
    (h : Kept w ts k) (hstep : w.step host e = some w') (hspared : Spared k w e w') : Kept w' ts k := by
  obtain ⟨taken, rest, hts, hledger⟩ := h.ledger
  have hroom := h.room
  cases e with
  | completes i =>
    obtain rfl := step_completes hstep
    refine ⟨?_, taken, rest, hts, hledger⟩
    simp only [submitted, List.length_cons] at hroom ⊢
    omega
  | acts a =>
    obtain ⟨hadmits, s, hs, rfl⟩ := step_acts hstep
    obtain ⟨hless, howes⟩ := owed_length s a hadmits
    have hstart : ∀ iterable, a ≠ .start iterable := fun iterable heq => hspared.1 iterable (by rw [heq])
    rcases hledger.step hs hstart with hsame | ⟨batch, left, hne, rfl, hsender, hsent⟩
    · have hsubmitted : s.parallel.nDispatchedBatches = w.submitted := hsame.batches
      refine ⟨?_, taken, rest, hts, ⟨hsame.inCall, hsame.iterator, rfl, hsame.tasks⟩⟩
      show s.parallel.nDispatchedBatches + (w.owed s a).length ≤ w.completed.length + k
      omega
    · have hsubmitted : s.parallel.nDispatchedBatches = w.submitted + 1 := hsent.batches
      refine ⟨?_, taken ++ batch, left, by rw [hts, List.append_assoc],
        ⟨hsent.inCall, hsent.iterator, rfl, by rw [hsent.tasks, List.length_append]⟩⟩
      show s.parallel.nDispatchedBatches + (w.owed s a).length ≤ w.completed.length + k
      rcases hsender with ⟨rfl, hmain⟩ | ⟨i, rfl⟩
      · rcases hspared.2 rfl hmain with hexhausted | hspace
        · have hnil := (System.exhausted_iff hledger.iterator).mp hexhausted
          exact absurd (List.append_eq_nil_iff.mp hnil).1 hne
        · omega
      · have hone := howes i rfl
        omega

/-! ### Before it -/

/-- The loop begins on `iterator`, nothing dispatched and nothing completed. -/
structure Head (w : Window α ε) (iterator : Option (Iterator (Item α ε) ε)) : Prop where
  main : w.system.main = .loopIterating
  iterator : w.system.parallel.originalIterator = iterator
  nCompletedTasks : w.system.parallel.nCompletedTasks = 0
  nDispatchedTasks : w.system.parallel.nDispatchedTasks = 0
  submitted : w.submitted = 0
  iterating : w.system.parallel.iterating = true
  aborting : w.system.parallel.aborting = false
  completed : w.completed = []
  pending : w.pending = []

theorem Head.kept {w : Window α ε} {ts : List (Item α ε)} {k : Nat} (h : Head w (some (.ofList ts))) :
    Kept w ts k where
  room := by simp [h.submitted, h.pending]
  ledger := ⟨[], ts, rfl, .inl (by rw [h.main]; rfl), h.iterator, rfl, h.nDispatchedTasks⟩

theorem Head.of_reset {s : System α ε} (hmain : s.main = .loopIterating)
    (hreset : s.parallel.resetRunTracking = s.parallel) : Head ⟨s, [], []⟩ s.parallel.originalIterator where
  main := hmain
  iterator := rfl
  nCompletedTasks := (congrArg Parallel.nCompletedTasks hreset).symm
  nDispatchedTasks := (congrArg Parallel.nDispatchedTasks hreset).symm
  submitted := (congrArg Parallel.nDispatchedBatches hreset).symm
  iterating := (congrArg Parallel.iterating hreset).symm
  aborting := (congrArg Parallel.aborting hreset).symm
  completed := rfl
  pending := rfl

/-- So it does where `__call__` opens it on a list with the counters and flags as reset, for every amount
`islice` takes, and on `None` for `'all'`. -/
theorem mainOpen_head {host : Host α ε} {s : System α ε} {nJobs : Int} {ts : List (Item α ε)} {pre : Option Int}
    (hiterable : s.iterable = .ofList ts) (hreset : s.parallel.resetRunTracking = s.parallel) (hjobs : nJobs ≠ 0)
    (hpre : Parallel.resolvePreDispatch host nJobs s.parallel.preDispatch = .ok pre)
    (htaken : ∀ amount ∈ pre, 0 ≤ amount ∧ amount ≤ Parallel.maxsize) :
    Head ⟨s.mainOpen host nJobs, [], []⟩ (pre.map fun _ => .ofList ts) ∧
      ∀ amount ∈ pre, (s.mainOpen host nJobs).parallel.preDispatchAmount = amount := by
  have hset : ∀ iterator amount, ({s.parallel with
      calling := true, originalIterator := iterator, preDispatchAmount := amount}.keepOutput).resetRunTracking =
        {s.parallel with calling := true, originalIterator := iterator, preDispatchAmount := amount}.keepOutput := by
    intro iterator amount
    rw [← hreset]
    rfl
  unfold System.mainOpen
  rw [if_neg hjobs, hiterable]
  cases pre with
  | none =>
    simp only [Parallel.openOutputs, Iterable.ofList, Parallel.setOriginalIterator, hpre]
    exact ⟨.of_reset rfl (hset none 0), by simp⟩
  | some amount =>
    have hislice : (Parallel.islice amount : Except (Exc ε) (Prefetch α ε)) = .ok (.islice amount) :=
      if_pos (htaken amount rfl)
    simp only [Parallel.openOutputs, Iterable.ofList, Parallel.setOriginalIterator, hpre, hislice]
    refine ⟨.of_reset rfl (hset (some (.ofList ts)) amount), ?_⟩
    rintro _ ⟨⟩
    rfl

/-- An amount that `islice` does not take, one above `sys.maxsize` for instance, ends the call there. -/
theorem mainOpen_refused {host : Host α ε} {s : System α ε} {nJobs amount : Int} {ts : List (Item α ε)}
    (hiterable : s.iterable = .ofList ts)
    (hpre : Parallel.resolvePreDispatch host nJobs s.parallel.preDispatch = .ok (some amount))
    (hrefused : amount < 0 ∨ Parallel.maxsize < amount) : (s.mainOpen host nJobs).main = .raised := by
  unfold System.mainOpen
  split
  · rfl
  · have hislice : (Parallel.islice amount : Except (Exc ε) (Prefetch α ε)) = .error (.valueError
        "Stop argument for islice() must be None or an integer: 0 <= x <= sys.maxsize.") :=
      if_neg fun htaken => by omega
    rw [hiterable]
    simp only [Parallel.openOutputs, Iterable.ofList, Parallel.setOriginalIterator, hpre, hislice]

/-- The running call is neither aborted nor followed by another. -/
def Undisturbed : Event α ε → Prop
  | .completes _ => True
  | .acts a => System.Undisturbed a

/-- The iterator is known to be exhausted. -/
def lowered (s : System α ε) : System α ε := {s with parallel := {s.parallel with iterating := false}}

/-- What the loop has come to before the first completion: it has not dispatched, or has
dispatched once; or it has found nothing to dispatch, or raised. -/
inductive Filling (host : Host α ε) (s₀ : System α ε) : System α ε → Prop
  | before {pc : Pc} : pc ∈ [.loopIterating, .ifCompleted, .ifDispatched 0, .elseIterating, .dispatching] →
    Filling host s₀ (s₀.goto pc)
  | sent {batch left : List (Item α ε)} {pc : Pc} : batch ≠ [] →
    (host.dispatcher.dispatchOneBatch s₀.parallel s₀.parallel.originalIterator).iterator = some (.ofList left) →
    pc ∈ [.bottom, .loopIterating, .ifCompleted, .ifDispatched 0, .retrieving] →
    Filling host s₀ ((s₀.sent batch left).goto pc)
  | clearing : s₀.parallel.originalIterator = some (.ofList []) → Filling host s₀ (s₀.goto .clearing)
  | cleared {pc : Pc} : s₀.parallel.originalIterator = some (.ofList []) →
    pc ∈ [.bottom, .loopIterating, .loopCompleted, .loopDispatched 0, .finished] →
    Filling host s₀ ((lowered s₀).goto pc)
  | raised : s₀.parallel.originalIterator = none → Filling host s₀ (s₀.goto .raised)

/-- From `None` there is no batch to take. -/
def RaisesOnNone (D : Dispatcher α ε) : Prop := ∀ p, ∃ e, D.dispatchOneBatch p none = ⟨.error e, none, p⟩

section Filling
variable {host : Host α ε} {w : Window α ε} {iterator : Option (Iterator (Item α ε) ε)} {s t : System α ε}

/-- The first dispatch. -/
theorem Filling.dispatch (hw : Head w iterator) (hiterator : (∃ ts, iterator = some (.ofList ts)) ∨
    iterator = none ∧ RaisesOnNone host.dispatcher) :
    Filling host w.system ((w.system.goto .dispatching).mainDispatch host) := by
  rcases hiterator with ⟨ts, rfl⟩ | ⟨rfl, hraises⟩
  · rcases System.mainDispatch_ofList (s := w.system.goto .dispatching) host hw.iterator with
      ⟨rfl, hrun⟩ | ⟨batch, left, hne, _, hrun⟩
    · rw [hrun]
      exact .clearing hw.iterator
    · have hleft := System.mainDispatch_iterator host (w.system.goto .dispatching)
      rw [hrun] at hleft ⊢
      exact .sent hne hleft.symm (by simp)
  · obtain ⟨e, he⟩ := hraises w.system.parallel
    have hrun : (w.system.goto .dispatching).mainDispatch host = w.system.goto .raised := by
      have hsame : {w.system.parallel with originalIterator := none} = w.system.parallel := by rw [← hw.iterator]
      unfold System.mainDispatch
      simp only [System.goto, hw.iterator, he, hsame]
      simp [System.dispatched, System.newTrackers]
    rw [hrun]
    exact .raised hw.iterator

/-- Step: before the first completion the main thread dispatches once. -/
theorem Filling.mainStep (hw : Head w iterator) (hiterator : (∃ ts, iterator = some (.ofList ts)) ∨
    iterator = none ∧ RaisesOnNone host.dispatcher)
    (h : Filling host w.system s) (ht : s.mainStep host = some t) : Filling host w.system t := by
  cases h with
  | before hpc =>
    simp only [List.mem_cons, List.not_mem_nil, or_false] at hpc
    rcases hpc with rfl | rfl | rfl | rfl | rfl <;>
      simp only [System.mainStep, System.goto, hw.iterating, hw.nCompletedTasks, hw.nDispatchedTasks,
        Option.some.injEq] at ht <;> subst ht
    · exact .before (by simp)
    · exact .before (by simp)
    · exact .before (by simp)
    · exact .before (by simp)
    · exact .dispatch hw hiterator
  | @sent batch left pc hne hleft hpc =>
    have hlt : 0 < (w.system.sent batch left).parallel.nDispatchedTasks := by
      show 0 < w.system.parallel.nDispatchedTasks + batch.length
      have := List.length_pos_of_ne_nil hne
      omega
    have haborting : (w.system.sent batch left).parallel.aborting = false := hw.aborting
    have hiterating : (w.system.sent batch left).parallel.iterating = true := hw.iterating
    have hcompleted : (w.system.sent batch left).parallel.nCompletedTasks = 0 := hw.nCompletedTasks
    simp only [List.mem_cons, List.not_mem_nil, or_false] at hpc
    rcases hpc with rfl | rfl | rfl | rfl | rfl <;>
      simp only [System.mainStep, System.goto, haborting, hiterating, hcompleted, hlt, if_true,
        Option.some.injEq, reduceCtorEq] at ht <;> subst ht <;>
      exact .sent hne hleft (by simp)
  | clearing hnone =>
    simp only [System.mainStep, System.goto, Option.some.injEq] at ht
    subst ht
    show Filling host w.system ((lowered w.system).goto .bottom)
    exact .cleared hnone (by simp)
  | cleared hnone hpc =>
    have haborting : (lowered w.system).parallel.aborting = false := hw.aborting
    have hcompleted : (lowered w.system).parallel.nCompletedTasks = 0 := hw.nCompletedTasks
    have hdispatched : (lowered w.system).parallel.nDispatchedTasks = 0 := hw.nDispatchedTasks
    have hiterating : (lowered w.system).parallel.iterating = false := rfl
    simp only [List.mem_cons, List.not_mem_nil, or_false] at hpc
    rcases hpc with rfl | rfl | rfl | rfl | rfl <;>
      simp only [System.mainStep, System.goto, haborting, hcompleted, hdispatched, hiterating,
        Option.some.injEq, reduceCtorEq] at ht <;> subst ht <;>
      exact .cleared hnone (by simp)
  | raised => simp [System.mainStep, System.goto] at ht

/-- Every state of the call before its first completion. -/
theorem filling_run (hw : Head w iterator) (hiterator : (∃ ts, iterator = some (.ofList ts)) ∨
    iterator = none ∧ RaisesOnNone host.dispatcher)
    {events : List (Event α ε)} {v : Window α ε} (hundisturbed : ∀ e ∈ events, Undisturbed e)
    (hrun : Runs.run (step host) w events = some v) (hv : v.completed = []) : Filling host w.system v.system := by
  refine (Runs.guarded_run (I := fun v => v.completed = [] → v.pending = [] ∧ Filling host w.system v.system)
    (G := fun _ e _ => Undisturbed e) ?_ (fun _ => ⟨hw.pending, ?_⟩) (.of_forall_mem ?_ _) hrun hv).2
  · intro u e u' hu hstep hundisturbed hnone
    cases e with
    | completes i =>
      obtain rfl := step_completes hstep
      cases hnone
    | acts a =>
      obtain ⟨hadmits, s, hs, rfl⟩ := step_acts hstep
      have hcompleted : u.completed = [] := hnone
      obtain ⟨hpending, hfilling⟩ := hu hcompleted
      cases a with
      | start iterable => exact hundisturbed.elim
      | abort => exact hundisturbed.elim
      | main => exact ⟨hpending, hfilling.mainStep hw hiterator hs⟩
      | retrieve raises => simp [admits, hcompleted] at hadmits
      | enter i success result => simp [admits, hpending] at hadmits
      | dispatchNew i => simp [admits, hpending] at hadmits
  · have hsame : w.system = w.system.goto .loopIterating := by
      rw [← hw.main]
      rfl
    rw [hsame]
    exact .before (by simp)
  · exact fun _ e _ he => hundisturbed e he

/-- Where the loop waits it has dispatched one batch. -/
theorem Filling.waiting {s₀ : System α ε} (h : Filling host s₀ s) (hmain : s.main = .retrieving) :
    ∃ batch left, s.parallel = System.sentParallel s₀.parallel batch left ∧
      (host.dispatcher.dispatchOneBatch s₀.parallel s₀.parallel.originalIterator).iterator = some (.ofList left) := by
  cases h with
  | sent _ hleft _ => exact ⟨_, _, rfl, hleft⟩
  | before hpc =>
    obtain rfl := hmain
    simp at hpc
  | cleared _ hpc =>
    obtain rfl := hmain
    simp at hpc
  | clearing => cases hmain
  | raised => cases hmain

end Filling

/-- Steps of the main thread alone. -/
theorem run_main {host : Host α ε} {w : Window α ε} {s : System α ε} {n : Nat}
    (h : Runs.run (System.step host) w.system (List.replicate n .main) = some s) :
    Runs.run (step host) w (List.replicate n (.acts .main)) = some {w with system := s} := by
  induction n generalizing w with
  | zero =>
    obtain rfl := Option.some.inj h
    rfl
  | succ n ih =>
    obtain ⟨s', hs', hrest⟩ := Runs.run_cons h
    rw [List.replicate_succ, Runs.run, step_main hs']
    exact ih hrest

/-- With no other thread about the loop gets to its first dispatch. -/
theorem Head.reaches_dispatching {w : Window α ε} {iterator : Option (Iterator (Item α ε) ε)} (host : Host α ε)
    (hw : Head w iterator) :
    Runs.run (System.step host) w.system (List.replicate 4 .main) = some (w.system.goto .dispatching) := by
  simp [List.replicate_succ, Runs.run, System.step, System.mainStep, System.goto, hw.main, hw.iterating, hw.nCompletedTasks,
    hw.nDispatchedTasks]

/-- And from there, over some tasks, to its wait. -/
theorem Head.reaches_retrieving {w : Window α ε} {ts : List (Item α ε)} (host : Host α ε)
    (hw : Head w (some (.ofList ts))) (hts : ts ≠ []) :
    ∃ s, Runs.run (System.step host) w.system (List.replicate 9 .main) = some s ∧ s.main = .retrieving := by
  rcases System.mainDispatch_ofList (s := w.system.goto .dispatching) host hw.iterator with
    ⟨hnil, _⟩ | ⟨batch, left, hne, _, hrun⟩
  · exact absurd hnil hts
  · refine ⟨(w.system.sent batch left).goto .retrieving, ?_, rfl⟩
    have hlt : 0 < batch.length := List.length_pos_of_ne_nil hne
    have hdispatch : (w.system.goto .dispatching).mainStep host = some ((w.system.sent batch left).goto .bottom) :=
      congrArg some hrun
    have haborting : (w.system.sent batch left).parallel.aborting = false := hw.aborting
    have hiterating : (w.system.sent batch left).parallel.iterating = true := hw.iterating
    have hcompleted : (w.system.sent batch left).parallel.nCompletedTasks = 0 := hw.nCompletedTasks
    have hdispatched : (w.system.sent batch left).parallel.nDispatchedTasks = batch.length := by
      show w.system.parallel.nDispatchedTasks + batch.length = batch.length
      rw [hw.nDispatchedTasks, Nat.zero_add]
    rw [show (List.replicate 9 (Action.main : Action α ε)) = List.replicate 4 .main ++ .main :: List.replicate 4 .main
      from rfl, Runs.run_append, hw.reaches_dispatching host, Option.bind_some, Runs.run]
    simp only [System.step, hdispatch]
    simp [List.replicate_succ, Runs.run, System.step, System.mainStep, System.goto, haborting, hiterating, hcompleted,
      hdispatched, hlt]

/-! ### The window -/

/-- The first batch the call dispatches takes all its tasks. -/
def OneBatch (host : Host α ε) (w : Window α ε) : Prop :=
  (host.dispatcher.dispatchOneBatch w.system.parallel w.system.parallel.originalIterator).iterator = some (.ofList [])

/-- Where the loop waits for the first completion, `k` batches are submitted, or all there are. -/
def Fills (host : Host α ε) (w : Window α ε) (k : Nat) : Prop :=
  ∀ events v, (∀ e ∈ events, Undisturbed e) → Runs.run (step host) w events = some v → v.completed = [] →
    v.system.main = .retrieving → v.submitted = k ∨ (v.submitted ≤ k ∧ v.system.Exhausted)

/-- Where the generator waits for the first completion, or has ended, all tasks are submitted. -/
def SubmitsAll (host : Host α ε) (w : Window α ε) (ts : List (Item α ε)) : Prop :=
  ∀ events v, (∀ e ∈ events, Undisturbed e) → Runs.run (step host) w events = some v → v.completed = [] →
    v.system.main = .retrieving ∨ v.system.main = .finished ∨ v.system.main = .raised →
      v.system.parallel.nDispatchedTasks = ts.length

theorem undisturbed_main (n : Nat) : ∀ e ∈ List.replicate n (Event.acts (Action.main : Action α ε)), Undisturbed e := by
  intro e he
  obtain rfl := List.eq_of_mem_replicate he
  trivial

/-- **The window is filled exactly when one batch fills it.** -/
theorem fills_iff {host : Host α ε} {w : Window α ε} {ts : List (Item α ε)} {k : Nat} (hk : 1 ≤ k)
    (hw : Head w (some (.ofList ts))) : Fills host w k ↔ k = 1 ∨ OneBatch host w := by
  have hwaiting : ∀ {events v}, (∀ e ∈ events, Undisturbed e) → Runs.run (step host) w events = some v →
      v.completed = [] → v.system.main = .retrieving → v.submitted = 1 ∧ (v.system.Exhausted ↔ OneBatch host w) := by
    intro events v hundisturbed hrun hv hmain
    obtain ⟨batch, left, hparallel, hleft⟩ := (filling_run hw (.inl ⟨ts, rfl⟩) hundisturbed hrun hv).waiting hmain
    refine ⟨?_, ?_⟩
    · have hsubmitted : v.submitted = w.submitted + 1 := congrArg Parallel.nDispatchedBatches hparallel
      rw [hsubmitted, hw.submitted]
    · have hiterator : v.system.parallel.originalIterator = some (.ofList left) :=
        congrArg Parallel.originalIterator hparallel
      rw [System.exhausted_iff hiterator, OneBatch, hleft, Option.some_inj, Iterator.ofList_eq_nil]
  constructor
  · intro hfills
    by_cases hts : ts = []
    · subst hts
      right
      rw [OneBatch, hw.iterator, host.dispatcher.exhausted _ _ rfl]
    · obtain ⟨s, hrun, hmain⟩ := hw.reaches_retrieving host hts
      have hrun := run_main hrun
      obtain ⟨hone, hexhausted⟩ := hwaiting (undisturbed_main 9) hrun hw.completed hmain
      rcases hfills _ _ (undisturbed_main 9) hrun hw.completed hmain with hfull | ⟨_, hdone⟩
      · exact .inl (hfull.symm.trans hone)
      · exact .inr (hexhausted.mp hdone)
  · intro hcond events v hundisturbed hrun hv hmain
    obtain ⟨hone, hexhausted⟩ := hwaiting hundisturbed hrun hv hmain
    rcases hcond with rfl | honeBatch
    · exact .inl hone
    · exact .inr ⟨hone ▸ hk, hexhausted.mpr honeBatch⟩

/-- **With `'all'` every batch is submitted exactly when there is none.** -/
theorem submitsAll_iff {host : Host α ε} {w : Window α ε} (hnone : RaisesOnNone host.dispatcher) (hw : Head w none)
    (ts : List (Item α ε)) : SubmitsAll host w ts ↔ ts = [] := by
  constructor
  · intro hall
    obtain ⟨e, he⟩ := hnone w.system.parallel
    have hdispatch : ((w.system.goto .dispatching).mainDispatch host).main = .raised ∧
        ((w.system.goto .dispatching).mainDispatch host).parallel.nDispatchedTasks = 0 := by
      unfold System.mainDispatch
      simp only [System.goto, hw.iterator, he]
      exact ⟨trivial, hw.nDispatchedTasks⟩
    have hrun : Runs.run (System.step host) w.system (List.replicate 5 .main) =
        some ((w.system.goto .dispatching).mainDispatch host) := by
      rw [show (List.replicate 5 (Action.main : Action α ε)) = List.replicate 4 .main ++ [.main] from rfl,
        Runs.run_append, hw.reaches_dispatching host]
      rfl
    have hlength := hall _ _ (undisturbed_main 5) (run_main hrun) hw.completed (.inr (.inr hdispatch.1))
    exact List.length_eq_zero_iff.mp (hlength.symm.trans hdispatch.2)
  · rintro rfl events v hundisturbed hrun hv _
    have hfilling := filling_run hw (.inr ⟨rfl, hnone⟩) hundisturbed hrun hv
    obtain ⟨system, completed, pending⟩ := v
    cases hfilling with
    | sent _ hleft _ =>
      have hkeeps := (host.dispatcher.keepsNone w.system.parallel w.system.parallel.originalIterator).mpr hw.iterator
      rw [hkeeps] at hleft
      cases hleft
    | before => exact hw.nDispatchedTasks
    | clearing => exact hw.nDispatchedTasks
    | cleared => exact hw.nDispatchedTasks
    | raised => exact hw.nDispatchedTasks

/-- Every state reached by spared steps is within the window. -/
theorem within_run {host : Host α ε} {w v : Window α ε} {ts : List (Item α ε)} {k : Nat}
    (hw : Head w (some (.ofList ts))) {events : List (Event α ε)} (hspared : Runs.Every (step host) (Spared k) w events)
    (hrun : Runs.run (step host) w events = some v) : Within v ts k :=
  (Runs.guarded_run (I := fun v => Kept v ts k) (fun _ _ _ h hstep hguard => h.step hstep hguard) hw.kept hspared
    hrun).within

/-- **The window of `k` batches is filled exactly when one batch fills it, and is kept in every
run whose steps are spared; with `'all'` nothing is submitted.** -/
theorem pre_dispatch_window (host : Host α ε) (w : Window α ε) (ts : List (Item α ε)) :
    (∀ k : Nat, 1 ≤ k → w.system.parallel.preDispatchAmount = k → Head w (some (.ofList ts)) →
      (Fills host w k ↔ k = 1 ∨ OneBatch host w) ∧
        ∀ events v, Runs.Every (step host) (Spared k) w events → Runs.run (step host) w events = some v →
          Within v ts k) ∧
      (RaisesOnNone host.dispatcher → Head w none → w.system.iterable = .ofList ts →
        (SubmitsAll host w ts ↔ ts = [])) :=
  ⟨fun _ hk _ hw => ⟨fills_iff hk hw, fun _ _ hspared hrun => within_run hw hspared hrun⟩,
    fun hnone hw _ => submitsAll_iff hnone hw ts⟩

/-- A call with `pre_dispatch=amount` over `ts`, up to the loop. -/
def called (preDispatch : PreDispatch) (ts : List (Item Nat Empty)) : Window Nat Empty :=
  let s := System.created (.created 2 preDispatch .list (.idle "LokyBackend" true) true)
  ⟨(Runs.run (System.step (.plain Nat Empty)) s (.start (.ofList ts) :: List.replicate 8 .main)).getD s, [], []⟩

theorem called_head {amount : Int} (hamount : 0 ≤ amount ∧ amount ≤ Parallel.maxsize) (ts : List (Item Nat Empty)) :
    Head (called (.count amount) ts) (some (.ofList ts)) ∧
      (called (.count amount) ts).system.parallel.preDispatchAmount = amount := by
  -- the last step is the one that opens the loop
  let s := (Runs.run (System.step (.plain Nat Empty)) (.created (.created 2 (.count amount) .list
    (.idle "LokyBackend" true) true)) (.start (.ofList ts) :: List.replicate 7 .main)).getD (.created
      (.created 2 (.count amount) .list (.idle "LokyBackend" true) true))
  have hopens : called (.count amount) ts = ⟨s.mainOpen (.plain Nat Empty) 2, [], []⟩ := rfl
  have hpre : Parallel.resolvePreDispatch (.plain Nat Empty) 2 s.parallel.preDispatch = .ok (some amount) := rfl
  obtain ⟨hhead, hset⟩ := mainOpen_head rfl rfl (by decide) hpre (by rintro _ ⟨⟩; exact hamount)
  rw [hopens]
  exact ⟨hhead, hset amount rfl⟩

def twoTasks : List (Item Nat Empty) := [delayed (fun _ _ => .ok 1) [] [], delayed (fun _ _ => .ok 2) [] []]

def threeTasks : List (Item Nat Empty) := delayed (fun _ _ => .ok 0) [] [] :: twoTasks

/-- The first batch goes out and is completed, and its callback sends the second. -/
def replaced : List (Event Nat Empty) :=
  List.replicate 4 (.acts .main) ++ .acts .main :: List.replicate 4 (.acts .main) ++
    [.completes 0, .acts (.enter 0 true (.value 1)), .acts (.dispatchNew 0)]

theorem pre_dispatch_window_replaced :
    Fills (.plain Nat Empty) (called (.count 1) twoTasks) 1 ∧
      (∃ v, Runs.run (step (.plain Nat Empty)) (called (.count 1) twoTasks) replaced = some v ∧ v.submitted = 2 ∧
        Within v twoTasks 1) ∧
      SubmitsAll (.plain Nat Empty) (called (.text "all") []) [] := by
  have hwindow := (pre_dispatch_window (.plain Nat Empty) (called (.count 1) twoTasks) twoTasks).1 1 (Nat.le_refl 1)
    rfl (called_head (by decide) twoTasks).1
  refine ⟨hwindow.1.mpr (.inl rfl), ⟨_, rfl, rfl, hwindow.2 replaced _ ?_ rfl⟩, ?_⟩
  · iterate 4 refine .cons rfl ⟨by simp, fun _ h => absurd h (by decide)⟩ ?_
    refine .cons rfl ⟨by simp, fun _ _ => .inr (by decide)⟩ ?_
    iterate 4 refine .cons rfl ⟨by simp, fun _ h => absurd h (by decide)⟩ ?_
    refine .of_forall_mem (fun _ e _ he => ?_) _
    have he : e ∈ [.completes 0, .acts (.enter 0 true (.value 1)), .acts (.dispatchNew 0)] := he
    simp only [List.mem_cons, List.not_mem_nil, or_false] at he
    rcases he with rfl | rfl | rfl <;> simp [Spared]
  · exact ((pre_dispatch_window (.plain Nat Empty) (called (.text "all") []) []).2
      (fun p => ⟨_, rfl⟩) ⟨rfl, rfl, rfl, rfl, rfl, rfl, rfl, rfl, rfl⟩ rfl).mpr rfl

/-! With `pre_dispatch=2` the loop waits with the first of two batches out. With
`pre_dispatch=1` the loop sends a second batch while the callback of the first is still to
send one, and two are out. -/

def sentTwice : List (Event Nat Empty) :=
  List.replicate 9 (.acts .main) ++ .completes 0 :: .acts (.retrieve false) :: List.replicate 8 (.acts .main) ++
    [.acts (.enter 0 true (.value 1)), .acts (.dispatchNew 0)]

theorem window_of_two_unfilled :
    ((called (.count 2) twoTasks).system.parallel.preDispatchAmount = 2 ∧
        Head (called (.count 2) twoTasks) (some (.ofList twoTasks)) ∧
        ¬ Fills (.plain Nat Empty) (called (.count 2) twoTasks) 2) ∧
      ∃ v, Runs.run (step (.plain Nat Empty)) (called (.count 1) threeTasks) sentTwice = some v ∧
        v.submitted = 3 ∧ v.completed.length = 1 := by
  refine ⟨⟨rfl, (called_head (by decide) twoTasks).1, fun h => ?_⟩, _, rfl, rfl, rfl⟩
  rcases h (List.replicate 9 (.acts .main)) _ (undisturbed_main 9) rfl rfl rfl with hfull | ⟨_, hexhausted⟩
  · exact absurd hfull (by decide)
  · cases (System.exhausted_iff rfl).mp hexhausted

end Window

end Joblib
