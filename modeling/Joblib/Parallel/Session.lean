import Joblib.Parallel.Sequential
import Joblib.Parallel.Concurrent

/-! One instance, used again and again.

What a caller gets of a call depends on `return_as` and on the tasks, and on nothing else: not on
the number of workers, not on how the tasks are batched, not on the calls made before
(`session_outcomes`), and with several workers not on the amount `pre_dispatch` comes to, as long as
`islice` takes it. `'all'` comes to none: it leaves `dispatch_next` without an iterator (`Serves`).

A generator handed out is never far ahead of its consumer. With one worker it has called the tasks
whose values were taken and the one that priming lost. With more it has submitted at most one batch
beyond the results asked for, whatever the iterable, if no callback dispatches besides
(`streams_lazily`). -/
namespace Joblib.Parallel
open Resumable (Drained drain next Taken)

variable {α ε : Type} {host : Host α ε}

/-! ### Sessions -/

/-- The attributes `__init__` and `with` set and a call leaves alone. -/
structure SameSettings (p q : Parallel α ε) : Prop where
  nJobs : q.nJobs = p.nJobs
  preDispatch : q.preDispatch = p.preDispatch
  returnAs : q.returnAs = p.returnAs
  hasLock : q.hasLock = p.hasLock
  managedBackend : q.managedBackend = p.managedBackend

theorem SameSettings.trans {p q r : Parallel α ε} (h : SameSettings p q) (h' : SameSettings q r) : SameSettings p r :=
  ⟨h'.nJobs.trans h.nJobs, h'.preDispatch.trans h.preDispatch, h'.returnAs.trans h.returnAs,
    h'.hasLock.trans h.hasLock, h'.managedBackend.trans h.managedBackend⟩

theorem SameSettings.runs {p q : Parallel α ε} (h : Generator.OnlyRuns p q) : SameSettings p q := by
  rw [h.eq]
  exact ⟨rfl, rfl, rfl, rfl, rfl⟩

theorem SameSettings.opens {p q : Parallel α ε} (h : OnlyOpens p q) : SameSettings p q := by
  rw [h.eq]
  exact ⟨rfl, rfl, rfl, rfl, rfl⟩

theorem SameSettings.workers (host : Host α ε) (p : Parallel α ε) :
    SameSettings p (p.resetRunTracking.workers host).2 := by
  obtain ⟨configured, hframe⟩ := workers_frame host p.resetRunTracking
  rw [hframe]
  exact ⟨rfl, rfl, rfl, rfl, rfl⟩

theorem SameSettings.call {n : Nat} {iterable : Iterable (Item α ε) ε} {p q : Parallel α ε} {r : Result α ε}
    (h : p.call host n iterable = some (r, q)) : SameSettings p q := by
  have hworkers := SameSettings.workers host p
  rcases call_cases h with ⟨_, _, _, rfl⟩ | ⟨_, hdeliver⟩ | ⟨_, _, rfl⟩ | ⟨w, calling, p', hopens, hruns⟩
  · exact hworkers
  · exact hworkers.trans (.runs (deliver_frame hdeliver))
  · exact hworkers
  · have henter : SameSettings (p.resetRunTracking.workers host).2
        ((p.resetRunTracking.workers host).2.enterConcurrent w calling) := ⟨rfl, rfl, rfl, rfl, rfl⟩
    exact ((hworkers.trans henter).trans (.opens hopens)).trans (.runs hruns)

theorem SameSettings.callAndExhaust {n : Nat} {iterable : Iterable (Item α ε) ε} {p q : Parallel α ε}
    {d : Drained α (Exc ε)} (h : p.callAndExhaust host n iterable = some (d, q)) : SameSettings p q := by
  obtain ⟨⟨r, p'⟩, hcall, hexhaust⟩ := Option.bind_eq_some_iff.mp h
  have hfirst := SameSettings.call hcall
  cases r with
  | list values =>
    cases hexhaust
    exact hfirst
  | raised e =>
    cases hexhaust
    exact hfirst
  | generator output =>
    obtain ⟨⟨d', f, q'⟩, hdrain, heq⟩ := Option.map_eq_some_iff.mp hexhaust
    obtain ⟨rfl, rfl⟩ : d' = d ∧ q' = q := by simpa using heq
    exact hfirst.trans (.runs (Generator.drain_frame _ hdrain))

/-- Calls one after another, each run to its end. -/
def session (host : Host α ε) (n : Nat) :
    List (List (Item α ε)) → Parallel α ε → Option (List (Drained α (Exc ε)) × Parallel α ε)
  | [], p => some ([], p)
  | ts :: rest, p =>
    (p.callAndExhaust host n (.ofList ts)).bind fun r =>
      (session host n rest r.2).map fun s => (r.1 :: s.1, s.2)

theorem callAndExhaust_mono {n m : Nat} {iterable : Iterable (Item α ε) ε} {p : Parallel α ε}
    {d : Drained α (Exc ε) × Parallel α ε} (h : p.callAndExhaust host n iterable = some d) (hnm : n ≤ m) :
    p.callAndExhaust host m iterable = some d := by
  obtain ⟨r, hr, hd⟩ := Option.bind_eq_some_iff.mp h
  exact Option.bind_eq_some_iff.mpr ⟨r, call_mono hr hnm, exhaust_mono hd hnm⟩

theorem session_mono {n m : Nat} {tss : List (List (Item α ε))} {p : Parallel α ε}
    {r : List (Drained α (Exc ε)) × Parallel α ε} (h : session host n tss p = some r) (hnm : n ≤ m) :
    session host m tss p = some r := by
  induction tss generalizing p r with
  | nil => exact h
  | cons ts rest ih =>
    obtain ⟨d, hd, hrest⟩ := Option.bind_eq_some_iff.mp h
    obtain ⟨s, hs, rfl⟩ := Option.map_eq_some_iff.mp hrest
    exact Option.bind_eq_some_iff.mpr ⟨d, callAndExhaust_mono hd hnm, Option.map_eq_some_iff.mpr ⟨s, ih hs, rfl⟩⟩

/-- Whatever the calls before have left behind, `w` workers are granted: the count goes by the settings. -/
def Grants (host : Host α ε) (w : Int) (p : Parallel α ε) : Prop :=
  ∀ q, SameSettings p q → (q.resetRunTracking.workers host).1 = .ok w

/-- The sequential path, or the concurrent one with its attributes, an amount for `islice` and a backend
that owes no result. -/
def Serves (host : Host α ε) (w : Int) (p : Parallel α ε) : Prop :=
  w = 1 ∨ 2 ≤ w ∧ p.hasLock = true ∧ HasWindow host w p ∧ p.backend.retrieved = p.backend.submitted.length

/-- One call of a session: its outcome, and an instance that serves the next. -/
theorem call_outcome {w : Int} {p : Parallel α ε} (hgrants : Grants host w p) (hserves : Serves host w p)
    (ts : List (Item α ε)) :
    ∃ n q, p.callAndExhaust host n (.ofList ts) = some (outcome p.returnAs ts, q) ∧
      (w = 1 ∨ (results ts).error = none → Serves host w q) := by
  have hw := hgrants p ⟨rfl, rfl, rfl, rfl, rfl⟩
  rcases hserves with rfl | ⟨h2, hlock, hwindow, hidle⟩
  · obtain ⟨q, hcall, _⟩ := call_sequential host ts p hw
    exact ⟨_, q, hcall, fun _ => .inl rfl⟩
  · obtain ⟨n, q, hcall, hend⟩ := call_concurrent host ts p hw h2 hlock hwindow hidle
    refine ⟨n, q, hcall, fun herror => ?_⟩
    have hsame := SameSettings.callAndExhaust hcall
    obtain ⟨_, _, _, hidle'⟩ := hend (herror.resolve_left (by omega))
    refine .inr ⟨h2, hsame.hasLock.trans hlock, ?_, hidle'⟩
    unfold HasWindow
    rw [hsame.preDispatch]
    exact hwindow

theorem pair_grants (preDispatch : PreDispatch) : Grants (.plain Nat Empty) 2 (pair preDispatch) := by
  intro q hq
  have hmanaged : q.resetRunTracking.managedBackend = false := hq.managedBackend
  have hnJobs : q.resetRunTracking.nJobs = 2 := hq.nJobs
  unfold workers initializeBackend
  rw [hmanaged, hnJobs]
  rfl

section Sequential
variable {D : Dispatcher α ε}

/-- The sequential generator that began with `executed` called has given `values`, the tasks for which
are called, and `rest` is to come. -/
inductive Streamed (executed : List (Item α ε)) (ts : List (Item α ε)) : List α → Generator α ε → Prop
  | start {p : Parallel α ε} : p.executed = executed → Streamed executed ts [] (.sequential (.ofList ts), p)
  | suspended {values : List α} {taken rest : List (Item α ε)} {p : Parallel α ε} : ts = taken ++ rest →
    taken.length = values.length → p.executed = executed ++ taken →
    Streamed executed ts values (.sequentialYield (.ofList rest), p)

theorem Streamed.turn {executed ts taken rest : List (Item α ε)} {values : List α} {v : α} {n : Nat}
    {g g' : Generator α ε} {p : Parallel α ε} (hg : Generator.step D g = Generator.sequentialTurn (.ofList rest) p)
    (hts : ts = taken ++ rest) (htaken : taken.length = values.length) (hp : p.executed = executed ++ taken)
    (h : next (Generator.step D) n g = some (.yielded v, g')) : Streamed executed ts (values ++ [v]) g' := by
  cases n with
  | zero => cases h
  | succ n =>
    cases rest with
    | nil =>
      rw [sequentialTurn_nil] at hg
      rw [Resumable.next_came hg] at h
      cases h
    | cons task rest =>
      cases hcall : task.call with
      | error e =>
        rw [sequentialTurn_raise hcall] at hg
        rw [Resumable.next_came hg] at h
        cases h
      | ok value =>
        rw [sequentialTurn_value hcall] at hg
        rw [Resumable.next_came hg] at h
        cases h
        have hts' : ts = (taken ++ [task]) ++ rest := by rw [hts, List.append_assoc, List.singleton_append]
        refine .suspended hts' ?_ ?_
        · simp [htaken]
        · rw [execute_executed, hp, List.append_assoc]

theorem Streamed.next {executed ts : List (Item α ε)} {values : List α} {v : α} {n : Nat} {g g' : Generator α ε}
    (hg : Streamed executed ts values g) (h : next (Generator.step D) n g = some (.yielded v, g')) :
    Streamed executed ts (values ++ [v]) g' := by
  cases hg with
  | @start p hp =>
    have hnone : ts = [] ++ ts := rfl
    exact .turn (p := p) rfl hnone rfl (by simpa using hp) h
  | @suspended values taken rest p hts htaken hp => exact .turn (p := p.complete) rfl hts htaken hp h

theorem Streamed.taken {executed ts : List (Item α ε)} {p : Parallel α ε} {values : List α} {g : Generator α ε}
    (hp : p.executed = executed) (h : Taken (Generator.step D) (.sequential (.ofList ts), p) values g) :
    Streamed executed ts values g := by
  induction h with
  | nothing => exact .start hp
  | more _ hnext ih => exact ih.next hnext

theorem Streamed.executed {executed ts : List (Item α ε)} {values : List α} {g : Generator α ε}
    (h : Streamed executed ts values g) : g.2.executed = executed ++ ts.take values.length := by
  cases h with
  | start hp => simpa using hp
  | suspended hts htaken hp => rw [hts, ← htaken, List.take_left, hp]

end Sequential

section Outputs
variable {D : Dispatcher α ε} {start : List (Item α ε)}

/-- What one `dispatch_one_batch` has submitted, or nothing. -/
def OneBatch (D : Dispatcher α ε) (batch : List (Item α ε)) : Prop :=
  batch = [] ∨ ∃ p it, (D.dispatchOneBatch p it).parallel.backend.submitted = p.backend.submitted ++ batch

/-- Of what the loop has submitted after `start`, all but one batch is accounted for by `taken` results. -/
def BatchAhead (D : Dispatcher α ε) (start : List (Item α ε)) (taken : Nat) (p : Parallel α ε) : Prop :=
  ∃ earlier batch, p.backend.submitted = start ++ (earlier ++ batch) ∧ earlier.length ≤ taken ∧ OneBatch D batch

/-- All but the last batch has been retrieved and counted. -/
structure OneAhead (D : Dispatcher α ε) (start : List (Item α ε)) (p : Parallel α ε) : Prop where
  ahead : BatchAhead D start p.nCompletedTasks p
  dispatched : p.nDispatchedTasks + start.length = p.backend.submitted.length

/-- A generator of the concurrent path that is at most one batch ahead. -/
def StreamsOutputs (D : Dispatcher α ε) (start : List (Item α ε)) (g : Generator α ε) : Prop :=
  (∃ iterator, g.1 = .outputs iterator ∨ g.1 = .outputsYield iterator ∨ g.1 = .finished) ∧ OneAhead D start g.2

/-- With every result counted, the next batch is the only one ahead. -/
theorem OneAhead.dispatchNext {p : Parallel α ε} (h : OneAhead D start p)
    (hall : ¬ p.nCompletedTasks < p.nDispatchedTasks) : OneAhead D start (p.dispatchNext D).2 := by
  obtain ⟨hcompleted, _, hdispatched⟩ := dispatchNext_counts D h.dispatched
  obtain ⟨earlier, batch, hsubmitted, _, _⟩ := h.ahead
  obtain ⟨batch', hbatch⟩ := (dispatchNext_frame D p).grows
  have hone : (p.dispatchNext D).2.backend = (D.dispatchOneBatch p p.originalIterator).parallel.backend := by
    unfold Parallel.dispatchNext
    dsimp only
    split <;> rfl
  refine ⟨⟨earlier ++ batch, batch', ?_, ?_, .inr ⟨p, p.originalIterator, hone ▸ hbatch.symm⟩⟩, hdispatched⟩
  · rw [← hbatch, hsubmitted, List.append_assoc]
  · have hlength := congrArg List.length hsubmitted
    have hcount := h.dispatched
    rw [List.length_append] at hlength
    rw [hcompleted]
    omega

theorem OneAhead.retrieved {p : Parallel α ε} (h : OneAhead D start p) :
    OneAhead D start (p.withBackend {p.backend with retrieved := p.backend.retrieved + 1}) :=
  ⟨h.ahead, h.dispatched⟩

theorem OneAhead.complete {p : Parallel α ε} (h : OneAhead D start p) : OneAhead D start p.complete := by
  obtain ⟨earlier, batch, hsubmitted, hle, hone⟩ := h.ahead
  exact ⟨⟨earlier, batch, hsubmitted, Nat.le_succ_of_le hle, hone⟩, h.dispatched⟩

/-- A turn of the loop, whose only dispatch comes when every result is counted. -/
theorem StreamsOutputs.turn {g g' : Generator α ε} (hg : StreamsOutputs D start g)
    (h : (Generator.step D g).state = some g') : StreamsOutputs D start g' := by
  obtain ⟨frame, p⟩ := g
  obtain ⟨⟨iterator, hframe⟩, hahead⟩ := hg
  have hahead : OneAhead D start p := hahead
  have hraise : ∀ (e : Exc ε) (q : Parallel α ε), OneAhead D start q → (Generator.raise e q).state = some g' →
      StreamsOutputs D start g' := by
    intro e q hq h
    cases h
    exact ⟨⟨iterator, .inr (.inr rfl)⟩, hq⟩
  have hbottom : ∀ q : Parallel α ε, OneAhead D start q → (Generator.outputsBottom iterator q).state = some g' →
      StreamsOutputs D start g' := by
    intro q hq h
    rcases Generator.outputsBottom_cases iterator q with hturn | ⟨e, hturn⟩ <;> rw [hturn] at h
    · cases h
      exact ⟨⟨iterator, .inl rfl⟩, hq⟩
    · exact hraise e q hq h
  rcases hframe with rfl | rfl | rfl
  · change (Generator.outputsTurn D iterator p).state = some g' at h
    by_cases hlt : p.nCompletedTasks < p.nDispatchedTasks
    · rw [Generator.outputsTurn_retrieve hlt] at h
      cases hr : p.backend.retrieve with
      | none =>
        rw [hr] at h
        cases h
      | some r =>
        obtain ⟨outcome, b⟩ := r
        obtain ⟨task, _, _, rfl⟩ := Generator.retrieve_cases hr
        rw [hr] at h
        cases outcome with
        | ok value =>
          cases h
          exact ⟨⟨iterator, .inr (.inl rfl)⟩, hahead.retrieved⟩
        | error e => exact hraise e _ hahead.retrieved h
    · cases hi : p.iterating with
      | false =>
        rw [Generator.outputsTurn_stop hlt hi] at h
        cases h
        exact ⟨⟨iterator, .inr (.inr rfl)⟩, hahead⟩
      | true =>
        rw [Generator.outputsTurn_dispatch hlt hi] at h
        have hdispatched := hahead.dispatchNext (D := D) hlt
        cases hd : p.dispatchNext D with
        | mk outcome q =>
          rw [hd] at h hdispatched
          cases outcome with
          | ok more => exact hbottom q hdispatched h
          | error e => exact hraise e q hdispatched h
  · exact hbottom p.complete hahead.complete h
  · cases h
    exact ⟨⟨iterator, .inr (.inr rfl)⟩, hahead⟩

theorem outputs_counts : Resumable.Counts (Generator.step D) (StreamsOutputs D start) retrieved where
  keeps hg h := hg.turn h
  silent := by
    rintro ⟨frame, p⟩ g' ⟨⟨iterator, hframe⟩, hahead⟩ h
    obtain ⟨hcompleted, _⟩ := dispatchNext_counts D hahead.dispatched
    rcases hframe with rfl | rfl | rfl
    · change Generator.outputsTurn D iterator p = _ at h
      rcases Generator.outputsTurn_cases D iterator p with hturn | ⟨_, _, hturn⟩ | ⟨_, _, hturn⟩ | hturn |
        ⟨_, hturn⟩ | hturn <;> rw [hturn] at h <;> cases h
      exact hcompleted
    · change Generator.outputsBottom iterator p.complete = _ at h
      rcases Generator.outputsBottom_cases iterator p.complete with hturn | ⟨_, hturn⟩ <;> rw [hturn] at h <;> cases h
      rfl
    · cases h
  yielded := by
    rintro ⟨frame, p⟩ g' v ⟨⟨iterator, hframe⟩, _⟩ h
    rcases hframe with rfl | rfl | rfl
    · change Generator.outputsTurn D iterator p = _ at h
      rcases Generator.outputsTurn_cases D iterator p with hturn | ⟨_, _, hturn⟩ | ⟨_, _, hturn⟩ | hturn |
        ⟨_, hturn⟩ | hturn <;> rw [hturn] at h <;> cases h
      rfl
    · change Generator.outputsBottom iterator p.complete = _ at h
      rcases Generator.outputsBottom_cases iterator p.complete with hturn | ⟨_, hturn⟩ <;> rw [hturn] at h <;> cases h
    · cases h

/-- A value comes only where the loop retrieves. -/
theorem next_outputsYield {n : Nat} {g g' : Generator α ε} {v : α} (hg : StreamsOutputs D start g)
    (h : next (Generator.step D) n g = some (.yielded v, g')) : ∃ iterator, g'.1 = .outputsYield iterator := by
  induction n generalizing g with
  | zero => cases h
  | succ n ih =>
    simp only [next] at h
    cases ht : Generator.step D g with
    | blocked =>
      rw [ht] at h
      cases h
    | silent g'' =>
      rw [ht] at h
      exact ih (hg.turn (by rw [ht]; rfl)) h
    | came event g'' =>
      rw [ht] at h
      obtain ⟨rfl, rfl⟩ : event = .yielded v ∧ g'' = g' := by simpa using h
      obtain ⟨frame, p⟩ := g
      obtain ⟨⟨iterator, hframe⟩, _⟩ := hg
      rcases hframe with rfl | rfl | rfl
      · change Generator.outputsTurn D iterator p = _ at ht
        rcases Generator.outputsTurn_cases D iterator p with hturn | ⟨_, _, hturn⟩ | ⟨_, _, hturn⟩ | hturn |
          ⟨_, hturn⟩ | hturn <;> rw [hturn] at ht <;> cases ht
        exact ⟨iterator, rfl⟩
      · change Generator.outputsBottom iterator p.complete = _ at ht
        rcases Generator.outputsBottom_cases iterator p.complete with hturn | ⟨_, hturn⟩ <;> rw [hturn] at ht <;>
          cases ht
      · cases ht

/-- What has been submitted when `values` have been taken after a first one. -/
theorem StreamsOutputs.taken {g g' : Generator α ε} {v : α} {values : List α} (hg : StreamsOutputs D start g)
    (hbegin : retrieved g = 0) (h : Taken (Generator.step D) g (v :: values) g') :
    BatchAhead D start values.length g'.2 := by
  obtain ⟨hend, hcount⟩ := outputs_counts.taken hg h
  obtain ⟨earlier, batch, hsubmitted, hle, hone⟩ := hend.2.ahead
  have hcompleted : retrieved g' = g'.2.nCompletedTasks + 1 := by
    generalize hall : v :: values = all at h
    cases h with
    | nothing => cases hall
    | more hbefore hnext =>
      obtain ⟨iterator, hframe⟩ := next_outputsYield (outputs_counts.taken hg hbefore).1 hnext
      obtain ⟨frame, q⟩ := g'
      obtain rfl : frame = .outputsYield iterator := hframe
      rfl
  simp only [List.length_cons] at hcount
  exact ⟨earlier, batch, hsubmitted, by omega, hone⟩

end Outputs

/-! ### A generator in its caller's hands -/

/-- A generator handed out has been resumed once. -/
theorem deliver_generator {n : Nat} {output f : Frame α ε} {p q : Parallel α ε}
    (h : p.deliver host n output = some (.generator f, q)) :
    ∃ v, next (Generator.step host.dispatcher) n (output, p) = some (.yielded v, (f, q)) := by
  unfold deliver at h
  cases hn : next (Generator.step host.dispatcher) n (output, p) with
  | none => simp [hn] at h
  | some came =>
    obtain ⟨event, output', p'⟩ := came
    rw [hn] at h
    cases event with
    | stopped => cases h
    | raised e => cases h
    | yielded v =>
      dsimp only at h
      split at h
      · cases h
        exact ⟨v, rfl⟩
      · obtain ⟨r, _, heq⟩ := Option.map_eq_some_iff.mp h
        split at heq <;> cases heq

variable (host) in
/-- **A generator is never far ahead of its consumer.** With one worker it has called one task more
than the values taken from it; with more, and no callback about, all it has submitted but its last
batch comes to at most one result more. -/
theorem streams_lazily {n : Nat} {p q : Parallel α ε} {f : Frame α ε} {values : List α} {g : Generator α ε}
    (htaken : Taken (Generator.step host.dispatcher) (f, q) values g) :
    (∀ ts, (p.resetRunTracking.workers host).1 = .ok 1 → p.call host n (.ofList ts) = some (.generator f, q) →
      g.2.executed = p.executed ++ ts.take (values.length + 1)) ∧
    ∀ w iterable, (p.resetRunTracking.workers host).1 = .ok w → 2 ≤ w →
      p.call host n iterable = some (.generator f, q) →
        BatchAhead host.dispatcher p.backend.submitted values.length g.2 := by
  obtain ⟨configured, hframe⟩ := workers_frame host p.resetRunTracking
  refine ⟨fun ts hw hcall => ?_, fun w iterable hw h2 hcall => ?_⟩
  · unfold call at hcall
    rw [prepare_sequential host (.ofList ts) p hw] at hcall
    obtain ⟨v, hfirst⟩ := deliver_generator hcall
    have hexecuted : (p.resetRunTracking.workers host).2.executed = p.executed := by
      rw [hframe]
      rfl
    exact (Streamed.taken hexecuted (htaken.cons hfirst)).executed
  · unfold call at hcall
    rw [prepare_concurrent host iterable p hw (by omega)] at hcall
    rcases prepareConcurrent_cases host w iterable (p.resetRunTracking.workers host).2 with
      ⟨message, hprepare⟩ | ⟨calling, p', hopens, ⟨e, hprepare⟩ | ⟨iterator, hprepare⟩⟩
    · rw [hprepare] at hcall
      cases hcall
    · rw [hprepare] at hcall
      cases hcall
    · rw [hprepare] at hcall
      obtain ⟨v, hfirst⟩ := deliver_generator hcall
      have hp' := hopens.eq
      rw [hframe] at hp'
      have hstart : StreamsOutputs host.dispatcher p.backend.submitted (.outputs iterator, p') := by
        refine ⟨⟨iterator, .inl rfl⟩, ⟨[], [], ?_, Nat.zero_le _, .inl rfl⟩, ?_⟩
        · rw [hp']
          exact (List.append_nil _).symm
        · rw [hp']
          exact Nat.zero_add _
      refine hstart.taken ?_ (htaken.cons hfirst)
      show p'.nCompletedTasks = 0
      rw [hp']
      rfl

def threeReturning : List (Item Nat Empty) := [returning 3, returning 4, returning 5].map Call.delayed

/-- One value taken: two tasks called of three, or two submitted. -/
theorem streams_lazily_returning :
    (∃ f q g, ({single with returnAs := .generator}.call (.plain Nat Empty) 9 (.ofList threeReturning)) =
        some (.generator f, q) ∧ Taken (Generator.step (.oneByOne Nat Empty)) (f, q) [4] g ∧
        g.2.executed = threeReturning.take 2) ∧
      ∃ f q g, ({pair (.count 2) with returnAs := .generator}.call (.plain Nat Empty) 9 (.ofList threeReturning)) =
        some (.generator f, q) ∧ Taken (Generator.step (.oneByOne Nat Empty)) (f, q) [4] g ∧
        BatchAhead (.oneByOne Nat Empty) [] 1 g.2 := by
  obtain ⟨f, q, g, hcall, hnext⟩ : ∃ f q g,
      ({single with returnAs := .generator}.call (.plain Nat Empty) 9 (.ofList threeReturning)) =
        some (.generator f, q) ∧ next (Generator.step (.oneByOne Nat Empty)) 9 (f, q) = some (.yielded 4, g) :=
    ⟨_, _, _, rfl, rfl⟩
  obtain ⟨f', q', g', hcall', hnext'⟩ : ∃ f q g,
      ({pair (.count 2) with returnAs := .generator}.call (.plain Nat Empty) 9 (.ofList threeReturning)) =
        some (.generator f, q) ∧ next (Generator.step (.oneByOne Nat Empty)) 9 (f, q) = some (.yielded 4, g) :=
    ⟨_, _, _, rfl, rfl⟩
  have htaken := Taken.first hnext
  have htaken' := Taken.first hnext'
  exact ⟨⟨f, q, g, hcall, htaken, (streams_lazily (.plain Nat Empty) htaken).1 threeReturning rfl hcall⟩,
    f', q', g', hcall', htaken', (streams_lazily (.plain Nat Empty) htaken').2 2 _ rfl (by decide) hcall'⟩

end Joblib.Parallel
