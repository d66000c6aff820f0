import Joblib.Parallel.Sequential

/-! The concurrent path, with no callback running.

`_get_outputs` alternates between its two sources: results outstanding at the
backend, and batches still in `_original_iterator`. `Running` is its loop
invariant, and each turn has one lemma. The loop drains to what the tasks give in
submission order (`drain_outputs`), so that with a window to dispatch from, a
concurrent call delivers exactly what the sequential path would
(`call_concurrent`).

Both start with `next(output)`. What is delivered after it is bounded by a count
of the results retrieved or under way (`outputs_advances`), whatever the
dispatcher does with an iterator it is not meant for. -/
namespace Joblib.Parallel
open Resumable (Drained drain drain_silent drain_yielded drain_stopped drain_raised)

variable {α ε : Type}

section Loop
variable {D : Dispatcher α ε} {iterator : Prefetch α ε} {p : Parallel α ε}
  {done outstanding rest : List (Item α ε)}

/-- Between two turns: what was retrieved, what is outstanding, what is still to
be dispatched. -/
structure Running (p : Parallel α ε) (done outstanding rest : List (Item α ε)) : Prop where
  submitted : p.backend.submitted = done ++ outstanding
  retrieved : p.backend.retrieved = done.length
  dispatched : p.nDispatchedTasks = p.nCompletedTasks + outstanding.length
  iterator : p.originalIterator = some (.ofList rest)
  iterating : p.iterating = false → rest = []
  aborting : p.aborting = false

/-- The oldest outstanding task is the one retrieved. -/
theorem Running.retrieve {task : Item α ε} (h : Running p done (task :: outstanding) rest) :
    p.nCompletedTasks < p.nDispatchedTasks ∧
      p.backend.retrieve = some (task.call, {p.backend with retrieved := p.backend.retrieved + 1}) := by
  refine ⟨by simp [h.dispatched], ?_⟩
  have holdest : p.backend.submitted[p.backend.retrieved]? = some task := by
    rw [h.submitted, h.retrieved]
    simp
  unfold Backend.retrieve
  rw [holdest]
  rfl

/-- A result retrieved and counted. -/
def retrieveOne (p : Parallel α ε) : Parallel α ε :=
  (p.withBackend {p.backend with retrieved := p.backend.retrieved + 1}).complete

theorem Running.retrieveOne {task : Item α ε} (h : Running p done (task :: outstanding) rest) :
    Running p.retrieveOne (done ++ [task]) outstanding rest where
  submitted := by
    rw [List.append_assoc]
    simpa [Parallel.retrieveOne] using h.submitted
  retrieved := by simp [Parallel.retrieveOne, h.retrieved]
  dispatched := by
    have := h.dispatched
    simp only [Parallel.retrieveOne, Parallel.complete, Parallel.withBackend, List.length_cons] at this ⊢
    omega
  iterator := h.iterator
  iterating := h.iterating
  aborting := h.aborting

/-- Retrieving a value takes a turn to yield it and a turn to count it. -/
theorem Running.drain_value {task : Item α ε} {v : α} {n : Nat}
    (h : Running p done (task :: outstanding) rest) (hcall : task.call = .ok v) :
    drain (Generator.step D) (n + 2) (.outputs iterator, p) =
      (drain (Generator.step D) n (.outputs iterator, p.retrieveOne)).map fun r => (r.1.cons v, r.2) := by
  obtain ⟨hlt, hretrieve⟩ := h.retrieve
  have hturn : Generator.step D (.outputs iterator, p) = .came (.yielded v) (.outputsYield iterator,
      p.withBackend {p.backend with retrieved := p.backend.retrieved + 1}) := by
    refine (Generator.outputsTurn_retrieve hlt).trans ?_
    rw [hretrieve, hcall]
  have hbottom : Generator.step D (.outputsYield iterator,
      p.withBackend {p.backend with retrieved := p.backend.retrieved + 1}) =
        .silent (.outputs iterator, p.retrieveOne) :=
    Generator.outputsBottom_running iterator h.aborting
  rw [drain_yielded hturn, drain_silent hbottom]

theorem Running.drain_raise {task : Item α ε} {e : Exc ε} {n : Nat}
    (h : Running p done (task :: outstanding) rest) (hcall : task.call = .error e) :
    ∃ q, drain (Generator.step D) (n + 1) (.outputs iterator, p) =
      some (⟨[], some e.leavingGenerator⟩, (.finished, q)) := by
  obtain ⟨hlt, hretrieve⟩ := h.retrieve
  have hturn : Generator.step D (.outputs iterator, p) = .came (.raised e.leavingGenerator) (.finished,
      p.withBackend {p.backend with retrieved := p.backend.retrieved + 1}) := by
    refine (Generator.outputsTurn_retrieve hlt).trans ?_
    rw [hretrieve, hcall]
    rfl
  exact ⟨_, drain_raised hturn⟩

variable (D iterator) in
/-- With nothing outstanding, a batch of what is left goes out. -/
theorem Running.drain_dispatch {task : Item α ε} (h : Running p done [] (task :: rest)) :
    ∃ batch left q, batch ≠ [] ∧ task :: rest = batch ++ left ∧ Running q done batch left ∧
      q.nCompletedTasks = p.nCompletedTasks ∧
      ∀ n, drain (Generator.step D) (n + 1) (.outputs iterator, p) =
        drain (Generator.step D) n (.outputs iterator, q) := by
  have hlt : ¬ p.nCompletedTasks < p.nDispatchedTasks := by simp [h.dispatched]
  have hiterating : p.iterating = true := by
    by_contra hi
    cases h.iterating (Bool.eq_false_iff.mpr hi)
  obtain ⟨batch, s, hne, htake, hdispatch⟩ := dispatchNext_submits D p _ task h.iterator rfl
  obtain ⟨left, hleft, rfl⟩ := Iterator.ofList_eq_append htake
  have hrunning : Running {p.submit batch with originalIterator := some (.ofList left)} done batch left :=
    { submitted := by simp [submit, h.submitted]
      retrieved := h.retrieved
      dispatched := by simp [submit, h.dispatched]
      iterator := rfl
      iterating := fun hi => by
        rw [show p.iterating = false from hi] at hiterating
        cases hiterating
      aborting := h.aborting }
  refine ⟨batch, left, _, hne, hleft, hrunning, rfl, fun n => ?_⟩
  refine drain_silent ((Generator.outputsTurn_dispatch hlt hiterating).trans ?_)
  rw [hdispatch]
  exact Generator.outputsBottom_running iterator h.aborting

/-- With nothing left either, the flag is cleared and the loop ends. -/
theorem Running.drain_end {n : Nat} (h : Running p done [] []) :
    drain (Generator.step D) (n + 2) (.outputs iterator, p) =
      some (⟨[], none⟩, (.finished, {p with iterating := false})) := by
  have hlt : ¬ p.nCompletedTasks < p.nDispatchedTasks := by simp [h.dispatched]
  by_cases hi : p.iterating = true
  · have hturn : Generator.step D (.outputs iterator, p) =
        .silent (.outputs iterator, {p with iterating := false}) := by
      refine (Generator.outputsTurn_dispatch hlt hi).trans ?_
      rw [dispatchNext_exhausted D p _ h.iterator rfl]
      exact Generator.outputsBottom_running iterator h.aborting
    rw [drain_silent hturn]
    exact drain_stopped (Generator.outputsTurn_stop hlt rfl)
  · have hi := Bool.eq_false_iff.mpr hi
    have heta : {p with iterating := false} = p := by rw [← hi]
    rw [heta]
    exact drain_stopped (Generator.outputsTurn_stop hlt hi)

variable (D iterator) in
/-- **The loop drains to the results in submission order**, each task submitted
once. The bound on its turns counts two for each result, two for each task to be
dispatched and two for its end. -/
theorem drain_outputs (h : Running p done outstanding rest) :
    ∃ n f q, drain (Generator.step D) n (.outputs iterator, p) =
        some (leftGenerator (results (outstanding ++ rest)), (f, q)) ∧
      ((results (outstanding ++ rest)).error = none →
        Running q (done ++ (outstanding ++ rest)) [] [] ∧ q.iterating = false ∧
          q.nCompletedTasks = p.nCompletedTasks + (outstanding ++ rest).length) := by
  -- a dispatch moves tasks from the iterator to the queue, a retrieval takes one off it
  induction hk : outstanding.length + 2 * rest.length using Nat.strong_induction_on
    generalizing p done outstanding rest with
  | _ k ih =>
    cases outstanding with
    | cons task outstanding =>
      cases hcall : task.call with
      | ok v =>
        obtain ⟨n, f, q, hdrain, hend⟩ := ih (outstanding.length + 2 * rest.length)
          (by simp only [← hk, List.length_cons]; omega) h.retrieveOne rfl
        refine ⟨n + 2, f, q, ?_, ?_⟩
        · rw [h.drain_value hcall, hdrain]
          simp [results, hcall, leftGenerator, Drained.cons]
        · intro herror
          have herror' : (results (outstanding ++ rest)).error = none := by
            simpa [results, hcall, Drained.cons] using herror
          obtain ⟨hrunning, hiterating, hcompleted⟩ := hend herror'
          refine ⟨by simpa using hrunning, hiterating, ?_⟩
          rw [hcompleted]
          simp only [retrieveOne, complete_nCompletedTasks, withBackend, List.cons_append, List.length_cons]
          omega
      | error e =>
        obtain ⟨q, hdrain⟩ := h.drain_raise (n := 0) hcall
        refine ⟨1, .finished, q, ?_, ?_⟩
        · rw [hdrain]
          simp [results, hcall, leftGenerator]
        · intro herror
          simp [results, hcall] at herror
    | nil =>
      cases rest with
      | nil =>
        refine ⟨2, .finished, _, h.drain_end, fun _ => ⟨?_, rfl, rfl⟩⟩
        rw [List.append_nil, List.append_nil]
        exact ⟨h.submitted, h.retrieved, h.dispatched, h.iterator, fun _ => rfl, h.aborting⟩
      | cons task rest =>
        obtain ⟨batch, left, q, hne, hleft, hrunning, hcompleted, hturn⟩ :=
          h.drain_dispatch D iterator
        have hpos : 0 < batch.length := List.length_pos_iff.mpr hne
        have hlength : rest.length + 1 = batch.length + left.length := by
          simpa using congrArg List.length hleft
        have hless : batch.length + 2 * left.length < k := by
          simp only [← hk, List.length_nil, List.length_cons]
          omega
        obtain ⟨n, f, q', hdrain, hend⟩ := ih _ hless hrunning rfl
        rw [List.nil_append, hleft]
        exact ⟨n + 1, f, q', (hturn n).trans hdrain, hcompleted ▸ hend⟩

end Loop

/-! ### A window to dispatch from -/

section Window
variable {host : Host α ε}

/-- `pre_dispatch` comes to an amount that `islice` takes. -/
def HasWindow (host : Host α ε) (nJobs : Int) (p : Parallel α ε) : Prop :=
  ∃ amount, resolvePreDispatch host nJobs p.preDispatch = .ok (some amount) ∧ 0 ≤ amount ∧ amount ≤ maxsize

theorem setOriginalIterator_window {nJobs : Int} {p : Parallel α ε} (h : HasWindow host nJobs p)
    (it : Iterator (Item α ε) ε) :
    ∃ amount, p.setOriginalIterator host nJobs it =
      (.ok (.islice amount), {p with originalIterator := some it, preDispatchAmount := amount}) := by
  obtain ⟨amount, hamount, hle, hmax⟩ := h
  refine ⟨amount, ?_⟩
  unfold setOriginalIterator islice
  rw [hamount]
  simp [hle, hmax]

theorem prepareConcurrent_window {nJobs : Int} {p : Parallel α ε} (h : HasWindow host nJobs p)
    (hn : nJobs ≠ 0) (hlock : p.hasLock = true) (ts : List (Item α ε)) :
    ∃ iterator q, p.prepareConcurrent host nJobs (.ofList ts) = (.ok (.outputs iterator), q) ∧
      OnlyOpens (p.enterConcurrent nJobs true) q ∧ q.originalIterator = some (.ofList ts) := by
  unfold prepareConcurrent
  rw [if_neg (by simp [hlock])]
  dsimp only
  rw [if_neg hn]
  unfold openOutputs
  dsimp only [Iterable.ofList]
  obtain ⟨amount, hset⟩ := setOriginalIterator_window (p := p.enterConcurrent nJobs true) h (.ofList ts)
  have hopens := (setOriginalIterator_frame hset).trans (.keepOutput _)
  unfold enterConcurrent at hset
  rw [hset]
  exact ⟨_, _, rfl, hopens, rfl⟩

variable (host) in
/-- **With two workers or more and a window**, what a caller gets of a task list
is what one worker would have given, and each task is submitted once. -/
theorem call_concurrent {w : Int} (ts : List (Item α ε)) (p : Parallel α ε)
    (hw : (p.resetRunTracking.workers host).1 = .ok w) (h2 : 2 ≤ w) (hlock : p.hasLock = true)
    (hwindow : HasWindow host w p) (hidle : p.backend.retrieved = p.backend.submitted.length) :
    ∃ n q, p.callAndExhaust host n (.ofList ts) = some (outcome p.returnAs ts, q) ∧
      ((results ts).error = none → q.backend.submitted = p.backend.submitted ++ ts ∧
        q.isCompleted = true ∧ q.nCompletedTasks = ts.length ∧
        q.backend.retrieved = q.backend.submitted.length) := by
  obtain ⟨configured, hframe⟩ := workers_frame host p.resetRunTracking
  have hprepare := prepare_concurrent host (.ofList ts) p hw (by omega)
  generalize (p.resetRunTracking.workers host).2 = p' at hframe hprepare
  have hwindow' : HasWindow host w p' := by
    rw [hframe]
    exact hwindow
  have hlock' : p'.hasLock = true := by
    rw [hframe]
    exact hlock
  obtain ⟨iterator, q, hconcurrent, honly, hiterator⟩ :=
    prepareConcurrent_window hwindow' (by omega) hlock' ts
  have hq := honly.eq
  rw [hframe] at hq
  have hrunning : Running q p.backend.submitted [] ts :=
    { submitted := by rw [hq]; exact (List.append_nil _).symm
      retrieved := by rw [hq]; exact hidle
      dispatched := by rw [hq]; rfl
      iterator := hiterator
      iterating := fun hi => by
        rw [hq] at hi
        cases hi
      aborting := by rw [hq]; rfl }
  have hreturnAs : q.returnAs = p.returnAs := by rw [hq]; rfl
  have hcompleted : q.nCompletedTasks = 0 := by rw [hq]; rfl
  obtain ⟨n, f, q', hdrain, hend⟩ := drain_outputs host.dispatcher iterator hrunning
  rw [List.nil_append] at hdrain hend
  refine ⟨n, q', ?_, fun herror => ?_⟩
  · unfold callAndExhaust call
    rw [hprepare, hconcurrent]
    exact hreturnAs ▸ deliver_primed hdrain
  · obtain ⟨hrunning', _, hcount⟩ := hend herror
    have hdispatched := hrunning'.dispatched
    have hretrieved := hrunning'.retrieved
    have hsubmitted := hrunning'.submitted
    rw [List.append_nil] at hsubmitted
    refine ⟨hsubmitted, ?_, by omega, by rw [hretrieved, hsubmitted]⟩
    simpa [isCompleted] using hdispatched.symm

end Window

/-! ### Whatever the dispatcher does -/

section Bound
variable {D : Dispatcher α ε} {host : Host α ε} {start : List (Item α ε)}

/-- The results retrieved, with the one a suspended loop has not counted yet. -/
def retrieved : Generator α ε → Nat
  | (.outputsYield _, p) => p.nCompletedTasks + 1
  | (_, p) => p.nCompletedTasks

/-- `_get_outputs` has retrieved no more than was dispatched, and what was
dispatched is what the queue grew by. -/
structure Draws (start : List (Item α ε)) (g : Generator α ε) : Prop where
  sequential : ∀ iterable, g.1 ≠ .sequential iterable
  sequentialYield : ∀ rest, g.1 ≠ .sequentialYield rest
  dispatched : g.2.nDispatchedTasks + start.length = g.2.backend.submitted.length
  bounded : retrieved g ≤ g.2.nDispatchedTasks

theorem draws_outputs {iterator : Prefetch α ε} {p : Parallel α ε}
    (hd : p.nDispatchedTasks + start.length = p.backend.submitted.length)
    (hb : p.nCompletedTasks ≤ p.nDispatchedTasks) : Draws start (.outputs iterator, p) :=
  ⟨by simp, by simp, hd, hb⟩

theorem draws_finished {p : Parallel α ε}
    (hd : p.nDispatchedTasks + start.length = p.backend.submitted.length)
    (hb : p.nCompletedTasks ≤ p.nDispatchedTasks) : Draws start (.finished, p) :=
  ⟨by simp, by simp, hd, hb⟩

theorem dispatchNext_counts (D : Dispatcher α ε) {p : Parallel α ε}
    (hd : p.nDispatchedTasks + start.length = p.backend.submitted.length) :
    (p.dispatchNext D).2.nCompletedTasks = p.nCompletedTasks ∧
      p.nDispatchedTasks ≤ (p.dispatchNext D).2.nDispatchedTasks ∧
      (p.dispatchNext D).2.nDispatchedTasks + start.length =
        (p.dispatchNext D).2.backend.submitted.length := by
  have hframe := dispatchNext_frame D p
  have hcounted := hframe.counted
  have hgrows := hframe.grows.length_le
  refine ⟨by rw [hframe.eq], by omega, by omega⟩

/-- One turn of `_get_outputs`, counted. -/
theorem step_draws {g g' : Generator α ε} (hs : Draws start g)
    (h : (Generator.step D g).state = some g') : Draws start g' ∧ retrieved g ≤ retrieved g' := by
  obtain ⟨frame, p⟩ := g
  have hd : p.nDispatchedTasks + start.length = p.backend.submitted.length := hs.dispatched
  have hb := hs.bounded
  cases frame with
  | sequential iterable => exact absurd rfl (hs.sequential iterable)
  | sequentialYield rest => exact absurd rfl (hs.sequentialYield rest)
  | outputs iterator =>
    change (Generator.outputsTurn D iterator p).state = some g' at h
    change p.nCompletedTasks ≤ p.nDispatchedTasks at hb
    obtain ⟨hcompleted, hdispatched, hgrown⟩ := dispatchNext_counts D hd
    rcases Generator.outputsTurn_cases D iterator p with hturn | ⟨_, hlt, hturn⟩ | ⟨_, hlt, hturn⟩ |
      hturn | ⟨_, hturn⟩ | hturn <;> rw [hturn] at h <;> cases h
    · exact ⟨⟨by simp, by simp, hd, hlt⟩, Nat.le_succ _⟩
    · exact ⟨draws_finished hd hb, Nat.le_refl _⟩
    · exact ⟨draws_outputs hgrown (by omega), Nat.le_of_eq hcompleted.symm⟩
    · exact ⟨draws_finished hgrown (by omega), Nat.le_of_eq hcompleted.symm⟩
    · exact ⟨draws_finished hd hb, Nat.le_refl _⟩
  | outputsYield iterator =>
    change (Generator.outputsBottom iterator p.complete).state = some g' at h
    rcases Generator.outputsBottom_cases iterator p.complete with hturn | ⟨_, hturn⟩ <;> rw [hturn] at h <;>
      cases h
    · exact ⟨draws_outputs hd hb, Nat.le_refl _⟩
    · exact ⟨draws_finished hd hb, Nat.le_refl _⟩
  | finished =>
    cases h
    exact ⟨hs, Nat.le_refl _⟩

/-- A value comes from a result that was not counted before. -/
theorem step_yielded {g g' : Generator α ε} {v : α} (hs : Draws start g)
    (h : Generator.step D g = .came (.yielded v) g') : retrieved g < retrieved g' := by
  obtain ⟨frame, p⟩ := g
  cases frame with
  | sequential iterable => exact absurd rfl (hs.sequential iterable)
  | sequentialYield rest => exact absurd rfl (hs.sequentialYield rest)
  | outputs iterator =>
    change Generator.outputsTurn D iterator p = _ at h
    rcases Generator.outputsTurn_cases D iterator p with hturn | ⟨_, _, hturn⟩ | ⟨_, _, hturn⟩ |
      hturn | ⟨_, hturn⟩ | hturn <;> rw [hturn] at h <;> cases h
    exact Nat.lt_succ_self _
  | outputsYield iterator =>
    change Generator.outputsBottom iterator p.complete = _ at h
    rcases Generator.outputsBottom_cases iterator p.complete with hturn | ⟨_, hturn⟩ <;> rw [hturn] at h <;>
      cases h
  | finished => cases h

theorem outputs_advances : Resumable.Advances (Generator.step D) (Draws start) retrieved where
  keeps hs h := (step_draws hs h).1
  monotone hs h := (step_draws hs h).2
  yielded hs h := step_yielded hs h

/-- Primed, a concurrent generator has fewer values to deliver than the backend was
given tasks. -/
theorem deliver_short {n : Nat} {iterator : Prefetch α ε} {p q : Parallel α ε} {d : Drained α (Exc ε)}
    (hs : Draws start (.outputs iterator, p))
    (h : (p.deliver host n (.outputs iterator)).bind (exhaust host n) = some (d, q))
    (hd : d.error = none) : d.values.length + start.length < q.backend.submitted.length := by
  obtain ⟨v, g, f, hnext, hdrain⟩ := deliver_ended h hd
  obtain ⟨hg, hprimed⟩ := outputs_advances.next_yielded hs hnext
  obtain ⟨hend, hdelivered⟩ := outputs_advances.drain hg hdrain
  have hdispatched : q.nDispatchedTasks + start.length = q.backend.submitted.length := hend.dispatched
  have hbounded : retrieved (f, q) ≤ q.nDispatchedTasks := hend.bounded
  omega

/-- **With two workers or more**, a call that ends without an exception delivers
fewer values than it submitted tasks. -/
theorem call_short {w : Int} {n : Nat} {iterable : Iterable (Item α ε) ε} {p q : Parallel α ε}
    {d : Drained α (Exc ε)} (hw : (p.resetRunTracking.workers host).1 = .ok w) (h2 : 2 ≤ w)
    (h : p.callAndExhaust host n iterable = some (d, q)) (hd : d.error = none) :
    d.values.length + p.backend.submitted.length < q.backend.submitted.length := by
  obtain ⟨configured, hframe⟩ := workers_frame host p.resetRunTracking
  unfold callAndExhaust call at h
  rw [prepare_concurrent host iterable p hw (by omega)] at h
  rcases prepareConcurrent_cases host w iterable (p.resetRunTracking.workers host).2 with
    ⟨message, hprepare⟩ | ⟨calling, p', hopens, ⟨e, hprepare⟩ | ⟨iterator, hprepare⟩⟩
  · rw [hprepare] at h
    obtain ⟨rfl, _⟩ : (⟨[], some (.attributeError message)⟩ : Drained α (Exc ε)) = d ∧ _ = q := by
      simpa [exhaust] using h
    cases hd
  · rw [hprepare] at h
    obtain ⟨rfl, _⟩ : (⟨[], some e⟩ : Drained α (Exc ε)) = d ∧ p' = q := by simpa [exhaust] using h
    cases hd
  · rw [hprepare] at h
    have hp' := hopens.eq
    rw [hframe] at hp'
    refine deliver_short (draws_outputs ?_ ?_) h hd
    · rw [hp']
      exact Nat.zero_add _
    · rw [hp']
      exact Nat.le_refl _

end Bound

/-! ### Delivery in submission order -/

section Delivery

/-- Every task's result, in submission order, and every task submitted once. -/
def DeliversInOrder (host : Host α ε) (p : Parallel α ε) (ts : List (Item α ε)) : Prop :=
  ∃ n q, p.callAndExhaust host n (.ofList ts) = some (results ts, q) ∧
    q.backend.submitted = p.backend.submitted ++ ts

/-- Tasks that do not raise have as many results as there are tasks. -/
theorem results_length (ts : List (Item α ε)) (h : ∀ t ∈ ts, ∃ v, t.call = .ok v) :
    (results ts).values.length = ts.length ∧ (results ts).error = none := by
  induction ts with
  | nil => exact ⟨rfl, rfl⟩
  | cons task rest ih =>
    obtain ⟨v, hv⟩ := h task List.mem_cons_self
    obtain ⟨hlength, herror⟩ := ih fun t ht => h t (List.mem_cons_of_mem _ ht)
    simp only [results, hv, Drained.cons, List.length_cons]
    exact ⟨by rw [hlength], herror⟩

/-- **No concurrent call delivers all its results**: not for any list of tasks, the
empty one included, any number of workers, any `return_as` or any `pre_dispatch`. -/
theorem never_delivers_in_order (host : Host α ε) (p : Parallel α ε) (calls : List (Call α ε)) (w : Int)
    (hcalls : ∀ c ∈ calls, ∃ v, c.result = .ok v)
    (hw : (p.resetRunTracking.workers host).1 = .ok w) (h2 : 2 ≤ w) :
    ¬ DeliversInOrder host p (calls.map Call.delayed) := by
  rintro ⟨n, q, hcall, hsubmitted⟩
  obtain ⟨hlength, herror⟩ := results_length (calls.map Call.delayed) (by simpa using hcalls)
  have hshort := call_short hw h2 hcall herror
  rw [hsubmitted, hlength, List.length_append] at hshort
  omega

/-! `Parallel(n_jobs=2, pre_dispatch=2)([delayed(f)(), delayed(g)()])` is `[g()]`,
and `Parallel(n_jobs=2, pre_dispatch='all')([])` raises. -/

/-- A list call on two workers. -/
def pair (preDispatch : PreDispatch) : Parallel Nat Empty :=
  .created 2 preDispatch .list (.idle "LokyBackend" true) true

/-- A function that returns, with no arguments. -/
def returning (v : Nat) : Call Nat Empty := ⟨fun _ _ => .ok v, [], []⟩

theorem pair_first_lost :
    ((pair (.count 2)).resetRunTracking.workers (.plain Nat Empty)).1 = .ok 2 ∧
      ¬ DeliversInOrder (.plain Nat Empty) (pair (.count 2))
        ([returning 3, returning 4].map Call.delayed) := by
  refine ⟨rfl, ?_⟩
  rintro ⟨n, q, hcall, _⟩
  obtain ⟨n', q', hcall', _⟩ := call_concurrent (.plain Nat Empty)
    ([returning 3, returning 4].map Call.delayed) (pair (.count 2)) rfl (by decide) rfl
    ⟨2, rfl, by decide, by decide⟩ rfl
  have hvalues : [3, 4] = [4] := congrArg (fun r => r.1.values) (callAndExhaust_unique hcall hcall')
  cases hvalues

/-- Nor does it with `pre_dispatch='all'`, or of no tasks. -/
theorem never_delivers_in_order_pair :
    (∀ preDispatch, ((pair preDispatch).resetRunTracking.workers (.plain Nat Empty)).1 = .ok 2) ∧
      ¬ DeliversInOrder (.plain Nat Empty) (pair (.count 2)) ([returning 3, returning 4].map Call.delayed) ∧
      ¬ DeliversInOrder (.plain Nat Empty) (pair (.text "all")) ([returning 3, returning 4].map Call.delayed) ∧
      ¬ DeliversInOrder (.plain Nat Empty) (pair (.text "all")) (([] : List (Call Nat Empty)).map Call.delayed) := by
  have hreturning : ∀ c ∈ [returning 3, returning 4], ∃ v, c.result = .ok v := by
    intro c hc
    rcases List.mem_cons.mp hc with rfl | hc
    · exact ⟨3, rfl⟩
    · obtain rfl := List.mem_singleton.mp hc
      exact ⟨4, rfl⟩
  exact ⟨fun _ => rfl,
    never_delivers_in_order (.plain Nat Empty) (pair (.count 2)) _ 2 hreturning rfl (by decide),
    never_delivers_in_order (.plain Nat Empty) (pair (.text "all")) _ 2 hreturning rfl (by decide),
    never_delivers_in_order (.plain Nat Empty) (pair (.text "all")) [] 2 (fun _ h => absurd h List.not_mem_nil) rfl
      (by decide)⟩

end Delivery

end Joblib.Parallel
