import Joblib.Lib.Runs
import Joblib.Parallel.Concurrent
import Joblib.Parallel.Reentry

/-! Several generators on one instance.

An instance may be called again while its generators are not at their ends, and they may be resumed in
any order: all of them retrieve from the one backend. A result is not kept for the call that submitted
it, but neither is it lost or given twice: what the generators yield, in the order they yield it, are the
results of the tasks submitted, in the order they were submitted, as far as they have been retrieved
(`results_once`). -/
namespace Joblib

/-- Of the sequential loop. -/
def Frame.isSequential {α ε : Type} : Frame α ε → Bool
  | .sequential _ | .sequentialYield _ => true
  | _ => false

/-- What a task returns, if it does not raise. -/
def Item.value {α ε : Type} (task : Item α ε) : Option α := task.call.toOption

/-- An instance and the generators made on it, and as history what they have yielded, each value with the
generator's number: those of `_get_outputs` and those of the sequential loop. -/
structure Consumers (α ε : Type) where
  parallel : Parallel α ε
  generators : List (Frame α ε)
  yielded : List (Nat × α)
  computed : List (Nat × α)

/-- What may be done to an instance. -/
inductive Use (α ε : Type) where
  | enter
  | exit
  /-- `__call__`, up to `next(output)`. -/
  | opens (iterable : Iterable (Item α ε) ε)
  /-- A generator is resumed, and takes at most `n` turns: by `__call__` first, and by its consumer. -/
  | resumes (i n : Nat)
  /-- A callback dispatches, collects its job or aborts. -/
  | dispatches
  | collects (job : Nat)
  | aborts

namespace Consumers
open Resumable (next)
variable {α ε : Type} (host : Host α ε)

def start (p : Parallel α ε) : Consumers α ε := ⟨p, [], [], []⟩

def values {E : Type} : Resumable.Event α E → List α
  | .yielded v => [v]
  | _ => []

/-- The `i`-th generator, which stood at `f`, has come back. -/
def resumed (s : Consumers α ε) (i : Nat) (f : Frame α ε) (event : Resumable.Event α (Exc ε)) (g : Generator α ε) :
    Consumers α ε :=
  let more := (values event).map fun v => (i, v)
  { parallel := g.2
    generators := s.generators.set i g.1
    yielded := if f.isSequential then s.yielded else s.yielded ++ more
    computed := if f.isSequential then s.computed ++ more else s.computed }

def step (s : Consumers α ε) : Use α ε → Option (Consumers α ε)
  | .enter => some {s with parallel := s.parallel.enter host}
  | .exit => some {s with parallel := s.parallel.exit}
  | .opens iterable =>
    match s.parallel.prepare host iterable with
    | (.error _, p) => some {s with parallel := p}
    | (.ok output, p) => some {s with parallel := p, generators := s.generators ++ [output]}
  | .resumes i n =>
    s.generators[i]?.bind fun f =>
      (next (Generator.step host.dispatcher) n (f, s.parallel)).map fun r => s.resumed i f r.1 r.2
  | .dispatches => some {s with parallel := (s.parallel.dispatchNext host.dispatcher).2}
  | .collects job => some {s with parallel := {s.parallel with jobs := s.parallel.jobs ++ [job]}}
  | .aborts => some {s with parallel := {s.parallel with aborting := true}}

/-! ### One resumption -/

/-- The queue may have grown; nothing was retrieved and nothing computed. -/
structure Queues (p q : Parallel α ε) : Prop where
  submitted : p.backend.submitted <+: q.backend.submitted
  retrieved : q.backend.retrieved = p.backend.retrieved
  executed : q.executed = p.executed

/-- One result at most was retrieved, the next that was due, and yielded if it is a value. -/
structure Gives (p : Parallel α ε) (event : Resumable.Event α (Exc ε)) (q : Parallel α ε) : Prop where
  submitted : p.backend.submitted <+: q.backend.submitted
  executed : q.executed = p.executed
  result : (q.backend.retrieved = p.backend.retrieved ∧ values event = []) ∨
    ∃ task, q.backend.submitted[p.backend.retrieved]? = some task ∧
      q.backend.retrieved = p.backend.retrieved + 1 ∧ values event = task.value.toList

/-- One task at most was called, and its value yielded. -/
structure Computes (p : Parallel α ε) (event : Resumable.Event α (Exc ε)) (q : Parallel α ε) : Prop where
  backend : q.backend = p.backend
  executed : ∃ tasks, q.executed = p.executed ++ tasks ∧ values event = tasks.filterMap Item.value

theorem Queues.dispatchNext (D : Dispatcher α ε) (p : Parallel α ε) : Queues p (p.dispatchNext D).2 := by
  have hframe := Parallel.dispatchNext_frame D p
  refine ⟨hframe.grows, ?_, ?_⟩ <;> rw [hframe.eq]

theorem Queues.gives {p q : Parallel α ε} {event : Resumable.Event α (Exc ε)} (h : Queues p q)
    (hnone : values event = []) :
    Gives p event q :=
  ⟨h.submitted, h.executed, .inl ⟨h.retrieved, hnone⟩⟩

theorem Gives.after {p q r : Parallel α ε} {event : Resumable.Event α (Exc ε)} (h : Queues p q) (h' : Gives q event r) :
    Gives p event r := by
  refine ⟨h.submitted.trans h'.submitted, h'.executed.trans h.executed, ?_⟩
  rw [← h.retrieved]
  exact h'.result

section Turns
variable {D : Dispatcher α ε}

theorem outputsBottom_gives (iterator : Prefetch α ε) (p : Parallel α ε) :
    Generator.outputsBottom iterator p = .silent (.outputs iterator, p) ∨
      ∃ event, Generator.outputsBottom iterator p = .came event (.finished, p) ∧ values event = [] := by
  rcases Generator.outputsBottom_cases iterator p with h | ⟨e, h⟩
  · exact .inl h
  · exact .inr ⟨_, h, rfl⟩

/-- A turn of `_get_outputs` from its head. -/
theorem outputsTurn_gives (iterator : Prefetch α ε) (p : Parallel α ε) :
    Generator.outputsTurn D iterator p = .blocked ∨
      (∃ q, Generator.outputsTurn D iterator p = .silent (.outputs iterator, q) ∧ Queues p q) ∨
        ∃ event f q, Generator.outputsTurn D iterator p = .came event (f, q) ∧ Gives p event q := by
  by_cases hlt : p.nCompletedTasks < p.nDispatchedTasks
  · rw [Generator.outputsTurn_retrieve hlt]
    cases hr : p.backend.retrieve with
    | none => exact .inl rfl
    | some r =>
      obtain ⟨outcome, b⟩ := r
      obtain ⟨task, htask, rfl, rfl⟩ := Generator.retrieve_cases hr
      refine .inr (.inr ?_)
      cases hcall : task.call with
      | ok v =>
        exact ⟨_, _, _, rfl, List.prefix_rfl, rfl,
          .inr ⟨task, htask, rfl, by simp [Item.value, hcall, values, Except.toOption]⟩⟩
      | error e =>
        exact ⟨_, _, _, rfl, List.prefix_rfl, rfl,
          .inr ⟨task, htask, rfl, by simp [Item.value, hcall, values, Except.toOption]⟩⟩
  · by_cases hi : p.iterating = true
    · rw [Generator.outputsTurn_dispatch hlt hi]
      have hqueues := Queues.dispatchNext D p
      cases hd : p.dispatchNext D with
      | mk outcome q =>
        rw [hd] at hqueues
        cases outcome with
        | ok more =>
          rcases outputsBottom_gives iterator q with hb | ⟨event, hb, hnone⟩
          · exact .inr (.inl ⟨q, hb, hqueues⟩)
          · exact .inr (.inr ⟨event, _, q, hb, hqueues.gives hnone⟩)
        | error e => exact .inr (.inr ⟨_, _, q, rfl, hqueues.gives rfl⟩)
    · have hstop : Generator.outputsTurn D iterator p = .came .stopped (.finished, p) :=
        Generator.outputsTurn_stop hlt (Bool.eq_false_iff.mpr hi)
      exact .inr (.inr ⟨_, _, p, hstop, List.prefix_rfl, rfl, .inl ⟨rfl, rfl⟩⟩)

/-- A resumption of `_get_outputs`. -/
theorem next_gives {n : Nat} {f : Frame α ε} {p : Parallel α ε} {event : Resumable.Event α (Exc ε)}
    {g : Generator α ε} (hf : f.isSequential = false) (h : next (Generator.step D) n (f, p) = some (event, g)) :
    Gives p event g.2 := by
  induction n generalizing f p with
  | zero => simp [next] at h
  | succ n ih =>
    simp only [next] at h
    cases f with
    | sequential | sequentialYield => cases hf
    | outputs iterator =>
      simp only [Generator.step] at h
      rcases outputsTurn_gives (D := D) iterator p with hturn | ⟨q, hturn, hqueues⟩ | ⟨event', f', q, hturn, hgives⟩
      · simp [hturn] at h
      · rw [hturn] at h
        exact (ih rfl h).after hqueues
      · rw [hturn] at h
        cases h
        exact hgives
    | outputsYield iterator =>
      have hcomplete : Queues p p.complete := ⟨List.prefix_rfl, rfl, rfl⟩
      simp only [Generator.step] at h
      rcases outputsBottom_gives iterator p.complete with hturn | ⟨event', hturn, hnone⟩
      · rw [hturn] at h
        exact (ih rfl h).after hcomplete
      · rw [hturn] at h
        cases h
        exact hcomplete.gives hnone
    | finished =>
      simp only [Generator.step] at h
      cases h
      exact ⟨List.prefix_rfl, rfl, .inl ⟨rfl, rfl⟩⟩

theorem sequentialTurn_computes (rest : Iterator (Item α ε) ε) (p : Parallel α ε) :
    ∃ event g, Generator.sequentialTurn rest p = .came event g ∧ Computes p event g.2 := by
  unfold Generator.sequentialTurn
  have hnone : ∃ tasks, p.executed = p.executed ++ tasks ∧ ([] : List α) = tasks.filterMap Item.value :=
    ⟨[], by simp, rfl⟩
  cases hhead : rest.head with
  | error e =>
    cases e with
    | stopIteration => exact ⟨_, _, rfl, rfl, hnone⟩
    | _ => exact ⟨_, _, rfl, rfl, hnone⟩
  | ok func =>
    dsimp only
    cases hcall : func.call with
    | ok v => exact ⟨_, _, rfl, rfl, [func], rfl, by simp [Item.value, hcall, values, Except.toOption]⟩
    | error e => exact ⟨_, _, rfl, rfl, [func], rfl, by simp [Item.value, hcall, values, Except.toOption]⟩

/-- A resumption of the sequential loop is one turn of it. -/
theorem next_computes {n : Nat} {f : Frame α ε} {p : Parallel α ε} {event : Resumable.Event α (Exc ε)}
    {g : Generator α ε} (hf : f.isSequential = true) (h : next (Generator.step D) n (f, p) = some (event, g)) :
    Computes p event g.2 := by
  have hcame : ∃ event' g', Generator.step D (f, p) = .came event' g' ∧ Computes p event' g'.2 := by
    cases f with
    | sequential iterable =>
      cases iterable with
      | ok it => exact sequentialTurn_computes it p
      | error e => exact ⟨_, _, rfl, rfl, [], (List.append_nil _).symm, rfl⟩
    | sequentialYield rest =>
      obtain ⟨event', g', hturn, hcomputes⟩ := sequentialTurn_computes rest p.complete
      exact ⟨event', g', hturn, hcomputes.backend, hcomputes.executed⟩
    | outputs | outputsYield | finished => cases hf
  obtain ⟨event', g', hturn, hcomputes⟩ := hcame
  cases n with
  | zero => simp [next] at h
  | succ n =>
    rw [Resumable.next_came hturn] at h
    cases h
    exact hcomputes

end Turns

/-! ### Between resumptions -/

section Calls
variable {host}

theorem Queues.refl (p : Parallel α ε) : Queues p p := ⟨List.prefix_rfl, rfl, rfl⟩

theorem Queues.trans {p q r : Parallel α ε} (h : Queues p q) (h' : Queues q r) : Queues p r :=
  ⟨h.submitted.trans h'.submitted, h'.retrieved.trans h.retrieved, h'.executed.trans h.executed⟩

theorem Queues.enter (p : Parallel α ε) : Queues p (p.enter host) := by
  unfold Parallel.enter
  rcases Parallel.initializeBackend_cases host {p with managedBackend := true, calling := false} with ⟨_, h⟩ | h <;>
  · rw [h]
    exact ⟨List.prefix_rfl, rfl, rfl⟩

theorem Queues.opens {p q : Parallel α ε} (h : Parallel.OnlyOpens p q) : Queues p q := by
  rw [h.eq]
  exact ⟨List.prefix_rfl, rfl, rfl⟩

variable (host) in
theorem Queues.prepare (iterable : Iterable (Item α ε) ε) (p : Parallel α ε) :
    Queues p (p.prepare host iterable).2 := by
  obtain ⟨configured, hframe⟩ := Parallel.workers_frame host p.resetRunTracking
  have hworkers : Queues p (p.resetRunTracking.workers host).2 := by
    rw [hframe]
    exact ⟨List.prefix_rfl, rfl, rfl⟩
  cases hw : (p.resetRunTracking.workers host).1 with
  | error e =>
    have hprepare : p.prepare host iterable = (.error e, (p.resetRunTracking.workers host).2) := by
      unfold Parallel.prepare
      rw [show p.resetRunTracking.workers host = (.error e, (p.resetRunTracking.workers host).2) from Prod.ext hw rfl]
    rw [hprepare]
    exact hworkers
  | ok w =>
    by_cases h1 : w = 1
    · subst h1
      rw [Parallel.prepare_sequential host iterable p hw]
      exact hworkers
    · rw [Parallel.prepare_concurrent host iterable p hw h1]
      rcases Parallel.prepareConcurrent_cases host w iterable (p.resetRunTracking.workers host).2 with
        ⟨_, hprepare⟩ | ⟨calling, q, hopens, hprepare⟩
      · rw [hprepare]
        exact hworkers
      · have hentered : Queues (p.resetRunTracking.workers host).2
            ((p.resetRunTracking.workers host).2.enterConcurrent w calling) := ⟨List.prefix_rfl, rfl, rfl⟩
        rcases hprepare with ⟨e, hprepare⟩ | ⟨iterator, hprepare⟩ <;>
        · rw [hprepare]
          exact hworkers.trans (hentered.trans (.opens hopens))

end Calls

/-! ### Runs -/

/-- What has been yielded since `p`, against what has been retrieved and what has been called. -/
structure Once (p : Parallel α ε) (s : Consumers α ε) : Prop where
  submitted : p.backend.submitted <+: s.parallel.backend.submitted
  retrieved : p.backend.retrieved ≤ s.parallel.backend.retrieved ∧
    s.parallel.backend.retrieved ≤ s.parallel.backend.submitted.length
  yielded : s.yielded.map Prod.snd =
    ((s.parallel.backend.submitted.take s.parallel.backend.retrieved).drop p.backend.retrieved).filterMap Item.value
  computed : ∃ tasks, s.parallel.executed = p.executed ++ tasks ∧ s.computed.map Prod.snd = tasks.filterMap Item.value

section Steps
variable {host} {p : Parallel α ε} {s s' : Consumers α ε}

/-- What is queued further on has no part in what was retrieved. -/
theorem take_prefix {submitted submitted' : List (Item α ε)} (h : submitted <+: submitted') {k : Nat}
    (hk : k ≤ submitted.length) : submitted'.take k = submitted.take k := by
  obtain ⟨more, rfl⟩ := h
  exact List.take_append_of_le_length hk

theorem Once.queues (h : Once p s) {q : Parallel α ε} {gs : List (Frame α ε)} (hq : Queues s.parallel q) :
    Once p {s with parallel := q, generators := gs} := by
  refine ⟨h.submitted.trans hq.submitted, ?_, ?_, ?_⟩
  · show _ ≤ q.backend.retrieved ∧ q.backend.retrieved ≤ q.backend.submitted.length
    rw [hq.retrieved]
    exact ⟨h.retrieved.1, Nat.le_trans h.retrieved.2 hq.submitted.length_le⟩
  · show s.yielded.map Prod.snd = ((q.backend.submitted.take q.backend.retrieved).drop _).filterMap _
    rw [hq.retrieved, take_prefix hq.submitted h.retrieved.2]
    exact h.yielded
  · show ∃ tasks, q.executed = _ ∧ _
    rw [hq.executed]
    exact h.computed

theorem map_values (i : Nat) (vs : List α) : (vs.map fun v => (i, v)).map Prod.snd = vs := by
  rw [List.map_map]
  exact List.map_id vs

theorem Once.gives (h : Once p s) {i : Nat} {f : Frame α ε} {event : Resumable.Event α (Exc ε)} {g : Generator α ε}
    (hf : f.isSequential = false) (hg : Gives s.parallel event g.2) : Once p (s.resumed i f event g) := by
  obtain ⟨tasks, hexecuted, hcomputed⟩ := h.computed
  refine ⟨h.submitted.trans hg.submitted, ?_, ?_, tasks, hg.executed.trans hexecuted, ?_⟩
  · show _ ≤ g.2.backend.retrieved ∧ g.2.backend.retrieved ≤ g.2.backend.submitted.length
    obtain ⟨hsame, _⟩ | ⟨task, htask, hnext, _⟩ := hg.result
    · rw [hsame]
      exact ⟨h.retrieved.1, Nat.le_trans h.retrieved.2 hg.submitted.length_le⟩
    · rw [hnext]
      exact ⟨Nat.le_succ_of_le h.retrieved.1, (List.getElem?_eq_some_iff.mp htask).1⟩
  · have hyielded : (s.resumed i f event g).yielded = s.yielded ++ (values event).map fun v => (i, v) := by
      simp [resumed, hf]
    rw [hyielded, List.map_append, map_values, h.yielded]
    show _ = ((g.2.backend.submitted.take g.2.backend.retrieved).drop _).filterMap _
    obtain ⟨hsame, hnone⟩ | ⟨task, htask, hnext, hvalue⟩ := hg.result
    · rw [hsame, hnone, List.append_nil, take_prefix hg.submitted h.retrieved.2]
    · rw [hnext, hvalue, List.take_add_one, htask, take_prefix hg.submitted h.retrieved.2]
      rw [List.drop_append_of_le_length, List.filterMap_append]
      · simp [List.filterMap_cons]
        cases task.value <;> rfl
      · rw [List.length_take]
        exact Nat.le_min.mpr ⟨h.retrieved.1, Nat.le_trans h.retrieved.1 h.retrieved.2⟩
  · simpa [resumed, hf] using hcomputed

theorem Once.computes (h : Once p s) {i : Nat} {f : Frame α ε} {event : Resumable.Event α (Exc ε)} {g : Generator α ε}
    (hf : f.isSequential = true) (hg : Computes s.parallel event g.2) : Once p (s.resumed i f event g) := by
  obtain ⟨tasks, hexecuted, hcomputed⟩ := h.computed
  obtain ⟨more, hmore, hvalues⟩ := hg.executed
  refine ⟨?_, ?_, ?_, tasks ++ more, ?_, ?_⟩
  · show _ <+: g.2.backend.submitted
    rw [hg.backend]
    exact h.submitted
  · show _ ≤ g.2.backend.retrieved ∧ g.2.backend.retrieved ≤ g.2.backend.submitted.length
    rw [hg.backend]
    exact h.retrieved
  · have hyielded : (s.resumed i f event g).yielded = s.yielded := by simp [resumed, hf]
    rw [hyielded]
    show _ = ((g.2.backend.submitted.take g.2.backend.retrieved).drop _).filterMap _
    rw [hg.backend]
    exact h.yielded
  · show g.2.executed = _
    rw [hmore, hexecuted, List.append_assoc]
  · have hcomputed' : (s.resumed i f event g).computed = s.computed ++ (values event).map fun v => (i, v) := by
      simp [resumed, hf]
    rw [hcomputed', List.map_append, map_values, hcomputed, hvalues, List.filterMap_append]

/-- Step. -/
theorem Once.step {use : Use α ε} (h : Once p s) (hs : s.step host use = some s') : Once p s' := by
  cases use with
  | enter =>
    cases hs
    exact h.queues (.enter s.parallel)
  | exit =>
    cases hs
    exact h.queues ⟨List.prefix_rfl, rfl, rfl⟩
  | opens iterable =>
    have hprepare := Queues.prepare host iterable s.parallel
    simp only [Consumers.step] at hs
    cases hp : s.parallel.prepare host iterable with
    | mk output q =>
      rw [hp] at hs hprepare
      cases output <;> cases hs <;> exact h.queues hprepare
  | resumes i n =>
    obtain ⟨f, _, hrun⟩ := Option.bind_eq_some_iff.mp hs
    obtain ⟨⟨event, g⟩, hnext, rfl⟩ := Option.map_eq_some_iff.mp hrun
    cases hf : f.isSequential with
    | true => exact h.computes hf (next_computes hf hnext)
    | false => exact h.gives hf (next_gives hf hnext)
  | dispatches =>
    cases hs
    exact h.queues (.dispatchNext host.dispatcher s.parallel)
  | collects job =>
    cases hs
    exact h.queues ⟨List.prefix_rfl, rfl, rfl⟩
  | aborts =>
    cases hs
    exact h.queues ⟨List.prefix_rfl, rfl, rfl⟩

end Steps

theorem start_once {p : Parallel α ε} (h : p.backend.retrieved ≤ p.backend.submitted.length) : Once p (start p) := by
  refine ⟨List.prefix_rfl, ⟨Nat.le_refl _, h⟩, ?_, [], (List.append_nil _).symm, rfl⟩
  show [] = ((p.backend.submitted.take p.backend.retrieved).drop p.backend.retrieved).filterMap _
  rw [List.drop_eq_nil_of_le (List.length_take_le ..)]
  rfl

/-- Two calls, on `[3, 4]` and on `[5]`: the second generator is given the result the first call submitted last. -/
def twoCalls : List (Use Nat Empty) :=
  [.opens (.ofList ([Parallel.returning 3, Parallel.returning 4].map Call.delayed)), .dispatches, .dispatches,
    .resumes 0 1, .opens (.ofList ([Parallel.returning 5].map Call.delayed)), .dispatches, .resumes 1 1]

end Consumers

end Joblib
