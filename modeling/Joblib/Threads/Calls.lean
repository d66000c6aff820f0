import Joblib.Threads.Alone
import Joblib.Threads.Delivery
import Joblib.Parallel.Session

/-! A session is a run of the threads' system.

`Parallel.call` makes a call in one piece; `System.step` makes it access by access, with other threads
between any two. Where nobody else is about, the pieces come to the same: a concurrent call leads the
system from wherever it may begin to the state the call leaves (`call_followed`), and the calls of a
session one after another make one run of it (`session_followed`). -/
namespace Joblib.System
open Runs (run)
open Resumable (Drained drain next)

variable {α ε : Type} {host : Host α ε} {s t : System α ε}

/-! ### Where a generator comes back -/

/-- At its `yield`, or past its end. -/
theorem step_came {D : Dispatcher α ε} {event : Resumable.Event α (Exc ε)} {g g' : Generator α ε}
    (h : Generator.step D g = .came event g') :
    (∃ v, event = .yielded v ∧ g'.1.suspended = true) ∨ (∀ v, event ≠ .yielded v) ∧ g'.1 = .finished := by
  have hsequential : ∀ (rest : Iterator (Item α ε) ε) (p : Parallel α ε), Generator.sequentialTurn rest p = .came event g' →
      (∃ v, event = .yielded v ∧ g'.1.suspended = true) ∨ (∀ v, event ≠ .yielded v) ∧ g'.1 = .finished := by
    intro rest p h
    unfold Generator.sequentialTurn at h
    split at h
    · cases h
      exact .inr ⟨by simp, rfl⟩
    · cases h
      exact .inr ⟨by simp, rfl⟩
    · split at h <;> cases h
      · exact .inl ⟨_, rfl, rfl⟩
      · exact .inr ⟨by simp, rfl⟩
  obtain ⟨frame, p⟩ := g
  cases frame with
  | sequential iterable =>
    cases iterable with
    | ok it => exact hsequential it p h
    | error e =>
      cases h
      exact .inr ⟨by simp, rfl⟩
  | sequentialYield rest => exact hsequential rest p.complete h
  | outputs iterator =>
    change Generator.outputsTurn D iterator p = .came event g' at h
    rcases Generator.outputsTurn_cases D iterator p with hturn | ⟨v, _, hturn⟩ | ⟨_, _, hturn⟩ | hturn | ⟨_, hturn⟩ |
      hturn <;> rw [hturn] at h <;> cases h
    · exact .inl ⟨v, rfl, rfl⟩
    · exact .inr ⟨by simp, rfl⟩
    · exact .inr ⟨by simp, rfl⟩
    · exact .inr ⟨by simp, rfl⟩
  | outputsYield iterator =>
    change Generator.outputsBottom iterator p.complete = .came event g' at h
    rcases Generator.outputsBottom_cases iterator p.complete with hturn | ⟨_, hturn⟩ <;> rw [hturn] at h <;> cases h
    exact .inr ⟨by simp, rfl⟩
  | finished =>
    cases h
    exact .inr ⟨by simp, rfl⟩

theorem next_rests {n : Nat} {g g' : Generator α ε} {event : Resumable.Event α (Exc ε)}
    (h : next (Generator.step host.dispatcher) n g = some (event, g')) : g'.1.suspended = true ∨ g'.1 = .finished := by
  obtain ⟨u, hu⟩ := Resumable.next_last h
  rcases step_came hu with ⟨_, _, hsuspended⟩ | ⟨_, hfinished⟩
  · exact .inl hsuspended
  · exact .inr hfinished

theorem drain_rests {n : Nat} {g g' : Generator α ε} {d : Drained α (Exc ε)}
    (h : drain (Generator.step host.dispatcher) n g = some (d, g')) : g'.1 = .finished := by
  obtain ⟨u, event, hu, hended⟩ := Resumable.drain_last h
  rcases step_came hu with ⟨v, rfl, _⟩ | ⟨_, hfinished⟩
  · exact absurd rfl (hended v)
  · exact hfinished

/-- A generator that has come back leaves the main thread to its caller. -/
theorem Follows.free {g : Generator α ε} (h : Follows s g) (hrests : g.1.suspended = true ∨ g.1 = .finished) :
    s.main.free = true := by
  have hmain := h.main
  generalize g.1 = frame at hmain hrests
  cases frame with
  | sequential | sequentialYield => exact hmain.elim
  | outputs => simp [Frame.suspended] at hrests
  | outputsYield =>
    have hmain : s.main = .suspended := hmain
    rw [hmain]
    rfl
  | finished =>
    rcases hmain with hmain | hmain <;> rw [hmain] <;> rfl

/-! ### Up to the generator -/

/-- The five writes of `_reset_run_tracking`. -/
theorem leads_reset (hmain : s.main = .resetCompleted)
    (h : Leads host {s with parallel := s.parallel.resetRunTracking, main := .initializing} t) :
    Leads host s t := by
  have hreset : s.mainStep host =
      some {s with parallel := {s.parallel with nCompletedTasks := 0}, main := .resetDispatched} := by
    simp [mainStep, hmain]
  exact .main hreset (.main rfl (.main rfl (.main rfl (.main rfl h))))

/-- What a call has come to: an exception, or a generator in the loop. -/
def Prepared (s : System α ε) : Except (Exc ε) (Frame α ε) × Parallel α ε → Prop
  | (.error _, q) => s.parallel = q ∧ s.main = .raised
  | (.ok output, q) => Follows s (output, q)

variable (host) in
theorem leads_opened {nJobs : Int} {p : Parallel α ε} (hparallel : s.parallel = p) (hmain : s.main = .renewing nJobs) :
    ∃ t, Leads host s t ∧ Prepared t (p.prepareConcurrent host nJobs s.iterable) := by
  subst hparallel
  have hrenew : s.mainStep host = some (s.mainRenew nJobs) := by simp [mainStep, hmain]
  unfold Parallel.prepareConcurrent
  by_cases hlock : s.parallel.hasLock = true
  · have hrenewed : s.mainRenew nJobs =
        {s with parallel := s.parallel.enterConcurrent nJobs s.parallel.calling, main := .opening nJobs, idCall := s.callNo} := by
      simp [mainRenew, hlock]
    rw [hrenewed] at hrenew
    simp only [hlock, Bool.not_true, Bool.false_eq_true, if_false]
    by_cases h0 : nJobs = 0
    · rw [if_pos h0]
      refine ⟨_, .main hrenew (.main rfl (.refl _)), ?_⟩
      simp only [mainOpen, h0, if_true]
      exact ⟨rfl, rfl⟩
    · rw [if_neg h0]
      refine ⟨_, .main hrenew (.main rfl (.refl _)), ?_⟩
      simp only [mainOpen, h0, if_false]
      obtain ⟨q, _, ⟨e, hopen⟩ | ⟨iterator, hopen⟩⟩ := Parallel.openOutputs_cases host nJobs s.iterable
        {s.parallel.enterConcurrent nJobs s.parallel.calling with calling := true}
      · have hopen' := hopen
        change Parallel.openOutputs host nJobs s.iterable
          {s.parallel.renewCallId with cachedEffectiveNJobs := nJobs, calling := true} = _ at hopen'
        rw [hopen, hopen']
        exact ⟨rfl, rfl⟩
      · have hopen' := hopen
        change Parallel.openOutputs host nJobs s.iterable
          {s.parallel.renewCallId with cachedEffectiveNJobs := nJobs, calling := true} = _ at hopen'
        rw [hopen, hopen']
        exact ⟨rfl, rfl⟩
  · have hrenewed : s.mainRenew nJobs = s.goto .raised := by simp [mainRenew, hlock]
    rw [hrenewed] at hrenew
    simp only [hlock, Bool.not_false, if_true]
    exact ⟨_, .main hrenew (.refl _), rfl, rfl⟩

variable (host) in
/-- From the head of a call on several workers. -/
theorem leads_prepared {p : Parallel α ε} (hparallel : s.parallel = p) (hmain : s.main = .resetCompleted)
    (hw : (p.resetRunTracking.workers host).1 ≠ .ok 1) :
    ∃ t, Leads host s t ∧ Prepared t (p.prepare host s.iterable) := by
  subst hparallel
  unfold Parallel.prepare
  cases hworkers : s.parallel.resetRunTracking.workers host with
  | mk n q =>
    rw [hworkers] at hw
    cases n with
    | error e =>
      refine ⟨{s with parallel := q, main := .raised}, leads_reset hmain (.main ?_ (.refl _)), rfl, rfl⟩
      simp [mainStep, mainInitialize, hworkers]
    | ok nJobs =>
      have h1 : nJobs ≠ 1 := fun heq => hw (by rw [heq])
      obtain ⟨t, hleads, hprepared⟩ := leads_opened host (s := {s with parallel := q, main := .renewing nJobs}) rfl rfl
      refine ⟨t, leads_reset hmain (.main ?_ hleads), ?_⟩
      · simp [mainStep, mainInitialize, hworkers, h1]
      · simpa [h1] using hprepared

/-! ### Calls -/

/-- Where the main thread is when the call has given its caller `r`. -/
def Gave : Result α ε → System α ε → Prop
  | .generator output, s => Follows s (output, s.parallel)
  | _, s => s.main = .finished ∨ s.main = .raised

theorem leads_delivered {n : Nat} {output : Frame α ε} {p q : Parallel α ε} {r : Result α ε}
    (hs : Follows s (output, p)) (h : p.deliver host n output = some (r, q)) :
    ∃ t, Leads host s t ∧ t.parallel = q ∧ Gave r t ∧ t.main.free = true := by
  unfold Parallel.deliver at h
  cases hn : next (Generator.step host.dispatcher) n (output, p) with
  | none => simp [hn] at h
  | some came =>
    obtain ⟨event, f, p'⟩ := came
    rw [hn] at h
    obtain ⟨t, hleads, hfollows⟩ := next_followed hn s hs
    have hfree := hfollows.free (next_rests hn)
    obtain ⟨u, hu⟩ := Resumable.next_last hn
    have hrests := step_came hu
    cases event with
    | stopped =>
      cases h
      obtain rfl : f = .finished := by simpa using hrests
      exact ⟨t, hleads, hfollows.parallel, hfollows.main, hfree⟩
    | raised e =>
      cases h
      obtain rfl : f = .finished := by simpa using hrests
      exact ⟨t, hleads, hfollows.parallel, hfollows.main, hfree⟩
    | yielded v =>
      dsimp only at h
      split at h
      · cases h
        obtain rfl : t.parallel = _ := hfollows.parallel
        exact ⟨t, hleads, rfl, hfollows, hfree⟩
      · obtain ⟨⟨d, f', q'⟩, hdrain, heq⟩ := Option.map_eq_some_iff.mp h
        obtain rfl : f' = .finished := drain_rests hdrain
        obtain ⟨t', hleads', hfollows'⟩ := drain_followed hdrain t hfollows
        have hfree' := hfollows'.free (.inr rfl)
        have hparallel := hfollows'.parallel
        dsimp only at heq
        split at heq <;> cases heq <;> exact ⟨t', hleads.trans hleads', hparallel, hfollows'.main, hfree'⟩

/-- A call, the main thread's steps and the backend's answers. -/
def OneCall (host : Host α ε) (s : System α ε) (iterable : Iterable (Item α ε) ε) (t : System α ε) : Prop :=
  ∃ s', s.step host (.start iterable) = some s' ∧ Leads host s' t

/-- **A concurrent call is a run of the system that nobody else takes part in.** -/
theorem call_followed {n : Nat} {iterable : Iterable (Item α ε) ε} {p q : Parallel α ε} {r : Result α ε}
    (hparallel : s.parallel = p) (hfree : s.main.free = true) (hw : (p.resetRunTracking.workers host).1 ≠ .ok 1)
    (h : p.call host n iterable = some (r, q)) :
    ∃ t, OneCall host s iterable t ∧ t.parallel = q ∧ Gave r t ∧ t.main.free = true := by
  have hstart : s.step host (.start iterable) =
      some {s with main := .resetCompleted, iterable := iterable, callNo := s.callNo + 1} := if_pos hfree
  obtain ⟨t, hleads, hprepared⟩ := leads_prepared host
    (s := {s with main := .resetCompleted, iterable := iterable, callNo := s.callNo + 1}) hparallel rfl hw
  unfold Parallel.call at h
  dsimp only at hprepared
  generalize p.prepare host iterable = prepared at hprepared h
  obtain ⟨output, p'⟩ := prepared
  cases output with
  | error e =>
    cases h
    obtain ⟨hq, hmain⟩ := hprepared
    refine ⟨t, ⟨_, hstart, hleads⟩, hq, .inr hmain, ?_⟩
    rw [hmain]
    rfl
  | ok output =>
    obtain ⟨u, hdelivered, hq, hgave, hend⟩ := leads_delivered hprepared h
    exact ⟨u, ⟨_, hstart, hleads.trans hdelivered⟩, hq, hgave, hend⟩

/-- So is one whose generator is run to its end. -/
theorem callAndExhaust_followed {n : Nat} {iterable : Iterable (Item α ε) ε} {p q : Parallel α ε}
    {d : Drained α (Exc ε)} (hparallel : s.parallel = p) (hfree : s.main.free = true)
    (hw : (p.resetRunTracking.workers host).1 ≠ .ok 1)
    (h : p.callAndExhaust host n iterable = some (d, q)) :
    ∃ t, OneCall host s iterable t ∧ t.parallel = q ∧ t.main.free = true := by
  obtain ⟨⟨r, p'⟩, hcall, hexhaust⟩ := Option.bind_eq_some_iff.mp h
  obtain ⟨t, hone, rfl, hgave, hend⟩ := call_followed hparallel hfree hw hcall
  cases r with
  | list values =>
    cases hexhaust
    exact ⟨t, hone, rfl, hend⟩
  | raised e =>
    cases hexhaust
    exact ⟨t, hone, rfl, hend⟩
  | generator output =>
    obtain ⟨⟨d', f, q'⟩, hdrain, heq⟩ := Option.map_eq_some_iff.mp hexhaust
    obtain ⟨rfl, rfl⟩ : d' = d ∧ q' = q := by simpa using heq
    obtain rfl : f = .finished := drain_rests hdrain
    obtain ⟨u, hleads, hfollows⟩ := drain_followed hdrain t hgave
    obtain ⟨s', hstart, hcalled⟩ := hone
    exact ⟨u, ⟨s', hstart, hcalled.trans hleads⟩, hfollows.parallel, hfollows.free (.inr rfl)⟩

/-! ### Sessions -/

/-- An action of the main thread, or an answer to it. -/
def OfMain (a : Action α ε) : Prop := a.tracker = none ∧ a ≠ .abort

/-- The run a call makes. -/
theorem OneCall.run {iterable : Iterable (Item α ε) ε} (h : OneCall host s iterable t) :
    ∃ actions : List (Action α ε), run (step host) s actions = some t ∧ actions.filterMap argument = [iterable] ∧
      ∀ a ∈ actions, OfMain a := by
  obtain ⟨s', hstart, actions, halone, hrun⟩ := h
  refine ⟨.start iterable :: actions, ?_, ?_, fun a ha => ?_⟩
  · show (s.step host (.start iterable)).bind _ = _
    rw [hstart]
    exact hrun
  · have hnone : actions.filterMap argument = [] := by
      refine List.filterMap_eq_nil_iff.mpr fun a ha => ?_
      rcases halone a ha with rfl | ⟨raises, rfl⟩ <;> rfl
    simp [argument, hnone]
  · rcases List.mem_cons.mp ha with rfl | hmem
    · exact ⟨rfl, by simp⟩
    · rcases halone a hmem with rfl | ⟨raises, rfl⟩ <;> exact ⟨rfl, by simp⟩

theorem session_run {w : Int} (h1 : w ≠ 1) {n : Nat} {tss : List (List (Item α ε))} {p q : Parallel α ε}
    {results : List (Drained α (Exc ε))} (hgrants : Parallel.Grants host w p)
    (hparallel : s.parallel = p) (hfree : s.main.free = true) (h : Parallel.session host n tss p = some (results, q)) :
    ∃ (actions : List (Action α ε)) (t : System α ε), run (step host) s actions = some t ∧ t.parallel = q ∧
      actions.filterMap argument = tss.map .ofList ∧ ∀ a ∈ actions, OfMain a := by
  induction tss generalizing s p q results with
  | nil =>
    obtain ⟨rfl, rfl⟩ : [] = results ∧ p = q := by simpa [Parallel.session] using h
    exact ⟨[], s, rfl, hparallel, rfl, fun a ha => by cases ha⟩
  | cons ts rest ih =>
    obtain ⟨⟨d, p'⟩, hcall, hrest⟩ := Option.bind_eq_some_iff.mp h
    obtain ⟨⟨ds, q'⟩, hsession, heq⟩ := Option.map_eq_some_iff.mp hrest
    obtain ⟨rfl, rfl⟩ : d :: ds = results ∧ q' = q := by simpa using heq
    have hworkers : (p.resetRunTracking.workers host).1 ≠ .ok 1 := by
      rw [hgrants p ⟨rfl, rfl, rfl, rfl, rfl⟩]
      simpa using h1
    obtain ⟨t, hone, hparallel', hfree'⟩ := callAndExhaust_followed hparallel hfree hworkers hcall
    have hsame := Parallel.SameSettings.callAndExhaust hcall
    obtain ⟨first, hfirst, harguments, hmain⟩ := hone.run
    obtain ⟨more, u, hmore, hq, harguments', hmain'⟩ :=
      ih (fun p hp => hgrants p (hsame.trans hp)) hparallel' hfree' hsession
    refine ⟨first ++ more, u, ?_, hq, ?_, fun a ha => ?_⟩
    · rw [Runs.run_append, hfirst]
      exact hmore
    · rw [List.filterMap_append, harguments, harguments']
      rfl
    · rcases List.mem_append.mp ha with hmem | hmem
      · exact hmain a hmem
      · exact hmain' a hmem

variable (host) in
/-- **A session of concurrent calls is a run of the system**: one that begins where no call has been made, begins
the calls of the session in their order, has no step of another thread, and ends with the instance as the session
leaves it. -/
theorem session_followed {w : Int} {p q : Parallel α ε} (hgrants : Parallel.Grants host w p) (h1 : w ≠ 1) {n : Nat}
    {tss : List (List (Item α ε))} {results : List (Drained α (Exc ε))}
    (h : Parallel.session host n tss p = some (results, q)) :
    ∃ (actions : List (Action α ε)) (t : System α ε), run (step host) (created p) actions = some t ∧ t.parallel = q ∧
      actions.filterMap argument = tss.map .ofList ∧ ∀ a ∈ actions, OfMain a :=
  session_run h1 hgrants rfl rfl h

/-- Two calls on two workers, the first over two tasks. -/
theorem session_followed_pair : ∃ (actions : List (Action Nat Empty)) (t : System Nat Empty),
    run (step (.plain Nat Empty)) (created (Parallel.pair (.count 2))) actions = some t ∧
      t.parallel.backend.submitted.length = 3 ∧ ∀ a ∈ actions, OfMain a := by
  obtain ⟨results, q, hsession, hlength⟩ : ∃ results q,
      Parallel.session (.plain Nat Empty) 30 [oneTask ++ oneTask, oneTask] (Parallel.pair (.count 2)) = some (results, q) ∧
        q.backend.submitted.length = 3 := ⟨_, _, rfl, rfl⟩
  obtain ⟨actions, t, hrun, rfl, _, hmain⟩ :=
    session_followed (.plain Nat Empty) (Parallel.pair_grants (.count 2)) (by decide) hsession
  exact ⟨actions, t, hrun, hlength, hmain⟩

end Joblib.System
