import Joblib.Threads.Window

/-! What the calls of one instance send to its backend.

Any number of calls follow one another, some of them aborted or given up, and the trackers
of each may be invoked long after. Whoever dispatches takes the next batch of the iterator
that is in `_original_iterator` then, which is the latest call's or, until that call has
opened its own, the one before it. So the tasks sent are a front part of each call's tasks,
call after call: none is sent twice, none is skipped and none comes out of turn
(`sent_once`). -/
namespace Joblib.System
open Window (RaisesOnNone)

variable {α ε : Type} {host : Host α ε} {s t : System α ε} {rest : List (Item α ε)}

/-- The tasks of a call: those that have been sent, and those left in its iterator. -/
structure Share (α ε : Type) where
  sent : List (Item α ε)
  left : List (Item α ε)

/-- What the call was made on. -/
def Share.iterable (share : Share α ε) : Iterable (Item α ε) ε := .ofList (share.sent ++ share.left)

/-- The argument of a call that begins. -/
def argument : Action α ε → Option (Iterable (Item α ε) ε)
  | .start iterable => some iterable
  | _ => none

/-- A call that begins is made on a list. -/
def Listed (a : Action α ε) : Prop := ∀ iterable, a = .start iterable → ∃ ts, iterable = .ofList ts

/-- A call has begun and its iterator is not in `_original_iterator` yet. -/
def unopened : Pc → Bool
  | .opening _ => true
  | pc => pc.beforeId

/-- The argument whose iterator is to come. -/
def upcoming (s : System α ε) : List (Iterable (Item α ε) ε) := if unopened s.main then [s.iterable] else []

/-- `first` was sent before the calls, `arguments` are theirs, and `shares` what has become of those
that got to open their iterators; the latest of these is dispatched from. -/
structure Shares (first : List (Item α ε)) (arguments : List (Iterable (Item α ε) ε)) (shares : List (Share α ε))
    (s : System α ε) : Prop where
  submitted : s.parallel.backend.submitted = first ++ shares.flatMap Share.sent
  retrieved : s.parallel.backend.retrieved ≤ s.parallel.backend.submitted.length
  called : (shares.map Share.iterable ++ s.upcoming).Sublist arguments
  listed : ∀ iterable ∈ s.upcoming, ∃ ts, iterable = .ofList ts
  iterator : s.parallel.originalIterator = none ∨
    ∃ earlier share, shares = earlier ++ [share] ∧ s.parallel.originalIterator = some (.ofList share.left)

section Steps
variable {first : List (Item α ε)} {arguments : List (Iterable (Item α ε) ε)} {shares : List (Share α ε)}

/-- A step that sends nothing and opens nothing. -/
theorem Shares.keep (h : Shares first arguments shares s)
    (hsubmitted : t.parallel.backend.submitted = s.parallel.backend.submitted)
    (hretrieved : t.parallel.backend.retrieved ≤ s.parallel.backend.submitted.length)
    (hiterator : t.parallel.originalIterator = s.parallel.originalIterator)
    (hupcoming : t.upcoming.Sublist s.upcoming) : Shares first arguments shares t where
  submitted := hsubmitted.trans h.submitted
  retrieved := hsubmitted ▸ hretrieved
  called := (List.Sublist.append_left hupcoming _).trans h.called
  listed iterable hmem := h.listed iterable (hupcoming.subset hmem)
  iterator := hiterator ▸ h.iterator

/-- A batch more is sent: it is the front of what the latest of the calls has left. -/
theorem Shares.sent {batch left : List (Item α ε)} (h : Shares first arguments shares s)
    (hiterator : s.parallel.originalIterator = some (.ofList (batch ++ left)))
    (hsubmitted : t.parallel.backend.submitted = s.parallel.backend.submitted ++ batch)
    (hretrieved : t.parallel.backend.retrieved = s.parallel.backend.retrieved)
    (hleft : t.parallel.originalIterator = some (.ofList left)) (hupcoming : t.upcoming = s.upcoming) :
    ∃ shares, Shares first arguments shares t := by
  rcases h.iterator with hnone | ⟨earlier, share, rfl, hshare⟩
  · rw [hiterator] at hnone
    cases hnone
  · have hrest : share.left = batch ++ left := Iterator.ofList_injective (Option.some.inj (hshare.symm.trans hiterator))
    refine ⟨earlier ++ [⟨share.sent ++ batch, left⟩], ?_, ?_, ?_, ?_, .inr ⟨earlier, _, rfl, hleft⟩⟩
    · rw [hsubmitted, h.submitted]
      simp [List.append_assoc]
    · rw [hsubmitted, hretrieved, List.length_append]
      exact Nat.le_add_right_of_le h.retrieved
    · -- what is sent and left together is the call's argument as before
      have hsame : Share.iterable ⟨share.sent ++ batch, left⟩ = share.iterable := by
        simp only [Share.iterable, hrest, List.append_assoc]
      have hcalled := h.called
      rw [List.map_append, List.map_singleton] at hcalled ⊢
      rwa [hsame, hupcoming]
    · rw [hupcoming]
      exact h.listed

/-- From `None` the loop takes nothing. -/
theorem mainDispatch_none (hraises : RaisesOnNone host.dispatcher) (h : s.parallel.originalIterator = none) :
    s.mainDispatch host = s.goto .raised := by
  obtain ⟨e, he⟩ := hraises s.parallel
  have hsame : {s.parallel with originalIterator := none} = s.parallel := by rw [← h]
  unfold mainDispatch
  simp only [h, he, hsame]
  simp [goto, dispatched, newTrackers]

/-- Nor does a tracker. -/
theorem dispatchedNew_none (h : s.parallel.originalIterator = none) (i : Nat) (tracker : Tracker α ε) :
    s.dispatchedNew host i tracker = s.settle i tracker := by
  have hnone : BatchCompletionCallBack.reachesDispatch s.parallel = false := by
    simp [BatchCompletionCallBack.reachesDispatch, h]
  have hsame : BatchCompletionCallBack.dispatchNew host.dispatcher s.parallel = s.parallel := by
    rw [BatchCompletionCallBack.dispatchNew_eq, hnone]
    rfl
  simp [dispatchedNew, hsame, hnone, settle, dispatched, newTrackers]

theorem Shares.mainDispatch (hraises : RaisesOnNone host.dispatcher) (h : Shares first arguments shares s)
    (hmain : s.main = .dispatching) : ∃ shares, Shares first arguments shares (s.mainDispatch host) := by
  have hupcoming : s.upcoming = [] := by simp [upcoming, hmain, unopened, Pc.beforeId, Pc.resetting]
  rcases h.iterator with hnone | ⟨earlier, share, _, hshare⟩
  · rw [mainDispatch_none hraises hnone]
    exact ⟨shares, h.keep rfl h.retrieved rfl (List.nil_sublist _)⟩
  · rcases mainDispatch_ofList host hshare with ⟨_, hrun⟩ | ⟨batch, left, _, hrest, hrun⟩
    · rw [hrun]
      exact ⟨shares, h.keep rfl h.retrieved rfl (List.nil_sublist _)⟩
    · rw [hrun]
      exact h.sent (hrest ▸ hshare) rfl rfl rfl hupcoming.symm

theorem Shares.dispatchedNew (h : Shares first arguments shares s) (i : Nat) (tracker : Tracker α ε) :
    ∃ shares, Shares first arguments shares (s.dispatchedNew host i tracker) := by
  have hsettle : Shares first arguments shares (s.settle i tracker) :=
    h.keep rfl h.retrieved rfl (List.Sublist.refl _)
  rcases h.iterator with hnone | ⟨earlier, share, _, hshare⟩
  · rw [dispatchedNew_none hnone]
    exact ⟨shares, hsettle⟩
  · cases haborting : s.parallel.aborting with
    | true =>
      rw [dispatchedNew_aborting haborting]
      exact ⟨shares, hsettle⟩
    | false =>
      rcases dispatchedNew_ofList host haborting hshare i tracker with ⟨_, hrun⟩ | ⟨batch, left, _, hrest, hrun⟩
      · rw [hrun]
        exact ⟨shares, h.keep rfl h.retrieved rfl (List.Sublist.refl _)⟩
      · rw [hrun]
        exact h.sent (hrest ▸ hshare) rfl rfl rfl rfl

variable (host) in
/-- What a call on a list leaves in `_original_iterator`, whether or not it gets to the loop. -/
theorem openOutputs_none_or (nJobs : Int) (ts : List (Item α ε)) (p : Parallel α ε) :
    (p.openOutputs host nJobs (.ofList ts)).2.originalIterator = none ∨
      (p.openOutputs host nJobs (.ofList ts)).2.originalIterator = some (.ofList ts) := by
  by_cases hall : p.preDispatch = .text "all"
  · exact .inl ((Parallel.openOutputs_none_iff host nJobs (.ofList ts) p).mpr hall)
  · exact .inr (Parallel.openOutputs_some host nJobs (.ofList ts) hall)

/-- A call opens the iterator of its argument, all of it left. -/
theorem Shares.mainOpen {nJobs : Int} (h : Shares first arguments shares s) (hmain : s.main = .opening nJobs) :
    ∃ shares, Shares first arguments shares (s.mainOpen host nJobs) := by
  have hupcoming : s.upcoming = [s.iterable] := by simp [upcoming, hmain, unopened]
  unfold System.mainOpen
  by_cases hn : nJobs = 0
  · rw [if_pos hn]
    exact ⟨shares, h.keep rfl h.retrieved rfl (List.nil_sublist _)⟩
  · rw [if_neg hn]
    obtain ⟨ts, hts⟩ := h.listed s.iterable (by simp [hupcoming])
    have hcalled := h.called
    rw [hupcoming, hts] at hcalled
    have hset := openOutputs_none_or host nJobs ts {s.parallel with calling := true}
    rw [← hts] at hset
    obtain ⟨q, hopens, hq⟩ :=
      Parallel.openOutputs_cases host nJobs s.iterable {s.parallel with calling := true}
    have hopened : ∀ pc, unopened pc = false → q.originalIterator = none ∨ q.originalIterator = some (.ofList ts) →
        Shares first arguments (shares ++ [⟨[], ts⟩]) {s with parallel := q, main := pc} := by
      intro pc hpc hiterator
      have hnothing : upcoming {s with parallel := q, main := pc} = [] := by simp [upcoming, hpc]
      refine ⟨?_, ?_, ?_, ?_, hiterator.imp_right fun hsome => ⟨shares, _, rfl, hsome⟩⟩
      · rw [hopens.eq]
        simpa using h.submitted
      · rw [hopens.eq]
        exact h.retrieved
      · rw [hnothing, List.append_nil, List.map_append]
        exact hcalled
      · rw [hnothing]
        exact fun _ hmem => absurd hmem List.not_mem_nil
    rcases hq with ⟨e, hq⟩ | ⟨iterator, hq⟩ <;>
    · rw [hq] at hset ⊢
      exact ⟨_, hopened _ rfl hset⟩

/-- A step of the main thread that leaves the backend's queue and the iterator alone. -/
theorem Shares.turn {q : Parallel α ε} {pc : Pc} (h : Shares first arguments shares s)
    (hsubmitted : q.backend.submitted = s.parallel.backend.submitted)
    (hretrieved : q.backend.retrieved = s.parallel.backend.retrieved)
    (hiterator : q.originalIterator = s.parallel.originalIterator)
    (hpc : unopened pc = true → unopened s.main = true) :
    Shares first arguments shares {s with parallel := q, main := pc} := by
  refine h.keep hsubmitted (hretrieved ▸ h.retrieved) hiterator ?_
  simp only [upcoming]
  split
  next hunopened => rw [if_pos (hpc hunopened)]
  next => exact List.nil_sublist _

variable (host) in
theorem mainInitialize_eq (s : System α ε) :
    ∃ configured pc, (pc = .raised ∨ pc = .sequential ∨ ∃ n, pc = .renewing n) ∧
    s.mainInitialize host =
      {s with parallel := s.parallel.withBackend {s.parallel.backend with configured := configured}, main := pc} := by
  obtain ⟨configured, hframe⟩ := Parallel.workers_frame host s.parallel
  unfold mainInitialize
  cases hw : s.parallel.workers host with
  | mk r q =>
    rw [hw] at hframe
    obtain rfl : q = _ := hframe
    cases r with
    | error e => exact ⟨configured, .raised, .inl rfl, rfl⟩
    | ok nJobs =>
      refine ⟨configured, _, ?_, rfl⟩
      split
      · exact .inr (.inl rfl)
      · exact .inr (.inr ⟨nJobs, rfl⟩)

/-- The main thread, from a call's beginning on. -/
theorem Shares.mainStep (hraises : RaisesOnNone host.dispatcher) (h : Shares first arguments shares s)
    (ht : s.mainStep host = some t) : ∃ shares, Shares first arguments shares t := by
  by_cases hloop : s.main.inLoop = true
  · cases mainStep_loop (.inl hloop) ht with
    | dispatches hmain => exact h.mainDispatch hraises hmain
    | counts | clears => exact ⟨shares, h.turn rfl rfl rfl (by simp [unopened, Pc.beforeId, Pc.resetting])⟩
    | @goes pc hgoes =>
      have hafter : unopened pc = false := by
        generalize s.main = before at hgoes
        cases hgoes <;> rfl
      exact ⟨shares, h.turn rfl rfl rfl (by simp [hafter])⟩
  · cases hmain : s.main with
    | opening nJobs =>
      simp only [System.mainStep, hmain, Option.some.injEq] at ht
      exact ht ▸ h.mainOpen hmain
    | initializing =>
      simp only [System.mainStep, hmain, Option.some.injEq] at ht
      obtain ⟨configured, pc, _, heq⟩ := mainInitialize_eq host s
      rw [← ht, heq]
      exact ⟨shares, h.turn rfl rfl rfl fun _ => by rw [hmain]; rfl⟩
    | renewing nJobs =>
      simp only [System.mainStep, hmain, Option.some.injEq, mainRenew] at ht
      subst ht
      split
      · exact ⟨shares, h.turn rfl rfl rfl fun _ => by rw [hmain]; rfl⟩
      · have hupcoming : s.upcoming = [s.iterable] := by simp [upcoming, hmain, unopened, Pc.beforeId]
        refine ⟨shares, h.keep rfl h.retrieved rfl ?_⟩
        rw [hupcoming]
        exact List.Sublist.refl _
    | sequential =>
      simp only [System.mainStep, hmain, Option.some.injEq] at ht
      rw [← ht, ← hmain]
      exact ⟨shares, h.turn rfl rfl rfl fun h => h⟩
    | resetCompleted | resetDispatched | resetBatches | resetAborting | resetIterating =>
      simp only [System.mainStep, hmain, Option.some.injEq] at ht
      subst ht
      exact ⟨shares, h.turn rfl rfl rfl fun _ => by rw [hmain]; rfl⟩
    | idle | finished | raised => simp [System.mainStep, hmain] at ht
    | _ => exact absurd (by rw [hmain]; rfl) hloop

/-- A call that begins gives up what is left of the one before, if that was still to open. -/
theorem Shares.start {ts : List (Item α ε)} (h : Shares first arguments shares s)
    (ht : s.step host (.start (.ofList ts)) = some t) :
    Shares first (arguments ++ [.ofList ts]) shares t := by
  rw [step_start ht]
  refine ⟨h.submitted, h.retrieved, ?_, ?_, h.iterator⟩
  · exact List.Sublist.append ((List.sublist_append_left _ _).trans h.called) (List.Sublist.refl _)
  · intro iterable hmem
    exact ⟨ts, List.mem_singleton.mp hmem⟩

/-- **Step: whoever acts, what is sent is the next of the latest call's tasks.** -/
theorem Shares.step {a : Action α ε} (hraises : RaisesOnNone host.dispatcher) (h : Shares first arguments shares s)
    (ht : s.step host a = some t) (hlisted : Listed a) :
    ∃ shares, Shares first (arguments ++ (argument a).toList) shares t := by
  cases a with
  | start iterable =>
    obtain ⟨ts, rfl⟩ := hlisted iterable rfl
    exact ⟨shares, h.start ht⟩
  | main =>
    simp only [argument, Option.toList, List.append_nil]
    exact h.mainStep hraises ht
  | retrieve raises =>
    simp only [argument, Option.toList, List.append_nil]
    have hless : s.parallel.backend.retrieved < s.parallel.backend.submitted.length := by
      simp only [System.step] at ht
      split at ht
      next hready => exact hready.2
      next => cases ht
    obtain ⟨_, rfl⟩ := step_retrieve ht
    refine ⟨shares, h.keep rfl hless rfl ?_⟩
    cases raises <;> exact List.nil_sublist _
  | enter i success result =>
    simp only [argument, Option.toList, List.append_nil]
    obtain ⟨tracker, _, rfl⟩ := step_enter ht
    obtain ⟨jobs, hparallel⟩ := s.entered_parallel i tracker success result
    refine ⟨shares, h.keep ?_ ?_ ?_ (List.Sublist.refl _)⟩ <;> rw [hparallel]
    exact h.retrieved
  | dispatchNew i =>
    simp only [argument, Option.toList, List.append_nil]
    obtain ⟨tracker, _, rfl⟩ := step_dispatchNew ht
    exact h.dispatchedNew i tracker
  | abort =>
    simp only [argument, Option.toList, List.append_nil]
    obtain rfl := Option.some.inj ht
    exact ⟨shares, h.keep rfl h.retrieved rfl (List.Sublist.refl _)⟩

theorem Shares.run (hraises : RaisesOnNone host.dispatcher) {actions : List (Action α ε)}
    (h : Shares first arguments shares s) (hlisted : ∀ a ∈ actions, Listed a)
    (ht : Runs.run (System.step host) s actions = some t) :
    ∃ shares, Shares first (arguments ++ actions.filterMap argument) shares t := by
  induction actions generalizing s arguments shares with
  | nil =>
    obtain rfl : s = t := Option.some.inj ht
    exact ⟨shares, (List.append_nil arguments).symm ▸ h⟩
  | cons a actions ih =>
    obtain ⟨s', hs', hrest⟩ := Runs.run_cons ht
    obtain ⟨shares', h'⟩ := h.step hraises hs' (hlisted a (List.mem_cons_self ..))
    obtain ⟨shares'', h''⟩ := ih h' (fun b hb => hlisted b (List.mem_cons_of_mem a hb)) hrest
    rw [List.append_assoc] at h''
    refine ⟨shares'', ?_⟩
    rw [List.filterMap_cons]
    cases harg : argument a with
    | none => simpa [harg] using h''
    | some iterable => simpa [harg] using h''

end Steps

theorem created_shares (p : Parallel α ε) (hnone : p.originalIterator = none)
    (hretrieved : p.backend.retrieved ≤ p.backend.submitted.length) :
    Shares p.backend.submitted [] [] (created p) where
  submitted := (List.append_nil _).symm
  retrieved := hretrieved
  called := List.Sublist.refl _
  listed _ hmem := absurd hmem List.not_mem_nil
  iterator := .inl hnone

variable (host) in
/-- **Whatever calls are made and whoever dispatches, each call's tasks are sent in order, from the
first on and at most once**, and no more results are handed out than tasks were sent. -/
theorem sent_once (hraises : RaisesOnNone host.dispatcher) (p : Parallel α ε) (hnone : p.originalIterator = none)
    (hretrieved : p.backend.retrieved ≤ p.backend.submitted.length) {actions : List (Action α ε)}
    (hlisted : ∀ a ∈ actions, Listed a) (h : Runs.run (step host) (created p) actions = some t) :
    ∃ shares, Shares p.backend.submitted (actions.filterMap argument) shares t :=
  (created_shares p hnone hretrieved).run hraises hlisted h

/-- A call over two tasks is given up with the first task's result; its tracker, between its two
blocks, sends the second task when the next call has begun, and that call sends its own. -/
def givenUp : List (Action Nat Empty) :=
  .start (.ofList (oneTask ++ oneTask)) :: List.replicate 17 .main ++ [.enter 0 true (.value 1), .retrieve false] ++
    .start (.ofList oneTask) :: .dispatchNew 0 :: List.replicate 13 .main

theorem sent_once_givenUp : ∃ t shares,
    Runs.run (step (.plain Nat Empty)) (created (.created 2 (.count 1) .list (.idle "LokyBackend" true) true)) givenUp =
      some t ∧ t.parallel.backend.submitted.length = 3 ∧
        Shares [] [.ofList (oneTask ++ oneTask), .ofList oneTask] shares t := by
  obtain ⟨t, hrun, hlength⟩ : ∃ t,
      Runs.run (step (.plain Nat Empty)) (created (.created 2 (.count 1) .list (.idle "LokyBackend" true) true))
        givenUp = some t ∧ t.parallel.backend.submitted.length = 3 := ⟨_, rfl, rfl⟩
  have hlisted : ∀ a ∈ givenUp, Listed a := by
    intro a ha iterable heq
    subst heq
    simp only [givenUp, List.mem_append, List.mem_cons, List.mem_replicate, List.not_mem_nil, or_false,
      Action.start.injEq, reduceCtorEq, and_false] at ha
    rcases ha with rfl | rfl <;> exact ⟨_, rfl⟩
  obtain ⟨shares, hshares⟩ := sent_once (.plain Nat Empty) (fun p => ⟨_, rfl⟩) _ rfl (Nat.le_refl 0) hlisted hrun
  exact ⟨t, shares, hrun, hlength, hshares⟩

end Joblib.System
