import Joblib.Threads.Delivery

/-! What the callbacks report.

A backend that supports the retrieval callback invokes a batch's tracker when the batch is done, in whatever
order the batches are done, late ones of earlier calls among them. Under the lock the tracker takes the report
if its call is the running one and is not aborting, and an unordered call then collects it in `_jobs`. So
`_jobs` is the batches whose reports were taken, in the order they came, each once; each has the outcome that
was reported and no other batch has one; and a batch that failed dispatches nothing (`collected_in_turn`). -/
namespace Joblib.System
open BatchCompletionCallBack (Accepted enter_accepted enter_refused)

variable {α ε : Type} {host : Host α ε} {s t : System α ε}

/-- What a tracker is invoked with, by its place. -/
structure Report (α ε : Type) where
  tracker : Nat
  success : Bool
  result : Obj α ε

def Report.status (r : Report α ε) : Status := if r.success then .done else .error

/-- The invocation of a tracker. -/
def report : Action α ε → Option (Report α ε)
  | .enter i success result => some ⟨i, success, result⟩
  | _ => none

/-- The report that is taken, if one is. -/
def taken (s : System α ε) (a : Action α ε) : Option (Report α ε) :=
  (report a).filter fun r =>
    s.trackers[r.tracker]?.any fun tracker => decide (Accepted tracker.callback.parallelCallId s.parallel)

/-- Those that are taken along a run. -/
def takenAlong (host : Host α ε) : System α ε → List (Action α ε) → List (Report α ε)
  | _, [] => []
  | s, a :: rest => (taken s a).toList ++ ((s.step host a).map fun t => takenAlong host t rest).getD []

/-- What has come of the reports taken; `first` was in `_jobs` before. -/
structure Collected (first : List Nat) (reports : List (Report α ε)) (s : System α ε) : Prop where
  supports : s.parallel.backend.supportsRetrieveCallback = true
  jobs : s.parallel.jobs =
    first ++ if s.parallel.returnAs.returnOrdered then [] else reports.map Report.tracker
  recorded : ∀ r ∈ reports, ∃ tracker, s.trackers[r.tracker]? = some tracker ∧
    tracker.callback.status = some r.status ∧ tracker.callback.result = some r.result
  others : ∀ i tracker, s.trackers[i]? = some tracker → (∀ r ∈ reports, r.tracker ≠ i) →
    tracker.callback.status = some .pending ∧ tracker.callback.result = none
  dispatching : ∀ tracker ∈ s.trackers, tracker.pc = .dispatching → tracker.callback.status = some .done

/-! ### Steps that report nothing -/

/-- What every step but an invocation leaves alone. -/
structure Quiet (s t : System α ε) : Prop where
  jobs : t.parallel.jobs = s.parallel.jobs
  returnAs : t.parallel.returnAs = s.parallel.returnAs
  supports : t.parallel.backend.supportsRetrieveCallback = s.parallel.backend.supportsRetrieveCallback
  kept : ∀ (i : Nat) (tracker : Tracker α ε), s.trackers[i]? = some tracker →
    ∃ tracker' : Tracker α ε, t.trackers[i]? = some tracker' ∧ tracker'.callback = tracker.callback ∧
      (tracker'.pc = .dispatching → tracker.pc = .dispatching)
  fresh : ∀ (i : Nat) (tracker' : Tracker α ε), t.trackers[i]? = some tracker' → s.trackers[i]? = none →
    tracker'.pc = .waiting ∧ ∃ p : Parallel α ε,
      p.backend.supportsRetrieveCallback = s.parallel.backend.supportsRetrieveCallback ∧ tracker'.callback = .create p

/-- A step that touches no tracker. -/
theorem Quiet.parallel {q : Parallel α ε} {pc : Pc} {iterable : Iterable (Item α ε) ε} {callNo idCall : Nat}
    (hjobs : q.jobs = s.parallel.jobs) (hreturnAs : q.returnAs = s.parallel.returnAs)
    (hsupports : q.backend.supportsRetrieveCallback = s.parallel.backend.supportsRetrieveCallback) :
    Quiet s {s with parallel := q, main := pc, iterable := iterable, callNo := callNo, idCall := idCall} where
  jobs := hjobs
  returnAs := hreturnAs
  supports := hsupports
  kept i tracker htracker := ⟨tracker, htracker, rfl, fun h => h⟩
  fresh i tracker' htracker' hnone := by
    rw [show s.trackers[i]? = some tracker' from htracker'] at hnone
    cases hnone

/-- A dispatch, by whoever. -/
theorem Quiet.dispatched {q : Parallel α ε} (hjobs : q.jobs = s.parallel.jobs)
    (hreturnAs : q.returnAs = s.parallel.returnAs)
    (hsupports : q.backend.supportsRetrieveCallback = s.parallel.backend.supportsRetrieveCallback) :
    Quiet s (s.dispatched q) where
  jobs := hjobs
  returnAs := hreturnAs
  supports := hsupports
  kept i tracker htracker := by
    refine ⟨tracker, ?_, rfl, fun h => h⟩
    show (s.trackers ++ _)[i]? = _
    rw [List.getElem?_append_left (List.getElem?_eq_some_iff.mp htracker).1, htracker]
  fresh i tracker' htracker' hnone := by
    have htracker' : (s.trackers ++ newTrackers s.parallel q s.idCall)[i]? = some tracker' := htracker'
    rw [List.getElem?_append_right (List.getElem?_eq_none_iff.mp hnone)] at htracker'
    obtain rfl := List.eq_of_mem_replicate (List.mem_of_getElem? htracker')
    exact ⟨rfl, q, hsupports, rfl⟩

theorem Quiet.trans {u : System α ε} (h : Quiet s t) (h' : Quiet t u) (hlength : u.trackers.length = t.trackers.length) :
    Quiet s u where
  jobs := h'.jobs.trans h.jobs
  returnAs := h'.returnAs.trans h.returnAs
  supports := h'.supports.trans h.supports
  kept i tracker htracker := by
    obtain ⟨tracker', ht, hcallback, hpc⟩ := h.kept i tracker htracker
    obtain ⟨tracker'', hu, hcallback', hpc'⟩ := h'.kept i tracker' ht
    exact ⟨tracker'', hu, hcallback'.trans hcallback, fun hdispatching => hpc (hpc' hdispatching)⟩
  fresh i tracker'' hu hnone := by
    have hlt : i < t.trackers.length := hlength ▸ (List.getElem?_eq_some_iff.mp hu).1
    obtain ⟨tracker', ht⟩ : ∃ tracker', t.trackers[i]? = some tracker' := ⟨_, List.getElem?_eq_getElem hlt⟩
    obtain ⟨hwaiting, p, hp, hcreated⟩ := h.fresh i tracker' ht hnone
    obtain ⟨_, hu', hcallback, hpc⟩ := h'.kept i tracker' ht
    obtain rfl := Option.some.inj (hu.symm.trans hu')
    refine ⟨?_, p, hp, hcallback.trans hcreated⟩
    cases hpc'' : tracker''.pc with
    | waiting => rfl
    | dispatching =>
      rw [hpc hpc''] at hwaiting
      cases hwaiting

/-- A tracker's return. -/
theorem Quiet.settle {i : Nat} {tracker : Tracker α ε} {dispatches : Nat} (htracker : s.trackers[i]? = some tracker) :
    Quiet s {s.settle i tracker with dispatches := dispatches} where
  jobs := rfl
  returnAs := rfl
  supports := rfl
  kept j other hother := by
    by_cases hj : i = j
    · subst hj
      obtain rfl := Option.some.inj (htracker.symm.trans hother)
      refine ⟨{tracker with pc := .waiting}, ?_, rfl, fun h => by cases h⟩
      exact List.getElem?_set_self (List.getElem?_eq_some_iff.mp htracker).1
    · exact ⟨other, (List.getElem?_set_ne hj).trans hother, rfl, fun h => h⟩
  fresh j other hother hnone := by
    have hlt : j < (s.trackers.set i {tracker with pc := .waiting}).length := (List.getElem?_eq_some_iff.mp hother).1
    rw [List.length_set] at hlt
    exact absurd (List.getElem?_eq_none_iff.mp hnone) (Nat.not_le.mpr hlt)

variable (host) in
theorem mainDispatch_quiet (s : System α ε) : Quiet s (s.mainDispatch host) := by
  have hframe := host.dispatcher.frame s.parallel s.parallel.originalIterator
  have hdispatched : Quiet s (s.dispatched
      {(host.dispatcher.dispatchOneBatch s.parallel s.parallel.originalIterator).parallel with
        originalIterator := (host.dispatcher.dispatchOneBatch s.parallel s.parallel.originalIterator).iterator}) :=
    .dispatched (by rw [hframe.eq]) (by rw [hframe.eq]) (by rw [hframe.eq])
  unfold mainDispatch
  dsimp only
  split <;> exact hdispatched.trans (.parallel rfl rfl rfl) rfl

variable (host) in
theorem dispatchedNew_quiet {i : Nat} {tracker : Tracker α ε} (htracker : s.trackers[i]? = some tracker) :
    Quiet s (s.dispatchedNew host i tracker) := by
  have hframe := BatchCompletionCallBack.dispatchNew_frame host.dispatcher s.parallel
  have hdispatched : Quiet s (s.dispatched (BatchCompletionCallBack.dispatchNew host.dispatcher s.parallel)) :=
    .dispatched (by rw [hframe.eq]) (by rw [hframe.eq]) (by rw [hframe.eq])
  refine hdispatched.trans (Quiet.settle (i := i) ?_) ?_
  · exact (List.getElem?_append_left (List.getElem?_eq_some_iff.mp htracker).1).trans htracker
  · exact List.length_set

variable (host) in
theorem mainOpen_quiet (nJobs : Int) (s : System α ε) : Quiet s (s.mainOpen host nJobs) := by
  unfold mainOpen
  split
  · exact .parallel rfl rfl rfl
  · obtain ⟨q, hopens, hq⟩ := Parallel.openOutputs_cases host nJobs s.iterable {s.parallel with calling := true}
    rcases hq with ⟨e, hq⟩ | ⟨iterator, hq⟩ <;>
    · rw [hq]
      exact .parallel (by rw [hopens.eq]) (by rw [hopens.eq]) (by rw [hopens.eq])

theorem mainStep_quiet (h : s.mainStep host = some t) : Quiet s t := by
  cases hmain : s.main with
  | dispatching =>
    simp only [mainStep, hmain, Option.some.injEq] at h
    exact h ▸ mainDispatch_quiet host s
  | initializing =>
    simp only [mainStep, hmain, Option.some.injEq] at h
    obtain ⟨configured, pc, _, hinitialize⟩ := mainInitialize_eq host s
    rw [← h, hinitialize]
    exact .parallel rfl rfl rfl
  | opening nJobs =>
    simp only [mainStep, hmain, Option.some.injEq] at h
    exact h ▸ mainOpen_quiet host nJobs s
  | renewing nJobs =>
    simp only [mainStep, hmain, Option.some.injEq, mainRenew] at h
    subst h
    split <;> exact .parallel rfl rfl rfl
  | idle | retrieving | finished | raised => simp [mainStep, hmain] at h
  | _ =>
    simp only [mainStep, hmain, Option.some.injEq] at h
    subst h
    exact .parallel rfl rfl rfl

theorem step_quiet {a : Action α ε} (hsilent : report a = none) (h : s.step host a = some t) : Quiet s t := by
  cases a with
  | start iterable => exact step_start h ▸ .parallel rfl rfl rfl
  | main => exact mainStep_quiet h
  | retrieve raises =>
    obtain ⟨_, rfl⟩ := step_retrieve h
    exact .parallel rfl rfl rfl
  | enter i success result => cases hsilent
  | dispatchNew i =>
    obtain ⟨tracker, htracker, rfl⟩ := step_dispatchNew h
    exact dispatchedNew_quiet host htracker
  | abort =>
    obtain rfl := Option.some.inj h
    exact .parallel rfl rfl rfl

/-! ### Reports -/

section Reports
variable {first : List Nat} {reports : List (Report α ε)}

theorem Collected.quiet (h : Collected first reports s) (hquiet : Quiet s t) : Collected first reports t where
  supports := hquiet.supports.trans h.supports
  jobs := by rw [hquiet.jobs, hquiet.returnAs, h.jobs]
  recorded r hr := by
    obtain ⟨tracker, htracker, hstatus, hresult⟩ := h.recorded r hr
    obtain ⟨tracker', htracker', hcallback, _⟩ := hquiet.kept r.tracker tracker htracker
    exact ⟨tracker', htracker', hcallback ▸ hstatus, hcallback ▸ hresult⟩
  others i tracker' htracker' hno := by
    cases hbefore : s.trackers[i]? with
    | some tracker =>
      obtain ⟨_, hsame, hcallback, _⟩ := hquiet.kept i tracker hbefore
      obtain rfl := Option.some.inj (htracker'.symm.trans hsame)
      rw [hcallback]
      exact h.others i tracker hbefore hno
    | none =>
      obtain ⟨_, p, hp, hcreated⟩ := hquiet.fresh i tracker' htracker' hbefore
      rw [hcreated]
      simp [BatchCompletionCallBack.create, hp, h.supports]
  dispatching tracker' hmem hpc := by
    obtain ⟨i, htracker'⟩ := List.mem_iff_getElem?.mp hmem
    cases hbefore : s.trackers[i]? with
    | some tracker =>
      obtain ⟨_, hsame, hcallback, hdispatching⟩ := hquiet.kept i tracker hbefore
      obtain rfl := Option.some.inj (htracker'.symm.trans hsame)
      rw [hcallback]
      exact h.dispatching tracker (List.mem_of_getElem? hbefore) (hdispatching hpc)
    | none =>
      obtain ⟨hwaiting, _⟩ := hquiet.fresh i tracker' htracker' hbefore
      rw [hwaiting] at hpc
      cases hpc

/-- A report that is taken is recorded with its tracker, and collected if the call is unordered. -/
theorem Collected.accepted (h : Collected first reports s) {r : Report α ε} {tracker : Tracker α ε}
    (htracker : s.trackers[r.tracker]? = some tracker)
    (haccepted : Accepted tracker.callback.parallelCallId s.parallel) (hnew : ∀ r' ∈ reports, r'.tracker ≠ r.tracker) :
    Collected first (reports ++ [r]) (s.entered r.tracker tracker r.success r.result) := by
  have hlt : r.tracker < s.trackers.length := (List.getElem?_eq_some_iff.mp htracker).1
  unfold entered
  rw [enter_accepted haccepted]
  refine ⟨?_, ?_, fun r' hr' => ?_, fun i other hother hno => ?_, fun other hother hpc => ?_⟩
  · dsimp only
    split <;> exact h.supports
  · cases hordered : s.parallel.returnAs.returnOrdered with
    | true => simpa [hordered] using h.jobs
    | false => simp [hordered, h.jobs]
  · dsimp only
    rcases List.mem_append.mp hr' with hold | hlast
    · rw [List.getElem?_set_ne (hnew r' hold).symm]
      exact h.recorded r' hold
    · obtain rfl := List.mem_singleton.mp hlast
      exact ⟨_, List.getElem?_set_self hlt, rfl, rfl⟩
  · have hi : r.tracker ≠ i := hno r (by simp)
    have hother : (s.trackers.set r.tracker _)[i]? = some other := hother
    rw [List.getElem?_set_ne hi] at hother
    exact h.others i other hother fun r' hr' => hno r' (List.mem_append_left _ hr')
  · rcases List.mem_or_eq_of_mem_set hother with hold | rfl
    · exact h.dispatching other hold hpc
    · dsimp only at hpc ⊢
      split at hpc
      next hsuccess => rw [if_pos hsuccess]
      next => cases hpc

theorem Collected.refused (h : Collected first reports s) {i : Nat} {tracker : Tracker α ε}
    (htracker : s.trackers[i]? = some tracker) (hrefused : ¬ Accepted tracker.callback.parallelCallId s.parallel)
    (success : Bool) (result : Obj α ε) : Collected first reports (s.entered i tracker success result) := by
  have hentered : s.entered i tracker success result = s.settle i tracker := by
    unfold entered settle
    rw [enter_refused hrefused]
    simp [h.supports]
  rw [hentered]
  exact h.quiet (.settle htracker)

/-- Step: only a report that is taken counts. -/
theorem Collected.step {a : Action α ε} (h : Collected first reports s) (ht : s.step host a = some t)
    (hnew : ∀ r, report a = some r → ∀ r' ∈ reports, r'.tracker ≠ r.tracker) :
    Collected first (reports ++ (taken s a).toList) t := by
  cases a with
  | enter i success result =>
    obtain ⟨tracker, htracker, rfl⟩ := step_enter ht
    by_cases haccepted : Accepted tracker.callback.parallelCallId s.parallel
    · have htaken : taken s (.enter i success result) = some ⟨i, success, result⟩ := by
        simp [taken, report, htracker, haccepted]
      rw [htaken]
      exact h.accepted (r := ⟨i, success, result⟩) htracker haccepted (hnew _ rfl)
    · have htaken : taken s (.enter i success result) = none := by
        simp [taken, report, htracker, haccepted]
      rw [htaken]
      simpa using h.refused htracker haccepted success result
  | _ =>
    have hquiet := step_quiet rfl ht
    simpa [taken, report] using h.quiet hquiet

theorem reports_cons (a : Action α ε) (actions : List (Action α ε)) :
    (a :: actions).filterMap report = (report a).toList ++ actions.filterMap report := by
  cases h : report a <;> simp [h]

theorem taken_sublist (s : System α ε) (a : Action α ε) : (taken s a).toList.Sublist (report a).toList := by
  unfold taken
  cases report a with
  | none => exact List.Sublist.refl _
  | some r =>
    rw [Option.filter_some]
    split
    · exact List.Sublist.refl _
    · exact List.nil_sublist _

theorem Collected.run {actions : List (Action α ε)} (h : Collected first reports s)
    (hnew : (reports.map Report.tracker ++ (actions.filterMap report).map Report.tracker).Nodup)
    (ht : Runs.run (System.step host) s actions = some t) :
    Collected first (reports ++ takenAlong host s actions) t := by
  induction actions generalizing s reports with
  | nil =>
    obtain rfl : s = t := Option.some.inj ht
    simpa [takenAlong] using h
  | cons a actions ih =>
    obtain ⟨s', hs', hrest⟩ := Runs.run_cons ht
    rw [reports_cons, List.map_append] at hnew
    have hstep := h.step hs' fun r hr r' hr' heq => by
      refine (List.nodup_append.mp hnew).2.2 _ (List.mem_map_of_mem hr') _ ?_ heq
      exact List.mem_append_left _ (List.mem_map_of_mem (by simp [hr]))
    have htaken : (taken s a).toList.Sublist (report a).toList := taken_sublist s a
    have hnext := ih hstep (hnew.sublist (by
      rw [List.map_append, List.append_assoc]
      exact ((htaken.map _).append (List.Sublist.refl _)).append_left _)) hrest
    simpa [takenAlong, hs', List.append_assoc] using hnext

end Reports

theorem created_collected {p : Parallel α ε} (hsupports : p.backend.supportsRetrieveCallback = true) :
    Collected p.jobs [] (created p) where
  supports := hsupports
  jobs := by simp [created]
  recorded _ hr := by cases hr
  others _ _ htracker := by cases htracker
  dispatching _ hmem := by cases hmem

/-- Reports are taken in the order they come. -/
theorem takenAlong_sublist (s : System α ε) (actions : List (Action α ε)) :
    (takenAlong host s actions).Sublist (actions.filterMap report) := by
  induction actions generalizing s with
  | nil => exact List.Sublist.refl _
  | cons a actions ih =>
    rw [reports_cons]
    refine (taken_sublist s a).append ?_
    cases s.step host a with
    | none => exact List.nil_sublist _
    | some t => exact ih t

variable (host) in
/-- **An outcome reported is recorded once, with the batch it was reported for, and collected in the order it
came.** Whatever calls are made and whoever else acts, if each tracker is invoked at most once: `_jobs` gets
the batches whose reports were taken, and no others, in the order of the invocations; each of them holds what
was reported, every other batch is pending; and what goes on to dispatch has succeeded. -/
theorem collected_in_turn {p : Parallel α ε} (hsupports : p.backend.supportsRetrieveCallback = true)
    {actions : List (Action α ε)} (honce : ((actions.filterMap report).map Report.tracker).Nodup)
    (h : Runs.run (step host) (created p) actions = some t) :
    (takenAlong host (created p) actions).Sublist (actions.filterMap report) ∧
      Collected p.jobs (takenAlong host (created p) actions) t :=
  ⟨takenAlong_sublist (created p) actions, (created_collected hsupports).run honce h⟩

/-- Of three batches the last is done before the second, which fails. -/
def overtaking : List (Action Nat Empty) :=
  .start (.ofList (oneTask ++ oneTask ++ oneTask)) :: List.replicate 17 .main ++
    [.enter 0 true (.value 1), .retrieve false] ++ List.replicate 8 .main ++
    [.dispatchNew 0, .enter 2 true (.value 1), .enter 1 false (.exception (.valueError "no"))]

theorem collected_in_turn_overtaking : ∃ t,
    Runs.run (step (.plain Nat Empty))
      (created (.created 2 (.count 2) .generatorUnordered (.idle "LokyBackend" true) true)) overtaking = some t ∧
      t.parallel.jobs = [0, 2, 1] ∧
        Collected [] [⟨0, true, .value 1⟩, ⟨2, true, .value 1⟩, ⟨1, false, .exception (.valueError "no")⟩] t := by
  obtain ⟨t, hrun, hjobs⟩ : ∃ t,
      Runs.run (step (.plain Nat Empty))
        (created (.created 2 (.count 2) .generatorUnordered (.idle "LokyBackend" true) true)) overtaking = some t ∧
        t.parallel.jobs = [0, 2, 1] := ⟨_, rfl, rfl⟩
  exact ⟨t, hrun, hjobs, (collected_in_turn (.plain Nat Empty) rfl (by decide) hrun).2⟩

end Joblib.System
