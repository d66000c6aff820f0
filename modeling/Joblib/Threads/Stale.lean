import Joblib.Threads.System

/-! What a late tracker of an earlier call can reach.

Once a later call has reset the counters and flags, a tracker of an earlier one is
stale. Two things may stop it: the call id test, which only a renewed id answers and
which the polling mode does not make, and the abort flag, which the reset has cleared.
`Consistent` ties ids to calls; along every run it turns what a stale tracker's step
does into where the later call stands (`stale_harmless_iff`). -/
namespace Joblib.System

variable {α ε : Type} {host : Host α ε}

/-! ### Steps -/

theorem mainDispatch_keeps {s : System α ε} (hloop : s.main.inLoop = true) : Keeps s (s.mainDispatch host) := by
  have hframe := host.dispatcher.frame s.parallel s.parallel.originalIterator
  have hnone := host.dispatcher.keepsNone s.parallel s.parallel.originalIterator
  have hdispatched : ∀ pc : Pc, pc.beforeId = false →
      Keeps s ((s.dispatched {(host.dispatcher.dispatchOneBatch s.parallel s.parallel.originalIterator).parallel with
        originalIterator :=
          (host.dispatcher.dispatchOneBatch s.parallel s.parallel.originalIterator).iterator}).goto pc) := by
    intro pc hpc
    exact
      { callId := by rw [hframe.eq]; rfl
        fresh := by rw [hframe.eq]; rfl
        preDispatch := by rw [hframe.eq]; rfl
        iterator := hnone
        callNo := rfl
        idCall := rfl
        trackers := fun t ht => by
          rcases List.mem_append.mp ht with hold | hnew
          · exact .inl ⟨t, hold, rfl, rfl⟩
          · obtain ⟨hid, hcall, _⟩ := newTrackers_mem hnew
            exact .inr ⟨by rw [hid, hframe.eq], hcall, .inr hloop⟩
        inLoop := fun _ => hloop
        beforeId := fun h => by
          rw [show (goto _ pc).main.beforeId = pc.beforeId from rfl, hpc] at h
          cases h }
  unfold mainDispatch
  dsimp only
  split <;> exact hdispatched _ rfl

theorem mainInitialize_keeps {s : System α ε} (hmain : s.main = .initializing) :
    Keeps s (s.mainInitialize host) := by
  obtain ⟨configured, hframe⟩ := Parallel.workers_frame host s.parallel
  unfold mainInitialize
  cases h : s.parallel.workers host with
  | mk r q =>
    rw [h] at hframe
    obtain rfl : q = _ := hframe
    cases r with
    | error e => exact .main ⟨rfl, rfl⟩ rfl Iff.rfl (by simp [Pc.inLoop]) (by simp [Pc.beforeId, Pc.resetting])
    | ok n =>
      refine .main ⟨rfl, rfl⟩ rfl Iff.rfl ?_ (fun _ => by rw [hmain]; rfl)
      split <;> simp [Pc.inLoop]

/-- The main thread, except where it draws the call id or sets the iterator. -/
theorem mainStep_keeps {s s' : System α ε} (h : s.mainStep host = some s')
    (hrenew : ∀ n, s.main ≠ .renewing n) (hopen : ∀ n, s.main ≠ .opening n) : Keeps s s' := by
  by_cases hloop : s.main.inLoop = true
  · cases mainStep_loop (.inl hloop) h with
    | @goes pc hgoes =>
      have hafter : pc.beforeId = false := by
        generalize s.main = before at hgoes
        cases hgoes <;> rfl
      exact .goto (fun _ => hloop) (by simp [hafter])
    | counts | clears =>
      exact .main ⟨rfl, rfl⟩ rfl Iff.rfl (fun _ => hloop) (by simp [Pc.beforeId, Pc.resetting])
    | dispatches => exact mainDispatch_keeps hloop
  · cases hmain : s.main with
    | renewing n => exact absurd hmain (hrenew n)
    | opening n => exact absurd hmain (hopen n)
    | initializing =>
      simp only [mainStep, hmain, Option.some.injEq] at h
      exact h ▸ mainInitialize_keeps hmain
    | idle | finished | raised => simp [mainStep, hmain] at h
    | sequential =>
      simp only [mainStep, hmain, Option.some.injEq] at h
      rw [← h, ← hmain]
      exact .main ⟨rfl, rfl⟩ rfl Iff.rfl (fun h => h) (fun h => h)
    | resetCompleted | resetDispatched | resetBatches | resetAborting | resetIterating =>
      simp only [mainStep, hmain, Option.some.injEq] at h
      subst h
      exact .main ⟨rfl, rfl⟩ rfl Iff.rfl (by simp [Pc.inLoop]) (fun _ => by rw [hmain]; rfl)
    | _ => exact absurd (by rw [hmain]; rfl) hloop

theorem entered_keeps {s : System α ε} {i : Nat} {t : Tracker α ε} (ht : s.trackers[i]? = some t)
    (success : Bool) (result : Obj α ε) : Keeps s (s.entered i t success result) := by
  obtain ⟨jobs, hparallel⟩ := t.callback.enter_parallel s.parallel i success result
  unfold entered
  dsimp only
  rw [hparallel]
  refine ⟨rfl, rfl, rfl, Iff.rfl, rfl, rfl, fun t' ht' => ?_, fun h => h, fun h => h⟩
  left
  rcases List.mem_or_eq_of_mem_set ht' with hold | rfl
  · exact ⟨t', hold, rfl, rfl⟩
  · exact ⟨t, List.mem_of_getElem? ht, t.callback.enter_parallelCallId s.parallel i success result, rfl⟩

theorem dispatchedNew_keeps {s : System α ε} {i : Nat} {t : Tracker α ε} (ht : s.trackers[i]? = some t) :
    Keeps s (s.dispatchedNew host i t) := by
  have hframe := BatchCompletionCallBack.dispatchNew_frame host.dispatcher s.parallel
  have hmem : t ∈ s.trackers := List.mem_of_getElem? ht
  exact
    { callId := by
        show (BatchCompletionCallBack.dispatchNew host.dispatcher s.parallel).callId = _
        rw [hframe.eq]
      fresh := by
        show (BatchCompletionCallBack.dispatchNew host.dispatcher s.parallel).fresh = _
        rw [hframe.eq]
      preDispatch := by
        show (BatchCompletionCallBack.dispatchNew host.dispatcher s.parallel).preDispatch = _
        rw [hframe.eq]
      iterator := hframe.keepsNone
      callNo := rfl
      idCall := rfl
      trackers := fun t' ht' => by
        rcases List.mem_or_eq_of_mem_set ht' with hold | rfl
        · rcases List.mem_append.mp hold with hold | hnew
          · exact .inl ⟨t', hold, rfl, rfl⟩
          · obtain ⟨hid, hcall, _⟩ := newTrackers_mem hnew
            exact .inr ⟨by rw [hid, hframe.eq], hcall, .inl (List.ne_nil_of_mem hmem)⟩
        · exact .inl ⟨t, hmem, rfl, rfl⟩
      inLoop := fun h => h
      beforeId := fun h => h }

/-! ### Ids and calls -/

/-- Call ids tell calls apart, and the iterator is set as `pre_dispatch` says. -/
structure Consistent (s : System α ε) : Prop where
  drawn : ∀ id, s.parallel.callId = some id → id < s.parallel.fresh
  trackerDrawn : ∀ t ∈ s.trackers, ∀ id, t.callback.parallelCallId = some id → id < s.parallel.fresh
  ids : ∀ t ∈ s.trackers, t.callback.parallelCallId = s.parallel.callId ↔ t.call = s.idCall
  calls : ∀ t ∈ s.trackers, t.call ≤ s.idCall
  idCall : s.idCall ≤ s.callNo
  beforeId : s.main.beforeId = true → s.idCall < s.callNo
  window : (s.parallel.originalIterator = none ↔ s.parallel.preDispatch = .text "all") ∨
    (s.trackers = [] ∧ s.main.inLoop = false)

theorem created_consistent (parallel : Parallel α ε) (h : parallel.callId = none) :
    Consistent (created parallel) where
  drawn id hid := by
    rw [show (created parallel).parallel.callId = none from h] at hid
    cases hid
  trackerDrawn t ht := absurd ht List.not_mem_nil
  ids t ht := absurd ht List.not_mem_nil
  calls t ht := absurd ht List.not_mem_nil
  idCall := Nat.le_refl _
  beforeId h := by cases h
  window := .inr ⟨rfl, rfl⟩

theorem Consistent.keeps {s s' : System α ε} (h : Consistent s) (hk : Keeps s s') : Consistent s' where
  drawn id hid := by
    rw [hk.fresh]
    exact h.drawn id (hk.callId ▸ hid)
  trackerDrawn t' ht' id hid := by
    rw [hk.fresh]
    rcases hk.trackers t' ht' with ⟨t, ht, heq, _⟩ | ⟨heq, _⟩
    · exact h.trackerDrawn t ht id (heq ▸ hid)
    · exact h.drawn id (heq ▸ hid)
  ids t' ht' := by
    rw [hk.callId, hk.idCall]
    rcases hk.trackers t' ht' with ⟨t, ht, heq, hcall⟩ | ⟨heq, hcall, _⟩
    · rw [heq, hcall]
      exact h.ids t ht
    · rw [heq, hcall]
      exact ⟨fun _ => rfl, fun _ => rfl⟩
  calls t' ht' := by
    rw [hk.idCall]
    rcases hk.trackers t' ht' with ⟨t, ht, _, hcall⟩ | ⟨_, hcall, _⟩
    · rw [hcall]
      exact h.calls t ht
    · exact Nat.le_of_eq hcall
  idCall := by
    rw [hk.idCall, hk.callNo]
    exact h.idCall
  beforeId hbefore := by
    rw [hk.idCall, hk.callNo]
    exact h.beforeId (hk.beforeId hbefore)
  window := by
    rcases h.window with hwindow | ⟨htrackers, hloop⟩
    · left
      rw [hk.iterator, hk.preDispatch]
      exact hwindow
    · right
      constructor
      · apply List.eq_nil_iff_forall_not_mem.mpr
        intro t' ht'
        rcases hk.trackers t' ht' with ⟨t, ht, _⟩ | ⟨_, _, hne | hin⟩
        · rw [htrackers] at ht
          cases ht
        · exact hne htrackers
        · rw [hloop] at hin
          cases hin
      · by_contra hin
        rw [hk.inLoop (by simpa using hin)] at hloop
        cases hloop

/-- A new id is no earlier tracker's. -/
theorem Consistent.renew {s : System α ε} (h : Consistent s) {nJobs : Int} (hmain : s.main = .renewing nJobs) :
    Consistent (s.mainRenew nJobs) := by
  have hbefore : s.idCall < s.callNo := h.beforeId (by rw [hmain]; rfl)
  unfold mainRenew
  split
  · exact h.keeps (.goto (by simp [Pc.inLoop]) (by simp [Pc.beforeId, Pc.resetting]))
  · exact
      { drawn := fun id hid => by
          cases hid
          exact Nat.lt_succ_self _
        trackerDrawn := fun t ht id hid => Nat.lt_succ_of_lt (h.trackerDrawn t ht id hid)
        ids := fun t ht => by
          have hcall := h.calls t ht
          constructor
          · intro hid
            exact absurd (h.trackerDrawn t ht _ hid) (Nat.lt_irrefl _)
          · intro heq
            have heq : t.call = s.callNo := heq
            omega
        calls := fun t ht => Nat.le_trans (h.calls t ht) (Nat.le_of_lt hbefore)
        idCall := Nat.le_refl _
        beforeId := fun h => by cases h
        window := by
          rcases h.window with hwindow | ⟨htrackers, _⟩
          · exact .inl hwindow
          · exact .inr ⟨htrackers, rfl⟩ }

theorem Consistent.open {s : System α ε} (h : Consistent s) (nJobs : Int) :
    Consistent (s.mainOpen host nJobs) := by
  -- whatever the iterator is set to, nothing else of what ids and calls go by changes
  have hto : ∀ (q : Parallel α ε) (pc : Pc), Parallel.OnlyOpens {s.parallel with calling := true} q →
      pc.beforeId = false → (q.originalIterator = none ↔ s.parallel.preDispatch = .text "all") →
      Consistent {s with parallel := q, main := pc} := by
    intro q pc hopens hpc hwindow
    have hid : q.callId = s.parallel.callId := by rw [hopens.eq]
    have hpre : q.preDispatch = s.parallel.preDispatch := by rw [hopens.eq]
    exact
      { drawn := fun id hq => Nat.lt_of_lt_of_le (h.drawn id (hid ▸ hq)) hopens.fresh
        trackerDrawn := fun t ht id hq => Nat.lt_of_lt_of_le (h.trackerDrawn t ht id hq) hopens.fresh
        ids := fun t ht => by
          show t.callback.parallelCallId = q.callId ↔ _
          rw [hid]
          exact h.ids t ht
        calls := h.calls
        idCall := h.idCall
        beforeId := fun hb => by
          change pc.beforeId = true at hb
          rw [hpc] at hb
          cases hb
        window := .inl (by
          show q.originalIterator = none ↔ q.preDispatch = _
          rw [hpre]
          exact hwindow) }
  unfold mainOpen
  split
  · exact h.keeps (.goto (by simp [Pc.inLoop]) (by simp [Pc.beforeId, Pc.resetting]))
  · cases hit : s.iterable with
    | error e =>
      have hraised : Keeps s {s with parallel := {s.parallel with calling := true}, main := .raised} :=
        .main ⟨rfl, rfl⟩ rfl Iff.rfl (by simp [Pc.inLoop]) (by simp [Pc.beforeId, Pc.resetting])
      have hconsistent := h.keeps hraised
      rw [hit] at hconsistent
      exact hconsistent
    | ok it =>
      rw [hit] at hto
      have hwindow := Parallel.openOutputs_none_iff host nJobs it {s.parallel with calling := true}
      obtain ⟨q, hopens, ⟨e, hq⟩ | ⟨iterator, hq⟩⟩ :=
        Parallel.openOutputs_cases host nJobs (.ok it) {s.parallel with calling := true}
      · rw [hq] at hwindow ⊢
        exact hto q .raised hopens rfl hwindow
      · rw [hq] at hwindow ⊢
        exact hto q .loopIterating hopens rfl hwindow

/-- **Every step keeps ids and calls together.** -/
theorem step_consistent {s s' : System α ε} {a : Action α ε} (h : Consistent s)
    (hs : s.step host a = some s') : Consistent s' := by
  cases a with
  | start iterable =>
    obtain rfl := step_start hs
    exact
      { h with
        idCall := Nat.le_succ_of_le h.idCall
        beforeId := fun _ => Nat.lt_succ_of_le h.idCall
        window := h.window.imp id fun hw => ⟨hw.1, rfl⟩ }
  | main =>
    by_cases hrenew : ∃ n, s.main = .renewing n
    · obtain ⟨n, hmain⟩ := hrenew
      simp only [step, mainStep, hmain, Option.some.injEq] at hs
      exact hs ▸ h.renew hmain
    · by_cases hopen : ∃ n, s.main = .opening n
      · obtain ⟨n, hmain⟩ := hopen
        simp only [step, mainStep, hmain, Option.some.injEq] at hs
        exact hs ▸ h.open n
      · exact h.keeps (mainStep_keeps hs (not_exists.mp hrenew) (not_exists.mp hopen))
  | retrieve raises =>
    obtain ⟨hmain, rfl⟩ := step_retrieve hs
    refine h.keeps (.main ⟨rfl, rfl⟩ rfl Iff.rfl (fun _ => by rw [hmain]; rfl) ?_)
    cases raises <;> simp [Pc.beforeId, Pc.resetting]
  | enter i success result =>
    obtain ⟨t, ht, rfl⟩ := step_enter hs
    exact h.keeps (entered_keeps ht success result)
  | dispatchNew i =>
    obtain ⟨t, ht, rfl⟩ := step_dispatchNew hs
    exact h.keeps (dispatchedNew_keeps ht)
  | abort =>
    cases hs
    exact h.keeps (.main ⟨rfl, rfl⟩ rfl Iff.rfl id id)

/-! ### Stale trackers -/

/-- A later call has begun and has reset the counters and flags. -/
def Stale (s : System α ε) (t : Tracker α ε) : Prop := t.call < s.callNo ∧ s.main.resetting = false

/-- Nothing is collected, dispatched or consumed, and no counter or flag is changed. -/
structure LeavesAlone (s s' : System α ε) : Prop where
  jobs : s'.parallel.jobs = s.parallel.jobs
  dispatches : s'.dispatches = s.dispatches
  originalIterator : s'.parallel.originalIterator = s.parallel.originalIterator
  iterating : s'.parallel.iterating = s.parallel.iterating
  nCompletedTasks : s'.parallel.nCompletedTasks = s.parallel.nCompletedTasks
  nDispatchedTasks : s'.parallel.nDispatchedTasks = s.parallel.nDispatchedTasks
  nDispatchedBatches : s'.parallel.nDispatchedBatches = s.parallel.nDispatchedBatches

/-- A stale tracker's step leaves the later call alone. -/
def StaleHarmless (s : System α ε) (a : Action α ε) (s' : System α ε) : Prop :=
  ∀ i t, a.tracker = some i → s.trackers[i]? = some t → s.Stale t → LeavesAlone s s'

/-- What keeps a stale tracker out. Of its first block: that the backend does not retrieve
through the callback, that the id it carries is no longer the current one, that the call
is aborting, or that results are collected elsewhere. Of its second: that the call is
aborting or has no iterator to dispatch from. -/
def Stopped (s : System α ε) (t : Tracker α ε) : Action α ε → Prop
  | .enter .. => s.parallel.backend.supportsRetrieveCallback = false ∨ t.call ≠ s.idCall ∨
      s.parallel.aborting = true ∨ s.parallel.returnAs.returnOrdered = true
  | .dispatchNew _ => s.parallel.aborting = true ∨ s.parallel.preDispatch = .text "all"
  | _ => True

def StaleStopped (s : System α ε) (a : Action α ε) (_ : System α ε) : Prop :=
  ∀ i t, a.tracker = some i → s.trackers[i]? = some t → s.Stale t → s.Stopped t a

theorem entered_leavesAlone_iff {s : System α ε} (h : Consistent s) {i : Nat} {t : Tracker α ε}
    (ht : s.trackers[i]? = some t) (success : Bool) (result : Obj α ε) :
    LeavesAlone s (s.entered i t success result) ↔ s.Stopped t (.enter i success result) := by
  have hid := h.ids t (List.mem_of_getElem? ht)
  by_cases ha : BatchCompletionCallBack.Accepted t.callback.parallelCallId s.parallel
  · have henter : t.callback.enter i (success, result) s.parallel = _ :=
      BatchCompletionCallBack.enter_accepted ha success result
    obtain ⟨hsupports, hcallId, haborting⟩ := ha
    have hcall : t.call = s.idCall := hid.mp hcallId.symm
    cases hordered : s.parallel.returnAs.returnOrdered with
    | true =>
      rw [hordered] at henter
      have hparallel : (s.entered i t success result).parallel = s.parallel := by
        show (t.callback.enter i (success, result) s.parallel).parallel = s.parallel
        rw [henter]
        rfl
      exact ⟨fun _ => .inr (.inr (.inr hordered)), fun _ => by
        constructor <;> first | rw [hparallel] | rfl⟩
    | false =>
      rw [hordered] at henter
      have hjobs : (s.entered i t success result).parallel.jobs = s.parallel.jobs ++ [i] := by
        show (t.callback.enter i (success, result) s.parallel).parallel.jobs = _
        rw [henter]
        rfl
      constructor
      · intro hleaves
        have := hjobs.symm.trans hleaves.jobs
        simp at this
      · rintro (hpolling | hne | habort | hord)
        · rw [hsupports] at hpolling
          cases hpolling
        · exact absurd hcall hne
        · rw [haborting] at habort
          cases habort
        · rw [hordered] at hord
          cases hord
  · have hparallel : (s.entered i t success result).parallel = s.parallel := by
      show (t.callback.enter i (success, result) s.parallel).parallel = s.parallel
      rw [BatchCompletionCallBack.enter_refused ha]
    refine ⟨fun _ => ?_, fun _ => by constructor <;> first | rw [hparallel] | rfl⟩
    by_contra hopen
    simp only [Stopped, not_or] at hopen
    obtain ⟨hsupports, hcall, haborting, _⟩ := hopen
    exact ha ⟨by simpa using hsupports, (hid.mpr (not_not.mp hcall)).symm, by simpa using haborting⟩

theorem dispatchedNew_leavesAlone_iff {s : System α ε} (h : Consistent s) {i : Nat} {t : Tracker α ε}
    (ht : s.trackers[i]? = some t) :
    LeavesAlone s (s.dispatchedNew host i t) ↔ s.Stopped t (.dispatchNew i) := by
  have hwindow : s.parallel.originalIterator = none ↔ s.parallel.preDispatch = .text "all" := by
    rcases h.window with hwindow | ⟨hnil, _⟩
    · exact hwindow
    · rw [hnil] at ht
      cases ht
  have hreaches : BatchCompletionCallBack.reachesDispatch s.parallel = false ↔
      s.Stopped t (.dispatchNew i : Action α ε) := by
    show _ ↔ s.parallel.aborting = true ∨ s.parallel.preDispatch = .text "all"
    rw [← hwindow]
    unfold BatchCompletionCallBack.reachesDispatch
    cases s.parallel.aborting <;> simp
  rw [← hreaches]
  constructor
  · intro hleaves
    by_contra hreach
    have hdispatches := hleaves.dispatches
    simp [dispatchedNew, hreach] at hdispatches
  · intro hreach
    have hparallel : (s.dispatchedNew host i t).parallel = s.parallel := by
      show BatchCompletionCallBack.dispatchNew host.dispatcher s.parallel = s.parallel
      rw [BatchCompletionCallBack.dispatchNew_eq, hreach]
      rfl
    have hdispatches : (s.dispatchedNew host i t).dispatches = s.dispatches := by
      simp [dispatchedNew, hreach]
    constructor <;> first | exact hdispatches | rw [hparallel]

/-- Of a tracker's step, what is said of the tracker whose step it is. -/
theorem forall_tracker {s : System α ε} {a : Action α ε} {i : Nat} {t : Tracker α ε} (ha : a.tracker = some i)
    (ht : s.trackers[i]? = some t) (P : Tracker α ε → Prop) :
    (∀ j t', a.tracker = some j → s.trackers[j]? = some t' → P t') ↔ P t := by
  constructor
  · intro h
    exact h i t ha ht
  · intro h j t' hj ht'
    obtain rfl : i = j := Option.some.inj (ha.symm.trans hj)
    obtain rfl : t = t' := Option.some.inj (ht.symm.trans ht')
    exact h

theorem step_stale_iff {s s' : System α ε} {a : Action α ε} (h : Consistent s)
    (hs : s.step host a = some s') : StaleHarmless s a s' ↔ StaleStopped s a s' := by
  unfold StaleHarmless StaleStopped
  cases a with
  | enter i success result =>
    obtain ⟨t, ht, rfl⟩ := step_enter hs
    rw [forall_tracker rfl ht, forall_tracker rfl ht]
    exact imp_congr_right fun _ => entered_leavesAlone_iff h ht success result
  | dispatchNew i =>
    obtain ⟨t, ht, rfl⟩ := step_dispatchNew hs
    rw [forall_tracker rfl ht, forall_tracker rfl ht]
    exact imp_congr_right fun _ => dispatchedNew_leavesAlone_iff h ht
  | start | main | retrieve | abort =>
    constructor <;>
    · intro _ j t' hj
      cases hj

/-- **Along any run of a new instance, stale trackers are harmless exactly when each of
their steps finds itself stopped.** -/
theorem stale_harmless_iff (host : Host α ε) (nJobs : Int) (preDispatch : PreDispatch) (returnAs : ReturnAs)
    (backend : Backend α ε) (hasLock : Bool) (actions : List (Action α ε)) :
    Runs.Every (step host) StaleHarmless
        (created (.created nJobs preDispatch returnAs backend hasLock)) actions ↔
      Runs.Every (step host) StaleStopped
        (created (.created nJobs preDispatch returnAs backend hasLock)) actions :=
  Runs.every_congr (fun _ _ _ h hs => step_consistent h hs) (fun _ _ _ h hs => step_stale_iff h hs)
    (created_consistent _ rfl) actions

/-! A second call has reset the counters; the tracker of the first call's only batch is
invoked before the id is renewed, and dispatches. -/

def twoTasks : Iterable (Item Nat Empty) Empty :=
  .ofList [delayed (fun _ _ => .ok 1) [] [], delayed (fun _ _ => .ok 2) [] []]

/-- The first call yields the result of its first task, and the second has reset. -/
def reissued : List (Action Nat Empty) :=
  .start twoTasks :: (List.replicate 17 .main ++ .retrieve false :: .start (.ofList []) ::
    List.replicate 5 .main ++ [.enter 0 true (.value 1)])

theorem stale_dispatch :
    ¬ Runs.Every (step (.plain Nat Empty)) StaleHarmless
      (created (.created 2 (.count 1) .list (.idle "LokyBackend" true) true))
      (reissued ++ [.dispatchNew 0]) := by
  intro hall
  have hharmless := hall.last rfl rfl
  have hdispatches := (hharmless 0 _ rfl rfl ⟨by decide, rfl⟩).dispatches
  exact absurd hdispatches (by decide)

end Joblib.System
