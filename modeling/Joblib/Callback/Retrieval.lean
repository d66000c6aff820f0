import Joblib.Callback.Outcome

/-! What the consumer reads from a tracker.

A batch's outcome is the first report of it. `get_result` and `get_status` read two
other things: with `supports_retrieve_callback` what is recorded (`after_recorded`),
else the job (`after_job`). `Faithful` is what they owe the outcome; the last theorem
says from which events they give it. -/
namespace Joblib

namespace Event
variable {α ε : Type}

/-- The outcome a job that was set to `r` stands for. -/
def ofResult : Except (Exc ε) α → Outcome α ε
  | .ok v => ⟨true, .value v⟩
  | .error e => ⟨false, .exception e⟩

/-- The job the events leave. -/
def jobAfter : Option (Job α ε) → List (Event α ε) → Option (Job α ε)
  | job, [] => job
  | _, .registerJob job :: rest => jobAfter (some job) rest
  | job, .finished r :: rest => jobAfter (job.map fun job => job.finish r) rest
  | job, _ :: rest => jobAfter job rest

/-- The reports in the polling mode: also what a job has been set to when it is
registered, or is set to later. -/
def polled : Option (Job α ε) → List (Event α ε) → List (Outcome α ε)
  | _, [] => []
  | _, .registerJob job :: rest => (job.outcome.map ofResult).toList ++ polled (some job) rest
  | some ⟨none⟩, .finished r :: rest => ofResult r :: polled (some ⟨some r⟩) rest
  | job, .finished _ :: rest => polled job rest
  | job, .completion _ success result :: rest => ⟨success, result⟩ :: polled job rest
  | job, .registration outcome :: rest => registered outcome :: polled job rest

end Event

namespace BatchCompletionCallBack
variable {α ε : Type}

/-- How the batch ended, if anything said so. -/
def batchOutcome (parallel : Parallel α ε) (events : List (Event α ε)) : Option (Outcome α ε) :=
  if parallel.backend.supportsRetrieveCallback then (reports events).head?
  else (Event.polled none events).head?

/-- What reading the tracker owes the outcome: a value only if it is the outcome's, an
exception if that is the outcome, a timeout if there is none, and done only if it is a
success. -/
structure Faithful (parallel : Parallel α ε) (timeout : Option Nat) (outcome : Option (Outcome α ε))
    (cb : BatchCompletionCallBack α ε) : Prop where
  value : ∀ v, cb.getResult parallel timeout = some (.ok v) → outcome = some ⟨true, v⟩
  failure : ∀ o, outcome = some o → o.success = false →
    ∃ e, o.result = .exception e ∧ cb.getResult parallel timeout = some (.error e)
  missing : outcome = none → ∃ message, cb.getResult parallel timeout = some (.error (.timeoutError message))
  status : cb.getStatus parallel timeout = some (.ok (some .done)) →
    ∃ o, outcome = some o ∧ o.success = true

/-! ### The polling mode -/

theorem step_job (cb : BatchCompletionCallBack α ε) (e : Event α ε) :
    (cb.step e).job = Event.jobAfter cb.job [e] := by
  cases e with
  | registerJob job => rfl
  | finished r => rfl
  | completion parallel success result =>
    show (cb.enter 0 (success, result) parallel).tracker.job = cb.job
    by_cases h : Accepted cb.parallelCallId parallel
    · rw [enter_accepted h]
    · rw [enter_refused h]
  | registration outcome =>
    show (cb.registerOutcome outcome).job = cb.job
    unfold registerOutcome
    split <;> rfl

theorem after_job (cb : BatchCompletionCallBack α ε) (events : List (Event α ε)) :
    (cb.after events).job = Event.jobAfter cb.job events := by
  induction events generalizing cb with
  | nil => rfl
  | cons e rest ih =>
    show ((cb.step e).after rest).job = _
    rw [ih, step_job]
    cases e <;> rfl

/-- A job that has finished was reported to have. -/
theorem polled_ne_nil {job : Option (Job α ε)} {events : List (Event α ε)} {r : Except (Exc ε) α}
    (hjob : job = none ∨ job = some ⟨none⟩) (h : Event.jobAfter job events = some ⟨some r⟩) :
    Event.polled job events ≠ [] := by
  induction events generalizing job with
  | nil => rcases hjob with rfl | rfl <;> cases h
  | cons e rest ih =>
    cases e with
    | registerJob job' =>
      obtain ⟨outcome⟩ := job'
      cases outcome with
      | none => simpa [Event.polled] using ih (.inr rfl) h
      | some r' => simp [Event.polled]
    | finished r' =>
      rcases hjob with rfl | rfl
      · exact ih (.inl rfl) h
      · simp [Event.polled]
    | completion parallel success result => simp [Event.polled]
    | registration outcome => simp [Event.polled]

section Polling
variable {parallel : Parallel α ε} {cb : BatchCompletionCallBack α ε}

variable (cb) in
/-- Without a job nothing is read; a job that has finished is read; one that has not
times out as a result and is done as a status; without a timeout both wait. -/
theorem polling_cases (hp : parallel.backend.supportsRetrieveCallback = false) (timeout : Option Nat) :
    (cb.job = none ∧ cb.getResult parallel timeout = some (.error noJob) ∧
        cb.getStatus parallel timeout ≠ some (.ok (some .done))) ∨
      (∃ r, cb.job = some ⟨some r⟩ ∧ cb.getResult parallel timeout = some (r.map .value) ∧
        cb.getStatus parallel timeout = some (.ok (some .done))) ∨
      (cb.job = some ⟨none⟩ ∧ cb.getResult parallel timeout = some (.error (.timeoutError "")) ∧
        cb.getStatus parallel timeout = some (.ok (some .done))) ∨
      (cb.job = some ⟨none⟩ ∧ cb.getResult parallel timeout = none ∧ cb.getStatus parallel timeout = none) := by
  have hneg : ¬ parallel.backend.supportsRetrieveCallback = true := by simp [hp]
  unfold getResult getStatus
  rw [if_neg hneg, if_neg hneg]
  cases hjob : cb.job with
  | none => exact .inl ⟨rfl, rfl, by simp⟩
  | some job =>
    obtain ⟨outcome⟩ := job
    right
    cases outcome with
    | some r => exact .inl ⟨r, rfl, rfl, rfl⟩
    | none =>
      right
      cases timeout with
      | some t => exact .inl ⟨rfl, rfl, rfl⟩
      | none => exact .inr ⟨rfl, rfl, rfl⟩

theorem polling_success (hp : parallel.backend.supportsRetrieveCallback = false) (timeout : Option Nat)
    (v : Obj α ε) :
    Faithful parallel timeout (some ⟨true, v⟩) cb ↔ ∀ w, cb.job = some ⟨some (.ok w)⟩ → v = .value w := by
  constructor
  · intro h w hjob
    have hread : cb.getResult parallel timeout = some (.ok (.value w)) := by
      rcases polling_cases cb hp timeout with ⟨hnone, _⟩ | ⟨r, hr, hresult, _⟩ | ⟨hnone, _⟩ | ⟨hnone, _⟩
      · rw [hnone] at hjob
        cases hjob
      · rw [hr] at hjob
        cases hjob
        exact hresult
      · rw [hnone] at hjob
        cases hjob
      · rw [hnone] at hjob
        cases hjob
    cases h.value _ hread
    rfl
  · intro h
    refine ⟨fun v' hv' => ?_, fun o ho hs => ?_, fun hnone => (by cases hnone), fun _ => ⟨_, rfl, rfl⟩⟩
    · rcases polling_cases cb hp timeout with ⟨_, hresult, _⟩ | ⟨r, hr, hresult, _⟩ | ⟨_, hresult, _⟩ |
        ⟨_, hresult, _⟩ <;> rw [hresult] at hv'
      · cases hv'
      · cases r with
        | error e => cases hv'
        | ok w =>
          cases hv'
          rw [h w hr]
      · cases hv'
      · cases hv'
    · cases ho
      cases hs

theorem polling_failure (hp : parallel.backend.supportsRetrieveCallback = false) (timeout : Option Nat)
    (v : Obj α ε) :
    Faithful parallel timeout (some ⟨false, v⟩) cb ↔ cb.job = none ∧ v = .exception noJob := by
  constructor
  · intro h
    obtain ⟨e, hv, hread⟩ := h.failure _ rfl rfl
    have hstatus : cb.getStatus parallel timeout ≠ some (.ok (some .done)) := by
      intro hdone
      obtain ⟨o, ho, hs⟩ := h.status hdone
      cases ho
      cases hs
    rcases polling_cases cb hp timeout with ⟨hnone, hresult, _⟩ | ⟨_, _, _, hdone⟩ | ⟨_, _, hdone⟩ |
      ⟨_, hresult, _⟩
    · rw [hresult] at hread
      cases hread
      exact ⟨hnone, hv⟩
    · exact absurd hdone hstatus
    · exact absurd hdone hstatus
    · rw [hresult] at hread
      cases hread
  · rintro ⟨hnone, rfl⟩
    rcases polling_cases cb hp timeout with ⟨_, hresult, hstatus⟩ | ⟨_, hjob, _⟩ | ⟨hjob, _⟩ | ⟨hjob, _⟩
    · refine ⟨fun v hv => ?_, fun o ho _ => ?_, fun hnone => (by cases hnone), fun hdone => absurd hdone hstatus⟩
      · rw [hresult] at hv
        cases hv
      · cases ho
        exact ⟨noJob, rfl, hresult⟩
    · rw [hnone] at hjob
      cases hjob
    · rw [hnone] at hjob
      cases hjob
    · rw [hnone] at hjob
      cases hjob

/-- With no outcome a status is done too early, or nothing is read at all. -/
theorem polling_missing (hp : parallel.backend.supportsRetrieveCallback = false) (timeout : Option Nat)
    (hjob : ∀ r, cb.job ≠ some ⟨some r⟩) : ¬ Faithful parallel timeout none cb := by
  intro h
  obtain ⟨message, hread⟩ := h.missing rfl
  rcases polling_cases cb hp timeout with ⟨_, hresult, _⟩ | ⟨r, hr, _⟩ | ⟨_, _, hdone⟩ |
    ⟨_, hresult, _⟩
  · rw [hresult] at hread
    cases hread
  · exact hjob r hr
  · obtain ⟨o, ho, _⟩ := h.status hdone
    cases ho
  · rw [hresult] at hread
    cases hread

end Polling

/-! ### The retrieving mode -/

section Retrieving
variable {parallel : Parallel α ε} {cb : BatchCompletionCallBack α ε}

theorem read_recorded (hp : parallel.backend.supportsRetrieveCallback = true) (timeout : Option Nat)
    {o : Outcome α ε} (h : Recorded cb (some o)) :
    cb.getResult parallel timeout = some (.ok o.result) ∧
      cb.getStatus parallel timeout = some (.ok (some o.status)) := by
  have hne : cb.status ≠ some .pending := fun hs => by simp [h.pending_iff] at hs
  unfold getResult getStatus
  rw [if_pos hp, if_pos hp, if_neg hne, h.1, h.2]
  exact ⟨rfl, rfl⟩

theorem read_pending (hp : parallel.backend.supportsRetrieveCallback = true) (timeout : Option Nat)
    (h : Recorded cb none) :
    cb.getResult parallel timeout = some (.error noOutcome) ∧
      cb.getStatus parallel timeout = some (.ok (some .pending)) := by
  unfold getResult getStatus
  rw [if_pos hp, if_pos hp, if_pos h.1, h.1]
  exact ⟨rfl, rfl⟩

/-- What is recorded is returned, be it a value or an exception. -/
theorem retrieving_recorded (hp : parallel.backend.supportsRetrieveCallback = true) (timeout : Option Nat)
    {o : Outcome α ε} (h : Recorded cb (some o)) (outcome : Option (Outcome α ε)) :
    Faithful parallel timeout outcome cb ↔ outcome = some ⟨true, o.result⟩ := by
  obtain ⟨hresult, hstatus⟩ := read_recorded hp timeout h
  constructor
  · exact fun hf => hf.value _ hresult
  · rintro rfl
    refine ⟨fun v hv => ?_, fun o' ho' hs => ?_, fun hnone => (by cases hnone), fun _ => ⟨_, rfl, rfl⟩⟩
    · rw [hresult] at hv
      cases hv
      rfl
    · cases ho'
      cases hs

/-- With nothing recorded there is a timeout, which no failure but that timeout is. -/
theorem retrieving_pending (hp : parallel.backend.supportsRetrieveCallback = true) (timeout : Option Nat)
    (h : Recorded cb none) (outcome : Option (Outcome α ε)) :
    Faithful parallel timeout outcome cb ↔
      ∀ o, outcome = some o → o.success = false → o.result = .exception noOutcome := by
  obtain ⟨hresult, hstatus⟩ := read_pending hp timeout h
  constructor
  · intro hf o ho hs
    obtain ⟨e, he, hread⟩ := hf.failure o ho hs
    rw [hresult] at hread
    cases hread
    exact he
  · intro hf
    refine ⟨fun v hv => ?_, fun o ho hs => ⟨noOutcome, hf o ho hs, hresult⟩, fun _ => ⟨_, hresult⟩,
      fun hdone => ?_⟩
    · rw [hresult] at hv
      cases hv
    · rw [hstatus] at hdone
      cases hdone

end Retrieving

/-! ### Both -/

/-- The events after which a tracker gives what it owes. Retrieving: nothing is
reported, or the first report is a success and what is recorded, if anything, came with
the same object. Polling: the first report is a success and the job, if it has finished
with a value, finished with that one. (And where nothing can be read, the failure that
happens to be the very exception this raises.) -/
def Deliverable (parallel : Parallel α ε) (events : List (Event α ε)) : Prop :=
  let recorded := Cell.run none (Event.writes parallel.callId events)
  let job := Event.jobAfter none events
  match parallel.backend.supportsRetrieveCallback, batchOutcome parallel events with
  | true, none => True
  | true, some ⟨true, v⟩ => ∀ o, recorded = some o → o.result = v
  | true, some ⟨false, v⟩ => recorded = none ∧ v = .exception noOutcome
  | false, none => False
  | false, some ⟨true, v⟩ => ∀ w, job = some ⟨some (.ok w)⟩ → v = .value w
  | false, some ⟨false, v⟩ => job = none ∧ v = .exception noJob

theorem writes_nil (id : Option Nat) {events : List (Event α ε)} (h : reports events = []) :
    Event.writes id events = [] := by
  induction events with
  | nil => rfl
  | cons e rest ih =>
    rw [writes_cons]
    cases e with
    | registerJob job => exact ih h
    | finished r => exact ih h
    | completion parallel success result => cases h
    | registration outcome => cases h

section Modes
variable {parallel : Parallel α ε}

theorem faithful_polling (hp : parallel.backend.supportsRetrieveCallback = false) (events : List (Event α ε))
    (timeout : Option Nat) :
    Faithful parallel timeout (batchOutcome parallel events) ((create parallel).after events) ↔
      Deliverable parallel events := by
  have hjob : ((create parallel).after events).job = Event.jobAfter none events := after_job _ _
  have houtcome : batchOutcome parallel events = (Event.polled none events).head? := by
    unfold batchOutcome
    rw [hp]
    rfl
  unfold Deliverable
  rw [hp]
  cases ho : batchOutcome parallel events with
  | none =>
    have hnil : Event.polled none events = [] := List.head?_eq_none_iff.mp (houtcome.symm.trans ho)
    have hunfinished : ∀ r, ((create parallel).after events).job ≠ some ⟨some r⟩ := by
      rw [hjob]
      exact fun r hr => polled_ne_nil (.inl rfl) hr hnil
    exact ⟨fun h => absurd h (polling_missing hp timeout hunfinished), False.elim⟩
  | some o =>
    obtain ⟨success, v⟩ := o
    cases success with
    | true => rw [polling_success hp, hjob]
    | false => rw [polling_failure hp, hjob]

theorem faithful_retrieving (hp : parallel.backend.supportsRetrieveCallback = true) (events : List (Event α ε))
    (timeout : Option Nat) :
    Faithful parallel timeout (batchOutcome parallel events) ((create parallel).after events) ↔
      Deliverable parallel events := by
  have hrecorded := after_recorded (create_recorded hp) events
  change Recorded _ (Cell.run none (Event.writes parallel.callId events)) at hrecorded
  have houtcome : batchOutcome parallel events = (reports events).head? := if_pos hp
  unfold Deliverable
  rw [hp]
  cases hrun : Cell.run none (Event.writes parallel.callId events) with
  | none =>
    rw [hrun] at hrecorded
    rw [retrieving_pending hp timeout hrecorded]
    cases batchOutcome parallel events with
    | none => simp
    | some o =>
      obtain ⟨success, v⟩ := o
      cases success <;> simp
  | some o =>
    rw [hrun] at hrecorded
    rw [retrieving_recorded hp timeout hrecorded]
    cases ho : batchOutcome parallel events with
    | none =>
      -- nothing was reported, so nothing was written
      have hnil := writes_nil parallel.callId (List.head?_eq_none_iff.mp (houtcome.symm.trans ho))
      rw [hnil] at hrun
      cases hrun
    | some o' =>
      obtain ⟨success, v⟩ := o'
      cases success with
      | true => simp [eq_comm]
      | false => simp

end Modes

/-- **A tracker gives what it owes after the events of `Deliverable`**, and after no
others, whatever the timeout. -/
theorem faithful_iff (parallel : Parallel α ε) (events : List (Event α ε)) (timeout : Option Nat) :
    Faithful parallel timeout (batchOutcome parallel events) ((create parallel).after events) ↔
      Deliverable parallel events := by
  cases hp : parallel.backend.supportsRetrieveCallback with
  | false => exact faithful_polling hp events timeout
  | true => exact faithful_retrieving hp events timeout

/-! A failed batch hands its exception out as a value; an unfinished job is done. -/

/-- `__call__((False, ZeroDivisionError))`, the user's exception being `()`. -/
def failing (parallel : Parallel Nat Unit) : List (Event Nat Unit) :=
  [.completion parallel false (.exception (.user ()))]

/-- A call on a backend that retrieves through the callback, or does not. -/
def calling (supportsRetrieveCallback : Bool) : Parallel Nat Unit :=
  (Parallel.created 2 (.text "all") .list (.idle "LokyBackend" supportsRetrieveCallback) true).renewCallId

theorem failure_read_as_value :
    ¬ Faithful (calling true) none (batchOutcome (calling true) (failing (calling true)))
        ((create (calling true)).after (failing (calling true))) ∧
      ¬ Faithful (calling false) (some 1) (batchOutcome (calling false) [.registerJob ⟨none⟩])
        ((create (calling false)).after [.registerJob ⟨none⟩]) := by
  constructor
  · intro h
    have hvalue := h.value (.exception (.user ())) rfl
    cases hvalue
  · intro h
    obtain ⟨o, ho, _⟩ := h.status rfl
    cases ho

end BatchCompletionCallBack

end Joblib
