import Joblib.Lib.Cell
import Joblib.Lib.Runs
import Joblib.Callback.State

/-! The outcome a tracker registers.

Whatever happens to a tracker is an `Event`: its job is registered or finishes, the
backend calls it with a completion, the code registers an outcome of its own. With
`supports_retrieve_callback` the two fields `status` and `result` are a cell
(`Recorded`) to which `_register_outcome` makes an offer and a completion that gets
past the tests of `__call__` forces a value (`after_recorded`). -/
namespace Joblib

/-- How a batch ended: the success flag and the object that came with it. -/
structure Outcome (α ε : Type) where
  success : Bool
  result : Obj α ε
deriving DecidableEq

def Outcome.status {α ε : Type} (o : Outcome α ε) : Status := if o.success then .done else .error

theorem Outcome.status_ne {α ε : Type} (o : Outcome α ε) : o.status ≠ .pending := by
  unfold Outcome.status
  split <;> decide

/-- What may happen to a tracker. A completion finds the instance in any state. -/
inductive Event (α ε : Type) where
  | registerJob (job : Job α ε)
  | finished (r : Except (Exc ε) α)
  | completion (parallel : Parallel α ε) (success : Bool) (result : Obj α ε)
  | registration (outcome : Obj α ε)

namespace Event
open BatchCompletionCallBack (Accepted)
variable {α ε : Type}

/-- The outcome an explicit registration stands for. -/
def registered (outcome : Obj α ε) : Outcome α ε := ⟨!outcome.isException, outcome⟩

/-- What the event writes to the fields of a tracker of the call `id`. -/
def write (id : Option Nat) : Event α ε → Option (Cell.Write (Outcome α ε))
  | .completion parallel success result =>
    if Accepted id parallel then some (.force ⟨success, result⟩) else none
  | .registration outcome => some (.offer (registered outcome))
  | _ => none

theorem write_accepted {id : Option Nat} {parallel : Parallel α ε} (h : Accepted id parallel)
    (success : Bool) (result : Obj α ε) :
    (completion parallel success result).write id = some (.force ⟨success, result⟩) := if_pos h

theorem write_refused {id : Option Nat} {parallel : Parallel α ε} (h : ¬ Accepted id parallel)
    (success : Bool) (result : Obj α ε) : (completion parallel success result).write id = none := if_neg h

def writes (id : Option Nat) (events : List (Event α ε)) : List (Cell.Write (Outcome α ε)) :=
  events.filterMap (write id)

end Event

namespace BatchCompletionCallBack
variable {α ε : Type}

/-- One event; a completion goes on to `_dispatch_new`, which the tracker does not see. -/
def step (cb : BatchCompletionCallBack α ε) : Event α ε → BatchCompletionCallBack α ε
  | .registerJob job => cb.registerJob job
  | .finished r => {cb with job := cb.job.map fun job => job.finish r}
  | .completion parallel success result => (cb.enter 0 (success, result) parallel).tracker
  | .registration outcome => cb.registerOutcome outcome

def after (cb : BatchCompletionCallBack α ε) : List (Event α ε) → BatchCompletionCallBack α ε
  | [] => cb
  | e :: rest => (cb.step e).after rest

/-! ### The two fields as a cell -/

/-- What the two fields hold. -/
def Recorded (cb : BatchCompletionCallBack α ε) : Option (Outcome α ε) → Prop
  | none => cb.status = some .pending ∧ cb.result = none
  | some o => cb.status = some o.status ∧ cb.result = some o.result

theorem Recorded.pending_iff {cb : BatchCompletionCallBack α ε} {c : Option (Outcome α ε)}
    (h : Recorded cb c) : cb.status = some .pending ↔ c = none := by
  cases c with
  | none => exact ⟨fun _ => rfl, fun _ => h.1⟩
  | some o =>
    rw [h.1]
    exact ⟨fun hs => absurd (Option.some.inj hs) o.status_ne, fun ho => by cases ho⟩

/-- What is recorded determines what there is to read. -/
theorem Recorded.unique {cb cb' : BatchCompletionCallBack α ε} {o o' : Outcome α ε}
    (h : Recorded cb (some o)) (h' : Recorded cb' (some o')) :
    (cb'.status = cb.status ∧ cb'.result = cb.result) ↔ o' = o := by
  rw [h.1, h.2, h'.1, h'.2]
  constructor
  · rintro ⟨hstatus, hresult⟩
    obtain ⟨success, result⟩ := o
    obtain ⟨success', result'⟩ := o'
    obtain rfl : result' = result := Option.some.inj hresult
    cases success <;> cases success' <;> simp_all [Outcome.status]
  · rintro rfl
    exact ⟨rfl, rfl⟩

theorem create_recorded {parallel : Parallel α ε} (h : parallel.backend.supportsRetrieveCallback = true) :
    Recorded (create parallel) none := by
  simp [Recorded, create, h]

theorem registerOutcome_recorded {cb : BatchCompletionCallBack α ε} {c : Option (Outcome α ε)}
    (h : Recorded cb c) (outcome : Obj α ε) :
    Recorded (cb.registerOutcome outcome) (Cell.put c (.offer (Event.registered outcome))) := by
  unfold registerOutcome
  cases c with
  | none =>
    rw [if_pos h.1]
    cases outcome <;> exact ⟨rfl, rfl⟩
  | some o =>
    have hne : cb.status ≠ some .pending := fun hs => by simp [h.pending_iff] at hs
    rw [if_neg hne]
    exact h

theorem step_parallelCallId (cb : BatchCompletionCallBack α ε) (e : Event α ε) :
    (cb.step e).parallelCallId = cb.parallelCallId := by
  cases e with
  | registerJob job => rfl
  | finished r => rfl
  | completion parallel success result =>
    exact cb.enter_parallelCallId parallel 0 success result
  | registration outcome =>
    show (cb.registerOutcome outcome).parallelCallId = _
    unfold registerOutcome
    split <;> rfl

/-- An event does to the fields what its write does to the cell. -/
theorem step_recorded {cb : BatchCompletionCallBack α ε} {c : Option (Outcome α ε)} (h : Recorded cb c)
    (e : Event α ε) : Recorded (cb.step e) (Cell.run c (e.write cb.parallelCallId).toList) := by
  cases e with
  | registerJob job => cases c <;> exact h
  | finished r => cases c <;> exact h
  | completion parallel success result =>
    show Recorded (cb.enter 0 (success, result) parallel).tracker _
    by_cases ha : Accepted cb.parallelCallId parallel
    · rw [Event.write_accepted ha, enter_accepted ha]
      exact ⟨rfl, rfl⟩
    · rw [Event.write_refused ha, enter_refused ha]
      exact h
  | registration outcome => exact registerOutcome_recorded h outcome

theorem writes_cons (id : Option Nat) (e : Event α ε) (rest : List (Event α ε)) :
    Event.writes id (e :: rest) = (e.write id).toList ++ Event.writes id rest := by
  unfold Event.writes
  rw [List.filterMap_cons]
  cases e.write id <;> rfl

/-- **The fields hold what the writes leave in the cell.** -/
theorem after_recorded {cb : BatchCompletionCallBack α ε} {c : Option (Outcome α ε)} (h : Recorded cb c)
    (events : List (Event α ε)) :
    Recorded (cb.after events) (Cell.run c (Event.writes cb.parallelCallId events)) := by
  induction events generalizing cb c with
  | nil => exact h
  | cons e rest ih =>
    have hrest := ih (step_recorded h e)
    rw [step_parallelCallId] at hrest
    rw [writes_cons, Cell.run_append]
    exact hrest

/-! ### Write-once -/

/-- The outcomes reported, in order: completions and registrations. -/
def reports : List (Event α ε) → List (Outcome α ε)
  | [] => []
  | .completion _ success result :: rest => ⟨success, result⟩ :: reports rest
  | .registration outcome :: rest => Event.registered outcome :: reports rest
  | _ :: rest => reports rest

/-- The completions' outcomes, in order. -/
def completions : List (Event α ε) → List (Outcome α ε)
  | [] => []
  | .completion _ success result :: rest => ⟨success, result⟩ :: completions rest
  | _ :: rest => completions rest

/-- Every completion passes the tests of `__call__`. -/
def AllAccepted (id : Option Nat) (events : List (Event α ε)) : Prop :=
  ∀ parallel success result, .completion parallel success result ∈ events → Accepted id parallel

theorem AllAccepted.tail {id : Option Nat} {e : Event α ε} {rest : List (Event α ε)}
    (h : AllAccepted id (e :: rest)) : AllAccepted id rest :=
  fun parallel success result hmem => h parallel success result (List.mem_cons_of_mem _ hmem)

/-- Then the writes are the reports, and the forced ones the completions. -/
theorem writes_reports {id : Option Nat} {events : List (Event α ε)} (h : AllAccepted id events) :
    (Event.writes id events).map Cell.Write.value = reports events ∧
      ∀ o, .force o ∈ Event.writes id events ↔ o ∈ completions events := by
  induction events with
  | nil => exact ⟨rfl, fun o => by simp [Event.writes, completions]⟩
  | cons e rest ih =>
    obtain ⟨hreports, hcompletions⟩ := ih h.tail
    rw [writes_cons]
    cases e with
    | registerJob job => exact ⟨hreports, hcompletions⟩
    | finished r => exact ⟨hreports, hcompletions⟩
    | completion parallel success result =>
      rw [Event.write_accepted (h parallel success result List.mem_cons_self)]
      refine ⟨congrArg (List.cons _) hreports, fun o => ?_⟩
      simp [completions, hcompletions]
    | registration outcome =>
      refine ⟨congrArg (List.cons _) hreports, fun o => ?_⟩
      simp [Event.write, completions, hcompletions]

/-- Once an outcome is registered, an event changes neither field. -/
def Settled (cb : BatchCompletionCallBack α ε) (_ : Event α ε) (cb' : BatchCompletionCallBack α ε) : Prop :=
  cb.status ≠ some .pending → cb'.status = cb.status ∧ cb'.result = cb.result

/-- Pending with nothing reported, or done or failed with something that was. -/
def Produced (events : List (Event α ε)) (cb : BatchCompletionCallBack α ε) : Prop :=
  (cb.status = some .pending ∧ cb.result = none ∧ reports events = []) ∨
    ∃ o ∈ reports events, cb.status = some o.status ∧ cb.result = some o.result

/-- The outcome is written once: every event leaves a registered outcome alone, and at
every moment it is one that was reported. -/
structure WriteOnce (cb : BatchCompletionCallBack α ε) (events : List (Event α ε)) : Prop where
  settled : Runs.Every (fun cb e => some (cb.step e)) Settled cb events
  produced : ∀ before after, events = before ++ after → Produced before (cb.after before)

/-- What is in the fields was reported. -/
theorem after_produced {parallel : Parallel α ε} (hp : parallel.backend.supportsRetrieveCallback = true)
    {events : List (Event α ε)} (h : AllAccepted parallel.callId events) :
    Produced events ((create parallel).after events) := by
  have hrecorded := after_recorded (create_recorded hp) events
  obtain ⟨hreports, _⟩ := writes_reports h
  cases hrun : Cell.run none (Event.writes (create parallel).parallelCallId events) with
  | none =>
    rw [hrun] at hrecorded
    have hnil := (Cell.run_none_iff _).mp hrun
    refine .inl ⟨hrecorded.1, hrecorded.2, ?_⟩
    rw [← hreports]
    exact congrArg (List.map _) hnil
  | some o =>
    rw [hrun] at hrecorded
    rcases Cell.run_mem hrun with hnone | ⟨w, hw, rfl⟩
    · cases hnone
    · refine .inr ⟨w.value, ?_, hrecorded.1, hrecorded.2⟩
      rw [← hreports]
      exact List.mem_map_of_mem hw

theorem settled_step_iff {cb cb' : BatchCompletionCallBack α ε} {c c' : Option (Outcome α ε)}
    (h : Recorded cb c) (h' : Recorded cb' c') (hc : c' = none → c = none) (e : Event α ε) :
    Settled cb e cb' ↔ ∀ o, c = some o → c' = some o := by
  cases c with
  | none => exact ⟨fun _ o ho => (by cases ho), fun _ hs => absurd h.1 hs⟩
  | some o =>
    have hne : cb.status ≠ some .pending := fun hs => by simp [h.pending_iff] at hs
    cases c' with
    | none => cases hc rfl
    | some o' =>
      have hunique := h.unique h'
      constructor
      · intro hs u hu
        rw [hunique.mp (hs hne), hu]
      · intro hs _
        exact hunique.mpr (Option.some.inj (hs o rfl))

/-- Events leave the fields alone exactly when their writes keep the cell. -/
theorem settled_iff {cb : BatchCompletionCallBack α ε} {c : Option (Outcome α ε)} (h : Recorded cb c)
    (events : List (Event α ε)) :
    Runs.Every (fun cb e => some (cb.step e)) Settled cb events ↔
      Cell.Keeps c (Event.writes cb.parallelCallId events) := by
  induction events generalizing cb c with
  | nil => exact Iff.rfl
  | cons e rest ih =>
    have hstep := step_recorded h e
    have hrest := ih hstep
    rw [step_parallelCallId] at hrest
    have hcons : Runs.Every (fun cb e => some (cb.step e)) Settled cb (e :: rest) ↔
        Settled cb e (cb.step e) ∧ Runs.Every (fun cb e => some (cb.step e)) Settled (cb.step e) rest :=
      ⟨fun hall => hall _ rfl, fun hall t ht => Option.some.inj ht ▸ hall⟩
    rw [hcons, hrest, writes_cons]
    cases hwrite : e.write cb.parallelCallId with
    | none =>
      rw [hwrite] at hstep
      rw [settled_step_iff h hstep id]
      exact ⟨fun hall => hall.2, fun hall => ⟨fun _ ho => ho, hall⟩⟩
    | some w =>
      rw [hwrite] at hstep
      rw [settled_step_iff h hstep fun hnone => absurd hnone (by cases c <;> cases w <;> simp [Cell.run, Cell.put])]
      exact Iff.rfl

/-- **The outcome is written once** exactly when every completion repeats the first
report. -/
theorem write_once_iff {parallel : Parallel α ε} (hp : parallel.backend.supportsRetrieveCallback = true)
    {events : List (Event α ε)} (h : AllAccepted parallel.callId events) :
    WriteOnce (create parallel) events ↔
      ∀ o, (reports events).head? = some o → ∀ o' ∈ completions events, o' = o := by
  obtain ⟨hreports, hcompletions⟩ := writes_reports h
  have hsettled : Runs.Every (fun cb e => some (cb.step e)) Settled (create parallel) events ↔
      Cell.Keeps none (Event.writes parallel.callId events) := settled_iff (create_recorded hp) events
  have hfirst : Cell.first (Event.writes parallel.callId events) = (reports events).head? := by
    rw [← hreports, List.head?_map]
    rfl
  have hkeeps : Cell.Keeps none (Event.writes parallel.callId events) ↔
      ∀ o, (reports events).head? = some o → ∀ o' ∈ completions events, o' = o := by
    rw [Cell.keeps_iff, hfirst]
    simp only [hcompletions]
  rw [← hkeeps, ← hsettled]
  constructor
  · intro honce
    exact honce.settled
  · intro hall
    refine ⟨hall, fun before after heq => after_produced hp ?_⟩
    intro q success result hmem
    exact h q success result (heq ▸ List.mem_append_left _ hmem)

/-! A timeout is registered and then the worker finishes: the tracker goes from
`TASK_ERROR` to `TASK_DONE`. -/

/-- An instance on a backend that retrieves through the callback, in its first call. -/
def retrieving : Parallel Nat Empty :=
  (Parallel.created 2 (.text "all") .generator (.idle "LokyBackend" true) true).renewCallId

def lateCompletion : List (Event Nat Empty) :=
  [.registration (.exception (.timeoutError "")), .completion retrieving true (.value 3)]

theorem late_completion_overwrites : AllAccepted retrieving.callId lateCompletion ∧
    ¬ WriteOnce (create retrieving) lateCompletion := by
  constructor
  · intro p success result hmem
    obtain ⟨rfl, -, -⟩ : p = retrieving ∧ success = true ∧ result = .value 3 := by
      simpa [lateCompletion] using hmem
    exact ⟨rfl, rfl, rfl⟩
  · intro honce
    have hsettled := (honce.settled _ rfl).2 _ rfl
    have hstatus := (hsettled.1 (by decide)).1
    exact absurd hstatus (by decide)

/-- Registrations may follow one another, and a completion that repeats the first. -/
theorem repeated_completion_keeps :
    AllAccepted retrieving.callId [.completion retrieving true (.value 3), .registration (.value 4)] ∧
      WriteOnce (create retrieving) [.completion retrieving true (.value 3), .registration (.value 4)] := by
  have haccepted : AllAccepted retrieving.callId
      [.completion retrieving true (.value 3), .registration (.value 4)] := by
    intro p success result hmem
    obtain ⟨rfl, -, -⟩ : p = retrieving ∧ success = true ∧ result = .value 3 := by simpa using hmem
    exact ⟨rfl, rfl, rfl⟩
  refine ⟨haccepted, (write_once_iff rfl haccepted).mpr ?_⟩
  intro o ho o' ho'
  obtain rfl : ⟨true, .value 3⟩ = o := Option.some.inj ho
  simpa [completions] using ho'

end BatchCompletionCallBack

end Joblib
