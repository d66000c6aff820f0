import Joblib.Parallel.Call

/-! The sequential path.

`results` is the meaning of a task list: its tasks called one after another, up
to the first that raises. The loop of `_get_sequential_output` drains to exactly
that (`drain_sequential`), calling the same tasks in the same order. `__call__`
resumes the generator before it drains it or hands it out, and drops what that
gives: `call_sequential` says what is left. -/
namespace Joblib.Parallel
open Resumable (Drained drain drain_yielded drain_stopped drain_raised)

variable {α ε : Type}

/-- The tasks' values up to the first that raises, and its exception. -/
def results : List (Item α ε) → Drained α (Exc ε)
  | [] => ⟨[], none⟩
  | task :: rest =>
    match task.call with
    | .ok value => (results rest).cons value
    | .error e => ⟨[], some e⟩

/-- The tasks called to get them. -/
def called : List (Item α ε) → List (Item α ε)
  | [] => []
  | task :: rest =>
    match task.call with
    | .ok _ => task :: called rest
    | .error _ => [task]

/-- Nothing is called after the first task that raises, and nothing twice. -/
theorem called_prefix (ts : List (Item α ε)) : called ts <+: ts := by
  induction ts with
  | nil => exact List.prefix_rfl
  | cons task rest ih =>
    unfold called
    split
    · exact (List.cons_prefix_cons).mpr ⟨rfl, ih⟩
    · exact (List.cons_prefix_cons).mpr ⟨rfl, List.nil_prefix⟩

/-- What a drained frame's exceptions have become on their way out. -/
def leftGenerator (d : Drained α (Exc ε)) : Drained α (Exc ε) :=
  ⟨d.values, d.error.map Exc.leavingGenerator⟩

section Loop
variable (D : Dispatcher α ε)

theorem sequentialTurn_nil (p : Parallel α ε) :
    Generator.sequentialTurn (Iterator.ofList []) p = .came .stopped (.finished, p) := rfl

theorem sequentialTurn_value {task : Item α ε} {value : α} (h : task.call = .ok value)
    (rest : List (Item α ε)) (p : Parallel α ε) :
    Generator.sequentialTurn (Iterator.ofList (task :: rest)) p =
      .came (.yielded value) (.sequentialYield (Iterator.ofList rest), p.execute task) := by
  simp only [Generator.sequentialTurn, Iterator.head_ofList_cons, h, Iterator.tail_ofList_cons]

theorem sequentialTurn_raise {task : Item α ε} {e : Exc ε} (h : task.call = .error e)
    (rest : List (Item α ε)) (p : Parallel α ε) :
    Generator.sequentialTurn (Iterator.ofList (task :: rest)) p =
      .came (.raised e.leavingGenerator) (.finished, p.execute task) := by
  simp only [Generator.sequentialTurn, Iterator.head_ofList_cons, h, Generator.raise]

/-- The loop, from anywhere its next turn runs over `ts`. -/
theorem drain_sequential (ts : List (Item α ε)) (g : Generator α ε) (p : Parallel α ε)
    (h : Generator.step D g = Generator.sequentialTurn (Iterator.ofList ts) p) :
    ∃ q, drain (Generator.step D) (ts.length + 1) g = some (leftGenerator (results ts), (.finished, q)) ∧
      q.executed = p.executed ++ called ts ∧
      q.nCompletedTasks = p.nCompletedTasks + (results ts).values.length := by
  induction ts generalizing g p with
  | nil =>
    rw [sequentialTurn_nil] at h
    exact ⟨p, drain_stopped h, by simp [called], by simp [results]⟩
  | cons task rest ih =>
    cases hcall : task.call with
    | ok value =>
      rw [sequentialTurn_value hcall] at h
      obtain ⟨q, hdrain, hexecuted, hcompleted⟩ :=
        ih (.sequentialYield (Iterator.ofList rest), p.execute task) (p.execute task).complete rfl
      refine ⟨q, ?_, ?_, ?_⟩
      · rw [List.length_cons, drain_yielded h, hdrain]
        simp [results, hcall, leftGenerator, Drained.cons]
      · rw [hexecuted]
        simp [called, hcall]
      · rw [hcompleted]
        simp only [results, hcall, Drained.cons, List.length_cons, complete_nCompletedTasks,
          execute_nCompletedTasks]
        omega
    | error e =>
      rw [sequentialTurn_raise hcall] at h
      refine ⟨p.execute task, ?_, by simp [called, hcall], by simp [results, hcall]⟩
      rw [List.length_cons, drain_raised h]
      simp [results, hcall, leftGenerator]

end Loop

/-! ### The call -/

section Call
variable {host : Host α ε}

/-- What a caller gets of the tasks `ts`. -/
def outcome (r : ReturnAs) (ts : List (Item α ε)) : Drained α (Exc ε) :=
  primed r (leftGenerator (results ts))

variable (host) in
/-- **With one worker**, what a caller gets of a task list, and which tasks were
called for it. -/
theorem call_sequential (ts : List (Item α ε)) (p : Parallel α ε)
    (hw : (p.resetRunTracking.workers host).1 = .ok 1) :
    ∃ q, p.callAndExhaust host (ts.length + 1) (.ofList ts) = some (outcome p.returnAs ts, q) ∧
      q.executed = p.executed ++ called ts := by
  obtain ⟨configured, hframe⟩ := workers_frame host p.resetRunTracking
  have hprepare := prepare_sequential host (.ofList ts) p hw
  generalize (p.resetRunTracking.workers host).2 = p' at hframe hprepare
  have hreturnAs : p'.returnAs = p.returnAs := by
    rw [hframe]
    rfl
  obtain ⟨q, hdrain, hexecuted, _⟩ :=
    drain_sequential host.dispatcher ts (.sequential (.ofList ts), p') p' rfl
  refine ⟨q, ?_, ?_⟩
  · unfold callAndExhaust call
    rw [hprepare]
    exact hreturnAs ▸ deliver_primed hdrain
  · rw [hexecuted, hframe]
    rfl

/-- The list `[t() for t in ts]`, or the exception that interrupts it, and the
tasks called in order up to there. -/
def DeliversSequence (host : Host α ε) (p : Parallel α ε) (ts : List (Item α ε)) : Prop :=
  ∃ n q, p.callAndExhaust host n (.ofList ts) = some (handedOut p.returnAs (results ts), q) ∧
    q.executed = p.executed ++ called ts

/-- Resuming the generator early does no harm: the exception it lets out is the
one the caller is owed, and no value is owed with it. -/
def PrimingHarmless (r : ReturnAs) (ts : List (Item α ε)) : Prop :=
  if r.returnGenerator then ∃ task e, ts.head? = some task ∧ task.call = .error e ∧ e ≠ .stopIteration
  else ∃ e, (results ts).error = some e ∧ e ≠ .stopIteration

/-- A value too few is never right. -/
theorem cons_ne (d d' : Drained α (Exc ε)) (v : α) (h : d.values.length = d'.values.length) :
    d ≠ d'.cons v := by
  rintro rfl
  simp [Drained.cons] at h

theorem outcome_eq_iff (r : ReturnAs) (ts : List (Item α ε)) :
    outcome r ts = handedOut r (results ts) ↔ PrimingHarmless r ts := by
  cases ts with
  | nil => cases r <;> simp [outcome, leftGenerator, primed, handedOut, results, PrimingHarmless]
  | cons task rest =>
    cases hcall : task.call with
    | error e =>
      have houtcome : outcome r (task :: rest) = ⟨[], some e.leavingGenerator⟩ := by
        simp [outcome, leftGenerator, primed, results, hcall]
      have hresults : results (task :: rest) = ⟨[], some e⟩ := by simp [results, hcall]
      rw [houtcome, hresults]
      cases r <;> simp [handedOut, PrimingHarmless, ReturnAs.returnGenerator, hcall, hresults,
        Exc.leavingGenerator_eq_iff]
    | ok value =>
      have hresults : results (task :: rest) = (results rest).cons value := by simp [results, hcall]
      have houtcome : outcome r (task :: rest) = handedOut r (leftGenerator (results rest)) := by
        unfold outcome
        rw [hresults]
        rfl
      rw [houtcome, hresults]
      unfold PrimingHarmless handedOut
      cases hr : r.returnGenerator with
      | true =>
        -- the first value is missing, whatever follows
        have hne := cons_ne (leftGenerator (results rest)) (results rest) value rfl
        simp [hne, hcall]
      | false =>
        rw [hresults]
        cases herror : (results rest).error with
        | none =>
          have hne := cons_ne (leftGenerator (results rest)) (results rest) value rfl
          simp [leftGenerator, Drained.cons, herror] at hne ⊢
        | some e => simp [leftGenerator, Drained.cons, herror, Exc.leavingGenerator_eq_iff]

/-- **With one worker a call delivers its task sequence exactly when no value
comes first.** -/
theorem delivers_sequence_iff (host : Host α ε) (p : Parallel α ε) (calls : List (Call α ε))
    (hw : (p.resetRunTracking.workers host).1 = .ok 1) :
    DeliversSequence host p (calls.map Call.delayed) ↔
      PrimingHarmless p.returnAs (calls.map Call.delayed) := by
  obtain ⟨q, hcall, hexecuted⟩ := call_sequential host (calls.map Call.delayed) p hw
  rw [← outcome_eq_iff]
  constructor
  · rintro ⟨n, q', hcall', _⟩
    exact congrArg Prod.fst (callAndExhaust_unique hcall hcall')
  · intro heq
    exact ⟨_, q, by rw [hcall, heq], hexecuted⟩

/-! The loss is there for a single task: `Parallel(n_jobs=1)([delayed(f)()])` is `[]`. -/

/-- A list call on one worker. -/
def single : Parallel Nat Empty :=
  .created 1 (.text "2 * n_jobs") .list (.idle "SequentialBackend" false) false

theorem single_value_lost :
    (single.resetRunTracking.workers (.plain Nat Empty)).1 = .ok 1 ∧
      ¬ DeliversSequence (.plain Nat Empty) single [delayed (fun _ _ => .ok 7) [] []] := by
  refine ⟨rfl, ?_⟩
  rintro ⟨n, q, hcall, _⟩
  obtain ⟨q', hcall', _⟩ := call_sequential (.plain Nat Empty)
    [delayed (fun _ _ => .ok 7) [] []] single rfl
  have hvalues := congrArg (fun r => r.1.values) (callAndExhaust_unique hcall hcall')
  cases hvalues

/-- A function that raises, delayed. -/
def refused : Call Nat Empty := ⟨fun _ _ => .error (.valueError "no"), [], []⟩

/-- A first task that raises is the case the call gets right. -/
theorem delivers_sequence_refused :
    DeliversSequence (.plain Nat Empty) single ([refused].map Call.delayed) ∧
      PrimingHarmless single.returnAs ([refused].map Call.delayed) := by
  have hiff := delivers_sequence_iff (.plain Nat Empty) single [refused] rfl
  have hharmless : PrimingHarmless single.returnAs ([refused].map Call.delayed) :=
    ⟨.valueError "no", rfl, by decide⟩
  exact ⟨hiff.mpr hharmless, hharmless⟩

end Call

end Joblib.Parallel
