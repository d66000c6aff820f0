import Joblib.Lib.Resumable
import Joblib.Parallel.State

/-! The two generators behind `Parallel.__call__`, one turn at a time.

A `Frame` is where a generator is suspended, with its local variables. A turn
runs the body to the next `yield`, to its end, or once around the loop of
`_get_outputs`. -/
namespace Joblib

/-- The local `iterator` that `_get_outputs` is given: the whole iterator under
`pre_dispatch='all'`, else an `islice` of `_original_iterator`. -/
inductive Prefetch (α ε : Type) where
  | whole (iterator : Iterator (Item α ε) ε)
  | islice (amount : Int)

inductive Frame (α ε : Type) where
  /-- `_get_sequential_output(iterable)`, not started. -/
  | sequential (iterable : Iterable (Item α ε) ε)
  /-- Suspended at its `yield`, the rest of `enumerate(iterable)` to come. -/
  | sequentialYield (rest : Iterator (Item α ε) ε)
  /-- `_get_outputs(iterator, pre_dispatch)` at the head of its loop. -/
  | outputs (iterator : Prefetch α ε)
  /-- Suspended at its `yield`. -/
  | outputsYield (iterator : Prefetch α ε)
  | finished

/-- Returned to a caller and not run to its end. -/
def Frame.suspended {α ε : Type} : Frame α ε → Bool
  | .sequentialYield _ => true
  | .outputsYield _ => true
  | _ => false

/-- A generator and the instance it works on. -/
abbrev Generator (α ε : Type) := Frame α ε × Parallel α ε

namespace Generator
variable {α ε : Type} (D : Dispatcher α ε)

abbrev GeneratorTurn (α ε : Type) := Resumable.Turn (Generator α ε) α (Exc ε)

/-- An exception that nothing in the body catches. -/
def raise (e : Exc ε) (p : Parallel α ε) : GeneratorTurn α ε :=
  .came (.raised e.leavingGenerator) (.finished, p)

/-- The loop of `_get_sequential_output`, from `for i, func in enumerate(iterable)`. -/
def sequentialTurn (rest : Iterator (Item α ε) ε) (p : Parallel α ε) : GeneratorTurn α ε :=
  match rest.head with
  | .error .stopIteration => .came .stopped (.finished, p)
  | .error e => raise e p
  | .ok func =>
    match func.call with
    | .ok value => .came (.yielded value) (.sequentialYield rest.tail, p.execute func)
    | .error e => raise e (p.execute func)

/-- `_raise_error_fast`: the exception it raises, if it raises. -/
def raiseErrorFast (p : Parallel α ε) : Option (Exc ε) :=
  if p.aborting then p.backend.firstException else none

/-- The bottom of the loop of `_get_outputs`. -/
def outputsBottom (iterator : Prefetch α ε) (p : Parallel α ε) : GeneratorTurn α ε :=
  match if p.aborting then raiseErrorFast p else none with
  | some e => raise e p
  | none => .silent (.outputs iterator, p)

/-- The loop of `_get_outputs`, from its head to its bottom or to its `yield`. -/
def outputsTurn (iterator : Prefetch α ε) (p : Parallel α ε) : GeneratorTurn α ε :=
  if p.iterating || p.nCompletedTasks < p.nDispatchedTasks then
    if p.nCompletedTasks < p.nDispatchedTasks then
      match p.backend.retrieve with
      | none => .blocked
      | some (.ok value, b) => .came (.yielded value) (.outputsYield iterator, p.withBackend b)
      | some (.error e, b) => raise e (p.withBackend b)
    else if p.iterating then
      match p.dispatchNext D with
      | (.ok _, p) => outputsBottom iterator p
      | (.error e, p) => raise e p
    else .came .stopped (.finished, p)
  else .came .stopped (.finished, p)

def step : Generator α ε → GeneratorTurn α ε
  | (.sequential (.ok it), p) => sequentialTurn it p
  | (.sequential (.error e), p) => raise e p
  | (.sequentialYield rest, p) => sequentialTurn rest p.complete
  | (.outputs iterator, p) => outputsTurn D iterator p
  | (.outputsYield iterator, p) => outputsBottom iterator p.complete
  | (.finished, p) => .came .stopped (.finished, p)

/-! ### One turn of `_get_outputs` -/

section Outputs
variable {D} {iterator : Prefetch α ε} {p : Parallel α ε}

/-- With a result outstanding it retrieves. -/
theorem outputsTurn_retrieve (h : p.nCompletedTasks < p.nDispatchedTasks) :
    outputsTurn D iterator p =
      match p.backend.retrieve with
      | none => .blocked
      | some (.ok value, b) => .came (.yielded value) (.outputsYield iterator, p.withBackend b)
      | some (.error e, b) => raise e (p.withBackend b) := by
  unfold outputsTurn
  rw [if_pos (by simp [h]), if_pos h]

/-- With none, it dispatches while there is something to iterate over. -/
theorem outputsTurn_dispatch (h : ¬ p.nCompletedTasks < p.nDispatchedTasks) (hi : p.iterating = true) :
    outputsTurn D iterator p =
      match p.dispatchNext D with
      | (.ok _, p) => outputsBottom iterator p
      | (.error e, p) => raise e p := by
  unfold outputsTurn
  rw [if_pos (by simp [hi]), if_neg h, if_pos hi]

theorem outputsTurn_stop (h : ¬ p.nCompletedTasks < p.nDispatchedTasks) (hi : p.iterating = false) :
    outputsTurn D iterator p = .came .stopped (.finished, p) := by
  unfold outputsTurn
  rw [if_neg (by simp [h, hi])]

/-- The bottom of the loop goes round or raises, and writes nothing. -/
theorem outputsBottom_cases (iterator : Prefetch α ε) (p : Parallel α ε) :
    outputsBottom iterator p = .silent (.outputs iterator, p) ∨
      ∃ e, outputsBottom iterator p = raise e p := by
  unfold outputsBottom
  split
  · exact .inr ⟨_, rfl⟩
  · exact .inl rfl

theorem outputsBottom_running (iterator : Prefetch α ε) (h : p.aborting = false) :
    outputsBottom iterator p = .silent (.outputs iterator, p) := by
  unfold outputsBottom
  rw [h]
  rfl

theorem retrieve_cases {b b' : Backend α ε} {r : Except (Exc ε) α} (h : b.retrieve = some (r, b')) :
    ∃ task, b.submitted[b.retrieved]? = some task ∧ r = task.call ∧
      b' = {b with retrieved := b.retrieved + 1} := by
  obtain ⟨task, htask, heq⟩ := Option.map_eq_some_iff.mp h
  obtain ⟨rfl, rfl⟩ : task.call = r ∧ {b with retrieved := b.retrieved + 1} = b' := by simpa using heq
  exact ⟨task, htask, rfl, rfl⟩

variable (D iterator p) in
/-- Everything a turn from the head of the loop can do: wait, retrieve a value or an
exception, dispatch, raise what the dispatch let out, or end. -/
theorem outputsTurn_cases :
    outputsTurn D iterator p = .blocked ∨
      (∃ value, p.nCompletedTasks < p.nDispatchedTasks ∧
        outputsTurn D iterator p = .came (.yielded value) (.outputsYield iterator,
          p.withBackend {p.backend with retrieved := p.backend.retrieved + 1})) ∨
      (∃ e, p.nCompletedTasks < p.nDispatchedTasks ∧ outputsTurn D iterator p =
        raise e (p.withBackend {p.backend with retrieved := p.backend.retrieved + 1})) ∨
      outputsTurn D iterator p = .silent (.outputs iterator, (p.dispatchNext D).2) ∨
      (∃ e, outputsTurn D iterator p = raise e (p.dispatchNext D).2) ∨
      outputsTurn D iterator p = .came .stopped (.finished, p) := by
  by_cases hlt : p.nCompletedTasks < p.nDispatchedTasks
  · rw [outputsTurn_retrieve hlt]
    cases hr : p.backend.retrieve with
    | none => exact .inl rfl
    | some r =>
      obtain ⟨outcome, b⟩ := r
      obtain ⟨task, _, _, rfl⟩ := retrieve_cases hr
      cases outcome with
      | ok value => exact .inr (.inl ⟨value, hlt, rfl⟩)
      | error e => exact .inr (.inr (.inl ⟨e, hlt, rfl⟩))
  · by_cases hi : p.iterating = true
    · rw [outputsTurn_dispatch hlt hi]
      cases hd : p.dispatchNext D with
      | mk outcome q =>
        cases outcome with
        | ok more =>
          rcases outputsBottom_cases iterator q with hb | ⟨e, hb⟩
          · exact .inr (.inr (.inr (.inl hb)))
          · exact .inr (.inr (.inr (.inr (.inl ⟨e, hb⟩))))
        | error e => exact .inr (.inr (.inr (.inr (.inl ⟨e, rfl⟩))))
    · exact .inr (.inr (.inr (.inr (.inr (outputsTurn_stop hlt (Bool.eq_false_iff.mpr hi))))))

end Outputs

/-! ### What a turn may write -/

/-- Everything a generator's turn may write. -/
structure OnlyRuns (p q : Parallel α ε) : Prop where
  eq : q = { p with
    nCompletedTasks := q.nCompletedTasks
    nDispatchedTasks := q.nDispatchedTasks
    nDispatchedBatches := q.nDispatchedBatches
    backend := {p.backend with submitted := q.backend.submitted, retrieved := q.backend.retrieved}
    originalIterator := q.originalIterator
    iterating := q.iterating
    executed := q.executed }
  executed : p.executed <+: q.executed

theorem OnlyRuns.refl (p : Parallel α ε) : OnlyRuns p p := ⟨rfl, List.prefix_rfl⟩

theorem OnlyRuns.trans {p q r : Parallel α ε} (h : OnlyRuns p q) (h' : OnlyRuns q r) : OnlyRuns p r := by
  refine ⟨h'.eq.trans ?_, h.executed.trans h'.executed⟩
  rw [h.eq]

theorem OnlyRuns.returnAs {p q : Parallel α ε} (h : OnlyRuns p q) : q.returnAs = p.returnAs := by
  rw [h.eq]

theorem OnlyRuns.dispatchNext (p : Parallel α ε) : OnlyRuns p (p.dispatchNext D).2 := by
  have heq := (Parallel.dispatchNext_frame D p).eq
  refine ⟨heq.trans ?_, ?_⟩
  · rw [heq]
  · have hexecuted : (p.dispatchNext D).2.executed = p.executed := by rw [heq]
    exact ⟨[], (List.append_nil _).trans hexecuted.symm⟩

/-- **A turn writes the counters, the flag, the iterator and the two ends of the
backend's queue**, on either path, and nothing else. -/
theorem step_frame {g g' : Generator α ε} (h : (step D g).state = some g') : OnlyRuns g.2 g'.2 := by
  have hsequential : ∀ (rest : Iterator (Item α ε) ε) (p : Parallel α ε),
      (sequentialTurn rest p).state = some g' → OnlyRuns p g'.2 := by
    intro rest p h
    unfold sequentialTurn at h
    split at h
    · cases h
      exact .refl p
    · cases h
      exact .refl p
    · split at h <;>
      · cases h
        exact ⟨rfl, List.prefix_append _ _⟩
  have hcomplete : ∀ p : Parallel α ε, OnlyRuns p p.complete := fun p => ⟨rfl, List.prefix_rfl⟩
  obtain ⟨frame, p⟩ := g
  cases frame with
  | sequential iterable =>
    cases iterable with
    | ok it => exact hsequential it p h
    | error e =>
      cases h
      exact .refl p
  | sequentialYield rest => exact (hcomplete p).trans (hsequential rest _ h)
  | outputs iterator =>
    change (outputsTurn D iterator p).state = some g' at h
    rcases outputsTurn_cases D iterator p with hturn | ⟨_, _, hturn⟩ | ⟨_, _, hturn⟩ | hturn | ⟨_, hturn⟩ |
      hturn <;> rw [hturn] at h <;> cases h
    · exact ⟨rfl, List.prefix_rfl⟩
    · exact ⟨rfl, List.prefix_rfl⟩
    · exact .dispatchNext D p
    · exact .dispatchNext D p
    · exact .refl p
  | outputsYield iterator =>
    change (outputsBottom iterator p.complete).state = some g' at h
    rcases outputsBottom_cases iterator p.complete with hturn | ⟨_, hturn⟩ <;>
    · rw [hturn] at h
      cases h
      exact hcomplete p
  | finished =>
    cases h
    exact .refl p

theorem runs_trans {a b c : Generator α ε} (h : OnlyRuns a.2 b.2) (h' : OnlyRuns b.2 c.2) :
    OnlyRuns a.2 c.2 :=
  h.trans h'

/-- And so does everything it does until it comes back, or until it is drained. -/
theorem next_frame {n : Nat} {g g' : Generator α ε} {event : Resumable.Event α (Exc ε)}
    (h : Resumable.next (step D) n g = some (event, g')) : OnlyRuns g.2 g'.2 :=
  Resumable.next_relates (R := fun a b => OnlyRuns a.2 b.2) runs_trans (fun h => step_frame D h) h

theorem drain_frame {n : Nat} {g g' : Generator α ε} {d : Resumable.Drained α (Exc ε)}
    (h : Resumable.drain (step D) n g = some (d, g')) : OnlyRuns g.2 g'.2 :=
  Resumable.drain_relates (R := fun a b => OnlyRuns a.2 b.2) runs_trans (fun h => step_frame D h) h

end Generator

end Joblib
