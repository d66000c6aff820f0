import Mathlib.Data.Finset.Card
import Mathlib.Data.Finset.Range
import Joblib.Threads.Termination
import Joblib.Threads.Window

/-! A concurrent call comes to its end under every schedule.

The main thread, the backend and the callbacks may take their steps in any order, the callbacks
of earlier calls among them. `remaining` falls at each of these steps (`Busy.step`): a batch costs
its completion and the two blocks of its callback, which the task it takes pays for; the loop
goes round once for each result, for each batch it dispatches itself and once more to find the
iterator exhausted. A tracker may have cleared the flag by then, so what counts is not the flag but
whether the loop can still find it up (`armed`).

And it cannot get stuck: while it is neither done nor waiting for the backend something can move,
and where it waits for a result once every batch is completed there is one to be had
(`call_ends`). No step has to be timely for that. -/
namespace Joblib.System

variable {α ε : Type} {host : Host α ε} {s t : System α ε} {taken rest : List (Item α ε)}

/-- What the main thread may rely on at each of its points, however untimely the trackers are. -/
def Place (completed dispatched : Nat) : Pc → Prop
  | .loopIterating | .loopCompleted | .ifCompleted | .elseIterating | .dispatching | .clearing | .bottom
  | .finished => completed ≤ dispatched
  | .loopDispatched c | .ifDispatched c => c = completed ∧ completed ≤ dispatched
  | .retrieving | .suspended | .counting | .raised => completed < dispatched
  | _ => False

theorem Place.inCall {completed dispatched : Nat} {pc : Pc} (h : Place completed dispatched pc) : InCall pc := by
  cases pc <;> simp_all [Place, InCall, Pc.inLoop]

theorem Place.submit {completed dispatched : Nat} {pc : Pc} (n : Nat) (h : Place completed dispatched pc) :
    Place completed (dispatched + n) pc := by
  cases pc <;> simp only [Place] at h ⊢ <;> omega

/-- Whether the loop is still to find the flag up and nothing left. -/
def armed (iterating : Bool) : Pc → Nat
  | .dispatching | .clearing => 1
  | _ => iterating.toNat

theorem armed_le (iterating : Bool) (pc : Pc) : iterating.toNat ≤ armed iterating pc ∧ armed iterating pc ≤ 1 := by
  cases iterating <;> cases pc <;> simp [armed]

theorem armed_false_le (iterating : Bool) (pc : Pc) : armed false pc ≤ armed iterating pc := by
  cases iterating <;> cases pc <;> simp [armed]

/-- The loop that began in `s₀` has had the tasks `taken` dispatched, and `rest` is to come. -/
structure Running (s₀ : System α ε) (taken rest : List (Item α ε)) (s : System α ε) : Prop where
  aborting : s.parallel.aborting = false
  iterator : s.parallel.originalIterator = some (.ofList rest)
  place : Place s.parallel.nCompletedTasks s.parallel.nDispatchedTasks s.main
  dispatched : s.parallel.nDispatchedTasks = taken.length
  submitted : s.parallel.backend.submitted = s₀.parallel.backend.submitted ++ taken
  retrieved : s.parallel.backend.retrieved =
    s₀.parallel.backend.retrieved + s.parallel.nCompletedTasks + uncounted s.main

theorem AtHead.running {ts : List (Item α ε)} (h : AtHead s ts) : Running s [] ts s where
  aborting := h.aborting
  iterator := h.iterator
  place := by
    rw [h.main, h.nCompletedTasks]
    exact Nat.zero_le _
  dispatched := h.nDispatchedTasks
  submitted := (List.append_nil _).symm
  retrieved := by
    rw [h.main, h.nCompletedTasks]
    rfl

/-- The steps the main thread has before it, `left` tasks being left to dispatch. -/
def work (left : Nat) (s : System α ε) : Nat :=
  9 * (s.parallel.nDispatchedTasks - s.parallel.nCompletedTasks + 2 * left + armed s.parallel.iterating s.main) +
    toGo s.main

/-- A step that sends nothing, and leaves `spent` less to do. -/
structure Rests (s₀ : System α ε) (taken rest : List (Item α ε)) (s : System α ε) (spent : Nat) (t : System α ε) :
    Prop where
  running : Running s₀ taken rest t
  work : work rest.length t + spent ≤ work rest.length s

/-- A batch sent, and at most `gained` more to do but for its tasks, which counted twice. -/
structure SendsOn (s₀ : System α ε) (taken batch left : List (Item α ε)) (s : System α ε) (gained : Nat)
    (t : System α ε) : Prop where
  sends : batch ≠ []
  running : Running s₀ (taken ++ batch) left t
  work : work left.length t + 9 * batch.length ≤ work (batch ++ left).length s + gained

section Steps
variable {s₀ : System α ε}

/-- A step that only reads comes nearer to the next turn. -/
theorem Running.goes {pc : Pc} (h : Running s₀ taken rest s) (hgoes : Goes s.parallel s.main pc) :
    Rests s₀ taken rest s 1 (s.goto pc) := by
  have hplace := h.place
  have hraising : s.main ≠ .raising := by
    intro hmain
    rw [hmain] at hplace
    exact hplace.elim
  have hnearer := hgoes.toGo_lt h.aborting hraising
  have haborting := h.aborting
  have hsame : uncounted pc = uncounted s.main ∧ armed s.parallel.iterating pc = armed s.parallel.iterating s.main ∧
      Place s.parallel.nCompletedTasks s.parallel.nDispatchedTasks pc := by
    generalize s.main = before at hgoes hraising hplace
    cases hgoes <;> simp_all [uncounted, armed, Place]
  obtain ⟨huncounted, harmed, hplace'⟩ := hsame
  refine ⟨⟨h.aborting, h.iterator, hplace', h.dispatched, h.submitted, ?_⟩, ?_⟩
  · simp only [goto, huncounted]
    exact h.retrieved
  · simp only [System.work, goto, harmed]
    omega

/-- A batch sent, the main thread where it was. -/
theorem Running.sent {batch left : List (Item α ε)} (h : Running s₀ taken (batch ++ left) s) (hne : batch ≠ []) :
    SendsOn s₀ taken batch left s 0 (s.sent batch left) := by
  have hdispatched : (s.sent batch left).parallel.nDispatchedTasks = s.parallel.nDispatchedTasks + batch.length := rfl
  refine ⟨hne, ⟨h.aborting, rfl, h.place.submit batch.length, ?_, ?_, h.retrieved⟩, ?_⟩
  · rw [hdispatched, h.dispatched, List.length_append]
  · rw [← List.append_assoc, ← h.submitted]
    rfl
  · have hwork : System.work left.length (s.sent batch left) =
        9 * (s.parallel.nDispatchedTasks + batch.length - s.parallel.nCompletedTasks + 2 * left.length +
          armed s.parallel.iterating s.main) + toGo s.main := rfl
    rw [hwork, List.length_append]
    simp only [System.work]
    omega

variable (host) in
theorem Running.mainDispatch (h : Running s₀ taken rest s) (hmain : s.main = .dispatching) :
    (s.mainDispatch host = s.goto .clearing ∧ Rests s₀ taken rest s 1 (s.goto .clearing)) ∨
      ∃ batch left, rest = batch ++ left ∧ s.mainDispatch host = (s.sent batch left).goto .bottom ∧
      SendsOn s₀ taken batch left s 7 ((s.sent batch left).goto .bottom) := by
  have hplace := h.place
  have hretrieved := h.retrieved
  rw [hmain] at hplace hretrieved
  rcases mainDispatch_ofList host h.iterator with ⟨rfl, hrun⟩ | ⟨batch, left, hne, rfl, hrun⟩
  · refine .inl ⟨hrun, ⟨h.aborting, h.iterator, hplace, h.dispatched, h.submitted, hretrieved⟩, ?_⟩
    simp only [System.work, goto, hmain, toGo, armed]
    omega
  · obtain ⟨_, hrunning, hwork⟩ := h.sent hne
    refine .inr ⟨batch, left, rfl, hrun, hne,
      ⟨h.aborting, rfl, ?_, hrunning.dispatched, hrunning.submitted, hretrieved⟩, ?_⟩
    · exact Nat.le_trans hplace (Nat.le_add_right _ _)
    · have harmed := armed_le s.parallel.iterating .bottom
      have hbefore : System.work left.length (s.sent batch left) =
        9 * (s.parallel.nDispatchedTasks + batch.length - s.parallel.nCompletedTasks + 2 * left.length + 1) + 1 := by
        simp only [System.work, System.sent, sentParallel, Parallel.submit, hmain, armed, toGo]
      have hafter : System.work left.length ((s.sent batch left).goto .bottom) =
        9 * (s.parallel.nDispatchedTasks + batch.length - s.parallel.nCompletedTasks + 2 * left.length +
          armed s.parallel.iterating .bottom) + 8 := rfl
      omega

/-- The main thread either dispatches a batch or comes nearer to the end. -/
theorem Running.mainStep (h : Running s₀ taken rest s) (ht : s.mainStep host = some t) :
    (Rests s₀ taken rest s 1 t ∧ t.trackers = s.trackers ∧ t.idCall = s.idCall) ∨ ∃ batch left, rest = batch ++ left ∧
      t = (s.sent batch left).goto .bottom ∧ SendsOn s₀ taken batch left s 7 t := by
  have hplace := h.place
  have hretrieved := h.retrieved
  cases mainStep_loop hplace.inCall ht with
  | goes hgoes => exact .inl ⟨h.goes hgoes, rfl, rfl⟩
  | counts hmain =>
    rw [hmain] at hplace hretrieved
    have hless : s.parallel.nCompletedTasks < s.parallel.nDispatchedTasks := hplace
    refine .inl ⟨⟨⟨h.aborting, h.iterator, hless, h.dispatched, h.submitted, hretrieved⟩, ?_⟩, rfl, rfl⟩
    simp only [System.work, Parallel.complete, hmain, toGo, armed]
    omega
  | clears hmain =>
    rw [hmain] at hplace hretrieved
    refine .inl ⟨⟨⟨h.aborting, h.iterator, hplace, h.dispatched, h.submitted, hretrieved⟩, ?_⟩, rfl, rfl⟩
    simp only [System.work, hmain, toGo, armed, Bool.toNat_false]
    omega
  | dispatches hmain =>
    rcases h.mainDispatch host hmain with ⟨heq, hrests⟩ | ⟨batch, left, hrest, heq, hsends⟩
    · rw [heq]
      exact .inl ⟨hrests, rfl, rfl⟩
    · exact .inr ⟨batch, left, hrest, heq, heq ▸ hsends⟩

/-- A result comes, or raises. -/
theorem Running.retrieve {raises : Bool} (h : Running s₀ taken rest s)
    (ht : s.step host (.retrieve raises) = some t) :
    Rests s₀ taken rest s 1 t ∧ t.trackers = s.trackers ∧ t.idCall = s.idCall := by
  obtain ⟨hmain, rfl⟩ := step_retrieve ht
  have hplace := h.place
  have hretrieved := h.retrieved
  rw [hmain] at hplace hretrieved
  refine ⟨⟨⟨h.aborting, h.iterator, ?_, h.dispatched, h.submitted, ?_⟩, ?_⟩, rfl, rfl⟩
  · cases raises <;> exact hplace
  · cases raises <;> exact congrArg (· + 1) hretrieved
  · cases raises <;>
    · simp only [System.work, Parallel.withBackend, hmain, toGo, armed]
      simp

/-- A tracker's `_dispatch_new` sends the next batch, or finds nothing left. -/
theorem Running.dispatchedNew (h : Running s₀ taken rest s) (i : Nat) (tracker : Tracker α ε) :
    (∃ t, s.dispatchedNew host i tracker = t.settle i tracker ∧ Rests s₀ taken rest s 0 t ∧
        t.trackers = s.trackers ∧ t.idCall = s.idCall) ∨
      ∃ batch left t, rest = batch ++ left ∧ s.dispatchedNew host i tracker = t.settle i tracker ∧
        SendsOn s₀ taken batch left s 0 t ∧ t.trackers = (s.sent batch left).trackers ∧ t.idCall = s.idCall := by
  rcases dispatchedNew_ofList host h.aborting h.iterator i tracker with
    ⟨rfl, hrun⟩ | ⟨batch, left, hne, rfl, hrun⟩
  · refine .inl ⟨{s with parallel := {s.parallel with iterating := false}, dispatches := s.dispatches + 1}, hrun,
      ⟨⟨h.aborting, h.iterator, h.place, h.dispatched, h.submitted, h.retrieved⟩, ?_⟩, rfl, rfl⟩
    have harmed := armed_false_le s.parallel.iterating s.main
    simp only [System.work]
    omega
  · obtain ⟨_, hrunning, hwork⟩ := h.sent hne
    exact .inr ⟨batch, left, {s.sent batch left with dispatches := s.dispatches + 1}, rfl, hrun,
      ⟨hne, ⟨hrunning.aborting, hrunning.iterator, hrunning.place, hrunning.dispatched, hrunning.submitted,
        hrunning.retrieved⟩, hwork⟩, rfl, rfl⟩

/-- The first block of a tracker. -/
theorem Running.entered (h : Running s₀ taken rest s) (i : Nat) (tracker : Tracker α ε) (success : Bool)
    (result : Obj α ε) : Rests s₀ taken rest s 0 (s.entered i tracker success result) := by
  obtain ⟨jobs, hparallel⟩ := s.entered_parallel i tracker success result
  refine ⟨⟨?_, ?_, ?_, ?_, ?_, ?_⟩, ?_⟩
  · rw [hparallel]
    exact h.aborting
  · rw [hparallel]
    exact h.iterator
  · rw [hparallel]
    exact h.place
  · rw [hparallel]
    exact h.dispatched
  · rw [hparallel]
    exact h.submitted
  · rw [hparallel]
    exact h.retrieved
  · simp only [System.work, hparallel]
    exact Nat.le_refl _

end Steps

/-- A tracker is invoked where it waits, and dispatches where it has been. -/
theorem step_enter_waiting {i : Nat} {success : Bool} {result : Obj α ε}
    (h : s.step host (.enter i success result) = some t) :
    ∃ tracker, s.trackers[i]? = some tracker ∧ tracker.pc = .waiting ∧ t = s.entered i tracker success result := by
  obtain ⟨tracker, htracker, rfl⟩ := step_enter h
  refine ⟨tracker, htracker, ?_, rfl⟩
  simp only [System.step, htracker] at h
  by_contra hpc
  rw [if_neg hpc] at h
  cases h

theorem step_dispatchNew_dispatching {i : Nat} (h : s.step host (.dispatchNew i) = some t) :
    ∃ tracker, s.trackers[i]? = some tracker ∧ tracker.pc = .dispatching ∧ t = s.dispatchedNew host i tracker := by
  obtain ⟨tracker, htracker, rfl⟩ := step_dispatchNew h
  refine ⟨tracker, htracker, ?_, rfl⟩
  simp only [System.step, htracker] at h
  by_contra hpc
  rw [if_neg hpc] at h
  cases h

end Joblib.System

namespace Joblib.Window
open Joblib.System (Running Rests SendsOn AtHead)

variable {α ε : Type} {host : Host α ε} {w v : Window α ε} {s t : System α ε} {taken rest : List (Item α ε)}

/-! ### Batches and callbacks -/

/-- The batches of the call that the backend has not completed. -/
def outstanding (s : System α ε) (completed : List Nat) : Finset Nat :=
  (Finset.range s.trackers.length).filter fun i => ofCall s i = true ∧ i ∉ completed

/-- The blocks the callback of a tracker still has to run. -/
def blocks (s : System α ε) (i : Nat) : Nat := if inside s i then 1 else 2

/-- Those of all the callbacks that are owed. -/
def debt (s : System α ε) : List Nat → Nat
  | [] => 0
  | i :: pending => blocks s i + debt s pending

theorem blocks_le (s : System α ε) (i : Nat) : 1 ≤ blocks s i ∧ blocks s i ≤ 2 := by
  unfold blocks
  split <;> omega

theorem debt_le (s : System α ε) (pending : List Nat) : debt s pending ≤ 2 * pending.length := by
  induction pending with
  | nil => exact Nat.le_refl 0
  | cons i pending ih =>
    have hblocks := blocks_le s i
    simp only [debt, List.length_cons]
    omega

theorem debt_congr {pending : List Nat} (h : ∀ i ∈ pending, blocks t i = blocks s i) :
    debt t pending = debt s pending := by
  induction pending with
  | nil => rfl
  | cons i pending ih =>
    have hrest := ih fun j hj => h j (List.mem_cons_of_mem i hj)
    simp only [debt, h i (List.mem_cons_self ..), hrest]

/-- A callback that is paid off takes its blocks with it. -/
theorem debt_erase {i : Nat} {pending : List Nat} (h : i ∈ pending) :
    debt s (pending.erase i) + blocks s i = debt s pending := by
  induction pending with
  | nil => cases h
  | cons j pending ih =>
    by_cases hji : j = i
    · subst hji
      simp only [List.erase_cons_head, debt]
      omega
    · have hrest := ih (List.mem_of_ne_of_mem (Ne.symm hji) h)
      rw [List.erase_cons_tail (by simpa using hji)]
      simp only [debt]
      omega

theorem mem_outstanding {completed : List Nat} {i : Nat} :
    i ∈ outstanding s completed ↔ ofCall s i = true ∧ i ∉ completed := by
  simp only [outstanding, Finset.mem_filter, Finset.mem_range, and_iff_right_iff_imp]
  rintro ⟨hcall, _⟩
  by_contra hout
  simp [ofCall, List.getElem?_eq_none (Nat.le_of_not_lt hout)] at hcall

section Trackers
variable {i : Nat} {tracker tracker' : Tracker α ε}

/-- Writing over a tracker keeps the call it is of, -/
theorem ofCall_set (hi : s.trackers[i]? = some tracker) (hset : t.trackers = s.trackers.set i tracker')
    (hcall : tracker'.call = tracker.call) (hid : t.idCall = s.idCall) (j : Nat) : ofCall t j = ofCall s j := by
  simp only [ofCall, hset, hid, List.getElem?_set]
  by_cases hij : i = j
  · subst hij
    obtain ⟨hlt, rfl⟩ := List.getElem?_eq_some_iff.mp hi
    simp [hlt, hcall]
  · simp [hij]

/-- and the points of the others. -/
theorem blocks_set (hset : t.trackers = s.trackers.set i tracker') {j : Nat} (hij : j ≠ i) :
    blocks t j = blocks s j := by
  have hinside : inside t j = inside s j := by simp only [inside, hset, List.getElem?_set_ne hij.symm]
  simp only [blocks, hinside]

theorem blocks_self (hi : s.trackers[i]? = some tracker) :
    blocks s i = if tracker.pc = .dispatching then 1 else 2 := by
  simp [blocks, inside, hi]

theorem outstanding_congr {completed : List Nat} (h : ∀ i, ofCall t i = ofCall s i) :
    outstanding t completed = outstanding s completed := by
  ext i
  rw [mem_outstanding, mem_outstanding, h i]

/-- A tracker more, waiting, is of the call and outstanding, and changes nothing else. -/
theorem ofCall_append {j : Nat} (happend : t.trackers = s.trackers ++ [tracker]) (hid : t.idCall = s.idCall)
    (hj : j ≠ s.trackers.length) : ofCall t j = ofCall s j := by
  simp only [ofCall, happend, hid]
  rcases Nat.lt_or_ge j s.trackers.length with hlt | hge
  · rw [List.getElem?_append_left hlt]
  · rw [List.getElem?_eq_none hge, List.getElem?_eq_none (by simp; omega)]

theorem blocks_append {j : Nat} (happend : t.trackers = s.trackers ++ [tracker]) (hpc : tracker.pc = .waiting) :
    blocks t j = blocks s j := by
  have hinside : inside t j = inside s j := by
    simp only [inside, happend]
    rcases Nat.lt_trichotomy j s.trackers.length with hlt | rfl | hgt
    · rw [List.getElem?_append_left hlt]
    · simp [hpc]
    · rw [List.getElem?_eq_none (Nat.le_of_lt hgt), List.getElem?_eq_none (by simp; omega)]
  simp only [blocks, hinside]

theorem outstanding_append (completed : List Nat) (happend : t.trackers = s.trackers ++ [tracker])
    (hid : t.idCall = s.idCall) : (outstanding t completed).card ≤ (outstanding s completed).card + 1 := by
  refine Nat.le_trans (Finset.card_le_card ?_) (Finset.card_insert_le s.trackers.length (outstanding s completed))
  intro j hj
  by_cases hlast : j = s.trackers.length
  · exact Finset.mem_insert.mpr (.inl hlast)
  · rw [mem_outstanding, ofCall_append happend hid hlast] at hj
    exact Finset.mem_insert_of_mem (mem_outstanding.mpr hj)

end Trackers

/-! ### Steps -/

/-- The loop is running or has ended, its batches and callbacks accounted for: no callback is owed
twice or before its batch is completed, and what has been dispatched is in some batch of the call. -/
structure Busy (w₀ : Window α ε) (taken rest : List (Item α ε)) (w : Window α ε) : Prop where
  running : Running w₀.system taken rest w.system
  once : w.pending.Nodup
  after : w.pending ⊆ w.completed
  known : ∀ i ∈ w.pending, i < w.system.trackers.length
  tracked : taken ≠ [] → ∃ i, ofCall w.system i = true

/-- All that is still to be done. -/
def remaining (left : Nat) (w : Window α ε) : Nat :=
  System.work left w.system + 3 * left + 3 * (outstanding w.system w.completed).card + debt w.system w.pending

/-- What a step leaves of the tasks left, and of all that is to be done: less by `n`. -/
def Falls (w₀ : Window α ε) (taken rest : List (Item α ε)) (w : Window α ε) (n : Nat) (v : Window α ε) : Prop :=
  ∃ batch left, rest = batch ++ left ∧ Busy w₀ (taken ++ batch) left v ∧
    remaining left.length v + n ≤ remaining rest.length w

section Steps
variable {w₀ : Window α ε} {n : Nat}

/-- A step that sends nothing. -/
theorem Falls.same (h : Busy w₀ taken rest v) (hless : remaining rest.length v + n ≤ remaining rest.length w) :
    Falls w₀ taken rest w n v :=
  ⟨[], rest, rfl, (List.append_nil taken).symm ▸ h, hless⟩

/-- The main thread, the backend or a callback moves on, and sends nothing. -/
theorem Busy.quiet (h : Busy w₀ taken rest w) (hrests : Rests w₀.system taken rest w.system n t)
    (htrackers : t.trackers = w.system.trackers) (hid : t.idCall = w.system.idCall) :
    Falls w₀ taken rest w n {w with system := t} := by
  have hcall : ∀ i, ofCall t i = ofCall w.system i := fun i => by simp only [ofCall, htrackers, hid]
  have hinside : ∀ i, inside t i = inside w.system i := fun i => by simp only [inside, htrackers]
  have hdebt : debt t w.pending = debt w.system w.pending :=
    debt_congr fun i _ => by simp only [blocks, hinside]
  refine .same ⟨hrests.running, h.once, h.after, ?_, fun htaken => ?_⟩ ?_
  · rw [htrackers]
    exact h.known
  · obtain ⟨i, hi⟩ := h.tracked htaken
    exact ⟨i, (hcall i).trans hi⟩
  · have hwork := hrests.work
    simp only [remaining, outstanding_congr hcall, hdebt]
    omega

/-- A batch more and its tracker: the tasks it takes make up for what it costs. -/
theorem Busy.sent {batch left : List (Item α ε)} {tracker : Tracker α ε} {gained : Nat}
    (h : Busy w₀ taken (batch ++ left) w) (hsends : SendsOn w₀.system taken batch left w.system gained t)
    (hgained : gained ≤ 7) (happend : t.trackers = w.system.trackers ++ [tracker]) (hid : t.idCall = w.system.idCall)
    (hcall : tracker.call = w.system.idCall) (hpc : tracker.pc = .waiting) :
    Falls w₀ taken (batch ++ left) w 1 {w with system := t} := by
  have hpos : 0 < batch.length := List.length_pos_iff.mpr hsends.sends
  refine ⟨batch, left, rfl, ⟨hsends.running, h.once, h.after, fun i hi => ?_, fun _ => ?_⟩, ?_⟩
  · rw [happend, List.length_append]
    exact Nat.lt_add_right _ (h.known i hi)
  · refine ⟨w.system.trackers.length, ?_⟩
    simp [ofCall, happend, hid, hcall]
  · have hwork := hsends.work
    have hcard := outstanding_append w.completed happend hid
    have hdebt : debt t w.pending = debt w.system w.pending := debt_congr fun i _ => blocks_append happend hpc
    rw [List.length_append] at hwork ⊢
    simp only [remaining, hdebt]
    omega

theorem Busy.mainStep (h : Busy w₀ taken rest w) (ht : w.system.mainStep host = some t) :
    Falls w₀ taken rest w 1 {w with system := t} := by
  rcases h.running.mainStep ht with ⟨hrests, htrackers, hid⟩ | ⟨batch, left, rfl, rfl, hsends⟩
  · exact h.quiet hrests htrackers hid
  · exact h.sent hsends (Nat.le_refl 7) rfl rfl rfl rfl

/-- The backend has completed a batch: its callback is owed. -/
theorem Busy.completes {i : Nat} (h : Busy w₀ taken rest w) (hstep : w.step host (.completes i) = some v) :
    Falls w₀ taken rest w 1 v := by
  obtain ⟨hcall, hnot⟩ : ofCall w.system i = true ∧ i ∉ w.completed := by
    simp only [step] at hstep
    split at hstep
    next hready => simpa using hready
    next => cases hstep
  obtain rfl := step_completes hstep
  have hmem : i ∈ outstanding w.system w.completed := mem_outstanding.mpr ⟨hcall, hnot⟩
  have herase : outstanding w.system (i :: w.completed) = (outstanding w.system w.completed).erase i := by
    ext j
    simp only [mem_outstanding, Finset.mem_erase, List.mem_cons, not_or]
    exact and_left_comm
  refine .same ⟨h.running, ?_, ?_, ?_, h.tracked⟩ ?_
  · exact List.nodup_cons.mpr ⟨fun hi => hnot (h.after hi), h.once⟩
  · exact List.cons_subset_cons i h.after
  · intro j hj
    rcases List.mem_cons.mp hj with rfl | hj
    · exact (Finset.mem_range.mp (Finset.mem_filter.mp hmem).1)
    · exact h.known j hj
  · have hcard := Finset.card_erase_of_mem hmem
    have hpos := Finset.card_pos.mpr ⟨i, hmem⟩
    have hblocks := blocks_le w.system i
    have hdebt : debt w.system (i :: w.pending) = blocks w.system i + debt w.system w.pending := rfl
    simp only [remaining, herase, hdebt]
    omega

/-- A callback writes over its tracker, and has fewer blocks to run. -/
theorem Busy.written {i : Nat} {tracker tracker' : Tracker α ε} {owed : List Nat} (h : Busy w₀ taken rest w)
    (hi : w.system.trackers[i]? = some tracker) (hset : t.trackers = w.system.trackers.set i tracker')
    (hcall : tracker'.call = tracker.call) (hid : t.idCall = w.system.idCall)
    (hrests : Rests w₀.system taken rest w.system 0 t) (howed : owed.Sublist w.pending)
    (hless : debt t owed + 1 ≤ debt w.system w.pending) : Falls w₀ taken rest w 1 ⟨t, w.completed, owed⟩ := by
  have hofCall := ofCall_set hi hset hcall hid
  refine .same ⟨hrests.running, h.once.sublist howed, fun j hj => h.after (howed.subset hj), fun j hj => ?_,
    fun htaken => ?_⟩ ?_
  · rw [hset, List.length_set]
    exact h.known j (howed.subset hj)
  · obtain ⟨j, hj⟩ := h.tracked htaken
    exact ⟨j, (hofCall j).trans hj⟩
  · have hwork := hrests.work
    simp only [remaining, outstanding_congr hofCall]
    omega

/-- One step after another. -/
theorem Falls.trans {m : Nat} {u : Window α ε} (h : Falls w₀ taken rest w n u)
    (h' : ∀ taken rest, Busy w₀ taken rest u → Falls w₀ taken rest u m v) : Falls w₀ taken rest w (n + m) v := by
  obtain ⟨batch, left, rfl, hbusy, hless⟩ := h
  obtain ⟨batch', left', rfl, hbusy', hless'⟩ := h' _ _ hbusy
  refine ⟨batch ++ batch', left', (List.append_assoc ..).symm, List.append_assoc taken .. ▸ hbusy', ?_⟩
  omega

theorem Falls.le {m : Nat} (h : Falls w₀ taken rest w n v) (hm : m ≤ n) : Falls w₀ taken rest w m v := by
  obtain ⟨batch, left, hrest, hbusy, hless⟩ := h
  exact ⟨batch, left, hrest, hbusy, by omega⟩

/-- The other callbacks have as much to do as before. -/
theorem debt_set {i : Nat} {tracker : Tracker α ε} {pending : List Nat} (hset : t.trackers = s.trackers.set i tracker)
    (hnodup : pending.Nodup) : debt t (pending.erase i) = debt s (pending.erase i) :=
  debt_congr fun _ hj => blocks_set hset fun heq => hnodup.not_mem_erase (heq ▸ hj)

theorem Busy.enter {i : Nat} {success : Bool} {result : Obj α ε} (h : Busy w₀ taken rest w) (hmem : i ∈ w.pending)
    (ht : w.system.step host (.enter i success result) = some t) :
    Falls w₀ taken rest w 1 ⟨t, w.completed, w.owed t (.enter i success result)⟩ := by
  obtain ⟨tracker, htracker, hpc, rfl⟩ := System.step_enter_waiting ht
  have hrests := h.running.entered i tracker success result
  have hsame := debt_set (t := w.system.entered i tracker success result) rfl h.once
  have hbefore := debt_erase (s := w.system) hmem
  have htwo : blocks w.system i = 2 := by simp [blocks_self htracker, hpc]
  simp only [owed]
  split
  next hinside =>
    -- it goes on to its second block
    refine h.written htracker rfl rfl rfl hrests (List.Sublist.refl _) ?_
    have hafter := debt_erase (s := w.system.entered i tracker success result) hmem
    have hone : blocks (w.system.entered i tracker success result) i = 1 := by simp [blocks, hinside]
    omega
  next =>
    refine h.written htracker rfl rfl rfl hrests List.erase_sublist ?_
    omega

theorem Busy.dispatchNew {i : Nat} (h : Busy w₀ taken rest w) (hmem : i ∈ w.pending)
    (ht : w.system.step host (.dispatchNew i) = some t) :
    Falls w₀ taken rest w 1 ⟨t, w.completed, w.owed t (.dispatchNew i)⟩ := by
  obtain ⟨tracker, htracker, _, rfl⟩ := System.step_dispatchNew_dispatching ht
  -- once the batch is sent, or none was left, the tracker is paid off
  have hsettles : ∀ u : System α ε, u.trackers[i]? = some tracker → ∀ taken rest, Busy w₀ taken rest {w with system := u} →
      Falls w₀ taken rest {w with system := u} 1 ⟨u.settle i tracker, w.completed, w.pending.erase i⟩ := by
    intro u hu taken rest hbusy
    have hrests : Rests w₀.system taken rest u 0 (u.settle i tracker) :=
      ⟨⟨hbusy.running.aborting, hbusy.running.iterator, hbusy.running.place, hbusy.running.dispatched,
        hbusy.running.submitted, hbusy.running.retrieved⟩, Nat.le_refl _⟩
    refine hbusy.written hu rfl rfl rfl hrests List.erase_sublist ?_
    have hsame := debt_set (s := u) (t := u.settle i tracker) rfl h.once
    have hbefore := debt_erase (s := u) hmem
    have hblocks := blocks_le u i
    show debt (u.settle i tracker) (w.pending.erase i) + 1 ≤ debt u w.pending
    omega
  rcases h.running.dispatchedNew i tracker with ⟨u, heq, hrests, htrackers, hid⟩ |
    ⟨batch, left, u, rfl, heq, hsends, htrackers, hid⟩
  · rw [heq]
    exact (h.quiet hrests htrackers hid).trans (hsettles u (htrackers ▸ htracker))
  · rw [heq]
    have hold : u.trackers[i]? = some tracker := by
      rw [htrackers]
      exact (List.getElem?_append_left (List.getElem?_eq_some_iff.mp htracker).1).trans htracker
    have hfalls := (h.sent hsends (Nat.zero_le 7) htrackers hid rfl rfl).trans (hsettles u hold)
    exact hfalls.le (Nat.le_add_left 1 1)

/-- **Every step comes nearer to the end.** -/
theorem Busy.step {e : Event α ε} (h : Busy w₀ taken rest w) (hstep : w.step host e = some v)
    (hundisturbed : Undisturbed e) : Falls w₀ taken rest w 1 v := by
  cases e with
  | completes i => exact h.completes hstep
  | acts a =>
    obtain ⟨hadmits, t, ht, rfl⟩ := step_acts hstep
    cases a with
    | start iterable => exact hundisturbed.elim
    | abort => exact hundisturbed.elim
    | main => exact h.mainStep ht
    | retrieve raises =>
      obtain ⟨hrests, htrackers, hid⟩ := h.running.retrieve ht
      exact h.quiet hrests htrackers hid
    | enter i success result => exact h.enter (by simpa [admits] using hadmits) ht
    | dispatchNew i => exact h.dispatchNew (by simpa [admits] using hadmits) ht

end Steps

/-! ### Runs -/

/-- The loop begins on `ts`. Callbacks of earlier calls may be owed, each once, their batches completed. -/
structure Begins (w : Window α ε) (ts : List (Item α ε)) : Prop where
  head : AtHead w.system ts
  once : w.pending.Nodup
  after : w.pending ⊆ w.completed
  known : ∀ i ∈ w.pending, i < w.system.trackers.length
  backend : w.system.parallel.backend.retrieved ≤ w.system.parallel.backend.submitted.length

theorem Begins.busy {ts : List (Item α ε)} (h : Begins w ts) : Busy w [] ts w where
  running := h.head.running
  once := h.once
  after := h.after
  known := h.known
  tracked hne := absurd rfl hne

/-- Something other than a retrieval can happen. -/
def Moves (host : Host α ε) (v : Window α ε) : Prop :=
  ∃ e, Undisturbed e ∧ (∀ raises, e ≠ .acts (.retrieve raises)) ∧ (v.step host e).isSome = true

/-- Every batch of the call is completed and no callback is owed. -/
def Settled (v : Window α ε) : Prop := outstanding v.system v.completed = ∅ ∧ v.pending = []

/-- The loop waits for a result, and one may come. -/
def Ready (host : Host α ε) (v : Window α ε) : Prop :=
  v.system.main = .retrieving ∧ ∀ raises, (v.step host (.acts (.retrieve raises))).isSome = true

theorem Moves.owed {i : Nat} (hi : i ∈ v.pending) (hlt : i < v.system.trackers.length) : Moves host v := by
  have htracker := List.getElem?_eq_getElem hlt
  cases hpc : v.system.trackers[i].pc with
  | waiting =>
    refine ⟨.acts (.enter i true (.exception .stopIteration)), trivial, by simp, ?_⟩
    simp [step, admits, hi, System.step, htracker, hpc]
  | dispatching =>
    refine ⟨.acts (.dispatchNew i), trivial, by simp, ?_⟩
    simp [step, admits, hi, System.step, htracker, hpc]

theorem Moves.outstanding {i : Nat} (hi : i ∈ outstanding v.system v.completed) : Moves host v := by
  obtain ⟨hcall, hnot⟩ := mem_outstanding.mp hi
  refine ⟨.completes i, trivial, by simp, ?_⟩
  simp [step, hcall, hnot]

/-- **It can go on, or is settled** with a result to be had or the call at its end. -/
theorem Busy.goes_on {w₀ : Window α ε} (h : Busy w₀ taken rest v) (host : Host α ε)
    (hbackend : w₀.system.parallel.backend.retrieved ≤ w₀.system.parallel.backend.submitted.length) :
    Moves host v ∨ Settled v ∧ (Ready host v ∨ v.system.main = .finished ∨ v.system.main = .raised) := by
  rcases Finset.eq_empty_or_nonempty (outstanding v.system v.completed) with hnone | ⟨i, hi⟩
  case inr => exact .inl (.outstanding hi)
  cases hpending : v.pending with
  | cons i pending =>
    have hi : i ∈ v.pending := by simp [hpending]
    exact .inl (.owed hi (h.known i hi))
  | nil =>
    have hplace := h.running.place
    have hsettled : Settled v := ⟨hnone, hpending⟩
    cases hmain : v.system.main with
    | finished => exact .inr ⟨hsettled, .inr (.inl rfl)⟩
    | raised => exact .inr ⟨hsettled, .inr (.inr rfl)⟩
    | retrieving =>
      have hretrieved := h.running.retrieved
      rw [hmain] at hplace hretrieved
      have hless : v.system.parallel.nCompletedTasks < v.system.parallel.nDispatchedTasks := hplace
      have hdispatched := h.running.dispatched
      have hsubmitted := congrArg List.length h.running.submitted
      rw [List.length_append, ← hdispatched] at hsubmitted
      have hready : v.system.parallel.backend.retrieved < v.system.parallel.backend.submitted.length := by
        simp only [System.uncounted] at hretrieved
        omega
      -- a batch of the call has been completed, for there is one and none is outstanding
      obtain ⟨i, hi⟩ := h.tracked fun hnil => by simp [hnil] at hdispatched; omega
      have hcompleted : i ∈ v.completed := by
        by_contra hnot
        exact absurd (mem_outstanding.mpr ⟨hi, hnot⟩) (hnone ▸ Finset.notMem_empty i)
      refine .inr ⟨hsettled, .inl ⟨hmain, fun raises => ?_⟩⟩
      have hadmits : v.admits (.retrieve raises) = true := by simp [admits, List.ne_nil_of_mem hcompleted]
      simp [Window.step, hadmits, System.step, hmain, hready]
    | idle | resetCompleted | resetDispatched | resetBatches | resetAborting | resetIterating | initializing | renewing
    | opening | sequential | raising =>
      rw [hmain] at hplace
      exact hplace.elim
    | _ =>
      refine .inl ⟨.acts .main, trivial, by simp, ?_⟩
      simp [Window.step, admits, System.step, System.mainStep, hmain]

/-- Every task has been sent, and its result retrieved and counted. -/
structure Complete (w₀ : Window α ε) (ts : List (Item α ε)) (v : Window α ε) : Prop where
  submitted : v.system.parallel.backend.submitted = w₀.system.parallel.backend.submitted ++ ts
  retrieved : v.system.parallel.backend.retrieved = w₀.system.parallel.backend.retrieved + ts.length
  completed : v.system.parallel.nCompletedTasks = ts.length
  dispatched : v.system.parallel.nDispatchedTasks = ts.length

/-- No tracker finds the iterator exhausted between the loop's two tests while a result is outstanding. -/
def Timely (w : Window α ε) (e : Event α ε) (v : Window α ε) : Prop :=
  ∀ a, e = .acts a → System.Timely w.system a v.system

/-- The loop over `ts` that began in `w₀` is at work, or has ended. -/
def AtWork (w₀ : Window α ε) (ts : List (Item α ε)) (w : Window α ε) : Prop :=
  ∃ taken rest, ts = taken ++ rest ∧ Busy w₀ taken rest w

section Runs
variable {w₀ : Window α ε} {ts : List (Item α ε)} {events : List (Event α ε)}

/-- All that is still to be done of `total` tasks. -/
def toDo (total : Nat) (w : Window α ε) : Nat := remaining (total - w.system.parallel.nDispatchedTasks) w

theorem Busy.toDo_eq (h : Busy w₀ taken rest w) : toDo (taken ++ rest).length w = remaining rest.length w := by
  unfold toDo
  rw [h.running.dispatched, List.length_append, Nat.add_sub_cancel_left]

theorem AtWork.step {e : Event α ε} (h : AtWork w₀ ts w) (hstep : w.step host e = some v)
    (hundisturbed : Undisturbed e) : AtWork w₀ ts v ∧ toDo ts.length v < toDo ts.length w := by
  obtain ⟨taken, rest, rfl, hbusy⟩ := h
  obtain ⟨batch, left, rfl, hbusy', hless⟩ := hbusy.step hstep hundisturbed
  have hbefore := hbusy.toDo_eq
  have hafter := hbusy'.toDo_eq
  rw [List.append_assoc] at hafter
  refine ⟨⟨taken ++ batch, left, (List.append_assoc ..).symm, hbusy'⟩, ?_⟩
  omega

theorem Begins.atWork (h : Begins w ts) : AtWork w ts w := ⟨[], ts, rfl, h.busy⟩

theorem Begins.toDo_le (h : Begins w ts) :
    toDo ts.length w ≤ 21 * ts.length + 16 + 3 * (outstanding w.system w.completed).card + 2 * w.pending.length := by
  have hdebt := debt_le w.system w.pending
  have hhead := h.head
  simp only [toDo, remaining, System.work, hhead.nDispatchedTasks, hhead.nCompletedTasks, hhead.iterating, hhead.main,
    System.armed, System.toGo, Bool.toNat_true]
  omega

/-- Where no retrieval raises, the loop does not. -/
theorem AtWork.unraised {e : Event α ε} (h : AtWork w₀ ts w) (hstep : w.step host e = some v)
    (hundisturbed : Undisturbed e) (hraises : e ≠ .acts (.retrieve true)) (hw : w.system.main ≠ .raised) :
    v.system.main ≠ .raised := by
  obtain ⟨taken, rest, rfl, hbusy⟩ := h
  cases e with
  | completes i => exact (step_completes hstep) ▸ hw
  | acts a =>
    obtain ⟨_, t, ht, rfl⟩ := step_acts hstep
    cases a with
    | start iterable => exact hundisturbed.elim
    | abort => exact hundisturbed.elim
    | enter i success result =>
      obtain ⟨tracker, _, rfl⟩ := System.step_enter ht
      exact hw
    | dispatchNew i =>
      obtain ⟨tracker, _, rfl⟩ := System.step_dispatchNew ht
      exact hw
    | retrieve raises =>
      obtain ⟨_, rfl⟩ := System.step_retrieve ht
      cases raises with
      | true => exact absurd rfl hraises
      | false => simp
    | main =>
      have hplace := hbusy.running.place
      cases System.mainStep_loop hplace.inCall ht with
      | counts | clears => simp
      | dispatches hmain =>
        rcases System.mainDispatch_ofList host hbusy.running.iterator with ⟨_, hrun⟩ | ⟨batch, left, _, _, hrun⟩ <;>
        · rw [hrun]
          simp [System.goto]
      | @goes pc hgoes =>
        rintro rfl
        generalize w.system.main = before at hgoes hplace
        cases hgoes
        exact hplace

/-- What is reached from the beginning is at work, and bounds the run. -/
theorem Begins.run (h : Begins w ts) (hundisturbed : ∀ e ∈ events, Undisturbed e)
    (hrun : Runs.run (step host) w events = some v) :
    AtWork w ts v ∧ events.length + toDo ts.length v ≤ toDo ts.length w := by
  have hguard : Runs.Every (step host) (fun _ e _ => Undisturbed e) w events :=
    .of_forall_mem (fun _ e _ he => hundisturbed e he) w
  exact ⟨Runs.guarded_run (fun _ _ _ hwork hstep hguard => (hwork.step hstep hguard).1) h.atWork hguard hrun,
    Runs.length_le (fun _ _ _ hwork hstep hguard => hwork.step hstep hguard) h.atWork hguard hrun⟩

theorem Begins.unraised (h : Begins w ts) (hundisturbed : ∀ e ∈ events, Undisturbed e)
    (hrun : Runs.run (step host) w events = some v) (hraises : .acts (.retrieve true) ∉ events) :
    v.system.main ≠ .raised := by
  have hguard : Runs.Every (step host) (fun _ e _ => Undisturbed e ∧ e ≠ .acts (.retrieve true)) w events :=
    .of_forall_mem (fun _ e _ he => ⟨hundisturbed e he, fun heq => hraises (heq ▸ he)⟩) w
  refine (Runs.guarded_run (I := fun v => AtWork w ts v ∧ v.system.main ≠ .raised) ?_ ⟨h.atWork, ?_⟩ hguard hrun).2
  · intro u e u' hu hstep hguard
    exact ⟨(hu.1.step hstep hguard.1).1, hu.1.unraised hstep hguard.1 hguard.2 hu.2⟩
  · rw [h.head.main]
    simp

/-- Every step timely, a loop that has finished has had every task. -/
theorem Begins.complete (h : Begins w ts) (hundisturbed : ∀ e ∈ events, Undisturbed e)
    (htimely : Runs.Every (step host) Timely w events) (hrun : Runs.run (step host) w events = some v)
    (hfinished : v.system.main = .finished) : Complete w ts v := by
  obtain ⟨rest, hin⟩ := Runs.guarded_run (I := fun v => ∃ rest, System.InLoop v.system rest)
    (G := fun w e v => Undisturbed e ∧ Timely w e v) (by
      rintro u e u' ⟨rest, hin⟩ hstep ⟨hundisturbed, htimely⟩
      cases e with
      | completes i => exact ⟨rest, step_completes hstep ▸ hin⟩
      | acts a =>
        obtain ⟨_, t, ht, rfl⟩ := step_acts hstep
        exact hin.step ht hundisturbed (htimely a rfl))
    ⟨ts, h.head.inLoop⟩ (htimely.and_forall hundisturbed) hrun
  obtain ⟨⟨taken, left, rfl, hbusy⟩, _⟩ := h.run hundisturbed hrun
  have hat := hin.at_
  have hretrieved := hbusy.running.retrieved
  rw [hfinished] at hat hretrieved
  obtain ⟨rfl, hequal⟩ := hat
  have hleft : left = [] :=
    Iterator.ofList_injective (Option.some.inj (hbusy.running.iterator.symm.trans hin.iterator))
  subst hleft
  have hdispatched := hbusy.running.dispatched
  have hcompleted := hequal.trans hdispatched
  rw [List.append_nil]
  exact
    { submitted := hbusy.running.submitted
      retrieved := by rw [hretrieved, hcompleted]; rfl
      completed := hcompleted
      dispatched := hdispatched }

variable (host) in
/-- **Under every schedule a call takes a bounded number of steps and never gets stuck**: it can go
on, or every batch is completed and every callback has returned, and then a result can be retrieved
or the loop has ended. It raises only what a retrieval raises; and if every step was timely it
finishes with the result of every task retrieved once. -/
theorem call_ends (hw : Begins w ts) (hundisturbed : ∀ e ∈ events, Undisturbed e)
    (hrun : Runs.run (step host) w events = some v) :
    events.length ≤ 21 * ts.length + 16 + 3 * (outstanding w.system w.completed).card + 2 * w.pending.length ∧
      (Moves host v ∨ Settled v ∧ (Ready host v ∨ v.system.main = .finished ∨
        v.system.main = .raised ∧ .acts (.retrieve true) ∈ events)) ∧
      (v.system.main = .finished → Runs.Every (step host) Timely w events → Complete w ts v) := by
  obtain ⟨⟨taken, rest, rfl, hbusy⟩, hlength⟩ := hw.run hundisturbed hrun
  have hbound := hw.toDo_le
  refine ⟨by omega, ?_, fun hfinished htimely => hw.complete hundisturbed htimely hrun hfinished⟩
  rcases hbusy.goes_on host hw.backend with hmoves | ⟨hsettled, hready | hfinished | hraised⟩
  · exact .inl hmoves
  · exact .inr ⟨hsettled, .inl hready⟩
  · exact .inr ⟨hsettled, .inr (.inl hfinished)⟩
  · refine .inr ⟨hsettled, .inr (.inr ⟨hraised, ?_⟩)⟩
    by_contra hnone
    exact hw.unraised hundisturbed hrun hnone hraised

end Runs

/-- One task: its callback finds nothing left while the caller has the result. -/
def attended : List (Event Nat Empty) :=
  List.replicate 9 (.acts .main) ++ [.completes 0, .acts (.retrieve false), .acts (.enter 0 true (.value 1))] ++
    .acts (.dispatchNew 0) :: List.replicate 6 (.acts .main)

theorem call_ends_attended : ∃ v,
    Runs.run (step (.plain Nat Empty)) (called (.count 1) System.oneTask) attended = some v ∧
    attended.length ≤ 37 ∧ v.system.main = .finished ∧
      Complete (called (.count 1) System.oneTask) System.oneTask v := by
  have hbegins : Begins (called (.count 1) System.oneTask) System.oneTask :=
    ⟨⟨rfl, rfl, rfl, rfl, rfl, rfl⟩, List.nodup_nil, List.Subset.refl _, by decide, Nat.le_refl 0⟩
  have hundisturbed : ∀ e ∈ attended, Undisturbed e := by
    intro e he
    simp only [attended, List.mem_append, List.mem_cons, List.mem_replicate, List.not_mem_nil, or_false] at he
    rcases he with (⟨_, rfl⟩ | rfl | rfl | rfl) | rfl | ⟨_, rfl⟩ <;> trivial
  have htimely : Runs.Every (step (.plain Nat Empty)) Timely (called (.count 1) System.oneTask) attended := by
    refine Runs.Every.append (.of_forall_mem ?_ _) fun u hu => ?_
    · rintro w e v he a rfl i rfl
      simp at he
    · obtain rfl := Option.some.inj hu
      refine .cons rfl ?_ (.of_forall_mem ?_ _)
      · rintro a ha i rfl hmain
        cases hmain
      · rintro w e v he a rfl i rfl
        simp at he
  obtain ⟨v, hrun, hmain⟩ : ∃ v,
      Runs.run (step (.plain Nat Empty)) (called (.count 1) System.oneTask) attended = some v ∧
        v.system.main = .finished := ⟨_, rfl, rfl⟩
  obtain ⟨hlength, _, hcomplete⟩ := call_ends (.plain Nat Empty) hbegins hundisturbed hrun
  exact ⟨v, hrun, hlength, hmain, hcomplete hmain htimely⟩

end Joblib.Window
