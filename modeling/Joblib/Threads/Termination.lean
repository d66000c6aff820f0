import Joblib.Threads.Loop

/-! The loop of `_get_outputs` comes to its end.

With nobody else about, a turn of the loop retrieves a result, dispatches a batch or clears
the flag. Retrieving lowers the number of results outstanding; dispatching raises it, by
what it takes from the tasks left, which count twice for that; the flag is cleared once. So
`potential` falls at every step, whatever the batches (`Solo.step`), and the loop ends after
all of its tasks have been retrieved once each, unless a retrieval raises
(`outputs_terminate`). -/
namespace Joblib.System

variable {α ε : Type} {host : Host α ε} {s s' t : System α ε} {taken rest : List (Item α ε)}

/-- The main thread acts, or the backend answers it. -/
def Alone : Action α ε → Prop
  | .main | .retrieve _ => True
  | _ => False

/-- The results retrieved that are not counted, or never will be. -/
def uncounted : Pc → Nat
  | .suspended | .counting | .raised => 1
  | _ => 0

/-- The steps to the next turn of the loop, less what the step that changes a counter or the
flag makes up for. -/
def toGo : Pc → Nat
  | .bottom => 8
  | .loopIterating => 7
  | .loopCompleted => 6
  | .loopDispatched _ => 5
  | .ifCompleted => 4
  | .ifDispatched _ => 3
  | .retrieving | .elseIterating => 2
  | .suspended | .dispatching => 1
  | _ => 0

/-- What is still to be done over `total` tasks. -/
def potential (total : Nat) (s : System α ε) : Nat :=
  9 * (s.parallel.nDispatchedTasks - s.parallel.nCompletedTasks + 2 * (total - s.parallel.nDispatchedTasks) +
    s.parallel.iterating.toNat) + toGo s.main

/-- What the flag is where nobody else writes it. -/
def Flag (iterating : Bool) : Pc → Prop
  | .dispatching | .clearing => iterating = true
  | .finished => iterating = false
  | _ => True

/-- The loop that began in `s₀` has taken the tasks `taken` and has `rest` to come. -/
structure Solo (s₀ : System α ε) (taken rest : List (Item α ε)) (s : System α ε) : Prop where
  inLoop : InLoop s rest
  dispatched : s.parallel.nDispatchedTasks = taken.length
  submitted : s.parallel.backend.submitted = s₀.parallel.backend.submitted ++ taken
  retrieved : s.parallel.backend.retrieved =
    s₀.parallel.backend.retrieved + s.parallel.nCompletedTasks + uncounted s.main
  flag : Flag s.parallel.iterating s.main

theorem AtHead.solo {ts : List (Item α ε)} (h : AtHead s ts) : Solo s [] ts s where
  inLoop := h.inLoop
  dispatched := h.nDispatchedTasks
  submitted := (List.append_nil _).symm
  retrieved := by
    rw [h.main, h.nCompletedTasks]
    rfl
  flag := by
    rw [h.main]
    trivial

/-- What a step leaves of the tasks left, and of what is to be done. -/
def Lowers (s₀ : System α ε) (taken rest : List (Item α ε)) (s t : System α ε) : Prop :=
  ∃ batch left, rest = batch ++ left ∧ Solo s₀ (taken ++ batch) left t ∧
    potential (taken ++ rest).length t < potential (taken ++ rest).length s

/-- A step that takes no task. -/
theorem Lowers.same {s₀ : System α ε} (h : Solo s₀ taken rest t)
    (hless : potential (taken ++ rest).length t < potential (taken ++ rest).length s) : Lowers s₀ taken rest s t :=
  ⟨[], rest, rfl, (List.append_nil taken).symm ▸ h, hless⟩

/-- A step that only reads comes nearer to the next turn. -/
theorem Goes.toGo_lt {p : Parallel α ε} {pc pc' : Pc} (h : Goes p pc pc') (haborting : p.aborting = false)
    (hraising : pc ≠ .raising) : toGo pc' < toGo pc := by
  cases h <;> simp_all [toGo]

theorem Solo.mainDispatch {s₀ : System α ε} (h : Solo s₀ taken rest s) (hmain : s.main = .dispatching) :
    Lowers s₀ taken rest s (s.mainDispatch host) := by
  have hat := h.inLoop.at_
  have hretrieved := h.retrieved
  have hflag := h.flag
  rw [hmain] at hat hretrieved hflag
  rcases mainDispatch_ofList host h.inLoop.iterator with ⟨rfl, hrun⟩ | ⟨batch, left, hne, rfl, hrun⟩
  · rw [hrun]
    refine .same ⟨⟨h.inLoop.aborting, h.inLoop.iterator, h.inLoop.iterating, rfl, hat⟩, h.dispatched, h.submitted,
      hretrieved, hflag⟩ ?_
    simp only [potential, goto, hmain, toGo]
    omega
  · rw [hrun]
    have hsent := h.inLoop.sent hne
    have hpos : 0 < batch.length := List.length_pos_iff.mpr hne
    have hdispatched := h.dispatched
    have hle : s.parallel.nCompletedTasks ≤ s.parallel.nDispatchedTasks := hat
    refine ⟨batch, left, rfl, ⟨⟨hsent.aborting, hsent.iterator, hsent.iterating, ?_⟩, ?_, ?_, hretrieved, trivial⟩, ?_⟩
    · exact Nat.le_trans hat (Nat.le_add_right _ _)
    · rw [List.length_append, ← hdispatched]
      rfl
    · rw [← List.append_assoc, ← h.submitted]
      rfl
    · -- each task dispatched counts once where it counted twice
      simp only [potential, goto, sent, sentParallel, Parallel.submit, hmain, toGo, List.length_append]
      omega

theorem Solo.mainStep {s₀ : System α ε} (h : Solo s₀ taken rest s) (ht : s.mainStep host = some t) :
    Lowers s₀ taken rest s t := by
  have hat := h.inLoop.at_
  have hretrieved := h.retrieved
  have hflag := h.flag
  cases mainStep_loop hat.inCall ht with
  | dispatches hmain => exact h.mainDispatch hmain
  | counts hmain =>
    rw [hmain] at hat hretrieved
    have hless : s.parallel.nCompletedTasks < s.parallel.nDispatchedTasks := hat
    refine .same ⟨⟨h.inLoop.aborting, h.inLoop.iterator, h.inLoop.iterating, hless⟩, h.dispatched, h.submitted,
      hretrieved, trivial⟩ ?_
    simp only [potential, Parallel.complete, hmain, toGo]
    omega
  | clears hmain =>
    rw [hmain] at hat hretrieved hflag
    have hup : s.parallel.iterating = true := hflag
    refine .same ⟨⟨h.inLoop.aborting, h.inLoop.iterator, fun _ => hat.1, hat.2⟩, h.dispatched, h.submitted, hretrieved,
      trivial⟩ ?_
    simp only [potential, hmain, toGo, hup, Bool.toNat_true, Bool.toNat_false]
    omega
  | @goes pc hgoes =>
    have hraising : s.main ≠ .raising := by
      intro hmain
      rw [hmain] at hat
      exact hat.elim
    have hnearer := hgoes.toGo_lt h.inLoop.aborting hraising
    have hsame : uncounted pc = uncounted s.main := by
      generalize s.main = before at hgoes hraising
      cases hgoes <;> simp_all [uncounted]
    have hflag' : Flag s.parallel.iterating pc := by
      generalize s.main = before at hgoes hat
      cases hgoes <;> simp_all [Flag, At]
    refine .same ⟨h.inLoop.goes hgoes, h.dispatched, h.submitted, ?_, hflag'⟩ ?_
    · simp only [goto, hsame]
      exact hretrieved
    · simp only [potential, goto]
      omega

/-- **Every step of the loop on its own comes nearer to its end.** -/
theorem Solo.step {s₀ : System α ε} {a : Action α ε} (h : Solo s₀ taken rest s) (ht : s.step host a = some t)
    (halone : Alone a) : Lowers s₀ taken rest s t := by
  cases a with
  | main => exact h.mainStep ht
  | retrieve raises =>
    obtain ⟨hmain, rfl⟩ := step_retrieve ht
    have hat := h.inLoop.at_
    have hretrieved := h.retrieved
    rw [hmain] at hat hretrieved
    cases raises with
    | true =>
      refine .same ⟨⟨h.inLoop.aborting, h.inLoop.iterator, h.inLoop.iterating, trivial⟩, h.dispatched, h.submitted, ?_,
        trivial⟩ ?_
      · exact congrArg (· + 1) hretrieved
      · simp [potential, Parallel.withBackend, hmain, toGo]
    | false =>
      refine .same ⟨⟨h.inLoop.aborting, h.inLoop.iterator, h.inLoop.iterating, hat⟩, h.dispatched, h.submitted, ?_,
        trivial⟩ ?_
      · exact congrArg (· + 1) hretrieved
      · simp [potential, Parallel.withBackend, hmain, toGo]
  | start | enter | dispatchNew | abort => exact halone.elim

/-- The loop over `ts` that began in `s₀` is at work, or has ended. -/
def AtWork (s₀ : System α ε) (ts : List (Item α ε)) (s : System α ε) : Prop :=
  ∃ taken rest, ts = taken ++ rest ∧ Solo s₀ taken rest s

theorem AtWork.step {s₀ : System α ε} {ts : List (Item α ε)} {a : Action α ε} (h : AtWork s₀ ts s)
    (ht : s.step host a = some t) (halone : Alone a) :
    AtWork s₀ ts t ∧ potential ts.length t < potential ts.length s := by
  obtain ⟨taken, rest, rfl, hsolo⟩ := h
  obtain ⟨batch, left, rfl, hsolo', hless⟩ := hsolo.step ht halone
  exact ⟨⟨taken ++ batch, left, (List.append_assoc ..).symm, hsolo'⟩, hless⟩

/-! ### Its end -/

/-- The generator has finished, every one of the tasks retrieved and counted. -/
structure Exact (s₀ : System α ε) (ts : List (Item α ε)) (t : System α ε) : Prop where
  finished : t.main = .finished
  retrieved : t.parallel.backend.retrieved = s₀.parallel.backend.retrieved + ts.length
  iterating : t.parallel.iterating = false
  completed : t.parallel.nCompletedTasks = ts.length
  dispatched : t.parallel.nDispatchedTasks = ts.length

theorem Solo.exact {s₀ : System α ε} (h : Solo s₀ taken rest s) (hmain : s.main = .finished) :
    Exact s₀ (taken ++ rest) s := by
  have hat := h.inLoop.at_
  have hretrieved := h.retrieved
  have hflag := h.flag
  rw [hmain] at hat hretrieved hflag
  obtain ⟨rfl, hequal⟩ := hat
  have hdispatched := h.dispatched
  rw [List.append_nil]
  refine ⟨hmain, ?_, hflag, hequal.trans hdispatched, hdispatched⟩
  rw [hretrieved, hequal, hdispatched]
  rfl

/-- Where it retrieves, a task it has submitted is outstanding. -/
theorem Solo.outstanding {s₀ : System α ε} (h : Solo s₀ taken rest s) (hmain : s.main = .retrieving) :
    s.parallel.backend.retrieved < s₀.parallel.backend.retrieved + s.parallel.nDispatchedTasks ∧
      s.parallel.backend.submitted.length = s₀.parallel.backend.submitted.length + s.parallel.nDispatchedTasks := by
  have hat := h.inLoop.at_
  have hretrieved := h.retrieved
  rw [hmain] at hat hretrieved
  have hless : s.parallel.nCompletedTasks < s.parallel.nDispatchedTasks := hat
  have hsubmitted := congrArg List.length h.submitted
  rw [List.length_append, ← h.dispatched] at hsubmitted
  refine ⟨?_, hsubmitted⟩
  rw [hretrieved]
  exact Nat.add_lt_add_left hless _

theorem ended_stays {a : Action α ε} (hmain : s.main = .finished ∨ s.main = .raised) (halone : Alone a) :
    s.step host a ≠ some t := by
  cases a with
  | start | enter | dispatchNew | abort => exact halone.elim
  | main => rcases hmain with h | h <;> simp [System.step, System.mainStep, h]
  | retrieve raises => rcases hmain with h | h <;> simp [System.step, h]

variable (host) in
/-- It can go on, or has ended. -/
theorem Solo.goes_on {s₀ : System α ε} (h : Solo s₀ taken rest s)
    (hbackend : s₀.parallel.backend.retrieved ≤ s₀.parallel.backend.submitted.length) :
    (∃ a t, Alone a ∧ s.step host a = some t) ∨ s.main = .finished ∨ s.main = .raised := by
  have hat := h.inLoop.at_
  cases hmain : s.main with
  | finished => exact .inr (.inl rfl)
  | raised => exact .inr (.inr rfl)
  | retrieving =>
    obtain ⟨hless, hsubmitted⟩ := h.outstanding hmain
    have hready : s.main = .retrieving ∧ s.parallel.backend.retrieved < s.parallel.backend.submitted.length :=
      ⟨hmain, by omega⟩
    exact .inl ⟨.retrieve false, _, trivial, if_pos hready⟩
  | idle | resetCompleted | resetDispatched | resetBatches | resetAborting | resetIterating | initializing | renewing
  | opening | sequential | raising =>
    rw [hmain] at hat
    exact hat.elim
  | _ =>
    refine .inl ⟨.main, ?_⟩
    simp [System.step, System.mainStep, hmain, Alone]

/-- Only a retrieval that raises ends it otherwise. -/
theorem Solo.raised {s₀ : System α ε} {a : Action α ε} (h : Solo s₀ taken rest s) (ht : s.step host a = some t)
    (halone : Alone a) (hraised : t.main = .raised) : a = .retrieve true := by
  cases a with
  | retrieve raises =>
    obtain ⟨_, rfl⟩ := step_retrieve ht
    cases raises with
    | true => rfl
    | false => cases hraised
  | main =>
    have hat := h.inLoop.at_
    cases mainStep_loop hat.inCall ht with
    | counts => cases hraised
    | clears => cases hraised
    | dispatches =>
      rcases mainDispatch_ofList host h.inLoop.iterator with ⟨_, hrun⟩ | ⟨_, _, _, _, hrun⟩ <;>
      · rw [hrun] at hraised
        cases hraised
    | @goes pc hgoes =>
      obtain rfl : pc = .raised := hraised
      generalize s.main = before at hgoes hat
      cases hgoes
      exact hat.elim
  | start | enter | dispatchNew | abort => exact halone.elim

variable (host) in
/-- **Alone, the loop takes a bounded number of steps, asks for a result only when one is
outstanding, and ends with every task retrieved once, unless a retrieval raises.** -/
theorem outputs_terminate {s t : System α ε} {ts : List (Item α ε)} (hs : AtHead s ts)
    (hbackend : s.parallel.backend.retrieved ≤ s.parallel.backend.submitted.length) {actions : List (Action α ε)}
    (halone : ∀ a ∈ actions, Alone a) (h : Runs.run (step host) s actions = some t) :
    actions.length ≤ 18 * ts.length + 16 ∧
      (t.main = .retrieving →
        t.parallel.backend.retrieved < s.parallel.backend.retrieved + t.parallel.nDispatchedTasks) ∧
      ((∃ a u, Alone a ∧ t.step host a = some u) ∨ Exact s ts t ∨
        t.main = .raised ∧ ∃ before, actions = before ++ [.retrieve true]) := by
  have hstart : AtWork s ts s := ⟨[], ts, rfl, hs.solo⟩
  have hguard : ∀ as : List (Action α ε), (∀ a ∈ as, Alone a) → Runs.Every (System.step host) (fun _ a _ => Alone a) s as :=
    fun as has => .of_forall_mem (fun _ a _ ha => has a ha) s
  have hreach : ∀ {as : List (Action α ε)} {u : System α ε}, (∀ a ∈ as, Alone a) → Runs.run (System.step host) s as = some u →
      AtWork s ts u :=
    fun has hu => Runs.guarded_run (fun _ _ _ hwork ht halone => (hwork.step ht halone).1) hstart (hguard _ has) hu
  obtain ⟨taken, rest, rfl, hsolo⟩ := hreach halone h
  refine ⟨?_, fun hmain => (hsolo.outstanding hmain).1, ?_⟩
  · have hbound := Runs.length_le (fun _ _ _ hwork ht halone => AtWork.step hwork ht halone) hstart (hguard _ halone) h
    have hinitial : potential (taken ++ rest).length s = 18 * (taken ++ rest).length + 16 := by
      simp only [potential, hs.main, hs.nCompletedTasks, hs.nDispatchedTasks, hs.iterating, toGo, Bool.toNat_true]
      omega
    omega
  · rcases hsolo.goes_on host hbackend with hmore | hfinished | hraised
    · exact .inl hmore
    · exact .inr (.inl (hsolo.exact hfinished))
    · refine .inr (.inr ⟨hraised, ?_⟩)
      rcases List.eq_nil_or_concat actions with rfl | ⟨before, last, rfl⟩
      · obtain rfl : s = t := Option.some.inj h
        rw [hs.main] at hraised
        cases hraised
      · rw [List.concat_eq_append] at halone h ⊢
        rw [Runs.run_append] at h
        obtain ⟨u, hu, hlast⟩ := Option.bind_eq_some_iff.mp h
        obtain ⟨v, hv, hend⟩ := Runs.run_cons hlast
        obtain rfl : v = t := Option.some.inj hend
        obtain ⟨_, _, _, hsolo'⟩ := hreach (fun a ha => halone a (List.mem_append_left _ ha)) hu
        obtain rfl := hsolo'.raised hv (halone last (by simp)) hraised
        exact ⟨before, rfl⟩

/-- Batches of two tasks, and one of what is left over. -/
def inPairs : Dispatcher Nat Empty where
  dispatchOneBatch p
    | none => ⟨.error (.typeError "'NoneType' object is not iterable"), none, p⟩
    | some it =>
      match it.head, it.tail.head with
      | .ok task, .ok next => ⟨.ok true, some it.tail.tail, p.submit [task, next]⟩
      | .ok task, _ => ⟨.ok true, some it.tail, p.submit [task]⟩
      | .error .stopIteration, _ => ⟨.ok false, some it, p⟩
      | .error e, _ => ⟨.error e, some it.tail, p⟩
  submits p it task h := by
    have hfirst : it = Stream'.cons (.ok task) it.tail := by
      rw [← h]
      exact (Stream'.eta it).symm
    cases hnext : it.tail.head with
    | ok next =>
      refine ⟨[task, next], it.tail.tail, by simp, ?_, ?_⟩
      · show it = Stream'.cons (.ok task) (Stream'.cons (.ok next) it.tail.tail)
        rw [← hnext, Stream'.eta]
        exact hfirst
      · simp only [h, hnext]
    | error e => exact ⟨[task], it.tail, by simp, hfirst, by simp only [h, hnext]⟩
  exhausted p it h := by simp only [h]
  frame p it := by
    cases it with
    | none => exact .refl p
    | some it =>
      dsimp only
      split
      · exact .submit p _
      · exact .submit p _
      · exact .refl p
      · exact .refl p
  keepsNone p it := by
    cases it with
    | none => simp
    | some it =>
      dsimp only
      split <;> simp

/-- Three tasks: a batch of two is dispatched and both results retrieved, then a batch of one. -/
def pairThenOne : List (Action Nat Empty) :=
  List.replicate 9 .main ++ .retrieve false :: List.replicate 6 .main ++ .retrieve false :: List.replicate 12 .main ++
    .retrieve false :: List.replicate 13 .main

theorem outputs_terminate_inPairs : ∃ t,
    Runs.run (step {Host.plain Nat Empty with dispatcher := inPairs}) (looping threeTasks) pairThenOne = some t ∧
      pairThenOne.length ≤ 18 * threeTasks.length + 16 ∧ t.parallel.nDispatchedBatches = 2 ∧
        Exact (looping threeTasks) threeTasks t := by
  have halone : ∀ a ∈ pairThenOne, Alone a := by
    simp [pairThenOne, Alone]
  obtain ⟨t, hrun, hbatches, hmain⟩ : ∃ t,
      Runs.run (step {Host.plain Nat Empty with dispatcher := inPairs}) (looping threeTasks) pairThenOne = some t ∧
        t.parallel.nDispatchedBatches = 2 ∧ t.main = .finished := ⟨_, rfl, rfl, rfl⟩
  obtain ⟨hlength, _, ⟨a, u, ha, hstep⟩ | hexact | ⟨hraised, _⟩⟩ :=
    outputs_terminate {Host.plain Nat Empty with dispatcher := inPairs} (looping_atHead threeTasks) (Nat.le_refl 0)
      halone hrun
  · exact absurd hstep (ended_stays (.inl hmain) ha)
  · exact ⟨t, hrun, hlength, hbatches, hexact⟩
  · rw [hmain] at hraised
    cases hraised

/-! Of two tasks, the retrieval of the first raises. -/

def raising : List (Action Nat Empty) := List.replicate 9 .main ++ [.retrieve true]

theorem raising_not_exact : ∃ t, AtHead (looping (oneTask ++ oneTask)) (oneTask ++ oneTask) ∧
    (∀ a ∈ raising, Alone a) ∧ Runs.run (step (.plain Nat Empty)) (looping (oneTask ++ oneTask)) raising = some t ∧
      (∀ a u, Alone a → t.step (.plain Nat Empty) a ≠ some u) ∧
        ¬ Exact (looping (oneTask ++ oneTask)) (oneTask ++ oneTask) t := by
  obtain ⟨t, hrun, hmain⟩ : ∃ t,
      Runs.run (step (.plain Nat Empty)) (looping (oneTask ++ oneTask)) raising = some t ∧ t.main = .raised :=
    ⟨_, rfl, rfl⟩
  refine ⟨t, looping_atHead _, ?_, hrun, fun a u ha => ended_stays (.inr hmain) ha, fun hexact => ?_⟩
  · intro a ha
    simp only [raising, List.mem_append, List.mem_replicate, List.mem_singleton] at ha
    rcases ha with ⟨_, rfl⟩ | rfl <;> trivial
  · have hfinished := hexact.finished
    rw [hmain] at hfinished
    cases hfinished

end Joblib.System
