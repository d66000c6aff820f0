import Joblib.Threads.System

/-! The loop of `_get_outputs` with nobody else about.

`Generator.step` takes a turn of the loop at once, `System.step` an access to a shared
attribute. Where only the main thread acts, the second follows the first: each turn is a
few of its steps (`step_follows`), and so is each resumption (`next_followed`). -/
namespace Joblib.System
open Runs (run)

variable {α ε : Type} {host : Host α ε} {s s' t : System α ε}

/-- Steps of the main thread, and the backend's answers to it, lead from one state to
another. -/
def Leads (host : Host α ε) (s t : System α ε) : Prop :=
  ∃ actions : List (Action α ε), (∀ a ∈ actions, a = .main ∨ ∃ raises, a = .retrieve raises) ∧
    run (step host) s actions = some t

/-- The main thread stands where the generator is suspended. -/
def Suspended : Frame α ε → Pc → Prop
  | .outputs _, pc => pc = .loopIterating
  | .outputsYield _, pc => pc = .suspended
  | .finished, pc => pc = .finished ∨ pc = .raised
  | _, _ => False

structure Follows (s : System α ε) (g : Generator α ε) : Prop where
  parallel : s.parallel = g.2
  main : Suspended g.1 s.main

/-! ### Steps in a row -/

theorem Leads.refl (s : System α ε) : Leads host s s := ⟨[], fun _ h => (by cases h), rfl⟩

theorem Leads.main (h : s.mainStep host = some s') (hs : Leads host s' t) : Leads host s t := by
  obtain ⟨actions, halone, hrun⟩ := hs
  refine ⟨.main :: actions, fun a ha => ?_, ?_⟩
  · rcases List.mem_cons.mp ha with rfl | hmem
    · exact .inl rfl
    · exact halone a hmem
  · show (s.mainStep host).bind _ = _
    rw [h]
    exact hrun

theorem Leads.retrieve {raises : Bool} (h : s.step host (.retrieve raises) = some t) : Leads host s t := by
  refine ⟨[.retrieve raises], fun a ha => ?_, ?_⟩
  · exact .inr ⟨raises, List.mem_singleton.mp ha⟩
  · show (s.step host (.retrieve raises)).bind _ = _
    rw [h]
    rfl

theorem Leads.trans (h : Leads host s s') (h' : Leads host s' t) : Leads host s t := by
  obtain ⟨actions, halone, hrun⟩ := h
  obtain ⟨actions', halone', hrun'⟩ := h'
  refine ⟨actions ++ actions', fun a ha => ?_, ?_⟩
  · rcases List.mem_append.mp ha with hmem | hmem
    · exact halone a hmem
    · exact halone' a hmem
  · rw [Runs.run_append, hrun]
    exact hrun'

/-! ### The two tests -/

/-- With a result outstanding the loop gets to `retrieve`. -/
theorem leads_retrieving (hmain : s.main = .loopIterating)
    (hlt : s.parallel.nCompletedTasks < s.parallel.nDispatchedTasks) : Leads host s (s.goto .retrieving) := by
  have hinner : Leads host (s.goto .ifCompleted) (s.goto .retrieving) := by
    refine .main rfl (.main ?_ (.refl _))
    simp [mainStep, goto, hlt]
  cases hi : s.parallel.iterating with
  | true =>
    refine .main ?_ hinner
    simp [mainStep, hmain, hi]
  | false =>
    have hhead : Leads host (s.goto .loopCompleted) (s.goto .retrieving) := by
      refine .main rfl (.main ?_ hinner)
      simp [mainStep, goto, hlt]
    refine .main ?_ hhead
    simp [mainStep, hmain, hi]

/-- With none it gets to dispatch while there is something to iterate over. -/
theorem leads_dispatching (hmain : s.main = .loopIterating)
    (hlt : ¬ s.parallel.nCompletedTasks < s.parallel.nDispatchedTasks) (hi : s.parallel.iterating = true) :
    Leads host s (s.goto .dispatching) := by
  have hinner : Leads host (s.goto .elseIterating) (s.goto .dispatching) := by
    refine .main ?_ (.refl _)
    simp [mainStep, goto, hi]
  have htest : Leads host (s.goto .ifCompleted) (s.goto .dispatching) := by
    refine .main rfl (.main ?_ hinner)
    simp [mainStep, goto, hlt]
  refine .main ?_ htest
  simp [mainStep, hmain, hi]

theorem leads_finished (hmain : s.main = .loopIterating)
    (hlt : ¬ s.parallel.nCompletedTasks < s.parallel.nDispatchedTasks) (hi : s.parallel.iterating = false) :
    Leads host s (s.goto .finished) := by
  have hhead : Leads host (s.goto .loopCompleted) (s.goto .finished) := by
    refine .main rfl (.main ?_ (.refl _))
    simp [mainStep, goto, hlt]
  refine .main ?_ hhead
  simp [mainStep, hmain, hi]

/-! ### Turns -/

variable (host) in
theorem leads_bottom {iterator : Prefetch α ε} {g : Generator α ε} (hmain : s.main = .bottom)
    (hturn : (Generator.outputsBottom iterator s.parallel).state = some g) :
    ∃ t, Leads host s t ∧ Follows t g := by
  unfold Generator.outputsBottom at hturn
  cases ha : s.parallel.aborting with
  | false =>
    rw [ha] at hturn
    cases hturn
    refine ⟨s.goto .loopIterating, .main ?_ (.refl _), rfl, rfl⟩
    simp [mainStep, hmain, ha]
  | true =>
    have hraising : s.mainStep host = some (s.goto .raising) := by simp [mainStep, hmain, ha]
    rw [ha, if_pos rfl] at hturn
    cases he : Generator.raiseErrorFast s.parallel with
    | none =>
      rw [he] at hturn
      cases hturn
      refine ⟨s.goto .loopIterating, .main hraising (.main ?_ (.refl _)), rfl, rfl⟩
      simp [mainStep, goto, he]
    | some e =>
      rw [he] at hturn
      cases hturn
      refine ⟨s.goto .raised, .main hraising (.main ?_ (.refl _)), rfl, .inr rfl⟩
      simp [mainStep, goto, he]

variable (host) in
/-- The main thread's dispatch is `dispatch_next`, the clearing of the flag a step of its own. -/
theorem leads_dispatched (hmain : s.main = .dispatching) :
    ∃ t, Leads host s t ∧ t.parallel = (s.parallel.dispatchNext host.dispatcher).2 ∧
      t.main = match (s.parallel.dispatchNext host.dispatcher).1 with
        | .ok _ => .bottom
        | .error _ => .raised := by
  have hstep : s.mainStep host = some (s.mainDispatch host) := by simp [mainStep, hmain]
  unfold Parallel.dispatchNext
  unfold mainDispatch at hstep
  dsimp only at hstep ⊢
  cases hr : (host.dispatcher.dispatchOneBatch s.parallel s.parallel.originalIterator).outcome with
  | error e =>
    rw [hr] at hstep
    exact ⟨_, .main hstep (.refl _), rfl, rfl⟩
  | ok more =>
    rw [hr] at hstep
    cases more with
    | true => exact ⟨_, .main hstep (.refl _), rfl, rfl⟩
    | false => exact ⟨_, .main hstep (.main rfl (.refl _)), rfl, rfl⟩

/-- **A turn of the generator is some steps of the main thread.** -/
theorem step_follows {g g' : Generator α ε} (h : Follows s g)
    (hturn : (Generator.step host.dispatcher g).state = some g') : ∃ t, Leads host s t ∧ Follows t g' := by
  obtain ⟨frame, p⟩ := g
  obtain rfl : s.parallel = p := h.parallel
  have hmain := h.main
  cases frame with
  | sequential iterable => exact hmain.elim
  | sequentialYield rest => exact hmain.elim
  | finished =>
    cases hturn
    exact ⟨s, .refl s, rfl, hmain⟩
  | outputsYield iterator =>
    have hmain : s.main = .suspended := hmain
    have hresumed : s.mainStep host = some (s.goto .counting) := by simp [mainStep, hmain]
    have hcounted : Leads host s {s with parallel := s.parallel.complete, main := .bottom} :=
      .main hresumed (.main rfl (.refl _))
    obtain ⟨t, hleads, hfollows⟩ := leads_bottom host
      (s := {s with parallel := s.parallel.complete, main := .bottom}) rfl hturn
    exact ⟨t, hcounted.trans hleads, hfollows⟩
  | outputs iterator =>
    have hmain : s.main = .loopIterating := hmain
    change (Generator.outputsTurn host.dispatcher iterator s.parallel).state = some g' at hturn
    by_cases hlt : s.parallel.nCompletedTasks < s.parallel.nDispatchedTasks
    · rw [Generator.outputsTurn_retrieve hlt] at hturn
      cases hr : s.parallel.backend.retrieve with
      | none =>
        rw [hr] at hturn
        cases hturn
      | some r =>
        obtain ⟨outcome, b⟩ := r
        obtain ⟨task, htask, rfl, rfl⟩ := Generator.retrieve_cases hr
        have hready : s.parallel.backend.retrieved < s.parallel.backend.submitted.length :=
          (List.getElem?_eq_some_iff.mp htask).1
        rw [hr] at hturn
        have hretrieve : ∀ raises : Bool, Leads host (s.goto .retrieving)
            { s with
              parallel := s.parallel.withBackend {s.parallel.backend with retrieved := s.parallel.backend.retrieved + 1}
              main := if raises then .raised else .suspended } := by
          intro raises
          have hstep : (s.goto .retrieving).step host (.retrieve raises) = some _ := if_pos ⟨rfl, hready⟩
          exact .retrieve hstep
        cases hcall : task.call with
        | ok value =>
          rw [hcall] at hturn
          cases hturn
          exact ⟨_, (leads_retrieving hmain hlt).trans (hretrieve false), rfl, rfl⟩
        | error e =>
          rw [hcall] at hturn
          cases hturn
          exact ⟨_, (leads_retrieving hmain hlt).trans (hretrieve true), rfl, .inr rfl⟩
    · cases hi : s.parallel.iterating with
      | true =>
        rw [Generator.outputsTurn_dispatch hlt hi] at hturn
        obtain ⟨t, hleads, hparallel, ht⟩ := leads_dispatched host (s := s.goto .dispatching) rfl
        have hto := (leads_dispatching hmain hlt hi).trans hleads
        change t.parallel = (s.parallel.dispatchNext host.dispatcher).2 at hparallel
        change t.main = match (s.parallel.dispatchNext host.dispatcher).1 with
          | .ok _ => .bottom
          | .error _ => .raised at ht
        cases hd : s.parallel.dispatchNext host.dispatcher with
        | mk outcome q =>
          rw [hd] at hturn hparallel ht
          subst hparallel
          cases outcome with
          | ok more =>
            obtain ⟨u, hbottom, hfollows⟩ := leads_bottom host ht hturn
            exact ⟨u, hto.trans hbottom, hfollows⟩
          | error e =>
            cases hturn
            exact ⟨t, hto, rfl, .inr ht⟩
      | false =>
        rw [Generator.outputsTurn_stop hlt hi] at hturn
        cases hturn
        exact ⟨s.goto .finished, leads_finished hmain hlt hi, rfl, .inl rfl⟩

/-! ### Resumptions -/

/-- Wherever the first is followed, the second is reached by the main thread. -/
def Followed (host : Host α ε) (g g' : Generator α ε) : Prop :=
  ∀ s, Follows s g → ∃ t, Leads host s t ∧ Follows t g'

theorem Followed.trans {g g' g'' : Generator α ε} (h : Followed host g g') (h' : Followed host g' g'') :
    Followed host g g'' := by
  intro s hs
  obtain ⟨t, hleads, ht⟩ := h s hs
  obtain ⟨u, hleads', hu⟩ := h' t ht
  exact ⟨u, hleads.trans hleads', hu⟩

/-- **A resumption of the generator is a run of the main thread**, -/
theorem next_followed {g g' : Generator α ε} {event : Resumable.Event α (Exc ε)} {n : Nat}
    (h : Resumable.next (Generator.step host.dispatcher) n g = some (event, g')) : Followed host g g' :=
  Resumable.next_relates Followed.trans (fun hturn _ hs => step_follows hs hturn) h

/-- and so is draining it. -/
theorem drain_followed {g g' : Generator α ε} {d : Resumable.Drained α (Exc ε)} {n : Nat}
    (h : Resumable.drain (Generator.step host.dispatcher) n g = some (d, g')) : Followed host g g' :=
  Resumable.drain_relates Followed.trans (fun hturn _ hs => step_follows hs hturn) h

end Joblib.System
