import Mathlib.Data.List.Count
import Joblib.Memmapping.Backing
import Joblib.Memmapping.References

/-! A reducer and everyone who has to do with its files.

Threads call one reducer, consumers release the references they were returned, and the parent cleans
folders up, all in any order and between any two accesses of a call. A release and a cleanup are those
of `References`, and a call that nothing interrupts is its reduction: every run of `References` is a run
here (`runs_references`), and what is new is what happens within a call. -/
namespace Joblib.Memmapping

/-- A reducer with its threads, the references returned and not released, each a file and the
array it was returned for, the files created and not cleaned up since, and, which is history, the files
that ever were cleaned up. -/
structure Shared (F : Type) where
  reducers : Reducers F
  out : List (Filename F × Nat)
  kept : Filename F → Bool
  cleaned : Filename F → Bool

namespace Shared
open Reducers (fileOf Effect turn_effect moved moved_self moved_other step_turn)
open References (maybeUnlink created withReturned)
variable {F : Type} [DecidableEq F] {r : ArrayMemmapForwardReducer}

inductive Event (F : Type) where
  | acts (action : Action F)
  /-- A consumer releases a reference it was returned for an array. -/
  | release (f : Filename F) (array : Nat)
  /-- The parent gives up its own reference of each file of a folder. -/
  | cleanup (folder : F)

def initial : Shared F := ⟨.initial, [], fun _ => false, fun _ => false⟩

def world (s : Shared F) : World F := s.reducers.world

/-- How many references to a file are out. -/
def outOf (s : Shared F) (f : Filename F) : Nat := s.out.countP fun p => decide (p.1 = f)

/-- The reference a thread's call returns, if its access was the last. -/
def handed (before after : Pc F) : List (Filename F × Nat) :=
  match fileOf before, after with
  | some (a, _), .returned (.loadTemporaryMemmap f _ _) => [(f, a.id)]
  | _, _ => []

/-- One `maybe_unlink` for each of the files. -/
def unlinked (s : Shared F) (files : Filename F → Bool) : Reducers F :=
  {s.reducers with world := maybeUnlink files s.world}

/-- The files whose reference the parent gives up when it cleans the folder up. -/
def givenUp (s : Shared F) (folder : F) (f : Filename F) : Bool := decide (f.folder = folder) && s.kept f

/-- A thread has taken a step. -/
def acted (s : Shared F) (s' : Reducers F) : Action F → Shared F
  | .call _ _ => {s with reducers := s'}
  | .turn t _ =>
    { s with
      reducers := s'
      out := handed (s.reducers.threads t) (s'.threads t) ++ s.out
      kept := fun f => s.kept f || created s.world s'.world f }

def step (r : ArrayMemmapForwardReducer) (s : Shared F) : Event F → Option (Shared F)
  | .acts action => (s.reducers.step r action).map fun s' => s.acted s' action
  | .release f i =>
    if (f, i) ∈ s.out then
      some {s with reducers := s.unlinked fun g => decide (g = f), out := s.out.erase (f, i)}
    else none
  | .cleanup folder =>
    some
      { s with
        reducers := s.unlinked (s.givenUp folder)
        kept := fun f => s.kept f && !decide (f.folder = folder)
        cleaned := fun f => s.cleaned f || s.givenUp folder f }

/-! ### Calls that nothing interrupts -/

/-- What `References` says of it. -/
def references (s : Shared F) : References F := ⟨s.world, s.outOf, s.kept⟩

/-- A cleanup is the one of `References`, -/
theorem cleanup_references (s : Shared F) (folder : F) :
    (step r s (.cleanup folder)).map references = s.references.step r (.cleanup folder) := rfl

theorem countP_erase {out : List (Filename F × Nat)} {f : Filename F} {i : Nat} (h : (f, i) ∈ out) (g : Filename F) :
    ((out.erase (f, i)).countP fun p => decide (p.1 = g)) =
      (out.countP fun p => decide (p.1 = g)) - if f = g then 1 else 0 := by
  rw [List.countP_erase]
  simp [h]

/-- and so is a release. -/
theorem release_references {s : Shared F} {f : Filename F} {i : Nat} (h : (f, i) ∈ s.out) :
    (step r s (.release f i)).map references = s.references.step r (.release f) := by
  have hout : 0 < s.references.returned f := List.countP_pos_iff.mpr ⟨_, h, by simp⟩
  have hreturned : (fun g => (s.out.erase (f, i)).countP fun p => decide (p.1 = g)) =
      Function.update s.references.returned f (s.references.returned f - 1) := by
    funext g
    rw [countP_erase h]
    by_cases hgf : g = f
    · subst hgf
      rw [if_pos rfl, Function.update_self]
      rfl
    · rw [if_neg (Ne.symm hgf), Function.update_of_ne hgf]
      rfl
  simp only [step, if_pos h, References.step, if_pos hout, Option.map_some, Option.some.injEq]
  rw [← hreturned]
  rfl

/-- What an access hands out it hands out with the reducer's settings, -/
theorem turn_loads {t : Nat} {w w' : World F} {pc : Pc F} {choice : Choice F} {f : Filename F} {mode : String}
    {unlinks : Bool} (h : r.turn t w pc choice = some (.returned (.loadTemporaryMemmap f mode unlinks), w')) :
    (.returned (.loadTemporaryMemmap f mode unlinks) : Pc F) = .returned (r.loads f) := by
  cases pc with
  | pathExists a g =>
    cases choice with
    | go =>
      simp only [ArrayMemmapForwardReducer.turn, Option.some.injEq, Prod.mk.injEq] at h
      obtain ⟨h, _⟩ := h
      split at h
      · cases h
        rfl
      · cases h
    | _ => cases h
  | chmod a g =>
    cases choice with
    | go =>
      simp only [ArrayMemmapForwardReducer.turn, Option.some.injEq, Prod.mk.injEq] at h
      obtain ⟨h, _⟩ := h
      split at h
      · cases h
      · cases h
        rfl
    | _ => cases h
  | get a =>
    cases choice with
    | go =>
      simp only [ArrayMemmapForwardReducer.turn] at h
      split at h <;> cases h
    | _ => cases h
  | prewarm a g =>
    cases choice <;> cases h
    rfl
  | _ => cases choice <;> cases h

/-- and for the file the call is about. -/
theorem effect_returns {t : Nat} {w w' : World F} {pc pc' : Pc F} {choice : Choice F}
    (h : Effect r t w choice pc pc' w') {f : Filename F} (hpc' : pc' = .returned (r.loads f)) : ∃ a, fileOf pc = some (a, f) := by
  cases h with
  | quiet _ _ _ _ _ hreturns => obtain ⟨a, ⟨rfl, _⟩ | rfl | rfl⟩ := hreturns f hpc' <;> exact ⟨a, rfl⟩
  | _ => cases hpc'

/-- An access takes no file away. -/
theorem effect_grows {t : Nat} {w w' : World F} {pc pc' : Pc F} {choice : Choice F} (h : Effect r t w choice pc pc' w')
    {f : Filename F} (hf : (w.disk f).isSome = true) : (w'.disk f).isSome = true := by
  cases h with
  | quiet hdisk => exact hdisk ▸ hf
  | claims => exact hf
  | @opens a g => by_cases hfg : f = g <;> simp [World.openFile, hfg, hf]
  | @closes a g =>
    by_cases hfg : f = g
    · subst hfg
      simpa [World.closeFile] using hf
    · simpa [World.closeFile, hfg] using hf
  | fails => exact hf

/-- An access counts the references out as `References` does. -/
theorem outOf_handed {t : Nat} {w w' : World F} {pc pc' : Pc F} {choice : Choice F}
    (h : r.turn t w pc choice = some (pc', w')) (out : List (Filename F × Nat)) :
    (fun f => (handed pc pc' ++ out).countP fun p => decide (p.1 = f)) =
      withReturned (fun f => out.countP fun p => decide (p.1 = f)) pc' := by
  cases pc' with
  | returned reduced =>
    cases reduced with
    | loadTemporaryMemmap f mode unlinks =>
      obtain ⟨a, hfile⟩ := effect_returns (turn_effect h) (turn_loads h)
      have hhanded : handed pc (.returned (.loadTemporaryMemmap f mode unlinks)) = [(f, a.id)] := by
        unfold handed
        rw [hfile]
      rw [hhanded]
      funext g
      by_cases hgf : g = f
      · subst hgf
        simp [withReturned]
      · simp [withReturned, Function.update_of_ne hgf, Ne.symm hgf]
    | _ => simp [handed, withReturned]
  | _ => simp [handed, withReturned]

omit [DecidableEq F] in
/-- What is created is created once. -/
theorem created_trans {w w₁ w' : World F} {f : Filename F}
    (hfirst : (w.disk f).isSome = true → (w₁.disk f).isSome = true)
    (hthen : (w₁.disk f).isSome = true → (w'.disk f).isSome = true) :
    created w w' f = (created w w₁ f || created w₁ w' f) := by
  unfold created
  cases hw : w.disk f <;> cases hw₁ : w₁.disk f <;> cases hw' : w'.disk f <;> simp_all

omit [DecidableEq F] in
theorem created_self (w : World F) (f : Filename F) : created w w f = false := by
  unfold created
  cases w.disk f <;> rfl

theorem withReturned_of_not_free {returned : Filename F → Nat} {pc : Pc F} (h : pc.free = false) :
    withReturned returned pc = returned := by
  cases pc <;> first | rfl | cases h

/-- A thread at its caller's has no access to make. -/
theorem turn_free {t : Nat} {w : World F} {pc : Pc F} (h : pc.free = true) (choice : Choice F) :
    r.turn t w pc choice = none := by
  cases pc <;> first | rfl | cases h

/-- The accesses of one thread, nobody else doing anything. -/
theorem alone_turns (t : Nat) (choices : List (Choice F)) {s : Shared F} {pc : Pc F} {w : World F}
    (hpc : (s.reducers.threads t).free = false)
    (h : Runs.run (r.alone t) (s.reducers.threads t, s.world) choices = some (pc, w)) :
    (∀ f, (s.world.disk f).isSome = true → (w.disk f).isSome = true) ∧
      ∃ s', Runs.run (step r) s (choices.map fun choice => .acts (.turn t choice)) = some s' ∧
        s'.reducers = s.reducers.moved t pc w ∧
        s'.references = ⟨w, withReturned s.outOf pc, fun f => s.kept f || created s.world w f⟩ := by
  induction choices generalizing s with
  | nil =>
    obtain ⟨rfl, rfl⟩ : s.reducers.threads t = pc ∧ s.world = w := by simpa [Runs.run] using h
    refine ⟨fun _ hf => hf, s, rfl, ?_, ?_⟩
    · simp [moved, world]
    · simp [references, created_self, withReturned_of_not_free hpc]
  | cons choice rest ih =>
    obtain ⟨⟨pc₁, w₁⟩, hturn, hrest⟩ := Runs.run_cons h
    have hgrows := fun f => effect_grows (turn_effect (r := r) hturn) (f := f)
    have hreducers : s.reducers.step r (.turn t choice) = some (s.reducers.moved t pc₁ w₁) :=
      Option.map_eq_some_iff.mpr ⟨(pc₁, w₁), hturn, rfl⟩
    obtain ⟨s₁, hs₁⟩ : ∃ s₁, s₁ = s.acted (s.reducers.moved t pc₁ w₁) (.turn t choice) := ⟨_, rfl⟩
    have hstep : step r s (.acts (.turn t choice)) = some s₁ :=
      Option.map_eq_some_iff.mpr ⟨_, hreducers, hs₁.symm⟩
    have hmoved : s₁.reducers = s.reducers.moved t pc₁ w₁ := by rw [hs₁]; rfl
    have hself : s₁.reducers.threads t = pc₁ := hmoved ▸ moved_self ..
    have hworld : s₁.world = w₁ := congrArg Reducers.world hmoved
    have hkept : s₁.kept = fun f => s.kept f || created s.world w₁ f := by rw [hs₁]; rfl
    have hout : s₁.outOf = withReturned s.outOf pc₁ := by
      rw [hs₁]
      simp only [acted, moved_self]
      exact outOf_handed hturn s.out
    by_cases hfree : pc₁.free = true
    · -- it was the last access
      cases rest with
      | nil =>
        obtain ⟨rfl, rfl⟩ : pc₁ = pc ∧ w₁ = w := by simpa [Runs.run] using hrest
        refine ⟨hgrows, s₁, by simp [Runs.run, hstep], hmoved, ?_⟩
        simp only [references, hworld, hout, hkept]
      | cons next rest =>
        obtain ⟨_, hnext, _⟩ := Runs.run_cons hrest
        rw [ArrayMemmapForwardReducer.alone, turn_free hfree] at hnext
        cases hnext
    · have hbusy : pc₁.free = false := by simpa using hfree
      rw [← hself, ← hworld] at hrest
      obtain ⟨hgrows', s', hrun, hmoved', hreferences⟩ := ih (hself ▸ hbusy) hrest
      refine ⟨fun f hf => hgrows' f (hworld ▸ hgrows f hf), s', by simp [Runs.run, hstep, hrun], ?_, ?_⟩
      · simp [hmoved', hmoved, moved]
      · rw [hreferences, hout, hkept, hworld, withReturned_of_not_free hbusy]
        congr 1
        funext f
        rw [Bool.or_assoc, ← created_trans (hgrows f) (hworld ▸ hgrows' f)]

theorem reduce_free (t : Nat) (a : NdArray) (folder : F) (raises : Bool) (w : World F) :
    (r.reduce t a folder raises w).1.free = true := by
  unfold ArrayMemmapForwardReducer.reduce ArrayMemmapForwardReducer.backed
  dsimp only
  split
  · rfl
  · split
    · split
      · rfl
      · split <;> rfl
    · rfl

/-- A call that nothing interrupts is a reduction of `References`. -/
theorem reduction_references {s : Shared F} (hfree : ∀ t, (s.reducers.threads t).free = true) (t : Nat) (a : NdArray)
    (folder : F) (raises : Bool) :
    ∃ events s', Runs.run (step r) s events = some s' ∧ (∀ u, (s'.reducers.threads u).free = true) ∧
      s.references.step r (.reduce t a folder raises) = some s'.references := by
  obtain ⟨choices, hchoices⟩ := r.reduce_turns t a folder raises s.world
  have hend := reduce_free (r := r) t a folder raises s.world
  have hreduced : s.references.step r (.reduce t a folder raises) =
      some ⟨(r.reduce t a folder raises s.world).2, withReturned s.outOf (r.reduce t a folder raises s.world).1,
        fun f => s.kept f || created s.world (r.reduce t a folder raises s.world).2 f⟩ := rfl
  rw [hreduced]
  generalize r.reduce t a folder raises s.world = ended at hchoices hend
  obtain ⟨pc, w⟩ := ended
  obtain ⟨s₀, hs₀⟩ : ∃ s₀ : Shared F, s₀ = {s with reducers := s.reducers.moved t (r.begin a) s.world} := ⟨_, rfl⟩
  have hcall : step r s (.acts (.call t a)) = some s₀ := by
    simp only [step, Reducers.step, hfree t, if_true, Option.map_some, hs₀]
    rfl
  have hself : s₀.reducers.threads t = r.begin a := by
    rw [hs₀]
    exact moved_self ..
  have hreferences : s₀.references = s.references := by rw [hs₀]; rfl
  have hworld : s₀.world = s.world := congrArg References.world hreferences
  have hothers : ∀ pc w u, pc.free = true → ((s.reducers.moved t pc w).threads u).free = true := by
    intro pc w u hpc
    by_cases hut : u = t
    · subst hut
      rwa [moved_self]
    · rw [moved_other hut]
      exact hfree u
  by_cases hbegin : (r.begin a : Pc F).free = true
  · -- no file is involved
    cases choices with
    | cons choice rest =>
      obtain ⟨_, hturn, _⟩ := Runs.run_cons hchoices
      rw [ArrayMemmapForwardReducer.alone, turn_free hbegin] at hturn
      cases hturn
    | nil =>
      obtain ⟨rfl, rfl⟩ : r.begin a = pc ∧ s.world = w := by simpa [Runs.run] using hchoices
      have hreturned : withReturned s.outOf (r.begin a : Pc F) = s.outOf := by
        unfold ArrayMemmapForwardReducer.begin
        split
        · rfl
        · split <;> rfl
      refine ⟨[.acts (.call t a)], s₀, by simp [Runs.run, hcall], fun u => ?_, ?_⟩
      · rw [hs₀]
        exact hothers _ s.world u hbegin
      · rw [hreferences]
        simp only [references, hreturned, created_self, Bool.or_false]
  · have hbusy : (s₀.reducers.threads t).free = false := by simpa [hself] using hbegin
    rw [← hself, ← hworld] at hchoices
    obtain ⟨_, s', hrun, hmoved, hreferences'⟩ := alone_turns t choices hbusy hchoices
    refine ⟨.acts (.call t a) :: choices.map fun choice => .acts (.turn t choice), s', ?_, fun u => ?_, ?_⟩
    · simp only [Runs.run, hcall, Option.bind_some, hrun]
    · have hmoved' : s'.reducers = s.reducers.moved t pc w := by
        rw [hmoved, hs₀]
        simp [moved]
      rw [hmoved']
      exact hothers pc w u hend
    · rw [hreferences', hs₀]
      rfl

/-- **Every run of `References` is a run here**, its calls one after another. -/
theorem runs_references {events : List (References.Event F)} {s : Shared F} {c : References F}
    (hfree : ∀ t, (s.reducers.threads t).free = true) (h : Runs.run (References.step r) s.references events = some c) :
    ∃ events' s', Runs.run (step r) s events' = some s' ∧ s'.references = c := by
  induction events generalizing s with
  | nil => exact ⟨[], s, rfl, Option.some.inj h⟩
  | cons e rest ih =>
    obtain ⟨c₁, hc₁, hrest⟩ := Runs.run_cons h
    obtain ⟨first, s₁, hfirst, hfree₁, rfl⟩ : ∃ first s₁, Runs.run (step r) s first = some s₁ ∧
        (∀ t, (s₁.reducers.threads t).free = true) ∧ s₁.references = c₁ := by
      cases e with
      | reduce t a folder raises =>
        obtain ⟨first, s₁, hfirst, hfree₁, hreduced⟩ := reduction_references hfree t a folder raises
        exact ⟨first, s₁, hfirst, hfree₁, Option.some.inj (hreduced.symm.trans hc₁)⟩
      | release f =>
        have hout : 0 < s.references.returned f := by
          by_contra hnone
          simp only [References.step, if_neg hnone] at hc₁
          cases hc₁
        obtain ⟨⟨g, i⟩, hmem, hg⟩ := List.countP_pos_iff.mp hout
        obtain rfl : g = f := of_decide_eq_true hg
        obtain ⟨s₁, hs₁, rfl⟩ := Option.map_eq_some_iff.mp ((release_references (r := r) hmem).trans hc₁)
        have hsame : s₁.reducers.threads = s.reducers.threads := by
          simp only [step, if_pos hmem] at hs₁
          cases hs₁
          rfl
        exact ⟨[.release g i], s₁, by simp [Runs.run, hs₁], hsame ▸ hfree, rfl⟩
      | cleanup folder =>
        obtain ⟨s₁, hs₁, rfl⟩ := Option.map_eq_some_iff.mp ((cleanup_references (r := r) s folder).trans hc₁)
        have hsame : s₁.reducers.threads = s.reducers.threads := by
          cases hs₁
          rfl
        exact ⟨[.cleanup folder], s₁, by simp [Runs.run, hs₁], hsame ▸ hfree, rfl⟩
    obtain ⟨more, s', hmore, hs'⟩ := ih hfree₁ hrest
    exact ⟨first ++ more, s', by rw [Runs.run_append, hfirst]; exact hmore, hs'⟩

end Shared

end Joblib.Memmapping
