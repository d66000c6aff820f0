import Joblib.Memmapping.Dangling

/-! What is behind a reference stays as it is.

In an orderly run the file behind a reference is there (`Covered`). Where no test of a file is disputed
besides, one thread dumps a file at a time, only whole files are handed out, and a file that is whole is
not written to any more (`Whole`): the dump behind a reference is complete, and nobody touches it for as
long as such a reference is out (`stays_whole`). -/
namespace Joblib.Memmapping.Shared
open Reducers (fileOf Exclusive Stage Effect turn_effect moved moved_self step_call step_turn)
open References (bigFile)
variable {F : Type} [DecidableEq F] {r : ArrayMemmapForwardReducer}

/-- A thread tests for its file when no other is about to dump it or dumping it, and no dump into it
has raised. -/
def Undisputed (s : Shared F) (e : Event F) (_ : Shared F) : Prop :=
  ∀ action, e = .acts action → Reducers.Undisputed s.reducers action s.reducers

/-- One thread dumps a file at a time, and the files behind the references are whole. -/
structure Whole (s : Shared F) : Prop where
  exclusive : Exclusive s.reducers
  complete : ∀ f i file, (f, i) ∈ s.out → s.world.disk f = some file → file.complete = true

omit [DecidableEq F] in
theorem initial_whole : Whole (initial : Shared F) :=
  ⟨Reducers.initial_sound.exclusive, fun _ _ _ h => by cases h⟩

/-- A file that is whole is not written to any more. -/
theorem turn_keeps {s : Reducers F} (h : Exclusive s) {t : Nat} {choice : Choice F} {pc : Pc F} {w : World F}
    (heffect : Effect r t s.world choice (s.threads t) pc w) {f : Filename F} {file : File}
    (hfile : s.world.disk f = some file) (hcomplete : file.complete = true) : w.disk f = some file := by
  have hstage := h.stage t
  generalize s.threads t = before at heffect hstage
  cases heffect with
  | quiet hdisk => rw [hdisk, hfile]
  | claims => exact hfile
  | @opens a g =>
    have hnone : s.world.disk g = none := hstage
    have hne : f ≠ g := by
      rintro rfl
      rw [hnone] at hfile
      cases hfile
    simpa [World.openFile, Function.update_of_ne hne] using hfile
  | @closes a g =>
    have hopen : s.world.disk g = some ⟨a.id, t, false⟩ := hstage
    have hne : f ≠ g := by
      rintro rfl
      obtain rfl : ⟨a.id, t, false⟩ = file := Option.some.inj (hopen.symm.trans hfile)
      cases hcomplete
    simpa [World.closeFile, Function.update_of_ne hne] using hfile
  | fails => exact hfile

/-- An access hands out whole files only, and leaves those already out as they are. -/
theorem Whole.turn {s : Shared F} {parents : Filename F → Nat} (h : Whole s) (hcovered : Covered s parents) {t : Nat}
    {pc : Pc F} {w : World F} {choice : Choice F}
    (hturn : r.turn t s.world (s.reducers.threads t) choice = some (pc, w))
    (hundisputed : Reducers.Undisputed s.reducers (.turn t choice) s.reducers) :
    Whole (s.acted (s.reducers.moved t pc w) (.turn t choice)) := by
  have heffect := turn_effect hturn
  simp only [acted, moved_self]
  refine ⟨h.exclusive.turn heffect fun a f ha => (hundisputed t choice a f rfl ha).2, fun f i file hout hfile => ?_⟩
  rcases List.mem_append.mp hout with hnew | hold
  · have hsound : Reducers.Sound s.reducers := ⟨hcovered.named, hcovered.goesBy, h.exclusive⟩
    have hstep : s.reducers.step r (.turn t choice) = some (s.reducers.moved t pc w) :=
      Option.map_eq_some_iff.mpr ⟨(pc, w), hturn, rfl⟩
    obtain ⟨mode, unlinks, rfl⟩ : ∃ mode unlinks, pc = .returned (.loadTemporaryMemmap f mode unlinks) := by
      unfold handed at hnew
      split at hnew
      next _ _ g mode unlinks _ =>
        obtain ⟨rfl, rfl⟩ : f = g ∧ _ := by simpa using hnew
        exact ⟨mode, unlinks, rfl⟩
      next => cases hnew
    obtain ⟨_, file', _, hfile', _, hcomplete, _⟩ := hsound.handsOut hstep hundisputed t choice f rfl
      ((moved_self ..).trans (turn_loads hturn))
    obtain rfl := Option.some.inj (hfile'.symm.trans hfile)
    exact hcomplete
  · obtain ⟨file', hfile'⟩ := Option.isSome_iff_exists.mp (hcovered.out f i hold).1
    have hcomplete := h.complete f i file' hold hfile'
    obtain rfl := Option.some.inj ((turn_keeps h.exclusive heffect hfile' hcomplete).symm.trans hfile)
    exact hcomplete

/-- No thread at its dump loses its file to a `maybe_unlink`. -/
theorem Whole.unlinked {s s' : Shared F} {parents : Filename F → Nat} {files : Filename F → Bool} (h : Whole s)
    (hcovered : Covered s' parents) (hreducers : s'.reducers = s.unlinked files) (hout : ∀ p ∈ s'.out, p ∈ s.out) :
    Whole s' := by
  have hworld : s'.world = (s.unlinked files).world := congrArg Reducers.world hreducers
  have hthreads : s'.reducers.threads = s.reducers.threads := by rw [hreducers]; rfl
  have hdisk : ∀ g file, s'.world.disk g = some file → s.world.disk g = some file :=
    fun g file hg => disk_of_unlinked (hworld ▸ hg)
  have hbacked : ∀ t g, Backs g (s.reducers.threads t) → s'.world.disk g = s.world.disk g := by
    intro t g hbacks
    obtain ⟨file, hfile⟩ := Option.isSome_iff_exists.mp (hcovered.backs t g (hthreads ▸ hbacks))
    exact hfile.trans (hdisk g file hfile).symm
  refine ⟨⟨fun t => ?_, ?_, fun g file hg => ?_⟩,
    fun g i file hg hfile => h.complete g i file (hout _ hg) (hdisk g file hfile)⟩
  · have hstage := h.exclusive.stage t
    have hsame := hbacked t
    change Stage s'.world.disk t (s'.reducers.threads t)
    rw [hthreads]
    generalize s.reducers.threads t = pc at hstage hsame
    cases pc with
    | dump a g =>
      have hnone : s.world.disk g = none := hstage
      change s'.world.disk g = none
      rw [hworld, unlinked_disk, hnone, ite_self]
    | writing a g => exact (hsame g rfl).trans hstage
    | chmod a g | prewarm a g =>
      obtain ⟨file, hfile, hcomplete⟩ := hstage
      exact ⟨file, (hsame g rfl).trans hfile, hcomplete⟩
    | _ => trivial
  · rw [hthreads]
    exact h.exclusive.sole
  · rw [hreducers]
    exact h.exclusive.settled g file (hdisk g file hg)

/-- **Step: an undisputed event keeps the files whole**, -/
theorem Whole.step {s s' : Shared F} {e : Event F} (h : Whole s) (hsound : Sound s)
    (hunlink : r.unlinkOnGcCollect = true) (hs : Shared.step r s e = some s') (horderly : Orderly s e s')
    (hundisputed : Undisputed s e s') : Whole s' := by
  obtain ⟨_, hcovered', _⟩ := hsound.step hunlink hs horderly
  cases e with
  | acts action =>
    obtain ⟨_, hcovered, _⟩ := hsound
    obtain ⟨s₁, hs₁, rfl⟩ := Option.map_eq_some_iff.mp hs
    cases action with
    | call t a =>
      obtain ⟨hfree, rfl⟩ := step_call hs₁
      obtain ⟨heffect, _⟩ := Reducers.begin_effect (r := r) (a := a) hfree
      refine ⟨h.exclusive.turn heffect fun b f hb => ?_, h.complete⟩
      rw [hb] at hfree
      cases hfree
    | turn t choice =>
      obtain ⟨pc, w, hturn, rfl⟩ := step_turn hs₁
      exact h.turn hcovered hturn (hundisputed _ rfl)
  | release f i =>
    simp only [Shared.step] at hs
    split at hs
    next hout =>
      cases hs
      exact h.unlinked hcovered' rfl fun p hp => List.mem_of_mem_erase hp
    next => cases hs
  | cleanup folder =>
    cases hs
    exact h.unlinked hcovered' rfl fun p hp => hp

/-- and leaves what is behind a reference as it is. -/
theorem Whole.keeps {s s' : Shared F} {e : Event F} (h : Whole s) (hsound : Sound s)
    (hunlink : r.unlinkOnGcCollect = true) (hs : Shared.step r s e = some s') (horderly : Orderly s e s')
    {f : Filename F} {i : Nat} {file : File} (hout : (f, i) ∈ s.out) (hout' : (f, i) ∈ s'.out)
    (hfile : s.world.disk f = some file) : s'.world.disk f = some file := by
  have hcomplete := h.complete f i file hout hfile
  obtain ⟨_, hcovered', _⟩ := hsound.step hunlink hs horderly
  obtain ⟨file', hfile', _⟩ := hcovered'.backed hout'
  -- a `maybe_unlink` leaves a file as it is or takes it away
  have hsame : ∀ files, s'.reducers = s.unlinked files → s'.world.disk f = some file := by
    intro files hreducers
    have hworld : s'.world = (s.unlinked files).world := congrArg Reducers.world hreducers
    obtain rfl := Option.some.inj ((disk_of_unlinked (hworld ▸ hfile')).symm.trans hfile)
    exact hfile'
  cases e with
  | acts action =>
    obtain ⟨s₁, hs₁, rfl⟩ := Option.map_eq_some_iff.mp hs
    cases action with
    | call t a =>
      obtain ⟨_, rfl⟩ := step_call hs₁
      exact hfile
    | turn t choice =>
      obtain ⟨pc, w, hturn, rfl⟩ := step_turn hs₁
      exact turn_keeps h.exclusive (turn_effect hturn) hfile hcomplete
  | release g j =>
    simp only [Shared.step] at hs
    split at hs
    next =>
      cases hs
      exact hsame _ rfl
    next => cases hs
  | cleanup folder =>
    cases hs
    exact hsame _ rfl

/-- A step that is orderly and undisputed. -/
def Quiet (s : Shared F) (e : Event F) (s' : Shared F) : Prop := Orderly s e s' ∧ Undisputed s e s'

/-- **What is behind a reference is a complete dump of its array, and stays as it is** for as long as such a
reference is out, whatever the threads, the consumers and the parent do meanwhile. -/
theorem stays_whole (r : ArrayMemmapForwardReducer) (hunlink : r.unlinkOnGcCollect = true)
    (before after : List (Event F)) {s s' : Shared F} (hbefore : Runs.run (step r) initial before = some s)
    (hafter : Runs.run (step r) s after = some s') (hquiet : Runs.Every (step r) Quiet initial before)
    (hquiet' : Runs.Every (step r) Quiet s after) {f : Filename F} {i : Nat} (hout : (f, i) ∈ s.out)
    (hkept : Runs.Every (step r) (fun _ _ s' => (f, i) ∈ s'.out) s after) :
    ∃ file, s.world.disk f = some file ∧ file.array = i ∧ file.complete = true ∧ s'.world.disk f = some file := by
  obtain ⟨hsound, hwhole⟩ := Runs.guarded_run (I := fun s => Sound s ∧ Whole s) (G := Quiet)
    (fun _ _ _ h hs hguard => ⟨h.1.step hunlink hs hguard.1, h.2.step h.1 hunlink hs hguard.1 hguard.2⟩)
    ⟨⟨_, initial_covered, initial_owned⟩, initial_whole⟩ hquiet hbefore
  have ⟨_, hcovered, _⟩ := hsound
  obtain ⟨file, hfile, harray⟩ := hcovered.backed hout
  have hstays := Runs.guarded_run (I := fun s => Sound s ∧ Whole s ∧ (f, i) ∈ s.out ∧ s.world.disk f = some file)
    (fun _ _ _ h hs hguard => ⟨h.1.step hunlink hs hguard.1.1, h.2.1.step h.1 hunlink hs hguard.1.1 hguard.1.2,
      hguard.2, h.2.1.keeps h.1 hunlink hs hguard.1.1 h.2.2.1 hguard.2 h.2.2.2⟩)
    ⟨hsound, hwhole, hout, hfile⟩ (hquiet'.and hkept) hafter
  exact ⟨file, hfile, harray, hwhole.complete f i file hout hfile, hstays.2.2.2⟩

/-- What the threads do undisputed by themselves they do undisputed here. -/
theorem undisputed_acts {actions : List (Action F)} {s : Shared F}
    (h : Runs.Every (Reducers.step r) Reducers.Undisputed s.reducers actions) :
    Runs.Every (step r) Undisputed s (actions.map .acts) := by
  induction actions generalizing s with
  | nil => trivial
  | cons action rest ih =>
    intro s' hs'
    obtain ⟨s₁, hs₁, rfl⟩ := Option.map_eq_some_iff.mp hs'
    obtain ⟨hundisputed, hrest⟩ := h s₁ hs₁
    refine ⟨?_, ih ?_⟩
    · rintro _ ⟨⟩
      exact hundisputed
    · cases action <;> exact hrest

/-! Of two references to one file one is released, and the folder is cleaned up. -/

def bothOut : Shared String := (Runs.run (step reducer) initial (Reducers.reducedTwice.map .acts)).getD initial

def givingUp : List (Event String) := [.release bigFile 7, .cleanup "/dev/shm/joblib"]

def oneLeft : Shared String := (Runs.run (step reducer) bothOut givingUp).getD initial

/-- Nobody is in a call any more. -/
theorem givingUp_orderly : Runs.Every (step reducer) Orderly bothOut givingUp := by
  refine .cons rfl (.of_not_cleanup nofun fun _ => rfl) (.cons rfl ⟨fun folder f _ _ t a => ?_, nofun⟩ trivial)
  match t with
  | 0 => exact ⟨nofun, nofun⟩
  | t + 1 => exact ⟨nofun, nofun⟩

theorem stays_whole_shared :
    bothOut.out = [(bigFile, 7), (bigFile, 7)] ∧ oneLeft.out = [(bigFile, 7)] ∧ oneLeft.cleaned bigFile = true ∧
      ∃ file, bothOut.world.disk bigFile = some file ∧ file.array = 7 ∧ file.complete = true ∧
        oneLeft.world.disk bigFile = some file := by
  have hbefore : Runs.run (step reducer) initial (Reducers.reducedTwice.map .acts) = some bothOut := rfl
  have hafter : Runs.run (step reducer) bothOut givingUp = some oneLeft := rfl
  have hboth : bothOut.out = [(bigFile, 7), (bigFile, 7)] := rfl
  have hone : oneLeft.out = [(bigFile, 7)] := rfl
  refine ⟨hboth, hone, rfl, stays_whole reducer rfl _ _ hbefore hafter (.and ?_ (undisputed_acts ?_))
    (givingUp_orderly.and ?_) (hboth ▸ List.mem_cons_self ..) ?_⟩
  · exact orderly_until_cleanup (by simp) fun _ => rfl
  · refine Reducers.alone_undisputed reducer 0 _ fun action haction => ?_
    simp only [Reducers.reducedTwice, List.mem_append, List.mem_cons, List.mem_replicate] at haction
    grind
  · exact .of_forall_mem (fun _ e _ he action heq => by simp [givingUp, heq] at he) _
  · obtain ⟨s₁, hs₁, hrest⟩ := Runs.run_cons hafter
    obtain ⟨s₂, hs₂, hend⟩ := Runs.run_cons hrest
    obtain rfl := Option.some.inj hend
    refine .cons hs₁ ?_ (.cons hs₂ (hone ▸ List.mem_cons_self ..) trivial)
    obtain rfl := Option.some.inj hs₁
    exact List.mem_cons_self ..

end Joblib.Memmapping.Shared
