import Joblib.Memmapping.Reducer

/-! What backs the arrays a reducer hands out.

Any number of threads call one reducer. A thread that finds its file there hands it out as
it is, so the file had better be whole. It is unless another thread stands between its own
test of that file and the end of its dump, or a dump into that file has raised and left it
there: where every test finds neither (`Undisputed`), each file is dumped by one thread at a
time (`Exclusive`), and only whole files are handed out (`hands_out_complete`). -/
namespace Joblib.Memmapping

/-- One reducer and the threads that call it. -/
structure Reducers (F : Type) where
  world : World F
  threads : Nat → Pc F

inductive Action (F : Type) where
  /-- A thread calls the reducer on an array. -/
  | call (t : Nat) (a : NdArray)
  /-- A thread's next access. -/
  | turn (t : Nat) (choice : Choice F)

namespace Reducers
variable {F : Type} [DecidableEq F] (r : ArrayMemmapForwardReducer)

/-- A new reducer, no thread in it. -/
def initial : Reducers F := ⟨.initial, fun _ => .idle⟩

def step (s : Reducers F) : Action F → Option (Reducers F)
  | .call t a =>
    if (s.threads t).free then some {s with threads := Function.update s.threads t (r.begin a)} else none
  | .turn t choice =>
    (r.turn t s.world (s.threads t) choice).map fun next => ⟨next.2, Function.update s.threads t next.1⟩

/-- The array a thread's call is about, once it has a file name. -/
def fileOf : Pc F → Option (NdArray × Filename F)
  | .isNewMemmap a f | .add a f _ | .register a f _ | .registerNew a f _ | .pathExists a f | .dump a f
  | .writing a f | .chmod a f | .prewarm a f => some (a, f)
  | _ => none

/-- The thread has found no file, and its dump is not done. -/
def Claims (f : Filename F) : Pc F → Prop
  | .dump _ g | .writing _ g => g = f
  | _ => False

/-- A file handed out holds a complete dump of the call's array, and nobody is writing it. -/
def HandsOutComplete (s : Reducers F) (action : Action F) (s' : Reducers F) : Prop :=
  ∀ t choice f, action = .turn t choice → s'.threads t = .returned (r.loads f) →
    ∃ a file, fileOf (s.threads t) = some (a, f) ∧ s'.world.disk f = some file ∧ file.array = a.id ∧
      file.complete = true ∧ ∀ t' a', s'.threads t' ≠ .writing a' f

/-- A thread tests for its file when no other is about to dump it or dumping it, and no dump
into it has raised. -/
def Undisputed (s : Reducers F) (action : Action F) (_ : Reducers F) : Prop :=
  ∀ t choice a f, action = .turn t choice → s.threads t = .pathExists a f →
    f ∉ s.world.failed ∧ ∀ t', ¬ Claims f (s.threads t')

/-! ### What a turn does to the disk -/

/-- Everything a turn can do, as far as the files go. -/
inductive Effect (t : Nat) (w : World F) (choice : Choice F) : Pc F → Pc F → World F → Prop
  /-- It leaves the files alone, and hands one out only if it has tested or dumped it. -/
  | quiet {pc pc' : Pc F} {w' : World F} : w'.disk = w.disk → w'.failed = w.failed →
    (∀ a f, pc ≠ .writing a f) → (∀ f, ¬ Claims f pc') →
    (∀ a f, pc' = .chmod a f ∨ pc' = .prewarm a f → pc = .chmod a f ∨ pc = .prewarm a f) →
    (∀ f, pc' = .returned (r.loads f) →
      ∃ a, (pc = .pathExists a f ∧ (w.disk f).isSome = true) ∨ pc = .chmod a f ∨ pc = .prewarm a f) →
    Effect t w choice pc pc' w'
  | claims {a : NdArray} {f : Filename F} : w.disk f = none → Effect t w choice (.pathExists a f) (.dump a f) w
  | opens {a : NdArray} {f : Filename F} : Effect t w choice (.dump a f) (.writing a f) (w.openFile t a f)
  | closes {a : NdArray} {f : Filename F} : Effect t w choice (.writing a f) (.chmod a f) (w.closeFile t f)
  | fails {a : NdArray} {f : Filename F} : choice = .raises → Effect t w choice (.writing a f) .raised (w.failFile f)

theorem turn_effect {r : ArrayMemmapForwardReducer} {t : Nat} {w w' : World F} {pc pc' : Pc F} {choice : Choice F}
    (h : r.turn t w pc choice = some (pc', w')) : Effect r t w choice pc pc' w' := by
  cases pc with
  | idle => simp [ArrayMemmapForwardReducer.turn] at h
  | returned => simp [ArrayMemmapForwardReducer.turn] at h
  | raised => simp [ArrayMemmapForwardReducer.turn] at h
  | dump a f =>
    cases choice with
    | go =>
      cases h
      exact .opens
    | _ => cases h
  | writing a f =>
    cases choice with
    | go =>
      cases h
      exact .closes
    | raises =>
      cases h
      exact .fails rfl
    | _ => cases h
  | pathExists a f =>
    cases choice with
    | go =>
      cases h
      cases hdisk : w.disk f with
      | none => exact .claims hdisk
      | some file =>
        refine .quiet rfl rfl (by simp) (by simp [Claims]) (by simp) fun g hg => ⟨a, .inl ⟨?_, ?_⟩⟩
        · simp [ArrayMemmapForwardReducer.loads] at hg
          rw [hg]
        · simp [ArrayMemmapForwardReducer.loads] at hg
          simp [← hg, hdisk]
    | _ => cases h
  | get a =>
    cases choice with
    | go =>
      simp only [ArrayMemmapForwardReducer.turn] at h
      split at h <;>
      · cases h
        exact .quiet rfl rfl (by simp) (by simp [Claims]) (by simp) (by simp)
    | _ => cases h
  | register a f isNew | registerNew a f isNew =>
    cases choice with
    | go =>
      cases h
      exact .quiet (by split <;> rfl) (by split <;> rfl) (by simp) (by simp [Claims]) (by simp) (by simp)
    | _ => cases h
  | chmod a f =>
    cases choice with
    | go =>
      simp only [ArrayMemmapForwardReducer.turn] at h
      split at h <;>
      · cases h
        exact .quiet rfl rfl (by simp) (by simp [Claims]) (by simp) (by simp [ArrayMemmapForwardReducer.loads])
    | raises =>
      cases h
      exact .quiet rfl rfl (by simp) (by simp [Claims]) (by simp) (by simp)
    | _ => cases h
  | _ =>
    cases choice <;> cases h <;>
      exact .quiet rfl rfl (by simp) (by simp [Claims]) (by simp) (by simp [ArrayMemmapForwardReducer.loads])

/-! ### A name is of one array -/

/-- The name a thread's call goes by. -/
def nameOf : Pc F → Option (NdArray × Basename)
  | .join a basename => some (a, basename)
  | pc => (fileOf pc).map fun named => (named.1, named.2.basename)

/-- The names in the map and on the disk are those drawn for their arrays. -/
structure Named (w : World F) : Prop where
  arrays : ∀ i basename, w.memmapedArrays i = some basename → w.drawn[basename.uuid]? = some i
  files : ∀ f file, w.disk f = some file → w.drawn[f.basename.uuid]? = some file.array

omit [DecidableEq F] in
theorem Named.initial : Named (.initial : World F) := ⟨fun _ _ h => (by cases h), fun _ _ h => by cases h⟩

/-- And so is the name a thread goes by. -/
def GoesBy (w : World F) (pc : Pc F) : Prop :=
  ∀ a basename, nameOf pc = some (a, basename) → w.drawn[basename.uuid]? = some a.id

omit [DecidableEq F] in
theorem GoesBy.nameless {w : World F} {pc : Pc F} (h : nameOf pc = none) : GoesBy w pc := by
  intro a basename hname
  rw [h] at hname
  cases hname

theorem drawn_grows {drawn more : List Nat} {uuid i : Nat} (h : drawn[uuid]? = some i) :
    (drawn ++ more)[uuid]? = some i := by
  rw [List.getElem?_append_left (List.getElem?_eq_some_iff.mp h).1]
  exact h

omit [DecidableEq F] in
theorem GoesBy.grows {w w' : World F} {pc : Pc F} (h : GoesBy w pc) (hdrawn : w.drawn <+: w'.drawn) : GoesBy w' pc := by
  obtain ⟨more, hmore⟩ := hdrawn
  exact fun a basename hname => hmore ▸ drawn_grows (h a basename hname)

omit [DecidableEq F] in
theorem Named.name {w : World F} (h : Named w) (t : Nat) (a : NdArray) :
    Named (w.name t a) ∧ (w.name t a).drawn[w.drawn.length]? = some a.id := by
  refine ⟨⟨fun i basename hi => ?_, fun f file hf => drawn_grows (h.files f file hf)⟩, by simp [World.name]⟩
  by_cases ha : i = a.id
  · subst ha
    have hnew : ⟨t, w.drawn.length⟩ = basename := by simpa [World.name] using hi
    simp [World.name, ← hnew]
  · have hold : w.memmapedArrays i = some basename := by simpa [World.name, Function.update_of_ne ha] using hi
    exact drawn_grows (h.arrays i basename hold)

theorem Named.openFile {w : World F} (h : Named w) (t : Nat) {a : NdArray} {f : Filename F}
    (hname : w.drawn[f.basename.uuid]? = some a.id) : Named (w.openFile t a f) := by
  refine ⟨h.arrays, fun g file hg => ?_⟩
  by_cases hgf : g = f
  · subst hgf
    have hfile : ⟨a.id, t, false⟩ = file := by simpa [World.openFile] using hg
    rw [← hfile]
    exact hname
  · exact h.files g file (by simpa [World.openFile, Function.update_of_ne hgf] using hg)

theorem Named.closeFile {w : World F} (h : Named w) (t : Nat) (f : Filename F) : Named (w.closeFile t f) := by
  refine ⟨h.arrays, fun g file hg => ?_⟩
  by_cases hgf : g = f
  · subst hgf
    obtain ⟨before, hbefore, rfl⟩ : ∃ before, w.disk g = some before ∧
        {before with complete := before.complete || before.opener == t} = file := by
      simpa [World.closeFile] using hg
    exact h.files g before hbefore
  · exact h.files g file (by simpa [World.closeFile, Function.update_of_ne hgf] using hg)

/-- Step: names are drawn, looked up and carried on. -/
theorem turn_named {r : ArrayMemmapForwardReducer} {t : Nat} {w w' : World F} {pc pc' : Pc F} {choice : Choice F}
    (h : r.turn t w pc choice = some (pc', w')) (hw : Named w) (hpc : GoesBy w pc) :
    Named w' ∧ GoesBy w' pc' ∧ w.drawn <+: w'.drawn := by
  cases pc with
  | set a =>
    cases choice with
    | go =>
      cases h
      obtain ⟨hnamed, hnew⟩ := hw.name t a
      refine ⟨hnamed, fun b basename hb => ?_, List.prefix_append _ _⟩
      obtain ⟨rfl, rfl⟩ : a = b ∧ ⟨t, w.drawn.length⟩ = basename := by simpa [nameOf] using hb
      exact hnew
    | _ => cases h
  | get a =>
    cases choice with
    | go =>
      simp only [ArrayMemmapForwardReducer.turn] at h
      split at h
      next basename hfound =>
        cases h
        refine ⟨hw, fun b other hb => ?_, List.prefix_rfl⟩
        obtain ⟨rfl, rfl⟩ : a = b ∧ basename = other := by simpa [nameOf] using hb
        exact hw.arrays _ _ hfound
      next =>
        cases h
        exact ⟨hw, .nameless rfl, List.prefix_rfl⟩
    | _ => cases h
  | dump a f =>
    cases choice with
    | go =>
      cases h
      exact ⟨hw.openFile t (hpc a f.basename rfl), hpc, List.prefix_rfl⟩
    | _ => cases h
  | writing a f =>
    cases choice with
    | go =>
      cases h
      exact ⟨hw.closeFile t f, hpc, List.prefix_rfl⟩
    | raises =>
      cases h
      exact ⟨⟨hw.arrays, hw.files⟩, .nameless rfl, List.prefix_rfl⟩
    | _ => cases h
  | register a f isNew | registerNew a f isNew =>
    cases choice with
    | go =>
      cases h
      split <;> exact ⟨⟨hw.arrays, hw.files⟩, hpc, List.prefix_rfl⟩
    | _ => cases h
  | pathExists a f =>
    cases choice with
    | go =>
      cases h
      split
      · exact ⟨hw, .nameless rfl, List.prefix_rfl⟩
      · exact ⟨hw, hpc, List.prefix_rfl⟩
    | _ => cases h
  | chmod a f =>
    cases choice with
    | go =>
      cases h
      split
      · exact ⟨hw, hpc, List.prefix_rfl⟩
      · exact ⟨hw, .nameless rfl, List.prefix_rfl⟩
    | raises =>
      cases h
      exact ⟨hw, .nameless rfl, List.prefix_rfl⟩
    | _ => cases h
  | join | isNewMemmap | add =>
    cases choice <;> cases h
    exact ⟨⟨hw.arrays, hw.files⟩, hpc, List.prefix_rfl⟩
  | _ =>
    cases choice <;> cases h <;>
      exact ⟨hw, .nameless rfl, List.prefix_rfl⟩

/-! ### A file is dumped by one thread at a time -/

/-- What a thread at its dump may rely on. -/
def Stage (disk : Filename F → Option File) (t : Nat) : Pc F → Prop
  | .dump _ f => disk f = none
  | .writing a f => disk f = some ⟨a.id, t, false⟩
  | .chmod _ f | .prewarm _ f => ∃ file, disk f = some file ∧ file.complete = true
  | _ => True

structure Exclusive (s : Reducers F) : Prop where
  stage : ∀ t, Stage s.world.disk t (s.threads t)
  sole : ∀ t t' f, Claims f (s.threads t) → Claims f (s.threads t') → t = t'
  settled : ∀ f file, s.world.disk f = some file →
    file.complete = true ∨ f ∈ s.world.failed ∨ ∃ t a, s.threads t = .writing a f

/-- The thread `t` moves. -/
def moved (s : Reducers F) (t : Nat) (pc : Pc F) (w : World F) : Reducers F := ⟨w, Function.update s.threads t pc⟩

omit [DecidableEq F] in
theorem moved_self (s : Reducers F) (t : Nat) (pc : Pc F) (w : World F) : (s.moved t pc w).threads t = pc :=
  Function.update_self ..

omit [DecidableEq F] in
theorem moved_other {t t' : Nat} (h : t' ≠ t) (s : Reducers F) (pc : Pc F) (w : World F) :
    (s.moved t pc w).threads t' = s.threads t' :=
  Function.update_of_ne h ..

omit [DecidableEq F] in
theorem stage_moved {s : Reducers F} {t : Nat} {pc : Pc F} {w : World F} (hself : Stage w.disk t pc)
    (hothers : ∀ u, u ≠ t → Stage w.disk u (s.threads u)) (u : Nat) :
    Stage (s.moved t pc w).world.disk u ((s.moved t pc w).threads u) := by
  by_cases hut : u = t
  · subst hut
    rw [moved_self]
    exact hself
  · rw [moved_other hut]
    exact hothers u hut

omit [DecidableEq F] in
/-- A thread that makes no new claim leaves the claims as they are. -/
theorem Exclusive.sole_moved {s : Reducers F} (h : Exclusive s) {t : Nat} {pc : Pc F} (w : World F)
    (hpc : ∀ f, Claims f pc → Claims f (s.threads t)) :
    ∀ u u' f, Claims f ((s.moved t pc w).threads u) → Claims f ((s.moved t pc w).threads u') → u = u' := by
  have hkept : ∀ u f, Claims f ((s.moved t pc w).threads u) → Claims f (s.threads u) := by
    intro u f hu
    by_cases hut : u = t
    · subst hut
      rw [moved_self] at hu
      exact hpc f hu
    · rwa [moved_other hut] at hu
  exact fun u u' f hu hu' => h.sole u u' f (hkept u f hu) (hkept u' f hu')

omit [DecidableEq F] in
/-- A file the thread has not been writing is as settled as before. -/
theorem Exclusive.settled_moved {s : Reducers F} (h : Exclusive s) {t : Nat} {pc : Pc F} {w : World F} {g : Filename F}
    {file : File} (hfile : s.world.disk g = some file) (hfailed : g ∈ s.world.failed → g ∈ w.failed)
    (hwriting : ∀ a, s.threads t ≠ .writing a g) :
    file.complete = true ∨ g ∈ w.failed ∨ ∃ u a, (s.moved t pc w).threads u = .writing a g := by
  rcases h.settled g file hfile with hwhole | hin | ⟨u, a, hu⟩
  · exact .inl hwhole
  · exact .inr (.inl (hfailed hin))
  · refine .inr (.inr ⟨u, a, ?_⟩)
    have hut : u ≠ t := by
      rintro rfl
      exact hwriting a hu
    rwa [moved_other hut]

/-- A file the thread does not touch, and a thread that is not it. -/
theorem Stage.other {disk disk' : Filename F → Option File} {t : Nat} {pc : Pc F} {f : Filename F}
    (h : Stage disk t pc) (hdisk : ∀ g, g ≠ f → disk' g = disk g) (hclaims : ¬ Claims f pc)
    (hcomplete : ∀ file, disk f = some file → file.complete = true → ∃ file', disk' f = some file' ∧ file'.complete = true) :
    Stage disk' t pc := by
  cases pc with
  | dump a g =>
    have hg : disk' g = disk g := hdisk g hclaims
    exact hg.trans h
  | writing a g =>
    have hg : disk' g = disk g := hdisk g hclaims
    exact hg.trans h
  | chmod a g | prewarm a g =>
    obtain ⟨file, hfile, hdone⟩ := h
    by_cases hgf : g = f
    · subst hgf
      exact hcomplete file hfile hdone
    · exact ⟨file, (hdisk g hgf).trans hfile, hdone⟩
  | _ => trivial

/-- Step: an undisputed thread dumps alone, and what it leaves is whole or known to have failed. -/
theorem Exclusive.turn {r : ArrayMemmapForwardReducer} {s : Reducers F} {t : Nat} {choice : Choice F} {pc : Pc F}
    {w : World F} (h : Exclusive s) (heffect : Effect r t s.world choice (s.threads t) pc w)
    (hundisputed : ∀ a f, s.threads t = .pathExists a f → ∀ t', ¬ Claims f (s.threads t')) :
    Exclusive (s.moved t pc w) := by
  have hstage := h.stage t
  generalize hpc : s.threads t = before at heffect
  rw [hpc] at hstage
  cases heffect with
  | quiet hdisk hfailed hwriting hclaims hdone _ =>
    refine ⟨stage_moved ?_ fun u _ => hdisk.symm ▸ h.stage u, h.sole_moved _ fun f hf => (hclaims f hf).elim,
      fun f file hfile => ?_⟩
    · rw [hdisk]
      cases pc with
      | dump a f => exact (hclaims f rfl).elim
      | writing a f => exact (hclaims f rfl).elim
      | chmod a f =>
        rcases hdone a f (.inl rfl) with rfl | rfl <;> exact hstage
      | prewarm a f =>
        rcases hdone a f (.inr rfl) with rfl | rfl <;> exact hstage
      | _ => trivial
    · exact h.settled_moved (hdisk ▸ hfile) (fun hin => hfailed.symm ▸ hin) fun a => hpc ▸ hwriting a f
  | @claims a f hnone =>
    refine ⟨stage_moved hnone fun u _ => h.stage u, fun u u' g hu hu' => ?_,
      fun g file hfile => h.settled_moved hfile id (by simp [hpc])⟩
    -- nobody else claims this file
    have honly : ∀ v, Claims f ((s.moved t (.dump a f) s.world).threads v) → v = t := by
      intro v hv
      by_contra hvt
      rw [moved_other hvt] at hv
      exact hundisputed a f hpc v hv
    by_cases hgf : g = f
    · subst hgf
      exact (honly u hu).trans (honly u' hu').symm
    · have hold : ∀ v, Claims g ((s.moved t (.dump a f) s.world).threads v) → Claims g (s.threads v) := by
        intro v hv
        by_cases hvt : v = t
        · subst hvt
          rw [moved_self] at hv
          exact absurd hv.symm hgf
        · rwa [moved_other hvt] at hv
      exact h.sole u u' g (hold u hu) (hold u' hu')
  | @opens a f =>
    have hnone : s.world.disk f = none := hstage
    have hclaimed : Claims f (s.threads t) := by
      rw [hpc]
      rfl
    refine ⟨stage_moved (Function.update_self ..) fun u hut => ?_, h.sole_moved _ fun g hg => hpc ▸ hg,
      fun g file hfile => ?_⟩
    · refine (h.stage u).other (f := f) (fun g hgf => Function.update_of_ne hgf ..)
        (fun hclaims => hut (h.sole u t f hclaims hclaimed)) fun file hfile _ => ?_
      rw [hnone] at hfile
      cases hfile
    · by_cases hgf : g = f
      · subst hgf
        exact .inr (.inr ⟨t, a, moved_self ..⟩)
      · have hold : s.world.disk g = some file := by simpa [World.openFile, moved, Function.update_of_ne hgf] using hfile
        exact h.settled_moved hold id (by simp [hpc])
  | @closes a f =>
    have hopen : s.world.disk f = some ⟨a.id, t, false⟩ := hstage
    have hclosed : (s.world.closeFile t f).disk f = some ⟨a.id, t, true⟩ := by simp [World.closeFile, hopen]
    have hclaimed : Claims f (s.threads t) := by
      rw [hpc]
      rfl
    refine ⟨stage_moved ⟨_, hclosed, rfl⟩ fun u hut => ?_, h.sole_moved _ fun g hg => hg.elim, fun g file hfile => ?_⟩
    · exact (h.stage u).other (f := f) (fun g hgf => Function.update_of_ne hgf ..)
        (fun hclaims => hut (h.sole u t f hclaims hclaimed)) fun _ _ _ => ⟨_, hclosed, rfl⟩
    · by_cases hgf : g = f
      · subst hgf
        obtain rfl : ⟨a.id, t, true⟩ = file := Option.some.inj (hclosed.symm.trans hfile)
        exact .inl rfl
      · have hold : s.world.disk g = some file := by simpa [World.closeFile, moved, Function.update_of_ne hgf] using hfile
        exact h.settled_moved hold id fun b => by simp [hpc, Ne.symm hgf]
  | @fails a f _ =>
    refine ⟨stage_moved trivial fun u _ => h.stage u, h.sole_moved _ fun g hg => hg.elim, fun g file hfile => ?_⟩
    by_cases hgf : g = f
    · subst hgf
      exact .inr (.inl (List.mem_cons_self ..))
    · exact h.settled_moved hfile (List.mem_cons_of_mem _) fun b => by simp [hpc, Ne.symm hgf]

/-! ### Runs -/

section Steps
variable {r : ArrayMemmapForwardReducer} {s s' : Reducers F}

theorem step_call {t : Nat} {a : NdArray} (h : s.step r (.call t a) = some s') :
    (s.threads t).free = true ∧ s' = s.moved t (r.begin a) s.world := by
  simp only [step] at h
  split at h
  next hfree => exact ⟨hfree, (Option.some.inj h).symm⟩
  next => cases h

theorem step_turn {t : Nat} {choice : Choice F} (h : s.step r (.turn t choice) = some s') :
    ∃ pc w, r.turn t s.world (s.threads t) choice = some (pc, w) ∧ s' = s.moved t pc w := by
  obtain ⟨⟨pc, w⟩, hturn, heq⟩ := Option.map_eq_some_iff.mp h
  exact ⟨pc, w, hturn, heq.symm⟩

end Steps

/-- What holds throughout an undisputed run. -/
structure Sound (s : Reducers F) : Prop where
  named : Named s.world
  goesBy : ∀ t, GoesBy s.world (s.threads t)
  exclusive : Exclusive s

omit [DecidableEq F] in
theorem initial_sound : Sound (initial : Reducers F) where
  named := .initial
  goesBy _ _ _ h := by cases h
  exclusive := ⟨fun _ => trivial, fun _ _ _ h => h.elim, fun _ _ h => by cases h⟩

omit [DecidableEq F] in
theorem goesBy_moved {s : Reducers F} (h : ∀ u, GoesBy s.world (s.threads u)) {t : Nat} {pc : Pc F} {w : World F}
    (hpc : GoesBy w pc) (hdrawn : s.world.drawn <+: w.drawn) (u : Nat) :
    GoesBy w ((s.moved t pc w).threads u) := by
  by_cases hut : u = t
  · subst hut
    rw [moved_self]
    exact hpc
  · rw [moved_other hut]
    exact (h u).grows hdrawn

/-- A call claims nothing yet. -/
theorem begin_effect {r : ArrayMemmapForwardReducer} {s : Reducers F} {t : Nat} {a : NdArray}
    (hfree : (s.threads t).free = true) :
    Effect r t s.world .go (s.threads t) (r.begin a) s.world ∧ nameOf (r.begin a : Pc F) = none := by
  have hwriting : ∀ b f, s.threads t ≠ .writing b f := by
    intro b f heq
    rw [heq] at hfree
    cases hfree
  unfold ArrayMemmapForwardReducer.begin
  split
  · exact ⟨.quiet rfl rfl hwriting (by simp [Claims]) (by simp) (by simp [ArrayMemmapForwardReducer.loads]), rfl⟩
  · split
    · exact ⟨.quiet rfl rfl hwriting (by simp [Claims]) (by simp) (by simp), rfl⟩
    · exact ⟨.quiet rfl rfl hwriting (by simp [Claims]) (by simp) (by simp [ArrayMemmapForwardReducer.loads]), rfl⟩

/-- **Step: an undisputed step stays sound**, -/
theorem Sound.step {r : ArrayMemmapForwardReducer} {s s' : Reducers F} {action : Action F} (h : Sound s)
    (hs : s.step r action = some s') (hundisputed : Undisputed s action s') : Sound s' := by
  cases action with
  | call t a =>
    obtain ⟨hfree, rfl⟩ := step_call hs
    obtain ⟨heffect, hname⟩ := begin_effect (r := r) (a := a) hfree
    refine ⟨h.named, goesBy_moved h.goesBy (.nameless hname) List.prefix_rfl, h.exclusive.turn heffect fun b f hb => ?_⟩
    rw [hb] at hfree
    cases hfree
  | turn t choice =>
    obtain ⟨pc, w, hturn, rfl⟩ := step_turn hs
    obtain ⟨hnamed, hpc, hdrawn⟩ := turn_named hturn h.named (h.goesBy t)
    exact ⟨hnamed, goesBy_moved h.goesBy hpc hdrawn,
      h.exclusive.turn (turn_effect hturn) fun a f ha => (hundisputed t choice a f rfl ha).2⟩

/-- and hands out only complete dumps. -/
theorem Sound.handsOut {r : ArrayMemmapForwardReducer} {s s' : Reducers F} {action : Action F} (h : Sound s)
    (hs : s.step r action = some s') (hundisputed : Undisputed s action s') : HandsOutComplete r s action s' := by
  rintro t choice f rfl hreturned
  obtain ⟨pc, w, hturn, rfl⟩ := step_turn hs
  rw [moved_self] at hreturned
  subst hreturned
  have heffect := turn_effect hturn
  have hstage := h.exclusive.stage t
  have hname := h.goesBy t
  have hundisputed := hundisputed t choice
  generalize hpc : s.threads t = pc at heffect hstage hname hundisputed
  cases heffect with
  | quiet hdisk hfailed hwriting hclaims hdone hreturns =>
    obtain ⟨a, hat⟩ := hreturns f rfl
    -- whichever way it got there, the file is whole and nobody writes it
    have hwhole : ∃ file, s.world.disk f = some file ∧ file.complete = true ∧ ∀ u b, s.threads u ≠ .writing b f := by
      rcases hat with ⟨rfl, hsome⟩ | hdumped
      · obtain ⟨hworked, hnone⟩ := hundisputed a f rfl rfl
        have hwriters : ∀ u b, s.threads u ≠ .writing b f := by
          intro u b hu
          refine hnone u ?_
          rw [hu]
          rfl
        obtain ⟨file, hfile⟩ := Option.isSome_iff_exists.mp hsome
        rcases h.exclusive.settled f file hfile with hcomplete | hin | ⟨u, b, hu⟩
        · exact ⟨file, hfile, hcomplete, hwriters⟩
        · exact absurd hin hworked
        · exact absurd hu (hwriters u b)
      · obtain ⟨file, hfile, hcomplete⟩ : ∃ file, s.world.disk f = some file ∧ file.complete = true := by
          rcases hdumped with rfl | rfl <;> exact hstage
        refine ⟨file, hfile, hcomplete, fun u b hu => ?_⟩
        have hopen := h.exclusive.stage u
        rw [hu] at hopen
        obtain rfl : file = ⟨b.id, u, false⟩ := Option.some.inj (hfile.symm.trans hopen)
        cases hcomplete
    obtain ⟨file, hfile, hcomplete, hwriters⟩ := hwhole
    have hfileOf : fileOf pc = some (a, f) ∧ nameOf pc = some (a, f.basename) := by
      rcases hat with ⟨rfl, _⟩ | rfl | rfl <;> exact ⟨rfl, rfl⟩
    have harray : file.array = a.id :=
      Option.some.inj ((h.named.files f file hfile).symm.trans (hname a f.basename hfileOf.2))
    refine ⟨a, file, hpc ▸ hfileOf.1, hdisk.symm ▸ hfile, harray, hcomplete, fun u b hu => ?_⟩
    by_cases hut : u = t
    · subst hut
      rw [moved_self] at hu
      cases hu
    · rw [moved_other hut] at hu
      exact hwriters u b hu

/-- **In every undisputed run of any number of threads, whatever is handed out is a complete
dump of its array that nobody is writing.** -/
theorem hands_out_complete (r : ArrayMemmapForwardReducer) (actions : List (Action F))
    (hundisputed : Runs.Every (step r) Undisputed initial actions) :
    Runs.Every (step r) (HandsOutComplete r) initial actions :=
  Runs.every_of_guarded (fun _ _ _ h hs hguard => ⟨h.step hs hguard, h.handsOut hs hguard⟩) initial_sound hundisputed

/-- One thread, none of whose dumps raises, disputes nothing. -/
theorem alone_undisputed (r : ArrayMemmapForwardReducer) (t : Nat) (actions : List (Action F))
    (halone : ∀ action ∈ actions, (∃ a, action = .call t a) ∨ ∃ choice, action = .turn t choice ∧ choice ≠ .raises) :
    Runs.Every (step r) Undisputed initial actions := by
  refine Runs.every_of_guarded (I := fun s => s.world.failed = [] ∧ ∀ u, u ≠ t → s.threads u = .idle)
    (G := fun _ action _ => (∃ a, action = .call t a) ∨ ∃ choice, action = .turn t choice ∧ choice ≠ .raises)
    ?_ ⟨rfl, fun _ _ => rfl⟩ (.of_forall_mem (fun _ action _ hmem => halone action hmem) _)
  rintro s action s' ⟨hfailed, hidle⟩ hs hthread
  refine ⟨?_, fun u choice a f _ hpc => ⟨by simp [hfailed], fun v hclaims => ?_⟩⟩
  · rcases hthread with ⟨a, rfl⟩ | ⟨choice, rfl, hgo⟩
    · obtain ⟨_, rfl⟩ := step_call hs
      exact ⟨hfailed, fun u hut => (moved_other hut ..).trans (hidle u hut)⟩
    · obtain ⟨pc, w, hturn, rfl⟩ := step_turn hs
      refine ⟨?_, fun u hut => (moved_other hut ..).trans (hidle u hut)⟩
      have heffect := turn_effect hturn
      generalize s.threads t = before at heffect
      cases heffect with
      | quiet _ hkept => exact hkept.trans hfailed
      | fails hraises => exact absurd hraises hgo
      | _ => exact hfailed
  · have hut : u = t := by
      by_contra hne
      rw [hidle u hne] at hpc
      cases hpc
    by_cases hvt : v = t
    · rw [hvt, ← hut, hpc] at hclaims
      exact hclaims
    · rw [hidle v hvt] at hclaims
      exact hclaims

/-- A thread reduces an array and reduces it again. -/
def reducedTwice : List (Action String) :=
  .call 0 bigArray :: List.replicate 3 (.turn 0 .go) ++ .turn 0 (.answers "/dev/shm/joblib") ::
    List.replicate 8 (.turn 0 .go) ++ .call 0 bigArray :: List.replicate 2 (.turn 0 .go) ++
    .turn 0 (.answers "/dev/shm/joblib") :: List.replicate 5 (.turn 0 .go)

theorem hands_out_complete_twice :
    (Runs.run (step reducer) initial reducedTwice).map (fun s => s.threads 0) =
        some (.returned (reducer.loads ⟨"/dev/shm/joblib", 0, 0⟩)) ∧
      Runs.Every (step reducer) (HandsOutComplete reducer) initial reducedTwice := by
  refine ⟨rfl, hands_out_complete reducer reducedTwice (alone_undisputed reducer 0 reducedTwice ?_)⟩
  intro action haction
  simp only [reducedTwice, List.mem_append, List.mem_cons, List.mem_replicate] at haction
  grind

/-! The disk is full when the array is first dumped; the retry finds the file. -/

def retried : List (Action String) :=
  .call 0 bigArray :: List.replicate 3 (.turn 0 .go) ++ .turn 0 (.answers "/dev/shm/joblib") ::
    List.replicate 6 (.turn 0 .go) ++ .turn 0 .raises :: .call 0 bigArray :: List.replicate 2 (.turn 0 .go) ++
    .turn 0 (.answers "/dev/shm/joblib") :: List.replicate 4 (.turn 0 .go)

theorem retry_hands_out_partial :
    ¬ Runs.Every (step reducer) (HandsOutComplete reducer) initial (retried ++ [.turn 0 .go]) := by
  intro h
  have hlast := h.last (t := (Runs.run (step reducer) initial retried).getD initial) rfl rfl
  obtain ⟨a, file, _, hfile, _, hcomplete, _⟩ := hlast 0 .go ⟨"/dev/shm/joblib", 0, 0⟩ rfl rfl
  obtain rfl := Option.some.inj hfile
  cases hcomplete

end Reducers

end Joblib.Memmapping
