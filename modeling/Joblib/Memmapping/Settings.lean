import Joblib.Runtime.Python
import Joblib.Memmapping.Reducer

/-! The settings of a reducer and what pickling makes of them.

`__init__` works out what `prewarm='auto'` means and then stores the argument itself, so
`'auto'` is as good as `True`. `__reduce__` hands four of the settings to the constructor
and the other two over as state; but the state's `'prewarm'` becomes an attribute that
nothing reads, and the constructor sets `_prewarm` to its default. So a rebuilt reducer
reads every array it dumps, whatever it was told (`roundTrips_eq`, `settings_hold_iff`). -/
namespace Joblib.Memmapping

/-- `prewarm`: a bool or `'auto'`. -/
inductive Prewarm where
  | bool (b : Bool)
  | auto
deriving DecidableEq

/-- `bool(prewarm)`. -/
def Prewarm.truthy : Prewarm → Bool
  | .bool b => b
  | .auto => true

/-- `SYSTEM_SHARED_MEM_FS`. -/
def systemSharedMemFs : String := "/dev/shm"

/-- `folder.startswith(SYSTEM_SHARED_MEM_FS)`. -/
def inSharedMem (folder : String) : Bool := systemSharedMemFs.toList.isPrefixOf folder.toList

/-- What is documented of `prewarm`, `folder` being the temp folder. -/
def Prewarm.documented (folder : String) : Prewarm → Bool
  | .bool b => b
  | .auto => !inSharedMem folder

/-- The attributes that are settings. The resolver is the folder it answers with; a rebuilt
reducer has none. -/
structure Settings where
  maxNbytes : Option Int
  tempFolderResolver : Option String
  mmapMode : String
  verbose : Int
  /-- `_prewarm`. -/
  prewarm : Prewarm
  unlinkOnGcCollect : Bool
  /-- The attribute `prewarm`, which only a restored state sets. -/
  restored : Option Prewarm
deriving DecidableEq

namespace Settings

/-- `self._temp_folder`, the answer of the resolver. -/
def tempFolder (self : Settings) : Except (Exc Empty) String :=
  match self.tempFolderResolver with
  | some folder => .ok folder
  | none => .error (.typeError "'NoneType' object is not callable")

/-- `__init__`, as far as the settings go. -/
def init (maxNbytes : Option Int) (tempFolderResolver : Option String) (mmapMode : String) (unlinkOnGcCollect : Bool)
    (verbose : Int) (prewarm : Prewarm) : Except (Exc Empty) Settings := do
  let self : Settings :=
    { maxNbytes, tempFolderResolver, mmapMode, verbose, prewarm := .bool false, unlinkOnGcCollect, restored := none }
  let self ←
    if prewarm = .auto then do
      let folder ← self.tempFolder
      pure {self with prewarm := .bool (!inSharedMem folder)}
    else pure {self with prewarm := prewarm}
  return {self with prewarm := prewarm}

/-- What `__reduce__` returns after the class. -/
structure Pickled where
  maxNbytes : Option Int
  tempFolderResolver : Option String
  mmapMode : String
  unlinkOnGcCollect : Bool
  /-- `{'verbose': …, 'prewarm': …}`. -/
  verbose : Int
  prewarm : Prewarm

/-- `__reduce__`. -/
def reduce (self : Settings) : Pickled where
  maxNbytes := self.maxNbytes
  tempFolderResolver := none
  mmapMode := self.mmapMode
  unlinkOnGcCollect := self.unlinkOnGcCollect
  verbose := self.verbose
  prewarm := self.prewarm

/-- What unpickling does with it: the constructor on the second component, `verbose=0` and
`prewarm=True` by default, and `__dict__.update` with the third. -/
def rebuild (pickled : Pickled) : Except (Exc Empty) Settings := do
  let self ← init pickled.maxNbytes pickled.tempFolderResolver pickled.mmapMode pickled.unlinkOnGcCollect 0 (.bool true)
  return {self with verbose := pickled.verbose, restored := some pickled.prewarm}

/-- `n` times pickled and unpickled. -/
def roundTrips : Nat → Settings → Except (Exc Empty) Settings
  | 0, self => .ok self
  | n + 1, self => do
    let self ← rebuild self.reduce
    roundTrips n self

/-- The reducer as its `__call__` sees it. -/
def toReducer (self : Settings) : ArrayMemmapForwardReducer :=
  ⟨self.maxNbytes, self.mmapMode, self.unlinkOnGcCollect, self.prewarm.truthy⟩

/-- The settings of two reducers agree, the resolver aside. -/
structure Agree (original rebuilt : Settings) : Prop where
  maxNbytes : rebuilt.maxNbytes = original.maxNbytes
  mmapMode : rebuilt.mmapMode = original.mmapMode
  unlinkOnGcCollect : rebuilt.unlinkOnGcCollect = original.unlinkOnGcCollect
  verbose : rebuilt.verbose = original.verbose
  prewarm : rebuilt.prewarm.truthy = original.prewarm.truthy

/-- A thread that begins a dump opens the file, writes it, sets its mode and gets to the read. -/
def PreReads (r : ArrayMemmapForwardReducer) (t : Nat) (a : NdArray) (f : Filename String) (w : World String) : Prop :=
  ∃ w', Runs.run (r.alone t) (.dump a f, w) [.go, .go, .go] = some (.prewarm a f, w')

/-! ### What they do -/

theorem init_eq (maxNbytes : Option Int) (folder : String) (mmapMode : String) (unlinkOnGcCollect : Bool) (verbose : Int)
    (prewarm : Prewarm) :
    init maxNbytes (some folder) mmapMode unlinkOnGcCollect verbose prewarm =
      .ok ⟨maxNbytes, some folder, mmapMode, verbose, prewarm, unlinkOnGcCollect, none⟩ := by
  cases prewarm <;> rfl

/-- A round trip keeps four settings. -/
theorem rebuild_reduce (self : Settings) :
    rebuild self.reduce =
      .ok {self with tempFolderResolver := none, prewarm := .bool true, restored := some self.prewarm} :=
  rfl

/-- **However many round trips there are, one or more, the reducer reads what it dumps.** -/
theorem roundTrips_eq (n : Nat) (self : Settings) :
    ∃ restored, roundTrips (n + 1) self =
      .ok {self with tempFolderResolver := none, prewarm := .bool true, restored := restored} := by
  induction n generalizing self with
  | zero => exact ⟨_, rfl⟩
  | succ n ih =>
    obtain ⟨restored, hrest⟩ := ih {self with tempFolderResolver := none, prewarm := .bool true, restored := some self.prewarm}
    refine ⟨restored, ?_⟩
    show (rebuild self.reduce >>= roundTrips (n + 1)) = _
    rw [rebuild_reduce]
    exact hrest

/-- Whether the reducer reads what it dumps, after `n` round trips. -/
def decision (prewarm : Prewarm) (n : Nat) : Bool := if n = 0 then prewarm.truthy else true

/-- Every round trip succeeds. -/
theorem roundTrips_cases (n : Nat) (self : Settings) :
    ∃ rebuilt, roundTrips n self = .ok rebuilt ∧ rebuilt.prewarm.truthy = decision self.prewarm n ∧
      (Agree self rebuilt ↔ decision self.prewarm n = self.prewarm.truthy) := by
  cases n with
  | zero => exact ⟨self, rfl, rfl, ⟨fun h => h.prewarm, fun h => ⟨rfl, rfl, rfl, rfl, h⟩⟩⟩
  | succ n =>
    obtain ⟨restored, hrun⟩ := roundTrips_eq n self
    exact ⟨_, hrun, rfl, ⟨fun h => h.prewarm, fun h => ⟨rfl, rfl, rfl, rfl, h⟩⟩⟩

theorem preReads_iff (r : ArrayMemmapForwardReducer) (t : Nat) (a : NdArray) (f : Filename String) (w : World String) :
    PreReads r t a f w ↔ r.prewarm = true := by
  cases hprewarm : r.prewarm <;>
    simp [PreReads, Runs.run, ArrayMemmapForwardReducer.alone, ArrayMemmapForwardReducer.turn, hprewarm]

/-- A reducer made with these arguments, after `n` round trips: its settings are those of the
original, and in the temp folder `folder` it reads what it dumps as documented. -/
def SettingsHold (maxNbytes : Option Int) (resolved mmapMode : String) (unlinkOnGcCollect : Bool) (verbose : Int)
    (prewarm : Prewarm) (n : Nat) (folder : String) : Prop :=
  ∃ self rebuilt, init maxNbytes (some resolved) mmapMode unlinkOnGcCollect verbose prewarm = .ok self ∧
    roundTrips n self = .ok rebuilt ∧ Agree self rebuilt ∧
      ∀ t a basename w, PreReads rebuilt.toReducer t a ⟨folder, basename⟩ w ↔ prewarm.documented folder = true

/-- **Exactly when a reducer's settings survive and mean what is documented.** -/
theorem settings_hold_iff (maxNbytes : Option Int) (resolved mmapMode : String) (unlinkOnGcCollect : Bool) (verbose : Int)
    (prewarm : Prewarm) (n : Nat) (folder : String) :
    SettingsHold maxNbytes resolved mmapMode unlinkOnGcCollect verbose prewarm n folder ↔
      prewarm = .bool true ∨ prewarm = .bool false ∧ n = 0 ∨ prewarm = .auto ∧ inSharedMem folder = false := by
  have hinit := init_eq maxNbytes resolved mmapMode unlinkOnGcCollect verbose prewarm
  have hholds : SettingsHold maxNbytes resolved mmapMode unlinkOnGcCollect verbose prewarm n folder ↔
      decision prewarm n = prewarm.truthy ∧ decision prewarm n = prewarm.documented folder := by
    obtain ⟨rebuilt, hrun, hdecision, hagree⟩ :=
      roundTrips_cases n ⟨maxNbytes, some resolved, mmapMode, verbose, prewarm, unlinkOnGcCollect, none⟩
    have hreads : ∀ t a basename w, PreReads rebuilt.toReducer t a ⟨folder, basename⟩ w ↔ decision prewarm n = true := by
      intro t a basename w
      rw [preReads_iff, ← hdecision]
      rfl
    constructor
    · rintro ⟨self, rebuilt', hself, hrun', hagree', hmeans⟩
      obtain rfl := Except.ok.inj (hinit.symm.trans hself)
      obtain rfl := Except.ok.inj (hrun.symm.trans hrun')
      refine ⟨hagree.mp hagree', Bool.eq_iff_iff.mpr ?_⟩
      exact (hreads 0 bigArray ⟨0, 0⟩ .initial).symm.trans (hmeans 0 bigArray ⟨0, 0⟩ .initial)
    · rintro ⟨hsame, hmeans⟩
      exact ⟨_, rebuilt, hinit, hrun, hagree.mpr hsame, fun t a basename w => by rw [hreads, hmeans]⟩
  rw [hholds]
  cases prewarm with
  | auto => cases hfolder : inSharedMem folder <;> simp [decision, Prewarm.truthy, Prewarm.documented, hfolder]
  | bool b => cases b <;> simp [decision, Prewarm.truthy, Prewarm.documented]

/-! `prewarm=False` does not survive one round trip, and `'auto'` reads what is in `/dev/shm`. -/

theorem unwarmed_not_hold :
    ¬ SettingsHold (some 1000000) "/dev/shm/joblib" "r" true 0 (.bool false) 1 "/dev/shm/joblib" ∧
      ¬ SettingsHold (some 1000000) "/dev/shm/joblib" "r" true 0 .auto 0 "/dev/shm/joblib" := by
  refine ⟨?_, ?_⟩
  · rintro ⟨self, rebuilt, hself, hrun, hagree, _⟩
    obtain rfl := Except.ok.inj hself
    obtain rfl := Except.ok.inj hrun
    exact absurd hagree.prewarm (by decide)
  · rintro ⟨self, rebuilt, hself, hrun, _, hmeans⟩
    obtain rfl := Except.ok.inj hself
    obtain rfl := Except.ok.inj hrun
    have hread := (hmeans 0 bigArray ⟨0, 0⟩ .initial).mp ⟨_, rfl⟩
    exact absurd hread (by decide)

end Settings

end Joblib.Memmapping
