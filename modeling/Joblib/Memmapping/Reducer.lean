import Mathlib.Logic.Function.Basic
import Joblib.Lib.Runs

/-! `ArrayMemmapForwardReducer.__call__`.

A call of the reducer is a walk through its accesses to what other calls may see: the map
of the arrays already named, the set of the file names already used, the resource tracker
and the disk. `turn` is one access; where the surroundings decide (the folder the resolver
answers, an exception) a `Choice` says what they did. `reduce` is a whole call that nothing
interrupts, and `reduce_turns` says it is the accesses one after another.

The map is keyed by the identity of live arrays, so an array is its identity here and its
entry is never another's. A `uuid` is the number of names drawn before it. -/
namespace Joblib.Memmapping

/-- What the reducer reads of an array. -/
structure NdArray where
  id : Nat
  hasobject : Bool
  nbytes : Nat
  /-- `_get_backing_memmap(a)` is a `np.memmap`. -/
  memmapBacked : Bool

/-- `'{}-{}-{}.pkl'.format(os.getpid(), id(threading.current_thread()), uuid4().hex)`, the
process being one. -/
structure Basename where
  thread : Nat
  uuid : Nat
deriving DecidableEq

/-- `os.path.join(folder, basename)`. -/
structure Filename (F : Type) where
  folder : F
  basename : Basename
deriving DecidableEq

/-- A backing file: the array its dumps are of, the thread that opened it last, and whether
that thread's dump is done. -/
structure File where
  array : Nat
  opener : Nat
  complete : Bool

/-- What `__init__` keeps of its arguments. -/
structure ArrayMemmapForwardReducer where
  maxNbytes : Option Int
  mmapMode : String
  unlinkOnGcCollect : Bool
  prewarm : Bool

/-- What `__call__` returns: a function and its arguments. -/
inductive Reduced (F : Type) where
  | reduceMemmapBacked (a : NdArray)
  | loadTemporaryMemmap (filename : Filename F) (mmapMode : String) (unlinkOnGcCollect : Bool)
  | loadsDumps (a : NdArray)

/-- What the calls share. The last two are history: the array each `uuid` was drawn for, and
the files a dump into which has raised. -/
structure World (F : Type) where
  memmapedArrays : Nat → Option Basename
  temporaryMemmapedFilenames : List (Filename F)
  /-- The resource tracker's counts; what it has forgotten, or never seen, counts 0. -/
  registered : Filename F → Nat
  disk : Filename F → Option File
  drawn : List Nat
  failed : List (Filename F)

namespace World
variable {F : Type}

/-- A new reducer's. -/
def initial : World F := ⟨fun _ => none, [], fun _ => 0, fun _ => none, [], []⟩

section Operations
variable [DecidableEq F] (w : World F)

/-- `resource_tracker.register(filename, 'file')`. -/
def register (f : Filename F) : World F :=
  {w with registered := Function.update w.registered f (w.registered f + 1)}

/-- `self._memmaped_arrays.set(a, basename)`, the name having been drawn by the thread `t`. -/
def name (t : Nat) (a : NdArray) : World F :=
  { w with
    memmapedArrays := Function.update w.memmapedArrays a.id (some ⟨t, w.drawn.length⟩)
    drawn := w.drawn ++ [a.id] }

/-- `self._temporary_memmaped_filenames.add(filename)`. -/
def use (f : Filename F) : World F :=
  {w with temporaryMemmapedFilenames := f :: w.temporaryMemmapedFilenames}

/-- The thread's `dump` opens the file, emptying it if it is there. -/
def openFile (t : Nat) (a : NdArray) (f : Filename F) : World F :=
  {w with disk := Function.update w.disk f (some ⟨a.id, t, false⟩)}

/-- It is done: the file is whole unless another dump has emptied it since. -/
def closeFile (t : Nat) (f : Filename F) : World F :=
  { w with
    disk := Function.update w.disk f
      ((w.disk f).map fun file => {file with complete := file.complete || file.opener == t}) }

/-- It raises, and leaves the file as far as it got. -/
def failFile (f : Filename F) : World F := {w with failed := f :: w.failed}

end Operations

end World

/-- Where a thread stands in `__call__`: before the access it is named after. -/
inductive Pc (F : Type) where
  | idle
  | makedirs (a : NdArray)
  | get (a : NdArray)
  | set (a : NdArray)
  | join (a : NdArray) (basename : Basename)
  | isNewMemmap (a : NdArray) (filename : Filename F)
  | add (a : NdArray) (filename : Filename F) (isNewMemmap : Bool)
  | register (a : NdArray) (filename : Filename F) (isNewMemmap : Bool)
  | registerNew (a : NdArray) (filename : Filename F) (isNewMemmap : Bool)
  | pathExists (a : NdArray) (filename : Filename F)
  | dump (a : NdArray) (filename : Filename F)
  | writing (a : NdArray) (filename : Filename F)
  | chmod (a : NdArray) (filename : Filename F)
  | prewarm (a : NdArray) (filename : Filename F)
  | returned (reduced : Reduced F)
  | raised

/-- Where the thread is its caller's. -/
def Pc.free {F : Type} : Pc F → Bool
  | .idle | .returned _ | .raised => true
  | _ => false

/-- What the surroundings do at an access. -/
inductive Choice (F : Type) where
  | go
  | answers (folder : F)
  | raises

namespace ArrayMemmapForwardReducer
variable {F : Type} [DecidableEq F] (r : ArrayMemmapForwardReducer)

/-- `not a.dtype.hasobject and self._max_nbytes is not None and (a.nbytes > self._max_nbytes)`. -/
def memmaps (a : NdArray) : Bool :=
  !a.hasobject && r.maxNbytes.any fun maxNbytes => decide (maxNbytes < (a.nbytes : Int))

/-- `__call__` up to its first access. -/
def begin (a : NdArray) : Pc F :=
  if a.memmapBacked then .returned (.reduceMemmapBacked a)
  else if r.memmaps a then .makedirs a
  else .returned (.loadsDumps a)

/-- `(load_temporary_memmap, (filename, self._mmap_mode, self._unlink_on_gc_collect))`. -/
def loads (f : Filename F) : Reduced F := .loadTemporaryMemmap f r.mmapMode r.unlinkOnGcCollect

/-- The next access of the thread `t`. `os.makedirs` may fail other than by `EEXIST`, a dump
may raise once it has opened its file, and so may what follows it. -/
def turn (t : Nat) (w : World F) : Pc F → Choice F → Option (Pc F × World F)
  | .makedirs a, .go => some (.get a, w)
  | .makedirs _, .raises => some (.raised, w)
  | .get a, .go =>
    match w.memmapedArrays a.id with
    | some basename => some (.join a basename, w)
    | none => some (.set a, w)
  | .set a, .go => some (.join a ⟨t, w.drawn.length⟩, w.name t a)
  | .join a basename, .answers folder => some (.isNewMemmap a ⟨folder, basename⟩, w)
  | .isNewMemmap a f, .go => some (.add a f (!w.temporaryMemmapedFilenames.contains f), w)
  | .add a f isNew, .go => some (.register a f isNew, w.use f)
  | .register a f isNew, .go => some (.registerNew a f isNew, if r.unlinkOnGcCollect then w.register f else w)
  | .registerNew a f isNew, .go => some (.pathExists a f, if isNew then w.register f else w)
  | .pathExists a f, .go => some (if (w.disk f).isSome then .returned (r.loads f) else .dump a f, w)
  | .dump a f, .go => some (.writing a f, w.openFile t a f)
  | .writing a f, .go => some (.chmod a f, w.closeFile t f)
  | .writing _ f, .raises => some (.raised, w.failFile f)
  | .chmod a f, .go => some (if r.prewarm then .prewarm a f else .returned (r.loads f), w)
  | .chmod _ _, .raises => some (.raised, w)
  | .prewarm _ f, .go => some (.returned (r.loads f), w)
  | .prewarm _ _, .raises => some (.raised, w)
  | _, _ => none

/-! ### A call on its own -/

/-- The array's name: the one it has, or a new one. -/
def basename (t : Nat) (a : NdArray) (w : World F) : Basename × World F :=
  match w.memmapedArrays a.id with
  | some basename => (basename, w)
  | none => (⟨t, w.drawn.length⟩, w.name t a)

/-- From `is_new_memmap` to the second `register`. -/
def countIn (f : Filename F) (w : World F) : World F :=
  let isNew := !w.temporaryMemmapedFilenames.contains f
  let w := w.use f
  let w := if r.unlinkOnGcCollect then w.register f else w
  if isNew then w.register f else w

/-- From the test of the file to the end; `raises` says what its dump does, if there is one. -/
def backed (t : Nat) (a : NdArray) (f : Filename F) (raises : Bool) (w : World F) : Pc F × World F :=
  if (w.disk f).isSome then (.returned (r.loads f), w)
  else if raises then (.raised, (w.openFile t a f).failFile f)
  else (.returned (r.loads f), (w.openFile t a f).closeFile t f)

/-- `__call__`, the resolver answering `folder`. -/
def reduce (t : Nat) (a : NdArray) (folder : F) (raises : Bool) (w : World F) : Pc F × World F :=
  if a.memmapBacked then (.returned (.reduceMemmapBacked a), w)
  else if r.memmaps a then
    let (basename, w) := basename t a w
    r.backed t a ⟨folder, basename⟩ raises (r.countIn ⟨folder, basename⟩ w)
  else (.returned (.loadsDumps a), w)

/-- The file a call is about, if it is about one. -/
def filename? (t : Nat) (a : NdArray) (folder : F) (w : World F) : Option (Filename F) :=
  if !a.memmapBacked && r.memmaps a then some ⟨folder, (basename t a w).1⟩ else none

/-- The thread `t` and nobody else. -/
def alone (t : Nat) (s : Pc F × World F) (choice : Choice F) : Option (Pc F × World F) := r.turn t s.2 s.1 choice

/-- From the test of the file on. -/
theorem backed_turns (t : Nat) (a : NdArray) (f : Filename F) (raises : Bool) (w : World F) :
    ∃ choices, Runs.run (r.alone t) (.pathExists a f, w) choices = some (r.backed t a f raises w) := by
  unfold backed
  by_cases hexists : (w.disk f).isSome = true
  · exact ⟨[.go], by simp [Runs.run, alone, turn, hexists]⟩
  · cases raises with
    | true => exact ⟨[.go, .go, .raises], by simp [Runs.run, alone, turn, hexists]⟩
    | false =>
      cases hprewarm : r.prewarm with
      | true => exact ⟨[.go, .go, .go, .go, .go], by simp [Runs.run, alone, turn, hexists, hprewarm]⟩
      | false => exact ⟨[.go, .go, .go, .go], by simp [Runs.run, alone, turn, hexists, hprewarm]⟩

/-- From the naming of the file to its test. -/
theorem countIn_turns (t : Nat) (a : NdArray) (folder : F) (basename : Basename) (w : World F) :
    Runs.run (r.alone t) (.join a basename, w) [.answers folder, .go, .go, .go, .go] =
      some (.pathExists a ⟨folder, basename⟩, r.countIn ⟨folder, basename⟩ w) := rfl

theorem basename_turns (t : Nat) (a : NdArray) (w : World F) :
    ∃ choices, Runs.run (r.alone t) (.makedirs a, w) choices =
      some (.join a (basename t a w).1, (basename t a w).2) := by
  unfold basename
  cases hnamed : w.memmapedArrays a.id with
  | some basename => exact ⟨[.go, .go], by simp [Runs.run, alone, turn, hnamed]⟩
  | none => exact ⟨[.go, .go, .go], by simp [Runs.run, alone, turn, hnamed]⟩

/-- **An uninterrupted call is the accesses one after another.** -/
theorem reduce_turns (t : Nat) (a : NdArray) (folder : F) (raises : Bool) (w : World F) :
    ∃ choices, Runs.run (r.alone t) (r.begin a, w) choices = some (r.reduce t a folder raises w) := by
  unfold begin reduce
  by_cases hbacked : a.memmapBacked = true
  · exact ⟨[], by simp [Runs.run, hbacked]⟩
  · by_cases hmemmaps : r.memmaps a = true
    · obtain ⟨named, hnamed⟩ := r.basename_turns t a w
      obtain ⟨last, hlast⟩ := r.backed_turns t a ⟨folder, (basename t a w).1⟩ raises
        (r.countIn ⟨folder, (basename t a w).1⟩ (basename t a w).2)
      refine ⟨named ++ ([.answers folder, .go, .go, .go, .go] ++ last), ?_⟩
      rw [if_neg hbacked, if_neg hbacked, if_pos hmemmaps, if_pos hmemmaps, Runs.run_append, hnamed, Option.bind_some,
        Runs.run_append, countIn_turns, Option.bind_some, hlast]
    · exact ⟨[], by simp [Runs.run, hbacked, hmemmaps]⟩

end ArrayMemmapForwardReducer

/-- A reducer of arrays over a megabyte. -/
def reducer : ArrayMemmapForwardReducer := ⟨some 1000000, "r", true, false⟩

def bigArray : NdArray := ⟨7, false, 8000000, false⟩

end Joblib.Memmapping
