import Joblib.Parallel.Sequential

/-! The two consumers of a batch of tasks, and the producer of a task.

`BatchedCalls.__call__` and the dask `Batch.__call__` unpack each item of their
batch into `func, args, kwargs`; the sequential loop calls it with no arguments.
Neither the slicing (`runSlices_eq`) nor a pickle round trip (`roundTrips_items`)
matters to what a batch gives, and no item is good for both uses
(`call_or_unpack`): `delayed` builds the kind that is called. -/
namespace Joblib

/-- `func(*args, **kwargs) for func, args, kwargs in …`, one item of it. -/
def Item.unpackAndCall {α ε : Type} (item : Item α ε) : Except (Exc ε) α := do
  let c ← item.unpack
  c.result

/-- The `backend_and_jobs` argument: a tuple, or the backend alone. -/
inductive BackendAndJobs (β : Type) where
  | both (backend : β) (nJobs : Option Int)
  | alone (backend : β)

def BackendAndJobs.split {β : Type} : BackendAndJobs β → β × Option Int
  | .both backend nJobs => (backend, nJobs)
  | .alone backend => (backend, none)

/-- The dictionary `_pickle_cache` refers to, by identity; an omitted one is new. -/
abbrev PickleCache := Option Nat

/-- `β` is the type of backends, `σ` what the reducer's callback acts on. -/
structure BatchedCalls (α ε β σ : Type) where
  items : List (Item α ε)
  size : Nat
  reducerCallback : Option (σ → σ)
  backend : β
  nJobs : Option Int
  pickleCache : PickleCache

namespace BatchedCalls
variable {α ε β σ : Type}

/-- `__init__`. -/
def create (iteratorSlice : List (Item α ε)) (backendAndJobs : BackendAndJobs β)
    (reducerCallback : Option (σ → σ)) (pickleCache : PickleCache) : BatchedCalls α ε β σ where
  items := iteratorSlice
  size := iteratorSlice.length
  reducerCallback := reducerCallback
  backend := backendAndJobs.split.1
  nJobs := backendAndJobs.split.2
  pickleCache := pickleCache

/-- `__call__`, the `parallel_config` around it raising nothing. -/
def call (b : BatchedCalls α ε β σ) : Except (Exc ε) (List α) := b.items.mapM Item.unpackAndCall

/-- The arguments `__reduce__` gives to be pickled. -/
structure Reduced (α ε β : Type) where
  items : List (Item α ε)
  backendAndJobs : BackendAndJobs β
  pickleCache : PickleCache

/-- `__reduce__`. -/
def reduce (b : BatchedCalls α ε β σ) (s : σ) : Reduced α ε β × σ :=
  (⟨b.items, .both b.backend b.nJobs, b.pickleCache⟩,
    match b.reducerCallback with
    | some callback => callback s
    | none => s)

/-- Pickled and unpickled. -/
def roundTrip (b : BatchedCalls α ε β σ) (s : σ) : BatchedCalls α ε β σ × σ :=
  let r := b.reduce s
  (create r.1.items r.1.backendAndJobs none r.1.pickleCache, r.2)

def roundTrips : Nat → BatchedCalls α ε β σ → σ → BatchedCalls α ε β σ × σ
  | 0, b, s => (b, s)
  | n + 1, b, s => roundTrips n (b.roundTrip s).1 (b.roundTrip s).2

/-- `__len__`. -/
def len (b : BatchedCalls α ε β σ) : Nat := b.size

theorem roundTrips_items (n : Nat) (b : BatchedCalls α ε β σ) (s : σ) :
    (b.roundTrips n s).1.items = b.items := by
  induction n generalizing b s with
  | zero => rfl
  | succ n ih => exact ih (b.roundTrip s).1 (b.roundTrip s).2

end BatchedCalls

/-- The dask `Batch`. Its three fields are a summary of the tasks, for display. -/
structure Batch where
  numTasks : Nat
  mixed : Bool
  funcname : String

/-- `__call__`, the `parallel_config` around it raising nothing. -/
def Batch.call {α ε : Type} (_batch : Batch) (tasks : Option (List (Item α ε))) : Except (Exc ε) (List α) :=
  match tasks with
  | none => .error (.typeError "'NoneType' object is not iterable")
  | some tasks => tasks.mapM Item.unpackAndCall

/-! ### A task list in slices -/

/-- A slice of the task list, and how it travels to where it runs. -/
structure Slice (α ε β σ : Type) where
  calls : List (Call α ε)
  backendAndJobs : BackendAndJobs β
  reducerCallback : Option (σ → σ)
  pickleCache : PickleCache
  trips : Nat
  batch : Batch

namespace Slice
variable {α ε β σ : Type}

/-- The tasks, as `delayed` builds them. -/
def tasks (slice : Slice α ε β σ) : List (Item α ε) := slice.calls.map Call.delayed

/-- Its `BatchedCalls` run after its round trips. -/
def batched (slice : Slice α ε β σ) (s : σ) : Except (Exc ε) (List α) :=
  ((BatchedCalls.create slice.tasks slice.backendAndJobs slice.reducerCallback
    slice.pickleCache).roundTrips slice.trips s).1.call

/-- The dask `Batch` run on it. -/
def dask (slice : Slice α ε β σ) : Except (Exc ε) (List α) := slice.batch.call (some slice.tasks)

theorem batched_eq (slice : Slice α ε β σ) (s : σ) :
    slice.batched s = slice.tasks.mapM Item.unpackAndCall := by
  unfold batched BatchedCalls.call
  rw [BatchedCalls.roundTrips_items]
  rfl

end Slice

section Slices
variable {α ε β σ : Type}

/-- The results of the slices one after another. -/
def runSlices (run : Slice α ε β σ → Except (Exc ε) (List α)) (slices : List (Slice α ε β σ)) :
    Except (Exc ε) (List α) := do
  let values ← slices.mapM run
  return values.flatten

/-- All the tasks, in submission order. -/
def allTasks (slices : List (Slice α ε β σ)) : List (Item α ε) := (slices.map Slice.tasks).flatten

/-- **Slicing does not matter.** -/
theorem runSlices_eq (f : Item α ε → Except (Exc ε) α) (slices : List (Slice α ε β σ)) :
    runSlices (fun slice => slice.tasks.mapM f) slices = (allTasks slices).mapM f := by
  induction slices with
  | nil => rfl
  | cons slice rest ih =>
    have hall : allTasks (slice :: rest) = slice.tasks ++ allTasks rest := rfl
    rw [hall, List.mapM_append, ← ih]
    simp [runSlices]

/-- Every way of running the tasks gives the sequential results. -/
def OneFormat (slices : List (Slice α ε β σ)) (s : σ) : Prop :=
  ∃ values, Parallel.results (allTasks slices) = ⟨values, none⟩ ∧
    runSlices (fun slice => slice.batched s) slices = .ok values ∧
    runSlices Slice.dask slices = .ok values

/-- An item that can be called cannot be unpacked. -/
theorem call_or_unpack (item : Item α ε) {v v' : α} (hcall : item.call = .ok v) :
    item.unpackAndCall ≠ .ok v' := by
  cases item with
  | closure c => simp [Item.unpackAndCall, Item.unpack, bind, Except.bind]
  | tuple c => cases hcall

/-- No items but none at all run on both kinds of path. -/
theorem formats_disagree {items : List (Item α ε)} {values values' : List α}
    (hcalled : Parallel.results items = ⟨values, none⟩)
    (hunpacked : items.mapM Item.unpackAndCall = .ok values') : items = [] := by
  cases items with
  | nil => rfl
  | cons item rest =>
    exfalso
    rw [List.mapM_cons] at hunpacked
    cases hcall : item.call with
    | error e => simp [Parallel.results, hcall] at hcalled
    | ok v =>
      cases hunpack : item.unpackAndCall with
      | error e => simp [hunpack, bind, Except.bind] at hunpacked
      | ok v' => exact call_or_unpack item hcall hunpack

/-- **The paths agree on the empty task list and on no other.** -/
theorem one_format_iff (slices : List (Slice α ε β σ)) (s : σ) :
    OneFormat slices s ↔ ∀ slice ∈ slices, slice.calls = [] := by
  have hbatched : runSlices (fun slice => slice.batched s) slices =
      (allTasks slices).mapM Item.unpackAndCall := by
    simp only [Slice.batched_eq, runSlices_eq]
  have hdask : runSlices Slice.dask slices = (allTasks slices).mapM Item.unpackAndCall :=
    runSlices_eq _ slices
  have hempty : allTasks slices = [] ↔ ∀ slice ∈ slices, slice.calls = [] := by
    simp [allTasks, Slice.tasks]
  unfold OneFormat
  rw [hbatched, hdask, ← hempty]
  constructor
  · rintro ⟨values, hcalled, hunpacked, _⟩
    exact formats_disagree hcalled hunpacked
  · intro hnil
    rw [hnil]
    exact ⟨[], rfl, rfl, rfl⟩

/-- One slice of one task, sent through a pickle once. -/
def lone : Slice Nat Empty Unit Unit :=
  ⟨[⟨fun _ _ => .ok 9, [], []⟩], .alone (), none, none, 1, ⟨1, false, "f"⟩⟩

theorem one_format_lone : (∀ c ∈ lone.calls, ∃ v, c.result = .ok v) ∧ ¬ OneFormat [lone] () := by
  refine ⟨fun c hc => ⟨9, ?_⟩, ?_⟩
  · obtain rfl := List.mem_singleton.mp hc
    rfl
  · rintro ⟨values, _, hvalues, _⟩
    cases hvalues

end Slices

end Joblib
