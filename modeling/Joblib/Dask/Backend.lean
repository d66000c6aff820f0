import Joblib.Runtime.Python
import Joblib.Dask.WeakKeyDictionary

/-! `DaskDistributedBackend`: the data it scatters.

The class defines neither `effective_n_jobs` nor `apply_async`, which are abstract, so it cannot be
instantiated as it is. A backend here is one of a subclass that defines them: `__init__` is what it runs.

The futures of the scattered objects are kept under the objects' ids, in a plain dictionary: what
`_WeakKeyDictionary` exists to avoid. It does no harm, for the backend keeps the objects too. None of
them dies, so none of their ids is used again, and an object is found under its id exactly if it was
scattered (`data_futures_identify`). -/
namespace Joblib.Dask

variable {O I F K ε : Type} [DecidableEq O] [DecidableEq I]

/-- The `scatter` argument: a list or a tuple, or something else of the named type. -/
inductive Scatter (O : Type) where
  | sequence (objects : List O)
  | other (typeName : String)

/-- What the backend asks of `distributed`. -/
structure Distributed (O F K ε : Type) where
  /-- `distributed is not None`. -/
  installed : Bool
  /-- `Client(scheduler_host, loop=loop, set_as_default=False)`. -/
  client : String → Except (Exc ε) K
  getClient : Except (Exc ε) K
  /-- `client.scatter(scatter, broadcast=True)`. -/
  scatter : K → List O → Except (Exc ε) (List F)

structure DaskDistributedBackend (O I F K : Type) [DecidableEq I] where
  client : K
  scatter : List O
  dataFutures : AList fun _ : I => F

namespace DaskDistributedBackend

def notInstalled : String :=
  "You are trying to use 'dask' as a joblib parallel backend but dask is not installed. " ++
    "Please install dask to fix this error."

def noClient : String :=
  "To use Joblib with Dask first create a Dask Client\n\n    from dask.distributed import Client\n" ++
    "    client = Client()\nor\n    client = Client('scheduler-address:8786')"

/-- The client, the one given or a new or a current one. -/
def findClient (D : Distributed O F K ε) (schedulerHost : Option String) : Option K → Except (Exc ε) K
  | some client => .ok client
  | none =>
    match schedulerHost.filter fun host => !host.isEmpty with
    | some host => D.client host
    | none =>
      match D.getClient with
      | .error (.valueError _) => .error (.valueError noClient)
      | found => found

/-- `{id(x): f for x, f in pairs}`. -/
def futuresById (id : O → I) (pairs : List (O × F)) : AList fun _ : I => F :=
  pairs.foldl (fun futures pair => futures.insert (id pair.1) pair.2) ∅

/-- `__init__`. -/
def init (id : O → I) (D : Distributed O F K ε) (schedulerHost : Option String) (scatter : Option (Scatter O))
    (client : Option K) : Except (Exc ε) (DaskDistributedBackend O I F K) :=
  if !D.installed then .error (.valueError notInstalled)
  else
    match findClient D schedulerHost client with
    | .error e => .error e
    | .ok client =>
      match scatter with
      | some (.other typeName) => .error (.typeError ("scatter must be a list/tuple, got `" ++ typeName ++ "`"))
      | some (.sequence (x :: rest)) =>
        match D.scatter client (x :: rest) with
        | .error e => .error e
        | .ok scattered => .ok ⟨client, x :: rest, futuresById id ((x :: rest).zip scattered)⟩
      | _ => .ok ⟨client, [], ∅⟩

/-- The future an object was scattered as: the last, if it was more than once. -/
def futureOf (pairs : List (O × F)) (obj : O) : Option F := (pairs.reverse.find? fun pair => pair.1 = obj).map Prod.snd

theorem futureOf_append (pairs : List (O × F)) (pair : O × F) (obj : O) :
    futureOf (pairs ++ [pair]) obj = if pair.1 = obj then some pair.2 else futureOf pairs obj := by
  unfold futureOf
  rw [List.reverse_append, List.reverse_singleton, List.singleton_append, List.find?_cons]
  by_cases hobj : pair.1 = obj <;> simp [hobj]

/-- Where no other object has its id, an object is found under it as what it was scattered as. -/
theorem lookup_futuresById {id : O → I} {obj : O} (pairs : List (O × F))
    (hown : ∀ pair ∈ pairs, id pair.1 = id obj → pair.1 = obj) :
    (futuresById id pairs).lookup (id obj) = futureOf pairs obj := by
  induction pairs using List.reverseRecOn with
  | nil => rfl
  | append_singleton pairs pair ih =>
    have hrest := ih fun other hother => hown other (List.mem_append_left _ hother)
    have hthis := hown pair (List.mem_append_right _ (List.mem_singleton_self pair))
    rw [futureOf_append]
    unfold futuresById at hrest ⊢
    rw [List.foldl_append, List.foldl_cons, List.foldl_nil]
    by_cases hobj : pair.1 = obj
    · rw [if_pos hobj, hobj, AList.lookup_insert]
    · have hid : id obj ≠ id pair.1 := fun heq => hobj (hthis heq.symm)
      rw [if_neg hobj, AList.lookup_insert_ne hid, hrest]

omit [DecidableEq O] in
/-- What a backend was made with. -/
theorem init_ok {id : O → I} {D : Distributed O F K ε} {schedulerHost : Option String} {scatter : Option (Scatter O)}
    {client : Option K} {b : DaskDistributedBackend O I F K} (h : init id D schedulerHost scatter client = .ok b) :
    ∃ scattered, (b.scatter = [] ∨ D.scatter b.client b.scatter = .ok scattered) ∧
      b.dataFutures = futuresById id (b.scatter.zip scattered) := by
  unfold init at h
  split at h
  · cases h
  · split at h
    · cases h
    · split at h
      · cases h
      · split at h
        next => cases h
        next scattered hscatter =>
          cases h
          exact ⟨scattered, .inr hscatter, rfl⟩
      · cases h
        exact ⟨[], .inl rfl, rfl⟩

end DaskDistributedBackend

/-- An object that nothing kills lives on. -/
theorem step_live {V : Type} {id : O → I} {m t : Memory O I V} {e : Event O I V} {obj : O} (h : step id m e = some t)
    (hlive : obj ∈ m.live) (hkept : e ≠ .die obj) : obj ∈ t.live := by
  cases e with
  | create other =>
    simp only [step] at h
    split at h <;> cases h
    exact Finset.mem_insert_of_mem hlive
  | set other value =>
    simp only [step] at h
    split at h <;> cases h
    unfold Memory.setitem
    split <;> exact hlive
  | get other =>
    simp only [step] at h
    split at h <;> cases h
    exact hlive
  | len =>
    cases h
    exact hlive
  | die other =>
    simp only [step] at h
    split at h <;> cases h
    exact Finset.mem_erase.mpr ⟨fun heq => hkept (by rw [heq]), hlive⟩
  | destroyed ref =>
    simp only [step] at h
    split at h
    · cases hdestroyed : {m with called := insert ref.serial m.called}.onDestroy ref with
      | ok m' =>
        rw [hdestroyed] at h
        unfold Memory.onDestroy at hdestroyed
        cases h
        split at hdestroyed <;> cases hdestroyed
        exact hlive
      | error _ =>
        rw [hdestroyed] at h
        cases h
        exact hlive
    · cases h

open DaskDistributedBackend in
/-- **Scattered objects are told by their ids for as long as the backend is there**, whatever is made and dies
meanwhile: of what the backend keeps nothing does. A living object is found under its id as the last future it was
scattered as, and not found if it was not scattered, whoever had its id before. -/
theorem data_futures_identify {V : Type} {id : O → I} {D : Distributed O F K ε} {schedulerHost : Option String}
    {scatter : Option (Scatter O)} {client : Option K} {b : DaskDistributedBackend O I F K}
    (hinit : init id D schedulerHost scatter client = .ok b) {before after : List (Event O I V)} {m t : Memory O I V}
    (hbefore : Runs.run (step id) .new before = some m) (hliving : ∀ x ∈ b.scatter, x ∈ m.live)
    (hafter : Runs.run (step id) m after = some t) (hkept : ∀ e ∈ after, ∀ x ∈ b.scatter, e ≠ .die x) :
    ∃ scattered, (b.scatter = [] ∨ D.scatter b.client b.scatter = .ok scattered) ∧
      ∀ obj ∈ t.live, b.dataFutures.lookup (id obj) = futureOf (b.scatter.zip scattered) obj := by
  obtain ⟨scattered, hscatter, hfutures⟩ := init_ok hinit
  have hstill : ∀ x ∈ b.scatter, x ∈ t.live :=
    Runs.guarded_run (I := fun m => ∀ x ∈ b.scatter, x ∈ m.live) (G := fun _ e _ => ∀ x ∈ b.scatter, e ≠ .die x)
      (fun _ _ _ h hs hguard x hx => step_live hs (h x hx) (hguard x hx)) hliving
      (.of_forall_mem (fun _ e _ he => hkept e he) m) hafter
  have hrepresents := run_represents (run_represents new_represents hbefore) hafter
  refine ⟨scattered, hscatter, fun obj hobj => ?_⟩
  rw [hfutures]
  refine lookup_futuresById _ fun pair hpair hid => ?_
  exact hrepresents.distinct pair.1 (hstill pair.1 (List.of_mem_zip hpair).1) obj hobj hid

/-- A client that gives each object its number as its future. -/
def numbering : Distributed Nat String Unit Empty where
  installed := true
  client _ := .ok ()
  getClient := .ok ()
  scatter _ objects := .ok (objects.map toString)

/-- The first of two objects is scattered; the other dies, and a third has its id. -/
theorem data_futures_identify_recycled : ∃ (b : DaskDistributedBackend Nat Nat String Unit) (t : Memory Nat Nat Unit),
    DaskDistributedBackend.init (fun n => n % 3) numbering none (some (.sequence [0])) none = .ok b ∧
      Runs.run (step fun n => n % 3) .new [.create 0, .create 1, .die 1, .create 4] = some t ∧ 4 ∈ t.live ∧
        ∃ scattered, (b.scatter = [] ∨ numbering.scatter b.client b.scatter = .ok scattered) ∧
          ∀ obj ∈ t.live, b.dataFutures.lookup (obj % 3) =
            DaskDistributedBackend.futureOf (b.scatter.zip scattered) obj := by
  obtain ⟨b, hinit, hscatter⟩ : ∃ b : DaskDistributedBackend Nat Nat String Unit,
      DaskDistributedBackend.init (fun n => n % 3) numbering none (some (.sequence [0])) none = .ok b ∧ b.scatter = [0] :=
    ⟨_, rfl, rfl⟩
  obtain ⟨m, hbefore, hm⟩ : ∃ m : Memory Nat Nat Unit,
      Runs.run (step fun n => n % 3) .new [.create 0, .create 1] = some m ∧ 0 ∈ m.live := ⟨_, rfl, by decide⟩
  obtain ⟨t, hafter, ht⟩ : ∃ t : Memory Nat Nat Unit,
      Runs.run (step fun n => n % 3) m [.die 1, .create 4] = some t ∧ 4 ∈ t.live := by
    obtain rfl := Option.some.inj hbefore
    exact ⟨_, rfl, by decide⟩
  refine ⟨b, t, hinit, ?_, ht, data_futures_identify hinit hbefore ?_ hafter ?_⟩
  · rw [show ([.create 0, .create 1, .die 1, .create 4] : List (Event Nat Nat Unit)) =
      [.create 0, .create 1] ++ [.die 1, .create 4] from rfl, Runs.run_append, hbefore]
    exact hafter
  · rw [hscatter]
    simpa using hm
  · rw [hscatter]
    simp

end Joblib.Dask
