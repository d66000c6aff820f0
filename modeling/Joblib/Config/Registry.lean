import Mathlib.Data.List.AList
import Joblib.Lib.Runs
import Joblib.Config.Sharedmem

/-! The registry of backends, shared by all threads.

`BACKENDS` and `DEFAULT_BACKEND` are written without a lock: by `register_parallel_backend`, and by the fallback
of `Parallel.__init__` for a backend the system lacks. Another thread may look a backend up between any two of
these accesses, or register one of its own. But a name is registered before it is made the default, and none is
ever dropped; and the fallback writes under no name but the two that may be unavailable, and only where they
were (`Kept`). So the default can always be made, and a name that is no such stand-in means what was last
registered under it (`registrations_kept`); a stand-in's registration is lost to a fallback that was under way
before it, and to nothing else (`registration_lasts`). A lookup that nobody disturbs is `resolveBackend`
(`lookup_undisturbed`). As `__init__` stands it raises before it comes to its lookup (`init_raises`): runs
without one are among those here. -/
namespace Joblib

/-- What a name is bound to in `BACKENDS`; `φ` are the factories joblib does not bring with it. -/
inductive Factory (φ : Type) where
  | threading
  | sequential
  | multiprocessing
  | loky
  | dask
  | other (factory : φ)
deriving DecidableEq

/-- What is done with `BACKENDS[DEFAULT_BACKEND]`. -/
inductive DefaultUse where
  /-- It is called. -/
  | make
  /-- It is bound to the name of a backend that is not available. -/
  | bind (name : String)

/-- Where a thread stands: before the access it is named after. -/
inductive Accessing (φ : Type) where
  | idle
  | setBackend (name : String) (factory : Factory φ) (makeDefault : Bool)
  | setDefault (name : String)
  | notIn (name : String)
  | warn (name : String)
  | warned (name message : String)
  | getDefault (use : DefaultUse)
  | subscript (default : String) (use : DefaultUse)
  | setFallback (name : String) (factory : Factory φ)
  | backend (name : String)
  | names (name : String)

/-- How a lookup or a registration ends. -/
inductive Ending (φ : Type) where
  /-- The factory found under a name, which is called. -/
  | factory (name : String) (factory : Factory φ)
  /-- `BACKENDS[DEFAULT_BACKEND]` raises. -/
  | keyError (name : String)
  /-- `ValueError('Invalid backend: %s, expected one of %r')`. -/
  | invalid (name : String) (expected : List String)
  /-- The warning is made an error by a filter. -/
  | userWarning (message : String)
  | importError (message : String)
deriving DecidableEq

/-- The two globals and where the threads stand. `registered` and `endings` are history: the bindings that
were imported or made by `register_parallel_backend`, and how each access ended. -/
structure Backends (φ : Type) where
  backends : AList fun _ : String => Factory φ
  defaultBackend : String
  accessing : Nat → Accessing φ
  registered : List (String × Factory φ)
  endings : List (Nat × Ending φ)

namespace Backends
variable {φ : Type}

/-- The bindings of `BACKENDS` as imported, `mp` saying whether `multiprocessing` is there. -/
def builtin (mp : Bool) : List (String × Factory φ) :=
  [("threading", .threading), ("sequential", .sequential)] ++
    if mp then [("multiprocessing", .multiprocessing), ("loky", .loky)] else []

def imported (mp : Bool) : Backends φ where
  backends := (builtin mp).foldl (fun backends binding => backends.insert binding.1 binding.2) ∅
  defaultBackend := if mp then "loky" else "threading"
  accessing := fun _ => .idle
  registered := builtin mp
  endings := []

inductive Action (φ : Type) where
  /-- A thread calls `register_parallel_backend`. -/
  | register (t : Nat) (name : String) (factory : Factory φ) (makeDefault : Bool)
  /-- It calls `_register_dask`, and can import what that needs or not. -/
  | registerDask (t : Nat) (importable : Bool)
  /-- It comes to `BACKENDS[DEFAULT_BACKEND]()` in `_get_active_backend`. -/
  | activeBackend (t : Nat)
  /-- It comes to `backend not in BACKENDS` in `Parallel.__init__`. -/
  | chooseBackend (t : Nat) (name : String)
  /-- Its next access. -/
  | turn (t : Nat)
  /-- A filter makes its warning an error. -/
  | filtered (t : Nat)

def goto (s : Backends φ) (t : Nat) (pc : Accessing φ) : Backends φ :=
  {s with accessing := Function.update s.accessing t pc}

def finish (s : Backends φ) (t : Nat) (ending : Ending φ) : Backends φ :=
  {s with endings := s.endings ++ [(t, ending)]}.goto t .idle

/-- The message of the fallback's warning. -/
def fallingBack (name default : String) : String :=
  "joblib backend '" ++ name ++ "' is not available on your system, falling back to " ++ default ++ "."

/-- `sorted(BACKENDS.keys())`. -/
def sortedNames (s : Backends φ) : List String := s.backends.keys.mergeSort

/-- A thread's next access, where it is in one of the functions. -/
def turn (s : Backends φ) (t : Nat) : Option (Backends φ) :=
  match s.accessing t with
  | .idle => none
  | .setBackend name factory makeDefault =>
    some
      ({ s with
        backends := s.backends.insert name factory
        registered := s.registered ++ [(name, factory)] }.goto t (if makeDefault then .setDefault name else .idle))
  | .setDefault name => some ({s with defaultBackend := name}.goto t .idle)
  | .notIn name =>
    some (s.goto t (if name ∉ s.backends ∧ name ∈ maybeAvailableBackends then .warn name else .backend name))
  -- the message names the default of this moment, not the one bound
  | .warn name => some (s.goto t (.warned name (fallingBack name s.defaultBackend)))
  | .warned name _ => some (s.goto t (.getDefault (.bind name)))
  | .getDefault use => some (s.goto t (.subscript s.defaultBackend use))
  | .subscript default use =>
    match s.backends.lookup default, use with
    | none, _ => some (s.finish t (.keyError default))
    | some factory, .make => some (s.finish t (.factory default factory))
    | some factory, .bind name => some (s.goto t (.setFallback name factory))
  | .setFallback name factory =>
    some ({s with backends := s.backends.insert name factory}.goto t (.getDefault .make))
  | .backend name =>
    match s.backends.lookup name with
    | some factory => some (s.finish t (.factory name factory))
    | none => some (s.goto t (.names name))
  | .names name => some (s.finish t (.invalid name s.sortedNames))

def step (s : Backends φ) : Action φ → Option (Backends φ)
  | .turn t => s.turn t
  | .filtered t =>
    match s.accessing t with
    | .warned _ message => some (s.finish t (.userWarning message))
    | _ => none
  | .register t name factory makeDefault =>
    match s.accessing t with
    | .idle => some (s.goto t (.setBackend name factory makeDefault))
    | _ => none
  | .registerDask t importable =>
    match s.accessing t with
    | .idle =>
      if importable then some (s.goto t (.setBackend "dask" .dask false))
      else some (s.finish t (.importError
        "To use the dask backend, you need to install 'dask' and 'distributed' libraries."))
    | _ => none
  | .activeBackend t =>
    match s.accessing t with
    | .idle => some (s.goto t (.getDefault .make))
    | _ => none
  | .chooseBackend t name =>
    match s.accessing t with
    | .idle => some (s.goto t (.notIn name))
    | _ => none

/-- What was last registered under a name. -/
def lastRegistered (name : String) (registered : List (String × Factory φ)) : Option (Factory φ) :=
  registered.reverse.lookup name

/-- The fallback may not write under it: it is there from the start or is no stand-in's name. -/
def Own (mp : Bool) (name : String) : Prop := mp = true ∨ name ∉ maybeAvailableBackends

/-- A factory found under a name was registered, and under that name if it is its own. -/
def Provided (mp : Bool) (s : Backends φ) (name : String) (factory : Factory φ) : Prop :=
  ∃ under, (under, factory) ∈ s.registered ∧ (Own mp name → under = name)

/-- What an ending may be. -/
def Sound (mp : Bool) (s : Backends φ) : Ending φ → Prop
  | .factory name factory => Provided mp s name factory
  | .keyError _ => False
  | .invalid name _ => name ∉ maybeAvailableBackends
  | _ => True

/-- What a thread has to go by in the midst of its accesses. -/
def Stands (mp : Bool) (s : Backends φ) : Accessing φ → Prop
  | .setDefault name => name ∈ s.backends
  | .warn name | .warned name _ | .getDefault (.bind name) => ¬ Own mp name
  | .subscript default .make => default ∈ s.backends
  | .subscript default (.bind name) => default ∈ s.backends ∧ ¬ Own mp name
  | .setFallback name factory => ¬ Own mp name ∧ ∃ under, (under, factory) ∈ s.registered
  | .backend name => name ∈ s.backends ∨ name ∉ maybeAvailableBackends
  | .names name => name ∉ maybeAvailableBackends
  | _ => True

/-- The invariant. -/
structure Kept (mp : Bool) (s : Backends φ) : Prop where
  default : s.defaultBackend ∈ s.backends
  builtin : ∀ binding ∈ (builtin mp : List (String × Factory φ)), binding.1 ∈ s.backends
  own : ∀ name, Own mp name → s.backends.lookup name = lastRegistered name s.registered
  provided : ∀ name factory, s.backends.lookup name = some factory → Provided mp s name factory
  stands : ∀ t, Stands mp s (s.accessing t)
  sound : ∀ t ending, (t, ending) ∈ s.endings → Sound mp s ending

/-! ### What was last registered -/

theorem lastRegistered_append (name under : String) (factory : Factory φ) (registered : List (String × Factory φ)) :
    lastRegistered name (registered ++ [(under, factory)]) =
      if name = under then some factory else lastRegistered name registered := by
  unfold lastRegistered
  rw [List.reverse_append, List.reverse_singleton, List.singleton_append, List.lookup_cons]
  by_cases h : name = under
  · rw [if_pos h, beq_iff_eq.mpr h]
  · rw [if_neg h, beq_false_of_ne h]

theorem mem_of_lastRegistered {name : String} {factory : Factory φ} {registered : List (String × Factory φ)}
    (h : lastRegistered name registered = some factory) : (name, factory) ∈ registered := by
  obtain ⟨before, after, hsplit, _⟩ := List.lookup_eq_some_iff.mp h
  apply List.mem_reverse.mp
  rw [hsplit]
  exact List.mem_append_right before (List.mem_cons_self ..)

/-- A dictionary filled from a list has each key's last value. -/
theorem lookup_foldl (bindings : List (String × Factory φ)) (backends : AList fun _ : String => Factory φ)
    (name : String) :
    (bindings.foldl (fun backends binding => backends.insert binding.1 binding.2) backends).lookup name =
      (lastRegistered name bindings).or (backends.lookup name) := by
  induction bindings generalizing backends with
  | nil => rfl
  | cons binding rest ih =>
    obtain ⟨under, factory⟩ := binding
    rw [List.foldl_cons, ih]
    unfold lastRegistered
    rw [List.reverse_cons, List.lookup_append, Option.or_assoc, List.lookup_cons]
    congr 1
    by_cases h : name = under
    · rw [h, AList.lookup_insert, beq_self_eq_true]
      rfl
    · rw [AList.lookup_insert_ne h, beq_false_of_ne h]
      rfl

/-! ### The invariant -/

section Steps
variable {mp : Bool} {s s' : Backends φ} {t : Nat}

/-- Nothing is dropped. -/
structure Grown (s s' : Backends φ) : Prop where
  backends : ∀ name ∈ s.backends, name ∈ s'.backends
  registered : ∀ binding ∈ s.registered, binding ∈ s'.registered

theorem Provided.grown {name : String} {factory : Factory φ} (h : Provided mp s name factory) (hgrown : Grown s s') :
    Provided mp s' name factory := by
  obtain ⟨under, hregistered, hown⟩ := h
  exact ⟨under, hgrown.registered _ hregistered, hown⟩

theorem Sound.grown {ending : Ending φ} (h : Sound mp s ending) (hgrown : Grown s s') : Sound mp s' ending := by
  cases ending with
  | factory name factory => exact Provided.grown h hgrown
  | _ => exact h

theorem Stands.grown {pc : Accessing φ} (h : Stands mp s pc) (hgrown : Grown s s') : Stands mp s' pc := by
  cases pc with
  | setDefault name => exact hgrown.backends name h
  | subscript default use =>
    cases use with
    | make => exact hgrown.backends default h
    | bind name => exact ⟨hgrown.backends default h.1, h.2⟩
  | setFallback name factory =>
    obtain ⟨hown, under, hregistered⟩ := h
    exact ⟨hown, under, hgrown.registered _ hregistered⟩
  | backend name => exact h.imp_left (hgrown.backends name)
  | getDefault use => cases use <;> exact h
  | _ => exact h

/-- The default was there when it was read, and no name has been dropped since. -/
theorem Stands.subscript {default : String} {use : DefaultUse} (h : Stands mp s (.subscript default use)) :
    default ∈ s.backends := by
  cases use with
  | make => exact h
  | bind name => exact h.1

theorem builtin_default (mp : Bool) :
    (imported mp : Backends φ).defaultBackend ∈ (imported mp : Backends φ).backends := by
  cases mp <;> exact AList.lookup_isSome.mp rfl

theorem imported_kept (mp : Bool) : Kept mp (imported mp : Backends φ) := by
  have hlookup : ∀ name, (imported mp : Backends φ).backends.lookup name = lastRegistered name (builtin mp) := by
    intro name
    show ((builtin mp).foldl _ ∅ : AList fun _ : String => Factory φ).lookup name = _
    rw [lookup_foldl, AList.lookup_empty, Option.or_none]
  refine ⟨builtin_default mp, ?_, fun name _ => hlookup name, ?_, fun t => trivial, fun t ending h => by cases h⟩
  · intro binding hbinding
    apply AList.lookup_isSome.mp
    rw [hlookup]
    cases hlast : lastRegistered binding.1 (builtin mp : List (String × Factory φ)) with
    | some factory => rfl
    | none =>
      have hnever := List.lookup_eq_none_iff.mp hlast binding (List.mem_reverse.mpr hbinding)
      simp at hnever
  · intro name factory h
    rw [hlookup] at h
    exact ⟨name, mem_of_lastRegistered h, fun _ => rfl⟩

theorem goto_self (s : Backends φ) (t : Nat) (pc : Accessing φ) : (s.goto t pc).accessing t = pc :=
  Function.update_self ..

theorem goto_other {t u : Nat} (h : u ≠ t) (s : Backends φ) (pc : Accessing φ) :
    (s.goto t pc).accessing u = s.accessing u :=
  Function.update_of_ne h ..

theorem Kept.goto (h : Kept mp s) {pc : Accessing φ} (hstands : Stands mp s pc) : Kept mp (s.goto t pc) := by
  refine ⟨h.default, h.builtin, h.own, h.provided, fun u => ?_, h.sound⟩
  by_cases hut : u = t
  · subst hut
    rw [goto_self]
    exact hstands
  · rw [goto_other hut]
    exact h.stands u

theorem Kept.finish (h : Kept mp s) {ending : Ending φ} (hsound : Sound mp s ending) :
    Kept mp (s.finish t ending) := by
  have hfinished : Kept mp {s with endings := s.endings ++ [(t, ending)]} := by
    refine ⟨h.default, h.builtin, h.own, h.provided, h.stands, fun u ending' hmem => ?_⟩
    rcases List.mem_append.mp hmem with hold | hnew
    · exact h.sound u ending' hold
    · obtain ⟨rfl, rfl⟩ := Prod.mk.inj (List.mem_singleton.mp hnew)
      exact hsound
  exact hfinished.goto trivial

/-- A registration takes effect for its name alone. -/
theorem Kept.setBackend (h : Kept mp s) (name : String) (factory : Factory φ) :
    Kept mp {s with backends := s.backends.insert name factory, registered := s.registered ++ [(name, factory)]} := by
  have hgrown : Grown s
      {s with backends := s.backends.insert name factory, registered := s.registered ++ [(name, factory)]} :=
    ⟨fun other hother => (AList.mem_insert _).mpr (.inr hother),
      fun binding hbinding => List.mem_append_left _ hbinding⟩
  refine ⟨hgrown.backends _ h.default, fun binding hbinding => hgrown.backends _ (h.builtin binding hbinding),
    fun other hown => ?_, fun other factory' hfound => ?_, fun u => (h.stands u).grown hgrown,
    fun u ending hmem => (h.sound u ending hmem).grown hgrown⟩
  · rw [lastRegistered_append]
    by_cases hother : other = name
    · subst hother
      rw [if_pos rfl]
      exact AList.lookup_insert _
    · rw [if_neg hother]
      exact (AList.lookup_insert_ne hother).trans (h.own other hown)
  · have hfound : (s.backends.insert name factory).lookup other = some factory' := hfound
    by_cases hother : other = name
    · subst hother
      rw [AList.lookup_insert] at hfound
      obtain rfl := Option.some.inj hfound
      exact ⟨other, List.mem_append_right _ (List.mem_singleton_self _), fun _ => rfl⟩
    · rw [AList.lookup_insert_ne hother] at hfound
      exact (h.provided other factory' hfound).grown hgrown

/-- The fallback writes under no name of its own. -/
theorem Kept.setFallback (h : Kept mp s) {name under : String} {factory : Factory φ} (hname : ¬ Own mp name)
    (hregistered : (under, factory) ∈ s.registered) :
    Kept mp {s with backends := s.backends.insert name factory} := by
  have hgrown : Grown s {s with backends := s.backends.insert name factory} :=
    ⟨fun other hother => (AList.mem_insert _).mpr (.inr hother), fun _ hbinding => hbinding⟩
  refine ⟨hgrown.backends _ h.default, fun binding hbinding => hgrown.backends _ (h.builtin binding hbinding),
    fun other hown => ?_, fun other factory' hfound => ?_, fun u => (h.stands u).grown hgrown, h.sound⟩
  · have hother : other ≠ name := by
      rintro rfl
      exact hname hown
    exact (AList.lookup_insert_ne hother).trans (h.own other hown)
  · have hfound : (s.backends.insert name factory).lookup other = some factory' := hfound
    by_cases hother : other = name
    · subst hother
      rw [AList.lookup_insert] at hfound
      obtain rfl := Option.some.inj hfound
      exact ⟨under, hregistered, fun hown => absurd hown hname⟩
    · rw [AList.lookup_insert_ne hother] at hfound
      exact h.provided other factory' hfound

/-- Where a stand-in's name is missing, it was not imported. -/
theorem Kept.not_own (h : Kept mp s) {name : String} (hmissing : name ∉ s.backends)
    (hmaybe : name ∈ maybeAvailableBackends) : ¬ Own mp name := by
  rintro (rfl | hnot)
  · have hthere : ∀ factory, (name, factory) ∈ (Backends.builtin true : List (String × Factory φ)) → False :=
      fun factory hbuiltin => hmissing (h.builtin _ hbuiltin)
    simp only [maybeAvailableBackends, List.mem_cons, List.not_mem_nil, or_false] at hmaybe
    rcases hmaybe with rfl | rfl
    · exact hthere .multiprocessing (by simp [Backends.builtin])
    · exact hthere .loky (by simp [Backends.builtin])
  · exact hnot hmaybe

/-- Step: the next access. -/
theorem Kept.turn (h : Kept mp s) (hs : s.turn t = some s') : Kept mp s' := by
  have hstands := h.stands t
  unfold Backends.turn at hs
  cases hpc : s.accessing t with
  | idle => simp [hpc] at hs
  | setBackend name factory makeDefault =>
    simp only [hpc] at hs
    cases hs
    refine (h.setBackend name factory).goto ?_
    cases makeDefault with
    | false => trivial
    | true => exact (AList.mem_insert _).mpr (.inl rfl)
  | setDefault name =>
    rw [hpc] at hstands
    simp only [hpc] at hs
    cases hs
    have hdefault : Kept mp {s with defaultBackend := name} :=
      ⟨hstands, h.builtin, h.own, h.provided, h.stands, h.sound⟩
    exact hdefault.goto trivial
  | notIn name =>
    simp only [hpc] at hs
    cases hs
    refine h.goto ?_
    split
    · rename_i hmissing
      exact h.not_own hmissing.1 hmissing.2
    · rename_i hthere
      by_cases hname : name ∈ s.backends
      · exact .inl hname
      · exact .inr fun hmaybe => hthere ⟨hname, hmaybe⟩
  | warn | warned =>
    rw [hpc] at hstands
    simp only [hpc] at hs
    cases hs
    exact h.goto hstands
  | getDefault use =>
    rw [hpc] at hstands
    simp only [hpc] at hs
    cases hs
    refine h.goto ?_
    cases use with
    | make => exact h.default
    | bind name => exact ⟨h.default, hstands⟩
  | subscript default use =>
    rw [hpc] at hstands
    simp only [hpc] at hs
    obtain ⟨factory, hfound⟩ := Option.isSome_iff_exists.mp (AList.lookup_isSome.mpr hstands.subscript)
    rw [hfound] at hs
    have hprovided := h.provided default factory hfound
    cases use with
    | make =>
      cases hs
      exact h.finish hprovided
    | bind name =>
      cases hs
      obtain ⟨under, hregistered, _⟩ := hprovided
      exact h.goto ⟨hstands.2, under, hregistered⟩
  | setFallback name factory =>
    rw [hpc] at hstands
    obtain ⟨hname, under, hregistered⟩ := hstands
    simp only [hpc] at hs
    cases hs
    exact (h.setFallback hname hregistered).goto trivial
  | backend name =>
    rw [hpc] at hstands
    simp only [hpc] at hs
    cases hfound : s.backends.lookup name with
    | some factory =>
      rw [hfound] at hs
      cases hs
      exact h.finish (h.provided name factory hfound)
    | none =>
      rw [hfound] at hs
      cases hs
      exact h.goto (hstands.resolve_left (AList.lookup_eq_none.mp hfound))
  | names name =>
    rw [hpc] at hstands
    simp only [hpc] at hs
    cases hs
    exact h.finish hstands

/-- Step: whatever a thread does. -/
theorem Kept.step {action : Action φ} (h : Kept mp s) (hs : Backends.step s action = some s') : Kept mp s' := by
  cases action with
  | turn t => exact h.turn hs
  | filtered t =>
    simp only [Backends.step] at hs
    split at hs
    · cases hs
      exact h.finish trivial
    · cases hs
  | register t name factory makeDefault =>
    simp only [Backends.step] at hs
    split at hs
    · cases hs
      exact h.goto trivial
    · cases hs
  | registerDask t importable =>
    simp only [Backends.step] at hs
    split at hs
    · cases importable with
      | true =>
        cases hs
        exact h.goto trivial
      | false =>
        cases hs
        exact h.finish trivial
    · cases hs
  | activeBackend t =>
    simp only [Backends.step] at hs
    split at hs
    · cases hs
      exact h.goto trivial
    · cases hs
  | chooseBackend t name =>
    simp only [Backends.step] at hs
    split at hs
    · cases hs
      exact h.goto trivial
    · cases hs

end Steps

/-- **However registrations and lookups cross, the registry stays whole.** The default can be made; each name,
but for a stand-in's that was not imported, means what was last registered under it; no lookup of the default
raises, no stand-in is refused, and a factory found was registered, under the name it was found by if that is no
missing stand-in's. -/
theorem registrations_kept {mp : Bool} {actions : List (Action φ)} {s : Backends φ}
    (h : Runs.run step (imported mp) actions = some s) :
    (∃ factory, s.backends.lookup s.defaultBackend = some factory) ∧
      (∀ name, Own mp name → s.backends.lookup name = lastRegistered name s.registered) ∧
        ∀ t ending, (t, ending) ∈ s.endings → Sound mp s ending := by
  have hkept : Kept mp s := Runs.guarded_run (G := fun _ _ _ => True) (fun _ _ _ h hs _ => h.step hs)
    (imported_kept mp) (.of_forall_mem (fun _ _ _ _ => trivial) _) h
  exact ⟨Option.isSome_iff_exists.mp (AList.lookup_isSome.mpr hkept.default), hkept.own, hkept.sound⟩

/-- Without `multiprocessing`, a thread falls back for `'loky'` while another registers a default. -/
def crossing : List (Action Nat) :=
  [.chooseBackend 0 "loky", .turn 0, .register 1 "ray" (.other 7) true, .turn 0, .turn 1, .turn 0, .turn 0, .turn 1,
    .turn 0, .turn 0, .turn 0, .turn 0]

theorem registrations_kept_crossing : ∃ s : Backends Nat, Runs.run step (imported false) crossing = some s ∧
    s.endings = [(0, .factory "ray" (.other 7))] ∧ s.backends.lookup "loky" = some .threading ∧
      s.backends.lookup "ray" = lastRegistered "ray" s.registered := by
  obtain ⟨s, hrun, hendings, hloky⟩ : ∃ s : Backends Nat, Runs.run step (imported false) crossing = some s ∧
      s.endings = [(0, .factory "ray" (.other 7))] ∧ s.backends.lookup "loky" = some .threading :=
    ⟨_, rfl, rfl, rfl⟩
  exact ⟨s, hrun, hendings, hloky, (registrations_kept hrun).2.1 "ray" (.inr (by decide))⟩

-- a missing stand-in's own registration is lost to a fallback that began before it
example : (Runs.run step (imported false)
    [.chooseBackend 0 "loky", .turn 0, .turn 0, .turn 0, .turn 0, .turn 0, .register 1 "loky" (.other 7) false, .turn 1,
      .turn 0]).map (fun s => (s.backends.lookup "loky", lastRegistered "loky" s.registered)) =
    some (some .threading, some (.other 7)) := rfl

/-! ### Registrations under a stand-in's name -/

/-- The thread is in the fallback for a name. -/
def FallsBack (name : String) : Accessing φ → Prop
  | .warn other | .warned other _ | .getDefault (.bind other) | .subscript _ (.bind other) | .setFallback other _ =>
    other = name
  | _ => False

/-- A name means what was last registered under it, and nobody is about to bind it to anything else. -/
structure Bound (name : String) (s : Backends φ) : Prop where
  lookup : s.backends.lookup name = lastRegistered name s.registered
  there : name ∈ s.backends
  nobody : ∀ t, ¬ FallsBack name (s.accessing t)

section Lasting
variable {name : String} {s s' : Backends φ} {t : Nat}

theorem Bound.goto (h : Bound name s) {pc : Accessing φ} (hpc : ¬ FallsBack name pc) : Bound name (s.goto t pc) := by
  refine ⟨h.lookup, h.there, fun u => ?_⟩
  by_cases hut : u = t
  · subst hut
    rw [goto_self]
    exact hpc
  · rw [goto_other hut]
    exact h.nobody u

theorem Bound.finish (h : Bound name s) (ending : Ending φ) : Bound name (s.finish t ending) := by
  have hfinished : Bound name {s with endings := s.endings ++ [(t, ending)]} := ⟨h.lookup, h.there, h.nobody⟩
  exact hfinished.goto id

/-- Under another name anything may be registered, under this one the latest counts. -/
theorem Bound.setBackend (h : Bound name s) (under : String) (factory : Factory φ) :
    Bound name
      {s with backends := s.backends.insert under factory, registered := s.registered ++ [(under, factory)]} := by
  refine ⟨?_, (AList.mem_insert _).mpr (.inr h.there), h.nobody⟩
  rw [lastRegistered_append]
  by_cases hname : name = under
  · subst hname
    rw [if_pos rfl]
    exact AList.lookup_insert _
  · rw [if_neg hname]
    exact (AList.lookup_insert_ne hname).trans h.lookup

theorem Bound.turn (h : Bound name s) (hs : s.turn t = some s') : Bound name s' := by
  have hnobody := h.nobody t
  unfold Backends.turn at hs
  cases hpc : s.accessing t with
  | idle => simp [hpc] at hs
  | setBackend under factory makeDefault =>
    simp only [hpc] at hs
    cases hs
    refine (h.setBackend under factory).goto ?_
    cases makeDefault <;> exact id
  | setDefault under =>
    simp only [hpc] at hs
    cases hs
    have hdefault : Bound name {s with defaultBackend := under} := ⟨h.lookup, h.there, h.nobody⟩
    exact hdefault.goto id
  | notIn under =>
    simp only [hpc] at hs
    cases hs
    refine h.goto ?_
    split
    · -- the name is there, so the fallback is for another
      rename_i hmissing
      rintro rfl
      exact hmissing.1 h.there
    · exact id
  | warn | warned =>
    rw [hpc] at hnobody
    simp only [hpc] at hs
    cases hs
    exact h.goto hnobody
  | getDefault use =>
    rw [hpc] at hnobody
    simp only [hpc] at hs
    cases hs
    refine h.goto ?_
    cases use <;> exact hnobody
  | subscript default use =>
    rw [hpc] at hnobody
    simp only [hpc] at hs
    cases hfound : s.backends.lookup default with
    | none =>
      rw [hfound] at hs
      cases hs
      exact h.finish _
    | some factory =>
      rw [hfound] at hs
      cases use <;> cases hs
      · exact h.finish _
      · exact h.goto hnobody
  | setFallback under factory =>
    rw [hpc] at hnobody
    simp only [hpc] at hs
    cases hs
    have hkept : Bound name {s with backends := s.backends.insert under factory} :=
      ⟨(AList.lookup_insert_ne fun hname => hnobody hname.symm).trans h.lookup,
        (AList.mem_insert _).mpr (.inr h.there), h.nobody⟩
    exact hkept.goto id
  | backend under =>
    simp only [hpc] at hs
    cases hfound : s.backends.lookup under <;> rw [hfound] at hs <;> cases hs
    · exact h.goto id
    · exact h.finish _
  | names under =>
    simp only [hpc] at hs
    cases hs
    exact h.finish _

theorem Bound.step {action : Action φ} (h : Bound name s) (hs : Backends.step s action = some s') : Bound name s' := by
  cases action with
  | turn t => exact h.turn hs
  | registerDask t importable =>
    simp only [Backends.step] at hs
    split at hs
    · cases importable <;> cases hs
      · exact h.finish _
      · exact h.goto id
    · cases hs
  | filtered t =>
    simp only [Backends.step] at hs
    split at hs <;> cases hs
    exact h.finish _
  | _ =>
    simp only [Backends.step] at hs
    split at hs <;> cases hs
    exact h.goto id

/-- **A registration is lost to nothing but a fallback for its name that has begun before it**: if nobody is in one,
the name means what was last registered under it from then on, whatever the name and whoever does what. -/
theorem registration_lasts {m : Backends φ} {factory : Factory φ} {makeDefault : Bool}
    (hpc : s.accessing t = .setBackend name factory makeDefault) (hnobody : ∀ u, ¬ FallsBack name (s.accessing u))
    (hs : s.turn t = some m) {actions : List (Action φ)} (h : Runs.run step m actions = some s') :
    s'.backends.lookup name = lastRegistered name s'.registered := by
  have hbound : Bound name m := by
    simp only [Backends.turn, hpc] at hs
    cases hs
    have hset : Bound name
        {s with backends := s.backends.insert name factory, registered := s.registered ++ [(name, factory)]} := by
      refine ⟨?_, (AList.mem_insert _).mpr (.inl rfl), hnobody⟩
      rw [lastRegistered_append, if_pos rfl]
      exact AList.lookup_insert _
    refine hset.goto ?_
    cases makeDefault <;> exact id
  exact (Runs.guarded_run (G := fun _ _ _ => True) (fun _ _ _ h hs _ => h.step hs) hbound
    (.of_forall_mem (fun _ _ _ _ => trivial) _) h).lookup

/-- `'loky'` is registered where it was not imported: a lookup finds what was registered. -/
theorem registration_lasts_loky : ∃ m s : Backends Nat,
    Backends.turn ((imported false).goto 1 (.setBackend "loky" (.other 7) false)) 1 = some m ∧
      Runs.run step m [.chooseBackend 0 "loky", .turn 0, .turn 0] = some s ∧
        s.endings = [(0, .factory "loky" (.other 7))] ∧
          s.backends.lookup "loky" = lastRegistered "loky" s.registered := by
  have hnobody : ∀ u, ¬ FallsBack "loky"
      (((imported false).goto 1 (.setBackend "loky" (.other 7) false) : Backends Nat).accessing u) := by
    intro u
    by_cases hu : u = 1
    · subst hu
      rw [goto_self]
      exact id
    · rw [goto_other hu]
      exact id
  obtain ⟨m, s, hturn, hrun, hendings⟩ : ∃ m s : Backends Nat,
      Backends.turn ((imported false).goto 1 (.setBackend "loky" (.other 7) false)) 1 = some m ∧
        Runs.run step m [.chooseBackend 0 "loky", .turn 0, .turn 0] = some s ∧
          s.endings = [(0, .factory "loky" (.other 7))] := ⟨_, _, rfl, rfl, rfl⟩
  exact ⟨m, s, hturn, hrun, hendings, registration_lasts (goto_self ..) hnobody hturn hrun⟩

end Lasting

/-! ### One thread alone -/

section Alone
variable {ω ε : Type}

/-- The registry another part of the code sees. -/
def registry (s : Backends φ) (call : Factory φ → Except (Exc ε) BackendInstance)
    (h : s.defaultBackend ∈ s.backends) : Registry ε where
  backends := fun name => (s.backends.lookup name).map call
  defaultBackend := s.defaultBackend
  registered := by
    rw [Option.isSome_map]
    exact AList.lookup_isSome.mpr h

/-- What `Parallel.__init__` makes of how its lookup ends. -/
def resolved (S : Surroundings ω ε) (call : Factory φ → Except (Exc ε) BackendInstance)
    (repr : List String → String) (nestingLevel : Option Int) : Ending φ → Option (Except (Exc ε) (Setting ω))
  | .factory _ factory => some ((call factory).map (.value ∘ .backend ∘ .atLevel nestingLevel))
  | .invalid name expected =>
    some (.error (.valueError ("Invalid backend: " ++ (Setting.value (.str name)).str S.toObjects ++
      ", expected one of " ++ repr expected)))
  | _ => none

/-- So is the default, where neither argument asks for anything. -/
theorem default_undisturbed (O : Objects ω ε) (call : Factory φ → Except (Exc ε) BackendInstance)
    {s : Backends φ} {t : Nat} (hidle : s.accessing t = .idle) (hdefault : s.defaultBackend ∈ s.backends) :
    ∃ factory, Runs.run step s [.activeBackend t, .turn t, .turn t] =
        some (s.finish t (.factory s.defaultBackend factory)) ∧
      hintedBackend O (s.registry call hdefault) (.value .none) (.value .none) = call factory := by
  obtain ⟨factory, hfound⟩ := Option.isSome_iff_exists.mp (AList.lookup_isSome.mpr hdefault)
  refine ⟨factory, ?_, ?_⟩
  · simp [Runs.run, step, turn, goto, finish, hidle, hfound]
  · simp [hintedBackend, registry, Setting.isNone, hfound]

/-- The bindings after a lookup: a missing stand-in has been bound to what the default was. -/
def fallenBack (s : Backends φ) (name : String) : AList fun _ : String => Factory φ :=
  if name ∉ s.backends ∧ name ∈ maybeAvailableBackends then
    match s.backends.lookup s.defaultBackend with
    | some factory => s.backends.insert name factory
    | none => s.backends
  else s.backends

/-- Access by access, a lookup that nobody disturbs is `resolveBackend`, and leaves the entry of the fallback. -/
theorem lookup_undisturbed (S : Surroundings ω ε) (call : Factory φ → Except (Exc ε) BackendInstance)
    (repr : List String → String) {s : Backends φ} {t : Nat} (hidle : s.accessing t = .idle)
    (hdefault : s.defaultBackend ∈ s.backends) (name : String) (activeBackend : Setting ω)
    (nestingLevel : Option Int) :
    ∃ turns ending,
      Runs.run step s (.chooseBackend t name :: List.replicate turns (.turn t)) =
          some ({s with backends := s.fallenBack name}.finish t ending) ∧
        resolved S call repr nestingLevel ending =
          some (resolveBackend {S with names := repr s.sortedNames} (s.registry call hdefault) (.value (.str name))
            activeBackend nestingLevel) := by
  obtain ⟨default, hdefaultFound⟩ := Option.isSome_iff_exists.mp (AList.lookup_isSome.mpr hdefault)
  unfold resolveBackend registry fallenBack
  by_cases hname : name ∈ s.backends
  · obtain ⟨factory, hfound⟩ := Option.isSome_iff_exists.mp (AList.lookup_isSome.mpr hname)
    refine ⟨2, .factory name factory, ?_, ?_⟩
    · simp [List.replicate, Runs.run, step, turn, goto, finish, hidle, hname, hfound]
    · simp [resolved, hfound]
  · have hmissing : s.backends.lookup name = none := AList.lookup_eq_none.mpr hname
    by_cases hmaybe : name ∈ maybeAvailableBackends
    · have hother : s.defaultBackend ≠ name := by
        rintro rfl
        exact hname hdefault
      refine ⟨8, .factory s.defaultBackend default, ?_, ?_⟩
      · simp [List.replicate, Runs.run, step, turn, goto, finish, hidle, hname, hmaybe, hdefaultFound,
          AList.lookup_insert_ne hother]
      · simp [resolved, hmissing, hmaybe, hdefaultFound]
    · refine ⟨3, .invalid name s.sortedNames, ?_, ?_⟩
      · simp [List.replicate, Runs.run, step, turn, goto, finish, hidle, hname, hmaybe, hmissing, sortedNames]
      · simp [resolved, hmissing, hmaybe, Setting.str]

end Alone

end Backends
end Joblib
