import Joblib.Config.Resolution

/-! The shared-memory constraint.

An effective `require` of `'sharedmem'` is to be met by the configured backend or else by a
`ThreadingBackend`, and what cannot be met is to be refused (`Honours`, `ParallelHonours`).
`_get_active_backend` looks at its two arguments only where no backend is configured, by
which it means `None`: the default configuration holds a marker, and that it returns.
`sharedmem_honoured_iff` says where the constraint is honoured nevertheless. `Parallel`
selects nothing at all, so it honours the constraint only in what it refuses in time. -/
namespace Joblib

/-- What `Parallel.__init__` reads of its surroundings besides. -/
structure Surroundings (ω ε : Type) extends Objects ω ε where
  /-- `hasattr(o, 'Pool') and hasattr(o, 'Lock')`. -/
  isContext : ω → Bool
  /-- `getattr(o, 'supports_sharedmem', False)`. -/
  supportsSharedmem : ω → Bool
  /-- `o.default_n_jobs`. -/
  defaultNJobs : ω → Except (Exc ε) (Setting ω)
  /-- `hash(s)`. -/
  hash : Setting ω → Except (Exc ε) Unit
  /-- `int(s)`. -/
  int : Setting ω → Except (Exc ε) Int
  /-- `repr(sorted(BACKENDS.keys()))`. -/
  names : String

/-- `MultiprocessingBackend()`. -/
def multiprocessingBackend : BackendInstance := ⟨"MultiprocessingBackend", none, false, 1⟩

def maybeAvailableBackends : List String := ["multiprocessing", "loky"]

/-- What `backend_factory(nesting_level=level)` makes, given what `backend_factory()` does. -/
def BackendInstance.atLevel (level : Option Int) (b : BackendInstance) : BackendInstance := {b with nestingLevel := level}

namespace Setting
variable {ω ε : Type} (S : Surroundings ω ε)

def isContext : Setting ω → Bool
  | .value (.object o) => S.isContext o
  | _ => false

/-- `getattr(s, 'supports_sharedmem', False)`. -/
def supportsSharedmem : Setting ω → Bool
  | .value (.backend b) => b.supportsSharedmem
  | .value (.object o) => S.supportsSharedmem o
  | _ => false

/-- `s.default_n_jobs`. -/
def defaultNJobs : Setting ω → Except (Exc ε) (Setting ω)
  | .value (.backend b) => .ok (.value (.int b.defaultNJobs))
  | .value (.object o) => S.defaultNJobs o
  | s => .error (.attributeError ("'" ++ s.typeName S.toObjects ++ "' object has no attribute 'default_n_jobs'"))

end Setting

section Source
variable {ω ε : Type} (S : Surroundings ω ε) (R : Registry ε)

/-- The chain of tests that makes a backend of `backend`. An unavailable one also leaves an
entry in `BACKENDS`, which is dropped here. -/
def resolveBackend (backend activeBackend : Setting ω) (nestingLevel : Option Int) : Except (Exc ε) (Setting ω) :=
  let made (result : Except (Exc ε) BackendInstance) := result.map (.value ∘ .backend ∘ .atLevel nestingLevel)
  let invalid : Exc ε :=
    .valueError ("Invalid backend: " ++ backend.str S.toObjects ++ ", expected one of " ++ S.names)
  match backend with
  | .sentinel (.entry .backend) | .value .none => .ok activeBackend
  | .value (.backend b) => .ok (.value (.backend (if b.nestingLevel.isNone then b.atLevel nestingLevel else b)))
  | .value (.str name) =>
    match R.backends name with
    | some result => made result
    | none =>
      if maybeAvailableBackends.contains name then made ((R.backends R.defaultBackend).get R.registered)
      else .error invalid
  | backend =>
    if backend.isContext S then made (.ok multiprocessingBackend)
    else do
      S.hash backend
      .error invalid

/-- `Parallel.__init__` after `self.verbose`, up to the check of the backend's shared memory;
it ends in what `self._backend` is to be. `convert` is what is done to the `max_nbytes` and
the `verbose` of `_backend_args`. -/
def Parallel.chooseBackend (convert : List (Setting ω) → Except (Exc ε) Unit) (returnAs : Setting ω) (args : Passed ω)
    (activeBackend : Setting ω) (contextConfig : Config ω) (nestingLevel : Option Int) (_verbose : Setting ω) :
    Except (Exc ε) (Setting ω) := do
  S.hash returnAs
  if !(returnAs.equals "list" || returnAs.equals "generator" || returnAs.equals "generator_unordered") then
    throw (.valueError ("Expected `return_as` parameter to be a string equal to \"list\",\"generator\" or " ++
      "\"generator_unordered\", but got " ++ returnAs.str S.toObjects ++ " instead."))
  let backendArgs ← [Key.maxNbytes, .tempFolder, .mmapMode, .prefer, .require, .verbose].mapM fun key =>
    getConfigParam (args key) contextConfig key
  convert backendArgs
  let backend ← resolveBackend S R (args .backend) activeBackend nestingLevel
  let nJobs ← getConfigParam (args .nJobs) contextConfig .nJobs
  let nJobs ← if nJobs.isNone then backend.defaultNJobs S else pure nJobs
  match S.int nJobs with
  | .error (.valueError _) => throw (.valueError "n_jobs could not be converted to int")
  | .error e => throw e
  | .ok _ => pure ()
  if (args .require).equals "sharedmem" && !backend.supportsSharedmem S then
    throw (.valueError ("Backend " ++ backend.str S.toObjects ++ " does not support shared memory"))
  return backend

/-- `Parallel.__init__`, up to the check of the backend's shared memory. -/
def Parallel.initBackend (convert : List (Setting ω) → Except (Exc ε) Unit) (returnAs : Setting ω) (t : Thread ω)
    (args : Passed ω) : Except (Exc ε) (Setting ω) :=
  Parallel.init S.toObjects R (Parallel.chooseBackend S R convert returnAs args.unsetNone) t args

end Source

namespace Sharedmem

/-! ### The constraint -/

section Documented
variable {ω ε : Type}

/-- What takes effect: the argument, or else what is configured, or else the default. -/
def effective (config : Config ω) (passed : Setting ω) (key : Key) : Value ω :=
  (passed.given <|> (config key).bind Setting.given).getD key.defaultValue

/-- The configured backend; `None` if there is none. -/
def configured (config : Config ω) : Setting ω := (config .backend).getD (.value .none)

def RequiresSharedmem (config : Config ω) (require : Setting ω) : Prop :=
  effective config require .require = .str "sharedmem"

/-- What has to be refused, whatever backend is configured. -/
def Unsatisfiable (config : Config ω) (prefer require : Setting ω) : Prop :=
  let prefer := effective config prefer .prefer
  let require := effective config require .require
  require ∉ [.str "sharedmem", .none] ∨ prefer ∉ [.str "processes", .str "threads", .none] ∨
    prefer = .str "processes" ∧ require = .str "sharedmem"

/-- It raises `ValueError`. -/
def Rejected {α : Type} (result : Except (Exc ε) α) : Prop := ∃ message, result = .error (.valueError message)

/-- The backend has shared memory; it is the configured one if that has. -/
structure Suits (found : Setting ω) (b : BackendInstance) : Prop where
  supports : b.supportsSharedmem = true
  kept : ∀ c, found = .value (.backend c) → c.supportsSharedmem = true → b = c
  replaced : (∀ c, found = .value (.backend c) → c.supportsSharedmem = false) →
    b.className = threadingBackend.className

/-- A selection without an explicit backend honours the constraint. -/
structure Honours (config : Config ω) (prefer require : Setting ω) (result : Except (Exc ε) (Setting ω)) : Prop where
  rejects : Unsatisfiable config prefer require → Rejected result
  selects : ¬ Unsatisfiable config prefer require →
    ∃ b, result = .ok (.value (.backend b)) ∧
      (RequiresSharedmem config require → Suits (configured config) b)

/-- No backend is given to `Parallel`. -/
def NotGiven (backend : Setting ω) : Prop := backend = defaultSetting .backend ∨ backend = .value .none

/-- The backend an explicit argument stands for, if it does. -/
def denoted (S : Surroundings ω ε) (R : Registry ε) (backend : Setting ω) : Option BackendInstance :=
  match backend with
  | .value (.backend b) => some b
  | .value (.str name) =>
    match R.backends name with
    | some result => result.toOption
    | none =>
      if maybeAvailableBackends.contains name then ((R.backends R.defaultBackend).get R.registered).toOption else none
  | backend => if backend.isContext S then some multiprocessingBackend else none

/-- `Parallel` honours the constraint. -/
structure ParallelHonours (S : Surroundings ω ε) (R : Registry ε) (config : Config ω) (args : Passed ω)
    (result : Except (Exc ε) (Setting ω)) : Prop where
  backend : ∀ selected, result = .ok selected → ∃ b, selected = .value (.backend b)
  notGiven : NotGiven (args .backend) → Honours config (args .prefer) (args .require) result
  rejects : Unsatisfiable config (args .prefer) (args .require) → Rejected result
  rejectsGiven : RequiresSharedmem config (args .require) →
    ∀ b, denoted S R (args .backend) = some b → b.supportsSharedmem = false → Rejected result
  takesGiven : ¬ Unsatisfiable config (args .prefer) (args .require) →
    ∀ b, denoted S R (args .backend) = some b →
      (RequiresSharedmem config (args .require) → b.supportsSharedmem = true) →
        ∃ b', result = .ok (.value (.backend b'))

end Documented

/-! ### What is selected -/

section Selection
variable {ω ε : Type}

/-- No backend is configured, as the code tests for it. -/
def Unconfigured (config : Config ω) : Prop := (configured config).isNone = true

/-- Where no backend is configured, these arguments are refused. -/
def Refused (prefer require : Setting ω) : Prop :=
  require.isNone = false ∧ require.equals "sharedmem" = false ∨
    require.isNone = true ∧ prefer.isNone = false ∧ prefer.equals "processes" = false ∧
      prefer.equals "threads" = false

/-- Neither argument asks for anything. -/
def Unhinted (prefer require : Setting ω) : Prop := require.isNone = true ∧ prefer.isNone = true

/-- A backend that may be selected is configured, or is made from the arguments. -/
def Selectable (R : Registry ε) (config : Config ω) (prefer require : Setting ω) : Prop :=
  (∃ b, configured config = .value (.backend b) ∧
      (RequiresSharedmem config require → b.supportsSharedmem = true)) ∨
    Unconfigured config ∧ ¬ Refused prefer require ∧
      (Unhinted prefer require → ∃ b, (R.backends R.defaultBackend).get R.registered = .ok b)

/-- `_get_active_backend` raises `ValueError`: it refuses the arguments, or what `verbose` is
compared by does. -/
def RefusedEarly (O : Objects ω ε) (config : Config ω) (prefer require verbose : Setting ω) : Prop :=
  Unconfigured config ∧ Refused prefer require ∨ Rejected (verbose.positive O)

theorem isNone_eq {s : Setting ω} (h : s.isNone = true) : s = .value .none := by
  cases s with
  | sentinel => cases h
  | value v => cases v <;> first | rfl | cases h

@[simp] theorem effective_value (config : Config ω) (v : Value ω) (key : Key) : effective config (.value v) key = v := rfl

/-- What asks for nothing can be satisfied. -/
theorem Unhinted.satisfiable {prefer require : Setting ω} (h : Unhinted prefer require) (config : Config ω) :
    ¬ Unsatisfiable config prefer require ∧
      ¬ RequiresSharedmem config require := by
  obtain ⟨hrequire, hprefer⟩ := h
  rw [isNone_eq hrequire, isNone_eq hprefer]
  simp [Unsatisfiable, RequiresSharedmem]

theorem not_rejected_ok {α : Type} (x : α) : ¬ Rejected (.ok x : Except (Exc ε) α) := by
  rintro ⟨message, h⟩
  cases h

variable (O : Objects ω ε) (R : Registry ε)

theorem hinted_refused {prefer require : Setting ω} (h : Refused prefer require) :
    Rejected (hintedBackend O R prefer require) := by
  unfold hintedBackend
  rcases h with ⟨hnone, hequals⟩ | ⟨hnone, hprefer, hprocesses, hthreads⟩
  · exact ⟨"Invalid 'require' parameter: " ++ require.str O, by simp [hnone, hequals]⟩
  · exact ⟨"Invalid 'prefer' parameter: " ++ prefer.str O, by simp [hnone, hprefer, hprocesses, hthreads]⟩

theorem hinted_unhinted {prefer require : Setting ω} (h : Unhinted prefer require) :
    hintedBackend O R prefer require = (R.backends R.defaultBackend).get R.registered := by
  simp [hintedBackend, h.1, h.2]

/-- What is neither refused nor left open is a backend, and one with shared memory where the
argument asks for it. -/
theorem hinted_chosen {prefer require : Setting ω} (hrefused : ¬ Refused prefer require)
    (hhinted : ¬ Unhinted prefer require) :
    ∃ b, hintedBackend O R prefer require = .ok b ∧ (require.isNone = false → b = threadingBackend) := by
  unfold hintedBackend
  by_cases hrequire : require.isNone = true
  · have hprefer : prefer.isNone = false := by simpa [Unhinted, hrequire] using hhinted
    by_cases hprocesses : prefer.equals "processes" = true
    · exact ⟨R.processes, by simp [hrequire, hprefer, hprocesses], by simp [hrequire]⟩
    · have hthreads : prefer.equals "threads" = true := by
        simpa [Refused, hrequire, hprefer, hprocesses] using hrefused
      exact ⟨threadingBackend, by simp [hrequire, hprefer, hprocesses, hthreads], fun _ => rfl⟩
  · have hsharedmem : require.equals "sharedmem" = true := by simpa [Refused, hrequire] using hrefused
    exact ⟨threadingBackend, by simp [hrequire, hsharedmem], fun _ => rfl⟩

/-- Where a backend is configured, it is selected. -/
theorem active_configured {t : Thread ω} (h : ¬ Unconfigured t.active) (prefer require verbose : Setting ω) :
    getActiveBackend O R t prefer require verbose =
      (verbose.positive O).bind fun _ => .ok (configured t.active, t.active) := by
  have hbackend : ¬ ((t.active .backend).getD (.value .none)).isNone = true := h
  simp only [getActiveBackend, if_neg hbackend]
  rfl

/-- Where none is, the arguments decide. -/
theorem active_unconfigured {t : Thread ω} (h : Unconfigured t.active) (prefer require verbose : Setting ω) :
    getActiveBackend O R t prefer require verbose =
      (hintedBackend O R prefer require).bind fun b =>
        (verbose.positive O).bind fun _ => .ok (.value (.backend b), t.active) := by
  have hbackend : ((t.active .backend).getD (.value .none)).isNone = true := h
  simp only [getActiveBackend, if_pos hbackend]
  cases hintedBackend O R prefer require <;> rfl

/-- Arguments that ask for something are rejected just so. -/
theorem active_rejected_iff {t : Thread ω} {prefer require : Setting ω} (hhinted : ¬ Unhinted prefer require)
    (verbose : Setting ω) :
    Rejected (getActiveBackend O R t prefer require verbose) ↔ RefusedEarly O t.active prefer require verbose := by
  unfold RefusedEarly
  by_cases hunconfigured : Unconfigured t.active
  · rw [active_unconfigured O R hunconfigured]
    by_cases hrefused : Refused prefer require
    · obtain ⟨message, hmessage⟩ := hinted_refused O R hrefused
      rw [hmessage]
      exact ⟨fun _ => .inl ⟨hunconfigured, hrefused⟩, fun _ => ⟨message, rfl⟩⟩
    · obtain ⟨b, hb, -⟩ := hinted_chosen O R hrefused hhinted
      rw [hb]
      simp only [Except.bind, hunconfigured, hrefused, and_false, false_or]
      cases verbose.positive O with
      | error e => simp [Rejected]
      | ok => simp [Rejected]
  · rw [active_configured O R hunconfigured]
    simp only [hunconfigured, false_and, false_or]
    cases verbose.positive O with
    | error e => simp [Rejected, Except.bind]
    | ok => simp [Rejected, Except.bind]

theorem suits_self {found : Setting ω} {b : BackendInstance} (hb : found = .value (.backend b)) :
    Suits found b ↔ b.supportsSharedmem = true := by
  refine ⟨Suits.supports, fun hsupports => ⟨hsupports, fun c hc _ => ?_, fun hlacks => ?_⟩⟩
  · simpa [hb] using hc
  · rw [hlacks b hb] at hsupports
    cases hsupports

theorem suits_unconfigured {config : Config ω} (h : Unconfigured config) : Suits (configured config) threadingBackend := by
  rw [isNone_eq h]
  exact ⟨rfl, fun _ hc => (by cases hc), fun _ => rfl⟩

/-- An argument that is `None` requires nothing, whatever is configured. -/
theorem RequiresSharedmem.isNone {config : Config ω} {require : Setting ω} (h : RequiresSharedmem config require) :
    require.isNone = false := by
  by_contra hpassed
  obtain rfl : require = .value .none := isNone_eq (by simpa using hpassed)
  cases h

/-- A backend is selected, and where shared memory is required one that suits. -/
def Selects (t : Thread ω) (require : Setting ω) (result : Except (Exc ε) (Setting ω × Config ω)) : Prop :=
  ∃ b, result.map Prod.fst = .ok (.value (.backend b)) ∧
    (RequiresSharedmem t.active require → Suits (configured t.active) b)

theorem configured_selects_iff {t : Thread ω} (h : ¬ Unconfigured t.active) (prefer require verbose : Setting ω) :
    Selects t require (getActiveBackend O R t prefer require verbose) ↔
      (∃ positive, verbose.positive O = .ok positive) ∧ Selectable R t.active prefer require := by
  have hselectable : Selectable R t.active prefer require ↔ ∃ b, configured t.active = .value (.backend b) ∧
      (RequiresSharedmem t.active require → b.supportsSharedmem = true) := by
    simp [Selectable, h]
  rw [Selects, active_configured O R h, hselectable]
  cases verbose.positive O with
  | error e => simp [Except.bind, Except.map]
  | ok positive =>
    simp only [Except.bind, Except.map, Except.ok.injEq, exists_eq', true_and]
    exact exists_congr fun b => and_congr_right fun hb => by rw [suits_self hb]

theorem unconfigured_selects_iff {t : Thread ω} (h : Unconfigured t.active) (prefer require verbose : Setting ω) :
    Selects t require (getActiveBackend O R t prefer require verbose) ↔
      (∃ positive, verbose.positive O = .ok positive) ∧ Selectable R t.active prefer require := by
  have hselectable : Selectable R t.active prefer require ↔ ¬ Refused prefer require ∧
      (Unhinted prefer require → ∃ b, (R.backends R.defaultBackend).get R.registered = .ok b) := by
    simp [Selectable, isNone_eq h, h]
  rw [Selects, active_unconfigured O R h, hselectable]
  by_cases hhinted : Unhinted prefer require
  · have hrefused : ¬ Refused prefer require := by simp [Refused, hhinted.1, hhinted.2]
    have hfree := (hhinted.satisfiable t.active).2
    rw [hinted_unhinted O R hhinted]
    cases (R.backends R.defaultBackend).get R.registered with
    | error e => simp [Except.bind, Except.map, hhinted]
    | ok b => cases verbose.positive O <;> simp [Except.bind, Except.map, hrefused, hfree]
  · by_cases hrefused : Refused prefer require
    · obtain ⟨message, hmessage⟩ := hinted_refused O R hrefused
      simp [hmessage, Except.bind, Except.map, hrefused]
    · obtain ⟨b, hb, hthreading⟩ := hinted_chosen O R hrefused hhinted
      have hsuits : RequiresSharedmem t.active require → Suits (configured t.active) b := fun hrequires => by
        rw [hthreading hrequires.isNone]
        exact suits_unconfigured h
      rw [hb]
      cases verbose.positive O with
      | error e => simp [Except.bind, Except.map]
      | ok positive => simpa [Except.bind, Except.map, hrefused, hhinted] using hsuits

/-- A backend is selected if the verbosity can be told and one may be selected. -/
theorem active_selects_iff (t : Thread ω) (prefer require verbose : Setting ω) :
    Selects t require (getActiveBackend O R t prefer require verbose) ↔
      (∃ positive, verbose.positive O = .ok positive) ∧ Selectable R t.active prefer require := by
  by_cases h : Unconfigured t.active
  · exact unconfigured_selects_iff O R h prefer require verbose
  · exact configured_selects_iff O R h prefer require verbose

/-- What is rejected is exactly what was to be, or else a backend is selected that suits. -/
theorem active_honours_iff (t : Thread ω) (prefer require verbose : Setting ω) :
    Honours t.active prefer require ((getActiveBackend O R t prefer require verbose).map Prod.fst) ↔
      Unsatisfiable t.active prefer require ∧ RefusedEarly O t.active prefer require verbose ∨
        ¬ Unsatisfiable t.active prefer require ∧ (∃ positive, verbose.positive O = .ok positive) ∧
          Selectable R t.active prefer require := by
  have hmap : Rejected ((getActiveBackend O R t prefer require verbose).map Prod.fst) ↔
      Rejected (getActiveBackend O R t prefer require verbose) := by
    cases getActiveBackend O R t prefer require verbose <;> simp [Rejected, Except.map]
  rw [← active_selects_iff]
  by_cases hbad : Unsatisfiable t.active prefer require
  · have hhinted : ¬ Unhinted prefer require := fun hhinted => (hhinted.satisfiable t.active).1 hbad
    rw [← active_rejected_iff O R hhinted, ← hmap]
    exact ⟨fun h => .inl ⟨hbad, h.rejects hbad⟩, fun h =>
      ⟨fun _ => h.elim And.right fun hgood => absurd hbad hgood.1, fun hgood => absurd hbad hgood⟩⟩
  · exact ⟨fun h => .inr ⟨hbad, h.selects hbad⟩, fun h =>
      ⟨fun hbad' => absurd hbad' hbad, fun _ => h.elim (fun hrejected => absurd hrejected.1 hbad) And.right⟩⟩

end Selection

/-! ### What `Parallel` takes -/

section Constructor
variable {ω ε : Type} (S : Surroundings ω ε) (R : Registry ε)

/-- The configured object is asked for its nesting level and raises `ValueError`. -/
def RefusedByObject (config : Config ω) (verbose : Setting ω) : Prop :=
  (∃ positive, verbose.positive S.toObjects = .ok positive) ∧
    ∃ o, configured config = .value (.object o) ∧ Rejected (S.nestingLevel o)

theorem nestingLevel_rejected_iff (O : Objects ω ε) (s : Setting ω) :
    Rejected (s.nestingLevel O) ↔ ∃ o, s = .value (.object o) ∧ Rejected (O.nestingLevel o) := by
  cases s with
  | sentinel m => simp [Setting.nestingLevel, Rejected]
  | value v => cases v <;> simp [Setting.nestingLevel, Rejected]

/-- After the nesting level `__init__` raises `TypeError`. -/
theorem initBackend_eq (convert : List (Setting ω) → Except (Exc ε) Unit) (returnAs : Setting ω) (t : Thread ω)
    (args : Passed ω) :
    Parallel.initBackend S R convert returnAs t args =
      (getActiveBackend S.toObjects R t (args .prefer) (args .require) (args .verbose)).bind fun active =>
        (active.1.nestingLevel S.toObjects).bind fun _ =>
          .error (.typeError "_Sentinel.__init__() missing 1 required positional argument: 'default_value'") :=
  rfl

theorem initBackend_selects_nothing (convert : List (Setting ω) → Except (Exc ε) Unit) (returnAs : Setting ω)
    (t : Thread ω) (args : Passed ω) (backend : Setting ω) :
    Parallel.initBackend S R convert returnAs t args ≠ .ok backend := by
  obtain ⟨e, he⟩ := init_raises S.toObjects R (Parallel.chooseBackend S R convert returnAs args.unsetNone) t args
  rw [Parallel.initBackend, he]
  exact nofun

theorem initBackend_rejected_iff (convert : List (Setting ω) → Except (Exc ε) Unit) (returnAs : Setting ω)
    {t : Thread ω} {args : Passed ω} (hhinted : ¬ Unhinted (args .prefer) (args .require)) :
    Rejected (Parallel.initBackend S R convert returnAs t args) ↔
      RefusedEarly S.toObjects t.active (args .prefer) (args .require) (args .verbose) ∨
        RefusedByObject S t.active (args .verbose) := by
  rw [initBackend_eq, ← active_rejected_iff S.toObjects R hhinted]
  by_cases hunconfigured : Unconfigured t.active
  · have hobject : ¬ RefusedByObject S t.active (args .verbose) := by
      rintro ⟨-, o, ho, -⟩
      rw [isNone_eq hunconfigured] at ho
      cases ho
    rw [active_unconfigured S.toObjects R hunconfigured]
    simp only [hobject, or_false]
    cases hintedBackend S.toObjects R (args .prefer) (args .require) with
    | error e => simp [Rejected, Except.bind]
    | ok b =>
      cases (args .verbose).positive S.toObjects with
      | error e => simp [Rejected, Except.bind]
      | ok positive => simp [Rejected, Except.bind, Setting.nestingLevel]
  · rw [active_configured S.toObjects R hunconfigured]
    cases hpositive : (args .verbose).positive S.toObjects with
    | error e => simp [Rejected, Except.bind, RefusedByObject, hpositive]
    | ok positive =>
      simp only [RefusedByObject, hpositive, Except.bind, not_rejected_ok, false_or, Except.ok.injEq, exists_eq',
        true_and, ← nestingLevel_rejected_iff]
      cases (configured t.active).nestingLevel S.toObjects with
      | error e => simp [Rejected]
      | ok level => simp [Rejected]

/-- `Parallel` has to refuse. -/
def Due (config : Config ω) (args : Passed ω) : Prop :=
  Unsatisfiable config (args .prefer) (args .require) ∨
    RequiresSharedmem config (args .require) ∧
      ∃ b, denoted S R (args .backend) = some b ∧ b.supportsSharedmem = false

theorem Due.hinted {S : Surroundings ω ε} {R : Registry ε} {config : Config ω} {args : Passed ω}
    (h : Due S R config args) : ¬ Unhinted (args .prefer) (args .require) := fun hhinted =>
  h.elim (hhinted.satisfiable config).1 fun hrequires => (hhinted.satisfiable config).2 hrequires.1

theorem denoted_notGiven {backend : Setting ω} (h : NotGiven backend) : denoted S R backend = none := by
  rcases h with rfl | rfl <;> rfl

/-- What has to be refused is refused before the exception, or else what is given is no
backend and nothing is to be selected. -/
theorem parallel_honours_iff (convert : List (Setting ω) → Except (Exc ε) Unit) (returnAs : Setting ω) (t : Thread ω)
    (args : Passed ω) :
    ParallelHonours S R t.active args (Parallel.initBackend S R convert returnAs t args) ↔
      Due S R t.active args ∧
          (RefusedEarly S.toObjects t.active (args .prefer) (args .require) (args .verbose) ∨
            RefusedByObject S t.active (args .verbose)) ∨
        ¬ Unsatisfiable t.active (args .prefer) (args .require) ∧ ¬ NotGiven (args .backend) ∧
          denoted S R (args .backend) = none := by
  have hnothing := initBackend_selects_nothing S R convert returnAs t args
  have hrejected : Due S R t.active args →
      (Rejected (Parallel.initBackend S R convert returnAs t args) ↔
        RefusedEarly S.toObjects t.active (args .prefer) (args .require) (args .verbose) ∨
          RefusedByObject S t.active (args .verbose)) := fun hdue =>
    initBackend_rejected_iff S R convert returnAs hdue.hinted
  constructor
  · intro h
    by_cases hbad : Unsatisfiable t.active (args .prefer) (args .require)
    · exact .inl ⟨.inl hbad, (hrejected (.inl hbad)).mp (h.rejects hbad)⟩
    · have hgiven : ¬ NotGiven (args .backend) := fun hnotGiven => by
        obtain ⟨b, hb, -⟩ := (h.notGiven hnotGiven).selects hbad
        exact hnothing _ hb
      cases hdenoted : denoted S R (args .backend) with
      | none => exact .inr ⟨hbad, hgiven, rfl⟩
      | some b =>
        -- it is not taken, so shared memory is required and the backend has none
        have hlacks : RequiresSharedmem t.active (args .require) ∧ b.supportsSharedmem = false := by
          by_contra hnot
          obtain ⟨b', hb'⟩ := h.takesGiven hbad b hdenoted fun hrequires => by simpa [hrequires] using hnot
          exact hnothing _ hb'
        have hdue : Due S R t.active args := .inr ⟨hlacks.1, b, hdenoted, hlacks.2⟩
        exact .inl ⟨hdue, (hrejected hdue).mp (h.rejectsGiven hlacks.1 b hdenoted hlacks.2)⟩
  · rintro (⟨hdue, hearly⟩ | ⟨hgood, hgiven, hdenoted⟩)
    · have hresult := (hrejected hdue).mpr hearly
      have hgiven : ¬ Unsatisfiable t.active (args .prefer) (args .require) →
          RequiresSharedmem t.active (args .require) ∧
            ∃ b, denoted S R (args .backend) = some b ∧ b.supportsSharedmem = false := hdue.resolve_left
      refine ⟨fun _ hok => (hnothing _ hok).elim, fun hnotGiven => ⟨fun _ => hresult, fun hgood => ?_⟩, fun _ => hresult,
        fun _ _ _ _ => hresult, fun hgood b hb hsupports => ?_⟩
      · obtain ⟨-, b, hb, -⟩ := hgiven hgood
        rw [denoted_notGiven S R hnotGiven] at hb
        cases hb
      · obtain ⟨hrequires, b', hb', hlacks⟩ := hgiven hgood
        obtain rfl : b = b' := Option.some.inj (hb.symm.trans hb')
        rw [hsupports hrequires] at hlacks
        cases hlacks
    · exact ⟨fun _ hok => (hnothing _ hok).elim, fun hnotGiven => absurd hnotGiven hgiven, fun hbad => absurd hbad hgood,
        fun _ b hb => by simp [hdenoted] at hb, fun _ b hb => by simp [hdenoted] at hb⟩

/-- **Where the constraint is honoured**, without an explicit backend and by `Parallel`. -/
theorem sharedmem_honoured_iff (convert : List (Setting ω) → Except (Exc ε) Unit) (returnAs : Setting ω)
    (t : Thread ω) (args : Passed ω) :
    (Honours t.active (args .prefer) (args .require)
        ((getActiveBackend S.toObjects R t (args .prefer) (args .require) (args .verbose)).map Prod.fst) ↔
      Unsatisfiable t.active (args .prefer) (args .require) ∧
          RefusedEarly S.toObjects t.active (args .prefer) (args .require) (args .verbose) ∨
        ¬ Unsatisfiable t.active (args .prefer) (args .require) ∧
          (∃ positive, (args .verbose).positive S.toObjects = .ok positive) ∧
          Selectable R t.active (args .prefer) (args .require)) ∧
    (ParallelHonours S R t.active args (Parallel.initBackend S R convert returnAs t args) ↔
      Due S R t.active args ∧
          (RefusedEarly S.toObjects t.active (args .prefer) (args .require) (args .verbose) ∨
            RefusedByObject S t.active (args .verbose)) ∨
        ¬ Unsatisfiable t.active (args .prefer) (args .require) ∧ ¬ NotGiven (args .backend) ∧
          denoted S R (args .backend) = none) :=
  ⟨active_honours_iff S.toObjects R t _ _ _, parallel_honours_iff S R convert returnAs t args⟩

end Constructor

/-! A block that sets the loky backend, and no block at all. -/

def lokyBlock : Manager Empty := .parallelConfig {Arguments.none with backend := .value (.backend lokyBackend)}

/-- No objects but Python's own, which are no backends. -/
def builtinSurroundings : Surroundings Empty Empty where
  toObjects := builtinObjects
  isContext := Empty.elim
  supportsSharedmem := Empty.elim
  defaultNJobs := Empty.elim
  hash _ := .ok ()
  int
    | .value (.int n) => .ok n
    | s => .error (.typeError ("int() argument must be a string, a bytes-like object or a real number, not '" ++
        s.typeName builtinObjects ++ "'"))
  names := "['loky', 'multiprocessing', 'sequential', 'threading']"

/-- `require='sharedmem', verbose=0`. -/
def sharedmemRequired : Passed Empty
  | .require => .value (.str "sharedmem")
  | .verbose => .value (.int 0)
  | key => defaultSetting key

/-- The loky backend is selected for shared memory, so is the marker where nothing is
configured, and `Parallel` raises `AttributeError`, for the marker has no nesting level. -/
theorem sharedmem_not_honoured : ∃ t, enter (.lenient Empty Empty) [lokyBlock] .new = .ok t ∧
    ¬ Honours t.active (sharedmemRequired .prefer) (sharedmemRequired .require)
      ((getActiveBackend builtinObjects builtinBackends t (sharedmemRequired .prefer) (sharedmemRequired .require)
        (sharedmemRequired .verbose)).map Prod.fst) ∧
    ¬ Honours (Thread.new : Thread Empty).active (sharedmemRequired .prefer) (sharedmemRequired .require)
      ((getActiveBackend builtinObjects builtinBackends .new (sharedmemRequired .prefer) (sharedmemRequired .require)
        (sharedmemRequired .verbose)).map Prod.fst) ∧
    ¬ ParallelHonours builtinSurroundings builtinBackends (Thread.new : Thread Empty).active sharedmemRequired
      (Parallel.initBackend builtinSurroundings builtinBackends (fun _ => .ok ()) (.value (.str "list")) .new
        sharedmemRequired) := by
  have hgood : ∀ config : Config Empty, (config .prefer).bind Setting.given = none →
      ¬ Unsatisfiable config (sharedmemRequired .prefer) (sharedmemRequired .require) := by
    intro config hprefer
    simp [Unsatisfiable, effective, sharedmemRequired, hprefer, Setting.given, Key.defaultValue, defaultSetting]
  refine ⟨_, rfl, fun h => ?_, fun h => ?_, fun h => ?_⟩
  · obtain ⟨b, hb, hsuits⟩ := h.selects (hgood _ rfl)
    obtain rfl : lokyBackend = b := by cases hb; rfl
    cases (hsuits rfl).supports
  · obtain ⟨b, hb, -⟩ := h.selects (hgood _ rfl)
    cases hb
  · obtain ⟨b, hb, -⟩ := (h.notGiven (.inl rfl)).selects (hgood _ rfl)
    cases hb

end Sharedmem

end Joblib
