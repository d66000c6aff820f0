import Joblib.Config.State

/-! How `Parallel` resolves its parameters.

An argument given to `Parallel` comes first, then the innermost block that set the
parameter, then the documented default (`expected`). `_get_config_param` is to decide, by
comparing what it is passed with `_Sentinel()`; but that call lacks the marker's one
argument, so it raises whatever it is passed, and so does `Parallel.__init__`. -/
namespace Joblib

/-- The arguments of `Parallel` that a block may set too; a marker where none is given. -/
abbrev Passed (ω : Type) := Key → Setting ω

/-- What the objects `ω` do when the code uses them. -/
structure Objects (ω ε : Type) where
  typeName : ω → String
  /-- `str(v)`. -/
  str : Value ω → String
  /-- `repr(v)`. -/
  repr : Value ω → String
  /-- `o > 0`. -/
  positive : ω → Except (Exc ε) Bool
  /-- `o.nesting_level`. -/
  nestingLevel : ω → Except (Exc ε) (Option Int)

/-- `BACKENDS`, each entry with what calling it does, and `DEFAULT_BACKEND`. -/
structure Registry (ε : Type) where
  backends : String → Option (Except (Exc ε) BackendInstance)
  defaultBackend : String
  registered : (backends defaultBackend).isSome

/-- `ThreadingBackend()`. -/
def threadingBackend : BackendInstance := ⟨"ThreadingBackend", none, true, 1⟩

/-- `LokyBackend()`. -/
def lokyBackend : BackendInstance := ⟨"LokyBackend", none, false, 1⟩

namespace Setting
variable {ω ε : Type} (O : Objects ω ε)

/-- `s is None`. -/
def isNone : Setting ω → Bool
  | .value .none => true
  | _ => false

/-- `s == text`. -/
def equals (s : Setting ω) (text : String) : Bool :=
  match s with
  | .value (.str t) => t == text
  | _ => false

/-- What was explicitly set. -/
def given : Setting ω → Option (Value ω)
  | .sentinel _ => none
  | .value v => some v

/-- `type(s).__name__`. -/
def typeName : Setting ω → String
  | .sentinel _ => "_Sentinel"
  | .value .none => "NoneType"
  | .value (.int _) => "int"
  | .value (.str _) => "str"
  | .value (.backend b) => b.className
  | .value (.object o) => O.typeName o

/-- `str(s)`; of a marker, its `__repr__`. -/
def str : Setting ω → String
  | .sentinel s => "default(" ++ O.repr s.defaultValue ++ ")"
  | .value v => O.str v

/-- `s > 0`. -/
def positive : Setting ω → Except (Exc ε) Bool
  | .value (.int n) => .ok (decide (0 < n))
  | .value (.object o) => O.positive o
  | s => .error (.typeError ("'>' not supported between instances of '" ++ s.typeName O ++ "' and 'int'"))

/-- `s.nesting_level`. -/
def nestingLevel : Setting ω → Except (Exc ε) (Option Int)
  | .value (.backend b) => .ok b.nestingLevel
  | .value (.object o) => O.nestingLevel o
  | s => .error (.attributeError ("'" ++ s.typeName O ++ "' object has no attribute 'nesting_level'"))

end Setting

section Source
variable {ω ε : Type} (O : Objects ω ε) (R : Registry ε)

/-- `LokyBackend() if 'loky' in BACKENDS else ThreadingBackend()`. -/
def Registry.processes : BackendInstance :=
  if (R.backends "loky").isSome then lokyBackend else threadingBackend

/-- `_get_active_backend` where no backend is configured. -/
def hintedBackend (prefer require : Setting ω) : Except (Exc ε) BackendInstance :=
  if !require.isNone then
    if !(require.equals "sharedmem" || require.isNone) then
      .error (.valueError ("Invalid 'require' parameter: " ++ require.str O))
    else if require.equals "sharedmem" then .ok threadingBackend
    else .ok R.processes
  else if !prefer.isNone then
    if !(prefer.equals "processes" || prefer.equals "threads" || prefer.isNone) then
      .error (.valueError ("Invalid 'prefer' parameter: " ++ prefer.str O))
    else if prefer.equals "processes" then .ok R.processes
    else if prefer.equals "threads" then .ok threadingBackend
    else .ok R.processes
  else (R.backends R.defaultBackend).get R.registered

/-- `_get_active_backend`. -/
def getActiveBackend (t : Thread ω) (prefer require verbose : Setting ω) :
    Except (Exc ε) (Setting ω × Config ω) := do
  let config := t.active
  let configured := (config .backend).getD (.value .none)
  let backend ←
    if configured.isNone then (hintedBackend O R prefer require).map (.value ∘ .backend) else .ok configured
  let _ ← verbose.positive O
  return (backend, config)

/-- A call of the dataclass `_Sentinel`: its one field has no default. -/
def Sentinel.create (defaultValue : Option (Value ω)) : Except (Exc ε) (Sentinel ω) :=
  match defaultValue with
  | some v => .ok (.other v)
  | none => .error (.typeError "_Sentinel.__init__() missing 1 required positional argument: 'default_value'")

/-- `param is not fresh`, where `fresh` was made just now. -/
def Setting.isNot (_ : Setting ω) (_ : Sentinel ω) : Bool := true

/-- `_get_config_param`. -/
def getConfigParam (param : Setting ω) (contextConfig : Option (Config ω)) (key : Key) :
    Except (Exc ε) (Setting ω) := do
  let fresh ← Sentinel.create none
  if param.isNot fresh then return param
  else
    match contextConfig with
    | some config => return (config key).getD (defaultSetting key)
    | none => return defaultSetting key

/-- `if n_jobs is None: n_jobs = default_parallel_config['n_jobs']`. -/
def Passed.unsetNone (args : Passed ω) : Passed ω
  | .nJobs => if (args .nJobs).isNone then defaultSetting .nJobs else args .nJobs
  | key => args key

/-- `n_jobs`, up to its conversion. -/
def resolveNJobs (args : Passed ω) (contextConfig : Config ω) (backend : BackendInstance) :
    Except (Exc ε) (Setting ω) := do
  let nJobs ← getConfigParam (args.unsetNone .nJobs) contextConfig .nJobs
  return if nJobs.isNone then .value (.int backend.defaultNJobs) else nJobs

/-- `Parallel.__init__` as far as `self.verbose`; `rest` is what follows, of which the six
`_backend_args` and `n_jobs` resolve their parameters in the same way. -/
def Parallel.init {β : Type} (rest : Setting ω → Config ω → Option Int → Setting ω → Except (Exc ε) β)
    (t : Thread ω) (args : Passed ω) : Except (Exc ε) β := do
  let args := args.unsetNone
  let (activeBackend, contextConfig) ← getActiveBackend O R t (args .prefer) (args .require) (args .verbose)
  let nestingLevel ← activeBackend.nestingLevel O
  let verbose ← getConfigParam (args .verbose) contextConfig .verbose
  rest activeBackend contextConfig nestingLevel verbose

end Source

/-! ### What is documented -/

section Documented
variable {ω ε : Type}

/-- The blocks are entered one in the other. -/
def enter (C : CheckBackend ω ε) : List (Manager ω) → Thread ω → Except (Exc ε) (Thread ω)
  | [], t => .ok t
  | m :: rest, t =>
    match m.construct C t with
    | (.ok _, t) => enter C rest t
    | (.error e, _) => .error e

/-- The value of the innermost block that set a parameter; the blocks outermost first. -/
def innermost (managers : List (Manager ω)) (key : Key) : Option (Value ω) :=
  managers.reverse.findSome? fun m => (m.args.newConfig m.args.backend key).given

/-- The argument if one is given, else the innermost block's value, else the default. -/
def expected (managers : List (Manager ω)) (args : Passed ω) (key : Key) : Value ω :=
  ((args.unsetNone key).given <|> innermost managers key).getD key.defaultValue

/-- `None` means the backend's own default. -/
def expectedNJobs (managers : List (Manager ω)) (args : Passed ω) (backend : BackendInstance) : Value ω :=
  match expected managers args .nJobs with
  | .none => .int backend.defaultNJobs
  | v => v

/-- The parameters resolved as documented, in the configuration of a thread in the blocks
`managers`. -/
structure Resolves (ε : Type) (managers : List (Manager ω)) (t : Thread ω) (args : Passed ω) : Prop where
  param : ∀ key ∈ [Key.verbose, .tempFolder, .maxNbytes, .mmapMode, .prefer, .require],
    (getConfigParam (args key) t.active key : Except (Exc ε) _) = .ok (.value (expected managers args key))
  nJobs : ∀ backend, (resolveNJobs args t.active backend : Except (Exc ε) _) =
    .ok (.value (expectedNJobs managers args backend))

end Documented

/-! ### What happens -/

section Raises
variable {ω ε : Type}

/-- `_get_config_param` raises, whatever it is passed. -/
theorem getConfigParam_raises (param : Setting ω) (contextConfig : Option (Config ω)) (key : Key) :
    (getConfigParam param contextConfig key : Except (Exc ε) _) =
      .error (.typeError "_Sentinel.__init__() missing 1 required positional argument: 'default_value'") :=
  rfl

/-- So no instance is ever made. -/
theorem init_raises {β : Type} (O : Objects ω ε) (R : Registry ε)
    (rest : Setting ω → Config ω → Option Int → Setting ω → Except (Exc ε) β) (t : Thread ω) (args : Passed ω) :
    ∃ e, Parallel.init O R rest t args = .error e := by
  show ∃ e, (getActiveBackend O R t (args.unsetNone .prefer) (args.unsetNone .require) (args.unsetNone .verbose) >>=
    fun active => active.1.nestingLevel O >>= fun level =>
      getConfigParam (args.unsetNone .verbose) active.2 .verbose >>= rest active.1 active.2 level) = .error e
  cases getActiveBackend O R t (args.unsetNone .prefer) (args.unsetNone .require) (args.unsetNone .verbose) with
  | error e => exact ⟨e, rfl⟩
  | ok active =>
    show ∃ e, (active.1.nestingLevel O >>= _) = .error e
    cases active.1.nestingLevel O with
    | error e => exact ⟨e, rfl⟩
    | ok level => exact ⟨_, rfl⟩

theorem not_resolves (managers : List (Manager ω)) (t : Thread ω) (args : Passed ω) :
    ¬ Resolves ε managers t args := by
  intro h
  have hverbose := h.param .verbose (by simp)
  rw [getConfigParam_raises] at hverbose
  cases hverbose

/-- **In no nesting of blocks and for no arguments are the parameters resolved as
documented: whatever `__init__` goes on to do, it raises first.** -/
theorem never_resolves (C : CheckBackend ω ε) (O : Objects ω ε) (R : Registry ε) {managers : List (Manager ω)}
    {t : Thread ω} (_ : enter C managers .new = .ok t) (args : Passed ω) :
    ¬ Resolves ε managers t args ∧
      ∀ (β : Type) (rest : Setting ω → Config ω → Option Int → Setting ω → Except (Exc ε) β),
        ∃ e, Parallel.init O R rest t args = .error e :=
  ⟨not_resolves managers t args, fun _ rest => init_raises O R rest t args⟩

end Raises

/-! Blocks that set `verbose` and `n_jobs`, as the tests nest them, and an explicit
`verbose` inside a block that sets a backend. -/

/-- No objects but Python's own. -/
def builtinObjects : Objects Empty Empty where
  typeName := Empty.elim
  str
    | .none => "None"
    | .int n => toString n
    | .str s => s
    | .backend b => "<" ++ b.className ++ " object>"
  repr
    | .none => "None"
    | .int n => toString n
    | .str s => "'" ++ s ++ "'"
    | .backend b => "<" ++ b.className ++ " object>"
  positive := Empty.elim
  nestingLevel := Empty.elim

/-- `BACKENDS` as imported. -/
def builtinBackends : Registry Empty where
  backends
    | "threading" => some (.ok threadingBackend)
    | "sequential" => some (.ok ⟨"SequentialBackend", none, true, 1⟩)
    | "multiprocessing" => some (.ok ⟨"MultiprocessingBackend", none, false, 1⟩)
    | "loky" => some (.ok lokyBackend)
    | _ => none
  defaultBackend := "loky"
  registered := rfl

def verboseBlock : Manager Empty := .parallelConfig {Arguments.none with verbose := .value (.int 100)}
def twoJobsBlock : Manager Empty := .parallelConfig {Arguments.none with nJobs := .value (.int 2)}
def threadsBlock : Manager Empty :=
  .parallelConfig {Arguments.none with backend := .value (.backend threadingBackend)}

theorem never_resolves_nested : ∃ t, enter (.lenient Empty Empty) [verboseBlock, twoJobsBlock] .new = .ok t ∧
    ¬ Resolves Empty [verboseBlock, twoJobsBlock] t defaultSetting ∧
      ∀ (β : Type) (rest : Setting Empty → Config Empty → Option Int → Setting Empty → Except (Exc Empty) β),
        ∃ e, Parallel.init builtinObjects builtinBackends rest t defaultSetting = .error e :=
  ⟨_, rfl, never_resolves (.lenient Empty Empty) _ _ rfl _⟩

/-- `Parallel(verbose=5)`. -/
def verboseFive : Passed Empty
  | .verbose => .value (.int 5)
  | key => defaultSetting key

theorem explicit_verbose_raises : ∃ t, enter (.lenient Empty Empty) [threadsBlock] .new = .ok t ∧
    expected [threadsBlock] verboseFive .verbose = .int 5 ∧ ¬ Resolves Empty [threadsBlock] t verboseFive ∧
      Parallel.init builtinObjects builtinBackends (fun _ _ _ verbose => .ok verbose) t verboseFive =
        .error (.typeError "_Sentinel.__init__() missing 1 required positional argument: 'default_value'") :=
  ⟨_, rfl, rfl, not_resolves _ _ _, rfl⟩

end Joblib
