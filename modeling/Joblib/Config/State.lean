import Joblib.Runtime.Python
import Joblib.Lib.With

/-! The configuration of a thread and the blocks that set it.

A configuration is a dictionary from the eight parameters to what was passed for them, a
value or a marker for "not set". Dictionaries are objects: a block copies the one it finds
and updates its copy, so a thread holds a store of them, `default_parallel_config` the
first, and refers to one by its place. -/
namespace Joblib

/-- The keys of `default_parallel_config`. -/
inductive Key where
  | backend
  | nJobs
  | verbose
  | tempFolder
  | maxNbytes
  | mmapMode
  | prefer
  | require
deriving DecidableEq, Repr

/-- The keys as strings. -/
def Key.text : Key → String
  | .backend => "backend"
  | .nJobs => "n_jobs"
  | .verbose => "verbose"
  | .tempFolder => "temp_folder"
  | .maxNbytes => "max_nbytes"
  | .mmapMode => "mmap_mode"
  | .prefer => "prefer"
  | .require => "require"

/-- What a `ParallelBackendBase` says about itself. -/
structure BackendInstance where
  className : String
  nestingLevel : Option Int
  supportsSharedmem : Bool
  defaultNJobs : Int
deriving DecidableEq

/-- A parameter's value; `ω` are the objects of no kind the code tells apart. -/
inductive Value (ω : Type) where
  | none
  | int (n : Int)
  | str (s : String)
  | backend (b : BackendInstance)
  | object (o : ω)
deriving DecidableEq

/-- The `default_value` of the entry of `default_parallel_config`. -/
def Key.defaultValue {ω : Type} : Key → Value ω
  | .backend => .none
  | .nJobs => .none
  | .verbose => .int 0
  | .tempFolder => .none
  | .maxNbytes => .str "1M"
  | .mmapMode => .str "r"
  | .prefer => .none
  | .require => .none

/-- `_Sentinel`. The code tells the entries of `default_parallel_config` from one another
and from any other by identity. -/
inductive Sentinel (ω : Type) where
  | entry (key : Key)
  | other (defaultValue : Value ω)
deriving DecidableEq

def Sentinel.defaultValue {ω : Type} : Sentinel ω → Value ω
  | .entry key => key.defaultValue
  | .other v => v

/-- What is passed for a parameter, or stands in a configuration. -/
inductive Setting (ω : Type) where
  | sentinel (s : Sentinel ω)
  | value (v : Value ω)
deriving DecidableEq

/-- `isinstance(v, _Sentinel)`. -/
def Setting.isSentinel {ω : Type} : Setting ω → Bool
  | .sentinel _ => true
  | .value _ => false

/-- A dictionary from parameters to settings. -/
abbrev Config (ω : Type) := Key → Option (Setting ω)

/-- `default_parallel_config[key]`. -/
def defaultSetting {ω : Type} (key : Key) : Setting ω := .sentinel (.entry key)

def defaultParallelConfig {ω : Type} : Config ω := fun key => some (defaultSetting key)

/-- `config.update(new)`. -/
def Config.update {ω : Type} (config new : Config ω) : Config ω := fun key => new key <|> config key

/-- The dictionaries made so far, and the one `_backend.config` refers to, if it is set. -/
structure Thread (ω : Type) where
  dicts : List (Config ω)
  config : Option Nat

namespace Thread
variable {ω : Type}

def new : Thread ω := ⟨[defaultParallelConfig], none⟩

/-- `getattr(_backend, 'config', default_parallel_config)`. -/
def configRef (t : Thread ω) : Nat := t.config.getD 0

def dict (t : Thread ω) (ref : Nat) : Config ω := t.dicts.getD ref defaultParallelConfig

/-- The configuration in force. -/
def active (t : Thread ω) : Config ω := t.dict t.configRef

/-- `self.parallel_config = old.copy()`, then `.update(new)`, and its installation. -/
def install (t : Thread ω) (old : Nat) (new : Config ω) : Thread ω where
  dicts := t.dicts ++ [(t.dict old).update new]
  config := some t.dicts.length

end Thread

/-- The arguments of the two constructors. `parallel_backend` has the first two and
`inner_max_num_threads`, and passes all others on. -/
structure Arguments (ω : Type) where
  backend : Setting ω
  nJobs : Setting ω
  verbose : Setting ω
  tempFolder : Setting ω
  maxNbytes : Setting ω
  mmapMode : Setting ω
  prefer : Setting ω
  require : Setting ω
  innerMaxNumThreads : Value ω
  backendParams : List (String × Value ω)

namespace Arguments
variable {ω : Type}

/-- No argument given. -/
def none : Arguments ω where
  backend := defaultSetting .backend
  nJobs := defaultSetting .nJobs
  verbose := defaultSetting .verbose
  tempFolder := defaultSetting .tempFolder
  maxNbytes := defaultSetting .maxNbytes
  mmapMode := defaultSetting .mmapMode
  prefer := defaultSetting .prefer
  require := defaultSetting .require
  innerMaxNumThreads := .none
  backendParams := []

/-- `new_config`. -/
def newConfig (args : Arguments ω) (backend : Setting ω) : Key → Setting ω
  | .backend => backend
  | .nJobs => args.nJobs
  | .verbose => args.verbose
  | .tempFolder => args.tempFolder
  | .maxNbytes => args.maxNbytes
  | .mmapMode => args.mmapMode
  | .prefer => args.prefer
  | .require => args.require

/-- `{k: v for k, v in new_config.items() if not isinstance(v, _Sentinel)}`. -/
def given (args : Arguments ω) (backend : Setting ω) : Config ω := fun key =>
  if (args.newConfig backend key).isSentinel then Option.none else some (args.newConfig backend key)

end Arguments

/-- `_check_backend`, which has no body: it returns the backend it is given or raises
`ValueError`. -/
structure CheckBackend (ω ε : Type) where
  checkBackend : Setting ω → Value ω → List (String × Value ω) → Except (Exc ε) (Setting ω)
  given : ∀ backend threads params, checkBackend backend threads params = .ok backend ∨
    ∃ message, checkBackend backend threads params = .error (.valueError message)

/-- The one that accepts everything. -/
def CheckBackend.lenient (ω ε : Type) : CheckBackend ω ε where
  checkBackend backend _ _ := .ok backend
  given _ _ _ := .inl rfl

/-- A `parallel_config` object: the dictionary it found and its own. -/
structure ParallelConfig where
  oldParallelConfig : Nat
  parallelConfig : Nat
deriving DecidableEq

structure ParallelBackend (ω : Type) extends ParallelConfig where
  oldBackendAndJobs : Setting ω × Setting ω
  newBackendAndJobs : Setting ω × Setting ω

/-- The expression after `with`. -/
inductive Manager (ω : Type) where
  | parallelConfig (args : Arguments ω)
  | parallelBackend (args : Arguments ω)

def Manager.args {ω : Type} : Manager ω → Arguments ω
  | .parallelConfig args => args
  | .parallelBackend args => args

inductive ContextManager (ω : Type) where
  | parallelConfig (self : ParallelConfig)
  | parallelBackend (self : ParallelBackend ω)

section Protocol
variable {ω ε : Type} (C : CheckBackend ω ε)

/-- `parallel_config.__init__`. -/
def ParallelConfig.init (args : Arguments ω) (t : Thread ω) : Except (Exc ε) ParallelConfig × Thread ω :=
  let old := t.configRef
  match C.checkBackend args.backend args.innerMaxNumThreads args.backendParams with
  | .error e => (.error e, t)
  | .ok backend => (.ok ⟨old, t.dicts.length⟩, t.install old (args.given backend))

/-- `(config['backend'], config['n_jobs'])`. -/
def Config.backendAndJobs (config : Config ω) : Except (Exc ε) (Setting ω × Setting ω) :=
  match config .backend, config .nJobs with
  | some backend, some nJobs => .ok (backend, nJobs)
  | none, _ => .error (.keyError Key.backend.text)
  | some _, none => .error (.keyError Key.nJobs.text)

/-- `parallel_backend.__init__`. The dictionary found is never `None`. -/
def ParallelBackend.init (args : Arguments ω) (t : Thread ω) : Except (Exc ε) (ParallelBackend ω) × Thread ω :=
  match ParallelConfig.init C args t with
  | (.error e, t) => (.error e, t)
  | (.ok self, t) =>
    match (t.dict self.oldParallelConfig).backendAndJobs, (t.dict self.parallelConfig).backendAndJobs with
    | .ok old, .ok new => (.ok ⟨self, old, new⟩, t)
    | .error e, _ => (.error e, t)
    | .ok _, .error e => (.error e, t)

/-- The constructor; `__enter__` only reads what it set. -/
def Manager.construct (m : Manager ω) (t : Thread ω) : Except (Exc ε) (ContextManager ω) × Thread ω :=
  match m with
  | .parallelConfig args =>
    match ParallelConfig.init C args t with
    | (.error e, t) => (.error e, t)
    | (.ok self, t) => (.ok (.parallelConfig self), t)
  | .parallelBackend args =>
    match ParallelBackend.init C args t with
    | (.error e, t) => (.error e, t)
    | (.ok self, t) => (.ok (.parallelBackend self), t)

/-- `self.unregister()`: neither class defines it. -/
def ContextManager.unregister (self : ContextManager ω) (t : Thread ω) : Except (Exc ε) Unit × Thread ω :=
  let className :=
    match self with
    | .parallelConfig _ => "parallel_config"
    | .parallelBackend _ => "parallel_backend"
  (.error (.attributeError ("'" ++ className ++ "' object has no attribute 'unregister'")), t)

/-- `__exit__`. -/
def ContextManager.exit (self : ContextManager ω) (t : Thread ω) : Except (Exc ε) Unit × Thread ω :=
  self.unregister t

/-- The blocks as managers of the thread's state. -/
def blocks : With.Protocol (Thread ω) (Manager ω) (ContextManager ω) (Exc ε) where
  construct := Manager.construct C
  leave := ContextManager.exit

end Protocol

/-! ### Construction -/

/-- Every parameter has an entry. -/
def Config.Full {ω : Type} (config : Config ω) : Prop := ∀ key, (config key).isSome

/-- Every dictionary of a thread has all eight keys. -/
def Thread.Full {ω : Type} (t : Thread ω) : Prop := ∀ config ∈ t.dicts, config.Full

section Facts
variable {ω ε : Type}

theorem defaultParallelConfig_full : (defaultParallelConfig : Config ω).Full := fun _ => rfl

theorem Config.Full.update {config : Config ω} (h : config.Full) (new : Config ω) : (config.update new).Full := by
  intro key
  have hkey := h key
  unfold Config.update
  cases new key <;> simp [hkey]

theorem Thread.Full.dict {t : Thread ω} (h : t.Full) (ref : Nat) : (t.dict ref).Full := by
  unfold Thread.dict
  cases href : t.dicts[ref]? with
  | none =>
    rw [List.getD_eq_getElem?_getD, href]
    exact defaultParallelConfig_full
  | some config =>
    rw [List.getD_eq_getElem?_getD, href]
    exact h config (List.mem_of_getElem? href)

theorem Thread.new_full : (Thread.new : Thread ω).Full := by
  intro config hmem
  obtain rfl := List.mem_singleton.mp hmem
  exact defaultParallelConfig_full

theorem Thread.Full.install {t : Thread ω} (h : t.Full) (old : Nat) (new : Config ω) : (t.install old new).Full := by
  intro config hmem
  rcases List.mem_append.mp hmem with hold | hnew
  · exact h config hold
  · obtain rfl := List.mem_singleton.mp hnew
    exact (h.dict old).update new

theorem Config.Full.backendAndJobs {config : Config ω} (h : config.Full) :
    ∃ pair, (config.backendAndJobs : Except (Exc ε) _) = .ok pair := by
  obtain ⟨backend, hbackend⟩ := Option.isSome_iff_exists.mp (h .backend)
  obtain ⟨nJobs, hnJobs⟩ := Option.isSome_iff_exists.mp (h .nJobs)
  exact ⟨(backend, nJobs), by simp [Config.backendAndJobs, hbackend, hnJobs]⟩

/-- What a construction does: refused by `_check_backend` it changes nothing; otherwise it
installs a copy of what it found, updated by what was given. -/
theorem construct_cases (C : CheckBackend ω ε) (m : Manager ω) {t : Thread ω} (h : t.Full) :
    (∃ e, C.checkBackend m.args.backend m.args.innerMaxNumThreads m.args.backendParams = .error e ∧
        m.construct C t = (.error e, t)) ∨
      C.checkBackend m.args.backend m.args.innerMaxNumThreads m.args.backendParams = .ok m.args.backend ∧
        ∃ self, m.construct C t =
          (.ok self, t.install t.configRef (m.args.given m.args.backend)) := by
  rcases C.given m.args.backend m.args.innerMaxNumThreads m.args.backendParams with hok | ⟨message, herror⟩
  · right
    refine ⟨hok, ?_⟩
    cases m with
    | parallelConfig args =>
      change C.checkBackend args.backend args.innerMaxNumThreads args.backendParams = .ok args.backend at hok
      exact ⟨_, by simp only [Manager.construct, ParallelConfig.init, hok]; rfl⟩
    | parallelBackend args =>
      change C.checkBackend args.backend args.innerMaxNumThreads args.backendParams = .ok args.backend at hok
      have hfull := h.install t.configRef (args.given args.backend)
      obtain ⟨old, hold⟩ := (hfull.dict t.configRef).backendAndJobs (ε := ε)
      obtain ⟨new, hnew⟩ := (hfull.dict t.dicts.length).backendAndJobs (ε := ε)
      exact ⟨_, by simp only [Manager.construct, ParallelBackend.init, ParallelConfig.init, hok, hold, hnew]; rfl⟩
  · left
    refine ⟨_, herror, ?_⟩
    cases m with
    | parallelConfig args =>
      change C.checkBackend args.backend args.innerMaxNumThreads args.backendParams = _ at herror
      simp only [Manager.construct, ParallelConfig.init, herror]
    | parallelBackend args =>
      change C.checkBackend args.backend args.innerMaxNumThreads args.backendParams = _ at herror
      simp only [Manager.construct, ParallelBackend.init, ParallelConfig.init, herror]

/-- Construction and leaving keep every key in place. -/
theorem blocks_full (C : CheckBackend ω ε) : With.Invariant (blocks C) Thread.Full where
  construct m t h := by
    rcases construct_cases C m h with ⟨e, _, hrun⟩ | ⟨_, self, hrun⟩
    · show (m.construct C t).2.Full
      rw [hrun]
      exact h
    · show (m.construct C t).2.Full
      rw [hrun]
      exact h.install _ _
  leave _ _ h := h

end Facts

end Joblib
