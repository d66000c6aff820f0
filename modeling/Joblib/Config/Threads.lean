import Joblib.Lib.Runs
import Joblib.Config.Merge

/-! The configurations of several threads.

`_backend` is thread-local, the dictionaries are not: a thread that has set no configuration of its own
copies `default_parallel_config`, which all of them share, and any thread may be between any two accesses
of a constructor while another goes on. But a constructor updates no dictionary it has not made itself,
and nobody else has a reference to that one before it is installed (`Apart`). So each thread is configured as
if it had entered its blocks alone (`threads_apart`), a block it has left among them. -/
namespace Joblib

/-- Where a thread stands in a block's constructor: before the access it is named after. -/
inductive Constructing (ω : Type) where
  | idle
  | getattr (m : Manager ω)
  | checkBackend (m : Manager ω) (old : Nat)
  | copy (m : Manager ω) (old : Nat) (backend : Setting ω)
  | update (m : Manager ω) (ref : Nat) (backend : Setting ω)
  | setattr (m : Manager ω) (ref : Nat)

/-- The dictionary it has made and not installed. -/
def Constructing.making {ω : Type} : Constructing ω → Option Nat
  | .update _ ref _ | .setattr _ ref => some ref
  | _ => none

/-- The dictionaries made so far, the one each thread's `_backend.config` refers to, if it is set, and
where the threads stand. `entered` are the blocks each has constructed, as history. -/
structure Process (ω : Type) where
  dicts : List (Config ω)
  config : Nat → Option Nat
  constructing : Nat → Constructing ω
  entered : Nat → List (Manager ω)

namespace Process
variable {ω ε : Type}

inductive Action (ω : Type) where
  /-- A thread comes to the expression after `with`. -/
  | construct (t : Nat) (m : Manager ω)
  /-- Its next access. -/
  | turn (t : Nat)
  /-- It leaves a block. -/
  | leave (t : Nat) (self : ContextManager ω)

/-- No thread has set a configuration. -/
def new : Process ω := ⟨[defaultParallelConfig], fun _ => none, fun _ => .idle, fun _ => []⟩

/-- What a thread sees. -/
def view (s : Process ω) (t : Nat) : Thread ω := ⟨s.dicts, s.config t⟩

def goto (s : Process ω) (t : Nat) (pc : Constructing ω) : Process ω :=
  {s with constructing := Function.update s.constructing t pc}

/-- A thread's next access, in `parallel_config.__init__`. What `parallel_backend` does after it only reads
the two dictionaries. -/
def turn (C : CheckBackend ω ε) (s : Process ω) (t : Nat) : Option (Process ω) :=
  match s.constructing t with
  | .idle => none
  | .getattr m => some (s.goto t (.checkBackend m (s.view t).configRef))
  | .checkBackend m old =>
    match C.checkBackend m.args.backend m.args.innerMaxNumThreads m.args.backendParams with
    | .error _ => some (s.goto t .idle)
    | .ok backend => some (s.goto t (.copy m old backend))
  | .copy m old backend =>
    some ({s with dicts := s.dicts ++ [(s.view t).dict old]}.goto t (.update m s.dicts.length backend))
  | .update m ref backend =>
    some
      ({s with dicts := s.dicts.set ref (((s.view t).dict ref).update (m.args.given backend))}.goto t (.setattr m ref))
  | .setattr m ref =>
    some
      ({ s with
        config := Function.update s.config t (some ref)
        entered := Function.update s.entered t (s.entered t ++ [m]) }.goto t .idle)

def step (C : CheckBackend ω ε) (s : Process ω) : Action ω → Option (Process ω)
  | .construct t m =>
    match s.constructing t with
    | .idle => some (s.goto t (.getattr m))
    | _ => none
  | .turn t => s.turn C t
  | .leave t self =>
    match s.constructing t with
    | .idle =>
      let left : Thread ω := (self.exit (s.view t) : Except (Exc ε) Unit × Thread ω).2
      some {s with dicts := left.dicts, config := Function.update s.config t left.config}
    | _ => none

/-- The values of some blocks over the defaults, the innermost first. -/
def merged (managers : List (Manager ω)) : Config ω := fun key =>
  some (((innermost managers key).map Setting.value).getD (defaultSetting key))

theorem merged_append (managers : List (Manager ω)) (m : Manager ω) :
    merged (managers ++ [m]) = (merged managers).update (m.args.given m.args.backend) := by
  funext key
  rw [update_given]
  unfold merged innermost
  rw [List.reverse_append, List.reverse_singleton, List.singleton_append, List.findSome?_cons]
  cases (m.args.newConfig m.args.backend key).given <;> rfl

/-! ### Who refers to what -/

/-- What a thread in a constructor has to go by: the dictionary it has found is its own, and the one it makes
is a copy of that, updated or about to be. -/
def Stands (C : CheckBackend ω ε) (s : Process ω) (t : Nat) : Constructing ω → Prop
  | .checkBackend _ old => old = (s.view t).configRef
  | .copy m old backend => old = (s.view t).configRef ∧ backend = m.args.backend ∧ ¬ Refused C m
  | .update m ref backend =>
    s.dicts[ref]? = some (merged (s.entered t)) ∧ backend = m.args.backend ∧ ¬ Refused C m
  | .setattr m ref => s.dicts[ref]? = some (merged (s.entered t ++ [m])) ∧ ¬ Refused C m
  | _ => True

/-- A dictionary in the making is its maker's alone, and each thread's own holds what its blocks have set. -/
structure Apart (C : CheckBackend ω ε) (s : Process ω) : Prop where
  default : s.dicts[0]? = some defaultParallelConfig
  active : ∀ t, s.dicts[(s.view t).configRef]? = some (merged (s.entered t))
  accepted : ∀ t, ∀ m ∈ s.entered t, ¬ Refused C m
  stands : ∀ t, Stands C s t (s.constructing t)
  alone : ∀ t ref, (s.constructing t).making = some ref →
    ref ≠ 0 ∧ (∀ u, s.config u ≠ some ref) ∧ ∀ u, (s.constructing u).making = some ref → u = t

theorem new_apart (C : CheckBackend ω ε) : Apart C (new : Process ω) :=
  ⟨rfl, fun _ => rfl, fun _ _ h => (by cases h), fun _ => trivial, fun _ _ h => by cases h⟩

theorem goto_self (s : Process ω) (t : Nat) (pc : Constructing ω) : (s.goto t pc).constructing t = pc :=
  Function.update_self ..

theorem goto_other {t u : Nat} (h : u ≠ t) (s : Process ω) (pc : Constructing ω) :
    (s.goto t pc).constructing u = s.constructing u :=
  Function.update_of_ne h ..

/-- What holds of the mover where it goes, and of the others where they are, holds of all. -/
theorem goto_forall {P : Nat → Constructing ω → Prop} {s : Process ω} {t : Nat} {pc : Constructing ω} (hself : P t pc)
    (hother : ∀ u, u ≠ t → P u (s.constructing u)) (u : Nat) : P u ((s.goto t pc).constructing u) := by
  by_cases hut : u = t
  · subst hut
    rw [goto_self]
    exact hself
  · rw [goto_other hut]
    exact hother u hut

/-- A dictionary in the making has one maker, if the mover's is no other's and the others' are not the mover's. -/
theorem sole_goto {s : Process ω} {t : Nat} {pc : Constructing ω}
    (hself : ∀ ref, pc.making = some ref →
      ref ≠ 0 ∧ (∀ v, s.config v ≠ some ref) ∧ ∀ v, v ≠ t → (s.constructing v).making ≠ some ref)
    (hother : ∀ u, u ≠ t → ∀ ref, (s.constructing u).making = some ref →
      ref ≠ 0 ∧ (∀ v, s.config v ≠ some ref) ∧ pc.making ≠ some ref ∧
        ∀ v, v ≠ t → (s.constructing v).making = some ref → v = u) (u ref : Nat)
    (hu : ((s.goto t pc).constructing u).making = some ref) :
    ref ≠ 0 ∧ (∀ v, s.config v ≠ some ref) ∧ ∀ v, ((s.goto t pc).constructing v).making = some ref → v = u := by
  by_cases hut : u = t
  · subst hut
    rw [goto_self] at hu
    obtain ⟨hzero, hconfig, hsole⟩ := hself ref hu
    refine ⟨hzero, hconfig, goto_forall (P := fun v pc => pc.making = some ref → v = u) (fun _ => rfl) ?_⟩
    exact fun v hvu hv => absurd hv (hsole v hvu)
  · rw [goto_other hut] at hu
    obtain ⟨hzero, hconfig, hmover, hsole⟩ := hother u hut ref hu
    refine ⟨hzero, hconfig, goto_forall (P := fun v pc => pc.making = some ref → v = u) ?_ hsole⟩
    exact fun ht => absurd ht hmover

section Steps
variable {C : CheckBackend ω ε} {s : Process ω} {t : Nat}

/-- A dictionary in the making is in no thread's configuration. -/
theorem Apart.ne_configRef (h : Apart C s) {ref : Nat} (hmaking : (s.constructing t).making = some ref) (u : Nat) :
    (s.view u).configRef ≠ ref := by
  obtain ⟨hzero, hconfig, _⟩ := h.alone t ref hmaking
  have hnot := hconfig u
  simp only [view, Thread.configRef]
  cases hu : s.config u with
  | none => exact hzero.symm
  | some ref' =>
    rintro rfl
    exact hnot hu

/-- A thread that makes nothing, or goes on with what it has been making. -/
theorem Apart.alone_goto (h : Apart C s) {pc : Constructing ω}
    (hpc : ∀ ref, pc.making = some ref → (s.constructing t).making = some ref) (u ref : Nat)
    (hu : ((s.goto t pc).constructing u).making = some ref) :
    ref ≠ 0 ∧ (∀ v, s.config v ≠ some ref) ∧ ∀ v, ((s.goto t pc).constructing v).making = some ref → v = u := by
  have hold : ∀ v, ((s.goto t pc).constructing v).making = some ref → (s.constructing v).making = some ref := by
    intro v hv
    by_cases hvt : v = t
    · subst hvt
      rw [goto_self] at hv
      exact hpc ref hv
    · rwa [goto_other hvt] at hv
  obtain ⟨hzero, hconfig, hsole⟩ := h.alone u ref (hold u hu)
  exact ⟨hzero, hconfig, fun v hv => hsole v (hold v hv)⟩

/-- A thread that only moves. -/
theorem Apart.goto (h : Apart C s) {pc : Constructing ω} (hstands : Stands C s t pc)
    (hpc : ∀ ref, pc.making = some ref → (s.constructing t).making = some ref) : Apart C (s.goto t pc) := by
  have hall := goto_forall (P := Stands C (s.goto t pc)) hstands fun u _ => h.stands u
  exact ⟨h.default, h.active, h.accepted, hall, h.alone_goto hpc⟩

theorem Stands.making {pc : Constructing ω} (h : Stands C s t pc) {ref : Nat} (hmaking : pc.making = some ref) :
    ref < s.dicts.length := by
  cases pc with
  | update m ref' backend =>
    obtain rfl : ref' = ref := by simpa [Constructing.making] using hmaking
    exact (List.getElem?_eq_some_iff.mp h.1).1
  | setattr m ref' =>
    obtain rfl : ref' = ref := by simpa [Constructing.making] using hmaking
    exact (List.getElem?_eq_some_iff.mp h.1).1
  | _ => cases hmaking

/-- Another thread stands where it stood if what it makes is as it was. -/
theorem Stands.keeps {s' : Process ω} {pc : Constructing ω} (h : Stands C s t pc)
    (hdicts : ∀ ref, pc.making = some ref → s'.dicts[ref]? = s.dicts[ref]?) (hconfig : s'.config t = s.config t)
    (hentered : s'.entered t = s.entered t) : Stands C s' t pc := by
  have hview : (s'.view t).configRef = (s.view t).configRef := by simp only [view, Thread.configRef, hconfig]
  cases pc with
  | idle | getattr => trivial
  | checkBackend m old =>
    show old = (s'.view t).configRef
    exact hview ▸ h
  | copy m old backend =>
    refine ⟨?_, h.2⟩
    exact hview ▸ h.1
  | update m ref backend =>
    refine ⟨?_, h.2⟩
    rw [hdicts ref rfl, hentered]
    exact h.1
  | setattr m ref =>
    refine ⟨?_, h.2⟩
    rw [hdicts ref rfl, hentered]
    exact h.1

/-- A copy is a dictionary more. -/
theorem Apart.copy (h : Apart C s) {m : Manager ω} {old : Nat} {backend : Setting ω}
    (hpc : s.constructing t = .copy m old backend) :
    Apart C ({s with dicts := s.dicts ++ [(s.view t).dict old]}.goto t (.update m s.dicts.length backend)) := by
  have hstands := h.stands t
  rw [hpc] at hstands
  obtain ⟨rfl, hbackend, haccepted⟩ := hstands
  have hfound : (s.view t).dict (s.view t).configRef = merged (s.entered t) := by
    show s.dicts.getD (s.view t).configRef _ = _
    rw [List.getD_eq_getElem?_getD, h.active t]
    rfl
  have hold : ∀ {ref : Nat} {config : Config ω}, s.dicts[ref]? = some config →
      (s.dicts ++ [(s.view t).dict (s.view t).configRef])[ref]? = some config := by
    intro ref config href
    rw [List.getElem?_append_left (List.getElem?_eq_some_iff.mp href).1, href]
  have hmaking : ∀ {u ref : Nat}, (s.constructing u).making = some ref → ref < s.dicts.length :=
    fun hu => (h.stands _).making hu
  refine ⟨hold h.default, fun u => hold (h.active u), h.accepted, ?_, sole_goto ?_ ?_⟩
  · refine goto_forall (P := Stands C _) ⟨?_, hbackend, haccepted⟩ fun u _ =>
      (h.stands u).keeps (fun ref hu => List.getElem?_append_left (hmaking hu)) rfl rfl
    show (s.dicts ++ [_])[s.dicts.length]? = _
    rw [List.getElem?_concat_length, hfound]
    rfl
  · intro ref href
    obtain rfl : s.dicts.length = ref := by simpa [Constructing.making] using href
    refine ⟨?_, fun v hv => ?_, fun v _ hv => absurd (hmaking hv) (Nat.lt_irrefl _)⟩
    · have hzero := (List.getElem?_eq_some_iff.mp h.default).1
      omega
    · have hactive := h.active v
      have hv : s.config v = some s.dicts.length := hv
      simp only [view, Thread.configRef, hv, Option.getD_some] at hactive
      exact absurd (List.getElem?_eq_some_iff.mp hactive).1 (Nat.lt_irrefl _)
  · intro u _ ref hu
    obtain ⟨hzero, hconfig, hsole⟩ := h.alone u ref hu
    refine ⟨hzero, hconfig, ?_, fun v _ => hsole v⟩
    rintro ⟨⟩
    exact absurd (hmaking hu) (Nat.lt_irrefl _)

/-- An update is of the thread's own. -/
theorem Apart.update (h : Apart C s) {m : Manager ω} {ref : Nat} {backend : Setting ω}
    (hpc : s.constructing t = .update m ref backend) :
    Apart C
      ({s with dicts := s.dicts.set ref (((s.view t).dict ref).update (m.args.given backend))}.goto t
        (.setattr m ref)) := by
  have hmaking : (s.constructing t).making = some ref := by rw [hpc]; rfl
  obtain ⟨hzero, _, hsole⟩ := h.alone t ref hmaking
  have hstands := h.stands t
  rw [hpc] at hstands
  obtain ⟨hcopied, rfl, haccepted⟩ := hstands
  have hfound : (s.view t).dict ref = merged (s.entered t) := by
    show s.dicts.getD ref _ = _
    rw [List.getD_eq_getElem?_getD, hcopied]
    rfl
  refine ⟨?_, fun u => ?_, h.accepted, ?_, h.alone_goto fun ref' hupdated => hmaking.trans hupdated⟩
  · exact (List.getElem?_set_ne hzero).trans h.default
  · exact (List.getElem?_set_ne (h.ne_configRef hmaking u).symm).trans (h.active u)
  · refine goto_forall (P := Stands C _) ⟨?_, haccepted⟩ fun u hut => (h.stands u).keeps ?_ rfl rfl
    · show (s.dicts.set ref _)[ref]? = _
      rw [List.getElem?_set_self (List.getElem?_eq_some_iff.mp hcopied).1, hfound, merged_append]
      rfl
    · exact fun ref' hu => List.getElem?_set_ne fun heq : ref = ref' => hut (hsole u (heq ▸ hu))

/-- What is installed is set by the thread's blocks and the new one. -/
theorem Apart.setattr (h : Apart C s) {m : Manager ω} {ref : Nat} (hpc : s.constructing t = .setattr m ref) :
    Apart C
      ({ s with
        config := Function.update s.config t (some ref)
        entered := Function.update s.entered t (s.entered t ++ [m]) }.goto t .idle) := by
  have hmaking : (s.constructing t).making = some ref := by rw [hpc]; rfl
  obtain ⟨_, _, hsole⟩ := h.alone t ref hmaking
  have hstands := h.stands t
  rw [hpc] at hstands
  obtain ⟨hmade, haccepted⟩ := hstands
  refine ⟨h.default, fun u => ?_, fun u m' hm' => ?_, ?_, sole_goto (fun _ hidle => by cases hidle) ?_⟩
  · by_cases hut : u = t
    · subst hut
      show s.dicts[(Function.update s.config u (some ref) u).getD 0]? = some (merged (Function.update s.entered u _ u))
      rw [Function.update_self, Function.update_self]
      exact hmade
    · show s.dicts[(Function.update s.config t (some ref) u).getD 0]? = some (merged (Function.update s.entered t _ u))
      rw [Function.update_of_ne hut, Function.update_of_ne hut]
      exact h.active u
  · by_cases hut : u = t
    · subst hut
      have hm' : m' ∈ Function.update s.entered u (s.entered u ++ [m]) u := hm'
      rw [Function.update_self] at hm'
      rcases List.mem_append.mp hm' with hold | hnew
      · exact h.accepted u m' hold
      · obtain rfl := List.mem_singleton.mp hnew
        exact haccepted
    · have hm' : m' ∈ Function.update s.entered t (s.entered t ++ [m]) u := hm'
      rw [Function.update_of_ne hut] at hm'
      exact h.accepted u m' hm'
  · exact goto_forall (P := Stands C _) trivial fun u hut =>
      (h.stands u).keeps (fun _ _ => rfl) (Function.update_of_ne hut ..) (Function.update_of_ne hut ..)
  · intro u hut ref' hu
    obtain ⟨hzero, hconfig, hsole'⟩ := h.alone u ref' hu
    refine ⟨hzero, fun v => ?_, fun hidle => (by cases hidle), fun v _ => hsole' v⟩
    show Function.update s.config t (some ref) v ≠ some ref'
    by_cases hvt : v = t
    · subst hvt
      rw [Function.update_self]
      rintro ⟨⟩
      exact hut (hsole u hu)
    · rw [Function.update_of_ne hvt]
      exact hconfig v

/-- Step: the threads stay apart. -/
theorem Apart.step {s' : Process ω} {action : Action ω} (h : Apart C s) (hs : Process.step C s action = some s') :
    Apart C s' := by
  cases action with
  | construct t m =>
    simp only [Process.step] at hs
    split at hs
    · cases hs
      exact h.goto trivial fun ref hmaking => by cases hmaking
    · cases hs
  | turn t =>
    simp only [Process.step, turn] at hs
    have hstands := h.stands t
    cases hpc : s.constructing t with
    | idle => simp [hpc] at hs
    | getattr m =>
      simp only [hpc] at hs
      cases hs
      exact h.goto rfl fun ref hmaking => by cases hmaking
    | checkBackend m old =>
      rw [hpc] at hstands
      simp only [hpc] at hs
      rcases C.given m.args.backend m.args.innerMaxNumThreads m.args.backendParams with hok | ⟨message, herror⟩
      · rw [hok] at hs
        cases hs
        refine h.goto ⟨hstands, rfl, ?_⟩ fun ref hmaking => by cases hmaking
        rintro ⟨e, herror⟩
        rw [hok] at herror
        cases herror
      · rw [herror] at hs
        cases hs
        exact h.goto trivial fun ref hmaking => by cases hmaking
    | copy m old backend =>
      simp only [hpc] at hs
      cases hs
      exact h.copy hpc
    | update m ref backend =>
      simp only [hpc] at hs
      cases hs
      exact h.update hpc
    | setattr m ref =>
      simp only [hpc] at hs
      cases hs
      exact h.setattr hpc
  | leave t self =>
    simp only [Process.step] at hs
    split at hs
    · cases hs
      -- `__exit__` raises, and writes nothing
      have hsame : Function.update s.config t (s.config t) = s.config := Function.update_eq_self t s.config
      show Apart C {s with config := Function.update s.config t (s.config t)}
      rw [hsame]
      exact h
    · cases hs

end Steps

variable (C : CheckBackend ω ε)

/-- **Each thread is configured by its own blocks and by nothing else.** Whatever the threads do and in whatever
order, a thread's configuration is the one it would have had if it had entered the blocks it has constructed by
itself, one in the other, and had never left one; and `default_parallel_config` is as it was. -/
theorem threads_apart {actions : List (Action ω)} {s : Process ω} (h : Runs.run (step C) new actions = some s) :
    s.dicts[0]? = some defaultParallelConfig ∧ ∀ t, ∃ alone, enter C (s.entered t) .new = .ok alone ∧
      (s.view t).active = alone.active := by
  have hapart : Apart C s := Runs.guarded_run (G := fun _ _ _ => True) (fun _ _ _ h hs _ => h.step hs) (new_apart C)
    (.of_forall_mem (fun _ _ _ _ => trivial) _) h
  refine ⟨hapart.default, fun t => ?_⟩
  obtain ⟨alone, henter, _, _, _, hactive⟩ := enter_merges Thread.new_full Thread.new_sound (hapart.accepted t)
  refine ⟨alone, henter, ?_⟩
  funext key
  rw [hactive key]
  have hmerged : (s.view t).active = merged (s.entered t) := by
    show s.dicts.getD (s.view t).configRef _ = _
    rw [List.getD_eq_getElem?_getD, hapart.active t]
    rfl
  rw [hmerged]
  unfold merged
  cases innermost (s.entered t) key <;> rfl

/-- Two threads enter a block each, access by access, and the first leaves its own. -/
def interleaved : List (Action Empty) :=
  [.construct 0 verboseBlock, .construct 1 twoJobsBlock] ++ (List.replicate 5 [.turn 0, .turn 1]).flatten ++
    [.leave 0 (.parallelConfig ⟨0, 1⟩)]

theorem threads_apart_interleaved : ∃ s, Runs.run (step (.lenient Empty Empty)) new interleaved = some s ∧
    (s.view 0).active .verbose = some (.value (.int 100)) ∧ (s.view 0).active .nJobs = some (defaultSetting .nJobs) ∧
      ∃ alone, enter (.lenient Empty Empty) [twoJobsBlock] .new = .ok alone ∧ (s.view 1).active = alone.active := by
  obtain ⟨s, hrun, hverbose, hnJobs, hentered⟩ : ∃ s, Runs.run (step (.lenient Empty Empty)) new interleaved = some s ∧
      (s.view 0).active .verbose = some (.value (.int 100)) ∧ (s.view 0).active .nJobs = some (defaultSetting .nJobs) ∧
        s.entered 1 = [twoJobsBlock] := ⟨_, rfl, rfl, rfl, rfl⟩
  refine ⟨s, hrun, hverbose, hnJobs, ?_⟩
  rw [← hentered]
  exact (threads_apart (.lenient Empty Empty) hrun).2 1

end Process

end Joblib
