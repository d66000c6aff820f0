import Joblib.Parallel.Reentry

/-! How many workers a call goes by.

`_initialize_backend` resolves `n_jobs`, asks the backend to configure itself for as many
workers and returns the number it asked for, whatever the backend answered; inside `with`
the number comes from `_effective_n_jobs`, which the class does not define. The number
decides the path of a call (`prepare_eq_follow`). So the path is the one the backend grants
exactly if the number asked for, or inside `with` the one found, is the number granted, and
the attributes of the concurrent path exist where it is taken (`usesGranted_iff`).

`n_jobs == 0` is refused by `_initialize_backend` only. `__enter__` has made the instance a
managed one by then, so its next call does not come there again (`entered_zero`). -/
namespace Joblib

/-- What a call does once it has a number of workers. -/
inductive Path where
  | sequential
  | noWorker
  | concurrent (workers : Int)
deriving DecidableEq

/-- The path for a number of workers. -/
def Path.of (workers : Int) : Path :=
  if workers = 1 then .sequential else if workers = 0 then .noWorker else .concurrent workers

/-- The number of workers on a path. -/
def Path.workers : Path → Int
  | .sequential => 1
  | .noWorker => 0
  | .concurrent workers => workers

@[simp] theorem Path.workers_of (w : Int) : (Path.of w).workers = w := by
  unfold Path.of
  by_cases h1 : w = 1
  · simp [h1, workers]
  · by_cases h0 : w = 0 <;> simp [h1, h0, workers]

theorem Path.of_inj {v w : Int} (h : Path.of v = Path.of w) : v = w := by
  simpa using congrArg Path.workers h

namespace Parallel
variable {α ε : Type} (host : Host α ε) (p : Parallel α ε)

/-- `n_jobs == 0`. -/
def noMeaning {ε : Type} : Exc ε := .valueError "n_jobs == 0 in Parallel has no meaning"

/-- The path a call takes, decided before it looks at its tasks. -/
def takenPath : Except (Exc ε) Path :=
  match (p.resetRunTracking.workers host).1 with
  | .error e => .error e
  | .ok n =>
    if n = 1 then .ok .sequential
    else if !p.hasLock then .error (.attributeError "'Parallel' object has no attribute '_lock'")
    else .ok (.of n)

/-- The rest of `__call__` up to `next(output)` on each path. -/
def follow (iterable : Iterable (Item α ε) ε) : Path → Except (Exc ε) (Frame α ε) × Parallel α ε
  | .sequential => (.ok (.sequential iterable), p)
  | .noWorker =>
    (.error (.runtimeError (p.backend.name ++ " has no active worker.")), {p.renewCallId with cachedEffectiveNJobs := 0})
  | .concurrent n => openOutputs host n iterable {p.renewCallId with cachedEffectiveNJobs := n, calling := true}

/-- What `configure` returns when asked for the resolved `n_jobs`. -/
def granted : Except (Exc ε) Int := resolveNJobs host.cpuCount p.nJobs >>= host.configure

/-- The number a call goes by, if the backend can be configured. -/
def counted : Except (Exc ε) Int :=
  if p.managedBackend then host.effectiveNJobs p.resetRunTracking else resolveNJobs host.cpuCount p.nJobs

/-- Whether `__enter__` raises. -/
def entering : Except (Exc ε) Unit :=
  ({p with managedBackend := true, calling := false}.initializeBackend host).1.map fun _ => ()

/-- The worker count of a call is the one the backend grants; `cpuCount` is what `cpu_count()`,
which is not `mp.cpu_count()`, says to `effective_n_jobs`. -/
structure UsesGranted (cpuCount : Int) : Prop where
  path : p.nJobs ≠ 0 → ∀ w, 0 ≤ w → p.granted host = .ok w → p.takenPath host = .ok (.of w)
  effective : (∀ n, host.configure n = .ok n) → p.nJobs ≠ 0 → p.granted host = resolveNJobs cpuCount p.nJobs
  zero : p.nJobs = 0 → p.takenPath host = .error noMeaning ∧ p.entering host = .error noMeaning ∧
    (resolveNJobs cpuCount p.nJobs : Except (Exc ε) Int) = .error noMeaning

/-- A call is its path. -/
theorem prepare_eq_follow (iterable : Iterable (Item α ε) ε) :
    p.prepare host iterable =
      match p.takenPath host with
      | .error e => (.error e, (p.resetRunTracking.workers host).2)
      | .ok path => (p.resetRunTracking.workers host).2.follow host iterable path := by
  have hlock : (p.resetRunTracking.workers host).2.hasLock = p.hasLock := by
    obtain ⟨_, hframe⟩ := workers_frame host p.resetRunTracking
    rw [hframe]
    rfl
  unfold prepare takenPath
  cases hworkers : p.resetRunTracking.workers host with
  | mk n q =>
    rw [hworkers] at hlock
    cases n with
    | error e => rfl
    | ok n =>
      dsimp only at hlock ⊢
      by_cases h1 : n = 1
      · rw [if_pos h1, if_pos h1]
        rfl
      · rw [if_neg h1, if_neg h1]
        unfold prepareConcurrent
        rw [hlock]
        by_cases hp : p.hasLock = true
        · by_cases h0 : n = 0
          · simp [hp, h0, Path.of, follow, renewCallId]
          · simp [hp, h0, h1, Path.of, follow]
        · simp [hp]

section Granted
variable {host p}

/-- A call whose backend grants something goes by the number counted. -/
theorem workers_of_granted {w : Int} (h : p.granted host = .ok w) :
    (p.resetRunTracking.workers host).1 = p.counted host := by
  have hmanaged : p.resetRunTracking.managedBackend = p.managedBackend := rfl
  have hnJobs : p.resetRunTracking.nJobs = p.nJobs := rfl
  unfold workers counted
  rw [hmanaged]
  by_cases hm : p.managedBackend = true
  · rw [if_pos hm, if_pos hm]
  · rw [if_neg hm, if_neg hm]
    unfold granted at h
    unfold initializeBackend
    rw [hnJobs]
    cases hresolve : (resolveNJobs host.cpuCount p.nJobs : Except (Exc ε) Int) with
    | error e => rfl
    | ok n =>
      rw [hresolve] at h
      have hconfigure : host.configure n = .ok w := h
      simp only [hconfigure]

/-- It takes the path granted if it goes by the number granted and finds the lock where it
looks for it. -/
theorem takenPath_iff {w : Int} (h : p.granted host = .ok w) :
    p.takenPath host = .ok (.of w) ↔ p.counted host = .ok w ∧ (w = 1 ∨ p.hasLock = true) := by
  unfold takenPath
  rw [workers_of_granted h]
  cases hcounted : p.counted host with
  | error e => simp
  | ok n =>
    dsimp only
    by_cases h1 : n = 1
    · rw [if_pos h1]
      constructor
      · intro heq
        have hw : n = w := Path.of_inj (by rw [← Except.ok.inj heq, h1]; rfl)
        exact ⟨by rw [hw], .inl (hw ▸ h1)⟩
      · rintro ⟨heq, _⟩
        rw [← Except.ok.inj heq, h1]
        rfl
    · rw [if_neg h1]
      by_cases hlock : p.hasLock = true
      · simp only [hlock, Bool.not_true, Bool.false_eq_true, if_false, or_true, and_true, Except.ok.injEq]
        exact ⟨Path.of_inj, fun heq => by rw [heq]⟩
      · have hnone : (!p.hasLock) = true := by simpa using hlock
        rw [if_pos hnone]
        constructor
        · intro heq
          cases heq
        · rintro ⟨heq, hw | hlock'⟩
          · exact absurd ((Except.ok.inj heq).trans hw) h1
          · exact absurd hlock' hlock

end Granted

/-- With `n_jobs == 0` a call says so where it gets to `_initialize_backend`; inside `with` it is
for `_effective_n_jobs` to say. -/
theorem takenPath_zero_iff (hzero : p.nJobs = 0) :
    p.takenPath host = .error noMeaning ↔
      (p.managedBackend = true → host.effectiveNJobs p.resetRunTracking = .error noMeaning) := by
  have hmanaged : p.resetRunTracking.managedBackend = p.managedBackend := rfl
  unfold takenPath workers
  rw [hmanaged]
  cases hm : p.managedBackend with
  | false => simp [initializeBackend, resetRunTracking, resolveNJobs, hzero, noMeaning]
  | true =>
    rw [if_pos rfl, forall_prop_of_true rfl]
    cases heffective : host.effectiveNJobs p.resetRunTracking with
    | error e => simp
    | ok n =>
      refine ⟨fun htaken => ?_, fun hraises => by cases hraises⟩
      dsimp only at htaken
      split at htaken
      · cases htaken
      · split at htaken <;> cases htaken

/-- `__enter__` refuses `n_jobs == 0` and leaves the instance managed, so that a call of it raises what
`_effective_n_jobs` raises. -/
theorem entered_zero (hzero : p.nJobs = 0) {e : Exc ε}
    (hraises : host.effectiveNJobs (p.enter host).resetRunTracking = .error e) :
    p.entering host = .error noMeaning ∧ (p.enter host).takenPath host = .error e := by
  have hrefused : {p with managedBackend := true, calling := false}.initializeBackend host =
      (.error noMeaning, {p with managedBackend := true, calling := false}) := by
    simp [initializeBackend, resolveNJobs, hzero, noMeaning]
  have hmanaged : (p.enter host).resetRunTracking.managedBackend = true := by
    unfold enter
    rw [hrefused]
    rfl
  refine ⟨?_, ?_⟩
  · unfold entering
    rw [hrefused]
    rfl
  · unfold takenPath workers
    rw [if_pos hmanaged, hraises]

/-- **Exactly when the worker count is the one the backend grants.** -/
theorem usesGranted_iff (cpuCount : Int) :
    p.UsesGranted host cpuCount ↔
      (p.nJobs ≠ 0 → ∀ w, 0 ≤ w → p.granted host = .ok w → p.counted host = .ok w ∧ (w = 1 ∨ p.hasLock = true)) ∧
        ((∀ n, host.configure n = .ok n) → p.nJobs < 0 →
          max (host.cpuCount + 1 + p.nJobs) 1 = max (cpuCount + 1 + p.nJobs) 1) ∧
        (p.nJobs = 0 → p.managedBackend = true → host.effectiveNJobs p.resetRunTracking = .error noMeaning) := by
  have hgrants (hconfigure : ∀ n, host.configure n = .ok n) : p.granted host = resolveNJobs host.cpuCount p.nJobs := by
    unfold granted
    cases hresolve : (resolveNJobs host.cpuCount p.nJobs : Except (Exc ε) Int) with
    | error e => rfl
    | ok n => exact hconfigure n
  constructor
  · intro h
    refine ⟨fun hne w hw hgranted => (takenPath_iff hgranted).mp (h.path hne w hw hgranted),
      fun hconfigure hneg => ?_, fun hzero => (takenPath_zero_iff host p hzero).mp (h.zero hzero).1⟩
    have hne : p.nJobs ≠ 0 := by omega
    have heffective := h.effective hconfigure hne
    rw [hgrants hconfigure] at heffective
    simpa [resolveNJobs, hne, hneg] using heffective
  · rintro ⟨hpath, hcount, hmanaged⟩
    refine ⟨fun hne w hw hgranted => (takenPath_iff hgranted).mpr (hpath hne w hw hgranted),
      fun hconfigure hne => ?_, fun hzero => ⟨(takenPath_zero_iff host p hzero).mpr (hmanaged hzero), ?_, ?_⟩⟩
    · rw [hgrants hconfigure]
      by_cases hneg : p.nJobs < 0
      · simp [resolveNJobs, hne, hneg, hcount hconfigure hneg]
      · simp [resolveNJobs, hne, hneg]
    · simp [entering, initializeBackend, resolveNJobs, hzero, noMeaning, Except.map]
    · simp [resolveNJobs, hzero, noMeaning]

/-- A backend without workers that does not say so before it is asked, and the class without its
`_effective_n_jobs`. -/
def Host.zeroWorker : Host Nat Empty :=
  { Host.plain Nat Empty with
    configure := fun _ => .ok 0
    effectiveNJobs := fun _ => .error (.attributeError "'Parallel' object has no attribute '_effective_n_jobs'") }

/-- `Parallel(n_jobs=2)` on it. -/
def twoJobsZeroWorker : Parallel Nat Empty :=
  .created 2 (.text "2 * n_jobs") .list (.idle "ZeroWorkerBackend" true) true

/-- It goes on with two workers where there are none. -/
theorem twoJobsZeroWorker_path : twoJobsZeroWorker.granted Host.zeroWorker = .ok 0 ∧
    twoJobsZeroWorker.takenPath Host.zeroWorker = .ok (.concurrent 2) ∧
      ¬ twoJobsZeroWorker.UsesGranted Host.zeroWorker 4 := by
  refine ⟨rfl, rfl, fun h => ?_⟩
  have hpath := h.path (by decide) 0 (by decide) rfl
  cases hpath

/-- `Parallel(n_jobs=0)`, entered in spite of the `ValueError`, is called: the attribute it misses is
what it complains of. -/
theorem noJobs_entered :
    let noJobs : Parallel Nat Empty := .created 0 (.text "2 * n_jobs") .list (.idle "ThreadingBackend" true) true
    noJobs.entering Host.zeroWorker = .error noMeaning ∧
      ¬ (noJobs.enter Host.zeroWorker).UsesGranted Host.zeroWorker 4 := by
  intro noJobs
  obtain ⟨hentering, hcalled⟩ := entered_zero Host.zeroWorker noJobs rfl rfl
  refine ⟨hentering, fun h => ?_⟩
  obtain ⟨hrefused, _⟩ := h.zero rfl
  cases hcalled.symm.trans hrefused

end Parallel

end Joblib
