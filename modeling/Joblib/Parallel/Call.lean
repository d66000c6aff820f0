import Joblib.Parallel.Generators

/-! `Parallel.__call__`.

Both paths build a generator, resume it once and hand it back or drain it into a
list; `deliver` is that common end. What the call reaches outside the class is a
`Host`. Every function takes a bound on the turns a generator may take and gives
nothing when it does not suffice or when the call blocks. -/
namespace Joblib

/-- What surrounds a call: the machine, the backend's `configure`, and the
functions the class calls that have no body. -/
structure Host (α ε : Type) where
  dispatcher : Dispatcher α ε
  /-- `mp.cpu_count()`. -/
  cpuCount : Int
  /-- `_backend.configure(n_jobs=...)`. -/
  configure : Int → Except (Exc ε) Int
  /-- `self._effective_n_jobs()`. -/
  effectiveNJobs : Parallel α ε → Except (Exc ε) Int
  /-- `int(eval_expr(expression))`. -/
  evalExpr : String → Except (Exc ε) Int

/-- Batches of one task, a backend that grants what it is asked for. -/
def Host.plain (α ε : Type) : Host α ε where
  dispatcher := .oneByOne α ε
  cpuCount := 4
  configure nJobs := .ok nJobs
  effectiveNJobs p := .ok p.nJobs
  evalExpr _ := .error (.valueError "not an arithmetic expression")

/-- What a call gives its caller. -/
inductive Result (α ε : Type) where
  | list (values : List α)
  | generator (frame : Frame α ε)
  | raised (error : Exc ε)

namespace Parallel
open Resumable (Drained next drain)
variable {α ε : Type} (host : Host α ε)

/-- `effective_n_jobs` and the same lines of `_initialize_backend`. -/
def resolveNJobs (cpuCount nJobs : Int) : Except (Exc ε) Int :=
  if nJobs = 0 then .error (.valueError "n_jobs == 0 in Parallel has no meaning")
  else if nJobs < 0 then .ok (max (cpuCount + 1 + nJobs) 1)
  else .ok nJobs

/-- `_initialize_backend`: what `configure` returns is not looked at. -/
def initializeBackend (p : Parallel α ε) : Except (Exc ε) Int × Parallel α ε :=
  match resolveNJobs host.cpuCount p.nJobs with
  | .error e => (.error e, p)
  | .ok n =>
    let p := p.withBackend {p.backend with configured := p.backend.configured + 1}
    match host.configure n with
    | .error e => (.error e, p)
    | .ok _ => (.ok n, p)

/-- The number of workers a call goes by. -/
def workers (p : Parallel α ε) : Except (Exc ε) Int × Parallel α ε :=
  if p.managedBackend then (host.effectiveNJobs p, p) else p.initializeBackend host

/-- `next(output)`, then `return output if self.return_generator else list(output)`. -/
def deliver (n : Nat) (output : Frame α ε) (p : Parallel α ε) : Option (Result α ε × Parallel α ε) :=
  match next (Generator.step host.dispatcher) n (output, p) with
  | none => none
  | some (.stopped, (_, p)) => some (.raised .stopIteration, p)
  | some (.raised e, (_, p)) => some (.raised e, p)
  | some (.yielded _, (output, p)) =>
    if p.returnAs.returnGenerator then some (.generator output, p)
    else
      (drain (Generator.step host.dispatcher) n (output, p)).map fun r =>
        match r.1.error with
        | none => (.list r.1.values, r.2.2)
        | some e => (.raised e, r.2.2)

/-- `pre_dispatch` as an amount: `none` for `'all'`. -/
def resolvePreDispatch (nJobs : Int) : PreDispatch → Except (Exc ε) (Option Int)
  | .count amount => .ok (some amount)
  | .text expression =>
    if expression = "all" then .ok none
    else (host.evalExpr (expression.replace "n_jobs" (toString nJobs))).map some

/-- `sys.maxsize`. -/
def maxsize : Int := 9223372036854775807

/-- `itertools.islice(iterator, amount)`. -/
def islice (amount : Int) : Except (Exc ε) (Prefetch α ε) :=
  if 0 ≤ amount ∧ amount ≤ maxsize then .ok (.islice amount)
  else .error (.valueError
    "Stop argument for islice() must be None or an integer: 0 <= x <= sys.maxsize.")

/-- From `pre_dispatch = self.pre_dispatch` to the `islice`. -/
def setOriginalIterator (nJobs : Int) (it : Iterator (Item α ε) ε) (p : Parallel α ε) :
    Except (Exc ε) (Prefetch α ε) × Parallel α ε :=
  -- the attribute is set before the expression is evaluated
  let q := {p with originalIterator := some it}
  match resolvePreDispatch host nJobs p.preDispatch with
  | .error e => (.error e, q)
  | .ok none => (.ok (.whole it), {p with originalIterator := none, preDispatchAmount := 0})
  | .ok (some amount) => (islice amount, {q with preDispatchAmount := amount})

/-- `self._pickle_cache = dict()` and `self._call_ref = weakref.ref(output)`. -/
def keepOutput (p : Parallel α ε) : Parallel α ε :=
  {p with pickleCache := some p.fresh, callRef := some (p.fresh + 1), fresh := p.fresh + 2}

/-- From `iterator = iter(iterable)` to the generator. -/
def openOutputs (nJobs : Int) (iterable : Iterable (Item α ε) ε) (p : Parallel α ε) :
    Except (Exc ε) (Frame α ε) × Parallel α ε :=
  match iterable with
  | .error e => (.error e, p)
  | .ok it =>
    match p.setOriginalIterator host nJobs it with
    | (.error e, p) => (.error e, p)
    | (.ok iterator, p) => (.ok (.outputs iterator), p.keepOutput)

/-- The concurrent path, up to its generator. -/
def prepareConcurrent (nJobs : Int) (iterable : Iterable (Item α ε) ε) (p : Parallel α ε) :
    Except (Exc ε) (Frame α ε) × Parallel α ε :=
  if !p.hasLock then
    (.error (.attributeError "'Parallel' object has no attribute '_lock'"), p)
  else
    let p := {p.renewCallId with cachedEffectiveNJobs := nJobs}
    if nJobs = 0 then
      (.error (.runtimeError (p.backend.name ++ " has no active worker.")), p)
    else openOutputs host nJobs iterable {p with calling := true}

/-- `__call__` up to `next(output)`. -/
def prepare (iterable : Iterable (Item α ε) ε) (p : Parallel α ε) :
    Except (Exc ε) (Frame α ε) × Parallel α ε :=
  match p.resetRunTracking.workers host with
  | (.error e, p) => (.error e, p)
  | (.ok nJobs, p) =>
    if nJobs = 1 then (.ok (.sequential iterable), p) else p.prepareConcurrent host nJobs iterable

/-- `__call__`. -/
def call (n : Nat) (iterable : Iterable (Item α ε) ε) (p : Parallel α ε) :
    Option (Result α ε × Parallel α ε) :=
  match p.prepare host iterable with
  | (.error e, p) => some (.raised e, p)
  | (.ok output, p) => p.deliver host n output

/-- What a caller ends up with: the list, or the generator run to its end. -/
def exhaust (n : Nat) : Result α ε × Parallel α ε → Option (Drained α (Exc ε) × Parallel α ε)
  | (.list values, p) => some (⟨values, none⟩, p)
  | (.raised e, p) => some (⟨[], some e⟩, p)
  | (.generator output, p) =>
    (drain (Generator.step host.dispatcher) n (output, p)).map fun r => (r.1, r.2.2)

def callAndExhaust (n : Nat) (iterable : Iterable (Item α ε) ε) (p : Parallel α ε) :
    Option (Drained α (Exc ε) × Parallel α ε) :=
  (p.call host n iterable).bind (exhaust host n)

/-! ### A bound that suffices -/

variable {host}

theorem deliver_mono {n m : Nat} {output : Frame α ε} {p : Parallel α ε}
    {r : Result α ε × Parallel α ε} (h : p.deliver host n output = some r) (hnm : n ≤ m) :
    p.deliver host m output = some r := by
  unfold deliver at h ⊢
  cases hn : next (Generator.step host.dispatcher) n (output, p) with
  | none => simp [hn] at h
  | some came =>
    rw [hn] at h
    rw [Resumable.next_mono hn hnm]
    obtain ⟨event, output', p'⟩ := came
    cases event with
    | stopped => exact h
    | raised e => exact h
    | yielded v =>
      dsimp only at h ⊢
      by_cases hr : p'.returnAs.returnGenerator = true
      · rw [if_pos hr] at h ⊢
        exact h
      · rw [if_neg hr] at h ⊢
        obtain ⟨r', hr', rfl⟩ := Option.map_eq_some_iff.mp h
        exact Option.map_eq_some_iff.mpr ⟨r', Resumable.drain_mono hr' hnm, rfl⟩

theorem call_mono {n m : Nat} {iterable : Iterable (Item α ε) ε} {p : Parallel α ε}
    {r : Result α ε × Parallel α ε} (h : p.call host n iterable = some r) (hnm : n ≤ m) :
    p.call host m iterable = some r := by
  unfold call at h ⊢
  cases hp : p.prepare host iterable with
  | mk output q =>
    rw [hp] at h
    cases output with
    | error e => exact h
    | ok output => exact deliver_mono h hnm

theorem exhaust_mono {n m : Nat} {r : Result α ε × Parallel α ε} {d : Drained α (Exc ε) × Parallel α ε}
    (h : exhaust host n r = some d) (hnm : n ≤ m) : exhaust host m r = some d := by
  obtain ⟨r, p⟩ := r
  cases r with
  | list values => exact h
  | raised e => exact h
  | generator output =>
    obtain ⟨d', hd', rfl⟩ := Option.map_eq_some_iff.mp h
    exact Option.map_eq_some_iff.mpr ⟨d', Resumable.drain_mono hd' hnm, rfl⟩

/-- Whatever bounds suffice, the caller ends up with the same. -/
theorem callAndExhaust_unique {n m : Nat} {iterable : Iterable (Item α ε) ε} {p : Parallel α ε}
    {d d' : Drained α (Exc ε) × Parallel α ε} (h : p.callAndExhaust host n iterable = some d)
    (h' : p.callAndExhaust host m iterable = some d') : d = d' := by
  obtain ⟨r, hr, hd⟩ := Option.bind_eq_some_iff.mp h
  obtain ⟨r', hr', hd'⟩ := Option.bind_eq_some_iff.mp h'
  have hn := call_mono hr (Nat.le_max_left n m)
  have hm := call_mono hr' (Nat.le_max_right n m)
  obtain rfl : r = r' := Option.some.inj (hn.symm.trans hm)
  have hdn := exhaust_mono hd (Nat.le_max_left n m)
  have hdm := exhaust_mono hd' (Nat.le_max_right n m)
  exact Option.some.inj (hdn.symm.trans hdm)

/-! ### What priming leaves -/

/-- A list is returned whole or not at all; a generator delivers as it goes. -/
def handedOut (r : ReturnAs) (d : Drained α (Exc ε)) : Drained α (Exc ε) :=
  if r.returnGenerator then d
  else
    match d.error with
    | none => d
    | some e => ⟨[], some e⟩

/-- What a caller gets of a generator that drains to `d`: its first event is
consumed by `next(output)`, and a value is gone with it. -/
def primed (r : ReturnAs) (d : Drained α (Exc ε)) : Drained α (Exc ε) :=
  match d.values, d.error with
  | _ :: rest, error => handedOut r ⟨rest, error⟩
  | [], some e => ⟨[], some e⟩
  | [], none => ⟨[], some .stopIteration⟩

@[simp] theorem primed_cons (r : ReturnAs) (d : Drained α (Exc ε)) (v : α) :
    primed r (d.cons v) = handedOut r d := rfl

/-- **What a call delivers of its generator.** -/
theorem deliver_primed {n : Nat} {output f : Frame α ε} {p q : Parallel α ε} {d : Drained α (Exc ε)}
    (h : drain (Generator.step host.dispatcher) n (output, p) = some (d, (f, q))) :
    (p.deliver host n output).bind (exhaust host n) = some (primed p.returnAs d, q) := by
  unfold deliver
  rcases Resumable.next_of_drain h with ⟨v, ⟨output', p'⟩, d', hn, hd, rfl⟩ | ⟨hn, rfl⟩ | ⟨e, hn, rfl⟩
  · rw [hn, primed_cons]
    have hreturnAs : p'.returnAs = p.returnAs := (Generator.next_frame _ hn).returnAs
    unfold handedOut
    dsimp only
    rw [hreturnAs]
    split
    · simp only [Option.bind_some, exhaust, hd, Option.map_some]
    · rw [hd]
      cases herror : d'.error with
      | none =>
        obtain ⟨values, error⟩ := d'
        obtain rfl : error = none := herror
        rfl
      | some e => simp [herror, exhaust]
  · rw [hn]
    rfl
  · rw [hn]
    rfl

/-- A call that ends without an exception consumed a first value and drained the
rest. -/
theorem deliver_ended {n : Nat} {output : Frame α ε} {p q : Parallel α ε} {d : Drained α (Exc ε)}
    (h : (p.deliver host n output).bind (exhaust host n) = some (d, q)) (hd : d.error = none) :
    ∃ v g f, next (Generator.step host.dispatcher) n (output, p) = some (.yielded v, g) ∧
      drain (Generator.step host.dispatcher) n g = some (d, (f, q)) := by
  unfold deliver at h
  cases hn : next (Generator.step host.dispatcher) n (output, p) with
  | none => simp [hn] at h
  | some came =>
    obtain ⟨event, output', p'⟩ := came
    rw [hn] at h
    cases event with
    | stopped =>
      obtain ⟨rfl, rfl⟩ : (⟨[], some .stopIteration⟩ : Drained α (Exc ε)) = d ∧ p' = q := by
        simpa [exhaust] using h
      cases hd
    | raised e =>
      obtain ⟨rfl, rfl⟩ : (⟨[], some e⟩ : Drained α (Exc ε)) = d ∧ p' = q := by simpa [exhaust] using h
      cases hd
    | yielded v =>
      dsimp only at h
      by_cases hr : p'.returnAs.returnGenerator = true
      · rw [if_pos hr, Option.bind_some, exhaust] at h
        obtain ⟨⟨d', f, q'⟩, hdrain, heq⟩ := Option.map_eq_some_iff.mp h
        obtain ⟨rfl, rfl⟩ : d' = d ∧ q' = q := by simpa using heq
        exact ⟨v, _, f, rfl, hdrain⟩
      · rw [if_neg hr] at h
        obtain ⟨r, hresult, hexhaust⟩ := Option.bind_eq_some_iff.mp h
        obtain ⟨⟨d', f, q'⟩, hdrain, rfl⟩ := Option.map_eq_some_iff.mp hresult
        cases herror : d'.error with
        | none =>
          obtain ⟨values, error⟩ := d'
          obtain rfl : error = none := herror
          obtain ⟨rfl, rfl⟩ : (⟨values, none⟩ : Drained α (Exc ε)) = d ∧ q' = q := by
            simpa [exhaust] using hexhaust
          exact ⟨v, _, f, rfl, hdrain⟩
        | some e =>
          obtain ⟨rfl, rfl⟩ : (⟨[], some e⟩ : Drained α (Exc ε)) = d ∧ q' = q := by
            simpa [herror, exhaust] using hexhaust
          cases hd

/-- After the first event, delivering writes what the generator writes. -/
theorem deliver_after {n : Nat} {output : Frame α ε} {p q : Parallel α ε} {r : Result α ε}
    {event : Resumable.Event α (Exc ε)} {g : Generator α ε}
    (hn : next (Generator.step host.dispatcher) n (output, p) = some (event, g))
    (h : p.deliver host n output = some (r, q)) : Generator.OnlyRuns g.2 q := by
  unfold deliver at h
  rw [hn] at h
  cases event with
  | stopped =>
    cases h
    exact .refl _
  | raised e =>
    cases h
    exact .refl _
  | yielded v =>
    dsimp only at h
    split at h
    · cases h
      exact .refl _
    · obtain ⟨⟨d, f, q'⟩, hdrain, heq⟩ := Option.map_eq_some_iff.mp h
      have hq : q' = q := by
        dsimp only at heq
        split at heq <;> exact (Prod.mk.inj heq).2
      exact hq ▸ Generator.drain_frame _ hdrain

theorem deliver_frame {n : Nat} {output : Frame α ε} {p q : Parallel α ε} {r : Result α ε}
    (h : p.deliver host n output = some (r, q)) : Generator.OnlyRuns p q := by
  cases hn : next (Generator.step host.dispatcher) n (output, p) with
  | none => simp [deliver, hn] at h
  | some came => exact (Generator.next_frame _ hn).trans (deliver_after hn h)

/-! ### The worker count -/

/-- The backend was asked to configure itself. -/
def configureOnce (p : Parallel α ε) : Parallel α ε :=
  p.withBackend {p.backend with configured := p.backend.configured + 1}

theorem resolveNJobs_cases (cpuCount nJobs : Int) :
    (∃ message, (resolveNJobs cpuCount nJobs : Except (Exc ε) Int) = .error (.valueError message)) ∨
      ∃ n, (resolveNJobs cpuCount nJobs : Except (Exc ε) Int) = .ok n := by
  unfold resolveNJobs
  by_cases h0 : nJobs = 0
  · rw [if_pos h0]
    exact .inl ⟨_, rfl⟩
  · rw [if_neg h0]
    right
    split <;> exact ⟨_, rfl⟩

variable (host) in
/-- The backend is configured unless `n_jobs` is 0. -/
theorem initializeBackend_cases (p : Parallel α ε) :
    (∃ message, p.initializeBackend host = (.error (.valueError message), p)) ∨
      (p.initializeBackend host).2 = p.configureOnce := by
  unfold initializeBackend
  rcases resolveNJobs_cases host.cpuCount p.nJobs with ⟨message, hn⟩ | ⟨n, hn⟩ <;> rw [hn]
  · exact .inl ⟨message, rfl⟩
  · right
    dsimp only
    split <;> rfl

variable (host) in
/-- Inside `with` the backend is left alone. -/
theorem workers_cases (p : Parallel α ε) :
    (p.managedBackend = true ∧ p.workers host = (host.effectiveNJobs p, p)) ∨
      (p.managedBackend = false ∧ ∃ message, p.workers host = (.error (.valueError message), p)) ∨
      (p.managedBackend = false ∧ (p.workers host).2 = p.configureOnce) := by
  unfold workers
  by_cases hm : p.managedBackend = true
  · exact .inl ⟨hm, if_pos hm⟩
  · rw [if_neg hm]
    have hm := Bool.eq_false_iff.mpr hm
    rcases initializeBackend_cases host p with h | h
    · exact .inr (.inl ⟨hm, h⟩)
    · exact .inr (.inr ⟨hm, h⟩)

variable (host) in
theorem workers_frame (p : Parallel α ε) :
    ∃ configured, (p.workers host).2 = p.withBackend {p.backend with configured := configured} := by
  rcases workers_cases host p with ⟨_, h⟩ | ⟨_, _, h⟩ | ⟨_, h⟩
  · exact ⟨p.backend.configured, by rw [h]; rfl⟩
  · exact ⟨p.backend.configured, by rw [h]; rfl⟩
  · exact ⟨p.backend.configured + 1, h⟩

variable (host) in
theorem prepare_sequential (iterable : Iterable (Item α ε) ε) (p : Parallel α ε)
    (hw : (p.resetRunTracking.workers host).1 = .ok 1) :
    p.prepare host iterable = (.ok (.sequential iterable), (p.resetRunTracking.workers host).2) := by
  unfold prepare
  cases h : p.resetRunTracking.workers host with
  | mk n q =>
    rw [h] at hw
    obtain rfl : n = .ok 1 := hw
    rfl

variable (host) in
theorem prepare_concurrent {w : Int} (iterable : Iterable (Item α ε) ε) (p : Parallel α ε)
    (hw : (p.resetRunTracking.workers host).1 = .ok w) (h1 : w ≠ 1) :
    p.prepare host iterable = (p.resetRunTracking.workers host).2.prepareConcurrent host w iterable := by
  unfold prepare
  cases h : p.resetRunTracking.workers host with
  | mk n q =>
    rw [h] at hw
    obtain rfl : n = .ok w := hw
    exact if_neg h1

/-- Everything written from `iterator = iter(iterable)` to the generator. -/
structure OnlyOpens (p q : Parallel α ε) : Prop where
  eq : q = { p with
    originalIterator := q.originalIterator
    preDispatchAmount := q.preDispatchAmount
    pickleCache := q.pickleCache
    callRef := q.callRef
    fresh := q.fresh }
  fresh : p.fresh ≤ q.fresh

theorem OnlyOpens.refl (p : Parallel α ε) : OnlyOpens p p := ⟨rfl, Nat.le_refl _⟩

theorem OnlyOpens.trans {p q r : Parallel α ε} (h : OnlyOpens p q) (h' : OnlyOpens q r) :
    OnlyOpens p r := by
  refine ⟨h'.eq.trans ?_, Nat.le_trans h.fresh h'.fresh⟩
  rw [h.eq]

theorem OnlyOpens.keepOutput (p : Parallel α ε) : OnlyOpens p p.keepOutput :=
  ⟨rfl, Nat.le_add_right _ _⟩

theorem setOriginalIterator_frame {nJobs : Int} {it : Iterator (Item α ε) ε} {p q : Parallel α ε}
    {r : Except (Exc ε) (Prefetch α ε)} (h : p.setOriginalIterator host nJobs it = (r, q)) :
    OnlyOpens p q := by
  unfold setOriginalIterator at h
  dsimp only at h
  split at h <;>
  · obtain ⟨_, rfl⟩ := Prod.mk.inj h
    exact ⟨rfl, Nat.le_refl _⟩

variable (host) in
/-- `pre_dispatch` comes to no amount exactly when it is `'all'`. -/
theorem resolvePreDispatch_none_iff (nJobs : Int) (preDispatch : PreDispatch) :
    resolvePreDispatch host nJobs preDispatch = .ok none ↔ preDispatch = .text "all" := by
  unfold resolvePreDispatch
  cases preDispatch with
  | count amount => simp
  | text expression =>
    dsimp only
    by_cases h : expression = "all"
    · simp [h]
    · rw [if_neg h]
      cases host.evalExpr (expression.replace "n_jobs" (toString nJobs)) with
      | error e => simp [Except.map, h]
      | ok amount => simp [Except.map, h]

variable (host) in
/-- Whether or not the expression or the `islice` raises, `_original_iterator` is now as
`pre_dispatch` says. -/
theorem setOriginalIterator_none_iff (nJobs : Int) (it : Iterator (Item α ε) ε) (p : Parallel α ε) :
    (p.setOriginalIterator host nJobs it).2.originalIterator = none ↔ p.preDispatch = .text "all" := by
  rw [← resolvePreDispatch_none_iff host nJobs p.preDispatch]
  unfold setOriginalIterator
  dsimp only
  cases resolvePreDispatch host nJobs p.preDispatch with
  | error e => simp
  | ok amount => cases amount <;> simp

variable (host) in
/-- Short of `'all'` it is set to the iterator itself. -/
theorem setOriginalIterator_some (nJobs : Int) (it : Iterator (Item α ε) ε) {p : Parallel α ε}
    (h : p.preDispatch ≠ .text "all") : (p.setOriginalIterator host nJobs it).2.originalIterator = some it := by
  rw [Ne, ← resolvePreDispatch_none_iff host nJobs p.preDispatch] at h
  unfold setOriginalIterator
  dsimp only
  cases hamount : resolvePreDispatch host nJobs p.preDispatch with
  | error e => rfl
  | ok amount =>
    cases amount with
    | none => exact absurd hamount h
    | some amount => rfl

variable (host) in
theorem openOutputs_none_iff (nJobs : Int) (it : Iterator (Item α ε) ε) (p : Parallel α ε) :
    (p.openOutputs host nJobs (.ok it)).2.originalIterator = none ↔ p.preDispatch = .text "all" := by
  rw [← setOriginalIterator_none_iff host nJobs it p]
  unfold openOutputs
  dsimp only
  split
  next hset => rw [hset]
  next hset =>
    rw [hset]
    exact Iff.rfl

variable (host) in
theorem openOutputs_some (nJobs : Int) (it : Iterator (Item α ε) ε) {p : Parallel α ε}
    (h : p.preDispatch ≠ .text "all") : (p.openOutputs host nJobs (.ok it)).2.originalIterator = some it := by
  have hset := setOriginalIterator_some host nJobs it h
  unfold openOutputs
  dsimp only
  split
  next heq =>
    rw [heq] at hset
    exact hset
  next heq =>
    rw [heq] at hset
    exact hset

variable (host) in
theorem openOutputs_cases (nJobs : Int) (iterable : Iterable (Item α ε) ε) (p : Parallel α ε) :
    ∃ q, OnlyOpens p q ∧
      ((∃ e, p.openOutputs host nJobs iterable = (.error e, q)) ∨
        ∃ iterator, p.openOutputs host nJobs iterable = (.ok (.outputs iterator), q)) := by
  unfold openOutputs
  cases iterable with
  | error e => exact ⟨p, .refl p, .inl ⟨e, rfl⟩⟩
  | ok it =>
    dsimp only
    split
    next hset => exact ⟨_, setOriginalIterator_frame hset, .inl ⟨_, rfl⟩⟩
    next hset => exact ⟨_, (setOriginalIterator_frame hset).trans (.keepOutput _), .inr ⟨_, rfl⟩⟩

/-- The concurrent path up to its `n_jobs == 0` test, and past it. -/
def enterConcurrent (nJobs : Int) (calling : Bool) (p : Parallel α ε) : Parallel α ε :=
  {p.renewCallId with cachedEffectiveNJobs := nJobs, calling := calling}

variable (host) in
/-- Without a lock the concurrent path ends at once; with one it renews the call id,
and raises or gets to the loop of `_get_outputs`. -/
theorem prepareConcurrent_cases (nJobs : Int) (iterable : Iterable (Item α ε) ε) (p : Parallel α ε) :
    (∃ message, p.prepareConcurrent host nJobs iterable = (.error (.attributeError message), p)) ∨
      ∃ calling q, OnlyOpens (p.enterConcurrent nJobs calling) q ∧
        ((∃ e, p.prepareConcurrent host nJobs iterable = (.error e, q)) ∨
          ∃ iterator, p.prepareConcurrent host nJobs iterable = (.ok (.outputs iterator), q)) := by
  unfold prepareConcurrent
  split
  · exact .inl ⟨_, rfl⟩
  · dsimp only
    right
    split
    · exact ⟨p.calling, _, .refl _, .inl ⟨_, rfl⟩⟩
    · exact ⟨true, openOutputs_cases host nJobs iterable (p.enterConcurrent nJobs true)⟩

/-- **Everything a call can do.** From the worker count on, it raises what the count
raises, runs the sequential path, finds no lock, or renews the call id and goes on. -/
theorem call_cases {n : Nat} {iterable : Iterable (Item α ε) ε} {p q : Parallel α ε} {r : Result α ε}
    (h : p.call host n iterable = some (r, q)) :
    (∃ e, (p.resetRunTracking.workers host).1 = .error e ∧ r = .raised e ∧
        q = (p.resetRunTracking.workers host).2) ∨
      ((p.resetRunTracking.workers host).1 = .ok 1 ∧
        (p.resetRunTracking.workers host).2.deliver host n (.sequential iterable) = some (r, q)) ∨
      (∃ message, r = .raised (.attributeError message) ∧ q = (p.resetRunTracking.workers host).2) ∨
      ∃ w calling p', OnlyOpens ((p.resetRunTracking.workers host).2.enterConcurrent w calling) p' ∧
        Generator.OnlyRuns p' q := by
  unfold call at h
  cases hw : (p.resetRunTracking.workers host).1 with
  | error e =>
    have hprepare : p.prepare host iterable = (.error e, (p.resetRunTracking.workers host).2) := by
      unfold prepare
      rw [show p.resetRunTracking.workers host = (.error e, (p.resetRunTracking.workers host).2) from
        Prod.ext hw rfl]
    rw [hprepare] at h
    cases h
    exact .inl ⟨e, rfl, rfl, rfl⟩
  | ok w =>
    by_cases h1 : w = 1
    · subst h1
      rw [prepare_sequential host iterable p hw] at h
      exact .inr (.inl ⟨rfl, h⟩)
    · rw [prepare_concurrent host iterable p hw h1] at h
      right; right
      rcases prepareConcurrent_cases host w iterable (p.resetRunTracking.workers host).2 with
        ⟨message, hprepare⟩ | ⟨calling, p', hopens, ⟨e, hprepare⟩ | ⟨iterator, hprepare⟩⟩ <;>
        rw [hprepare] at h
      · cases h
        exact .inl ⟨message, rfl, rfl⟩
      · cases h
        exact .inr ⟨w, calling, _, hopens, .refl _⟩
      · exact .inr ⟨w, calling, p', hopens, deliver_frame h⟩

end Parallel

end Joblib
