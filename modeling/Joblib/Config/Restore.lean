import Joblib.Config.State

/-! Leaving a configuration block.

A constructor installs the block's configuration and `__exit__` is to take it back, by an
`unregister` that neither class has. So whatever the body did, an entered block is left
with an `AttributeError` and its configuration in force (`exec_entered`). A block is left
as the documentation says only where it was never entered. -/
namespace Joblib

variable {ω ε : Type} (C : CheckBackend ω ε)

/-- The block leaves the configuration it found and raises nothing of its own: the outcome
is the body's. A constructor that raises changes nothing. -/
def Restores (t : Thread ω) (m : Manager ω) (body : With.Program (Manager ω) (Exc ε)) : Prop :=
  match m.construct C t with
  | (.error _, t') => t'.active = t.active
  | (.ok self, t') =>
    let after := With.exec (blocks C) body t'
    let left : Except (Exc ε) Unit × Thread ω := self.exit after.2
    left.1 = .ok () ∧ left.2.active = t.active ∧
      With.exec (blocks C) (.block m body) t = (after.1, left.2)

/-- `_check_backend` raises, so that the block is not entered. -/
def Refused (m : Manager ω) : Prop :=
  ∃ e, C.checkBackend m.args.backend m.args.innerMaxNumThreads m.args.backendParams = .error e

theorem exit_raises (self : ContextManager ω) (t : Thread ω) :
    ∃ message, (self.exit t : Except (Exc ε) Unit × Thread ω) = (.error (.attributeError message), t) :=
  ⟨_, rfl⟩

variable {C}

/-- An entered block, whatever its body does, raises and stays in force. -/
theorem exec_entered {m : Manager ω} {t : Thread ω} (h : t.Full) (hentered : ¬ Refused C m)
    (body : With.Program (Manager ω) (Exc ε)) :
    ∃ message, With.exec (blocks C) (.block m body) t =
      (.error (.attributeError message),
        (With.exec (blocks C) body (t.install t.configRef (m.args.given m.args.backend))).2) := by
  rcases construct_cases C m h with ⟨e, herror, _⟩ | ⟨_, self, hconstruct⟩
  · exact absurd ⟨e, herror⟩ hentered
  · obtain ⟨message, hexit⟩ := exit_raises (ε := ε) self
      (With.exec (blocks C) body (t.install t.configRef (m.args.given m.args.backend))).2
    refine ⟨message, ?_⟩
    have hconstruct : (blocks C).construct m t = _ := hconstruct
    have hleave : (blocks C).leave self _ = _ := hexit
    simp only [With.exec, hconstruct, hleave]

/-- One block. -/
theorem restores_iff_refused (m : Manager ω) (body : With.Program (Manager ω) (Exc ε)) {t : Thread ω}
    (h : t.Full) : Restores C t m body ↔ Refused C m := by
  unfold Restores
  rcases construct_cases C m h with ⟨e, herror, hconstruct⟩ | ⟨hok, self, hconstruct⟩
  · rw [hconstruct]
    exact ⟨fun _ => ⟨e, herror⟩, fun _ => rfl⟩
  · rw [hconstruct]
    constructor
    · rintro ⟨hleft, _⟩
      cases hleft
    · rintro ⟨e, herror⟩
      rw [hok] at herror
      cases herror

variable (C) in
/-- **Along any nesting of blocks, each is left as documented exactly when none was
entered.** -/
theorem each_restores_iff (p : With.Program (Manager ω) (Exc ε)) :
    With.Each (blocks C) (Restores C) p .new ↔ With.Each (blocks C) (fun _ m _ => Refused C m) p .new :=
  With.each_congr (blocks_full C) (fun _ m body h => restores_iff_refused m body h) p Thread.new_full

/-- `with parallel_config(n_jobs=2): pass`. -/
def twoJobs : With.Program (Manager Empty) (Exc Empty) :=
  .block (.parallelConfig {Arguments.none with nJobs := .value (.int 2)}) .pass

/-- It raises, and `n_jobs` is two from then on. -/
theorem twoJobs_stays : ¬ With.Each (blocks (.lenient Empty Empty)) (Restores (.lenient Empty Empty)) twoJobs .new ∧
    (With.exec (blocks (.lenient Empty Empty)) twoJobs .new).1 =
      .error (.attributeError "'parallel_config' object has no attribute 'unregister'") ∧
    (With.exec (blocks (.lenient Empty Empty)) twoJobs .new).2.active .nJobs = some (.value (.int 2)) := by
  refine ⟨?_, rfl, rfl⟩
  rintro ⟨⟨hleft, _⟩, _⟩
  cases hleft

end Joblib
