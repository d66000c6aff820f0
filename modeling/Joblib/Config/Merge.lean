import Mathlib.Data.List.GetD
import Joblib.Config.Restore
import Joblib.Config.Resolution

/-! Nested configurations.

Each block updates a copy of the configuration it finds with the values it is given, so the
configuration in force has for each parameter the innermost value given (`enter_merges`).
The copy is a new dictionary and the update changes no other (`install_eq`): the
dictionaries made before stay as they are, `default_parallel_config` the first of them
(`Thread.Frame`). -/
namespace Joblib

namespace Thread
variable {ω : Type}

/-- `d.copy()`: a new dictionary with the entries of another. -/
def copy (t : Thread ω) (old : Nat) : Thread ω := {t with dicts := t.dicts ++ [t.dict old]}

/-- `d.update(new)`, in place. -/
def updateDict (t : Thread ω) (ref : Nat) (new : Config ω) : Thread ω :=
  {t with dicts := t.dicts.set ref ((t.dict ref).update new)}

/-- `setattr(_backend, 'config', d)`. -/
def setConfig (t : Thread ω) (ref : Nat) : Thread ω := {t with config := some ref}

/-- What a construction does to the dictionaries, statement by statement. -/
theorem install_eq (t : Thread ω) (old : Nat) (new : Config ω) :
    t.install old new = (((t.copy old).updateDict t.dicts.length new).setConfig t.dicts.length) := by
  have hcopied : (t.copy old).dict t.dicts.length = t.dict old := by simp [copy, dict]
  simp [install, setConfig, updateDict, hcopied]
  simp [copy]

/-- The dictionaries of `t` are those of `t'`, which may have more. -/
structure Frame (t t' : Thread ω) : Prop where
  dicts : t.dicts <+: t'.dicts

theorem Frame.refl (t : Thread ω) : Frame t t := ⟨List.prefix_refl _⟩

theorem Frame.trans {t₀ t₁ t₂ : Thread ω} (h : Frame t₀ t₁) (h' : Frame t₁ t₂) : Frame t₀ t₂ :=
  ⟨h.dicts.trans h'.dicts⟩

theorem Frame.install (t : Thread ω) (old : Nat) (new : Config ω) : Frame t (t.install old new) :=
  ⟨List.prefix_append _ _⟩

/-- A dictionary that was there is unchanged. -/
theorem Frame.dict {t t' : Thread ω} (h : Frame t t') {ref : Nat} (href : ref < t.dicts.length) :
    t'.dict ref = t.dict ref := by
  obtain ⟨later, hlater⟩ := h.dicts
  show t'.dicts.getD ref _ = t.dicts.getD ref _
  rw [← hlater, List.getD_append _ _ _ _ href]

theorem Frame.lt {t t' : Thread ω} (h : Frame t t') {ref : Nat} (href : ref < t.dicts.length) :
    ref < t'.dicts.length := lt_of_lt_of_le href h.dicts.length_le

/-- The first dictionary is `default_parallel_config`, and the one in force is among them. -/
structure Sound (t : Thread ω) : Prop where
  default : t.dict 0 = defaultParallelConfig
  nonempty : 0 < t.dicts.length
  config : t.configRef < t.dicts.length

theorem new_sound : (Thread.new : Thread ω).Sound := ⟨rfl, Nat.one_pos, Nat.one_pos⟩

theorem Sound.install {t : Thread ω} (h : t.Sound) (new : Config ω) : (t.install t.configRef new).Sound where
  default := ((Frame.install t _ new).dict h.nonempty).trans h.default
  nonempty := (Frame.install t _ new).lt h.nonempty
  config := by
    show t.dicts.length < (t.dicts ++ [_]).length
    simp

/-- The configuration installed is the one found, updated. -/
theorem install_active (t : Thread ω) (new : Config ω) :
    (t.install t.configRef new).active = t.active.update new := by
  show (t.dicts ++ [t.active.update new]).getD t.dicts.length _ = _
  simp

end Thread

/-- The `parallel_config` part of a block's object. -/
def ContextManager.block {ω : Type} : ContextManager ω → ParallelConfig
  | .parallelConfig self => self
  | .parallelBackend self => self.toParallelConfig

section Merge
variable {ω ε : Type} {C : CheckBackend ω ε}

/-- What is given replaces what is there. -/
theorem update_given (config : Config ω) (args : Arguments ω) (backend : Setting ω) (key : Key) :
    config.update (args.given backend) key =
      ((args.newConfig backend key).given.map Setting.value <|> config key) := by
  unfold Config.update Arguments.given
  cases args.newConfig backend key <;> rfl

theorem innermost_cons (m : Manager ω) (managers : List (Manager ω)) (key : Key) :
    innermost (m :: managers) key =
      (innermost managers key <|> (m.args.newConfig m.args.backend key).given) := by
  unfold innermost
  rw [List.reverse_cons, List.findSome?_append]
  cases hgiven : (m.args.newConfig m.args.backend key).given <;> simp [hgiven]

/-- One construction: the object keeps where the configuration found and its own are. -/
theorem construct_installs {m : Manager ω} {t : Thread ω} (h : t.Full) (haccepted : ¬ Refused C m) :
    ∃ self, m.construct C t = (.ok self, t.install t.configRef (m.args.given m.args.backend)) ∧
      self.block = ⟨t.configRef, t.dicts.length⟩ := by
  rcases construct_cases C m h with ⟨e, herror, _⟩ | ⟨hok, self, hconstruct⟩
  · exact absurd ⟨e, herror⟩ haccepted
  · refine ⟨self, hconstruct, ?_⟩
    cases m with
    | parallelConfig args =>
      have hok : C.checkBackend args.backend args.innerMaxNumThreads args.backendParams = .ok args.backend := hok
      simp only [Manager.construct, ParallelConfig.init, hok] at hconstruct
      obtain rfl := Except.ok.inj (congrArg Prod.fst hconstruct)
      rfl
    | parallelBackend args =>
      have hok : C.checkBackend args.backend args.innerMaxNumThreads args.backendParams = .ok args.backend := hok
      have hfull := h.install t.configRef (args.given args.backend)
      obtain ⟨old, hold⟩ := (hfull.dict t.configRef).backendAndJobs (ε := ε)
      obtain ⟨new, hnew⟩ := (hfull.dict t.dicts.length).backendAndJobs (ε := ε)
      simp only [Manager.construct, ParallelBackend.init, ParallelConfig.init, hok, hold, hnew] at hconstruct
      obtain rfl := Except.ok.inj (congrArg Prod.fst hconstruct)
      rfl

/-- Blocks that `_check_backend` accepts are entered; the configuration in force then has the
innermost values given over those found, and the dictionaries found are unchanged. -/
theorem enter_merges {managers : List (Manager ω)} {t : Thread ω} (hfull : t.Full) (hsound : t.Sound)
    (haccepted : ∀ m ∈ managers, ¬ Refused C m) :
    ∃ t', enter C managers t = .ok t' ∧ t'.Full ∧ t'.Sound ∧ t.Frame t' ∧
      ∀ key, t'.active key = ((innermost managers key).map Setting.value <|> t.active key) := by
  induction managers generalizing t with
  | nil => exact ⟨t, rfl, hfull, hsound, .refl t, fun _ => rfl⟩
  | cons m rest ih =>
    obtain ⟨self, hconstruct, _⟩ := construct_installs hfull (haccepted m (List.mem_cons_self ..))
    obtain ⟨t', henter, hfull', hsound', hframe, hactive⟩ :=
      ih (hfull.install t.configRef (m.args.given m.args.backend)) (hsound.install _)
        fun m hm => haccepted m (List.mem_cons_of_mem _ hm)
    refine ⟨t', ?_, hfull', hsound', (Thread.Frame.install t _ _).trans hframe, fun key => ?_⟩
    · simp only [enter, hconstruct]
      exact henter
    · rw [hactive key, Thread.install_active, update_given, innermost_cons]
      cases innermost rest key <;> rfl

theorem enter_append (outer inner : List (Manager ω)) (t : Thread ω) :
    enter C (outer ++ inner) t = enter C outer t >>= enter C inner := by
  induction outer generalizing t with
  | nil => rfl
  | cons m rest ih =>
    simp only [List.cons_append, enter]
    cases m.construct C t with
    | mk outcome t =>
      cases outcome with
      | error e => rfl
      | ok self => exact ih t

variable (ε) in
/-- A thread inside the blocks `managers`: the configuration in force is theirs merged, with the
keys of the default one, and none of theirs has been changed since it was made. -/
structure Merged (C : CheckBackend ω ε) (managers : List (Manager ω)) (t : Thread ω) : Prop where
  value : ∀ key, t.active key = some (((innermost managers key).map Setting.value).getD (defaultSetting key))
  keys : ∀ key, (t.active key).isSome = ((defaultParallelConfig : Config ω) key).isSome
  default : t.dict 0 = defaultParallelConfig
  enclosing : ∀ outer m inner, managers = outer ++ m :: inner → ∃ (found made : Thread ω) (self : ContextManager ω),
    enter C outer .new = .ok found ∧ m.construct C found = (.ok self, made) ∧ enter C inner made = .ok t ∧
      self.block.oldParallelConfig = found.configRef ∧ self.block.parallelConfig = made.configRef ∧
        t.dict self.block.oldParallelConfig = found.active ∧ t.dict self.block.parallelConfig = made.active

end Merge

end Joblib
