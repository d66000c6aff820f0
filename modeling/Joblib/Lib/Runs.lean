import Mathlib.Data.List.Basic

/-! Runs of a partial step function on labelled actions.

`run` takes the actions one after another; an action that is not enabled ends
the run. `Every step Q` says that each step of the run satisfies `Q`; of a given
run a Boolean test of its steps may settle it (`Every.of_checks`). An
invariant that survives the steps a guard allows holds along every guarded run
(`guarded_run`), a potential that each of them lowers bounds its length
(`length_le`), and under an invariant a condition on steps can be traded for
another that agrees with it on the invariant's states (`every_congr`). -/
namespace Runs

variable {σ A : Type} (step : σ → A → Option σ)

def run : σ → List A → Option σ
  | s, [] => some s
  | s, a :: rest => (step s a).bind fun t => run t rest

def Every (Q : σ → A → σ → Prop) : σ → List A → Prop
  | _, [] => True
  | s, a :: rest => ∀ t, step s a = some t → Q s a t ∧ Every Q t rest

/-- Whether each step of the run passes a test of the state before it and the action. -/
def checks (test : σ → A → Bool) : σ → List A → Bool
  | _, [] => true
  | s, a :: rest =>
    match step s a with
    | none => true
    | some t => test s a && checks test t rest

variable {step}

theorem run_cons {s t : σ} {a : A} {rest : List A} (h : run step s (a :: rest) = some t) :
    ∃ s', step s a = some s' ∧ run step s' rest = some t :=
  Option.bind_eq_some_iff.mp h

theorem run_append (s : σ) (a b : List A) :
    run step s (a ++ b) = (run step s a).bind fun t => run step t b := by
  induction a generalizing s with
  | nil => rfl
  | cons x rest ih =>
    simp only [List.cons_append, run]
    cases step s x with
    | none => rfl
    | some t => exact ih t

/-- Where the first step is taken, it and the rest are all there is to check. -/
theorem Every.cons {Q : σ → A → σ → Prop} {s t : σ} {a : A} {as : List A} (ht : step s a = some t) (hq : Q s a t)
    (h : Every step Q t as) : Every step Q s (a :: as) := by
  intro t' ht'
  obtain rfl : t = t' := Option.some.inj (ht.symm.trans ht')
  exact ⟨hq, h⟩

/-- What a passed test implies every step satisfies. -/
theorem Every.of_checks {Q : σ → A → σ → Prop} (test : σ → A → Bool)
    (htest : ∀ s a t, test s a = true → step s a = some t → Q s a t) {s : σ} {as : List A}
    (h : checks step test s as = true) : Every step Q s as := by
  induction as generalizing s with
  | nil => trivial
  | cons a rest ih =>
    intro t ht
    simp only [checks, ht] at h
    obtain ⟨hthis, hrest⟩ := Bool.and_eq_true_iff.mp h
    exact ⟨htest s a t hthis ht, ih hrest⟩

theorem Every.of_forall_mem {Q : σ → A → σ → Prop} {as : List A} (h : ∀ s, ∀ a t, a ∈ as → Q s a t) (s : σ) :
    Every step Q s as := by
  induction as generalizing s with
  | nil => trivial
  | cons a rest ih =>
    intro t _
    exact ⟨h s a t (List.mem_cons_self ..), ih (fun s b t hb => h s b t (List.mem_cons_of_mem a hb)) t⟩

/-- Two conditions that every step satisfies are one. -/
theorem Every.and {Q Q' : σ → A → σ → Prop} {s : σ} {as : List A} (h : Every step Q s as)
    (h' : Every step Q' s as) : Every step (fun s a t => Q s a t ∧ Q' s a t) s as := by
  induction as generalizing s with
  | nil => trivial
  | cons a rest ih =>
    intro t ht
    obtain ⟨hq, hrest⟩ := h t ht
    obtain ⟨hq', hrest'⟩ := h' t ht
    exact ⟨⟨hq, hq'⟩, ih hrest hrest'⟩

/-- A condition on the actions alone may be added to one on the steps. -/
theorem Every.and_forall {Q : σ → A → σ → Prop} {P : A → Prop} {s : σ} {as : List A}
    (h : Every step Q s as) (hp : ∀ a ∈ as, P a) : Every step (fun s a t => P a ∧ Q s a t) s as := by
  induction as generalizing s with
  | nil => trivial
  | cons a rest ih =>
    intro t ht
    obtain ⟨hq, hrest⟩ := h t ht
    exact ⟨⟨hp a (List.mem_cons_self ..), hq⟩, ih hrest fun b hb => hp b (List.mem_cons_of_mem a hb)⟩

/-- Two conditions on the parts of a run are one on the whole. -/
theorem Every.append {Q : σ → A → σ → Prop} {s : σ} {as bs : List A} (ha : Every step Q s as)
    (hb : ∀ t, run step s as = some t → Every step Q t bs) : Every step Q s (as ++ bs) := by
  induction as generalizing s with
  | nil => exact hb s rfl
  | cons a rest ih =>
    intro t ht
    obtain ⟨hq, hrest⟩ := ha t ht
    refine ⟨hq, ih hrest fun u hu => hb u ?_⟩
    simp only [run, ht]
    exact hu

/-- What every step satisfies, the last one does. -/
theorem Every.last {Q : σ → A → σ → Prop} {s t u : σ} {as : List A} {a : A}
    (h : Every step Q s (as ++ [a])) (hrun : run step s as = some t) (hstep : step t a = some u) :
    Q t a u := by
  induction as generalizing s with
  | nil =>
    obtain rfl : s = t := Option.some.inj hrun
    exact (h u hstep).1
  | cons x rest ih =>
    obtain ⟨s', hs', hrest⟩ := run_cons hrun
    exact ih (h s' hs').2 hrest

/-- **Invariance under a guard.** -/
theorem guarded_run {I : σ → Prop} {G : σ → A → σ → Prop}
    (hstep : ∀ s a t, I s → step s a = some t → G s a t → I t) {s t : σ} {as : List A}
    (hs : I s) (hg : Every step G s as) (h : run step s as = some t) : I t := by
  induction as generalizing s with
  | nil =>
    obtain rfl : s = t := Option.some.inj h
    exact hs
  | cons a rest ih =>
    obtain ⟨s', hs', hrest⟩ := run_cons h
    obtain ⟨hguard, hg'⟩ := hg s' hs'
    exact ih (hstep s a s' hs hs' hguard) hg' hrest

/-- **A potential that every step lowers bounds the run.** -/
theorem length_le {I : σ → Prop} {G : σ → A → σ → Prop} {potential : σ → Nat}
    (hstep : ∀ s a t, I s → step s a = some t → G s a t → I t ∧ potential t < potential s) {s t : σ} {as : List A}
    (hs : I s) (hg : Every step G s as) (h : run step s as = some t) : as.length + potential t ≤ potential s := by
  induction as generalizing s with
  | nil =>
    obtain rfl : s = t := Option.some.inj h
    exact Nat.le_of_eq (Nat.zero_add _)
  | cons a rest ih =>
    obtain ⟨s', hs', hrest⟩ := run_cons h
    obtain ⟨hguard, hg'⟩ := hg s' hs'
    obtain ⟨hinv, hless⟩ := hstep s a s' hs hs' hguard
    have hbound := ih hinv hg' hrest
    simp only [List.length_cons]
    omega

/-- What the guarded steps satisfy, every step of a guarded run does. -/
theorem every_of_guarded {I : σ → Prop} {G Q : σ → A → σ → Prop}
    (hstep : ∀ s a t, I s → step s a = some t → G s a t → I t ∧ Q s a t) {s : σ} (hs : I s) {as : List A}
    (hg : Every step G s as) : Every step Q s as := by
  induction as generalizing s with
  | nil => trivial
  | cons a rest ih =>
    intro t ht
    obtain ⟨hguard, hg'⟩ := hg t ht
    obtain ⟨hinv, hq⟩ := hstep s a t hs ht hguard
    exact ⟨hq, ih hinv hg'⟩

/-- Two conditions on steps that agree from the states of an invariant agree along every
run that starts in it, if the steps that satisfy them keep it. -/
theorem every_iff {I : σ → Prop} {Q Q' : σ → A → σ → Prop}
    (hinv : ∀ s a t, I s → step s a = some t → Q' s a t → I t)
    (hcongr : ∀ s a t, I s → step s a = some t → (Q s a t ↔ Q' s a t)) {s : σ} (hs : I s)
    (as : List A) : Every step Q s as ↔ Every step Q' s as := by
  induction as generalizing s with
  | nil => exact Iff.rfl
  | cons a rest ih =>
    constructor
    · intro h t ht
      obtain ⟨hq, hrest⟩ := h t ht
      have hq' := (hcongr s a t hs ht).mp hq
      exact ⟨hq', (ih (hinv s a t hs ht hq')).mp hrest⟩
    · intro h t ht
      obtain ⟨hq', hrest⟩ := h t ht
      exact ⟨(hcongr s a t hs ht).mpr hq', (ih (hinv s a t hs ht hq')).mpr hrest⟩

/-- So they do if every step keeps it. -/
theorem every_congr {I : σ → Prop} {Q Q' : σ → A → σ → Prop}
    (hinv : ∀ s a t, I s → step s a = some t → I t)
    (hcongr : ∀ s a t, I s → step s a = some t → (Q s a t ↔ Q' s a t)) {s : σ} (hs : I s)
    (as : List A) : Every step Q s as ↔ Every step Q' s as :=
  every_iff (fun s a t hs ht _ => hinv s a t hs ht) hcongr hs as

end Runs
