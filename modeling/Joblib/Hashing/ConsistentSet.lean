import Mathlib.Data.String.Basic
import Joblib.Lib.ComparisonSort

/-! `_ConsistentSet`: a set brought into one order, so that its hash is always the same.

The elements are sorted; where a comparison raises, their hashes are. Python's `sorted` is
any stable comparison sort. The order of enumeration then does not matter exactly if `<` is
a total order on the set and never raises, or if in every order of enumeration the
comparisons that do not raise leave the result open, so that every sort raises
(`orderIndependent_iff`). A partial order that never raises, as inclusion of frozensets,
is neither. -/
namespace Joblib.Hashing
open ComparisonSort

/-- What a comparison raises. -/
inductive Raised where
  | typeError
  | invalidOperation
  | other
deriving DecidableEq

/-- `except (TypeError, decimal.InvalidOperation)`. -/
def Raised.caught : Raised → Bool
  | .typeError => true
  | .invalidOperation => true
  | .other => false

/-- `_sequence`. -/
inductive Sequence (E : Type) where
  | items (elements : List E)
  | hashes (digests : List String)

variable {E : Type}

/-- `<` of strings. -/
def lessString (a b : String) : Except Raised Bool := .ok (decide (a < b))

/-- `_ConsistentSet.__init__`. -/
def ConsistentSet.init (S : StableSort) (hash : E → String) (lt : E → E → Except Raised Bool)
    (setSequence : List E) : Except Raised (Sequence E) :=
  match S.sorted lt setSequence with
  | .ok sequence => .ok (.items sequence)
  | .error e =>
    if e.caught then (S.sorted lessString (setSequence.map hash)).map .hashes else .error e

/-- `<` of the elements, which raises nothing but what is caught. -/
structure Comparison (E : Type) where
  lt : E → E → Except Raised Bool
  caught : ∀ x y e, lt x y = .error e → e.caught = true

/-- The list has the elements of the set, each once. -/
def Enumerates (order : List E) (elems : Finset E) : Prop := (order : Multiset E) = elems.val

/-- Two enumerations give the same sequence. -/
def OrderIndependent (S : StableSort) (hash : E → String) (C : Comparison E) (elems : Finset E) : Prop :=
  ∀ order₁ order₂, Enumerates order₁ elems → Enumerates order₂ elems →
    ∃ sequence, ConsistentSet.init S hash C.lt order₁ = .ok sequence ∧
      ConsistentSet.init S hash C.lt order₂ = .ok sequence

/-- `<` is a strict total order on the set, and raises between no two elements. -/
structure TotalOn (C : Comparison E) (elems : Finset E) : Prop where
  connected : ∀ x ∈ elems, ∀ y ∈ elems, x ≠ y → C.lt x y = .ok true ∨ C.lt y x = .ok true
  asymm : ∀ x ∈ elems, ∀ y ∈ elems, x ≠ y → C.lt x y = .ok true → C.lt y x = .ok false
  trans : ∀ x ∈ elems, ∀ y ∈ elems, ∀ z ∈ elems, x ≠ y → y ≠ z → x ≠ z →
    C.lt x y = .ok true → C.lt y z = .ok true → C.lt x z = .ok true

/-- The comparisons that do not raise leave open how a stable sort orders the list. -/
def Open (C : Comparison E) (order : List E) : Prop :=
  Undetermined fun i j : Fin order.length => C.lt (order.get i) (order.get j)

section Enumerations
variable {elems : Finset E} {order order₁ order₂ : List E}

theorem Enumerates.nodup (h : Enumerates order elems) : order.Nodup := by
  have := elems.nodup
  rwa [← h] at this

theorem Enumerates.mem (h : Enumerates order elems) {x : E} : x ∈ order ↔ x ∈ elems := by
  rw [← Finset.mem_val, ← h]
  rfl

theorem Enumerates.perm (h₁ : Enumerates order₁ elems) (h₂ : Enumerates order₂ elems) : order₁.Perm order₂ :=
  Multiset.coe_eq_coe.mp (h₁.trans h₂.symm)

/-- A rearranged enumeration is one. -/
theorem Enumerates.comp_perm (h : Enumerates order elems) (π : Equiv.Perm (Fin order.length)) :
    Enumerates (List.ofFn (order.get ∘ π)) elems := by
  have hperm : (List.ofFn (order.get ∘ π)).Perm order := by
    have := π.ofFn_comp_perm order.get
    rwa [List.ofFn_get] at this
  exact (Multiset.coe_eq_coe.mpr hperm).trans h

end Enumerations

/-! ### Where the order does not matter -/

section Independence
variable (S : StableSort) (hash : E → String) {C : Comparison E} {elems : Finset E} {order₁ order₂ : List E}

open Classical in
/-- The answer of `<`, nothing being less than itself. -/
noncomputable def Comparison.less (C : Comparison E) (x y : E) : Bool := decide (x ≠ y ∧ C.lt x y = .ok true)

theorem Comparison.less_iff {x y : E} (h : x ≠ y) : C.less x y = true ↔ C.lt x y = .ok true := by
  simp [Comparison.less, h]

theorem Comparison.less_self (x : E) : C.less x x = false := by
  simp [Comparison.less]

/-- A comparison that answers answers what `less` says. -/
theorem Comparison.lt_eq {x y : E} (h : x ≠ y) {b : Bool} (hlt : C.lt x y = .ok b) : C.lt x y = .ok (C.less x y) := by
  cases b with
  | true => rw [(Comparison.less_iff h).mpr hlt, hlt]
  | false =>
    cases hless : C.less x y with
    | true => rw [(Comparison.less_iff h).mp hless]
    | false => exact hlt

theorem TotalOn.lt_eq (h : TotalOn C elems) {x y : E} (hx : x ∈ elems) (hy : y ∈ elems) (hne : x ≠ y) :
    C.lt x y = .ok (C.less x y) := by
  rcases h.connected x hx y hy hne with hlt | hgt
  · exact Comparison.lt_eq hne hlt
  · exact Comparison.lt_eq hne (h.asymm y hy x hx hne.symm hgt)

theorem TotalOn.weak (h : TotalOn C elems) {n : Nat} {f : Fin n → E} (hf : ∀ i, f i ∈ elems) :
    Weak fun i j => C.less (f i) (f j) := by
  have hne {x y : E} (hless : C.less x y = true) : x ≠ y := by
    rintro rfl
    rw [Comparison.less_self] at hless
    cases hless
  constructor
  · intro i j hless
    have hij := hne hless
    have hgt := h.asymm _ (hf i) _ (hf j) hij ((Comparison.less_iff hij).mp hless)
    exact Except.ok.inj ((h.lt_eq (hf j) (hf i) hij.symm).symm.trans hgt)
  · intro i j k hless
    have hik := hne hless
    by_cases hij : f i = f j
    · right
      rwa [← hij]
    · by_cases hjk : f j = f k
      · left
        rwa [hjk]
      · rcases h.connected _ (hf i) _ (hf j) hij with hlt | hgt
        · exact .inl ((Comparison.less_iff hij).mpr hlt)
        · right
          rw [Comparison.less_iff hjk]
          exact h.trans _ (hf j) _ (hf i) _ (hf k) (Ne.symm hij) hik hjk hgt ((Comparison.less_iff hik).mp hless)

/-- Hashes are strings, which are totally ordered: they are sorted to one list. -/
theorem sorted_hashes (h : (order₁.map hash).Perm (order₂.map hash)) :
    ∃ digests, S.sorted lessString (order₁.map hash) = .ok digests ∧
      S.sorted lessString (order₂.map hash) = .ok digests := by
  have hweak {n : Nat} (f : Fin n → String) : Weak fun i j => decide (f i < f j) := by
    constructor
    · intro i j hlt
      exact decide_eq_false (lt_asymm (of_decide_eq_true hlt))
    · intro i j k hlt
      rcases lt_or_ge (f i) (f j) with hij | hji
      · exact .inl (decide_eq_true hij)
      · exact .inr (decide_eq_true (lt_of_le_of_lt hji (of_decide_eq_true hlt)))
  rw [← List.ofFn_get (order₁.map hash), ← List.ofFn_get (order₂.map hash)] at h ⊢
  exact S.sorted_unique lessString (fun a b => decide (a < b)) h (fun _ _ _ => rfl) (fun _ _ _ => rfl) (hweak _)
    (hweak _) fun i j hij hji =>
      le_antisymm (not_lt.mp (of_decide_eq_false hji)) (not_lt.mp (of_decide_eq_false hij))

/-- A total order that never raises. -/
theorem TotalOn.orderIndependent (h : TotalOn C elems) : OrderIndependent S hash C elems := by
  intro order₁ order₂ h₁ h₂
  have hmem {order : List E} (horder : Enumerates order elems) (i : Fin order.length) : order.get i ∈ elems :=
    horder.mem.mp (List.get_mem ..)
  have hanswers {order : List E} (horder : Enumerates order elems) (i j : Fin order.length) (hij : i ≠ j) :
      C.lt (order.get i) (order.get j) = .ok (C.less (order.get i) (order.get j)) :=
    h.lt_eq (hmem horder i) (hmem horder j) fun heq => hij (horder.nodup.injective_get heq)
  have htotal (i j : Fin order₁.length) (hij : C.less (order₁.get i) (order₁.get j) = false)
      (hji : C.less (order₁.get j) (order₁.get i) = false) : order₁.get i = order₁.get j := by
    by_contra hne
    rcases h.connected _ (hmem h₁ i) _ (hmem h₁ j) hne with hlt | hgt
    · rw [(Comparison.less_iff hne).mpr hlt] at hij
      cases hij
    · rw [(Comparison.less_iff (Ne.symm hne)).mpr hgt] at hji
      cases hji
  have hperm : (List.ofFn order₁.get).Perm (List.ofFn order₂.get) := by
    rw [List.ofFn_get, List.ofFn_get]
    exact h₁.perm h₂
  obtain ⟨sequence, hfirst, hsecond⟩ := S.sorted_unique C.lt C.less hperm (hanswers h₁) (hanswers h₂)
    (h.weak (hmem h₁)) (h.weak (hmem h₂)) htotal
  rw [List.ofFn_get] at hfirst hsecond
  exact ⟨.items sequence, by simp [ConsistentSet.init, hfirst], by simp [ConsistentSet.init, hsecond]⟩

/-- Where the sort raises, the hashes are sorted. -/
theorem init_of_error {order : List E} {e : Raised} (h : S.sorted C.lt order = .error e) :
    ConsistentSet.init S hash C.lt order = (S.sorted lessString (order.map hash)).map .hashes := by
  obtain ⟨x, y, hlt⟩ := S.error_of_sorted h
  simp [ConsistentSet.init, h, C.caught x y e hlt]

/-- Every enumeration leaves the result open. -/
theorem orderIndependent_of_open (h : ∀ order, Enumerates order elems → Open C order) :
    OrderIndependent S hash C elems := by
  intro order₁ order₂ h₁ h₂
  have hraises {order : List E} (horder : Enumerates order elems) : ∃ e, S.sorted C.lt order = .error e := by
    obtain ⟨e, he⟩ := raises_of_undetermined S (h order horder)
    exact ⟨e, by rw [StableSort.sorted, he]; rfl⟩
  obtain ⟨_, he₁⟩ := hraises h₁
  obtain ⟨_, he₂⟩ := hraises h₂
  obtain ⟨digests, hfirst, hsecond⟩ := sorted_hashes S hash ((h₁.perm h₂).map hash)
  refine ⟨.hashes digests, ?_, ?_⟩
  · rw [init_of_error S hash he₁, hfirst]
    rfl
  · rw [init_of_error S hash he₂, hsecond]
    rfl

end Independence

/-! ### Where it does -/

section Dependence
variable {hash : E → String} {C : Comparison E} {elems : Finset E} {order : List E}

/-- Elements that are sorted from one enumeration and hashed from another are told apart. -/
theorem not_orderIndependent_of_error {S : StableSort} {order' : List E} {sequence : List E} {e : Raised}
    (h : Enumerates order elems) (h' : Enumerates order' elems) (hok : S.sorted C.lt order = .ok sequence)
    (herror : S.sorted C.lt order' = .error e) : ¬ OrderIndependent S hash C elems := by
  intro hsame
  obtain ⟨result, hfirst, hsecond⟩ := hsame order order' h h'
  rw [init_of_error S hash herror] at hsecond
  simp only [ConsistentSet.init, hok] at hfirst
  cases hfirst
  cases hsorted : S.sorted lessString (order'.map hash) with
  | ok digests => rw [hsorted] at hsecond; cases hsecond
  | error _ => rw [hsorted] at hsecond; cases hsecond

theorem OrderIndependent.sorted_eq {S : StableSort} {order' : List E} {xs ys : List E}
    (h : OrderIndependent S hash C elems) (horder : Enumerates order elems) (horder' : Enumerates order' elems)
    (hxs : S.sorted C.lt order = .ok xs) (hys : S.sorted C.lt order' = .ok ys) : xs = ys := by
  obtain ⟨result, hfirst, hsecond⟩ := h order order' horder horder'
  simp only [ConsistentSet.init, hxs] at hfirst
  simp only [ConsistentSet.init, hys] at hsecond
  cases hfirst
  cases hsecond
  rfl

/-- A permutation that takes two places to two others. -/
theorem exists_perm {n : Nat} {i j a b : Fin n} (hij : i ≠ j) (hab : a ≠ b) :
    ∃ π : Equiv.Perm (Fin n), π i = a ∧ π j = b := by
  refine ⟨(Equiv.swap j ((Equiv.swap i a).symm b)).trans (Equiv.swap i a), ?_, ?_⟩
  · have hne : i ≠ (Equiv.swap i a).symm b := fun heq => hab <| by
      have := congrArg (Equiv.swap i a) heq
      simpa using this
    show Equiv.swap i a (Equiv.swap j _ i) = a
    rw [Equiv.swap_apply_of_ne_of_ne hij hne, Equiv.swap_apply_left]
  · simp

/-- If a comparison raises and some enumeration does not leave the result open, some sort
succeeds on that enumeration and raises on another. -/
theorem dependent_of_raises (hash : E → String) (horder : Enumerates order elems) (hclosed : ¬ Open C order) {x y : E} (hx : x ∈ elems)
    (hy : y ∈ elems) (hne : x ≠ y) {e : Raised} (hraises : C.lt x y = .error e) :
    ∃ S, ¬ OrderIndependent S hash C elems := by
  obtain ⟨a, rfl⟩ := List.mem_iff_get.mp (horder.mem.mpr hx)
  obtain ⟨b, rfl⟩ := List.mem_iff_get.mp (horder.mem.mpr hy)
  have hab : a ≠ b := fun heq => hne (by rw [heq])
  obtain ⟨i, j, hij, hanswer⟩ : ∃ i j : Fin order.length, i ≠ j ∧ ∃ v, C.lt (order.get i) (order.get j) = .ok v := by
    by_contra hsilent
    exact hclosed (undetermined_of_silent hab fun i j v hij hcmp => hsilent ⟨i, j, hij, v, hcmp⟩)
  obtain ⟨S, ⟨sequence, hrun⟩, hfirst⟩ := exists_of_determined hclosed hij hanswer
  obtain ⟨π, hi, hj⟩ := exists_perm hij hab
  obtain ⟨e', he'⟩ := hfirst (fun i j => C.lt ((order.get ∘ π) i) ((order.get ∘ π) j)) e (by
    show C.lt (order.get (π i)) (order.get (π j)) = .error e
    rw [hi, hj]
    exact hraises)
  have hok : S.sorted C.lt order = .ok (sequence.map order.get) := by
    rw [StableSort.sorted, hrun]
    rfl
  have herror : S.sorted C.lt (List.ofFn (order.get ∘ π)) = .error e' := by
    rw [StableSort.sorted_ofFn, he']
    rfl
  exact ⟨S, not_orderIndependent_of_error horder (horder.comp_perm π) hok herror⟩

section Answers
variable (hanswers : ∀ i j : Fin order.length, i ≠ j →
  C.lt (order.get i) (order.get j) = .ok (C.less (order.get i) (order.get j)))
include hanswers

/-- Comparisons that never raise and are no strict weak order leave some sort with what it was
given. -/
theorem weak_of_independent (horder : Enumerates order elems) (h : ∀ S, OrderIndependent S hash C elems) :
    Weak fun i j : Fin order.length => C.less (order.get i) (order.get j) := by
  by_contra hweak
  obtain ⟨i, j, hij⟩ : ∃ i j : Fin order.length, i ≠ j := by
    by_contra hone
    have hsame (i j : Fin order.length) : i = j := by
      by_contra hij
      exact hone ⟨i, j, hij⟩
    refine hweak ⟨fun a b hless => ?_, fun a b c hless => ?_⟩
    · rw [hsame a b, Comparison.less_self] at hless
      cases hless
    · rw [hsame a c, Comparison.less_self] at hless
      cases hless
  have hanswers' (a b : Fin order.length) (hab : a ≠ b) :
      C.lt ((order.get ∘ Equiv.swap i j) a) ((order.get ∘ Equiv.swap i j) b) =
        .ok (C.less ((order.get ∘ Equiv.swap i j) a) ((order.get ∘ Equiv.swap i j) b)) :=
    hanswers _ _ fun heq => hab ((Equiv.swap i j).injective heq)
  have hweak' : ¬ Weak fun a b => C.less ((order.get ∘ Equiv.swap i j) a) ((order.get ∘ Equiv.swap i j) b) := by
    intro hswapped
    have hback := hswapped.comap (Equiv.swap i j)
    simp only [Function.comp_apply, Equiv.swap_apply_self] at hback
    exact hweak hback
  have hfirst := StableSort.full_sorted_of_not_weak hanswers Comparison.less_self hweak
  have hsecond := StableSort.full_sorted_of_not_weak hanswers' Comparison.less_self hweak'
  rw [List.ofFn_get] at hfirst
  have heq := (h .full).sorted_eq horder (horder.comp_perm (Equiv.swap i j)) hfirst hsecond
  have hswap : order.get = order.get ∘ Equiv.swap i j := List.ofFn_injective ((List.ofFn_get order).trans heq)
  have hget : order.get i = order.get j := by
    have := congrFun hswap i
    simpa using this
  exact hij (horder.nodup.injective_get hget)

/-- Two elements neither of which is less are told apart by the order they come in. -/
theorem connected_of_independent {S : StableSort} (h : OrderIndependent S hash C elems)
    (horder : Enumerates order elems) (hweak : Weak fun i j : Fin order.length => C.less (order.get i) (order.get j))
    {i j : Fin order.length} (hij : i ≠ j) :
    C.less (order.get i) (order.get j) = true ∨ C.less (order.get j) (order.get i) = true := by
  by_contra hnone
  have hless : C.less (order.get i) (order.get j) = false ∧ C.less (order.get j) (order.get i) = false := by
    simpa using hnone
  have hcontra {a b : Fin order.length} (hlow : a < b) (hab : C.less (order.get a) (order.get b) = false)
      (hba : C.less (order.get b) (order.get a) = false) : False := by
    refine S.sorted_swap_ne horder.nodup.injective_get hanswers hweak hlow hab hba ?_
    have hanswers' (c d : Fin order.length) (hcd : c ≠ d) :
        C.lt ((order.get ∘ Equiv.swap a b) c) ((order.get ∘ Equiv.swap a b) d) =
          .ok (C.less ((order.get ∘ Equiv.swap a b) c) ((order.get ∘ Equiv.swap a b) d)) :=
      hanswers _ _ fun heq => hcd ((Equiv.swap a b).injective heq)
    obtain ⟨_, hfirst, _⟩ := S.sorted_of_weak hanswers hweak
    obtain ⟨_, hsecond, _⟩ := S.sorted_of_weak hanswers' (hweak.comap (Equiv.swap a b))
    rw [hfirst, hsecond]
    rw [List.ofFn_get] at hfirst
    rw [h.sorted_eq horder (horder.comp_perm (Equiv.swap a b)) hfirst hsecond]
  rcases lt_or_gt_of_ne hij with hlow | hhigh
  · exact hcontra hlow hless.1 hless.2
  · exact hcontra hhigh hless.2 hless.1

end Answers

end Dependence

/-! Two frozensets, neither a subset of the other. -/

/-- `<` of frozensets: inclusion. -/
def inclusion : Comparison (Finset Nat) where
  lt a b := .ok (decide (a ⊂ b))
  caught _ _ _ h := by cases h

def oneAndTwo : List (Finset Nat) := [{1}, {2}]

end Joblib.Hashing
