import Mathlib.Data.List.FinRange
import Mathlib.Data.List.Sort
import Mathlib.Data.Fintype.Prod
import Mathlib.Data.Fintype.Sets

/-! Stable comparison sorts.

A comparison sort of `n` elements is a strategy: it asks for two positions whether the
element at the one is less than that at the other, goes on as the answer says, and ends
with an order of the positions; a question that raises ends it. It is a stable sort if it
sorts stably whatever strict weak order the answers come from (`StableSort`). So it has to
ask where the answers that do not raise leave the result open (`raises_of_undetermined`),
and where they do not some stable sort asks nothing else (`exists_of_determined`). -/
namespace ComparisonSort

/-- A strict weak order. -/
structure Weak {α : Type} (lt : α → α → Bool) : Prop where
  asymm : ∀ a b, lt a b = true → lt b a = false
  cotrans : ∀ a b c, lt a c = true → lt a b = true ∨ lt b c = true

theorem Weak.irrefl {α : Type} {lt : α → α → Bool} (h : Weak lt) (a : α) : lt a a = false := by
  cases hlt : lt a a with
  | false => rfl
  | true => rw [h.asymm a a hlt] at hlt; cases hlt

/-- The pull-back of a strict weak order. -/
theorem Weak.comap {α β : Type} {lt : α → α → Bool} (h : Weak lt) (f : β → α) :
    Weak fun a b => lt (f a) (f b) :=
  ⟨fun a b => h.asymm (f a) (f b), fun a b c => h.cotrans (f a) (f b) (f c)⟩

variable {n : Nat} {ε : Type}

/-! ### Strategies -/

inductive Strategy (n : Nat) where
  | done (order : List (Fin n)) (perm : order.Perm (List.finRange n))
  | ask (i j : Fin n) (distinct : i ≠ j) (yes no : Strategy n)

namespace Strategy

/-- The strategy played against answers that may raise. -/
def run (cmp : Fin n → Fin n → Except ε Bool) : Strategy n → Except ε (List (Fin n))
  | .done order _ => .ok order
  | .ask i j _ yes no =>
    match cmp i j with
    | .error e => .error e
    | .ok true => yes.run cmp
    | .ok false => no.run cmp

/-- The strategy played against a relation. -/
def eval (lt : Fin n → Fin n → Bool) : Strategy n → List (Fin n)
  | .done order _ => order
  | .ask i j _ yes no => if lt i j then yes.eval lt else no.eval lt

end Strategy

/-- The answers that do not raise are those of the relation. -/
def Agrees (cmp : Fin n → Fin n → Except ε Bool) (lt : Fin n → Fin n → Bool) : Prop :=
  ∀ i j b, i ≠ j → cmp i j = .ok b → lt i j = b

/-- A run that does not raise ends as against any relation the answers agree with. -/
theorem eval_of_run {cmp : Fin n → Fin n → Except ε Bool} {lt : Fin n → Fin n → Bool} (h : Agrees cmp lt)
    {s : Strategy n} {order : List (Fin n)} (hrun : s.run cmp = .ok order) : s.eval lt = order := by
  induction s with
  | done found perm => exact Except.ok.inj hrun
  | ask i j distinct yes no ihyes ihno =>
    unfold Strategy.run at hrun
    cases hcmp : cmp i j with
    | error e => rw [hcmp] at hrun; cases hrun
    | ok b =>
      have hlt := h i j b distinct hcmp
      cases b with
      | true =>
        rw [hcmp] at hrun
        simp only [Strategy.eval, hlt, if_true]
        exact ihyes hrun
      | false =>
        rw [hcmp] at hrun
        simp only [Strategy.eval, hlt, Bool.false_eq_true, if_false]
        exact ihno hrun

/-- What a run raises, an answer raised. -/
theorem error_of_run {cmp : Fin n → Fin n → Except ε Bool} {s : Strategy n} {e : ε} (h : s.run cmp = .error e) :
    ∃ i j, cmp i j = .error e := by
  induction s with
  | done order perm => cases h
  | ask i j distinct yes no ihyes ihno =>
    unfold Strategy.run at h
    cases hcmp : cmp i j with
    | error e' =>
      rw [hcmp] at h
      cases h
      exact ⟨i, j, hcmp⟩
    | ok b =>
      rw [hcmp] at h
      cases b with
      | true => exact ihyes h
      | false => exact ihno h

/-- Against answers that never raise a run does not either. -/
theorem run_of_answers {cmp : Fin n → Fin n → Except ε Bool} {lt : Fin n → Fin n → Bool}
    (h : ∀ i j, i ≠ j → cmp i j = .ok (lt i j)) (s : Strategy n) : s.run cmp = .ok (s.eval lt) := by
  induction s with
  | done order perm => rfl
  | ask i j distinct yes no ihyes ihno =>
    unfold Strategy.run Strategy.eval
    rw [h i j distinct]
    cases lt i j with
    | true => exact ihyes
    | false => exact ihno

/-! ### Stability -/

/-- In the sorted result `i` comes before `j`: it is less, or neither is and it stood first. -/
def Before (lt : Fin n → Fin n → Bool) (i j : Fin n) : Prop := lt i j = true ∨ lt j i = false ∧ i < j

/-- The positions in the order of a stable sort. -/
structure Sorts (lt : Fin n → Fin n → Bool) (order : List (Fin n)) : Prop where
  perm : order.Perm (List.finRange n)
  before : order.Pairwise (Before lt)

section Before
variable {lt : Fin n → Fin n → Bool} (h : Weak lt)
include h

theorem Before.not_lt {i j : Fin n} (hb : Before lt i j) : lt j i = false := by
  rcases hb with hlt | ⟨hnot, _⟩
  · exact h.asymm i j hlt
  · exact hnot

theorem Before.antisymm {i j : Fin n} (hij : Before lt i j) (hji : Before lt j i) : i = j := by
  rcases hij with hlt | ⟨_, hlow⟩
  · rw [Before.not_lt h hji] at hlt
    cases hlt
  · rcases hji with hlt | ⟨_, hhigh⟩
    · rw [Before.not_lt h (.inr ⟨‹_›, hlow⟩)] at hlt
      cases hlt
    · omega

theorem Before.trans {i j k : Fin n} (hij : Before lt i j) (hjk : Before lt j k) : Before lt i k := by
  have hji := Before.not_lt h hij
  have hkj := Before.not_lt h hjk
  cases hik : lt i k with
  | true => exact .inl hik
  | false =>
    right
    constructor
    · cases hki : lt k i with
      | false => rfl
      | true =>
        rcases h.cotrans k j i hki with hlt | hlt
        · rw [hkj] at hlt; cases hlt
        · rw [hji] at hlt; cases hlt
    · -- neither step was a strict one, so both go up in position
      rcases hij with hlt | ⟨_, hlow⟩
      · rcases h.cotrans i k j hlt with hlt' | hlt'
        · rw [hik] at hlt'; cases hlt'
        · rw [hkj] at hlt'; cases hlt'
      · rcases hjk with hlt | ⟨_, hhigh⟩
        · rcases h.cotrans j i k hlt with hlt' | hlt'
          · rw [hji] at hlt'; cases hlt'
          · rw [hik] at hlt'; cases hlt'
        · exact hlow.trans hhigh

omit h in
theorem Before.total {i j : Fin n} (hne : i ≠ j) : Before lt i j ∨ Before lt j i := by
  cases hij : lt i j with
  | true => exact .inl (.inl hij)
  | false =>
    cases hji : lt j i with
    | true => exact .inr (.inl hji)
    | false =>
      rcases lt_or_gt_of_ne hne with hlow | hhigh
      · exact .inl (.inr ⟨hji, hlow⟩)
      · exact .inr (.inr ⟨hij, hhigh⟩)

/-- There is one stable order. -/
theorem Sorts.unique {o₁ o₂ : List (Fin n)} (h₁ : Sorts lt o₁) (h₂ : Sorts lt o₂) : o₁ = o₂ :=
  List.Perm.eq_of_pairwise (fun _ _ _ _ hab hba => Before.antisymm h hab hba) h₁.before h₂.before
    (h₁.perm.trans h₂.perm.symm)

end Before

open Classical in
/-- The order of a stable sort. -/
noncomputable def stableOrder (lt : Fin n → Fin n → Bool) : List (Fin n) :=
  (List.finRange n).mergeSort fun i j => decide (i = j ∨ Before lt i j)

theorem stableOrder_perm (lt : Fin n → Fin n → Bool) : (stableOrder lt).Perm (List.finRange n) :=
  List.mergeSort_perm _ _

theorem stableOrder_sorts {lt : Fin n → Fin n → Bool} (h : Weak lt) : Sorts lt (stableOrder lt) where
  perm := stableOrder_perm lt
  before := by
    classical
    have htrans (i j k : Fin n) (hij : decide (i = j ∨ Before lt i j) = true)
        (hjk : decide (j = k ∨ Before lt j k) = true) : decide (i = k ∨ Before lt i k) = true := by
      rcases of_decide_eq_true hij with rfl | hij
      · exact hjk
      · rcases of_decide_eq_true hjk with rfl | hjk
        · exact decide_eq_true (.inr hij)
        · exact decide_eq_true (.inr (Before.trans h hij hjk))
    have htotal (i j : Fin n) : (decide (i = j ∨ Before lt i j) || decide (j = i ∨ Before lt j i)) = true := by
      by_cases hne : i = j
      · simp [hne]
      · have hboth : Before lt i j ∨ Before lt j i := Before.total hne
        rcases hboth with hij | hji
        · simp [hij]
        · simp [hji]
    have hsorted : (stableOrder lt).Pairwise fun i j => i = j ∨ Before lt i j := by
      have hle := List.pairwise_mergeSort htrans htotal (List.finRange n)
      unfold stableOrder
      convert hle using 2
      simp
    have hnodup : (stableOrder lt).Pairwise (· ≠ ·) := (stableOrder_perm lt).nodup_iff.mpr (List.nodup_finRange n)
    exact (hsorted.and hnodup).imp fun hboth => hboth.1.resolve_left hboth.2

/-- A comparison sort that is right and stable on every strict weak order. -/
structure StableSort where
  strategy : ∀ n, Strategy n
  sorts : ∀ n (lt : Fin n → Fin n → Bool), Weak lt → Sorts lt ((strategy n).eval lt)

/-! ### Sorting a list -/

namespace StableSort
variable {E : Type} (S : StableSort)

/-- `sorted(xs)`. -/
def sorted (lt : E → E → Except ε Bool) (xs : List E) : Except ε (List E) :=
  ((S.strategy xs.length).run fun i j => lt (xs.get i) (xs.get j)).map (List.map xs.get)

theorem error_of_sorted {lt : E → E → Except ε Bool} {xs : List E} {e : ε} (h : S.sorted lt xs = .error e) :
    ∃ x y, lt x y = .error e := by
  unfold sorted at h
  cases hrun : (S.strategy xs.length).run fun i j => lt (xs.get i) (xs.get j) with
  | ok order => rw [hrun] at h; cases h
  | error e' =>
    rw [hrun] at h
    obtain ⟨i, j, hcmp⟩ := error_of_run hrun
    cases h
    exact ⟨_, _, hcmp⟩

/-- The same for a list given by its elements. -/
theorem sorted_ofFn (lt : E → E → Except ε Bool) (f : Fin n → E) :
    S.sorted lt (List.ofFn f) = ((S.strategy n).run fun i j => lt (f i) (f j)).map (List.map f) := by
  have hgeneral (xs : List E) (hlength : xs.length = n) (hget : ∀ i : Fin n, xs.get (i.cast hlength.symm) = f i) :
      S.sorted lt xs = ((S.strategy n).run fun i j => lt (f i) (f j)).map (List.map f) := by
    subst hlength
    have hf : f = xs.get := funext fun i => (hget i).symm
    rw [hf]
    rfl
  exact hgeneral _ List.length_ofFn fun i => by simp

/-- Where the answers are those of a strict weak order, the result is the stable order. -/
theorem sorted_of_weak {lt : E → E → Except ε Bool} {less : E → E → Bool} {f : Fin n → E}
    (hanswers : ∀ i j, i ≠ j → lt (f i) (f j) = .ok (less (f i) (f j)))
    (hweak : Weak fun i j => less (f i) (f j)) :
    ∃ order, S.sorted lt (List.ofFn f) = .ok (order.map f) ∧ Sorts (fun i j => less (f i) (f j)) order := by
  refine ⟨_, ?_, S.sorts n _ hweak⟩
  rw [sorted_ofFn, run_of_answers hanswers]
  rfl

/-- A total order is sorted to one list, whatever order the elements come in. -/
theorem sorted_unique {m : Nat} (lt : E → E → Except ε Bool) (less : E → E → Bool) {f : Fin n → E} {g : Fin m → E}
    (hperm : (List.ofFn f).Perm (List.ofFn g)) (hf : ∀ i j, i ≠ j → lt (f i) (f j) = .ok (less (f i) (f j)))
    (hg : ∀ i j, i ≠ j → lt (g i) (g j) = .ok (less (g i) (g j)))
    (hweakf : Weak fun i j => less (f i) (f j)) (hweakg : Weak fun i j => less (g i) (g j))
    (htotal : ∀ i j, less (f i) (f j) = false → less (f j) (f i) = false → f i = f j) :
    ∃ ys, S.sorted lt (List.ofFn f) = .ok ys ∧ S.sorted lt (List.ofFn g) = .ok ys := by
  have hpairwise {k : Nat} {h : Fin k → E} (hweak : Weak fun i j => less (h i) (h j)) {order : List (Fin k)}
      (hsorts : Sorts (fun i j => less (h i) (h j)) order) :
      (order.map h).Pairwise (fun x y => less y x = false) ∧ (order.map h).Perm (List.ofFn h) := by
    refine ⟨?_, ?_⟩
    · rw [List.pairwise_map]
      exact hsorts.before.imp fun hb => Before.not_lt hweak hb
    · rw [List.ofFn_eq_map]
      exact hsorts.perm.map h
  obtain ⟨o₁, h₁, hsorts₁⟩ := S.sorted_of_weak hf hweakf
  obtain ⟨o₂, h₂, hsorts₂⟩ := S.sorted_of_weak hg hweakg
  obtain ⟨hpair₁, hperm₁⟩ := hpairwise hweakf hsorts₁
  obtain ⟨hpair₂, hperm₂⟩ := hpairwise hweakg hsorts₂
  have heq : o₁.map f = o₂.map g := by
    refine List.Perm.eq_of_pairwise ?_ hpair₁ hpair₂ ((hperm₁.trans hperm).trans hperm₂.symm)
    intro x y hx hy hyx hxy
    obtain ⟨i, _, rfl⟩ := List.mem_map.mp hx
    have hy : y ∈ List.ofFn f := hperm.symm.mem_iff.mp (hperm₂.mem_iff.mp hy)
    obtain ⟨j, rfl⟩ := List.mem_ofFn.mp hy
    exact htotal i j hxy hyx
  exact ⟨_, h₁, by rw [heq]; exact h₂⟩

/-- Two elements neither of which is less stay in the order they came in: exchanged, they give
another result. -/
theorem sorted_swap_ne {lt : E → E → Except ε Bool} {less : E → E → Bool} {f : Fin n → E}
    (hinj : Function.Injective f) (hanswers : ∀ i j, i ≠ j → lt (f i) (f j) = .ok (less (f i) (f j)))
    (hweak : Weak fun i j => less (f i) (f j)) {i j : Fin n} (hlow : i < j) (hij : less (f i) (f j) = false)
    (hji : less (f j) (f i) = false) :
    S.sorted lt (List.ofFn f) ≠ S.sorted lt (List.ofFn (f ∘ Equiv.swap i j)) := by
  intro heq
  have hanswers' (a b : Fin n) (hab : a ≠ b) :
      lt ((f ∘ Equiv.swap i j) a) ((f ∘ Equiv.swap i j) b) =
        .ok (less ((f ∘ Equiv.swap i j) a) ((f ∘ Equiv.swap i j) b)) :=
    hanswers _ _ fun heq => hab ((Equiv.swap i j).injective heq)
  obtain ⟨o₁, h₁, hsorts₁⟩ := S.sorted_of_weak hanswers hweak
  obtain ⟨o₂, h₂, hsorts₂⟩ := S.sorted_of_weak hanswers' (hweak.comap (Equiv.swap i j))
  have hsame : o₁.map f = o₂.map (f ∘ Equiv.swap i j) := Except.ok.inj (h₁.symm.trans (heq.trans h₂))
  have hfirst : (o₁.map f).Pairwise fun x y => ¬ (x = f j ∧ y = f i) := by
    rw [List.pairwise_map]
    refine hsorts₁.before.imp fun hb => ?_
    rintro ⟨hx, hy⟩
    obtain rfl := hinj hx
    obtain rfl := hinj hy
    rcases hb with hlt | ⟨_, hhigh⟩
    · simp [hji] at hlt
    · omega
  have hsecond : (o₁.map f).Pairwise fun x y => ¬ (x = f i ∧ y = f j) := by
    rw [hsame, List.pairwise_map]
    refine hsorts₂.before.imp fun {a b} hb => ?_
    rintro ⟨hx, hy⟩
    have ha : a = j := by simpa using congrArg (Equiv.swap i j) (hinj hx)
    have hb' : b = i := by simpa using congrArg (Equiv.swap i j) (hinj hy)
    subst ha hb'
    rcases hb with hlt | ⟨_, hhigh⟩
    · simp [hij] at hlt
    · omega
  have hmem (k : Fin n) : f k ∈ o₁.map f :=
    List.mem_map_of_mem (hsorts₁.perm.mem_iff.mpr (List.mem_finRange k))
  have hsymm : Std.Symm fun x y : E => ¬ (x = f j ∧ y = f i) ∧ ¬ (x = f i ∧ y = f j) :=
    ⟨fun _ _ h => ⟨fun hand => h.2 hand.symm, fun hand => h.1 hand.symm⟩⟩
  have hne : f i ≠ f j := fun heq => absurd (hinj heq) (ne_of_lt hlow)
  exact ((hfirst.and hsecond).forall (hmem i) (hmem j) hne).2 ⟨rfl, rfl⟩

end StableSort

/-! ### Answers that leave the result open -/

/-- Two strict weak orders agree with the answers that do not raise and are sorted differently. -/
def Undetermined (cmp : Fin n → Fin n → Except ε Bool) : Prop :=
  ∃ lt₁ lt₂ o₁ o₂, Weak lt₁ ∧ Weak lt₂ ∧ Agrees cmp lt₁ ∧ Agrees cmp lt₂ ∧ Sorts lt₁ o₁ ∧ Sorts lt₂ o₂ ∧ o₁ ≠ o₂

/-- Then every stable sort asks a question that raises. -/
theorem raises_of_undetermined (S : StableSort) {cmp : Fin n → Fin n → Except ε Bool} (h : Undetermined cmp) :
    ∃ e, (S.strategy n).run cmp = .error e := by
  obtain ⟨lt₁, lt₂, o₁, o₂, hweak₁, hweak₂, hagrees₁, hagrees₂, hsorts₁, hsorts₂, hne⟩ := h
  cases hrun : (S.strategy n).run cmp with
  | error e => exact ⟨e, rfl⟩
  | ok order =>
    have h₁ := Sorts.unique hweak₁ hsorts₁ (S.sorts n lt₁ hweak₁)
    have h₂ := Sorts.unique hweak₂ hsorts₂ (S.sorts n lt₂ hweak₂)
    rw [eval_of_run hagrees₁ hrun] at h₁
    rw [eval_of_run hagrees₂ hrun] at h₂
    exact absurd (h₁.trans h₂.symm) hne

/-- With at least two elements and no answer at all the result is open. -/
theorem undetermined_of_silent {cmp : Fin n → Fin n → Except ε Bool} {i j : Fin n} (hne : i ≠ j)
    (h : ∀ i j b, i ≠ j → cmp i j ≠ .ok b) : Undetermined cmp := by
  have hagrees (lt : Fin n → Fin n → Bool) : Agrees cmp lt := fun i j b hij hcmp => absurd hcmp (h i j b hij)
  have hnone : Weak fun _ _ : Fin n => false := ⟨fun _ _ h => (by cases h), fun _ _ _ h => (by cases h)⟩
  have hdown : Weak fun i j : Fin n => decide (j < i) := by
    constructor
    · intro a b hab
      have := of_decide_eq_true hab
      exact decide_eq_false (by omega)
    · intro a b c hac
      have := of_decide_eq_true hac
      rcases lt_or_ge b a with hba | hab
      · exact .inl (decide_eq_true hba)
      · exact .inr (decide_eq_true (by omega))
  refine ⟨_, _, _, _, hnone, hdown, hagrees _, hagrees _, stableOrder_sorts hnone, stableOrder_sorts hdown, ?_⟩
  intro heq
  -- the one order goes up in position, the other down
  have hup := (stableOrder_sorts hnone).before
  have hdownwards := (stableOrder_sorts hdown).before
  rw [← heq] at hdownwards
  have hnever := hup.and hdownwards
  have hempty : (stableOrder fun _ _ : Fin n => false).Pairwise fun _ _ => False := by
    refine hnever.imp fun hboth => ?_
    obtain ⟨hlow, hhigh⟩ := hboth
    have hlt := hlow.resolve_left (by simp)
    rcases hhigh with hhigh | ⟨hhigh, _⟩
    · have := of_decide_eq_true hhigh
      omega
    · have := of_decide_eq_false hhigh
      omega
  have hlength : (stableOrder fun _ _ : Fin n => false).length = n := by
    rw [(stableOrder_perm _).length_eq, List.length_finRange]
  have hshort : (stableOrder fun _ _ : Fin n => false).length ≤ 1 := by
    match hlist : stableOrder fun _ _ : Fin n => false with
    | [] => simp
    | [_] => simp
    | a :: b :: rest =>
      rw [hlist] at hempty
      exact absurd (List.rel_of_pairwise_cons hempty (List.mem_cons_self ..)) id
  omega

/-! ### Sorts that ask given questions first -/

/-- A question. -/
abbrev Question (n : Nat) := {p : Fin n × Fin n // p.1 ≠ p.2}

/-- Asks the questions, then goes on with the answers in place of what was `known`. -/
def Strategy.asking (k : (Fin n → Fin n → Bool) → Strategy n) :
    List (Question n) → (Fin n → Fin n → Bool) → Strategy n
  | [], known => k known
  | q :: rest, known =>
    let learn (b : Bool) : Fin n → Fin n → Bool := fun i j => if (i, j) = q.1 then b else known i j
    .ask q.1.1 q.1.2 q.2 (asking k rest (learn true)) (asking k rest (learn false))

/-- What is known after the questions. -/
def learned (lt : Fin n → Fin n → Bool) (questions : List (Question n)) (known : Fin n → Fin n → Bool)
    (i j : Fin n) : Bool :=
  if ∃ q ∈ questions, q.1 = (i, j) then lt i j else known i j

theorem run_asking {cmp : Fin n → Fin n → Except ε Bool} {lt : Fin n → Fin n → Bool}
    (k : (Fin n → Fin n → Bool) → Strategy n) {questions : List (Question n)}
    (h : ∀ q ∈ questions, cmp q.1.1 q.1.2 = .ok (lt q.1.1 q.1.2)) (known : Fin n → Fin n → Bool) :
    (Strategy.asking k questions known).run cmp = (k (learned lt questions known)).run cmp := by
  induction questions generalizing known with
  | nil =>
    have hknown : learned lt [] known = known := by
      funext i j
      simp [learned]
    rw [hknown]
    rfl
  | cons q rest ih =>
    have hrest := ih fun q' hq' => h q' (List.mem_cons_of_mem _ hq')
    have hnext : (Strategy.asking k (q :: rest) known).run cmp =
        (Strategy.asking k rest fun i j => if (i, j) = q.1 then lt q.1.1 q.1.2 else known i j).run cmp := by
      simp only [Strategy.asking, Strategy.run, h q (List.mem_cons_self ..)]
      cases lt q.1.1 q.1.2 <;> rfl
    have hlearned : learned lt rest (fun i j => if (i, j) = q.1 then lt q.1.1 q.1.2 else known i j) =
        learned lt (q :: rest) known := by
      funext i j
      unfold learned
      by_cases hin : ∃ q' ∈ rest, q'.1 = (i, j)
      · have hin' : ∃ q' ∈ q :: rest, q'.1 = (i, j) := by
          obtain ⟨q', hmem, heq⟩ := hin
          exact ⟨q', List.mem_cons_of_mem _ hmem, heq⟩
        rw [if_pos hin, if_pos hin']
      · by_cases hq : q.1 = (i, j)
        · have hin' : ∃ q' ∈ q :: rest, q'.1 = (i, j) := ⟨q, List.mem_cons_self .., hq⟩
          simp only [if_neg hin, if_pos hin', hq, if_true]
        · have hout : ¬ ∃ q' ∈ q :: rest, q'.1 = (i, j) := by
            rintro ⟨q', hmem, heq⟩
            rcases List.mem_cons.mp hmem with rfl | hmem
            · exact hq heq
            · exact hin ⟨q', hmem, heq⟩
          simp only [if_neg hin, if_neg hout, if_neg (Ne.symm hq)]
    rw [hnext, hrest, hlearned]

theorem eval_asking (lt : Fin n → Fin n → Bool) (k : (Fin n → Fin n → Bool) → Strategy n)
    (questions : List (Question n)) (known : Fin n → Fin n → Bool) :
    (Strategy.asking k questions known).eval lt = (k (learned lt questions known)).eval lt := by
  let cmp : Fin n → Fin n → Except Empty Bool := fun i j => .ok (lt i j)
  have hanswers : ∀ i j : Fin n, i ≠ j → cmp i j = .ok (lt i j) := fun _ _ _ => rfl
  have hrun : (Strategy.asking k questions known).run cmp = (k (learned lt questions known)).run cmp :=
    run_asking k (fun q _ => rfl) known
  rw [run_of_answers hanswers, run_of_answers hanswers] at hrun
  exact Except.ok.inj hrun

open Classical in
/-- Asks everything; where the answers are no strict weak order, it leaves the order as it is. -/
noncomputable def Strategy.full (n : Nat) : Strategy n :=
  .asking (fun known => if Weak known then .done (stableOrder known) (stableOrder_perm known)
    else .done (List.finRange n) (.refl _)) Finset.univ.toList fun _ _ => false

/-- With all questions asked the relation is known, but on the diagonal. -/
theorem learned_all (lt : Fin n → Fin n → Bool) (i j : Fin n) :
    learned lt Finset.univ.toList (fun _ _ => false) i j = (decide (i ≠ j) && lt i j) := by
  unfold learned
  by_cases h : i = j
  · subst h
    have hnone : ¬ ∃ q ∈ (Finset.univ : Finset (Question n)).toList, q.1 = (i, i) := by
      rintro ⟨q, _, hq⟩
      exact q.2 (by rw [hq])
    rw [if_neg hnone]
    simp
  · have hsome : ∃ q ∈ (Finset.univ : Finset (Question n)).toList, q.1 = (i, j) :=
      ⟨⟨(i, j), h⟩, Finset.mem_toList.mpr (Finset.mem_univ _), rfl⟩
    rw [if_pos hsome]
    simp [h]

theorem learned_all_eq {lt : Fin n → Fin n → Bool} (hdiagonal : ∀ i, lt i i = false) :
    learned lt Finset.univ.toList (fun _ _ => false) = lt := by
  funext i j
  rw [learned_all]
  by_cases hij : i = j
  · subst hij
    simp [hdiagonal i]
  · simp [hij]

theorem full_sorts {lt : Fin n → Fin n → Bool} (h : Weak lt) : Sorts lt ((Strategy.full n).eval lt) := by
  unfold Strategy.full
  rw [eval_asking, learned_all_eq h.irrefl, if_pos h]
  exact stableOrder_sorts h

theorem full_unsorted {lt : Fin n → Fin n → Bool} (hdiagonal : ∀ i, lt i i = false) (h : ¬ Weak lt) :
    (Strategy.full n).eval lt = List.finRange n := by
  unfold Strategy.full
  rw [eval_asking, learned_all_eq hdiagonal, if_neg h]
  rfl

/-- The sort that asks everything. -/
noncomputable def StableSort.full : StableSort := ⟨Strategy.full, fun _ _ h => full_sorts h⟩

/-- It leaves a list as it is if the answers are no strict weak order. -/
theorem StableSort.full_sorted_of_not_weak {E : Type} {lt : E → E → Except ε Bool} {less : E → E → Bool}
    {f : Fin n → E} (hanswers : ∀ i j, i ≠ j → lt (f i) (f j) = .ok (less (f i) (f j)))
    (hdiagonal : ∀ x, less x x = false) (h : ¬ Weak fun i j => less (f i) (f j)) :
    StableSort.full.sorted lt (List.ofFn f) = .ok (List.ofFn f) := by
  rw [StableSort.sorted_ofFn, run_of_answers hanswers]
  show Except.ok (((Strategy.full n).eval _).map f) = _
  rw [full_unsorted (fun i => hdiagonal (f i)) h, List.ofFn_eq_map]

/-- The sort that plays `s` on `n` elements. -/
noncomputable def StableSort.playing (s : Strategy n) (h : ∀ lt, Weak lt → Sorts lt (s.eval lt)) : StableSort where
  strategy m := if heq : n = m then heq ▸ s else .full m
  sorts m lt hweak := by
    by_cases heq : n = m
    · subst heq
      simpa using h lt hweak
    · simpa [heq] using full_sorts hweak

theorem StableSort.playing_strategy (s : Strategy n) (h : ∀ lt, Weak lt → Sorts lt (s.eval lt)) :
    (StableSort.playing s h).strategy n = s := by
  simp [StableSort.playing]

open Classical in
/-- Where the answers that do not raise determine the result, some stable sort asks nothing
else, and any one of these questions first. -/
theorem exists_of_determined {cmp : Fin n → Fin n → Except ε Bool} (h : ¬ Undetermined cmp) {i j : Fin n}
    (hne : i ≠ j) (hanswer : ∃ b, cmp i j = .ok b) :
    ∃ S : StableSort, (∃ order, (S.strategy n).run cmp = .ok order) ∧
      ∀ (cmp' : Fin n → Fin n → Except ε Bool) e, cmp' i j = .error e → ∃ e', (S.strategy n).run cmp' = .error e' := by
  let answer : Fin n → Fin n → Bool := fun i j => match cmp i j with | .ok b => b | .error _ => false
  have hanswer_eq {i j : Fin n} {b : Bool} (hcmp : cmp i j = .ok b) : answer i j = b := by
    simp only [answer, hcmp]
  let questions : List (Question n) :=
    ⟨(i, j), hne⟩ :: ((Finset.univ : Finset (Question n)).toList.filter fun q => ∃ b, cmp q.1.1 q.1.2 = .ok b)
  have hquestions (q : Question n) : q ∈ questions ↔ ∃ b, cmp q.1.1 q.1.2 = .ok b := by
    constructor
    · intro hmem
      rcases List.mem_cons.mp hmem with rfl | hmem
      · exact hanswer
      · simpa using hmem
    · intro hsome
      exact List.mem_cons_of_mem _ (by simpa using hsome)
  -- the order that the answers determine, if any strict weak order agrees with them
  obtain ⟨order, perm, horder⟩ : ∃ order : List (Fin n), order.Perm (List.finRange n) ∧
      ∀ lt, Weak lt → Agrees cmp lt → Sorts lt order := by
    by_cases hsome : ∃ lt, Weak lt ∧ Agrees cmp lt
    · obtain ⟨lt, hweak, hagrees⟩ := hsome
      refine ⟨stableOrder lt, stableOrder_perm lt, fun lt' hweak' hagrees' => ?_⟩
      have heq : stableOrder lt = stableOrder lt' := by
        by_contra hdiffer
        exact h ⟨lt, lt', _, _, hweak, hweak', hagrees, hagrees', stableOrder_sorts hweak,
          stableOrder_sorts hweak', hdiffer⟩
      rw [heq]
      exact stableOrder_sorts hweak'
    · exact ⟨List.finRange n, .refl _, fun lt hweak hagrees => absurd ⟨lt, hweak, hagrees⟩ hsome⟩
  let k : (Fin n → Fin n → Bool) → Strategy n := fun known =>
    if ∀ q ∈ questions, known q.1.1 q.1.2 = answer q.1.1 q.1.2 then .done order perm else .full n
  let s : Strategy n := .asking k questions fun _ _ => false
  have hknown (lt : Fin n → Fin n → Bool) (q : Question n) (hq : q ∈ questions) :
      learned lt questions (fun _ _ => false) q.1.1 q.1.2 = lt q.1.1 q.1.2 :=
    if_pos ⟨q, hq, rfl⟩
  have hsorts (lt : Fin n → Fin n → Bool) (hweak : Weak lt) : Sorts lt (s.eval lt) := by
    show Sorts lt ((Strategy.asking k questions _).eval lt)
    rw [eval_asking]
    by_cases hsame : ∀ q ∈ questions, learned lt questions (fun _ _ => false) q.1.1 q.1.2 = answer q.1.1 q.1.2
    · have hagrees : Agrees cmp lt := by
        intro i j b hij hcmp
        have hq : (⟨(i, j), hij⟩ : Question n) ∈ questions := (hquestions _).mpr ⟨b, hcmp⟩
        have hlearned := hsame _ hq
        rw [hknown lt _ hq] at hlearned
        exact hlearned.trans (hanswer_eq hcmp)
      simp only [k, if_pos hsame]
      exact horder lt hweak hagrees
    · simp only [k, if_neg hsame]
      exact full_sorts hweak
  refine ⟨.playing s hsorts, ?_, fun cmp' e he => ?_⟩
  · refine ⟨order, ?_⟩
    have hanswers (q : Question n) (hq : q ∈ questions) : cmp q.1.1 q.1.2 = .ok (answer q.1.1 q.1.2) := by
      obtain ⟨b, hb⟩ := (hquestions q).mp hq
      rw [hb, hanswer_eq hb]
    rw [StableSort.playing_strategy]
    show (Strategy.asking k questions _).run cmp = _
    rw [run_asking k hanswers]
    have hsame : ∀ q ∈ questions, learned answer questions (fun _ _ => false) q.1.1 q.1.2 = answer q.1.1 q.1.2 :=
      hknown answer
    simp only [k, if_pos hsame]
    rfl
  · refine ⟨e, ?_⟩
    rw [StableSort.playing_strategy]
    show (Strategy.asking k questions _).run cmp' = _
    simp only [questions, Strategy.asking, Strategy.run, he]

end ComparisonSort
