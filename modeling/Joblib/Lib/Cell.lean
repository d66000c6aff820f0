import Mathlib.Data.List.Basic

/-! A cell with two kinds of writer.

An `offer` is taken by an empty cell only, a `force` by any. `run` is what a list of
writes leaves, `Keeps` says that no write changed what was there before it. Offers
alone keep; with forced writes among them, a list keeps exactly when each of these
repeats its first value (`keeps_iff`). -/
namespace Cell

variable {γ : Type}

inductive Write (γ : Type) where
  | force (value : γ)
  | offer (value : γ)

def Write.value : Write γ → γ
  | .force v => v
  | .offer v => v

def put : Option γ → Write γ → Option γ
  | _, .force v => some v
  | none, .offer v => some v
  | some c, .offer _ => some c

def run : Option γ → List (Write γ) → Option γ
  | c, [] => c
  | c, w :: rest => run (put c w) rest

/-- What the first write carries. -/
def first (ws : List (Write γ)) : Option γ := ws.head?.map Write.value

/-- No write changes what is there. -/
def Keeps : Option γ → List (Write γ) → Prop
  | _, [] => True
  | c, w :: rest => (∀ v, c = some v → put c w = some v) ∧ Keeps (put c w) rest

theorem put_none (w : Write γ) : put none w = some w.value := by
  cases w <;> rfl

theorem run_append (c : Option γ) (ws ws' : List (Write γ)) : run c (ws ++ ws') = run (run c ws) ws' := by
  induction ws generalizing c with
  | nil => rfl
  | cons w rest ih => exact ih _

/-- A cell that was written stays written. -/
theorem run_some (c : γ) (ws : List (Write γ)) : ∃ v, run (some c) ws = some v := by
  induction ws generalizing c with
  | nil => exact ⟨c, rfl⟩
  | cons w rest ih =>
    cases w with
    | force v => exact ih v
    | offer v => exact ih c

theorem run_none_iff (ws : List (Write γ)) : run none ws = none ↔ ws = [] := by
  cases ws with
  | nil => exact ⟨fun _ => rfl, fun _ => rfl⟩
  | cons w rest =>
    constructor
    · intro h
      obtain ⟨v, hv⟩ := run_some w.value rest
      rw [run, put_none, hv] at h
      cases h
    · intro h
      cases h

/-- What is in the cell was written to it. -/
theorem run_mem {c : Option γ} {ws : List (Write γ)} {v : γ} (h : run c ws = some v) :
    c = some v ∨ ∃ w ∈ ws, w.value = v := by
  induction ws generalizing c with
  | nil => exact .inl h
  | cons w rest ih =>
    rcases ih h with hput | ⟨u, hu, hv⟩
    · cases w with
      | force u => exact .inr ⟨.force u, List.mem_cons_self, Option.some.inj hput⟩
      | offer u =>
        cases c with
        | none => exact .inr ⟨.offer u, List.mem_cons_self, Option.some.inj hput⟩
        | some c => exact .inl hput
    · exact .inr ⟨u, List.mem_cons_of_mem _ hu, hv⟩

theorem keeps_some_iff (c : γ) (ws : List (Write γ)) :
    Keeps (some c) ws ↔ ∀ u, .force u ∈ ws → u = c := by
  induction ws generalizing c with
  | nil => exact ⟨fun _ u hu => absurd hu List.not_mem_nil, fun _ => trivial⟩
  | cons w rest ih =>
    cases w with
    | force u =>
      constructor
      · rintro ⟨hput, hrest⟩ u' hu'
        obtain rfl : u = c := Option.some.inj (hput c rfl)
        rcases List.mem_cons.mp hu' with heq | hmem
        · cases heq
          rfl
        · exact (ih u).mp hrest u' hmem
      · intro h
        obtain rfl : u = c := h u List.mem_cons_self
        exact ⟨fun v hv => hv, (ih u).mpr fun u' hu' => h u' (List.mem_cons_of_mem _ hu')⟩
    | offer u =>
      constructor
      · rintro ⟨_, hrest⟩ u' hu'
        rcases List.mem_cons.mp hu' with heq | hmem
        · cases heq
        · exact (ih c).mp hrest u' hmem
      · intro h
        exact ⟨fun v hv => hv, (ih c).mpr fun u' hu' => h u' (List.mem_cons_of_mem _ hu')⟩

/-- **A list of writes keeps** exactly when every forced one repeats the first. -/
theorem keeps_iff (ws : List (Write γ)) :
    Keeps none ws ↔ ∀ v, first ws = some v → ∀ u, .force u ∈ ws → u = v := by
  cases ws with
  | nil => exact ⟨fun _ _ hv => (by cases hv), fun _ => trivial⟩
  | cons w rest =>
    have hempty : Keeps none (w :: rest) ↔ Keeps (some w.value) rest := by
      rw [← put_none w]
      exact ⟨fun h => h.2, fun h => ⟨fun v hv => (by cases hv), h⟩⟩
    rw [hempty, keeps_some_iff]
    constructor
    · intro h v hv u hu
      obtain rfl : w.value = v := Option.some.inj hv
      rcases List.mem_cons.mp hu with rfl | hmem
      · rfl
      · exact h u hmem
    · intro h u hu
      exact h w.value rfl u (List.mem_cons_of_mem _ hu)

end Cell
