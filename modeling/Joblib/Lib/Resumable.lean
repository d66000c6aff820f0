import Mathlib.Data.List.Basic

/-! Resumable computations, one turn at a time.

A generator is a `step` on a state: a turn of its body stays inside the body
(`silent`), comes back to whoever resumed it with an event (`came`), or never
comes back (`blocked`). `next` resumes it once, `drain` until it ends, both with
a bound on the turns they may take.

What a caller sees of a generator that something else resumed first is what is
left after that first event (`next_of_drain`). A relation that every turn
respects is respected by whole resumptions (`next_relates`, `drain_relates`), and a
count that every yield advances bounds what a drain can deliver (`Advances.drain`). -/
namespace Resumable

/-- What resuming comes back with. -/
inductive Event (α ε : Type) where
  | yielded (value : α)
  | stopped
  | raised (error : ε)
deriving DecidableEq

/-- One turn of the body. -/
inductive Turn (σ α ε : Type) where
  | blocked
  | silent (state : σ)
  | came (event : Event α ε) (state : σ)

/-- The state a turn leaves, if it ends. -/
def Turn.state {σ α ε : Type} : Turn σ α ε → Option σ
  | .blocked => none
  | .silent s => some s
  | .came _ s => some s

/-- The values a consumer got, and the error that ended them if one did. -/
structure Drained (α ε : Type) where
  values : List α
  error : Option ε
deriving DecidableEq

def Drained.cons {α ε : Type} (value : α) (d : Drained α ε) : Drained α ε :=
  ⟨value :: d.values, d.error⟩

section Resuming
variable {σ α ε : Type} (step : σ → Turn σ α ε)

/-- Resume once. -/
def next : Nat → σ → Option (Event α ε × σ)
  | 0, _ => none
  | n + 1, s =>
    match step s with
    | .blocked => none
    | .silent s' => next n s'
    | .came event s' => some (event, s')

/-- Resume until it stops or raises. -/
def drain : Nat → σ → Option (Drained α ε × σ)
  | 0, _ => none
  | n + 1, s =>
    match step s with
    | .blocked => none
    | .silent s' => drain n s'
    | .came (.yielded v) s' => (drain n s').map fun r => (r.1.cons v, r.2)
    | .came .stopped s' => some (⟨[], none⟩, s')
    | .came (.raised e) s' => some (⟨[], some e⟩, s')

variable {step}

/-! One turn of a drain. -/

theorem drain_silent {n : Nat} {s s' : σ} (h : step s = .silent s') :
    drain step (n + 1) s = drain step n s' := by
  simp only [drain, h]

theorem drain_yielded {n : Nat} {s s' : σ} {v : α} (h : step s = .came (.yielded v) s') :
    drain step (n + 1) s = (drain step n s').map fun r => (r.1.cons v, r.2) := by
  simp only [drain, h]

theorem drain_stopped {n : Nat} {s s' : σ} (h : step s = .came .stopped s') :
    drain step (n + 1) s = some (⟨[], none⟩, s') := by
  simp only [drain, h]

theorem drain_raised {n : Nat} {s s' : σ} {e : ε} (h : step s = .came (.raised e) s') :
    drain step (n + 1) s = some (⟨[], some e⟩, s') := by
  simp only [drain, h]

theorem next_came {n : Nat} {s s' : σ} {event : Event α ε} (h : step s = .came event s') :
    next step (n + 1) s = some (event, s') := by
  simp only [next, h]

/-- A larger bound changes nothing. -/
theorem next_mono {n m : Nat} {s : σ} {r : Event α ε × σ} (h : next step n s = some r) (hnm : n ≤ m) :
    next step m s = some r := by
  induction n generalizing m s with
  | zero => simp [next] at h
  | succ n ih =>
    obtain ⟨m, rfl⟩ : ∃ k, m = k + 1 := ⟨m - 1, by omega⟩
    have hle : n ≤ m := by omega
    simp only [next] at h ⊢
    cases ht : step s with
    | blocked => simp [ht] at h
    | silent s' =>
      rw [ht] at h
      exact ih h hle
    | came event s' => simpa [ht] using h

theorem drain_mono {n m : Nat} {s : σ} {r : Drained α ε × σ} (h : drain step n s = some r)
    (hnm : n ≤ m) : drain step m s = some r := by
  induction n generalizing m s r with
  | zero => simp [drain] at h
  | succ n ih =>
    obtain ⟨m, rfl⟩ : ∃ k, m = k + 1 := ⟨m - 1, by omega⟩
    have hle : n ≤ m := by omega
    simp only [drain] at h ⊢
    cases ht : step s with
    | blocked => simp [ht] at h
    | silent s' =>
      rw [ht] at h
      exact ih h hle
    | came event s' =>
      rw [ht] at h
      cases event with
      | yielded v =>
        obtain ⟨r', hr', rfl⟩ := Option.map_eq_some_iff.mp h
        exact Option.map_eq_some_iff.mpr ⟨r', ih hr' hle, rfl⟩
      | stopped => exact h
      | raised e => exact h

/-- What a drain took first, and what was left to take. -/
theorem next_of_drain {n : Nat} {s t : σ} {d : Drained α ε} (h : drain step n s = some (d, t)) :
    (∃ v s' d', next step n s = some (.yielded v, s') ∧ drain step n s' = some (d', t) ∧ d = d'.cons v) ∨
      (next step n s = some (.stopped, t) ∧ d = ⟨[], none⟩) ∨
      (∃ e, next step n s = some (.raised e, t) ∧ d = ⟨[], some e⟩) := by
  induction n generalizing s with
  | zero => simp [drain] at h
  | succ n ih =>
    simp only [drain] at h
    simp only [next]
    cases ht : step s with
    | blocked => simp [ht] at h
    | silent s' =>
      rw [ht] at h
      rcases ih h with ⟨v, s'', d', hn, hd, hv⟩ | hs | hr
      · exact .inl ⟨v, s'', d', hn, drain_mono hd (Nat.le_succ n), hv⟩
      · exact .inr (.inl hs)
      · exact .inr (.inr hr)
    | came event s' =>
      rw [ht] at h
      cases event with
      | yielded v =>
        obtain ⟨⟨d', t'⟩, hd, he⟩ := Option.map_eq_some_iff.mp h
        obtain ⟨rfl, rfl⟩ : d'.cons v = d ∧ t' = t := by simpa using he
        exact .inl ⟨v, s', d', rfl, drain_mono hd (Nat.le_succ n), rfl⟩
      | stopped =>
        obtain ⟨rfl, rfl⟩ : ⟨[], none⟩ = d ∧ s' = t := by simpa using h
        exact .inr (.inl ⟨rfl, rfl⟩)
      | raised e =>
        obtain ⟨rfl, rfl⟩ : ⟨[], some e⟩ = d ∧ s' = t := by simpa using h
        exact .inr (.inr ⟨e, rfl, rfl⟩)

/-- What a body came back with, its last turn came with. -/
theorem next_last {n : Nat} {s t : σ} {event : Event α ε} (h : next step n s = some (event, t)) :
    ∃ u, step u = .came event t := by
  induction n generalizing s with
  | zero => simp [next] at h
  | succ n ih =>
    simp only [next] at h
    cases ht : step s with
    | blocked => simp [ht] at h
    | silent s' =>
      rw [ht] at h
      exact ih h
    | came event' s' =>
      rw [ht] at h
      obtain ⟨rfl, rfl⟩ : event' = event ∧ s' = t := by simpa using h
      exact ⟨s, ht⟩

/-- A drain ends where the body does. -/
theorem drain_last {n : Nat} {s t : σ} {d : Drained α ε} (h : drain step n s = some (d, t)) :
    ∃ u event, step u = .came event t ∧ ∀ v, event ≠ .yielded v := by
  induction n generalizing s d with
  | zero => simp [drain] at h
  | succ n ih =>
    simp only [drain] at h
    cases ht : step s with
    | blocked => simp [ht] at h
    | silent s' =>
      rw [ht] at h
      exact ih h
    | came event s' =>
      rw [ht] at h
      cases event with
      | yielded v =>
        obtain ⟨⟨d', t'⟩, hd, he⟩ := Option.map_eq_some_iff.mp h
        obtain ⟨rfl, rfl⟩ : d'.cons v = d ∧ t' = t := by simpa using he
        exact ih hd
      | stopped =>
        obtain ⟨rfl, rfl⟩ : ⟨[], none⟩ = d ∧ s' = t := by simpa using h
        exact ⟨s, _, ht, by simp⟩
      | raised e =>
        obtain ⟨rfl, rfl⟩ : ⟨[], some e⟩ = d ∧ s' = t := by simpa using h
        exact ⟨s, _, ht, by simp⟩

end Resuming

/-- What a body came back with and where that left it, after one resumption or more. -/
inductive Resumed {σ α ε : Type} (step : σ → Turn σ α ε) (s : σ) : Event α ε → σ → Prop
  | first {n : Nat} {event : Event α ε} {t : σ} : next step n s = some (event, t) → Resumed step s event t
  | again {n : Nat} {e event : Event α ε} {t u : σ} :
    Resumed step s e t → next step n t = some (event, u) → Resumed step s event u

/-- The values a consumer has taken, one resumption after another, and where that left the body. -/
inductive Taken {σ α ε : Type} (step : σ → Turn σ α ε) (s : σ) : List α → σ → Prop
  | nothing : Taken step s [] s
  | more {n : Nat} {values : List α} {v : α} {t u : σ} :
    Taken step s values t → next step n t = some (.yielded v, u) → Taken step s (values ++ [v]) u

/-! ### What a run keeps -/

section Kept
variable {σ α ε : Type} {step : σ → Turn σ α ε}

/-- A preorder that relates the states of every turn relates those of a resumption. -/
theorem next_relates {R : σ → σ → Prop} (htrans : ∀ {a b c}, R a b → R b c → R a c)
    (hturn : ∀ {s s'}, (step s).state = some s' → R s s') {n : Nat} {s t : σ} {event : Event α ε}
    (h : next step n s = some (event, t)) : R s t := by
  induction n generalizing s with
  | zero => simp [next] at h
  | succ n ih =>
    simp only [next] at h
    cases ht : step s with
    | blocked => simp [ht] at h
    | silent s' =>
      rw [ht] at h
      exact htrans (hturn (by rw [ht]; rfl)) (ih h)
    | came event' s' =>
      rw [ht] at h
      obtain ⟨_, rfl⟩ : event' = event ∧ s' = t := by simpa using h
      exact hturn (by rw [ht]; rfl)

/-- And those of a drain. -/
theorem drain_relates {R : σ → σ → Prop} (htrans : ∀ {a b c}, R a b → R b c → R a c)
    (hturn : ∀ {s s'}, (step s).state = some s' → R s s') {n : Nat} {s t : σ} {d : Drained α ε}
    (h : drain step n s = some (d, t)) : R s t := by
  induction n generalizing s d with
  | zero => simp [drain] at h
  | succ n ih =>
    simp only [drain] at h
    cases ht : step s with
    | blocked => simp [ht] at h
    | silent s' =>
      rw [ht] at h
      exact htrans (hturn (by rw [ht]; rfl)) (ih h)
    | came event s' =>
      have hfirst : R s s' := hturn (by rw [ht]; rfl)
      rw [ht] at h
      cases event with
      | yielded v =>
        obtain ⟨⟨d', t'⟩, hd, heq⟩ := Option.map_eq_some_iff.mp h
        obtain ⟨_, rfl⟩ : d'.cons v = d ∧ t' = t := by simpa using heq
        exact htrans hfirst (ih hd)
      | stopped =>
        obtain ⟨_, rfl⟩ : ⟨[], none⟩ = d ∧ s' = t := by simpa using h
        exact hfirst
      | raised e =>
        obtain ⟨_, rfl⟩ : ⟨[], some e⟩ = d ∧ s' = t := by simpa using h
        exact hfirst

/-- What every resumption from the states of an invariant gives holds of every one in a row. -/
theorem Resumed.of_next {I : σ → Prop} {Q : Event α ε → σ → Prop}
    (hnext : ∀ {n s event t}, I s → next step n s = some (event, t) → I t ∧ Q event t) {s t : σ}
    {event : Event α ε} (hs : I s) (h : Resumed step s event t) : I t ∧ Q event t := by
  induction h with
  | first h => exact hnext hs h
  | again _ h ih => exact hnext ih.1 h

/-- From the states of an invariant, every turn keeps the invariant and no turn
lowers the count, which a yield raises. -/
structure Advances (step : σ → Turn σ α ε) (I : σ → Prop) (count : σ → Nat) : Prop where
  keeps : ∀ {s s'}, I s → (step s).state = some s' → I s'
  monotone : ∀ {s s'}, I s → (step s).state = some s' → count s ≤ count s'
  yielded : ∀ {s s' v}, I s → step s = .came (.yielded v) s' → count s < count s'

variable {I : σ → Prop} {count : σ → Nat}

/-- A value given is a count advanced. -/
theorem Advances.next_yielded (ha : Advances step I count) {n : Nat} {s t : σ} {v : α}
    (hs : I s) (h : next step n s = some (.yielded v, t)) : I t ∧ count s < count t := by
  induction n generalizing s with
  | zero => simp [next] at h
  | succ n ih =>
    simp only [next] at h
    cases ht : step s with
    | blocked => simp [ht] at h
    | silent s' =>
      rw [ht] at h
      have hturn : (step s).state = some s' := by rw [ht]; rfl
      obtain ⟨hi, hlt⟩ := ih (ha.keeps hs hturn) h
      exact ⟨hi, Nat.lt_of_le_of_lt (ha.monotone hs hturn) hlt⟩
    | came event s' =>
      rw [ht] at h
      obtain ⟨rfl, rfl⟩ : event = .yielded v ∧ s' = t := by simpa using h
      exact ⟨ha.keeps hs (by rw [ht]; rfl), ha.yielded hs ht⟩

/-- **A drain delivers no more values than the count advances.** -/
theorem Advances.drain (ha : Advances step I count) {n : Nat} {s t : σ} {d : Drained α ε}
    (hs : I s) (h : drain step n s = some (d, t)) : I t ∧ count s + d.values.length ≤ count t := by
  induction n generalizing s d with
  | zero => simp [Resumable.drain] at h
  | succ n ih =>
    simp only [Resumable.drain] at h
    cases ht : step s with
    | blocked => simp [ht] at h
    | silent s' =>
      rw [ht] at h
      have hturn : (step s).state = some s' := by rw [ht]; rfl
      obtain ⟨hi, hcount⟩ := ih (ha.keeps hs hturn) h
      have := ha.monotone hs hturn
      exact ⟨hi, by omega⟩
    | came event s' =>
      have hturn : (step s).state = some s' := by rw [ht]; rfl
      have hi' := ha.keeps hs hturn
      have hmono := ha.monotone hs hturn
      rw [ht] at h
      cases event with
      | yielded v =>
        obtain ⟨⟨d', t'⟩, hd, he⟩ := Option.map_eq_some_iff.mp h
        obtain ⟨rfl, rfl⟩ : d'.cons v = d ∧ t' = t := by simpa using he
        obtain ⟨hi, hcount⟩ := ih hi' hd
        have hlt := ha.yielded hs ht
        refine ⟨hi, ?_⟩
        simp only [Drained.cons, List.length_cons]
        omega
      | stopped =>
        obtain ⟨rfl, rfl⟩ : ⟨[], none⟩ = d ∧ s' = t := by simpa using h
        exact ⟨hi', hmono⟩
      | raised e =>
        obtain ⟨rfl, rfl⟩ : ⟨[], some e⟩ = d ∧ s' = t := by simpa using h
        exact ⟨hi', hmono⟩

/-- From the states of an invariant, every turn keeps the invariant, and the count rises by one with
a yield and by nothing without. -/
structure Counts (step : σ → Turn σ α ε) (I : σ → Prop) (count : σ → Nat) : Prop where
  keeps : ∀ {s s'}, I s → (step s).state = some s' → I s'
  silent : ∀ {s s'}, I s → step s = .silent s' → count s' = count s
  yielded : ∀ {s s' v}, I s → step s = .came (.yielded v) s' → count s' = count s + 1

theorem Counts.next_yielded (hc : Counts step I count) {n : Nat} {s t : σ} {v : α}
    (hs : I s) (h : next step n s = some (.yielded v, t)) : I t ∧ count t = count s + 1 := by
  induction n generalizing s with
  | zero => simp [next] at h
  | succ n ih =>
    simp only [next] at h
    cases ht : step s with
    | blocked => simp [ht] at h
    | silent s' =>
      rw [ht] at h
      obtain ⟨hi, hcount⟩ := ih (hc.keeps hs (by rw [ht]; rfl)) h
      exact ⟨hi, hcount.trans (congrArg (· + 1) (hc.silent hs ht))⟩
    | came event s' =>
      rw [ht] at h
      obtain ⟨rfl, rfl⟩ : event = .yielded v ∧ s' = t := by simpa using h
      exact ⟨hc.keeps hs (by rw [ht]; rfl), hc.yielded hs ht⟩

/-- **The count is that of the values taken.** -/
theorem Counts.taken (hc : Counts step I count) {s t : σ} {values : List α} (hs : I s)
    (h : Taken step s values t) : I t ∧ count t = count s + values.length := by
  induction h with
  | nothing => exact ⟨hs, rfl⟩
  | more _ hnext ih =>
    obtain ⟨hi, hcount⟩ := hc.next_yielded ih.1 hnext
    refine ⟨hi, ?_⟩
    rw [hcount, ih.2, List.length_append, List.length_singleton, Nat.add_assoc]

end Kept

/-- A first value. -/
theorem Taken.first {σ α ε : Type} {step : σ → Turn σ α ε} {n : Nat} {s t : σ} {v : α}
    (h : next step n s = some (.yielded v, t)) : Taken step s [v] t := by
  have hmore := Taken.more .nothing h
  simpa using hmore

/-- What was taken after a first value is taken with it. -/
theorem Taken.cons {σ α ε : Type} {step : σ → Turn σ α ε} {n : Nat} {s t u : σ} {v : α} {values : List α}
    (hfirst : next step n s = some (.yielded v, t)) (h : Taken step t values u) : Taken step s (v :: values) u := by
  induction h with
  | nothing => exact .first hfirst
  | more _ hnext ih => exact ih.more hnext

end Resumable
