import Mathlib.Data.List.AList
import Mathlib.Data.Finset.Card
import Mathlib.Data.Finset.Image
import Joblib.Lib.Runs

/-! `_WeakKeyDictionary`: values stored for objects that cannot be hashed.

The dictionary is keyed by the objects' ids, which the interpreter uses again after an
object's death. Each entry holds a weak reference to the object it was made for, and the
reference's callback deletes the entry some time after the object died. `fate` says, from
the events alone, what became of an object: the value last stored for it, whether its slot
was taken over and whether its callback ran. The entries are those of the objects whose slot
was not taken over and whose callback did not run (`Represents`), and every event keeps
that (`Represents.step`). -/
namespace Joblib.Dask

variable {O I V : Type} [DecidableEq O] [DecidableEq I]

/-- `weakref.ref(obj, on_destroy)`: the object referred to and the `key` that `on_destroy`
captured; references are told apart by the order in which they are made. -/
structure WeakRef (O I : Type) where
  serial : Nat
  referent : O
  key : I
deriving DecidableEq

/-- `KeyError`, of an id or of an object. -/
inductive KeyError (O I : Type) where
  | id (key : I)
  | obj (obj : O)
deriving DecidableEq

/-- The objects made so far and the living ones, `_data`, the number of references made and
those whose callback was called. -/
structure Memory (O I V : Type) where
  created : Finset O
  live : Finset O
  data : AList (fun _ : I => WeakRef O I × V)
  made : Nat
  called : Finset Nat

namespace Memory

/-- An empty dictionary, before any object is made. -/
def new : Memory O I V := ⟨∅, ∅, ∅, 0, ∅⟩

/-- `ref()`. -/
def deref (m : Memory O I V) (ref : WeakRef O I) : Option O :=
  if ref.referent ∈ m.live then some ref.referent else none

/-- The reference is in an entry: nothing else refers to it. -/
def holds (m : Memory O I V) (ref : WeakRef O I) : Bool := m.data.entries.any fun entry => entry.2.1 = ref

/-- The callback may be called: the object died, the reference itself is still there, and it
was not called before. -/
def pending (m : Memory O I V) (ref : WeakRef O I) : Bool :=
  m.holds ref && decide (ref.referent ∉ m.live) && decide (ref.serial ∉ m.called)

section Source
variable (id : O → I)

/-- `__getitem__`. -/
def getitem (m : Memory O I V) (obj : O) : Except (KeyError O I) V :=
  match m.data.lookup (id obj) with
  | none => .error (.id (id obj))
  | some (ref, val) => if m.deref ref ≠ some obj then .error (.obj obj) else .ok val

/-- The reference `__setitem__` finds, unless it is another object's or there is none. -/
def findRef (m : Memory O I V) (obj : O) : Except (KeyError O I) (WeakRef O I) :=
  match m.data.lookup (id obj) with
  | none => .error (.id (id obj))
  | some (ref, _) => if m.deref ref ≠ some obj then .error (.obj obj) else .ok ref

/-- `__setitem__`. -/
def setitem (m : Memory O I V) (obj : O) (value : V) : Memory O I V :=
  let key := id obj
  match m.findRef id obj with
  | .ok ref => {m with data := m.data.insert key (ref, value)}
  | .error _ => {m with data := m.data.insert key (⟨m.made, obj, key⟩, value), made := m.made + 1}

/-- `__len__`. -/
def len (m : Memory O I V) : Nat := m.data.entries.length

/-- `on_destroy`: `del self._data[key]`. -/
def onDestroy (m : Memory O I V) (ref : WeakRef O I) : Except (KeyError O I) (Memory O I V) :=
  match m.data.lookup ref.key with
  | none => .error (.id ref.key)
  | some _ => .ok {m with data := m.data.erase ref.key}

end Source

end Memory

/-- What happens to the dictionary and to the objects. -/
inductive Event (O I V : Type) where
  | create (obj : O)
  | set (obj : O) (value : V)
  | get (obj : O)
  | len
  | die (obj : O)
  | destroyed (ref : WeakRef O I)

/-- An object is made once, with an id no living object has; an operation is on a living one.
What a callback raises is dropped. -/
def step (id : O → I) (m : Memory O I V) : Event O I V → Option (Memory O I V)
  | .create obj =>
    if obj ∉ m.created ∧ ∀ other ∈ m.live, id other ≠ id obj then
      some {m with created := insert obj m.created, live := insert obj m.live}
    else none
  | .set obj value => if obj ∈ m.live then some (m.setitem id obj value) else none
  | .get obj => if obj ∈ m.live then some m else none
  | .len => some m
  | .die obj => if obj ∈ m.live then some {m with live := m.live.erase obj} else none
  | .destroyed ref =>
    if m.pending ref then
      let m := {m with called := insert ref.serial m.called}
      match m.onDestroy ref with
      | .ok m => some m
      | .error _ => some m
    else none

/-! ### What became of an object -/

/-- The value last stored for an object, whether another object was given its slot since, and
whether its callback was called. -/
structure Fate (V : Type) where
  value : Option V
  overwritten : Bool
  called : Bool

/-- Before an object is made. -/
def Fate.unborn : Fate V := ⟨none, false, false⟩

/-- What an event changes in the fate of `obj`. -/
def Fate.next (id : O → I) (obj : O) (fate : Fate V) : Event O I V → Fate V
  | .set other value =>
    if other = obj then {fate with value := some value, overwritten := false}
    else if id other = id obj ∧ fate.value.isSome then {fate with overwritten := true}
    else fate
  | .destroyed ref => if ref.referent = obj then {fate with called := true} else fate
  | _ => fate

/-- The fate of `obj` after a sequence of events. -/
def fate (id : O → I) (events : List (Event O I V)) (obj : O) : Fate V :=
  events.foldl (Fate.next id obj) .unborn

/-- The object is a key: a value was stored for it, its slot is still its own and its callback
was not called. -/
def Fate.isKey (fate : Fate V) : Bool := fate.value.isSome && !fate.overwritten && !fate.called

/-! ### The entries are the keys -/

/-- What is known of an entry. -/
structure Entry (id : O → I) (fates : O → Fate V) (m : Memory O I V) (i : I) (ref : WeakRef O I) (v : V) :
    Prop where
  key : ref.key = i
  id_referent : id ref.referent = i
  value : (fates ref.referent).value = some v
  isKey : (fates ref.referent).isKey = true
  not_called : ref.serial ∉ m.called
  serial_lt : ref.serial < m.made

/-- The dictionary has an entry for each key, and no other. -/
structure Represents (id : O → I) (fates : O → Fate V) (m : Memory O I V) : Prop where
  entry : ∀ i ref v, m.data.lookup i = some (ref, v) → Entry id fates m i ref v
  found : ∀ obj, (fates obj).isKey = true → ∃ ref v, m.data.lookup (id obj) = some (ref, v) ∧ ref.referent = obj
  serials : ∀ i j ref ref' v v', m.data.lookup i = some (ref, v) → m.data.lookup j = some (ref', v') →
    ref.serial = ref'.serial → i = j
  called_lt : ∀ serial ∈ m.called, serial < m.made
  living : ∀ obj ∈ m.live, obj ∈ m.created ∧ (fates obj).overwritten = false ∧ (fates obj).called = false
  distinct : ∀ obj ∈ m.live, ∀ other ∈ m.live, id obj = id other → obj = other
  unborn : ∀ obj, obj ∉ m.created → fates obj = .unborn

section Facts
variable {id : O → I} {fates : O → Fate V} {m : Memory O I V}

theorem Fate.isKey_iff {fate : Fate V} :
    fate.isKey = true ↔ fate.value.isSome = true ∧ fate.overwritten = false ∧ fate.called = false := by
  simp [Fate.isKey, and_assoc]

theorem Fate.next_set_self (fate : Fate V) (id : O → I) (obj : O) (value : V) :
    fate.next id obj (.set obj value) = {fate with value := some value, overwritten := false} := by
  simp [Fate.next]

/-- A value stored under another id does not concern an object. -/
theorem Fate.next_set_of_ne (fate : Fate V) {obj other : O} (hid : id other ≠ id obj) (value : V) :
    fate.next id obj (.set other value) = fate := by
  have hne : other ≠ obj := fun heq => hid (by rw [heq])
  simp [Fate.next, hne, hid]

/-- An object whose slot was taken over is no key. -/
theorem Fate.next_set_overwritten (fate : Fate V) {obj other : O} (hne : other ≠ obj) (hid : id other = id obj)
    (value : V) : (fate.next id obj (.set other value)).isKey = false := by
  cases hsome : fate.value.isSome <;> simp [Fate.next, hne, hid, hsome, Fate.isKey]

omit [DecidableEq I] in
theorem Memory.deref_eq_some {ref : WeakRef O I} {obj : O} :
    m.deref ref = some obj ↔ ref.referent = obj ∧ obj ∈ m.live := by
  unfold Memory.deref
  by_cases h : ref.referent ∈ m.live
  · rw [if_pos h, Option.some.injEq]
    exact ⟨fun heq => ⟨heq, heq ▸ h⟩, fun hand => hand.1⟩
  · rw [if_neg h]
    constructor
    · intro hnone
      cases hnone
    · rintro ⟨rfl, hlive⟩
      exact absurd hlive h

theorem Memory.holds_iff {ref : WeakRef O I} : m.holds ref = true ↔ ∃ i v, m.data.lookup i = some (ref, v) := by
  unfold Memory.holds
  rw [List.any_eq_true]
  constructor
  · rintro ⟨⟨i, held, v⟩, hmem, heq⟩
    obtain rfl : held = ref := by simpa using heq
    exact ⟨i, v, AList.mem_lookup_iff.mpr hmem⟩
  · rintro ⟨i, v, hlookup⟩
    exact ⟨⟨i, ref, v⟩, AList.mem_lookup_iff.mp hlookup, by simp⟩

omit [DecidableEq O] in
theorem new_represents : Represents id (fun _ => .unborn) (Memory.new : Memory O I V) where
  entry i ref v h := by simp [Memory.new] at h
  found obj h := by cases h
  serials i j ref ref' v v' h := by simp [Memory.new] at h
  called_lt serial h := by simp [Memory.new] at h
  living obj h := by simp [Memory.new] at h
  distinct obj h := by simp [Memory.new] at h
  unborn _ _ := rfl

omit [DecidableEq O] in
/-- The entry of a living key is its own. -/
theorem Represents.lookup_live (h : Represents id fates m) {obj : O} (hlive : obj ∈ m.live) {v : V}
    (hvalue : (fates obj).value = some v) : ∃ ref, m.data.lookup (id obj) = some (ref, v) ∧ ref.referent = obj := by
  obtain ⟨_, hoverwritten, hcalled⟩ := h.living obj hlive
  have hkey : (fates obj).isKey = true := by simp [Fate.isKey, hvalue, hoverwritten, hcalled]
  obtain ⟨ref, v', hlookup, href⟩ := h.found obj hkey
  have hv := (h.entry _ _ _ hlookup).value
  rw [href, hvalue] at hv
  obtain rfl := Option.some.inj hv
  exact ⟨ref, hlookup, href⟩

/-- A lookup gives what was last stored, or raises. -/
theorem Represents.getitem (h : Represents id fates m) {obj : O} (hlive : obj ∈ m.live) :
    (m.getitem id obj).toOption = (fates obj).value := by
  cases hvalue : (fates obj).value with
  | some v =>
    obtain ⟨ref, hlookup, href⟩ := h.lookup_live hlive hvalue
    have hderef : m.deref ref = some obj := Memory.deref_eq_some.mpr ⟨href, hlive⟩
    simp [Memory.getitem, hlookup, hderef, Except.toOption]
  | none =>
    unfold Memory.getitem
    cases hlookup : m.data.lookup (id obj) with
    | none => rfl
    | some entry =>
      obtain ⟨ref, v⟩ := entry
      have hother : m.deref ref ≠ some obj := by
        intro hderef
        have hv := (h.entry _ _ _ hlookup).value
        rw [(Memory.deref_eq_some.mp hderef).1, hvalue] at hv
        cases hv
      simp [hother, Except.toOption]

/-- A callback that may be called finds its own entry. -/
theorem Represents.pending (h : Represents id fates m) {ref : WeakRef O I} (hpending : m.pending ref = true) :
    ref.referent ∉ m.live ∧ ∃ v, m.data.lookup ref.key = some (ref, v) := by
  unfold Memory.pending at hpending
  rw [Bool.and_eq_true, Bool.and_eq_true] at hpending
  obtain ⟨⟨hholds, hdead⟩, _⟩ := hpending
  obtain ⟨i, v, hlookup⟩ := Memory.holds_iff.mp hholds
  refine ⟨of_decide_eq_true hdead, v, ?_⟩
  rw [(h.entry _ _ _ hlookup).key]
  exact hlookup

/-- Storing a value: the entry at the object's id becomes its own, whatever was there. -/
theorem Represents.store (h : Represents id fates m) {obj : O} (hlive : obj ∈ m.live) (value : V)
    (ref : WeakRef O I) {made : Nat} (hreferent : ref.referent = obj) (hkey : ref.key = id obj)
    (hserial : ref.serial < made) (hcalled : ref.serial ∉ m.called) (hmade : m.made ≤ made)
    (hfresh : ∀ i ref' v, m.data.lookup i = some (ref', v) → ref'.serial = ref.serial → i = id obj) :
    Represents id (fun o => (fates o).next id o (.set obj value))
      {m with data := m.data.insert (id obj) (ref, value), made := made} := by
  have hlookup_ne {i : I} (hi : i ≠ id obj) : (m.data.insert (id obj) (ref, value)).lookup i = m.data.lookup i :=
    AList.lookup_insert_ne hi
  have hfate_obj := (fates obj).next_set_self id obj value
  have hfate_ne {o : O} (hid : id o ≠ id obj) : (fates o).next id o (.set obj value) = fates o :=
    Fate.next_set_of_ne (fates o) (Ne.symm hid) value
  obtain ⟨hcreated, hoverwritten, hnotcalled⟩ := h.living obj hlive
  refine ⟨?_, ?_, ?_, fun serial hmem => lt_of_lt_of_le (h.called_lt serial hmem) hmade, ?_, h.distinct, ?_⟩
  · intro i ref' v hlookup
    by_cases hi : i = id obj
    · subst hi
      rw [AList.lookup_insert] at hlookup
      obtain ⟨rfl, rfl⟩ := Prod.mk.inj (Option.some.inj hlookup)
      refine ⟨hkey, by rw [hreferent], ?_, ?_, hcalled, hserial⟩
      · rw [hreferent, hfate_obj]
      · rw [hreferent, hfate_obj]
        simp [Fate.isKey, hnotcalled]
    · rw [hlookup_ne hi] at hlookup
      have hentry := h.entry i ref' v hlookup
      have hid : id ref'.referent ≠ id obj := by rwa [hentry.id_referent]
      refine ⟨hentry.key, hentry.id_referent, ?_, ?_, hentry.not_called, lt_of_lt_of_le hentry.serial_lt hmade⟩
      · rw [hfate_ne hid]
        exact hentry.value
      · rw [hfate_ne hid]
        exact hentry.isKey
  · intro o hisKey
    by_cases ho : o = obj
    · subst ho
      exact ⟨ref, value, AList.lookup_insert _, hreferent⟩
    · by_cases hid : id o = id obj
      · -- the slot was taken over: the object is no key any more
        rw [Fate.next_set_overwritten (fates o) (Ne.symm ho) hid.symm value] at hisKey
        cases hisKey
      · rw [hfate_ne hid] at hisKey
        obtain ⟨ref', v, hlookup, href⟩ := h.found o hisKey
        exact ⟨ref', v, by rw [hlookup_ne hid]; exact hlookup, href⟩
  · intro i j ref₁ ref₂ v₁ v₂ hi hj heq
    by_cases hiobj : i = id obj
    · by_cases hjobj : j = id obj
      · rw [hiobj, hjobj]
      · subst hiobj
        rw [AList.lookup_insert] at hi
        rw [hlookup_ne hjobj] at hj
        obtain ⟨rfl, rfl⟩ := Prod.mk.inj (Option.some.inj hi)
        exact absurd (hfresh j ref₂ v₂ hj heq.symm) hjobj
    · rw [hlookup_ne hiobj] at hi
      by_cases hjobj : j = id obj
      · subst hjobj
        rw [AList.lookup_insert] at hj
        obtain ⟨rfl, rfl⟩ := Prod.mk.inj (Option.some.inj hj)
        exact absurd (hfresh i ref₁ v₁ hi heq) hiobj
      · rw [hlookup_ne hjobj] at hj
        exact h.serials i j ref₁ ref₂ v₁ v₂ hi hj heq
  · intro o ho
    by_cases heq : o = obj
    · subst heq
      exact ⟨hcreated, by rw [hfate_obj], by rw [hfate_obj]; exact hnotcalled⟩
    · rw [hfate_ne fun hid => heq (h.distinct o ho obj hlive hid)]
      exact h.living o ho
  · intro o ho
    have hne : obj ≠ o := fun heq => ho (heq ▸ hcreated)
    simp [Fate.next, hne, h.unborn o ho, Fate.unborn]

theorem Represents.setitem (h : Represents id fates m) {obj : O} (hlive : obj ∈ m.live) (value : V) :
    Represents id (fun o => (fates o).next id o (.set obj value)) (m.setitem id obj value) := by
  unfold Memory.setitem
  cases hfind : m.findRef id obj with
  | ok ref =>
    obtain ⟨v, hlookup, href⟩ : ∃ v, m.data.lookup (id obj) = some (ref, v) ∧ ref.referent = obj := by
      unfold Memory.findRef at hfind
      cases hlookup : m.data.lookup (id obj) with
      | none => simp [hlookup] at hfind
      | some entry =>
        obtain ⟨found, v⟩ := entry
        by_cases hderef : m.deref found = some obj
        · simp [hlookup, hderef] at hfind
          exact ⟨v, by rw [hfind], hfind ▸ (Memory.deref_eq_some.mp hderef).1⟩
        · simp [hlookup, hderef] at hfind
    have hentry := h.entry _ _ _ hlookup
    exact h.store hlive value ref href hentry.key hentry.serial_lt hentry.not_called le_rfl
      fun i ref' v' hi heq => h.serials i (id obj) ref' ref v' v hi hlookup heq
  | error _ =>
    have hnew : m.made ∉ m.called := fun hmem => absurd (h.called_lt m.made hmem) (lt_irrefl _)
    exact h.store hlive value ⟨m.made, obj, id obj⟩ rfl rfl (Nat.lt_succ_self _) hnew (Nat.le_succ _)
      fun i ref' v' hi heq => absurd (h.entry i ref' v' hi).serial_lt (by rw [heq]; exact lt_irrefl _)

/-- A callback deletes the entry it was made for, and no other. -/
theorem Represents.destroyed (h : Represents id fates m) {ref : WeakRef O I} (hpending : m.pending ref = true) :
    Represents id (fun o => (fates o).next id o (.destroyed ref : Event O I V))
      {m with called := insert ref.serial m.called, data := m.data.erase ref.key} := by
  obtain ⟨hdead, v, hown⟩ := h.pending hpending
  have hentry := h.entry _ _ _ hown
  have hfate_ne {o : O} (hne : ref.referent ≠ o) : (fates o).next id o (.destroyed ref : Event O I V) = fates o := by
    simp [Fate.next, hne]
  have hlookup {i : I} {found : WeakRef O I × V} (hi : (m.data.erase ref.key).lookup i = some found) :
      i ≠ ref.key ∧ m.data.lookup i = some found := by
    by_cases heq : i = ref.key
    · rw [heq, AList.lookup_erase] at hi
      cases hi
    · rw [AList.lookup_erase_ne heq] at hi
      exact ⟨heq, hi⟩
  refine ⟨?_, ?_, ?_, ?_, ?_, h.distinct, ?_⟩
  · intro i ref' v' hi
    obtain ⟨hne, hi⟩ := hlookup hi
    have hother := h.entry i ref' v' hi
    have hreferent : ref.referent ≠ ref'.referent := fun heq => hne <| by
      rw [← hother.id_referent, ← heq, hentry.id_referent]
    refine ⟨hother.key, hother.id_referent, ?_, ?_, ?_, hother.serial_lt⟩
    · rw [hfate_ne hreferent]
      exact hother.value
    · rw [hfate_ne hreferent]
      exact hother.isKey
    · intro hmem
      rcases Finset.mem_insert.mp hmem with heq | hold
      · exact hne (h.serials i ref.key ref' ref v' v hi hown heq)
      · exact hother.not_called hold
  · intro o hisKey
    have hreferent : ref.referent ≠ o := fun heq => by simp [Fate.next, heq, Fate.isKey] at hisKey
    rw [hfate_ne hreferent] at hisKey
    obtain ⟨ref', v', hfound, href'⟩ := h.found o hisKey
    have hne : id o ≠ ref.key := fun heq => by
      rw [heq, hown] at hfound
      obtain ⟨rfl, _⟩ := Prod.mk.inj (Option.some.inj hfound)
      exact hreferent href'
    exact ⟨ref', v', by rw [AList.lookup_erase_ne hne]; exact hfound, href'⟩
  · intro i j ref₁ ref₂ v₁ v₂ hi hj
    exact h.serials i j ref₁ ref₂ v₁ v₂ (hlookup hi).2 (hlookup hj).2
  · intro serial hmem
    rcases Finset.mem_insert.mp hmem with rfl | hold
    · exact hentry.serial_lt
    · exact h.called_lt serial hold
  · intro o ho
    rw [hfate_ne fun heq => hdead (heq ▸ ho)]
    exact h.living o ho
  · intro o ho
    have hreferent : ref.referent ≠ o := fun heq => by
      have hvalue := hentry.value
      rw [heq, h.unborn o ho] at hvalue
      cases hvalue
    rw [hfate_ne hreferent]
    exact h.unborn o ho

/-- Step: the entries stay those of the keys. -/
theorem Represents.step {t : Memory O I V} {e : Event O I V} (h : Represents id fates m) (hstep : step id m e = some t) :
    Represents id (fun o => (fates o).next id o e) t := by
  cases e with
  | create obj =>
    by_cases hnew : obj ∉ m.created ∧ ∀ other ∈ m.live, id other ≠ id obj
    · simp only [Dask.step, if_pos hnew, Option.some.injEq] at hstep
      subst hstep
      refine ⟨fun i ref v hi => ?_, h.found, h.serials, h.called_lt, ?_, ?_, ?_⟩
      · obtain ⟨hkey, hid, hvalue, hisKey, hcalled, hserial⟩ := h.entry i ref v hi
        exact ⟨hkey, hid, hvalue, hisKey, hcalled, hserial⟩
      · intro o ho
        rcases Finset.mem_insert.mp ho with rfl | hold
        · show o ∈ insert o m.created ∧ (fates o).overwritten = false ∧ (fates o).called = false
          rw [h.unborn o hnew.1]
          exact ⟨Finset.mem_insert_self _ _, rfl, rfl⟩
        · obtain ⟨hcreated, hfate⟩ := h.living o hold
          exact ⟨Finset.mem_insert_of_mem hcreated, hfate⟩
      · intro o ho other hother hid
        rcases Finset.mem_insert.mp ho with rfl | hold
        · rcases Finset.mem_insert.mp hother with rfl | hotherOld
          · rfl
          · exact absurd hid.symm (hnew.2 other hotherOld)
        · rcases Finset.mem_insert.mp hother with rfl | hotherOld
          · exact absurd hid (hnew.2 o hold)
          · exact h.distinct o hold other hotherOld hid
      · intro o ho
        exact h.unborn o fun hmem => ho (Finset.mem_insert_of_mem hmem)
    · simp [Dask.step, hnew] at hstep
  | set obj value =>
    by_cases hlive : obj ∈ m.live
    · simp only [Dask.step, if_pos hlive, Option.some.injEq] at hstep
      subst hstep
      exact h.setitem hlive value
    · simp [Dask.step, hlive] at hstep
  | get obj =>
    by_cases hlive : obj ∈ m.live
    · simp only [Dask.step, if_pos hlive, Option.some.injEq] at hstep
      subst hstep
      exact h
    · simp [Dask.step, hlive] at hstep
  | len =>
    simp only [Dask.step, Option.some.injEq] at hstep
    subst hstep
    exact h
  | die obj =>
    by_cases hlive : obj ∈ m.live
    · simp only [Dask.step, if_pos hlive, Option.some.injEq] at hstep
      subst hstep
      refine ⟨fun i ref v hi => ?_, h.found, h.serials, h.called_lt, ?_, ?_, h.unborn⟩
      · obtain ⟨hkey, hid, hvalue, hisKey, hcalled, hserial⟩ := h.entry i ref v hi
        exact ⟨hkey, hid, hvalue, hisKey, hcalled, hserial⟩
      · intro o ho
        exact h.living o (Finset.mem_of_mem_erase ho)
      · intro o ho other hother
        exact h.distinct o (Finset.mem_of_mem_erase ho) other (Finset.mem_of_mem_erase hother)
    · simp [Dask.step, hlive] at hstep
  | destroyed ref =>
    by_cases hpending : m.pending ref = true
    · obtain ⟨_, v, hown⟩ := h.pending hpending
      simp only [Dask.step, if_pos hpending, Memory.onDestroy, hown, Option.some.injEq] at hstep
      subst hstep
      exact h.destroyed hpending
    · simp [Dask.step, hpending] at hstep

/-- Run. -/
theorem run_represents (h : Represents id fates m) {events : List (Event O I V)} {t : Memory O I V}
    (hrun : Runs.run (Dask.step id) m events = some t) :
    Represents id (fun o => events.foldl (Fate.next id o) (fates o)) t := by
  induction events generalizing m fates with
  | nil =>
    obtain rfl := Option.some.inj hrun
    exact h
  | cons e rest ih =>
    obtain ⟨s, hs, hrest⟩ := Runs.run_cons hrun
    exact ih (h.step hs) hrest

/-- The length is the number of keys. -/
theorem Represents.len (h : Represents id fates m) : m.len = (m.created.filter fun obj => (fates obj).isKey = true).card := by
  have hkeys : (m.created.filter fun obj => (fates obj).isKey = true).image id = m.data.keys.toFinset := by
    ext i
    rw [List.mem_toFinset, Finset.mem_image, ← AList.mem_keys, ← AList.lookup_isSome]
    constructor
    · rintro ⟨obj, hobj, rfl⟩
      obtain ⟨ref, v, hlookup, _⟩ := h.found obj (Finset.mem_filter.mp hobj).2
      rw [hlookup]
      rfl
    · intro hsome
      obtain ⟨⟨ref, v⟩, hlookup⟩ := Option.isSome_iff_exists.mp hsome
      have hentry := h.entry i ref v hlookup
      refine ⟨ref.referent, Finset.mem_filter.mpr ⟨?_, hentry.isKey⟩, hentry.id_referent⟩
      by_contra hcreated
      have hvalue := hentry.value
      rw [h.unborn _ hcreated] at hvalue
      cases hvalue
  have hinj : Set.InjOn id (m.created.filter fun obj => (fates obj).isKey = true) := by
    intro obj hobj other hother hid
    obtain ⟨ref, v, hlookup, href⟩ := h.found obj (Finset.mem_filter.mp hobj).2
    obtain ⟨ref', v', hlookup', href'⟩ := h.found other (Finset.mem_filter.mp hother).2
    rw [hid, hlookup'] at hlookup
    obtain ⟨rfl, _⟩ := Prod.mk.inj (Option.some.inj hlookup)
    rw [← href, ← href']
  have hcard := List.toFinset_card_of_nodup m.data.keys_nodup
  rw [← hkeys, Finset.card_image_of_injOn hinj] at hcard
  rw [hcard]
  show m.data.entries.length = (m.data.entries.map Sigma.fst).length
  rw [List.length_map]

/-- A dead object is a key as long as its callback may be called. -/
theorem Represents.isKey_dead_iff (h : Represents id fates m) {obj : O} (hdead : obj ∉ m.live) :
    (fates obj).isKey = true ↔ ∃ ref, ref.referent = obj ∧ m.pending ref = true := by
  constructor
  · intro hisKey
    obtain ⟨ref, v, hlookup, href⟩ := h.found obj hisKey
    have hholds : m.holds ref = true := Memory.holds_iff.mpr ⟨_, v, hlookup⟩
    exact ⟨ref, href, by simp [Memory.pending, hholds, href, hdead, (h.entry _ _ _ hlookup).not_called]⟩
  · rintro ⟨ref, rfl, hpending⟩
    obtain ⟨_, v, hlookup⟩ := h.pending hpending
    exact (h.entry _ _ _ hlookup).isKey

/-- The living objects among the keys are those with a value. -/
theorem card_keys (h : Represents id fates m) : (m.created.filter fun obj => (fates obj).isKey = true).card =
    (m.live.filter fun obj => (fates obj).value.isSome = true).card +
      ((m.created \ m.live).filter fun obj => (fates obj).isKey = true).card := by
  have hsubset : m.live ⊆ m.created := fun obj hlive => (h.living obj hlive).1
  have hlive : (m.live.filter fun obj => (fates obj).isKey = true) =
      m.live.filter fun obj => (fates obj).value.isSome = true := by
    apply Finset.filter_congr
    intro obj hobj
    obtain ⟨_, hoverwritten, hcalled⟩ := h.living obj hobj
    rw [Fate.isKey_iff]
    exact ⟨fun hkey => hkey.1, fun hsome => ⟨hsome, hoverwritten, hcalled⟩⟩
  rw [← hlive, ← Finset.card_union_of_disjoint, ← Finset.filter_union, Finset.union_sdiff_of_subset hsubset]
  exact Finset.disjoint_filter_filter Finset.disjoint_sdiff

/-- Only storing changes an object's value. -/
theorem Fate.next_value (fate : Fate V) {obj : O} {e : Event O I V} (h : ∀ value, e ≠ .set obj value) :
    (fate.next id obj e).value = fate.value := by
  cases e with
  | set other value =>
    have hne : other ≠ obj := fun heq => h value (by rw [heq])
    simp only [Fate.next, if_neg hne]
    split <;> rfl
  | destroyed ref =>
    simp only [Fate.next]
    split <;> rfl
  | create _ | get _ | len | die _ => rfl

end Facts

/-- After `events` the dictionary maps each living object to what was last stored for it;
nothing but storing for an object changes that; no callback raises; and the length is the
number of living keys and of the dead ones whose slot is still their own and whose callback
is still to be called. -/
structure IdentityMap (id : O → I) (events : List (Event O I V)) (m : Memory O I V) : Prop where
  lookup : ∀ obj ∈ m.live, (m.getitem id obj).toOption = (fate id events obj).value
  kept : ∀ e t, step id m e = some t → ∀ obj ∈ m.live, obj ∈ t.live → (∀ value, e ≠ .set obj value) →
    (t.getitem id obj).toOption = (m.getitem id obj).toOption
  never_raises : ∀ ref, m.pending ref = true → ∃ t, m.onDestroy ref = .ok t
  len : m.len = (m.live.filter fun obj => (fate id events obj).value.isSome = true).card +
    ((m.created \ m.live).filter fun obj => (fate id events obj).isKey = true).card
  dead : ∀ obj ∉ m.live, (fate id events obj).isKey = true ↔ ∃ ref, ref.referent = obj ∧ m.pending ref = true

/-- **The dictionary is an identity map, along any sequence of events.** -/
theorem run_identityMap (id : O → I) {events : List (Event O I V)} {m : Memory O I V}
    (h : Runs.run (step id) .new events = some m) : IdentityMap id events m := by
  have hrepresents : Represents id (fate id events) m := run_represents new_represents h
  refine ⟨fun obj hlive => hrepresents.getitem hlive, fun e t ht obj hlive hlive' hset => ?_, fun ref hpending => ?_,
    hrepresents.len.trans (card_keys hrepresents), fun obj hdead => hrepresents.isKey_dead_iff hdead⟩
  · rw [hrepresents.getitem hlive, (hrepresents.step ht).getitem hlive']
    exact Fate.next_value _ hset
  · obtain ⟨_, v, hlookup⟩ := hrepresents.pending hpending
    exact ⟨_, by simp only [Memory.onDestroy, hlookup]; rfl⟩

/-- Two objects of one id: the second is stored before the first one's callback. -/
def recycled : List (Event Nat Unit String) :=
  [.create 0, .set 0 "first", .die 0, .create 1, .set 1 "second", .get 1]

theorem recycled_identityMap : ∃ m, Runs.run (step fun _ => ()) .new recycled = some m ∧
    IdentityMap (fun _ => ()) recycled m :=
  ⟨_, rfl, run_identityMap (fun _ => ()) rfl⟩

end Joblib.Dask
