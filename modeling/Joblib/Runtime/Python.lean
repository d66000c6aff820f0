import Mathlib.Data.Stream.Init

/-! The Python the modelled code is written against: exceptions, calls, iterators.

Values of the user's tasks are of any type `α` and their own exceptions of any
type `ε`; the exceptions the code itself raises or tells apart are named. An
iterator is the sequence of what its successive `__next__` calls do. -/
namespace Joblib

inductive Exc (ε : Type) where
  | stopIteration
  | typeError (message : String)
  | attributeError (message : String)
  | valueError (message : String)
  | runtimeError (message : String)
  | timeoutError (message : String)
  | keyError (key : String)
  | user (error : ε)
deriving DecidableEq, Repr

/-- Whether `except RuntimeError` catches it. -/
def Exc.isRuntimeError {ε : Type} : Exc ε → Bool
  | .runtimeError _ => true
  | _ => false

/-- An exception leaving a generator's body: a `StopIteration` would be mistaken
for the generator's own end, so the interpreter replaces it. -/
def Exc.leavingGenerator {ε : Type} : Exc ε → Exc ε
  | .stopIteration => .runtimeError "generator raised StopIteration"
  | e => e

theorem Exc.leavingGenerator_eq {ε : Type} {e : Exc ε} (h : e ≠ .stopIteration) :
    e.leavingGenerator = e := by
  cases e <;> first | exact absurd rfl h | rfl

/-- `e` crosses a generator's frame unchanged unless it is a `StopIteration`. -/
theorem Exc.leavingGenerator_eq_iff {ε : Type} {e : Exc ε} :
    e.leavingGenerator = e ↔ e ≠ .stopIteration := by
  constructor
  · rintro h rfl
    cases h
  · exact Exc.leavingGenerator_eq

/-- A function of the user's, on positional and keyword arguments. -/
abbrev Function (α ε : Type) := List α → List (String × α) → Except (Exc ε) α

/-- A function with the arguments to call it on. -/
structure Call (α ε : Type) where
  function : Function α ε
  args : List α
  kwargs : List (String × α)

def Call.result {α ε : Type} (c : Call α ε) : Except (Exc ε) α := c.function c.args c.kwargs

/-- What an iterable of tasks may hold: the callable `delayed` builds, or a
`(func, args, kwargs)` tuple. -/
inductive Item (α ε : Type) where
  | closure (call : Call α ε)
  | tuple (call : Call α ε)

/-- `delayed(function)(*args, **kwargs)`: a `lambda` over the captured arguments. -/
def delayed {α ε : Type} (function : Function α ε) (args : List α) (kwargs : List (String × α)) :
    Item α ε := .closure ⟨function, args, kwargs⟩

/-- The task `delayed` makes of a call. -/
def Call.delayed {α ε : Type} (c : Call α ε) : Item α ε := Joblib.delayed c.function c.args c.kwargs

/-- `func()`. -/
def Item.call {α ε : Type} : Item α ε → Except (Exc ε) α
  | .closure c => c.result
  | .tuple _ => .error (.typeError "'tuple' object is not callable")

/-- `func, args, kwargs = item`. -/
def Item.unpack {α ε : Type} : Item α ε → Except (Exc ε) (Call α ε)
  | .closure _ => .error (.typeError "cannot unpack non-iterable function object")
  | .tuple c => .ok c

@[simp] theorem Call.delayed_call {α ε : Type} (c : Call α ε) : c.delayed.call = c.result := rfl

/-- What the successive `__next__` calls of an iterator do: give an item, or raise;
`StopIteration` is its end. -/
abbrev Iterator (ι ε : Type) := Stream' (Except (Exc ε) ι)

/-- The iterator of a list. -/
def Iterator.ofList {ι ε : Type} (items : List ι) : Iterator ι ε :=
  Stream'.appendStream' (items.map .ok) (Stream'.const (.error .stopIteration))

@[simp] theorem Iterator.head_ofList_cons {ι ε : Type} (i : ι) (rest : List ι) :
    (Iterator.ofList (i :: rest) : Iterator ι ε).head = .ok i := rfl

@[simp] theorem Iterator.tail_ofList_cons {ι ε : Type} (i : ι) (rest : List ι) :
    (Iterator.ofList (i :: rest) : Iterator ι ε).tail = Iterator.ofList rest := rfl

/-- What was taken off the front of a list's iterator was the front of the list. -/
theorem Iterator.ofList_eq_append {ι ε : Type} {items batch : List ι} {rest : Iterator ι ε}
    (h : Iterator.ofList items = Stream'.appendStream' (batch.map .ok) rest) :
    ∃ left, items = batch ++ left ∧ rest = Iterator.ofList left := by
  induction batch generalizing items with
  | nil => exact ⟨items, rfl, h.symm⟩
  | cons i batch ih =>
    have hhead := congrArg Stream'.head h
    have htail := congrArg Stream'.tail h
    cases items with
    | nil => cases hhead
    | cons j items =>
      obtain rfl : j = i := Except.ok.inj hhead
      obtain ⟨left, rfl, hrest⟩ := ih htail
      exact ⟨left, rfl, hrest⟩

theorem Iterator.ofList_eq_nil {ι ε : Type} {items : List ι} :
    (Iterator.ofList items : Iterator ι ε) = Iterator.ofList [] ↔ items = [] := by
  constructor
  · intro h
    have hhead := congrArg Stream'.head h
    cases items with
    | nil => rfl
    | cons i items => cases hhead
  · rintro rfl
    rfl

theorem Iterator.ofList_injective {ι ε : Type} :
    Function.Injective (Iterator.ofList : List ι → Iterator ι ε) := by
  intro items
  induction items with
  | nil => exact fun other h => (Iterator.ofList_eq_nil.mp h.symm).symm
  | cons i items ih =>
    intro other h
    cases other with
    | nil => exact Iterator.ofList_eq_nil.mp h
    | cons j other =>
      obtain rfl : i = j := Except.ok.inj (congrArg Stream'.head h)
      rw [ih (congrArg Stream'.tail h)]

/-- `iter(iterable)`: an iterator, unless the object has none to give. -/
abbrev Iterable (ι ε : Type) := Except (Exc ε) (Iterator ι ε)

def Iterable.ofList {ι ε : Type} (items : List ι) : Iterable ι ε := .ok (Iterator.ofList items)

end Joblib
