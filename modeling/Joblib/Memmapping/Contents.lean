import Joblib.Memmapping.Backing
import Joblib.Memmapping.References

/-! What the arrays a reducer hands out contain.

The parent may write to an array between two reductions. The plain path pickles what is
there. The memmapping path dumps an array once for each folder and hands the same file out
ever after, so what a worker rebuilds is what the array held when it was first sent to that
folder (`rebuilds_first_sent`). `History` is that rule on its own: it knows the contents and
what was first sent, and neither names nor files. -/
namespace Joblib.Memmapping

/-- A reducer's world, what is in each array, and what was last dumped into each file. -/
structure Contents (F V : Type) where
  world : World F
  content : Nat → V
  dumped : Filename F → Option V

namespace Contents
variable {F V : Type} [DecidableEq F] (r : ArrayMemmapForwardReducer)

inductive Event (F V : Type) where
  /-- A reduction; its dump succeeds, if there is one. -/
  | reduce (t : Nat) (a : NdArray) (folder : F)
  /-- The parent writes to an array. -/
  | modify (i : Nat) (v : V)

/-- A new reducer, the arrays being what they are. -/
def initial (content : Nat → V) : Contents F V := ⟨.initial, content, fun _ => none⟩

/-- The state after a reduction that ends in the world `w`: a file it has created was dumped
from the array. -/
def settled (s : Contents F V) (a : NdArray) (w : World F) : Contents F V :=
  {s with world := w, dumped := fun f => if References.created s.world w f then some (s.content a.id) else s.dumped f}

def reduced (s : Contents F V) (t : Nat) (a : NdArray) (folder : F) : Contents F V :=
  settled s a (r.reduce t a folder false s.world).2

def next (s : Contents F V) : Event F V → Contents F V
  | .reduce t a folder => reduced r s t a folder
  | .modify i v => {s with content := Function.update s.content i v}

def run (content : Nat → V) (events : List (Event F V)) : Contents F V := events.foldl (next r) (initial content)

/-- What a worker rebuilds. `loads(dumps(a))` is `a`, `load_temporary_memmap` loads what was
dumped; of a memmap backed array, `viewed` says what it rebuilds. -/
def rebuilt (viewed : NdArray → V → V) (s : Contents F V) : Reduced F → Option V
  | .reduceMemmapBacked a => some (viewed a (s.content a.id))
  | .loadTemporaryMemmap f _ _ => s.dumped f
  | .loadsDumps a => some (s.content a.id)

/-- The array takes the memmapping path. -/
def mapped (a : NdArray) : Bool := !a.memmapBacked && r.memmaps a

/-! ### The rule -/

/-- What is in each array, and what was in it when it was first sent to each folder through
the memmapping path. -/
structure History (F V : Type) where
  content : Nat → V
  sent : Nat → F → Option V

/-- The array is sent, if it has not been. -/
def History.send (h : History F V) (i : Nat) (folder : F) : History F V :=
  {h with sent := fun j place =>
    if j = i ∧ place = folder then some ((h.sent i folder).getD (h.content i)) else h.sent j place}

def History.next (h : History F V) : Event F V → History F V
  | .reduce _ a folder => if mapped r a then h.send a.id folder else h
  | .modify i v => {h with content := Function.update h.content i v}

def history (content : Nat → V) (events : List (Event F V)) : History F V :=
  events.foldl (History.next r) ⟨content, fun _ _ => none⟩

/-- What a reduction of the array sends. -/
def History.sends (h : History F V) (a : NdArray) (folder : F) : V :=
  if mapped r a then (h.sent a.id folder).getD (h.content a.id) else h.content a.id

/-! ### The files go by the rule -/

/-- What the file for an array and a folder holds, if there is one. -/
def found (w : World F) (dumped : Filename F → Option V) (i : Nat) (folder : F) : Option V :=
  (w.memmapedArrays i).bind fun basename => (w.disk ⟨folder, basename⟩).bind fun _ => dumped ⟨folder, basename⟩

/-- The contents are known, every file's name is its array's, and it holds what was first sent. -/
structure Represents (s : Contents F V) (h : History F V) : Prop where
  content : s.content = h.content
  named : Reducers.Named s.world
  dumped : ∀ f, (s.world.disk f).isSome = true → (s.dumped f).isSome = true
  sent : ∀ i folder, found s.world s.dumped i folder = h.sent i folder

omit [DecidableEq F] in
theorem initial_represents (content : Nat → V) :
    Represents (initial content : Contents F V) ⟨content, fun _ _ => none⟩ where
  content := rfl
  named := .initial
  dumped _ h := by cases h
  sent _ _ := rfl

omit [DecidableEq F] in
theorem found_congr {w w' : World F} (hmap : w'.memmapedArrays = w.memmapedArrays) (hdisk : w'.disk = w.disk)
    (dumped : Filename F → Option V) (i : Nat) (folder : F) : found w' dumped i folder = found w dumped i folder := by
  unfold found
  rw [hmap, hdisk]

variable (V) in
/-- Before it tests for the array's file, in the world `w'`: the name is the array's, and no file
has been found or lost. -/
structure Tests (w : World F) (a : NdArray) (basename : Basename) (w' : World F) : Prop where
  named : Reducers.Named w'
  name : w'.memmapedArrays a.id = some basename
  disk : w'.disk = w.disk
  found : ∀ (dumped : Filename F → Option V) i place, found w' dumped i place = found w dumped i place

omit [DecidableEq F] in
/-- A new name has no file yet. -/
theorem basename_tests {w : World F} (hnamed : Reducers.Named w) (t : Nat) (a : NdArray) :
    Tests V w a (ArrayMemmapForwardReducer.basename t a w).1 (ArrayMemmapForwardReducer.basename t a w).2 := by
  unfold ArrayMemmapForwardReducer.basename
  cases hmap : w.memmapedArrays a.id with
  | some basename => exact ⟨hnamed, hmap, rfl, fun _ _ _ => rfl⟩
  | none =>
    refine ⟨(hnamed.name t a).1, Function.update_self .., rfl, fun dumped i place => ?_⟩
    by_cases hi : i = a.id
    · subst hi
      have hfree : w.disk ⟨place, ⟨t, w.drawn.length⟩⟩ = none := by
        cases hdisk : w.disk ⟨place, ⟨t, w.drawn.length⟩⟩ with
        | none => rfl
        | some file =>
          have hdrawn := hnamed.files _ file hdisk
          simp at hdrawn
      simp [found, World.name, hmap, hfree]
    · simp [found, World.name, Function.update_of_ne hi]

/-- Counting the file in touches neither names nor files. -/
theorem Tests.countIn {w w' : World F} {a : NdArray} {basename : Basename} (h : Tests V w a basename w')
    (r : ArrayMemmapForwardReducer) (f : Filename F) : Tests V w a basename (r.countIn f w') := by
  obtain ⟨hdisk, hmap, hdrawn⟩ : (r.countIn f w').disk = w'.disk ∧ (r.countIn f w').memmapedArrays = w'.memmapedArrays ∧
      (r.countIn f w').drawn = w'.drawn := by
    unfold ArrayMemmapForwardReducer.countIn
    dsimp only
    split <;> split <;> exact ⟨rfl, rfl, rfl⟩
  refine ⟨⟨?_, ?_⟩, hmap ▸ h.name, hdisk.trans h.disk, fun dumped i place => ?_⟩
  · rw [hmap, hdrawn]
    exact h.named.arrays
  · rw [hdisk, hdrawn]
    exact h.named.files
  · rw [found_congr hmap hdisk]
    exact h.found dumped i place

variable (V) in
/-- A reduction on the memmapping path, up to the test. -/
theorem reduce_mapped {w : World F} (hnamed : Reducers.Named w) {r : ArrayMemmapForwardReducer} {a : NdArray}
    (ha : mapped r a = true) (t : Nat) (folder : F) (raises : Bool) :
    ∃ basename w', r.reduce t a folder raises w = r.backed t a ⟨folder, basename⟩ raises w' ∧
      Tests V w a basename w' := by
  obtain ⟨hbacked, hmemmaps⟩ : a.memmapBacked = false ∧ r.memmaps a = true := by simpa [mapped] using ha
  refine ⟨_, _, ?_, (basename_tests hnamed t a).countIn r ⟨folder, (ArrayMemmapForwardReducer.basename t a w).1⟩⟩
  simp only [ArrayMemmapForwardReducer.reduce, hbacked, hmemmaps, Bool.false_eq_true, if_false, if_true]

/-- A dump into a file adds what it holds, and to no other array or folder. -/
theorem found_dumped {w w' : World F} (hnamed : Reducers.Named w) {a : NdArray} {folder : F} {basename : Basename}
    (hname : w.memmapedArrays a.id = some basename) (hmap : w'.memmapedArrays = w.memmapedArrays) {file : File}
    (hdisk : w'.disk = Function.update w.disk ⟨folder, basename⟩ (some file)) (dumped : Filename F → Option V) (v : V)
    (i : Nat) (place : F) :
    found w' (Function.update dumped ⟨folder, basename⟩ (some v)) i place =
      if i = a.id ∧ place = folder then some v else found w dumped i place := by
  unfold found
  rw [hmap, hdisk]
  by_cases hsame : i = a.id ∧ place = folder
  · obtain ⟨rfl, rfl⟩ := hsame
    simp [hname]
  · rw [if_neg hsame]
    cases hi : w.memmapedArrays i with
    | none => rfl
    | some other =>
      -- a name is of one array, so another array's file, or one elsewhere, is another file
      have hne : (⟨place, other⟩ : Filename F) ≠ ⟨folder, basename⟩ := by
        intro heq
        obtain ⟨rfl, rfl⟩ : place = folder ∧ other = basename := by simpa using heq
        have hdrawn := (hnamed.arrays i other hi).symm.trans (hnamed.arrays a.id other hname)
        exact hsame ⟨Option.some.inj hdrawn, rfl⟩
      simp [Function.update_of_ne hne]

/-! ### A reduction -/

/-- The file is there: it is handed out as it is. -/
theorem Represents.kept {s : Contents F V} {h : History F V} (hs : Represents s h) {a : NdArray} {folder : F}
    {basename : Basename} {w : World F} (htests : Tests V s.world a basename w) {file : File}
    (hfile : w.disk ⟨folder, basename⟩ = some file) :
    Represents (settled s a w) (h.send a.id folder) ∧
      (settled s a w).dumped ⟨folder, basename⟩ = some ((h.sent a.id folder).getD (s.content a.id)) := by
  have hsettled : settled s a w = {s with world := w} := by
    have hnone : ∀ f, References.created s.world w f = false := fun f => References.created_same (by rw [htests.disk])
    simp [settled, hnone]
  have hold : (s.dumped ⟨folder, basename⟩).isSome = true := by
    refine hs.dumped _ ?_
    rw [← htests.disk, hfile]
    rfl
  obtain ⟨v, hv⟩ := Option.isSome_iff_exists.mp hold
  have hsent : h.sent a.id folder = some v := by
    rw [← hs.sent, ← htests.found]
    simp [found, htests.name, hfile, hv]
  have hsame : h.send a.id folder = h := by
    unfold History.send
    congr 1
    funext j place
    split
    next hthis => rw [hthis.1, hthis.2, hsent]; rfl
    next => rfl
  rw [hsettled, hsame, hsent]
  refine ⟨⟨hs.content, htests.named, fun f hf => hs.dumped f ?_, fun i place => ?_⟩, hv⟩
  · rwa [← htests.disk]
  · exact (htests.found s.dumped i place).trans (hs.sent i place)

/-- The file is not there: the array is dumped as it is. -/
theorem Represents.dumps {s : Contents F V} {h : History F V} (hs : Represents s h) {a : NdArray} {folder : F}
    {basename : Basename} {w : World F} (htests : Tests V s.world a basename w) (t : Nat)
    (hfile : w.disk ⟨folder, basename⟩ = none) :
    let w' := (w.openFile t a ⟨folder, basename⟩).closeFile t ⟨folder, basename⟩
    Represents (settled s a w') (h.send a.id folder) ∧
      (settled s a w').dumped ⟨folder, basename⟩ = some ((h.sent a.id folder).getD (s.content a.id)) := by
  intro w'
  have hdisk : w'.disk = Function.update w.disk ⟨folder, basename⟩ (some ⟨a.id, t, true⟩) := by
    simp [w', World.closeFile, World.openFile]
  have hdumped : (settled s a w').dumped = Function.update s.dumped ⟨folder, basename⟩ (some (s.content a.id)) := by
    funext f
    simp only [settled, References.created, hdisk, ← htests.disk]
    by_cases hf : f = ⟨folder, basename⟩
    · subst hf
      simp [hfile]
    · simp only [Function.update_of_ne hf]
      cases w.disk f <;> rfl
  have hsent : h.sent a.id folder = none := by
    rw [← hs.sent, ← htests.found]
    simp [found, htests.name, hfile]
  have hdrawn := htests.named.arrays a.id basename htests.name
  refine ⟨⟨hs.content, (htests.named.openFile t hdrawn).closeFile t _, fun f hf => ?_, fun i place => ?_⟩, ?_⟩
  · rw [hdumped]
    by_cases hf' : f = ⟨folder, basename⟩
    · subst hf'
      simp
    · rw [Function.update_of_ne hf']
      refine hs.dumped f ?_
      change (w'.disk f).isSome = true at hf
      rwa [hdisk, Function.update_of_ne hf', htests.disk] at hf
  · rw [hdumped]
    have hmap : w'.memmapedArrays = w.memmapedArrays := rfl
    refine (found_dumped htests.named htests.name hmap hdisk s.dumped (s.content a.id) i place).trans ?_
    rw [htests.found, hs.sent]
    simp only [History.send, hsent, ← hs.content, Option.getD_none]
  · rw [hdumped, Function.update_self, hsent]
    rfl

/-- On the memmapping path the file handed out holds what was first sent. -/
theorem Represents.mapped {s : Contents F V} {h : History F V} (hs : Represents s h) {r : ArrayMemmapForwardReducer}
    {a : NdArray} (ha : mapped r a = true) (t : Nat) (folder : F) :
    Represents (reduced r s t a folder) (h.send a.id folder) ∧
      ∃ f, (r.reduce t a folder false s.world).1 = .returned (r.loads f) ∧
        (reduced r s t a folder).dumped f = some (h.sends r a folder) := by
  obtain ⟨basename, w, hreduce, htests⟩ := reduce_mapped V hs.named ha t folder false
  simp only [reduced, hreduce, History.sends, ha, if_true, ← hs.content]
  unfold ArrayMemmapForwardReducer.backed
  cases hfile : w.disk ⟨folder, basename⟩ with
  | some file =>
    obtain ⟨hrepresents, hdumped⟩ := hs.kept htests hfile
    exact ⟨hrepresents, _, rfl, hdumped⟩
  | none =>
    obtain ⟨hrepresents, hdumped⟩ := hs.dumps htests t hfile
    exact ⟨hrepresents, _, rfl, hdumped⟩

/-- On the others nothing is dumped, and the array is sent as it is. -/
theorem reduced_unmapped (s : Contents F V) {r : ArrayMemmapForwardReducer} {a : NdArray} (ha : mapped r a = false)
    (t : Nat) (folder : F) :
    reduced r s t a folder = s ∧
      (r.reduce t a folder false s.world).1 =
        .returned (if a.memmapBacked then .reduceMemmapBacked a else .loadsDumps a) := by
  have hreduce : r.reduce t a folder false s.world =
      (.returned (if a.memmapBacked then .reduceMemmapBacked a else .loadsDumps a), s.world) := by
    unfold ArrayMemmapForwardReducer.reduce
    by_cases hbacked : a.memmapBacked = true
    · simp [hbacked]
    · have hmemmaps : r.memmaps a = false := by simpa [mapped, hbacked] using ha
      simp [hbacked, hmemmaps]
  have hnone : ∀ f, References.created s.world s.world f = false := fun f => References.created_same rfl
  exact ⟨by simp [reduced, settled, hreduce, hnone], by rw [hreduce]⟩

/-- Step: the files stay by the rule, -/
theorem Represents.next {s : Contents F V} {h : History F V} (hs : Represents s h) (r : ArrayMemmapForwardReducer)
    (e : Event F V) : Represents (s.next r e) (h.next r e) := by
  cases e with
  | reduce t a folder =>
    simp only [Contents.next, History.next]
    split
    next ha => exact (hs.mapped ha t folder).1
    next ha =>
      rw [(reduced_unmapped s (by simpa using ha) t folder).1]
      exact hs
  | modify i v => exact ⟨by simp [Contents.next, History.next, hs.content], hs.named, hs.dumped, hs.sent⟩

/-- and so after any sequence of events. -/
theorem run_represents (r : ArrayMemmapForwardReducer) (content : Nat → V) (events : List (Event F V)) :
    Represents (run r content events) (history r content events) := by
  suffices hfrom : ∀ (s : Contents F V) h, Represents s h →
      Represents (events.foldl (next r) s) (events.foldl (History.next r) h) from
    hfrom _ _ (initial_represents content)
  induction events with
  | nil => exact fun _ _ hs => hs
  | cons e events ih => exact fun s h hs => ih _ _ (hs.next r e)

/-- **Whatever has been reduced and written before, a reduction rebuilds what its array held
when it was first sent to the folder on the memmapping path, and what it holds on the others.** -/
theorem rebuilds_first_sent (r : ArrayMemmapForwardReducer) (viewed : NdArray → V → V) (hviewed : ∀ a v, viewed a v = v)
    (content : Nat → V) (events : List (Event F V)) (t : Nat) (a : NdArray) (folder : F) :
    let s := run r content events
    ∃ x, (r.reduce t a folder false s.world).1 = .returned x ∧
      rebuilt viewed (s.next r (.reduce t a folder)) x = some ((history r content events).sends r a folder) := by
  intro s
  have hs : Represents s (history r content events) := run_represents r content events
  simp only [next]
  cases ha : mapped r a with
  | true =>
    obtain ⟨-, f, hreduce, hdumped⟩ := hs.mapped ha t folder
    exact ⟨_, hreduce, hdumped⟩
  | false =>
    obtain ⟨hsame, hreduce⟩ := reduced_unmapped s ha t folder
    have hsends : (history r content events).sends r a folder = s.content a.id := by simp [History.sends, ha, hs.content]
    refine ⟨_, hreduce, ?_⟩
    rw [hsame, hsends]
    split
    · exact congrArg some (hviewed a _)
    · rfl

/-! An array is reduced, written to, and reduced again: into another folder it is sent as it
is, into the same one as it was. -/

def rewritten : List (Event String Nat) := [.reduce 0 bigArray "/dev/shm/joblib", .modify bigArray.id 2]

theorem rebuilds_first_sent_elsewhere :
    ∃ x, (reducer.reduce 0 bigArray "/tmp/joblib" false (run reducer (fun _ => 1) rewritten).world).1 = .returned x ∧
      rebuilt (fun _ v => v) ((run reducer (fun _ => 1) rewritten).next reducer (.reduce 0 bigArray "/tmp/joblib")) x =
        some 2 :=
  rebuilds_first_sent reducer (fun _ v => v) (fun _ _ => rfl) (fun _ => 1) rewritten 0 bigArray "/tmp/joblib"

theorem rewritten_not_sent :
    ∃ x, (reducer.reduce 0 bigArray "/dev/shm/joblib" false (run reducer (fun _ => 1) rewritten).world).1 =
        .returned x ∧
      rebuilt (fun _ v => v) ((run reducer (fun _ => 1) rewritten).next reducer (.reduce 0 bigArray "/dev/shm/joblib"))
        x = some 1 ∧
      (run reducer (fun _ => 1) rewritten).content bigArray.id = 2 :=
  ⟨_, rfl, rfl, rfl⟩

end Contents

end Joblib.Memmapping
