import Joblib.Memmapping.Reducer

/-! The reference counts of the backing files.

With `unlink_on_gc_collect` every reduction registers its file once for the reference it is
about to return, and once more for the parent when the file name is new to the reducer. A
consumer gives its reference up with `maybe_unlink`, and so does the parent when it cleans a
folder up. Both registrations come before the dump that may raise, and a name stays known
after its file is gone. So the counts balance as long as no dump of a new file raises and no
known file is dumped again (`balanced_iff`). -/
namespace Joblib.Memmapping

/-- A reducer's world, the references returned for each file and not yet released, and the
files created and not cleaned up since. -/
structure References (F : Type) where
  world : World F
  returned : Filename F → Nat
  kept : Filename F → Bool

namespace References
variable {F : Type} [DecidableEq F] (r : ArrayMemmapForwardReducer)

inductive Event (F : Type) where
  /-- A reduction; `raises` says what its dump does, if there is one. -/
  | reduce (t : Nat) (a : NdArray) (folder : F) (raises : Bool)
  /-- A consumer releases a reference. -/
  | release (f : Filename F)
  /-- The parent gives up its own reference of each file of a folder. -/
  | cleanup (folder : F)

/-- A new reducer, nothing reduced. -/
def initial : References F := ⟨.initial, fun _ => 0, fun _ => false⟩

/-- One `maybe_unlink` for each of the files: the count goes down, and at zero the file goes. -/
def maybeUnlink (files : Filename F → Bool) (w : World F) : World F :=
  { w with
    registered := fun f => if files f then w.registered f - 1 else w.registered f
    disk := fun f => if files f && w.registered f == 1 then none else w.disk f }

/-- The references returned, with the one a call has ended with. -/
def withReturned (returned : Filename F → Nat) : Pc F → Filename F → Nat
  | .returned (.loadTemporaryMemmap f _ _) => Function.update returned f (returned f + 1)
  | _ => returned

/-- The file has been created. -/
def created (w w' : World F) (f : Filename F) : Bool := (w.disk f).isNone && (w'.disk f).isSome

/-- The state a reduction leaves. -/
def reduced (s : References F) (t : Nat) (a : NdArray) (folder : F) (raises : Bool) : References F :=
  let (pc, w) := r.reduce t a folder raises s.world
  ⟨w, withReturned s.returned pc, fun f => s.kept f || created s.world w f⟩

def step (s : References F) : Event F → Option (References F)
  | .reduce t a folder raises => some (reduced r s t a folder raises)
  | .release f =>
    if 0 < s.returned f then
      some
        { s with
          world := maybeUnlink (fun g => decide (g = f)) s.world
          returned := Function.update s.returned f (s.returned f - 1) }
    else none
  | .cleanup folder =>
    some
      { s with
        world := maybeUnlink (fun f => decide (f.folder = folder) && s.kept f) s.world
        kept := fun f => s.kept f && !decide (f.folder = folder) }

/-- A file on disk that has not been cleaned up since its creation counts one for the parent
and one for each reference out. -/
def Balanced (s : References F) : Prop :=
  ∀ f, (s.world.disk f).isSome = true → s.kept f = true → s.world.registered f = 1 + s.returned f

/-- So it is at the end of a reduction. -/
def EndsBalanced (_ : References F) (e : Event F) (s' : References F) : Prop :=
  ∀ t a folder raises, e = .reduce t a folder raises → Balanced s'

/-- A reduction that finds no file dumps one whose name is new, or raises over a known one. -/
def Settled (s : References F) (e : Event F) (_ : References F) : Prop :=
  ∀ t a folder raises f, e = .reduce t a folder raises → r.filename? t a folder s.world = some f →
    s.world.disk f = none → (f ∉ s.world.temporaryMemmapedFilenames ↔ raises = false)

/-! ### What a reduction does -/

omit [DecidableEq F] in
/-- Naming the array touches no file. -/
theorem basename_cases (t : Nat) (a : NdArray) (w : World F) :
    let w' := (ArrayMemmapForwardReducer.basename t a w).2
    w'.registered = w.registered ∧ w'.temporaryMemmapedFilenames = w.temporaryMemmapedFilenames ∧ w'.disk = w.disk := by
  unfold ArrayMemmapForwardReducer.basename
  cases w.memmapedArrays a.id <;> exact ⟨rfl, rfl, rfl⟩

/-- A file is registered once, and once more if its name is new. -/
theorem countIn_cases {r : ArrayMemmapForwardReducer} (hunlink : r.unlinkOnGcCollect = true) (f : Filename F)
    (w : World F) :
    (r.countIn f w).registered =
        Function.update w.registered f (w.registered f + if f ∈ w.temporaryMemmapedFilenames then 1 else 2) ∧
      (r.countIn f w).temporaryMemmapedFilenames = f :: w.temporaryMemmapedFilenames ∧
      (r.countIn f w).disk = w.disk := by
  unfold ArrayMemmapForwardReducer.countIn
  by_cases hknown : f ∈ w.temporaryMemmapedFilenames
  · simp [hunlink, hknown, World.register, World.use]
  · simp [hunlink, hknown, World.register, World.use]

/-- The file's test finds it, or the dump leaves one. -/
theorem backed_cases (r : ArrayMemmapForwardReducer) (t : Nat) (a : NdArray) (f : Filename F) (raises : Bool)
    (w : World F) :
    (r.backed t a f raises w).2.registered = w.registered ∧
      (r.backed t a f raises w).2.temporaryMemmapedFilenames = w.temporaryMemmapedFilenames ∧
      (((w.disk f).isSome = true ∧ (r.backed t a f raises w).2.disk = w.disk ∧
          (r.backed t a f raises w).1 = .returned (r.loads f)) ∨
        (w.disk f = none ∧
          (∃ file, (r.backed t a f raises w).2.disk = Function.update w.disk f (some file)) ∧
          (r.backed t a f raises w).1 = if raises then .raised else .returned (r.loads f))) := by
  unfold ArrayMemmapForwardReducer.backed
  cases hdisk : w.disk f with
  | some file => exact ⟨rfl, rfl, .inl ⟨rfl, rfl, rfl⟩⟩
  | none =>
    cases raises with
    | true => exact ⟨rfl, rfl, .inr ⟨rfl, ⟨_, rfl⟩, rfl⟩⟩
    | false =>
      refine ⟨rfl, rfl, .inr ⟨rfl, ⟨⟨a.id, t, true⟩, ?_⟩, rfl⟩⟩
      simp [World.closeFile, World.openFile]

/-- It counts its file in and, if it finds none, leaves one. -/
theorem reduce_cases {r : ArrayMemmapForwardReducer} (hunlink : r.unlinkOnGcCollect = true) (t : Nat) (a : NdArray)
    (folder : F) (raises : Bool) (w : World F) :
    (r.filename? t a folder w = none ∧ (r.reduce t a folder raises w).2 = w ∧
        ∀ returned : Filename F → Nat, withReturned returned (r.reduce t a folder raises w).1 = returned) ∨
      ∃ f, r.filename? t a folder w = some f ∧
        (r.reduce t a folder raises w).2.registered = Function.update w.registered f
          (w.registered f + if f ∈ w.temporaryMemmapedFilenames then 1 else 2) ∧
        (r.reduce t a folder raises w).2.temporaryMemmapedFilenames = f :: w.temporaryMemmapedFilenames ∧
        (((w.disk f).isSome = true ∧ (r.reduce t a folder raises w).2.disk = w.disk ∧
            (r.reduce t a folder raises w).1 = .returned (r.loads f)) ∨
          (w.disk f = none ∧
            (∃ file, (r.reduce t a folder raises w).2.disk = Function.update w.disk f (some file)) ∧
            (r.reduce t a folder raises w).1 = if raises then .raised else .returned (r.loads f))) := by
  unfold ArrayMemmapForwardReducer.reduce ArrayMemmapForwardReducer.filename?
  by_cases hbacked : a.memmapBacked = true
  · left
    simp [hbacked, withReturned]
  · by_cases hmemmaps : r.memmaps a = true
    · right
      simp only [hbacked, hmemmaps, Bool.not_false, Bool.and_self, if_true, Bool.false_eq_true, if_false]
      obtain ⟨hregistered, hknown, hdisk⟩ := basename_cases t a w
      generalize ArrayMemmapForwardReducer.basename t a w = named at hregistered hknown hdisk
      obtain ⟨basename, w'⟩ := named
      dsimp only at hregistered hknown hdisk ⊢
      obtain ⟨hcounted, hused, hkept⟩ := countIn_cases hunlink ⟨folder, basename⟩ w'
      obtain ⟨hregistered', hknown', hends⟩ := backed_cases r t a ⟨folder, basename⟩ raises (r.countIn ⟨folder, basename⟩ w')
      refine ⟨_, rfl, ?_, ?_, ?_⟩
      · rw [hregistered', hcounted, hregistered, hknown]
      · rw [hknown', hused, hknown]
      · rw [hkept, hdisk] at hends
        exact hends
    · left
      simp [hbacked, hmemmaps, withReturned]

/-! ### Balance -/

/-- While the counts balance: each is the parent's share and the references out, a file is
there as long as it counts, and its name is known. -/
structure Even (s : References F) : Prop where
  count : ∀ f, s.world.registered f = (s.kept f).toNat + s.returned f
  present : ∀ f, (s.world.disk f).isSome = true ↔ 0 < s.world.registered f
  known : ∀ f, (s.world.disk f).isSome = true → f ∈ s.world.temporaryMemmapedFilenames

omit [DecidableEq F] in
theorem initial_even : Even (initial : References F) :=
  ⟨fun _ => rfl, fun _ => by simp [initial, World.initial], fun _ h => by simp [initial, World.initial] at h⟩

omit [DecidableEq F] in
theorem Even.balanced {s : References F} (h : Even s) : Balanced s := by
  intro f _ hkept
  rw [h.count f, hkept]
  rfl

omit [DecidableEq F] in
/-- A file that is not there owes nothing. -/
theorem Even.missing {s : References F} (h : Even s) {f : Filename F} (hf : s.world.disk f = none) :
    s.world.registered f = 0 ∧ s.kept f = false ∧ s.returned f = 0 := by
  have hzero : s.world.registered f = 0 := by
    have hpresent := h.present f
    rw [hf] at hpresent
    simpa using hpresent
  have hcount := h.count f
  rw [hzero] at hcount
  refine ⟨hzero, ?_, by omega⟩
  cases hkept : s.kept f with
  | false => rfl
  | true =>
    rw [hkept] at hcount
    simp at hcount
    omega

omit [DecidableEq F] in
theorem created_same {w w' : World F} {f : Filename F} (h : w'.disk f = w.disk f) : created w w' f = false := by
  unfold created
  rw [h]
  cases w.disk f <;> rfl

/-- A reduction that is about no file, or finds its file. -/
theorem Even.reduced_found {s : References F} (h : Even s) {r : ArrayMemmapForwardReducer}
    (hunlink : r.unlinkOnGcCollect = true) {t : Nat} {a : NdArray} {folder : F} (raises : Bool)
    (hfound : ∀ f, r.filename? t a folder s.world = some f → (s.world.disk f).isSome = true) :
    Even (reduced r s t a folder raises) := by
  unfold reduced
  rcases reduce_cases hunlink t a folder raises s.world with
    ⟨_, hworld, hreturned⟩ | ⟨f, hfile, hregistered, hknown, ⟨hthere, hdisk, hends⟩ | ⟨hmissing, _⟩⟩
  · refine ⟨fun f => ?_, fun f => ?_, fun f hf => ?_⟩
    · simp [hworld, hreturned, created_same, h.count f]
    · simpa [hworld] using h.present f
    · simp only [hworld] at hf ⊢
      exact h.known f hf
  · have hold := h.known f hthere
    refine ⟨fun g => ?_, fun g => ?_, fun g hg => ?_⟩
    · have hcount := h.count g
      simp only [hregistered, hends, withReturned, ArrayMemmapForwardReducer.loads, created_same (congrFun hdisk g),
        Bool.or_false, if_pos hold]
      by_cases hgf : g = f
      · subst hgf
        simp only [Function.update_self]
        omega
      · simpa only [Function.update_of_ne hgf] using hcount
    · have hpresent := h.present g
      simp only [hregistered, hdisk, if_pos hold]
      by_cases hgf : g = f
      · subst hgf
        simp [hthere]
      · simpa only [Function.update_of_ne hgf] using hpresent
    · simp only [hdisk, hknown] at hg ⊢
      exact List.mem_cons_of_mem f (h.known g hg)
  · have hthere := hfound f hfile
    rw [hmissing] at hthere
    cases hthere

/-- What a reduction that finds no file leaves: of its file, and of any other. -/
theorem Even.reduced_created {s : References F} (h : Even s) {r : ArrayMemmapForwardReducer}
    (hunlink : r.unlinkOnGcCollect = true) {t : Nat} {a : NdArray} {folder : F} (raises : Bool) {f : Filename F}
    (hfile : r.filename? t a folder s.world = some f) (hmissing : s.world.disk f = none) :
    let s' := reduced r s t a folder raises
    ((s'.world.disk f).isSome = true ∧ s'.kept f = true ∧ s'.returned f = (!raises).toNat ∧
        s'.world.registered f = if f ∈ s.world.temporaryMemmapedFilenames then 1 else 2) ∧
      (∀ g, g ≠ f → s'.world.disk g = s.world.disk g ∧ s'.kept g = s.kept g ∧ s'.returned g = s.returned g ∧
        s'.world.registered g = s.world.registered g) ∧
      s'.world.temporaryMemmapedFilenames = f :: s.world.temporaryMemmapedFilenames := by
  obtain ⟨hzero, hkept, hreturned⟩ := h.missing hmissing
  unfold reduced
  rcases reduce_cases hunlink t a folder raises s.world with
    ⟨hnone, _⟩ | ⟨g, hg, hregistered, hknown, ⟨hthere, _⟩ | ⟨_, ⟨file, hdisk⟩, hends⟩⟩
  · rw [hfile] at hnone
    cases hnone
  · obtain rfl : f = g := Option.some.inj (hfile.symm.trans hg)
    rw [hmissing] at hthere
    cases hthere
  · obtain rfl : f = g := Option.some.inj (hfile.symm.trans hg)
    refine ⟨⟨by simp [hdisk], by simp [created, hdisk, hmissing], ?_, by simp [hregistered, hzero]⟩, fun g hgf => ?_, hknown⟩
    · simp only [hends]
      cases raises with
      | true => exact hreturned
      | false => simp [withReturned, ArrayMemmapForwardReducer.loads, hreturned]
    · have hsame : (r.reduce t a folder raises s.world).2.disk g = s.world.disk g := by
        rw [hdisk, Function.update_of_ne hgf]
      refine ⟨hsame, by simp [created_same hsame], ?_, by simp [hregistered, Function.update_of_ne hgf]⟩
      simp only [hends]
      cases raises with
      | true => rfl
      | false => simp [withReturned, ArrayMemmapForwardReducer.loads, Function.update_of_ne hgf]

/-- Step: a reduction ends balanced exactly when it is settled, and then all is even. -/
theorem Even.reduce {s : References F} (h : Even s) {r : ArrayMemmapForwardReducer} (hunlink : r.unlinkOnGcCollect = true)
    (t : Nat) (a : NdArray) (folder : F) (raises : Bool) :
    (Balanced (reduced r s t a folder raises) ↔
        ∀ f, r.filename? t a folder s.world = some f → s.world.disk f = none →
          (f ∉ s.world.temporaryMemmapedFilenames ↔ raises = false)) ∧
      (Balanced (reduced r s t a folder raises) → Even (reduced r s t a folder raises)) := by
  by_cases hfound : ∀ f, r.filename? t a folder s.world = some f → (s.world.disk f).isSome = true
  · have heven := h.reduced_found hunlink raises hfound
    refine ⟨⟨fun _ f hf hmissing => ?_, fun _ => heven.balanced⟩, fun _ => heven⟩
    have hthere := hfound f hf
    rw [hmissing] at hthere
    cases hthere
  · simp only [not_forall, Option.not_isSome_iff_eq_none] at hfound
    obtain ⟨f, hfile, hmissing⟩ := hfound
    obtain ⟨⟨hpresent, hkept, hreturned, hregistered⟩, hothers, hknown⟩ := h.reduced_created hunlink raises hfile hmissing
    have hcount : (reduced r s t a folder raises).world.registered f = 1 + (reduced r s t a folder raises).returned f ↔
        (f ∉ s.world.temporaryMemmapedFilenames ↔ raises = false) := by
      rw [hregistered, hreturned]
      by_cases hold : f ∈ s.world.temporaryMemmapedFilenames <;> cases raises <;> simp [hold]
    have heven : (reduced r s t a folder raises).world.registered f = 1 + (reduced r s t a folder raises).returned f →
        Even (reduced r s t a folder raises) := by
      intro heq
      refine ⟨fun g => ?_, fun g => ?_, fun g hg => ?_⟩
      all_goals by_cases hgf : g = f
      · subst hgf
        rw [heq, hkept]
        rfl
      · obtain ⟨_, hk, hr, hc⟩ := hothers g hgf
        rw [hk, hr, hc]
        exact h.count g
      · subst hgf
        simp only [hpresent, heq, true_iff]
        omega
      · obtain ⟨hd, _, _, hc⟩ := hothers g hgf
        rw [hd, hc]
        exact h.present g
      · rw [hknown, hgf]
        exact List.mem_cons_self ..
      · obtain ⟨hd, _⟩ := hothers g hgf
        rw [hknown]
        exact List.mem_cons_of_mem f (h.known g (hd ▸ hg))
    refine ⟨⟨fun hbalanced g hg _ => ?_, fun hsettled => ?_⟩, fun hbalanced => heven (hbalanced f hpresent hkept)⟩
    · obtain rfl : f = g := Option.some.inj (hfile.symm.trans hg)
      exact hcount.mp (hbalanced f hpresent hkept)
    · exact (heven (hcount.mpr (hsettled f hfile hmissing))).balanced

omit [DecidableEq F] in
/-- A `maybe_unlink` of files that count gives up one each. -/
theorem maybeUnlink_present {w : World F} {files : Filename F → Bool}
    (hpresent : ∀ f, (w.disk f).isSome = true ↔ 0 < w.registered f) (hfiles : ∀ f, files f = true → 0 < w.registered f)
    (f : Filename F) :
    ((maybeUnlink files w).disk f).isSome = true ↔ 0 < (maybeUnlink files w).registered f := by
  have hf := hpresent f
  cases hhit : files f with
  | false => simpa [maybeUnlink, hhit] using hf
  | true =>
    have hpos := hfiles f hhit
    by_cases hone : w.registered f = 1
    · simp [maybeUnlink, hhit, hone]
    · simp only [maybeUnlink, hhit, hone, Bool.true_and, beq_iff_eq, if_false, if_true, hf]
      omega

theorem Even.release {s s' : References F} (h : Even s) {r : ArrayMemmapForwardReducer} {f : Filename F}
    (hs : s.step r (.release f) = some s') : Even s' := by
  simp only [step] at hs
  split at hs
  next hout =>
    obtain rfl := Option.some.inj hs
    have hcount : ∀ g, decide (g = f) = true → 0 < s.world.registered g := by
      intro g hg
      obtain rfl := of_decide_eq_true hg
      rw [h.count g]
      omega
    refine ⟨fun g => ?_, maybeUnlink_present h.present hcount, fun g hg => h.known g ?_⟩
    · have hg := h.count g
      by_cases hgf : g = f
      · subst hgf
        simp only [maybeUnlink, decide_true, if_true, Function.update_self]
        omega
      · simpa [maybeUnlink, hgf] using hg
    · simp only [maybeUnlink] at hg
      split at hg
      · cases hg
      · exact hg
  next => cases hs

theorem Even.cleanup {s s' : References F} (h : Even s) {r : ArrayMemmapForwardReducer} {folder : F}
    (hs : s.step r (.cleanup folder) = some s') : Even s' := by
  obtain rfl := Option.some.inj hs
  have hcount : ∀ g : Filename F, (decide (g.folder = folder) && s.kept g) = true → 0 < s.world.registered g := by
    intro g hg
    have hkept : s.kept g = true := (Bool.and_eq_true_iff.mp hg).2
    rw [h.count g, hkept]
    exact Nat.lt_of_lt_of_le Nat.zero_lt_one (Nat.le_add_right ..)
  refine ⟨fun g => ?_, maybeUnlink_present h.present hcount, fun g hg => h.known g ?_⟩
  · have hg := h.count g
    by_cases hfolder : g.folder = folder <;> cases hkept : s.kept g <;>
      simp only [maybeUnlink, hfolder, hkept, decide_true, decide_false] at hg ⊢ <;> simp_all
  · simp only [maybeUnlink] at hg
    split at hg
    · cases hg
    · exact hg

/-- **Every reduction of a run ends balanced exactly when every one of them is settled.** -/
theorem balanced_iff (r : ArrayMemmapForwardReducer) (hunlink : r.unlinkOnGcCollect = true) (events : List (Event F)) :
    Runs.Every (step r) EndsBalanced initial events ↔ Runs.Every (step r) (Settled r) initial events := by
  refine Runs.every_iff (I := Even) (fun s e s' h hs hsettled => ?_) (fun s e s' h hs => ?_) initial_even events
  · cases e with
    | reduce t a folder raises =>
      obtain rfl := Option.some.inj hs
      obtain ⟨hiff, heven⟩ := h.reduce hunlink t a folder raises
      exact heven (hiff.mpr fun f hf hmissing => hsettled t a folder raises f rfl hf hmissing)
    | release f => exact h.release hs
    | cleanup folder => exact h.cleanup hs
  · cases e with
    | reduce t a folder raises =>
      obtain rfl := Option.some.inj hs
      obtain ⟨hiff, _⟩ := h.reduce hunlink t a folder raises
      constructor
      · rintro hends u b place fails f heq hf hmissing
        cases heq
        exact hiff.mp (hends t a folder raises rfl) f hf hmissing
      · rintro hsettled u b place fails heq
        cases heq
        exact hiff.mpr fun f hf hmissing => hsettled t a folder raises f rfl hf hmissing
    | release f => exact ⟨fun _ _ _ _ _ _ heq => (by cases heq), fun _ _ _ _ _ heq => by cases heq⟩
    | cleanup folder => exact ⟨fun _ _ _ _ _ _ heq => (by cases heq), fun _ _ _ _ _ heq => by cases heq⟩

def bigFile : Filename String := ⟨"/dev/shm/joblib", 0, 0⟩

/-- An array is reduced twice; one reference is released, the folder cleaned up, and the other
reference released. -/
def releasedLast : List (Event String) :=
  [.reduce 0 bigArray "/dev/shm/joblib" false, .reduce 0 bigArray "/dev/shm/joblib" false, .release bigFile,
    .cleanup "/dev/shm/joblib", .release bigFile]

theorem balanced_releasedLast :
    (Runs.run (step reducer) initial releasedLast).map (fun s => (s.world.disk bigFile, s.world.registered bigFile)) =
        some (none, 0) ∧
      Runs.Every (step reducer) EndsBalanced initial releasedLast := by
  refine ⟨rfl, (balanced_iff reducer rfl releasedLast).mpr ?_⟩
  refine .cons rfl ?_ (.cons rfl ?_ (.of_forall_mem ?_ _))
  · rintro t a folder raises f heq _ _
    cases heq
    simp [initial, World.initial]
  · rintro t a folder raises f heq hf hmissing
    cases heq
    cases hf
    cases hmissing
  · rintro s e s' he t a folder raises f rfl
    simp at he

/-! The folder is cleaned up once the reference is released, and the array reduced again: the
file that is made anew counts its reference and nothing for the parent. A first dump that
raises leaves a file that counts for a reference nobody got. -/

def cleanedUp : List (Event String) :=
  [.reduce 0 bigArray "/dev/shm/joblib" false, .release bigFile, .cleanup "/dev/shm/joblib"]

theorem reduced_anew_unbalanced :
    ¬ Runs.Every (step reducer) EndsBalanced initial (cleanedUp ++ [.reduce 0 bigArray "/dev/shm/joblib" false]) ∧
      ¬ Runs.Every (step reducer) EndsBalanced initial [.reduce 0 bigArray "/dev/shm/joblib" true] := by
  refine ⟨fun h => ?_, fun h => ?_⟩
  · have hbalanced := h.last (t := (Runs.run (step reducer) initial cleanedUp).getD initial) rfl rfl 0 bigArray _ false rfl
    exact absurd (hbalanced bigFile rfl rfl) (by decide)
  · have hbalanced := (h _ rfl).1 0 bigArray _ true rfl
    exact absurd (hbalanced bigFile rfl rfl) (by decide)

end References

end Joblib.Memmapping
