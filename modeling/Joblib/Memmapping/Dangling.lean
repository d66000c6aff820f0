import Mathlib.Data.Finset.Card
import Joblib.Memmapping.Shared

/-! The references that are out, and the files behind them.

A call registers its file before it looks for it, and what it has registered is not given up before it
returns. So a file's count covers every reference out, every call that has got that far and the parent's
own references (`Covered`), and a `maybe_unlink` that brings it to zero is the last there is to say about
the file. The parent registers one of its own with each name that is new, and gives one up, at a cleanup,
for each file created since (`Owned`). That is more than it has where a file is created before the call
that found its name new has registered it, and where one is created again after a cleanup. In a run with
neither (`Orderly`) no reference ever dangles, and each is to a dump of the very array it was returned
for (`never_dangles`); either may leave one that dangles (`dangles_otherwise`). -/
namespace Joblib.Memmapping.Shared
open Reducers (fileOf Named GoesBy Effect turn_effect turn_named moved moved_self moved_other step_call step_turn)
open References (maybeUnlink created bigFile)
variable {F : Type} [DecidableEq F] {r : ArrayMemmapForwardReducer}

/-- Of the files a cleanup gives up the parent's own reference has been registered, and no file is
created again once it has been cleaned up. -/
structure Orderly (s : Shared F) (e : Event F) (_ : Shared F) : Prop where
  registered : ∀ folder f, e = .cleanup folder → s.givenUp folder f = true →
    ∀ t a, s.reducers.threads t ≠ .register a f true ∧ s.reducers.threads t ≠ .registerNew a f true
  once : ∀ t choice a f, e = .acts (.turn t choice) → s.reducers.threads t = .dump a f → s.world.disk f = none →
    s.cleaned f = false

/-! ### What covers a count -/

/-- The thread's call has registered the file and not returned. -/
def Holds (f : Filename F) : Pc F → Prop
  | .registerNew _ g _ | .pathExists _ g | .dump _ g | .writing _ g | .chmod _ g | .prewarm _ g => g = f
  | _ => False

/-- It has found the file or made it. -/
def Backs (f : Filename F) : Pc F → Prop
  | .writing _ g | .chmod _ g | .prewarm _ g => g = f
  | _ => False

omit [DecidableEq F] in
theorem Backs.holds {f : Filename F} {pc : Pc F} (h : Backs f pc) : Holds f pc := by
  cases pc <;> first | exact h | exact h.elim

/-- It has found the name new and is yet to register the parent's own reference. -/
def Owes (f : Filename F) : Pc F → Prop
  | .register _ g true | .registerNew _ g true => g = f
  | _ => False

/-- The name is among those used. -/
def Used (f : Filename F) : Pc F → Prop
  | .add _ g false | .register _ g _ | .registerNew _ g _ | .pathExists _ g | .dump _ g | .writing _ g | .chmod _ g
  | .prewarm _ g => g = f
  | _ => False

/-- Every file counts for each call that holds it, each reference out and the parent's; what a call
has found or made is there, and so is what is behind a reference, under the name of its array. -/
structure Covered (s : Shared F) (parents : Filename F → Nat) : Prop where
  named : Named s.world
  goesBy : ∀ t, GoesBy s.world (s.reducers.threads t)
  count : ∀ f (S : Finset Nat), (∀ t ∈ S, Holds f (s.reducers.threads t)) →
    S.card + s.outOf f + parents f ≤ s.world.registered f
  backs : ∀ t f, Backs f (s.reducers.threads t) → (s.world.disk f).isSome = true
  out : ∀ f i, (f, i) ∈ s.out → (s.world.disk f).isSome = true ∧ s.world.drawn[f.basename.uuid]? = some i

/-- The parent has a reference of its own, or is about to, to each file used and not cleaned up,
among them all that a cleanup would give up. -/
structure Owned (s : Shared F) (parents : Filename F → Nat) : Prop where
  used : ∀ t f, Used f (s.reducers.threads t) → f ∈ s.world.temporaryMemmapedFilenames
  owed : ∀ f ∈ s.world.temporaryMemmapedFilenames, s.cleaned f = false →
    0 < parents f ∨ ∃ t, Owes f (s.reducers.threads t)
  kept : ∀ f, s.kept f = true → f ∈ s.world.temporaryMemmapedFilenames ∧ s.cleaned f = false

/-! ### An access -/

/-- The parent's references after an access: a name that is new counts one for it. -/
def withParents (parents : Filename F → Nat) : Pc F → Filename F → Nat
  | .registerNew _ f true => Function.update parents f (parents f + 1)
  | _ => parents

theorem withParents_of_not_owes {parents : Filename F → Nat} {pc : Pc F} (h : ∀ f, ¬ Owes f pc) :
    withParents parents pc = parents := by
  unfold withParents
  split
  next a f => exact absurd rfl (h f)
  next => rfl

/-- Everything an access can do to the counts. -/
inductive Counting (w : World F) : Pc F → Pc F → World F → Prop
  | keeps {pc pc' : Pc F} {w' : World F} : w'.registered = w.registered →
    w'.temporaryMemmapedFilenames = w.temporaryMemmapedFilenames → (∀ f, Holds f pc' → Holds f pc) →
    (∀ f, ¬ Owes f pc) → (∀ f, Used f pc' → Used f pc ∨ f ∈ w.temporaryMemmapedFilenames) → Counting w pc pc' w'
  | uses {a : NdArray} {f : Filename F} {isNew : Bool} : Counting w (.add a f isNew) (.register a f isNew) (w.use f)
  | registers {a : NdArray} {f : Filename F} {isNew : Bool} :
    Counting w (.register a f isNew) (.registerNew a f isNew) (w.register f)
  | registersNew {a : NdArray} {f : Filename F} :
    Counting w (.registerNew a f true) (.pathExists a f) (w.register f)

theorem turn_counting (hunlink : r.unlinkOnGcCollect = true) {t : Nat} {w w' : World F} {pc pc' : Pc F}
    {choice : Choice F} (h : r.turn t w pc choice = some (pc', w')) : Counting w pc pc' w' := by
  cases pc with
  | isNewMemmap a f =>
    cases choice with
    | go =>
      cases h
      refine .keeps rfl rfl (fun _ h => h.elim) (fun _ h => h) fun g hg => .inr ?_
      cases hknown : w.temporaryMemmapedFilenames.contains f with
      | true =>
        rw [hknown] at hg
        obtain rfl : f = g := hg
        exact List.contains_iff_mem.mp hknown
      | false =>
        rw [hknown] at hg
        exact hg.elim
    | _ => cases h
  | add a f isNew =>
    cases choice with
    | go =>
      cases h
      exact .uses
    | _ => cases h
  | register a f isNew =>
    cases choice with
    | go =>
      simp only [ArrayMemmapForwardReducer.turn, hunlink, if_true] at h
      cases h
      exact .registers
    | _ => cases h
  | registerNew a f isNew =>
    cases choice with
    | go =>
      cases isNew with
      | true =>
        cases h
        exact .registersNew
      | false =>
        cases h
        exact .keeps rfl rfl (fun _ h => h) (fun _ h => h) fun _ h => .inl h
    | _ => cases h
  | get a =>
    cases choice with
    | go =>
      simp only [ArrayMemmapForwardReducer.turn] at h
      split at h <;>
      · cases h
        exact .keeps rfl rfl (fun _ h => h.elim) (fun _ h => h) fun _ h => h.elim
    | _ => cases h
  | pathExists a f =>
    cases choice with
    | go =>
      simp only [ArrayMemmapForwardReducer.turn, Option.some.injEq, Prod.mk.injEq] at h
      obtain ⟨rfl, rfl⟩ := h
      refine .keeps rfl rfl (fun g hg => ?_) (fun _ h => h) fun g hg => .inl ?_ <;>
      · split at hg
        · exact hg.elim
        · exact hg
    | _ => cases h
  | chmod a f =>
    cases choice with
    | go =>
      simp only [ArrayMemmapForwardReducer.turn, Option.some.injEq, Prod.mk.injEq] at h
      obtain ⟨rfl, rfl⟩ := h
      refine .keeps rfl rfl (fun g hg => ?_) (fun _ h => h) fun g hg => .inl ?_ <;>
      · split at hg
        · exact hg
        · exact hg.elim
    | raises =>
      cases h
      exact .keeps rfl rfl (fun _ h => h.elim) (fun _ h => h) fun _ h => h.elim
    | _ => cases h
  | _ =>
    cases choice <;> cases h <;>
      exact .keeps rfl rfl (fun _ h => by first | exact h | exact h.elim) (fun _ h => h)
        fun _ h => by first | exact .inl h | exact h.elim

/-- An access makes the files its call comes to rely on. -/
theorem effect_disk {t : Nat} {w w' : World F} {pc pc' : Pc F} {choice : Choice F} (h : Effect r t w choice pc pc' w')
    (hbacks : ∀ f, Backs f pc → (w.disk f).isSome = true) :
    (∀ f, Backs f pc' → (w'.disk f).isSome = true) ∧
      ∀ f, pc' = .returned (r.loads f) → (w'.disk f).isSome = true ∧ ∃ a, fileOf pc = some (a, f) ∧ Holds f pc := by
  cases h with
  | quiet hdisk _ _ hclaims hdone hreturns =>
    refine ⟨fun f hf => hdisk ▸ ?_, fun f hf => hdisk ▸ ?_⟩
    · cases pc' with
      | writing a g => exact (hclaims g rfl).elim
      | chmod a g =>
        obtain rfl : g = f := hf
        rcases hdone a g (.inl rfl) with rfl | rfl <;> exact hbacks g rfl
      | prewarm a g =>
        obtain rfl : g = f := hf
        rcases hdone a g (.inr rfl) with rfl | rfl <;> exact hbacks g rfl
      | _ => exact hf.elim
    · obtain ⟨a, ⟨rfl, hsome⟩ | rfl | rfl⟩ := hreturns f hf
      · exact ⟨hsome, a, rfl, rfl⟩
      · exact ⟨hbacks f rfl, a, rfl, rfl⟩
      · exact ⟨hbacks f rfl, a, rfl, rfl⟩
  | claims => exact ⟨fun f hf => hf.elim, by simp⟩
  | @opens a f =>
    refine ⟨fun g hg => ?_, by simp⟩
    obtain rfl : f = g := hg
    simp [World.openFile]
  | @closes a f =>
    refine ⟨fun g hg => ?_, by simp⟩
    obtain rfl : f = g := hg
    simpa [World.closeFile] using hbacks f rfl
  | fails => exact ⟨fun f hf => hf.elim, by simp⟩

/-- A file is created by the thread that is about to dump it. -/
theorem effect_creates {t : Nat} {w w' : World F} {pc pc' : Pc F} {choice : Choice F}
    (h : Effect r t w choice pc pc' w') {f : Filename F} (hcreated : created w w' f = true) : w.disk f = none ∧ ∃ a, pc = .dump a f := by
  obtain ⟨hnone, hsome⟩ := Bool.and_eq_true_iff.mp hcreated
  rw [Option.isNone_iff_eq_none] at hnone
  refine ⟨hnone, ?_⟩
  cases h with
  | quiet hdisk =>
    rw [hdisk, hnone] at hsome
    cases hsome
  | claims | fails =>
    change (w.disk f).isSome = true at hsome
    rw [hnone] at hsome
    cases hsome
  | @opens a g =>
    by_cases hfg : f = g
    · exact ⟨a, hfg ▸ rfl⟩
    · simp [World.openFile, hfg, hnone] at hsome
  | @closes a g =>
    by_cases hfg : f = g
    · subst hfg
      simp [World.closeFile, hnone] at hsome
    · simp [World.closeFile, hfg, hnone] at hsome

omit [DecidableEq F] in
/-- Who holds the file after a thread has moved held it before, if the thread did. -/
theorem Covered.holders_moved {s : Shared F} {t : Nat} {pc : Pc F} {w : World F} {f : Filename F} {S : Finset Nat}
    (hS : ∀ u ∈ S, Holds f ((s.reducers.moved t pc w).threads u)) (hpc : Holds f pc → Holds f (s.reducers.threads t)) :
    ∀ u ∈ S, Holds f (s.reducers.threads u) := by
  intro u hu
  have hold := hS u hu
  by_cases hut : u = t
  · subst hut
    rw [moved_self] at hold
    exact hpc hold
  · rwa [moved_other hut] at hold

omit [DecidableEq F] in
theorem handed_of_holds {before pc : Pc F} {f : Filename F} (h : Holds f pc) : handed before pc = [] := by
  cases pc with
  | returned => exact h.elim
  | _ => simp [handed]

/-- A reference handed out is to the file and for the array of the call that returns it. -/
theorem mem_handed {t : Nat} {w w' : World F} {pc pc' : Pc F} {choice : Choice F} {f : Filename F} {i : Nat}
    (h : r.turn t w pc choice = some (pc', w')) (hbacks : ∀ f, Backs f pc → (w.disk f).isSome = true)
    (hmem : (f, i) ∈ handed pc pc') :
    handed pc pc' = [(f, i)] ∧ (w'.disk f).isSome = true ∧ Holds f pc ∧ ∃ a, fileOf pc = some (a, f) ∧ a.id = i := by
  unfold handed at hmem ⊢
  split at hmem
  next a g f' mode unlinks hfile =>
    obtain ⟨rfl, rfl⟩ : f = f' ∧ i = a.id := by simpa using hmem
    obtain ⟨_, hreturned⟩ := effect_disk (turn_effect h) hbacks
    obtain ⟨hsome, b, hfile', hholds⟩ := hreturned f (turn_loads h)
    obtain ⟨rfl, rfl⟩ : a = b ∧ g = f := by simpa using hfile.symm.trans hfile'
    exact ⟨rfl, hsome, hholds, a, hfile, rfl⟩
  next => cases hmem

omit [DecidableEq F] in
theorem nameOf_fileOf {pc : Pc F} {a : NdArray} {f : Filename F} (h : fileOf pc = some (a, f)) :
    Reducers.nameOf pc = some (a, f.basename) := by
  cases pc <;> simp_all [fileOf, Reducers.nameOf]

/-- Where no count changes: whoever has handed a reference out held its file, and does no more. -/
theorem Covered.count_handed {s : Shared F} {parents : Filename F → Nat} (h : Covered s parents) {t : Nat} {pc : Pc F}
    {w : World F} {choice : Choice F} (hturn : r.turn t s.world (s.reducers.threads t) choice = some (pc, w))
    {f : Filename F} {S : Finset Nat} (hS : ∀ u ∈ S, Holds f ((s.reducers.moved t pc w).threads u))
    (hholds : Holds f pc → Holds f (s.reducers.threads t)) :
    S.card + ((handed (s.reducers.threads t) pc).countP (fun p => decide (p.1 = f)) + s.outOf f) + parents f ≤
      s.world.registered f := by
  have hholders := Covered.holders_moved hS hholds
  by_cases hany : ∃ i, (f, i) ∈ handed (s.reducers.threads t) pc
  · obtain ⟨i, hi⟩ := hany
    obtain ⟨hone, _, hheld, _⟩ := mem_handed hturn (h.backs t) hi
    have hnot : t ∉ S := by
      intro ht
      have hpc : Holds f pc := moved_self s.reducers t pc w ▸ hS t ht
      rw [handed_of_holds hpc] at hi
      cases hi
    have hle := h.count f (insert t S) fun u hu => by
      rcases Finset.mem_insert.mp hu with rfl | hu
      · exact hheld
      · exact hholders u hu
    rw [Finset.card_insert_of_notMem hnot] at hle
    simp only [hone, List.countP_singleton, decide_true, if_true]
    omega
  · have hzero : (handed (s.reducers.threads t) pc).countP (fun p => decide (p.1 = f)) = 0 := by
      refine List.countP_eq_zero.mpr fun p hp => ?_
      simp only [decide_eq_true_eq]
      rintro rfl
      exact hany ⟨p.2, hp⟩
    have hle := h.count f S hholders
    omega

/-- What an access adds to a file's references and to the parent's is made up for in its count. -/
theorem Covered.count_turn {s : Shared F} {parents : Filename F → Nat} (h : Covered s parents)
    (hunlink : r.unlinkOnGcCollect = true) {t : Nat} {pc : Pc F} {w : World F} {choice : Choice F}
    (hturn : r.turn t s.world (s.reducers.threads t) choice = some (pc, w)) (f : Filename F) (S : Finset Nat)
    (hS : ∀ u ∈ S, Holds f ((s.reducers.moved t pc w).threads u)) :
    S.card + ((handed (s.reducers.threads t) pc ++ s.out).countP fun p => decide (p.1 = f)) +
      withParents parents (s.reducers.threads t) f ≤ w.registered f := by
  have hcounting := turn_counting hunlink hturn
  have hhanded := fun hholds => h.count_handed hturn (f := f) hS hholds
  have hcount := h.count f
  have hholders := Covered.holders_moved hS
  have hself : t ∈ S → Holds f pc := fun ht => moved_self s.reducers t pc w ▸ hS t ht
  simp only [outOf] at hcount
  rw [List.countP_append]
  generalize s.reducers.threads t = before at hcounting hhanded hholders
  cases hcounting with
  | keeps hregistered _ hholds howes =>
    rw [hregistered, withParents_of_not_owes howes]
    exact hhanded (hholds f)
  | uses => exact hhanded fun hholds => hholds.elim
  | @registers a g isNew =>
    rw [show handed (.register a g isNew) (.registerNew a g isNew) = [] from rfl]
    have hle := hcount (S.erase t) fun u hu => by
      obtain ⟨hut, hu⟩ := Finset.mem_erase.mp hu
      have hold := hS u hu
      rwa [moved_other hut] at hold
    have hpred := Finset.pred_card_le_card_erase (s := S) (a := t)
    by_cases hfg : f = g
    · subst hfg
      simp only [List.countP_nil, withParents, World.register, Function.update_self]
      omega
    · have hsame : S.erase t = S := Finset.erase_eq_of_notMem fun ht => hfg (hself ht).symm
      rw [hsame] at hle
      simp only [List.countP_nil, withParents, World.register, Function.update_of_ne hfg]
      omega
  | @registersNew a g =>
    rw [show handed (.registerNew a g true) (.pathExists a g) = [] from rfl]
    have hle := hcount S (hholders fun hg => hg)
    by_cases hfg : f = g
    · subst hfg
      simp only [List.countP_nil, withParents, World.register, Function.update_self]
      omega
    · simp only [List.countP_nil, withParents, World.register, Function.update_of_ne hfg]
      omega

/-- A name used stays used. -/
theorem Counting.known {w w' : World F} {pc pc' : Pc F} (h : Counting w pc pc' w') {f : Filename F}
    (hf : f ∈ w.temporaryMemmapedFilenames) : f ∈ w'.temporaryMemmapedFilenames := by
  cases h with
  | keeps _ hsame => exact hsame ▸ hf
  | uses => exact List.mem_cons_of_mem _ hf
  | registers => exact hf
  | registersNew => exact hf

/-- A call goes by a name it has gone by before, or one that is used. -/
theorem Counting.used {w w' : World F} {pc pc' : Pc F} (h : Counting w pc pc' w') {f : Filename F} (hf : Used f pc') :
    Used f pc ∨ f ∈ w'.temporaryMemmapedFilenames := by
  have hknown := h.known (f := f)
  cases h with
  | keeps _ _ _ _ husing => exact (husing f hf).imp_right hknown
  | uses =>
    obtain rfl := hf
    exact .inr (List.mem_cons_self ..)
  | registers => exact .inl hf
  | registersNew => exact .inl hf

/-- A name that is used now was used before, unless the parent's own reference is yet to be registered. -/
theorem Counting.fresh {w w' : World F} {pc pc' : Pc F} (h : Counting w pc pc' w') {f : Filename F}
    (hf : f ∈ w'.temporaryMemmapedFilenames) : f ∈ w.temporaryMemmapedFilenames ∨ Used f pc ∨ Owes f pc' := by
  cases h with
  | keeps _ hsame => exact .inl (hsame ▸ hf)
  | @uses a g isNew =>
    rcases List.mem_cons.mp hf with rfl | hold
    · cases isNew with
      | true => exact .inr (.inr rfl)
      | false => exact .inr (.inl rfl)
    · exact .inl hold
  | registers => exact .inl hf
  | registersNew => exact .inl hf

/-- What is to be registered for the parent still is, or has been. -/
theorem Counting.owes {w w' : World F} {pc pc' : Pc F} (h : Counting w pc pc' w') (parents : Filename F → Nat)
    {f : Filename F} (hf : Owes f pc) : Owes f pc' ∨ 0 < withParents parents pc f := by
  cases h with
  | keeps _ _ _ howes => exact (howes f hf).elim
  | uses => exact hf.elim
  | @registers a g isNew =>
    cases isNew with
    | true => exact .inl hf
    | false => exact hf.elim
  | registersNew =>
    obtain rfl := hf
    exact .inr (by simp [withParents])

theorem withParents_le (parents : Filename F → Nat) (pc : Pc F) (f : Filename F) :
    parents f ≤ withParents parents pc f := by
  unfold withParents
  split
  next a g =>
    by_cases hfg : f = g
    · subst hfg
      simp
    · rw [Function.update_of_ne hfg]
  next => exact Nat.le_refl _

/-- Step: an access keeps the counts covered, -/
theorem Covered.turn {s : Shared F} {parents : Filename F → Nat} (h : Covered s parents)
    (hunlink : r.unlinkOnGcCollect = true) {t : Nat} {pc : Pc F} {w : World F} {choice : Choice F}
    (hturn : r.turn t s.world (s.reducers.threads t) choice = some (pc, w)) :
    Covered (s.acted (s.reducers.moved t pc w) (.turn t choice)) (withParents parents (s.reducers.threads t)) := by
  obtain ⟨hnamed, hpc, hdrawn⟩ := turn_named hturn h.named (h.goesBy t)
  obtain ⟨hbacks, _⟩ := effect_disk (turn_effect hturn) (h.backs t)
  have hdisk := fun f => effect_grows (turn_effect (r := r) hturn) (f := f)
  simp only [acted, moved_self]
  refine ⟨hnamed, Reducers.goesBy_moved h.goesBy hpc hdrawn, h.count_turn hunlink hturn, fun u f hu => ?_,
    fun f i hout => ?_⟩
  · change Backs f ((s.reducers.moved t pc w).threads u) at hu
    by_cases hut : u = t
    · subst hut
      rw [moved_self] at hu
      exact hbacks f hu
    · rw [moved_other hut] at hu
      exact hdisk f (h.backs u f hu)
  · rcases List.mem_append.mp hout with hnew | hold
    · obtain ⟨_, hsome, _, a, hfile, rfl⟩ := mem_handed hturn (h.backs t) hnew
      obtain ⟨more, hmore⟩ := hdrawn
      exact ⟨hsome, hmore ▸ Reducers.drawn_grows (h.goesBy t a f.basename (nameOf_fileOf hfile))⟩
    · obtain ⟨hsome, hname⟩ := h.out f i hold
      obtain ⟨more, hmore⟩ := hdrawn
      exact ⟨hdisk f hsome, hmore ▸ Reducers.drawn_grows hname⟩

/-- and leaves the parent what it has. -/
theorem Owned.turn {s : Shared F} {parents : Filename F → Nat} (h : Owned s parents)
    (hunlink : r.unlinkOnGcCollect = true) {t : Nat} {pc : Pc F} {w : World F} {choice : Choice F}
    (hturn : r.turn t s.world (s.reducers.threads t) choice = some (pc, w))
    (honce : ∀ a f, s.reducers.threads t = .dump a f → s.world.disk f = none → s.cleaned f = false) :
    Owned (s.acted (s.reducers.moved t pc w) (.turn t choice)) (withParents parents (s.reducers.threads t)) := by
  have hcounting := turn_counting hunlink hturn
  refine ⟨fun u f hu => ?_, fun f hf hcleaned => ?_, fun f hf => ?_⟩
  · change Used f ((s.reducers.moved t pc w).threads u) at hu
    by_cases hut : u = t
    · subst hut
      rw [moved_self] at hu
      exact (hcounting.used hu).elim (fun hold => hcounting.known (h.used u f hold)) id
    · rw [moved_other hut] at hu
      exact hcounting.known (h.used u f hu)
  · change 0 < withParents parents (s.reducers.threads t) f ∨ ∃ v, Owes f ((s.reducers.moved t pc w).threads v)
    have hnow : Owes f pc → ∃ v, Owes f ((s.reducers.moved t pc w).threads v) := fun howes => ⟨t, by rwa [moved_self]⟩
    have hbefore : f ∈ s.world.temporaryMemmapedFilenames →
        0 < withParents parents (s.reducers.threads t) f ∨ ∃ v, Owes f ((s.reducers.moved t pc w).threads v) := by
      intro hold
      rcases h.owed f hold hcleaned with hpos | ⟨u, hu⟩
      · exact .inl (Nat.lt_of_lt_of_le hpos (withParents_le ..))
      · by_cases hut : u = t
        · subst hut
          exact (hcounting.owes parents hu).symm.imp_right hnow
        · exact .inr ⟨u, by rwa [moved_other hut]⟩
    rcases hcounting.fresh hf with hold | hold | howes
    · exact hbefore hold
    · exact hbefore (h.used t f hold)
    · exact .inr (hnow howes)
  · rcases Bool.or_eq_true_iff.mp hf with hold | hcreated
    · obtain ⟨hknown, hcleaned⟩ := h.kept f hold
      exact ⟨hcounting.known hknown, hcleaned⟩
    · obtain ⟨hnone, a, hdump⟩ := effect_creates (turn_effect (r := r) hturn) hcreated
      exact ⟨hcounting.known (h.used t f (by rw [hdump]; rfl)), honce a f hdump hnone⟩

omit [DecidableEq F] in
/-- A call that begins goes by no file yet. -/
theorem begin_nameless (a : NdArray) :
    Reducers.nameOf (r.begin a : Pc F) = none ∧
      ∀ f, ¬ Holds f (r.begin a : Pc F) ∧ ¬ Owes f (r.begin a : Pc F) ∧ ¬ Used f (r.begin a : Pc F) := by
  unfold ArrayMemmapForwardReducer.begin
  split
  · exact ⟨rfl, fun _ => ⟨id, id, id⟩⟩
  · split <;> exact ⟨rfl, fun _ => ⟨id, id, id⟩⟩

/-- Step: a call. -/
theorem Covered.call {s : Shared F} {parents : Filename F → Nat} (h : Covered s parents) (t : Nat) (a : NdArray) :
    Covered {s with reducers := s.reducers.moved t (r.begin a) s.world} parents := by
  obtain ⟨hname, hnone⟩ := begin_nameless (F := F) (r := r) a
  refine ⟨h.named, Reducers.goesBy_moved h.goesBy (.nameless hname) List.prefix_rfl, fun f S hS => ?_,
    fun u f hu => ?_, h.out⟩
  · exact h.count f S (Covered.holders_moved hS fun hf => ((hnone f).1 hf).elim)
  · change Backs f ((s.reducers.moved t (r.begin a) s.world).threads u) at hu
    by_cases hut : u = t
    · subst hut
      rw [moved_self] at hu
      exact ((hnone f).1 hu.holds).elim
    · rw [moved_other hut] at hu
      exact h.backs u f hu

omit [DecidableEq F] in
theorem Owned.call {s : Shared F} {parents : Filename F → Nat} (h : Owned s parents) {t : Nat}
    (hfree : (s.reducers.threads t).free = true) (a : NdArray) :
    Owned {s with reducers := s.reducers.moved t (r.begin a) s.world} parents := by
  obtain ⟨_, hnone⟩ := begin_nameless (F := F) (r := r) a
  refine ⟨fun u f hu => ?_, fun f hf hcleaned => (h.owed f hf hcleaned).imp_right fun ⟨u, hu⟩ => ⟨u, ?_⟩, h.kept⟩
  · change Used f ((s.reducers.moved t (r.begin a) s.world).threads u) at hu
    by_cases hut : u = t
    · subst hut
      rw [moved_self] at hu
      exact ((hnone f).2.2 hu).elim
    · rw [moved_other hut] at hu
      exact h.used u f hu
  · -- who is to register is in a call
    have hut : u ≠ t := by
      rintro rfl
      cases hpc : s.reducers.threads u <;> rw [hpc] at hu hfree <;> first | exact hu | cases hfree
    change Owes f ((s.reducers.moved t (r.begin a) s.world).threads u)
    rwa [moved_other hut]

/-! ### Giving up -/

omit [DecidableEq F] in
theorem unlinked_disk (s : Shared F) (files : Filename F → Bool) (g : Filename F) :
    (s.unlinked files).world.disk g = if files g = true ∧ s.world.registered g = 1 then none else s.world.disk g := by
  simp [Shared.unlinked, maybeUnlink]

omit [DecidableEq F] in
/-- What is left has been there. -/
theorem disk_of_unlinked {s : Shared F} {files : Filename F → Bool} {g : Filename F} {file : File}
    (h : (s.unlinked files).world.disk g = some file) : s.world.disk g = some file := by
  rw [unlinked_disk] at h
  split at h
  · cases h
  · exact h

/-- Step: a `maybe_unlink` of files by whoever has a reference to each to give up; `s'` is what is left. -/
theorem Covered.unlinked {s s' : Shared F} {parents parents' : Filename F → Nat} (h : Covered s parents)
    {files : Filename F → Bool} (hreducers : s'.reducers = s.unlinked files) (hout : ∀ p ∈ s'.out, p ∈ s.out)
    (hfewer : ∀ g, s'.outOf g + parents' g + (files g).toNat ≤ s.outOf g + parents g) : Covered s' parents' := by
  have hworld : s'.world = (s.unlinked files).world := congrArg Reducers.world hreducers
  have hthreads : s'.reducers.threads = s.reducers.threads := by rw [hreducers]; rfl
  have hregistered : ∀ g, s'.world.registered g = s.world.registered g - (files g).toNat := by
    intro g
    rw [hworld]
    cases hg : files g <;> simp [Shared.unlinked, maybeUnlink, hg]
  -- a file goes only when nothing else has counted
  have hkept : ∀ g, (s.world.disk g).isSome = true → 0 < s'.world.registered g → (s'.world.disk g).isSome = true := by
    intro g hsome hmore
    rw [hregistered] at hmore
    rw [hworld, unlinked_disk, if_neg]
    · exact hsome
    · rintro ⟨hg, hone⟩
      rw [hg, hone] at hmore
      exact absurd hmore (Nat.lt_irrefl 0)
  have hcount : ∀ g (S : Finset Nat), (∀ t ∈ S, Holds g (s'.reducers.threads t)) →
      S.card + s'.outOf g + parents' g ≤ s'.world.registered g := by
    intro g S hS
    have hle := h.count g S (hthreads ▸ hS)
    have hless := hfewer g
    rw [hregistered]
    omega
  have hdisk : ∀ g file, s'.world.disk g = some file → s.world.disk g = some file :=
    fun g file hg => disk_of_unlinked (hworld ▸ hg)
  refine ⟨⟨fun i basename hi => ?_, fun g file hg => ?_⟩, fun t => ?_, hcount, fun t g hg => ?_, fun g i hg => ?_⟩
  · rw [hworld] at hi ⊢
    exact h.named.arrays i basename hi
  · have hname := h.named.files g file (hdisk g file hg)
    rw [hworld]
    exact hname
  · rw [hworld, hthreads]
    exact h.goesBy t
  · refine hkept g (h.backs t g (hthreads ▸ hg)) ?_
    have hle := hcount g {t} fun u hu => by
      rw [Finset.mem_singleton.mp hu]
      exact Backs.holds hg
    rw [Finset.card_singleton] at hle
    omega
  · obtain ⟨hsome, hname⟩ := h.out g i (hout _ hg)
    refine ⟨hkept g hsome ?_, by rw [hworld]; exact hname⟩
    have hpos : 0 < s'.outOf g := List.countP_pos_iff.mpr ⟨_, hg, by simp⟩
    have hle := hcount g ∅ fun u hu => absurd hu (Finset.notMem_empty u)
    omega

/-! ### Runs -/

theorem initial_covered : Covered (initial : Shared F) fun _ => 0 := by
  refine ⟨.initial, fun _ => .nameless rfl, fun f S hS => ?_, fun _ _ h => h.elim, fun _ _ h => by cases h⟩
  have hnone : S = ∅ := Finset.eq_empty_of_forall_notMem fun t ht => (hS t ht).elim
  simp [hnone, outOf, initial]

omit [DecidableEq F] in
theorem initial_owned : Owned (initial : Shared F) fun _ => 0 :=
  ⟨fun _ _ h => h.elim, fun _ h => (by cases h), fun _ h => (by cases h)⟩

/-- Every file's count covers what it has to, the parent having what it gives up at a cleanup. -/
def Sound (s : Shared F) : Prop := ∃ parents, Covered s parents ∧ Owned s parents

/-- Step: a cleanup gives up what the parent has. -/
theorem Sound.cleanup {s s' : Shared F} (h : Sound s) {folder : F} (hs : Shared.step r s (.cleanup folder) = some s')
    (horderly : Orderly s (.cleanup folder) s') : Sound s' := by
  obtain ⟨parents, hcovered, howned⟩ := h
  have hhas : ∀ f, s.givenUp folder f = true → 0 < parents f := by
    intro f hf
    obtain ⟨hknown, hcleaned⟩ := howned.kept f (Bool.and_eq_true_iff.mp hf).2
    refine (howned.owed f hknown hcleaned).resolve_right ?_
    rintro ⟨t, ht⟩
    have hregistered := horderly.registered folder f rfl hf t
    unfold Owes at ht
    split at ht
    next a g hpc => exact (hregistered a).1 (ht ▸ hpc)
    next a g hpc => exact (hregistered a).2 (ht ▸ hpc)
    next => exact ht
  cases hs
  refine ⟨fun f => parents f - (s.givenUp folder f).toNat, hcovered.unlinked rfl (fun p hp => hp) fun f => ?_,
    howned.used, fun f hf hcleaned => ?_, fun f hf => ?_⟩
  · have hpos := hhas f
    change s.outOf f + (parents f - (s.givenUp folder f).toNat) + (s.givenUp folder f).toNat ≤ s.outOf f + parents f
    cases hgiven : s.givenUp folder f with
    | false => simp
    | true =>
      have hpos := hpos hgiven
      simp only [Bool.toNat_true]
      omega
  · obtain ⟨hbefore, hgiven⟩ := Bool.or_eq_false_iff.mp hcleaned
    simp only [hgiven, Bool.toNat_false, Nat.sub_zero]
    exact howned.owed f hf hbefore
  · obtain ⟨hkept, hfolder⟩ := Bool.and_eq_true_iff.mp hf
    obtain ⟨hknown, hcleaned⟩ := howned.kept f hkept
    refine ⟨hknown, Bool.or_eq_false_iff.mpr ⟨hcleaned, ?_⟩⟩
    have hother : decide (f.folder = folder) = false := by simpa using hfolder
    rw [givenUp, hother]
    rfl

/-- **Step: every orderly event keeps the counts covered.** -/
theorem Sound.step {s s' : Shared F} {e : Event F} (h : Sound s) (hunlink : r.unlinkOnGcCollect = true)
    (hs : Shared.step r s e = some s') (horderly : Orderly s e s') : Sound s' := by
  cases e with
  | acts action =>
    obtain ⟨parents, hcovered, howned⟩ := h
    obtain ⟨s₁, hs₁, rfl⟩ := Option.map_eq_some_iff.mp hs
    cases action with
    | call t a =>
      obtain ⟨hfree, rfl⟩ := step_call hs₁
      exact ⟨parents, hcovered.call t a, howned.call hfree a⟩
    | turn t choice =>
      obtain ⟨pc, w, hturn, rfl⟩ := step_turn hs₁
      exact ⟨_, hcovered.turn hunlink hturn,
        howned.turn hunlink hturn fun a f => horderly.once t choice a f rfl⟩
  | release f i =>
    obtain ⟨parents, hcovered, howned⟩ := h
    simp only [Shared.step] at hs
    split at hs
    next hout =>
      cases hs
      refine ⟨parents, hcovered.unlinked rfl (fun p hp => List.mem_of_mem_erase hp) fun g => ?_, howned.used,
        howned.owed, howned.kept⟩
      have hpos : 0 < s.outOf f := List.countP_pos_iff.mpr ⟨_, hout, by simp⟩
      simp only [outOf] at hpos ⊢
      rw [countP_erase hout]
      by_cases hgf : g = f
      · subst hgf
        simp only [if_true, decide_true, Bool.toNat_true]
        omega
      · simp [hgf, Ne.symm hgf]
    next => cases hs
  | cleanup folder => exact h.cleanup hs horderly

/-- What the counts cover is there. -/
theorem Covered.backed {s : Shared F} {parents : Filename F → Nat} (h : Covered s parents) {f : Filename F} {i : Nat}
    (hout : (f, i) ∈ s.out) : ∃ file, s.world.disk f = some file ∧ file.array = i := by
  obtain ⟨hsome, hname⟩ := h.out f i hout
  obtain ⟨file, hfile⟩ := Option.isSome_iff_exists.mp hsome
  exact ⟨file, hfile, Option.some.inj ((h.named.files f file hfile).symm.trans hname)⟩

/-- **No reference ever dangles** in an orderly run: whatever the threads, the consumers and the parent have
done and in whatever order, behind every reference that is out there is a file, and it was dumped from the
array the reference was returned for. -/
theorem never_dangles (r : ArrayMemmapForwardReducer) (hunlink : r.unlinkOnGcCollect = true) (events : List (Event F))
    {s : Shared F} (hrun : Runs.run (step r) initial events = some s)
    (horderly : Runs.Every (step r) Orderly initial events) {f : Filename F} {i : Nat} (hout : (f, i) ∈ s.out) :
    ∃ file, s.world.disk f = some file ∧ file.array = i := by
  obtain ⟨_, hcovered, _⟩ := Runs.guarded_run (fun _ _ _ h hs hguard => Sound.step h hunlink hs hguard)
    ⟨_, initial_covered, initial_owned⟩ horderly hrun
  exact hcovered.backed hout

/-- Before a cleanup has nothing to give up, nothing is out of order. -/
theorem Orderly.of_not_cleanup {s s' : Shared F} {e : Event F} (he : ∀ folder, e ≠ .cleanup folder)
    (hcleaned : ∀ f, s.cleaned f = false) : Orderly s e s' :=
  ⟨fun folder _ heq => absurd heq (he folder), fun _ _ _ f _ _ _ => hcleaned f⟩

theorem orderly_until_cleanup {s : Shared F} {events : List (Event F)}
    (hevents : ∀ e ∈ events, ∀ folder, e ≠ .cleanup folder) (hcleaned : ∀ f, s.cleaned f = false) :
    Runs.Every (step r) Orderly s events := by
  induction events generalizing s with
  | nil => trivial
  | cons e rest ih =>
    intro s' hs'
    have he := hevents e (List.mem_cons_self ..)
    refine ⟨.of_not_cleanup he hcleaned, ih (fun e' he' => hevents e' (List.mem_cons_of_mem e he')) fun f => ?_⟩
    have hsame : s'.cleaned = s.cleaned := by
      cases e with
      | acts action =>
        obtain ⟨_, _, rfl⟩ := Option.map_eq_some_iff.mp hs'
        cases action <;> rfl
      | release g i =>
        simp only [step] at hs'
        split at hs' <;> cases hs'
        rfl
      | cleanup folder => exact absurd rfl (he folder)
    rw [hsame]
    exact hcleaned f

/-! Two threads reduce one array, the first returning while the second is on its way to the file, which
it finds though the first reference has been released by then and the folder cleaned up. -/

def accesses (t n : Nat) : List (Event String) := List.replicate n (.acts (.turn t .go))

def begins (t : Nat) : List (Event String) := [.acts (.call t bigArray)]

def answered (t : Nat) : List (Event String) := [.acts (.turn t (.answers "/dev/shm/joblib"))]

def underWay : List (Event String) :=
  begins 0 ++ accesses 0 3 ++ answered 0 ++ accesses 0 8 ++ begins 1 ++ accesses 1 2 ++ answered 1 ++ accesses 1 3 ++
    [.release bigFile 7]

def overlapping : List (Event String) := underWay ++ (.cleanup "/dev/shm/joblib" :: accesses 1 2)

def overlapped : Shared String := (Runs.run (step reducer) initial overlapping).getD initial

theorem never_dangles_overlapping :
    Runs.run (step reducer) initial overlapping = some overlapped ∧ overlapped.cleaned bigFile = true ∧
      (bigFile, 7) ∈ overlapped.out ∧ ∃ file, overlapped.world.disk bigFile = some file ∧ file.array = 7 := by
  have hrun : Runs.run (step reducer) initial overlapping = some overlapped := rfl
  have hmem : (bigFile, 7) ∈ overlapped.out := List.mem_cons_self ..
  have horderly : Runs.Every (step reducer) Orderly initial overlapping := by
    refine .append (orderly_until_cleanup ?_ fun _ => rfl) fun s hs => ?_
    · simp [underWay, begins, accesses, answered]
    · obtain rfl : (Runs.run (step reducer) initial underWay).getD initial = s := Option.some.inj hs
      refine .cons rfl ⟨fun folder f _ _ t a => ?_, fun _ _ _ _ heq => by cases heq⟩
        (.cons rfl ?_ (.cons rfl ?_ trivial))
      · -- the second thread is to register nothing of the parent's
        match t with
        | 0 | 1 => exact ⟨nofun, nofun⟩
        | t + 2 => exact ⟨nofun, nofun⟩
      · exact ⟨nofun, fun t choice a f heq hdump => by cases heq; cases hdump⟩
      · exact ⟨nofun, fun t choice a f heq hdump => by cases heq; cases hdump⟩
  exact ⟨hrun, rfl, hmem, never_dangles reducer rfl overlapping hrun horderly hmem⟩

/-! A folder cleaned up between a thread's registering its file and another's registering the parent's own
reference to it, and one cleaned up again after an array has been dumped into it anew. -/

def registeredLate : List (Event String) :=
  begins 0 ++ accesses 0 3 ++ answered 0 ++ accesses 0 2 ++ begins 1 ++ accesses 1 2 ++ answered 1 ++ accesses 1 8 ++
    [.cleanup "/dev/shm/joblib"]

def createdAgain : List (Event String) :=
  begins 0 ++ accesses 0 3 ++ answered 0 ++ accesses 0 8 ++ [.release bigFile 7, .cleanup "/dev/shm/joblib"] ++
    begins 0 ++ accesses 0 2 ++ answered 0 ++ accesses 0 8 ++ [.cleanup "/dev/shm/joblib"]

theorem dangles_otherwise : ∀ events ∈ [registeredLate, createdAgain], ∃ s,
    Runs.run (step reducer) initial events = some s ∧ (bigFile, 7) ∈ s.out ∧ s.world.disk bigFile = none := by
  intro events hevents
  rcases List.mem_cons.mp hevents with rfl | hevents
  · exact ⟨_, rfl, List.mem_cons_self .., rfl⟩
  · obtain rfl := List.mem_singleton.mp hevents
    exact ⟨_, rfl, List.mem_cons_self .., rfl⟩

end Joblib.Memmapping.Shared
