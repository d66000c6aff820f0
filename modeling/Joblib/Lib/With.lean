import Mathlib.Logic.Basic

/-! Programs of `with` blocks.

A block's manager is constructed, its body is run, and it is left again, whether the body
finished or raised; an exception raised on leaving takes the place of the body's. `Each P`
says that every block a program reaches satisfies `P`. What holds of the state and survives
construction and leaving survives every program (`exec_invariant`), and under it two
properties that agree on every block agree on every program (`each_congr`). -/
namespace With

inductive Program (μ E : Type) where
  | pass
  | raise (e : E)
  | seq (first second : Program μ E)
  | block (manager : μ) (body : Program μ E)
  /-- `try: body except: handler`. -/
  | attempt (body handler : Program μ E)

/-- How managers `μ` act on states `σ`: construction gives what is to be left. -/
structure Protocol (σ μ H E : Type) where
  construct : μ → σ → Except E H × σ
  leave : H → σ → Except E Unit × σ

variable {σ μ H E : Type} (P : Protocol σ μ H E)

def exec : Program μ E → σ → Except E Unit × σ
  | .pass, s => (.ok (), s)
  | .raise e, s => (.error e, s)
  | .seq first second, s =>
    match exec first s with
    | (.ok (), s) => exec second s
    | (.error e, s) => (.error e, s)
  | .block manager body, s =>
    match P.construct manager s with
    | (.error e, s) => (.error e, s)
    | (.ok h, s) =>
      let (r, s) := exec body s
      match P.leave h s with
      | (.error e, s) => (.error e, s)
      | (.ok (), s) => (r, s)
  | .attempt body handler, s =>
    match exec body s with
    | (.ok (), s) => (.ok (), s)
    | (.error _, s) => exec handler s

/-- Every block reached satisfies `Q`, of the state it is reached in. -/
def Each (Q : σ → μ → Program μ E → Prop) : Program μ E → σ → Prop
  | .pass, _ => True
  | .raise _, _ => True
  | .seq first second, s =>
    Each Q first s ∧ ∀ s', exec P first s = (.ok (), s') → Each Q second s'
  | .block manager body, s =>
    Q s manager body ∧ ∀ h s', P.construct manager s = (.ok h, s') → Each Q body s'
  | .attempt body handler, s =>
    Each Q body s ∧ ∀ e s', exec P body s = (.error e, s') → Each Q handler s'

/-- An invariant of construction and leaving. -/
structure Invariant (I : σ → Prop) : Prop where
  construct : ∀ m s, I s → I (P.construct m s).2
  leave : ∀ h s, I s → I (P.leave h s).2

variable {P}

theorem exec_invariant {I : σ → Prop} (hI : Invariant P I) (p : Program μ E) {s : σ} (hs : I s) :
    I (exec P p s).2 := by
  induction p generalizing s with
  | pass => exact hs
  | raise e => exact hs
  | seq first second ihfirst ihsecond =>
    have hfirst := ihfirst hs
    unfold exec
    cases hrun : exec P first s with
    | mk r s' =>
      rw [hrun] at hfirst
      cases r with
      | ok u => exact ihsecond hfirst
      | error e => exact hfirst
  | block manager body ih =>
    have hconstruct := hI.construct manager s hs
    unfold exec
    cases hrun : P.construct manager s with
    | mk r s' =>
      rw [hrun] at hconstruct
      cases r with
      | error e => exact hconstruct
      | ok h =>
        have hleave := hI.leave h _ (ih hconstruct)
        dsimp only
        cases hleft : P.leave h (exec P body s').2 with
        | mk r' s'' =>
          rw [hleft] at hleave
          cases r' <;> exact hleave
  | attempt body handler ihbody ihhandler =>
    have hbody := ihbody hs
    unfold exec
    cases hrun : exec P body s with
    | mk r s' =>
      rw [hrun] at hbody
      cases r with
      | ok u => exact hbody
      | error e => exact ihhandler hbody

/-- **Two properties of blocks that agree wherever an invariant holds agree along every
program run from there.** -/
theorem each_congr {I : σ → Prop} (hI : Invariant P I) {Q Q' : σ → μ → Program μ E → Prop}
    (hcongr : ∀ s m body, I s → (Q s m body ↔ Q' s m body)) (p : Program μ E) {s : σ} (hs : I s) :
    Each P Q p s ↔ Each P Q' p s := by
  induction p generalizing s with
  | pass => exact Iff.rfl
  | raise e => exact Iff.rfl
  | seq first second ihfirst ihsecond =>
    refine and_congr (ihfirst hs) (forall_congr' fun s' => ?_)
    refine imp_congr_right fun hrun => ihsecond ?_
    have := exec_invariant hI first hs
    rwa [hrun] at this
  | block manager body ih =>
    refine and_congr (hcongr s manager body hs) (forall_congr' fun h => forall_congr' fun s' => ?_)
    refine imp_congr_right fun hrun => ih ?_
    have := hI.construct manager s hs
    rwa [hrun] at this
  | attempt body handler ihbody ihhandler =>
    refine and_congr (ihbody hs) (forall_congr' fun e => forall_congr' fun s' => ?_)
    refine imp_congr_right fun hrun => ihhandler ?_
    have := exec_invariant hI body hs
    rwa [hrun] at this

end With
