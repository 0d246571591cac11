import DisastrOS.Foundation.Lockstep

/-! # Refinement of computations that may be undefined

Some errors of an abstract computation stand for behaviour that nothing is said about. A computation
refines it that fails with the same error or succeeds with a related result, wherever the abstract
one is not undefined; where it is never undefined the two of them agree.
-/
namespace Refinement
open Lockstep

universe u v

variable {ε : Type*} {σ σ' : Type u} {τ τ' : Type v} {undef : ε → Prop}
variable {R : σ → τ → Prop} {R' : σ' → τ' → Prop} {x : Except ε σ} {y : Except ε τ}

/-- The first computation does what the second one does, unless that is undefined. -/
inductive Refines (undef : ε → Prop) (R : σ → τ → Prop) : Except ε σ → Except ε τ → Prop
  | ok {s : σ} {t : τ} (h : R s t) : Refines undef R (.ok s) (.ok t)
  | error (e : ε) : Refines undef R (.error e) (.error e)
  | undefined {x : Except ε σ} {e : ε} (h : undef e) : Refines undef R x (.error e)

namespace Refines

/-- Refinement is a matter of the two halves of a sequence. -/
theorem bind {f : σ → Except ε σ'} {g : τ → Except ε τ'} (h : Refines undef R x y)
    (hfg : ∀ s t, R s t → Refines undef R' (f s) (g t)) :
    Refines undef R' (x >>= f) (y >>= g) := by
  cases h with
  | ok h => exact hfg _ _ h
  | error e => exact .error e
  | undefined h => exact .undefined h

/-- Branches on the same condition. -/
theorem ite {c d : Prop} [Decidable c] [Decidable d] {x' : Except ε σ} {y' : Except ε τ}
    (hcd : c ↔ d) (h : Refines undef R x y) (h' : Refines undef R x' y') :
    Refines undef R (if c then x else x') (if d then y else y') := by
  by_cases hc : c
  · rw [if_pos hc,if_pos (hcd.mp hc)]
    exact h
  · rw [if_neg hc,if_neg (mt hcd.mpr hc)]
    exact h'

/-- Only the concrete computation goes on. -/
theorem bind_left {f : σ → Except ε σ'} {T : σ' → τ → Prop} (h : Refines undef R x y)
    (hf : ∀ s t, R s t → Refines undef T (f s) (.ok t)) : Refines undef T (x >>= f) y := by
  cases h with
  | ok h => exact hf _ _ h
  | error e => exact .error e
  | undefined h => exact .undefined h

/-- The first half of the concrete computation cannot fail. -/
theorem ok_left {f : σ → Except ε σ'} {T : σ' → τ → Prop} {s : σ} (hx : x = .ok s)
    (h : Refines undef T (f s) y) : Refines undef T (x >>= f) y := by
  subst hx
  exact h

/-- Only the abstract computation goes on. -/
theorem bind_right {g : τ → Except ε τ'} {T : σ → τ' → Prop} (h : Refines undef R x y)
    (hg : ∀ s t, R s t → Refines undef T (.ok s) (g t)) : Refines undef T x (y >>= g) := by
  cases h with
  | ok h => exact hg _ _ h
  | error e => exact .error e
  | undefined h => exact .undefined h

/-- Where the abstract computation succeeds, the concrete one does. -/
theorem exists_ok {t : τ} (h : Refines undef R x (.ok t)) : ∃ s, x = .ok s ∧ R s t := by
  cases h with
  | ok h => exact ⟨_,rfl,h⟩

/-- Where the abstract computation is defined, the two of them agree. -/
theorem agree (h : Refines undef R x y) (hy : ∀ e, y = .error e → ¬ undef e) : Agree R x y := by
  cases h with
  | ok h => exact .ok h
  | error e => exact .error e
  | undefined h => exact absurd h (hy _ rfl)

end Refines

end Refinement
