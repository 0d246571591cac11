import Mathlib.Data.List.Basic
import Mathlib.Logic.Basic

/-! # Machines in lockstep

Two computations agree when they fail with the same error or both succeed with related
results. Two partial machines that agree on every operation, from related states, agree
on every sequence of operations.
-/
namespace Lockstep

universe u v

variable {ε α β : Type*} {σ σ' : Type u} {τ τ' : Type v}
variable {R S : σ → τ → Prop} {R' : σ' → τ' → Prop}
variable {x : Except ε σ} {y : Except ε τ}

/-- Both computations fail with the same error, or both succeed with related results. -/
inductive Agree (R : σ → τ → Prop) : Except ε σ → Except ε τ → Prop
  | ok {s : σ} {t : τ} (h : R s t) : Agree R (.ok s) (.ok t)
  | error (e : ε) : Agree R (.error e) (.error e)

theorem Agree.mono (h : Agree R x y) (hRS : ∀ s t, R s t → S s t) : Agree S x y := by
  cases h with
  | ok h => exact .ok (hRS _ _ h)
  | error e => exact .error e

/-- What follows from the relation may use that the results are those of the computations. -/
theorem Agree.mono_of_eq (h : Agree R x y)
    (hRS : ∀ s t, x = .ok s → y = .ok t → R s t → S s t) : Agree S x y := by
  cases h with
  | ok h => exact .ok (hRS _ _ rfl rfl h)
  | error e => exact .error e

/-- Agreement is a matter of the two halves of a sequence. -/
theorem Agree.bind {f : σ → Except ε σ'} {g : τ → Except ε τ'} (h : Agree R x y)
    (hfg : ∀ s t, R s t → Agree R' (f s) (g t)) : Agree R' (x >>= f) (y >>= g) := by
  cases h with
  | ok h => exact hfg _ _ h
  | error e => exact .error e

/-- Branches on the same condition. -/
theorem Agree.ite {c : Prop} [Decidable c] {x' : Except ε σ} {y' : Except ε τ} (h : Agree R x y)
    (h' : Agree R x' y') : Agree R (if c then x else x') (if c then y else y') := by
  split
  · exact h
  · exact h'

/-- They fail with the same errors. -/
theorem Agree.error_iff (h : Agree R x y) {e : ε} : x = .error e ↔ y = .error e := by
  cases h with
  | ok h => simp
  | error f => simp

/-- A success has a related one. -/
theorem Agree.exists_right {s : σ} (h : Agree R (.ok s) y) : ∃ t, y = .ok t ∧ R s t := by
  cases h with
  | ok h => exact ⟨_,rfl,h⟩

theorem Agree.exists_left {t : τ} (h : Agree R x (.ok t)) : ∃ s, x = .ok s ∧ R s t := by
  cases h with
  | ok h => exact ⟨_,rfl,h⟩

/-- Under a relation that is a function, the second computation is the image of the first one. -/
theorem Agree.map_eq {f : σ → τ} (h : Agree R x y) (hf : ∀ s t, R s t → f s = t) :
    x.map f = y := by
  cases h with
  | ok h => exact congrArg Except.ok (hf _ _ h)
  | error e => rfl

/-- A computation agrees with its image. -/
theorem Agree.map {f : σ → τ} (x : Except ε σ) (h : ∀ s, x = .ok s → R s (f s)) :
    Agree R x (x.map f) := by
  cases x with
  | ok s => exact .ok (h s rfl)
  | error e => exact .error e

section Runs
variable {ω : Type*} {f : σ → α → Except ε σ} {g : τ → β → Except ε τ} {a : ω → α} {b : ω → β}

/-- Machines that agree on each operation, as each of them understands it, agree on runs. -/
theorem agree_foldlM (hstep : ∀ s t o, R s t → Agree R (f s (a o)) (g t (b o)))
    (operations : List ω) {s : σ} {t : τ} (h : R s t) :
    Agree R ((operations.map a).foldlM f s) ((operations.map b).foldlM g t) := by
  induction operations generalizing s t with
  | nil => exact .ok h
  | cons o operations ih =>
    rw [List.map_cons,List.map_cons,List.foldlM_cons,List.foldlM_cons]
    apply (hstep s t o h).bind
    intro s' t' h'
    exact ih h'

end Runs

end Lockstep
