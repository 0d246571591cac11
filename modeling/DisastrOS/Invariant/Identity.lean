import Mathlib.Data.Nat.Notation
import Mathlib.Data.Int.Notation
import Mathlib.Logic.Function.Basic

/-! # Process identifiers

Allocated processes have distinct identifiers below `last_pid`, and only the first
process of a start may have the identifier zero.
-/
namespace DisastrOS

structure Identity (allocated : ℕ → Prop) (pid : ℕ → ℤ) (parent : ℕ → Option ℕ) (lastPid : ℤ) :
    Prop where
  lastNonneg : 0 ≤ lastPid
  nonneg : ∀ p, allocated p → 0 ≤ pid p
  below : ∀ p, allocated p → pid p < lastPid
  injective : ∀ p q, allocated p → allocated q → pid p = pid q → p = q
  childPositive : ∀ p, allocated p → parent p ≠ none → 0 < pid p

namespace Identity
variable {A A' : ℕ → Prop} {pid : ℕ → ℤ} {par : ℕ → Option ℕ} {last : ℤ} {p : ℕ} {o : Option ℕ}

theorem mono (h : Identity A pid par last) (hA : ∀ q, A' q → A q) : Identity A' pid par last where
  lastNonneg := h.lastNonneg
  nonneg q hq := h.nonneg q (hA q hq)
  below q hq := h.below q (hA q hq)
  injective q q' hq hq' := h.injective q q' (hA q hq) (hA q' hq')
  childPositive q hq := h.childPositive q (hA q hq)

/-- A new process gets the next identifier; only without another process can that
be zero. -/
theorem create (h : Identity A pid par last) (hp : ¬ A p) (hA : ∀ q, A' q ↔ q = p ∨ A q)
    (ho : o ≠ none → 0 < last) :
    Identity A' (Function.update pid p last)
      (Function.update (Function.update par p none) p o) (last + 1) := by
  have hold : ∀ q, A q → q ≠ p := by
    rintro q hq rfl
    exact hp hq
  have hlast := h.lastNonneg
  constructor
  · omega
  · intro q hq
    rcases (hA q).mp hq with rfl | hq
    · rwa [Function.update_self]
    · rw [Function.update_of_ne (hold q hq)]
      exact h.nonneg q hq
  · intro q hq
    rcases (hA q).mp hq with rfl | hq
    · rw [Function.update_self]
      omega
    · have hlt := h.below q hq
      rw [Function.update_of_ne (hold q hq)]
      omega
  · intro q q' hq hq' he
    rcases (hA q).mp hq with rfl | hq <;> rcases (hA q').mp hq' with rfl | hq'
    · rfl
    · rw [Function.update_self,Function.update_of_ne (hold q' hq')] at he
      have hlt := h.below q' hq'
      omega
    · rw [Function.update_self,Function.update_of_ne (hold q hq)] at he
      have hlt := h.below q hq
      omega
    · rw [Function.update_of_ne (hold q hq),Function.update_of_ne (hold q' hq')] at he
      exact h.injective q q' hq hq' he
  · intro q hq hpar
    rcases (hA q).mp hq with rfl | hq
    · rw [Function.update_self] at hpar ⊢
      exact ho hpar
    · have hne := hold q hq
      rw [Function.update_of_ne hne,Function.update_of_ne hne] at hpar
      rw [Function.update_of_ne hne]
      exact h.childPositive q hq hpar

theorem last_positive (h : Identity A pid par last) (hp : A p) : 0 < last := by
  have h0 := h.nonneg p hp
  have h1 := h.below p hp
  omega

end Identity

end DisastrOS
