import Mathlib.Data.List.Nodup
import Mathlib.Logic.Function.Basic
import Mathlib.Data.Int.Notation

/-! # Free chains stored in an index array

A chain starts at an index, follows the array and ends at minus one. Cells off
the chain may be overwritten freely; popping the head and pushing a cell that is
off the chain are the only two operations a stack of free indices needs.
-/
namespace FreeChain

/-- `c` lists the indices met from `i` on, in order, up to the end mark. -/
def Chain (next : ℕ → ℤ) : ℤ → List ℕ → Prop
  | i, [] => i = -1
  | i, j :: c => i = j ∧ Chain next (next j) c

theorem Chain.congr {next next' : ℕ → ℤ} {i : ℤ} {c : List ℕ} (h : Chain next i c)
    (hn : ∀ j ∈ c, next' j = next j) : Chain next' i c := by
  induction c generalizing i with
  | nil => exact h
  | cons j c ih =>
    refine ⟨h.1,?_⟩
    rw [hn j List.mem_cons_self]
    exact ih h.2 (fun k hk => hn k (List.mem_cons_of_mem _ hk))

theorem Chain.update {next : ℕ → ℤ} {i : ℤ} {c : List ℕ} (h : Chain next i c) {j : ℕ}
    (hj : j ∉ c) (v : ℤ) : Chain (Function.update next j v) i c := by
  refine h.congr (fun k hk => ?_)
  have hkj : k ≠ j := by
    rintro rfl
    exact hj hk
  exact Function.update_of_ne hkj _ _

/-- Every link on a chain is an index of the chain or the end mark. -/
theorem Chain.next_ge {next : ℕ → ℤ} {i : ℤ} {c : List ℕ} (h : Chain next i c) {j : ℕ}
    (hj : j ∈ c) : -1 ≤ next j := by
  induction c generalizing i with
  | nil => simp at hj
  | cons k c ih =>
    rcases List.mem_cons.mp hj with rfl | hj
    · cases c with
      | nil =>
        have hend : next j = -1 := h.2
        omega
      | cons m c =>
        have hm := h.2.1
        omega
    · exact ih h.2 hj

theorem Chain.head_eq_end {next : ℕ → ℤ} {i : ℤ} {c : List ℕ} (h : Chain next i c) :
    i = -1 ↔ c = [] := by
  cases c with
  | nil => exact iff_of_true h rfl
  | cons j c =>
    have hj := h.1
    simp only [reduceCtorEq,iff_false]
    omega

/-- Pushing an index that is off the chain. -/
theorem Chain.push {next : ℕ → ℤ} {i : ℤ} {c : List ℕ} (h : Chain next i c) {j : ℕ}
    (hj : j ∉ c) : Chain (Function.update next j i) j (j :: c) := by
  refine ⟨rfl,?_⟩
  rw [Function.update_self]
  exact h.update hj i

/-- The array that links each of `n` cells to the following one. -/
def successors (n : ℕ) : ℕ → ℤ := fun i => if i + 1 < n then (i + 1 : ℕ) else -1

theorem chain_successors (n k : ℕ) (hk : k < n) :
    Chain (successors n) k (List.range' k (n - k)) := by
  induction hm : n - k generalizing k with
  | zero => omega
  | succ m ih =>
    rw [List.range'_succ]
    refine ⟨rfl,?_⟩
    by_cases hlt : k + 1 < n
    · rw [successors,if_pos hlt]
      exact ih (k + 1) hlt (by omega)
    · have hm0 : m = 0 := by omega
      subst hm0
      simp [successors,hlt,Chain]

end FreeChain
