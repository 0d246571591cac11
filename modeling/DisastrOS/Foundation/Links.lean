import Mathlib.Data.List.Nodup
import Mathlib.Data.List.Basic
import Mathlib.Logic.Function.Basic

/-! # Sequences that are linked through their nodes

A node knows its neighbours and nothing else. A chain of nodes is given by one link of each
node; a doubly linked sequence is a chain whose reverse is one for the other link. A node is
put into a sequence and taken out of it by changing the links of its two neighbours.
-/
namespace Links

variable {α : Type*} {next next' prev : α → Option α} {l l₁ l₂ : List α}
variable {e e' before after : Option α}
variable {x y : α} {key : α → Bool} {n : ℕ}

/-- Each node links to the following one, and the last one to `e`. -/
def Chained (next : α → Option α) : List α → Option α → Prop
  | [], _ => True
  | x :: l, e => next x = l.head?.or e ∧ Chained next l e

theorem chained_append :
    Chained next (l₁ ++ l₂) e ↔ Chained next l₁ (l₂.head?.or e) ∧ Chained next l₂ e := by
  induction l₁ with
  | nil => simp [Chained]
  | cons x l₁ ih => simp [Chained,ih,and_assoc,Option.or_assoc]

theorem Chained.congr (h : Chained next l e) (hn : ∀ x ∈ l, next' x = next x) :
    Chained next' l e := by
  induction l with
  | nil => trivial
  | cons x l ih =>
    refine ⟨(hn x List.mem_cons_self).trans h.1,ih h.2 ?_⟩
    intro y hy
    exact hn y (List.mem_cons_of_mem x hy)

theorem Chained.next_eq (h : Chained next (l₁ ++ x :: l₂) none) : next x = l₂.head? := by
  have hx := (chained_append.mp h).2.1
  rwa [Option.or_none] at hx

/-- The last link of a chain is changed, and no other one. -/
theorem Chained.retarget (h : Chained next l e) (hl : l.Nodup)
    (hlast : ∀ x, l.getLast? = some x → next' x = e')
    (hother : ∀ x ∈ l, l.getLast? ≠ some x → next' x = next x) : Chained next' l e' := by
  induction l with
  | nil => trivial
  | cons x l ih =>
    obtain ⟨hx,hl⟩ := List.nodup_cons.mp hl
    cases l with
    | nil => exact ⟨hlast x rfl,trivial⟩
    | cons y l =>
      have hend : (x :: y :: l).getLast? = (y :: l).getLast? := List.getLast?_cons_cons
      rw [hend] at hlast hother
      refine ⟨?_,ih h.2 hl hlast fun z hz => hother z (List.mem_cons_of_mem x hz)⟩
      have hne : (y :: l).getLast? ≠ some x := fun hlx => hx (List.mem_of_getLast? hlx)
      exact (hother x List.mem_cons_self hne).trans h.1

/-- Two chains from the same node to nowhere are the same. -/
theorem Chained.unique {l' : List α} (h : Chained next l none) (h' : Chained next l' none)
    (hhead : l.head? = l'.head?) : l = l' := by
  induction l generalizing l' with
  | nil => simpa using hhead.symm
  | cons x l ih =>
    cases l' with
    | nil => simp at hhead
    | cons y l' =>
      obtain rfl : x = y := by simpa using hhead
      have htail := h.1.symm.trans h'.1
      rw [Option.or_none,Option.or_none] at htail
      rw [ih h.2 h'.2 htail]

/-- What holds of the first node and goes from each node to the next one holds on the chain. -/
theorem Chained.forall_mem {P : α → Prop} (h : Chained next l none) (hfirst : ∀ x ∈ l.head?, P x)
    (hnext : ∀ x y, P x → next x = some y → P y) : ∀ x ∈ l, P x := by
  induction l with
  | nil => exact nofun
  | cons x l ih =>
    have hx := hfirst x rfl
    have hlink := h.1
    rw [Option.or_none] at hlink
    intro y hy
    rcases List.mem_cons.mp hy with rfl | hy
    · exact hx
    · exact ih h.2 (fun z hz => hnext x z hx (hlink.trans hz)) y hy

/-- The loop ends with this result, whatever number of steps above some it may take. -/
def Returns {β : Type*} (loop : ℕ → Option β) (r : β) : Prop := ∃ n, ∀ m, n ≤ m → loop m = some r

theorem Returns.unique {β : Type*} {loop : ℕ → Option β} {r r' : β} (h : Returns loop r)
    (h' : Returns loop r') : r = r' := by
  obtain ⟨n,hn⟩ := h
  obtain ⟨n',hn'⟩ := h'
  have hr := hn (max n n') (Nat.le_max_left _ _)
  have hr' := hn' (max n n') (Nat.le_max_right _ _)
  exact Option.some.inj (hr.symm.trans hr')

/-- The loop that follows the links up to the first node with a property, in a number of steps;
nothing if it is not over by then. -/
def findFrom (next : α → Option α) (key : α → Bool) : ℕ → Option α → Option (Option α)
  | _, none => some none
  | 0, some _ => none
  | n + 1, some x => if key x then some (some x) else findFrom next key n (next x)

/-- On a chain the loop ends, at the first node that has the property. -/
theorem Chained.findFrom_eq (h : Chained next l none) (hn : l.length ≤ n) :
    findFrom next key n l.head? = some (l.find? key) := by
  induction l generalizing n with
  | nil => cases n <;> rfl
  | cons x l ih =>
    obtain ⟨m,rfl⟩ : ∃ m, n = m + 1 := ⟨n - 1,by simp at hn; omega⟩
    have hx := h.1
    rw [Option.or_none] at hx
    simp only [List.head?_cons,findFrom]
    by_cases hkey : key x = true
    · rw [if_pos hkey,List.find?_cons_of_pos hkey]
    · rw [if_neg hkey,List.find?_cons_of_neg hkey,hx]
      exact ih h.2 (by simpa using hn)

theorem Chained.returns_findFrom (h : Chained next l none) (key : α → Bool) :
    Returns (fun n => findFrom next key n l.head?) (l.find? key) :=
  ⟨l.length,fun _ hm => h.findFrom_eq hm⟩

/-- The nodes that the links lead through, in a number of steps. -/
def nodes (next : α → Option α) : ℕ → Option α → List α
  | 0, _ => []
  | _ + 1, none => []
  | n + 1, some x => x :: nodes next n (next x)

/-- On a chain these are its nodes. -/
theorem Chained.nodes_eq (h : Chained next l none) (hn : l.length ≤ n) :
    nodes next n l.head? = l := by
  induction l generalizing n with
  | nil => cases n <;> rfl
  | cons x l ih =>
    obtain ⟨m,rfl⟩ : ∃ m, n = m + 1 := ⟨n - 1,by simp at hn; omega⟩
    have hx := h.1
    rw [Option.or_none] at hx
    rw [List.head?_cons,nodes,hx,ih h.2 (by simpa using hn)]

/-- A sequence without repetition that both links agree on. -/
structure Linked (prev next : α → Option α) (l : List α) : Prop where
  nodup : l.Nodup
  forward : Chained next l none
  backward : Chained prev l.reverse none

namespace Linked

theorem nil : Linked prev next ([] : List α) := ⟨List.nodup_nil,trivial,trivial⟩

theorem next_eq (h : Linked prev next (l₁ ++ x :: l₂)) : next x = l₂.head? := h.forward.next_eq

theorem next_head (h : Linked prev next (x :: l)) : next x = l.head? := by
  have hx := h.forward.1
  rwa [Option.or_none] at hx

theorem prev_eq (h : Linked prev next (l₁ ++ x :: l₂)) : prev x = l₁.getLast? := by
  have hback := h.backward
  rw [List.reverse_append,List.reverse_cons,List.append_assoc,List.singleton_append] at hback
  rw [hback.next_eq,List.head?_reverse]

theorem congr {prev' : α → Option α} (h : Linked prev next l) (hn : ∀ x ∈ l, next' x = next x)
    (hp : ∀ x ∈ l, prev' x = prev x) : Linked prev' next' l :=
  ⟨h.nodup,h.forward.congr hn,h.backward.congr fun x hx => hp x (List.mem_reverse.mp hx)⟩

/-- A node without neighbours is alone. -/
theorem eq_singleton (h : Linked prev next l) (hx : x ∈ l) (hprev : prev x = none)
    (hnext : next x = none) : l = [x] := by
  obtain ⟨l₁,l₂,rfl⟩ := List.append_of_mem hx
  rw [h.prev_eq,List.getLast?_eq_none_iff] at hprev
  rw [h.next_eq,List.head?_eq_none_iff] at hnext
  rw [hprev,hnext]
  rfl

end Linked

variable [DecidableEq α]

/-- The links when `y` is put between `before` and `after`. -/
def insertLink (next : α → Option α) (before after : Option α) (y : α) : α → Option α :=
  fun x => if x = y then after else if before = some x then some y else next x

/-- The links when `y` is taken out between `before` and `after`. -/
def removeLink (next : α → Option α) (before after : Option α) (y : α) : α → Option α :=
  fun x => if x = y then none else if before = some x then after else next x

@[simp] theorem insertLink_self : insertLink next before after y y = after := if_pos rfl

@[simp] theorem removeLink_self : removeLink next before after y y = none := if_pos rfl

theorem insertLink_of_ne (hx : x ≠ y) (hb : before ≠ some x) :
    insertLink next before after y x = next x := by
  rw [insertLink,if_neg hx,if_neg hb]

theorem removeLink_of_ne (hx : x ≠ y) (hb : before ≠ some x) :
    removeLink next before after y x = next x := by
  rw [removeLink,if_neg hx,if_neg hb]

theorem insertLink_none : insertLink next none after y = Function.update next y after := by
  funext x
  simp [insertLink,Function.update_apply]

theorem insertLink_some : insertLink next (some x) after y =
    Function.update (Function.update next x (some y)) y after := by
  funext z
  simp [insertLink,Function.update_apply,eq_comm (a := x)]

/-- The same stores the other way round. -/
theorem insertLink_comm (hx : x ≠ y) : insertLink next (some x) after y =
    Function.update (Function.update next y after) x (some y) := by
  rw [insertLink_some,Function.update_comm hx]

/-- A link that is clear already need not be stored. -/
theorem insertLink_clear (hx : x ≠ y) (hy : next y = none) :
    insertLink next (some x) none y = Function.update next x (some y) := by
  rw [insertLink_some,Function.update_eq_self_iff,Function.update_of_ne hx.symm,hy]

theorem insertLink_alone (hy : next y = none) : insertLink next none none y = next := by
  rw [insertLink_none,Function.update_eq_self_iff,hy]

theorem removeLink_none : removeLink next none after y = Function.update next y none := by
  funext x
  simp [removeLink,Function.update_apply]

theorem removeLink_some : removeLink next (some x) after y =
    Function.update (Function.update next x after) y none := by
  funext z
  simp [removeLink,Function.update_apply,eq_comm (a := x)]

/-- Taking out what has been put in restores all links. -/
theorem removeLink_insertLink (hy : next y = none) (hb : ∀ x ∈ before, next x = after) :
    removeLink (insertLink next before after y) before after y = next := by
  funext x
  by_cases hx : x = y
  · subst hx
    rw [removeLink_self,hy]
  · by_cases hbx : before = some x
    · rw [removeLink,if_neg hx,if_pos hbx,hb x hbx]
    · rw [removeLink_of_ne hx hbx,insertLink_of_ne hx hbx]

theorem Chained.insert (h : Chained next (l₁ ++ l₂) none) (hl : (l₁ ++ l₂).Nodup)
    (hy : y ∉ l₁ ++ l₂) :
    Chained (insertLink next l₁.getLast? l₂.head? y) (l₁ ++ y :: l₂) none := by
  obtain ⟨hfront,hback⟩ := chained_append.mp h
  obtain ⟨hl₁,-,hdisj⟩ := List.nodup_append.mp hl
  rw [List.mem_append,not_or] at hy
  have hne : ∀ x, x ∈ l₁ ∨ x ∈ l₂ → x ≠ y := by
    rintro x (hx | hx) rfl
    · exact hy.1 hx
    · exact hy.2 hx
  refine chained_append.mpr ⟨hfront.retarget hl₁ ?_ ?_,?_,hback.congr ?_⟩
  · intro x hx
    rw [insertLink,if_neg (hne x (Or.inl (List.mem_of_getLast? hx))),if_pos hx]
    rfl
  · intro x hx hlast
    exact insertLink_of_ne (hne x (Or.inl hx)) hlast
  · rw [insertLink_self,Option.or_none]
  · intro x hx
    refine insertLink_of_ne (hne x (Or.inr hx)) fun hlast => ?_
    exact hdisj x (List.mem_of_getLast? hlast) x hx rfl

theorem Chained.remove (h : Chained next (l₁ ++ y :: l₂) none) (hl : (l₁ ++ y :: l₂).Nodup) :
    Chained (removeLink next l₁.getLast? l₂.head? y) (l₁ ++ l₂) none := by
  obtain ⟨hfront,-,hback⟩ := chained_append.mp h
  obtain ⟨hl₁,hl₂,hdisj⟩ := List.nodup_append.mp hl
  have hy₁ : ∀ x ∈ l₁, x ≠ y := fun x hx => hdisj x hx y List.mem_cons_self
  have hy₂ : ∀ x ∈ l₂, x ≠ y := by
    rintro x hx rfl
    exact (List.nodup_cons.mp hl₂).1 hx
  refine chained_append.mpr ⟨hfront.retarget hl₁ ?_ ?_,hback.congr ?_⟩
  · intro x hx
    rw [removeLink,if_neg (hy₁ x (List.mem_of_getLast? hx)),if_pos hx,Option.or_none]
  · intro x hx hlast
    exact removeLink_of_ne (hy₁ x hx) hlast
  · intro x hx
    refine removeLink_of_ne (hy₂ x hx) fun hlast => ?_
    exact hdisj x (List.mem_of_getLast? hlast) x (List.mem_cons_of_mem y hx) rfl

namespace Linked

theorem insert (h : Linked prev next (l₁ ++ l₂)) (hy : y ∉ l₁ ++ l₂) :
    Linked (insertLink prev l₂.head? l₁.getLast? y) (insertLink next l₁.getLast? l₂.head? y)
      (l₁ ++ y :: l₂) := by
  refine ⟨?_,h.forward.insert h.nodup hy,?_⟩
  · exact List.nodup_middle.mpr (List.nodup_cons.mpr ⟨hy,h.nodup⟩)
  · have hback := h.backward
    have hnodup := List.nodup_reverse.mpr h.nodup
    rw [← List.mem_reverse] at hy
    rw [List.reverse_append] at hback hnodup hy
    have hnew := hback.insert hnodup hy
    rw [List.getLast?_reverse,List.head?_reverse] at hnew
    rwa [List.reverse_append,List.reverse_cons,List.append_assoc,List.singleton_append]

theorem remove (h : Linked prev next (l₁ ++ y :: l₂)) :
    Linked (removeLink prev l₂.head? l₁.getLast? y) (removeLink next l₁.getLast? l₂.head? y)
      (l₁ ++ l₂) := by
  refine ⟨?_,h.forward.remove h.nodup,?_⟩
  · exact (List.nodup_cons.mp (List.nodup_middle.mp h.nodup)).2
  · have hback := h.backward
    have hnodup := List.nodup_reverse.mpr h.nodup
    rw [List.reverse_append,List.reverse_cons,List.append_assoc,List.singleton_append]
      at hback hnodup
    have hnew := hback.remove hnodup
    rw [List.getLast?_reverse,List.head?_reverse] at hnew
    rwa [List.reverse_append]

end Linked

end Links
