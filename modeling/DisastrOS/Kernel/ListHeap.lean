import DisastrOS.Foundation.Links
import DisastrOS.Kernel.Constants
import DisastrOS.Kernel.LinkedList

/-! # Linked lists in memory

An item has two links and nothing that tells on which list it is; a head has the first and the
last item and their number. The lists of the kernel are the sequences that the heads of such a
heap hold.
-/
namespace DisastrOS
open Links

/-- The links of the items and the heads of the lists. -/
@[ext] structure ListHeap (ι : Type) where
  prev : ℕ → Option ℕ
  next : ℕ → Option ℕ
  first : ι → Option ℕ
  last : ι → Option ℕ
  size : ι → ℤ

namespace ListHeap

variable {ι : Type} [DecidableEq ι]

def setPrev (h : ListHeap ι) (x : ℕ) (p : Option ℕ) : ListHeap ι :=
  { h with prev := Function.update h.prev x p }

def setNext (h : ListHeap ι) (x : ℕ) (n : Option ℕ) : ListHeap ι :=
  { h with next := Function.update h.next x n }

def setFirst (h : ListHeap ι) (head : ι) (x : Option ℕ) : ListHeap ι :=
  { h with first := Function.update h.first head x }

def setLast (h : ListHeap ι) (head : ι) (x : Option ℕ) : ListHeap ι :=
  { h with last := Function.update h.last head x }

def setSize (h : ListHeap ι) (head : ι) (n : ℤ) : ListHeap ι :=
  { h with size := Function.update h.size head n }

/-- `List_init`. -/
def listInit (h : ListHeap ι) (head : ι) : ListHeap ι :=
  ((h.setFirst head none).setLast head none).setSize head 0

/-- The item behind `prev`, or the first one. -/
def following (h : ListHeap ι) (head : ι) : Option ℕ → Option ℕ
  | some p => h.next p
  | none => h.first head

/-- `List_insert(head, prev, item)`; an item with a link is refused. -/
def listInsert (h : ListHeap ι) (head : ι) (prev : Option ℕ) (item : ℕ) :
    Option ℕ × ListHeap ι :=
  if (h.next item).isSome ∨ (h.prev item).isSome then (none,h)
  else
    let next := h.following head prev
    let h := match prev with
      | some p => (h.setPrev item prev).setNext p item
      | none => h
    let h := match next with
      | some n => (h.setNext item next).setPrev n item
      | none => h
    let h := if prev = none then h.setFirst head item else h
    let h := if next = none then h.setLast head item else h
    (some item,h.setSize head (wrapInt (h.size head + 1)))

/-- `List_detach(head, item)`, which does not look whether the item is on the list. -/
def listDetach (h : ListHeap ι) (head : ι) : Option ℕ → Except Fault (ℕ × ListHeap ι)
  | none => .error .detachNull
  | some item =>
    let prev := h.prev item
    let next := h.next item
    let h := match prev with
      | some p => h.setNext p next
      | none => h
    let h := match next with
      | some n => h.setPrev n prev
      | none => h
    let h := if h.first head = some item then h.setFirst head next else h
    let h := if h.last head = some item then h.setLast head prev else h
    let h := h.setSize head (wrapInt (h.size head - 1))
    .ok (item,(h.setNext item none).setPrev item none)

/-- The heap in which `item` is between `prev` and `next` on the list. -/
def inserted (h : ListHeap ι) (head : ι) (prev next : Option ℕ) (item : ℕ) : ListHeap ι where
  prev := insertLink h.prev next prev item
  next := insertLink h.next prev next item
  first := Function.update h.first head (if prev = none then some item else h.first head)
  last := Function.update h.last head (if next = none then some item else h.last head)
  size := Function.update h.size head (wrapInt (h.size head + 1))

/-- The heap in which `item` is no longer between `prev` and `next` on the list. -/
def detached (h : ListHeap ι) (head : ι) (prev next : Option ℕ) (item : ℕ) : ListHeap ι where
  prev := removeLink h.prev next prev item
  next := removeLink h.next prev next item
  first := Function.update h.first head (if h.first head = some item then next else h.first head)
  last := Function.update h.last head (if h.last head = some item then prev else h.last head)
  size := Function.update h.size head (wrapInt (h.size head - 1))

variable {h : ListHeap ι} {head : ι} {prev : Option ℕ} {item : ℕ}

theorem listInsert_refused (hlink : h.next item ≠ none ∨ h.prev item ≠ none) :
    h.listInsert head prev item = (none,h) := by
  unfold listInsert
  rw [if_pos]
  simpa [Option.isSome_iff_ne_none] using hlink

/-- The stores of an insertion between two other items. -/
theorem listInsert_eq (hnext : h.next item = none) (hprev : h.prev item = none)
    (hbefore : prev ≠ some item) (hafter : h.following head prev ≠ some item) :
    h.listInsert head prev item =
      (some item,h.inserted head prev (h.following head prev) item) := by
  have hguard : ¬ ((h.next item).isSome ∨ (h.prev item).isSome) := by simp [hnext,hprev]
  unfold listInsert inserted
  rw [if_neg hguard]
  generalize h.following head prev = next at hafter ⊢
  cases prev with
  | none =>
    cases next with
    | none =>
      rw [insertLink_alone hprev,insertLink_alone hnext]
      rfl
    | some n =>
      have hn : n ≠ item := fun heq => hafter (congrArg some heq)
      rw [insertLink_none,insertLink_clear hn hprev]
      simp only [setFirst,setPrev,setNext,setSize,if_true,reduceCtorEq,if_false,
        Function.update_eq_self]
  | some p =>
    have hp : p ≠ item := fun heq => hbefore (congrArg some heq)
    cases next with
    | none =>
      rw [insertLink_none,insertLink_clear hp hnext]
      simp only [setLast,setPrev,setNext,setSize,if_true,reduceCtorEq,if_false,
        Function.update_eq_self]
    | some n =>
      have hn : n ≠ item := fun heq => hafter (congrArg some heq)
      rw [insertLink_comm hn,insertLink_some]
      simp only [setPrev,setNext,setSize,reduceCtorEq,if_false,Function.update_eq_self]

theorem setFirst_ite (h : ListHeap ι) (c : Prop) [Decidable c] :
    (if c then h.setFirst head prev else h) = h.setFirst head (if c then prev else h.first head) := by
  split
  · rfl
  · rw [setFirst,Function.update_eq_self]

theorem setLast_ite (h : ListHeap ι) (c : Prop) [Decidable c] :
    (if c then h.setLast head prev else h) = h.setLast head (if c then prev else h.last head) := by
  split
  · rfl
  · rw [setLast,Function.update_eq_self]

/-- The stores of a detach. -/
theorem listDetach_eq (h : ListHeap ι) (head : ι) (item : ℕ) :
    h.listDetach head (some item) =
      .ok (item,h.detached head (h.prev item) (h.next item) item) := by
  unfold listDetach detached
  simp only [setFirst_ite,setLast_ite]
  generalize h.prev item = prev
  generalize h.next item = next
  cases prev with
  | none =>
    cases next with
    | none =>
      rw [removeLink_none,removeLink_none]
      rfl
    | some n =>
      rw [removeLink_none,removeLink_some]
      rfl
  | some p =>
    cases next with
    | none =>
      rw [removeLink_none,removeLink_some]
      rfl
    | some n =>
      rw [removeLink_some,removeLink_some]
      rfl

end ListHeap

end DisastrOS
