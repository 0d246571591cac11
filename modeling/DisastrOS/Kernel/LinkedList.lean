import Mathlib.Data.List.Nodup
import Mathlib.Data.List.Perm.Basic
import Mathlib.Logic.Function.Basic
import DisastrOS.Kernel.Constants

/-! # The kernel's lists and its ways to fail

A doubly linked list is represented by the sequence of its items, each item being
the index of its block. `List_detach` dereferences its argument, so a null item
is a fault; an item that is not on the list is outside the contract of the list
code, and is a fault here as well.
-/
namespace DisastrOS

/-- Why a step of the kernel has no next state. -/
inductive Fault
  | nullRunning      -- `running` is null where it is dereferenced
  | detachNull       -- `List_detach` is given a null item
  | detachNonMember  -- `List_detach` is given an item of another list, or of none
  | nullPointer      -- another null pointer is dereferenced
  | overrun          -- `strcpy` leaves the message block
  | outOfBounds      -- a system table is read past its end
  | badContext       -- `setcontext` on a context that was never set up
  | assertion        -- an `assert` fails
  | diverges         -- a loop of the handler does not end
  | disabled         -- the processor cannot take this action now
  deriving DecidableEq, Repr

/-- The faults of a detach from the wrong place and of a null `running`. -/
def Fault.ofSwitch : Fault → Bool
  | nullRunning | detachNull | detachNonMember => true
  | _ => false

/-- The faults that only a handler has. -/
def Fault.ofHandler : Fault → Bool
  | detachNull | detachNonMember | overrun | diverges => true
  | _ => false

@[simp] theorem ok_bind {α β : Type} (x : α) (f : α → Except Fault β) :
    ((Except.ok x : Except Fault α) >>= f) = f x := rfl
@[simp] theorem error_bind {α β : Type} (e : Fault) (f : α → Except Fault β) :
    ((Except.error e : Except Fault α) >>= f) = .error e := rfl

theorem exists_of_bind_eq_ok {α β : Type} {x : Except Fault α} {f : α → Except Fault β} {b : β}
    (h : x >>= f = .ok b) : ∃ a, x = .ok a ∧ f a = .ok b := by
  cases x with
  | error e => cases h
  | ok a => exact ⟨a,rfl,h⟩

def insertAfter (prev item : ℕ) : List ℕ → List ℕ
  | [] => []
  | x :: l => if x = prev then x :: item :: l else x :: insertAfter prev item l

/-- `List_insert(head, prev, item)`; a null `prev` puts the item in front. -/
def listInsert (l : List ℕ) (prev : Option ℕ) (item : ℕ) : List ℕ :=
  match prev with
  | none => item :: l
  | some p => insertAfter p item l

/-- `List_insert(head, head->last, item)`. -/
def listAppend (l : List ℕ) (item : ℕ) : List ℕ := l ++ [item]

/-- `List_detach(head, item)`: the item and what remains. -/
def listDetach (l : List ℕ) : Option ℕ → Except Fault (ℕ × List ℕ)
  | none => .error .detachNull
  | some x => if x ∈ l then .ok (x,l.erase x) else .error .detachNonMember

@[simp] theorem mem_listAppend {l : List ℕ} {x y : ℕ} :
    y ∈ listAppend l x ↔ y ∈ l ∨ y = x := by
  simp [listAppend]

theorem nodup_listAppend {l : List ℕ} {x : ℕ} (h : l.Nodup) (hx : x ∉ l) :
    (listAppend l x).Nodup := by
  refine List.nodup_append.mpr ⟨h,List.nodup_singleton x,?_⟩
  intro a ha b hb hab
  rw [List.mem_singleton] at hb
  subst hb
  exact hx (hab ▸ ha)

/-- A field changed at an item off the list is unchanged on the list. -/
theorem update_of_not_mem {β : Type} {l : List ℕ} {x y : ℕ} (hx : x ∉ l) (hy : y ∈ l)
    (f : ℕ → β) (v : β) : Function.update f x v y = f y := by
  have hne : y ≠ x := by
    rintro rfl
    exact hx hy
  exact Function.update_of_ne hne v f

section Indexed
variable {lists : ℕ → List ℕ} {p q x y : ℕ}

/-! One list of a family is changed. -/

theorem mem_update_listAppend : y ∈ Function.update lists p (listAppend (lists p) x) q ↔
    y ∈ lists q ∨ q = p ∧ y = x := by
  by_cases hqp : q = p
  · subst hqp
    simp
  · simp [hqp]

theorem nodup_update_listAppend (hq : (lists q).Nodup) (hx : q = p → x ∉ lists q) :
    (Function.update lists p (listAppend (lists p) x) q).Nodup := by
  by_cases hqp : q = p
  · subst hqp
    rw [Function.update_self]
    exact nodup_listAppend hq (hx rfl)
  · rwa [Function.update_of_ne hqp]

theorem mem_update_erase (hp : (lists p).Nodup) :
    y ∈ Function.update lists p ((lists p).erase x) q ↔ y ∈ lists q ∧ (q = p → y ≠ x) := by
  by_cases hqp : q = p
  · subst hqp
    rw [Function.update_self,hp.mem_erase_iff]
    simp [and_comm]
  · simp [hqp]

theorem nodup_update_erase (hq : (lists q).Nodup) :
    (Function.update lists p ((lists p).erase x) q).Nodup := by
  by_cases hqp : q = p
  · subst hqp
    rw [Function.update_self]
    exact hq.erase x
  · rwa [Function.update_of_ne hqp]

theorem mem_update_nil : y ∈ Function.update lists p [] q ↔ y ∈ lists q ∧ q ≠ p := by
  by_cases hqp : q = p
  · subst hqp
    simp
  · simp [hqp]

end Indexed

theorem insertAfter_perm {prev : ℕ} {l : List ℕ} (h : prev ∈ l) (item : ℕ) :
    (insertAfter prev item l).Perm (item :: l) := by
  induction l with
  | nil => simp at h
  | cons x l ih =>
    unfold insertAfter
    by_cases hx : x = prev
    · rw [if_pos hx]
      exact List.Perm.swap item x l
    · rw [if_neg hx]
      have hmem : prev ∈ l := (List.mem_cons.mp h).resolve_left (Ne.symm hx)
      exact ((ih hmem).cons x).trans (List.Perm.swap item x l)

/-- Inserting after a member, or in front, adds exactly the item. -/
theorem listInsert_perm {l : List ℕ} {prev : Option ℕ} (h : ∀ p, prev = some p → p ∈ l)
    (item : ℕ) : (listInsert l prev item).Perm (item :: l) := by
  cases prev with
  | none => exact List.Perm.refl _
  | some p => exact insertAfter_perm (h p rfl) item

/-- The item goes behind the part of the list that ends in the insertion point. -/
theorem listInsert_append {l₁ : List ℕ} (h : l₁.Nodup) (l₂ : List ℕ) (item : ℕ) :
    listInsert (l₁ ++ l₂) l₁.getLast? item = l₁ ++ item :: l₂ := by
  induction l₁ with
  | nil => rfl
  | cons x l₁ ih =>
    obtain ⟨hx,hl⟩ := List.nodup_cons.mp h
    cases l₁ with
    | nil => simp [listInsert,insertAfter]
    | cons y l₁ =>
      have hlast : (x :: y :: l₁).getLast? = (y :: l₁).getLast? := List.getLast?_cons_cons
      have hi := ih hl
      rw [hlast]
      obtain ⟨z,hz⟩ : ∃ z, (y :: l₁).getLast? = some z :=
        ⟨_,List.getLast?_eq_getLast_of_ne_nil (by simp)⟩
      have hxz : x ≠ z := by
        rintro rfl
        exact hx (List.mem_of_getLast? hz)
      rw [hz] at hi ⊢
      simp only [listInsert] at hi ⊢
      rw [List.cons_append,insertAfter,if_neg hxz,hi]
      rfl

/-- The insertion point is the last item of the part in front that has a property. -/
theorem listInsert_takeWhile {l : List ℕ} (h : l.Nodup) (p : ℕ → Bool) (item : ℕ) :
    listInsert l (l.takeWhile p).getLast? item = l.takeWhile p ++ item :: l.dropWhile p := by
  have hinsert := listInsert_append (h.sublist (List.takeWhile_sublist p)) (l.dropWhile p) item
  rwa [List.takeWhile_append_dropWhile] at hinsert

/-- The insertion point handed over as `head->last` is the end of the list. -/
theorem listInsert_getLast {l : List ℕ} (h : l.Nodup) (item : ℕ) :
    listInsert l l.getLast? item = listAppend l item := by
  have happ := listInsert_append h [] item
  rwa [List.append_nil] at happ

@[simp] theorem listDetach_none (l : List ℕ) : listDetach l none = .error .detachNull := rfl

theorem listDetach_mem {l : List ℕ} {x : ℕ} (h : x ∈ l) :
    listDetach l (some x) = .ok (x,l.erase x) := if_pos h

@[simp] theorem listDetach_cons (x : ℕ) (l : List ℕ) :
    listDetach (x :: l) (some x) = .ok (x,l) := by
  rw [listDetach_mem List.mem_cons_self,List.erase_cons_head]

end DisastrOS
