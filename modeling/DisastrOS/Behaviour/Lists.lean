import DisastrOS.Kernel.ListHeap

/-! # The sequences that the heads hold

The insertion and the detach of the list code are those of sequences, on the list that they are
given, and leave every other list alone.
-/
namespace DisastrOS
open Links

namespace ListHeap

variable {ι : Type}

/-- The heads hold these sequences: the links of the items agree with them, no item is on two
of them, and each head counts its items, as far as an `int` does. -/
structure Holds (h : ListHeap ι) (contents : ι → List ℕ) : Prop where
  linked : ∀ j, Linked h.prev h.next (contents j)
  first : ∀ j, h.first j = (contents j).head?
  last : ∀ j, h.last j = (contents j).getLast?
  size : ∀ j, h.size j = wrapInt (contents j).length
  disjoint : ∀ i j, i ≠ j → ∀ x ∈ contents i, x ∉ contents j

/-- The item is on no list and has no links. -/
structure Unlinked (h : ListHeap ι) (contents : ι → List ℕ) (item : ℕ) : Prop where
  prev : h.prev item = none
  next : h.next item = none
  absent : ∀ j, item ∉ contents j

/-- Apart from one head and these items, nothing is changed. -/
structure SameBeside (h h' : ListHeap ι) (head : ι) (items : List ℕ) : Prop where
  prev : ∀ x, x ∉ items → h'.prev x = h.prev x
  next : ∀ x, x ∉ items → h'.next x = h.next x
  first : ∀ j, j ≠ head → h'.first j = h.first j
  last : ∀ j, j ≠ head → h'.last j = h.last j
  size : ∀ j, j ≠ head → h'.size j = h.size j

/-- A heap of empty lists and of items without links. -/
def empty : ListHeap ι := ⟨fun _ => none,fun _ => none,fun _ => none,fun _ => none,fun _ => 0⟩

theorem holds_empty : (empty : ListHeap ι).Holds (fun _ => []) :=
  ⟨fun _ => Linked.nil,fun _ => rfl,fun _ => rfl,fun _ => rfl,fun _ _ _ _ hx => nomatch hx⟩

variable {h : ListHeap ι} {contents : ι → List ℕ} {head j : ι} {prev : Option ℕ}
variable {item x : ℕ} {l l₁ l₂ : List ℕ}

/-- The list is cut behind `prev`, or in front. -/
theorem exists_split (hprev : ∀ p ∈ prev, p ∈ l) : ∃ l₁ l₂, l = l₁ ++ l₂ ∧ l₁.getLast? = prev := by
  cases prev with
  | none => exact ⟨[],l,rfl,rfl⟩
  | some p =>
    obtain ⟨s,t,rfl⟩ := List.append_of_mem (hprev p rfl)
    exact ⟨s ++ [p],t,by simp,by simp⟩

theorem wrapInt_wrapInt_add (n m : ℤ) : wrapInt (wrapInt n + m) = wrapInt (n + m) :=
  Int.bmod_add_bmod

namespace Holds

/-- What is behind the insertion point. -/
theorem following_eq (hh : h.Holds contents) (hl : contents head = l₁ ++ l₂) :
    h.following head l₁.getLast? = l₂.head? := by
  cases hlast : l₁.getLast? with
  | none =>
    rw [List.getLast?_eq_none_iff] at hlast
    subst hlast
    exact (hh.first head).trans (congrArg List.head? hl)
  | some p =>
    obtain ⟨s,rfl⟩ : ∃ s, l₁ = s ++ [p] := by
      obtain ⟨s,hs⟩ := List.getLast?_eq_some_iff.mp hlast
      exact ⟨s,hs⟩
    have hlinked := hh.linked head
    rw [hl,List.append_assoc,List.singleton_append] at hlinked
    exact hlinked.next_eq

/-- The links of an item that is on no list may be cleared, as is done in a new block. -/
theorem clear (hh : h.Holds contents) (hitem : ∀ j, item ∉ contents j) :
    ((h.setPrev item none).setNext item none).Holds contents := by
  have hsame : ∀ j, ∀ x ∈ contents j, x ≠ item := by
    rintro j x hx rfl
    exact hitem j hx
  refine ⟨fun j => (hh.linked j).congr ?_ ?_,hh.first,hh.last,hh.size,hh.disjoint⟩
  · exact fun x hx => Function.update_of_ne (hsame j x hx) _ _
  · exact fun x hx => Function.update_of_ne (hsame j x hx) _ _

theorem unlinked_clear (hitem : ∀ j, item ∉ contents j) :
    ((h.setPrev item none).setNext item none).Unlinked contents item :=
  ⟨Function.update_self _ _ _,Function.update_self _ _ _,hitem⟩

/-- A change of one list that leaves the others as they are. -/
theorem update [DecidableEq ι] {h' : ListHeap ι} {items : List ℕ} (hh : h.Holds contents)
    (hsame : h.SameBeside h' head items)
    (hbeside : ∀ j, j ≠ head → ∀ x ∈ contents j, x ∉ items) (hl : ∀ x ∈ l, x ∈ items)
    (hlinked : Linked h'.prev h'.next l) (hfirst : h'.first head = l.head?)
    (hlast : h'.last head = l.getLast?) (hsize : h'.size head = wrapInt l.length) :
    h'.Holds (Function.update contents head l) := by
  constructor
  · intro j
    by_cases hj : j = head
    · subst hj
      rwa [Function.update_self]
    · rw [Function.update_of_ne hj]
      exact (hh.linked j).congr (fun x hx => hsame.next x (hbeside j hj x hx))
        (fun x hx => hsame.prev x (hbeside j hj x hx))
  · intro j
    by_cases hj : j = head
    · subst hj
      rwa [Function.update_self]
    · rw [Function.update_of_ne hj,hsame.first j hj,hh.first]
  · intro j
    by_cases hj : j = head
    · subst hj
      rwa [Function.update_self]
    · rw [Function.update_of_ne hj,hsame.last j hj,hh.last]
  · intro j
    by_cases hj : j = head
    · subst hj
      rwa [Function.update_self]
    · rw [Function.update_of_ne hj,hsame.size j hj,hh.size]
  · intro i j hij x hi hj
    by_cases hihead : i = head
    · subst hihead
      rw [Function.update_self] at hi
      rw [Function.update_of_ne hij.symm] at hj
      exact hbeside j hij.symm x hj (hl x hi)
    · rw [Function.update_of_ne hihead] at hi
      by_cases hjhead : j = head
      · subst hjhead
        rw [Function.update_self] at hj
        exact hbeside i hihead x hi (hl x hj)
      · rw [Function.update_of_ne hjhead] at hj
        exact hh.disjoint i j hij x hi hj

variable [DecidableEq ι]

theorem sameBeside_inserted (hl : contents head = l₁ ++ l₂) :
    h.SameBeside (h.inserted head l₁.getLast? l₂.head? item) head (item :: contents head) := by
  have hmem : ∀ x, x ∉ item :: contents head → x ≠ item ∧ x ∉ l₁ ∧ x ∉ l₂ := by
    intro x hx
    simpa [hl] using hx
  constructor
  · intro x hx
    obtain ⟨hne,_,h₂⟩ := hmem x hx
    exact insertLink_of_ne hne fun hhead => h₂ (List.mem_of_head? hhead)
  · intro x hx
    obtain ⟨hne,h₁,_⟩ := hmem x hx
    exact insertLink_of_ne hne fun hlast => h₁ (List.mem_of_getLast? hlast)
  · exact fun j hj => Function.update_of_ne hj _ _
  · exact fun j hj => Function.update_of_ne hj _ _
  · exact fun j hj => Function.update_of_ne hj _ _

theorem sameBeside_detached (hl : contents head = l₁ ++ item :: l₂) :
    h.SameBeside (h.detached head l₁.getLast? l₂.head? item) head (contents head) := by
  have hmem : ∀ x, x ∉ contents head → x ≠ item ∧ x ∉ l₁ ∧ x ∉ l₂ := by
    intro x hx
    simp only [hl,List.mem_append,List.mem_cons,not_or] at hx
    exact ⟨hx.2.1,hx.1,hx.2.2⟩
  constructor
  · intro x hx
    obtain ⟨hne,_,h₂⟩ := hmem x hx
    exact removeLink_of_ne hne fun hhead => h₂ (List.mem_of_head? hhead)
  · intro x hx
    obtain ⟨hne,h₁,_⟩ := hmem x hx
    exact removeLink_of_ne hne fun hlast => h₁ (List.mem_of_getLast? hlast)
  · exact fun j hj => Function.update_of_ne hj _ _
  · exact fun j hj => Function.update_of_ne hj _ _
  · exact fun j hj => Function.update_of_ne hj _ _

/-- An initialised head holds nothing. -/
theorem listInit (hh : h.Holds contents) (head : ι) :
    (h.listInit head).Holds (Function.update contents head []) := by
  have hsame : h.SameBeside (h.listInit head) head [] :=
    ⟨fun _ _ => rfl,fun _ _ => rfl,fun _ hj => Function.update_of_ne hj _ _,
      fun _ hj => Function.update_of_ne hj _ _,fun _ hj => Function.update_of_ne hj _ _⟩
  exact hh.update hsame (fun _ _ _ _ => List.not_mem_nil) nofun Linked.nil
    (Function.update_self _ _ _) (Function.update_self _ _ _) (Function.update_self _ _ _)

/-- The item goes where the list is cut. -/
theorem inserted (hh : h.Holds contents) (hl : contents head = l₁ ++ l₂)
    (hitem : ∀ j, item ∉ contents j) :
    (h.inserted head l₁.getLast? l₂.head? item).Holds
      (Function.update contents head (l₁ ++ item :: l₂)) := by
  have hlinked := hh.linked head
  have hnot := hitem head
  rw [hl] at hlinked hnot
  refine hh.update (sameBeside_inserted hl) ?_ ?_ (hlinked.insert hnot) ?_ ?_ ?_
  · intro j hj x hx hmem
    rcases List.mem_cons.mp hmem with rfl | hmem
    · exact hitem j hx
    · exact hh.disjoint j head hj x hx hmem
  · intro x hx
    simpa [hl,or_left_comm] using hx
  · refine (Function.update_self _ _ _).trans ?_
    cases l₁ with
    | nil => rfl
    | cons x l₁ => simp [hh.first head,hl]
  · refine (Function.update_self _ _ _).trans ?_
    cases l₂ with
    | nil => simp
    | cons y l₂ => simp [hh.last head,hl]
  · refine (Function.update_self _ _ _).trans ?_
    rw [hh.size,wrapInt_wrapInt_add,hl]
    simp [Int.add_assoc]

/-- The item leaves the list, and what is around it closes up. -/
theorem detached (hh : h.Holds contents) (hl : contents head = l₁ ++ item :: l₂) :
    (h.detached head l₁.getLast? l₂.head? item).Holds
      (Function.update contents head (l₁ ++ l₂)) := by
  have hlinked := hh.linked head
  rw [hl] at hlinked
  have hitem : (∀ x ∈ l₁.head?, x ≠ item) ∧ ∀ x ∈ l₂.getLast?, x ≠ item := by
    have hnot := (List.nodup_cons.mp (List.nodup_middle.mp hlinked.nodup)).1
    rw [List.mem_append,not_or] at hnot
    constructor
    · rintro x hx rfl
      exact hnot.1 (List.mem_of_head? hx)
    · rintro x hx rfl
      exact hnot.2 (List.mem_of_getLast? hx)
  refine hh.update (sameBeside_detached hl) (fun j hj => hh.disjoint j head hj) ?_
    hlinked.remove ?_ ?_ ?_
  · intro x hx
    rw [hl]
    simp only [List.mem_append,List.mem_cons] at hx ⊢
    exact hx.imp_right Or.inr
  · refine (Function.update_self _ _ _).trans ?_
    rw [hh.first head,hl]
    cases l₁ with
    | nil => simp
    | cons x l₁ =>
      have hx : x ≠ item := hitem.1 x rfl
      simp [hx]
  · refine (Function.update_self _ _ _).trans ?_
    rw [hh.last head,hl]
    cases hlast : l₂.getLast? with
    | none => simp [List.getLast?_eq_none_iff.mp hlast]
    | some y =>
      have hy : y ≠ item := hitem.2 y hlast
      simp [List.getLast?_cons,hlast,hy]
  · refine (Function.update_self _ _ _).trans ?_
    rw [hh.size,Int.sub_eq_add_neg,wrapInt_wrapInt_add,hl,List.length_append,List.length_append,
      List.length_cons]
    congr 1
    omega

/-- Taking out the item that has been put in gives the heap from before. -/
theorem detached_inserted (hh : h.Holds contents) (hl : contents head = l₁ ++ l₂)
    (hu : h.Unlinked contents item) :
    (h.inserted head l₁.getLast? l₂.head? item).detached head l₁.getLast? l₂.head? item = h := by
  have hlinked := hh.linked head
  have hnot := hu.absent head
  rw [hl] at hlinked hnot
  have hafter : ∀ x ∈ l₁.getLast?, h.next x = l₂.head? := by
    intro x hx
    obtain ⟨s,rfl⟩ := List.getLast?_eq_some_iff.mp hx
    rw [List.append_assoc,List.singleton_append] at hlinked
    exact hlinked.next_eq
  have hbefore : ∀ x ∈ l₂.head?, h.prev x = l₁.getLast? := by
    intro x hx
    obtain ⟨t,rfl⟩ := List.head?_eq_some_iff.mp hx
    exact hlinked.prev_eq
  apply ListHeap.ext
  · exact removeLink_insertLink hu.prev hbefore
  · exact removeLink_insertLink hu.next hafter
  · refine (Function.update_idem _ _ _).trans (Function.update_eq_self_iff.mpr ?_)
    simp only [ListHeap.inserted,Function.update_self]
    rw [hh.first head,hl]
    cases l₁ with
    | nil => simp
    | cons x l₁ =>
      have hx : x ≠ item := fun heq => hnot (heq ▸ List.mem_cons_self)
      simp [hx]
  · refine (Function.update_idem _ _ _).trans (Function.update_eq_self_iff.mpr ?_)
    simp only [ListHeap.inserted,Function.update_self]
    rw [hh.last head,hl]
    cases l₂ with
    | nil => simp
    | cons y l₂ =>
      have hlast : (l₁ ++ y :: l₂).getLast? ≠ some item :=
        fun heq => hnot (List.mem_of_getLast? heq)
      have hhead : (y :: l₂).head? ≠ none := nofun
      rw [if_neg hhead,if_neg hlast]
  · refine (Function.update_idem _ _ _).trans (Function.update_eq_self_iff.mpr ?_)
    simp only [ListHeap.inserted,Function.update_self]
    rw [hh.size,wrapInt_wrapInt_add,Int.sub_eq_add_neg,wrapInt_wrapInt_add,Int.add_neg_cancel_right]

end Holds

end ListHeap

end DisastrOS
