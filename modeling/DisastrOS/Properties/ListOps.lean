import DisastrOS.Behaviour.Lists

/-! # Insertion and detach

In a heap of well-formed lists the two operations on links do what the operations on sequences
do, and the second one takes back the first one.
-/
namespace DisastrOS

namespace ListHeap

variable {ι : Type} [DecidableEq ι] {h : ListHeap ι} {contents : ι → List ℕ}
variable {prev : Option ℕ} {item : ℕ}

/-- The insertion puts the item behind `prev`, or in front, and can be taken back. -/
structure Inserts (h : ListHeap ι) (contents : ι → List ℕ) (head : ι) (prev : Option ℕ)
    (item : ℕ) (h' : ListHeap ι) : Prop where
  result : h.listInsert head prev item = (some item,h')
  holds : h'.Holds
    (Function.update contents head (DisastrOS.listInsert (contents head) prev item))
  beside : h.SameBeside h' head (item :: contents head)
  undone : h'.listDetach head (some item) = .ok (item,h)

/-- The detach takes the item out of the sequence and clears its links. -/
structure Detaches (h : ListHeap ι) (contents : ι → List ℕ) (head : ι) (item : ℕ)
    (h' : ListHeap ι) : Prop where
  result : h.listDetach head (some item) = .ok (item,h')
  holds : h'.Holds (Function.update contents head ((contents head).erase item))
  unlinked : h'.Unlinked (Function.update contents head ((contents head).erase item)) item
  beside : h.SameBeside h' head (contents head)

theorem Holds.inserts (hh : h.Holds contents) (head : ι) (hprev : ∀ p ∈ prev, p ∈ contents head)
    (hu : h.Unlinked contents item) : ∃ h', Inserts h contents head prev item h' := by
  obtain ⟨l₁,l₂,hl,rfl⟩ := exists_split hprev
  have hfollowing := hh.following_eq hl
  have hbefore : l₁.getLast? ≠ some item := by
    intro hlast
    exact hu.absent head (hl ▸ List.mem_append_left l₂ (List.mem_of_getLast? hlast))
  have hafter : l₂.head? ≠ some item := by
    intro hhead
    exact hu.absent head (hl ▸ List.mem_append_right l₁ (List.mem_of_head? hhead))
  have hresult := listInsert_eq hu.next hu.prev hbefore (hfollowing ▸ hafter)
  rw [hfollowing] at hresult
  refine ⟨_,hresult,?_,Holds.sameBeside_inserted hl,?_⟩
  · have hnodup := (hh.linked head).nodup
    rw [hl] at hnodup
    rw [hl,listInsert_append hnodup.of_append_left]
    exact hh.inserted hl hu.absent
  · rw [listDetach_eq]
    have hlinks : (h.inserted head l₁.getLast? l₂.head? item).prev item = l₁.getLast? ∧
        (h.inserted head l₁.getLast? l₂.head? item).next item = l₂.head? :=
      ⟨Links.insertLink_self,Links.insertLink_self⟩
    rw [hlinks.1,hlinks.2,hh.detached_inserted hl hu]

theorem Holds.detaches (hh : h.Holds contents) (head : ι) (hitem : item ∈ contents head) :
    ∃ h', Detaches h contents head item h' := by
  obtain ⟨l₁,l₂,hl⟩ := List.append_of_mem hitem
  have hlinked := hh.linked head
  rw [hl] at hlinked
  have hnot := (List.nodup_cons.mp (List.nodup_middle.mp hlinked.nodup)).1
  have herase : (contents head).erase item = l₁ ++ l₂ := by
    rw [List.mem_append,not_or] at hnot
    rw [hl,List.erase_append_right _ hnot.1,List.erase_cons_head]
  refine ⟨h.detached head l₁.getLast? l₂.head? item,?_,?_,⟨?_,?_,?_⟩,Holds.sameBeside_detached hl⟩
  · rw [listDetach_eq,hlinked.prev_eq,hlinked.next_eq]
  · rw [herase]
    exact hh.detached hl
  · exact Links.removeLink_self
  · exact Links.removeLink_self
  · intro j
    by_cases hj : j = head
    · subst hj
      rwa [Function.update_self,herase]
    · rw [Function.update_of_ne hj]
      exact hh.disjoint head j (Ne.symm hj) item hitem

theorem exists_singleton : ∃ (h : ListHeap ℕ) (contents : ℕ → List ℕ), h.Holds contents ∧
    contents 0 = [5] := by
  have hfresh : (empty : ListHeap ℕ).Unlinked (fun _ => []) 5 := ⟨rfl,rfl,fun _ => List.not_mem_nil⟩
  have hins : ∃ h', Inserts (empty : ListHeap ℕ) (fun _ => []) 0 none 5 h' :=
    holds_empty.inserts 0 nofun hfresh
  obtain ⟨h,hi⟩ := hins
  exact ⟨h,_,hi.holds,Function.update_self _ _ _⟩

end ListHeap

open ListHeap

/-- In every heap of well-formed lists the insertion of an unlinked item behind a member, or in
front, and the detach of a member are those of the sequences; all lists stay well-formed and the
others stay as they are, and the detach takes back the insertion. -/
theorem list_operations {ι : Type} [DecidableEq ι] {h : ListHeap ι} {contents : ι → List ℕ}
    (hh : h.Holds contents) (head : ι) :
    (∀ prev item, (∀ p ∈ prev, p ∈ contents head) → h.Unlinked contents item →
      ∃ h', Inserts h contents head prev item h') ∧
    ∀ item ∈ contents head, ∃ h', Detaches h contents head item h' :=
  ⟨fun _ _ hprev hu => hh.inserts head hprev hu,fun _ hitem => hh.detaches head hitem⟩

/-- One item is put on an empty list and another one behind it. -/
theorem list_operations_run : ∃ h : ListHeap ℕ, ∃ contents, h.Holds contents ∧
    contents 3 = [5,7] ∧ h.size 3 = 2 := by
  have hfresh : (empty : ListHeap ℕ).Unlinked (fun _ => []) 5 := ⟨rfl,rfl,fun _ => List.not_mem_nil⟩
  obtain ⟨h,hi⟩ := (list_operations holds_empty 3).1 none 5 nofun hfresh
  have hfresh' : h.Unlinked (Function.update (fun _ => []) 3 [5]) 7 := by
    refine ⟨hi.beside.prev 7 (by simp),hi.beside.next 7 (by simp),?_⟩
    intro j
    by_cases hj : j = 3
    · subst hj
      simp
    · simp [Function.update_of_ne hj]
  obtain ⟨h',hi'⟩ := (list_operations hi.holds 3).1 (some 5) 7 (by simp [listInsert]) hfresh'
  refine ⟨h',_,hi'.holds,?_,?_⟩
  · simp [listInsert,insertAfter]
  · rw [hi'.holds.size]
    simp [listInsert,insertAfter]
    decide

end DisastrOS
