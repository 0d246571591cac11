import DisastrOS.Foundation.Transitions
import DisastrOS.Properties.ListOps

/-! # Items that are put on a list twice

Whether an item is on a list is read off its links. The only item of a list has none, so that
it can be put on a list a second time, and from then on the lists are no lists any more.
-/
namespace DisastrOS

namespace ListHeap

/-- The links lead from the head to the item. -/
inductive OnList {ι : Type} (h : ListHeap ι) (head : ι) : ℕ → Prop
  | first {x : ℕ} (hx : h.first head = some x) : OnList h head x
  | next {x y : ℕ} (hx : OnList h head x) (hy : h.next x = some y) : OnList h head y

/-- The heads hold some sequences. -/
def WellFormed {ι : Type} (h : ListHeap ι) : Prop := ∃ contents, h.Holds contents

/-- The item is the first and the last one of a list. -/
def Sole {ι : Type} (h : ListHeap ι) (item : ℕ) : Prop :=
  ∃ j, h.first j = some item ∧ h.last j = some item

/-- The calls of the list code. -/
inductive ListCall (ι : Type)
  | insert (head : ι) (prev : Option ℕ) (item : ℕ)
  | detach (head : ι) (item : ℕ)

/-- The calls on well-formed lists: the place of an insertion is null or on the list, and so is
the item of a detach; any item may be given to an insertion. -/
def listCalls (ι : Type) [DecidableEq ι] : Transitions.System (ListHeap ι) (ListCall ι) where
  Initial := WellFormed
  Step
    | h, .insert head prev item, h' =>
      (∀ p ∈ prev, h.OnList head p) ∧ (h.listInsert head prev item).2 = h'
    | h, .detach head item, h' =>
      h.OnList head item ∧ h.listDetach head (some item) = .ok (item,h')

/-- The call does not insert the only item of a list. -/
def InsertsOnce {ι : Type} (h : ListHeap ι) : ListCall ι → Prop
  | .insert _ _ item => ¬ h.Sole item
  | .detach _ _ => True

variable {ι : Type} {h h' : ListHeap ι} {contents : ι → List ℕ} {head j : ι}
variable {prev : Option ℕ} {item x : ℕ}

namespace Holds

theorem onList_iff (hh : h.Holds contents) : h.OnList j x ↔ x ∈ contents j := by
  constructor
  · intro hx
    induction hx with
    | first hx => exact List.mem_of_head? ((hh.first j).symm.trans hx)
    | next _ hy ih =>
      obtain ⟨l₁,l₂,hl⟩ := List.append_of_mem ih
      have hlinked := hh.linked j
      rw [hl] at hlinked
      rw [hl]
      have hhead := hlinked.next_eq.symm.trans hy
      exact List.mem_append_right l₁ (List.mem_cons_of_mem _ (List.mem_of_head? hhead))
  · refine (hh.linked j).forward.forall_mem ?_ (fun _ _ => .next) x
    intro y hy
    exact .first ((hh.first j).trans hy)

theorem eq_singleton_iff (hh : h.Holds contents) :
    contents j = [item] ↔ h.first j = some item ∧ h.last j = some item := by
  rw [hh.first,hh.last]
  constructor
  · intro hj
    rw [hj]
    exact ⟨rfl,rfl⟩
  · rintro ⟨hfirst,hlast⟩
    have hnodup := (hh.linked j).nodup
    obtain ⟨l,hl⟩ := List.head?_eq_some_iff.mp hfirst
    rw [hl] at hlast hnodup ⊢
    cases l with
    | nil => rfl
    | cons y l =>
      rw [List.getLast?_cons_cons] at hlast
      exact absurd (List.mem_of_getLast? hlast) (List.nodup_cons.mp hnodup).1

theorem sole_iff (hh : h.Holds contents) : h.Sole item ↔ ∃ j, contents j = [item] :=
  exists_congr fun _ => hh.eq_singleton_iff.symm

theorem links_singleton (hh : h.Holds contents) (hj : contents j = [item]) :
    h.prev item = none ∧ h.next item = none := by
  have hlinked : Links.Linked h.prev h.next ([] ++ item :: []) := by
    rw [List.nil_append,← hj]
    exact hh.linked j
  exact ⟨hlinked.prev_eq,hlinked.next_eq⟩

variable [DecidableEq ι]

theorem listInsert_member (hh : h.Holds contents) (hitem : item ∈ contents j)
    (halone : contents j ≠ [item]) : h.listInsert head prev item = (none,h) := by
  apply listInsert_refused
  by_contra hlinks
  rw [not_or,not_not,not_not] at hlinks
  exact halone ((hh.linked j).eq_singleton hitem hlinks.2 hlinks.1)

theorem listInsert_singleton (hh : h.Holds contents) (hj : contents j = [item]) (head : ι)
    (prev : Option ℕ) : (h.listInsert head prev item).1 = some item := by
  obtain ⟨hprev,hnext⟩ := hh.links_singleton hj
  unfold listInsert
  rw [hprev,hnext]
  rfl

/-- The only item of a list, inserted again there, is behind itself. -/
theorem not_wellFormed_same (hh : h.Holds contents) (hj : contents head = [item])
    (hprev : ∀ p ∈ prev, p ∈ contents head) : ¬ (h.listInsert head prev item).2.WellFormed := by
  obtain ⟨hp,hn⟩ := hh.links_singleton hj
  have hfirst : h.first head = some item := by
    rw [hh.first,hj]
    rfl
  have hself : (h.listInsert head prev item).2.first head = some item ∧
      (h.listInsert head prev item).2.next item = some item := by
    cases prev with
    | none =>
      simp [listInsert,following,setFirst,setSize,setNext,setPrev,hp,hn,hfirst]
    | some p =>
      obtain rfl : p = item := by simpa [hj] using hprev p rfl
      simp [listInsert,following,setLast,setSize,setNext,setPrev,hp,hn,hfirst]
  rintro ⟨contents',hh'⟩
  have hnodup := (hh'.linked head).nodup
  obtain ⟨l,hl⟩ := List.head?_eq_some_iff.mp ((hh'.first head).symm.trans hself.1)
  have hlinked := hh'.linked head
  rw [hl] at hlinked hnodup
  have hhead := hlinked.next_head.symm.trans hself.2
  exact (List.nodup_cons.mp hnodup).1 (List.mem_of_head? hhead)

/-- The only item of a list, inserted elsewhere, is on two lists. -/
theorem not_wellFormed_other (hh : h.Holds contents) (hj : contents j = [item]) (hne : j ≠ head)
    (hprev : ∀ p ∈ prev, p ∈ contents head) : ¬ (h.listInsert head prev item).2.WellFormed := by
  obtain ⟨hp,hn⟩ := hh.links_singleton hj
  have hitem : item ∉ contents head := by
    apply hh.disjoint j head hne item
    rw [hj]
    exact List.mem_singleton_self item
  obtain ⟨l₁,l₂,hl,rfl⟩ := exists_split hprev
  have hfollowing := hh.following_eq hl
  have hbefore : l₁.getLast? ≠ some item := by
    intro hlast
    exact hitem (hl ▸ List.mem_append_left l₂ (List.mem_of_getLast? hlast))
  have hafter : l₂.head? ≠ some item := by
    intro hhead
    exact hitem (hl ▸ List.mem_append_right l₁ (List.mem_of_head? hhead))
  rw [listInsert_eq hn hp hbefore (hfollowing ▸ hafter),hfollowing]
  rintro ⟨contents',hh'⟩
  have hfirst : (h.inserted head l₁.getLast? l₂.head? item).first j = some item :=
    (Function.update_of_ne hne _ _).trans (hh.eq_singleton_iff.mp hj).1
  have hlast : (h.inserted head l₁.getLast? l₂.head? item).last j = some item :=
    (Function.update_of_ne hne _ _).trans (hh.eq_singleton_iff.mp hj).2
  have hj' := hh'.eq_singleton_iff.mpr ⟨hfirst,hlast⟩
  have hlink : l₁.getLast? = none := Links.insertLink_self.symm.trans (hh'.links_singleton hj').1
  have hhead : (h.inserted head l₁.getLast? l₂.head? item).first head = some item := by
    refine (Function.update_self _ _ _).trans ?_
    rw [if_pos hlink]
  refine hh'.disjoint j head hne item ?_ (List.mem_of_head? ((hh'.first head).symm.trans hhead))
  rw [hj']
  exact List.mem_singleton_self item

/-- What becomes of a heap of well-formed lists. -/
theorem wellFormed_listInsert_iff (hh : h.Holds contents) (hprev : ∀ p ∈ prev, p ∈ contents head) :
    (h.listInsert head prev item).2.WellFormed ↔ ¬ h.Sole item := by
  rw [hh.sole_iff]
  constructor
  · rintro hw ⟨j,hj⟩
    by_cases hne : j = head
    · subst hne
      exact hh.not_wellFormed_same hj hprev hw
    · exact hh.not_wellFormed_other hj hne hprev hw
  · intro halone
    by_cases hlinks : h.next item ≠ none ∨ h.prev item ≠ none
    · rw [listInsert_refused hlinks]
      exact ⟨contents,hh⟩
    · rw [not_or,not_not,not_not] at hlinks
      have habsent : ∀ j, item ∉ contents j := by
        intro j hj
        exact halone ⟨j,(hh.linked j).eq_singleton hj hlinks.2 hlinks.1⟩
      obtain ⟨h',hi⟩ := hh.inserts head hprev ⟨hlinks.2,hlinks.1,habsent⟩
      rw [hi.result]
      exact ⟨_,hi.holds⟩

end Holds

/-- One call keeps the lists well-formed exactly if it does not insert the only item of one. -/
theorem step_wellFormed_iff [DecidableEq ι] {c : ListCall ι} (hw : h.WellFormed)
    (hstep : (listCalls ι).Step h c h') : h'.WellFormed ↔ h.InsertsOnce c := by
  obtain ⟨contents,hh⟩ := hw
  cases c with
  | insert head prev item =>
    obtain ⟨hprev,rfl⟩ := hstep
    exact hh.wellFormed_listInsert_iff fun p hp => hh.onList_iff.mp (hprev p hp)
  | detach head item =>
    obtain ⟨hitem,hok⟩ := hstep
    obtain ⟨v,hd⟩ := hh.detaches head (hh.onList_iff.mp hitem)
    cases hd.result.symm.trans hok
    exact iff_of_true ⟨_,hd.holds⟩ trivial

end ListHeap

open ListHeap

/-- In every run of insertions and detaches that never inserts the only item of a list, the
lists stay well-formed. There an item that is on a list is refused exactly if it is not the only
one, and the first call that inserts such an item leaves lists that are none. -/
theorem double_insertion {ι : Type} [DecidableEq ι] {h : ListHeap ι}
    (hr : Transitions.Reach (listCalls ι) InsertsOnce h) :
    h.WellFormed ∧
    (∀ head prev item, (∀ p ∈ prev, h.OnList head p) → (∃ j, h.OnList j item) →
      (h.listInsert head prev item = (none,h) ↔ ¬ h.Sole item)) ∧
    ∀ c h', (listCalls ι).Step h c h' → (h'.WellFormed ↔ h.InsertsOnce c) := by
  have hw : h.WellFormed := by
    refine hr.invariant (I := WellFormed) (fun _ hi => hi) ?_
    intro s c t hs hg hstep
    exact (step_wellFormed_iff hs hstep).mpr hg
  refine ⟨hw,?_,fun c h' hstep => step_wellFormed_iff hw hstep⟩
  obtain ⟨contents,hh⟩ := hw
  rintro head prev item - ⟨j,hj⟩
  rw [hh.onList_iff] at hj
  rw [hh.sole_iff]
  constructor
  · rintro hrefused ⟨j',hj'⟩
    have hsome := hh.listInsert_singleton hj' head prev
    rw [hrefused] at hsome
    cases hsome
  · intro halone
    exact hh.listInsert_member hj fun hj' => halone ⟨j,hj'⟩

/-- A list with one item, which can be put on another list. -/
theorem double_insertion_run : ∃ h h' : ListHeap ℕ, h.Sole 5 ∧
    (listCalls ℕ).Step h (.insert 1 none 5) h' ∧ ¬ h'.WellFormed := by
  obtain ⟨h,contents,hh,hlist⟩ := exists_singleton
  have hsole : h.Sole 5 := hh.sole_iff.mpr ⟨0,hlist⟩
  obtain ⟨_,_,hstep⟩ := double_insertion (.initial ⟨_,hh⟩)
  refine ⟨h,_,hsole,⟨nofun,rfl⟩,?_⟩
  intro hw
  exact (hstep (.insert 1 none 5) _ ⟨nofun,rfl⟩).mp hw hsole

/-- The only item of a list is taken once more. -/
theorem double_insertion_accepted : ¬ ∀ (h : ListHeap ℕ) (contents : ℕ → List ℕ) (head : ℕ)
    (prev : Option ℕ) (item j : ℕ), h.Holds contents → (∀ p ∈ prev, p ∈ contents head) →
      item ∈ contents j → h.listInsert head prev item = (none,h) := by
  intro hclaim
  obtain ⟨h,contents,hh,hlist⟩ := exists_singleton
  have hrefused := hclaim h contents 0 none 5 0 hh nofun (by simp [hlist])
  have hsome := hh.listInsert_singleton hlist 0 none
  rw [hrefused] at hsome
  cases hsome

end DisastrOS
