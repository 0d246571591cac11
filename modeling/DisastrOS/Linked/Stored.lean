import DisastrOS.Foundation.Refinement
import DisastrOS.Kernel.PoolMemory
import DisastrOS.Linked.Layers
import DisastrOS.Properties.ListOps

/-! # Lists of blocks

The heads of a heap hold lists of blocks that have been handed out. What the kernel does to its
sequences is done by the list code to the links, except that the list code does not look whether
the item it detaches is on the list.
-/
namespace DisastrOS
open Refinement

/-- The faults that are found on sequences only. -/
def Fault.Unchecked (f : Fault) : Prop := f = .detachNonMember

namespace ListHeap

variable {ι : Type} {n : ℕ}

/-- The heads hold these lists, and what is on them has been handed out. -/
structure Stored (h : ListHeap ι) (contents : ι → List ℕ) (pool : Pool n) : Prop where
  holds : h.Holds contents
  allocated : ∀ j, ∀ x ∈ contents j, pool.Allocated x

/-- Besides, what is on no list has no links. -/
structure Settled (h : ListHeap ι) (contents : ι → List ℕ) (pool : Pool n) : Prop
    extends Stored h contents pool where
  unlisted : ∀ x, (∀ j, x ∉ contents j) → h.prev x = none ∧ h.next x = none

/-- The results of a detach from a list that is in memory and from its sequence. -/
inductive Detached [DecidableEq ι] (h : ListHeap ι) (contents : ι → List ℕ) (pool : Pool n)
    (head : ι) : ℕ × ListHeap ι → ℕ × List ℕ → Prop
  | intro {item : ℕ} {h' : ListHeap ι} (ha : pool.Allocated item) (hmem : item ∈ contents head)
      (hd : h.Detaches contents head item h') :
      Detached h contents pool head (item,h') (item,(contents head).erase item)

variable {h : ListHeap ι} {contents : ι → List ℕ} {pool pool' : Pool n} {head : ι}
variable {prev : Option ℕ} {item : ℕ}

theorem listInit_empty [DecidableEq ι] (head : ι) : (empty : ListHeap ι).listInit head = empty :=
  ListHeap.ext rfl rfl (Function.update_eq_self_iff.mpr rfl) (Function.update_eq_self_iff.mpr rfl)
    (Function.update_eq_self_iff.mpr rfl)

theorem stored_empty (pool : Pool n) : (empty : ListHeap ι).Stored (fun _ => []) pool :=
  ⟨holds_empty,fun _ => nofun⟩

theorem settled_empty (pool : Pool n) : (empty : ListHeap ι).Settled (fun _ => []) pool :=
  { stored_empty pool with unlisted := fun _ _ => ⟨rfl,rfl⟩ }

namespace Stored

/-- No list is longer than the pool. -/
theorem length_le (hs : h.Stored contents pool) (j : ι) : (contents j).length ≤ n := by
  have hsub : contents j ⊆ List.range n := by
    intro x hx
    exact List.mem_range.mpr (hs.allocated j x hx).lt
  have hle := ((hs.holds.linked j).nodup.subperm hsub).length_le
  rwa [List.length_range] at hle

/-- The head counts the items of its list. -/
theorem size_eq (hs : h.Stored contents pool) (hn : n < 2147483648) (j : ι) :
    h.size j = (contents j).length := by
  have hle := hs.length_le j
  rw [hs.holds.size,wrapInt_eq (by omega) (by omega)]

/-- A new block is on no list. -/
theorem free (hs : h.Stored contents pool) (hb : pool.getBlock = some (item,pool')) (j : ι) :
    item ∉ contents j := fun hj => (Pool.getBlock_eq_some hb).1 (hs.allocated j item hj)

/-- A block is handed out, and its links are cleared. -/
theorem clear (hs : h.Stored contents pool) (hb : pool.getBlock = some (item,pool')) :
    (h.clear item).Stored contents pool' := by
  refine ⟨hs.holds.clear (hs.free hb),?_⟩
  intro j x hx
  exact ((Pool.getBlock_eq_some hb).2.2 x).mpr (Or.inr (hs.allocated j x hx))

/-- A block that is on no list may be given back. -/
theorem release (hs : h.Stored contents pool) (ha : pool.Allocated item)
    (hitem : ∀ j, item ∉ contents j) : h.Stored contents (pool.releaseBlock item) := by
  refine ⟨hs.holds,?_⟩
  intro j x hx
  refine (Pool.allocated_releaseBlock ha x).mpr ⟨?_,hs.allocated j x hx⟩
  rintro rfl
  exact hitem j hx

variable [DecidableEq ι]

/-- A list is replaced by one of allocated blocks. -/
theorem update {h' : ListHeap ι} {l : List ℕ} (hs : h.Stored contents pool)
    (hh : h'.Holds (Function.update contents head l)) (hl : ∀ x ∈ l, pool.Allocated x) :
    h'.Stored (Function.update contents head l) pool := by
  refine ⟨hh,?_⟩
  intro j x hx
  by_cases hj : j = head
  · subst hj
    rw [Function.update_self] at hx
    exact hl x hx
  · rw [Function.update_of_ne hj] at hx
    exact hs.allocated j x hx

theorem listInit (hs : h.Stored contents pool) (head : ι) :
    (h.listInit head).Stored (Function.update contents head []) pool :=
  hs.update (hs.holds.listInit head) nofun

theorem inserts {h' : ListHeap ι} (hs : h.Stored contents pool) (ha : pool.Allocated item)
    (hprev : ∀ p ∈ prev, p ∈ contents head) (hi : h.Inserts contents head prev item h') :
    h'.Stored (Function.update contents head (DisastrOS.listInsert (contents head) prev item))
      pool := by
  refine hs.update hi.holds ?_
  intro x hx
  rcases List.mem_cons.mp ((listInsert_perm hprev item).mem_iff.mp hx) with rfl | hx
  · exact ha
  · exact hs.allocated head x hx

theorem detaches {h' : ListHeap ι} (hs : h.Stored contents pool)
    (hd : h.Detaches contents head item h') :
    h'.Stored (Function.update contents head ((contents head).erase item)) pool :=
  hs.update hd.holds fun x hx => hs.allocated head x (List.mem_of_mem_erase hx)

/-- `head->last` is the last item of the list. -/
theorem append_eq (hs : h.Stored contents pool) (head : ι) (item : ℕ) :
    h.append head item = (h.listInsert head (contents head).getLast? item).2 ∧
      DisastrOS.listInsert (contents head) (contents head).getLast? item =
        listAppend (contents head) item := by
  constructor
  · unfold append
    rw [hs.holds.last]
  · exact listInsert_getLast (hs.holds.linked head).nodup item

theorem append (hs : h.Stored contents pool) (ha : pool.Allocated item)
    (hu : h.Unlinked contents item) (head : ι) :
    (h.append head item).Stored
      (Function.update contents head (listAppend (contents head) item)) pool := by
  have hprev : ∀ p ∈ (contents head).getLast?, p ∈ contents head :=
    fun p hp => List.mem_of_getLast? hp
  obtain ⟨h',hi⟩ := hs.holds.inserts head hprev hu
  obtain ⟨heap,hlist⟩ := hs.append_eq head item
  have hnew := hs.inserts ha hprev hi
  rw [hlist] at hnew
  rwa [heap,hi.result]

/-- A new block is put behind the last item. -/
theorem append_new (hs : h.Stored contents pool) (hb : pool.getBlock = some (item,pool'))
    (head : ι) :
    ((h.clear item).append head item).Stored
      (Function.update contents head (listAppend (contents head) item)) pool' := by
  have ha : pool'.Allocated item := ((Pool.getBlock_eq_some hb).2.2 item).mpr (Or.inl rfl)
  exact (hs.clear hb).append ha (Holds.unlinked_clear (hs.free hb)) head

/-- What is detached from a sequence is detached from the list that is in memory. -/
theorem listDetach (hs : h.Stored contents pool) (head : ι) (item : Option ℕ) :
    Refines Fault.Unchecked (h.Detached contents pool head) (h.listDetach head item)
      (DisastrOS.listDetach (contents head) item) := by
  cases item with
  | none => exact .error _
  | some x =>
    unfold DisastrOS.listDetach
    by_cases hx : x ∈ contents head
    · obtain ⟨h',hd⟩ := hs.holds.detaches head hx
      simp only [if_pos hx,hd.result]
      exact .ok ⟨hs.allocated head x hx,hx,hd⟩
    · simp only [if_neg hx]
      exact .undefined rfl

end Stored

namespace Settled

theorem unlinked (hs : h.Settled contents pool) (hitem : ∀ j, item ∉ contents j) :
    h.Unlinked contents item :=
  ⟨(hs.unlisted item hitem).1,(hs.unlisted item hitem).2,hitem⟩

theorem clear (hs : h.Settled contents pool) (hb : pool.getBlock = some (item,pool')) :
    (h.clear item).Settled contents pool' := by
  refine { hs.toStored.clear hb with unlisted := ?_ }
  intro x hx
  by_cases hxi : x = item
  · subst hxi
    exact ⟨Function.update_self _ _ _,Function.update_self _ _ _⟩
  · obtain ⟨hprev,hnext⟩ := hs.unlisted x hx
    exact ⟨(Function.update_of_ne hxi _ _).trans hprev,(Function.update_of_ne hxi _ _).trans hnext⟩

theorem release (hs : h.Settled contents pool) (ha : pool.Allocated item)
    (hitem : ∀ j, item ∉ contents j) : h.Settled contents (pool.releaseBlock item) :=
  { hs.toStored.release ha hitem with unlisted := hs.unlisted }

variable [DecidableEq ι]

theorem inserts {h' : ListHeap ι} (hs : h.Settled contents pool) (ha : pool.Allocated item)
    (hprev : ∀ p ∈ prev, p ∈ contents head) (hi : h.Inserts contents head prev item h') :
    h'.Settled (Function.update contents head (DisastrOS.listInsert (contents head) prev item))
      pool := by
  refine { hs.toStored.inserts ha hprev hi with unlisted := ?_ }
  intro x hx
  have hxhead := hx head
  rw [Function.update_self,(listInsert_perm hprev item).mem_iff] at hxhead
  have hold : ∀ j, x ∉ contents j := by
    intro j
    by_cases hj : j = head
    · subst hj
      exact fun hmem => hxhead (List.mem_cons_of_mem item hmem)
    · have hxj := hx j
      rwa [Function.update_of_ne hj] at hxj
  obtain ⟨hprev,hnext⟩ := hs.unlisted x hold
  exact ⟨(hi.beside.prev x hxhead).trans hprev,(hi.beside.next x hxhead).trans hnext⟩

theorem detaches {h' : ListHeap ι} (hs : h.Settled contents pool)
    (hd : h.Detaches contents head item h') :
    h'.Settled (Function.update contents head ((contents head).erase item)) pool := by
  refine { hs.toStored.detaches hd with unlisted := ?_ }
  intro x hx
  by_cases hxi : x = item
  · subst hxi
    exact ⟨hd.unlinked.prev,hd.unlinked.next⟩
  · have hold : ∀ j, x ∉ contents j := by
      intro j
      have hxj := hx j
      by_cases hj : j = head
      · subst hj
        rw [Function.update_self] at hxj
        exact fun hmem => hxj ((List.mem_erase_of_ne hxi).mpr hmem)
      · rwa [Function.update_of_ne hj] at hxj
    obtain ⟨hprev,hnext⟩ := hs.unlisted x hold
    exact ⟨(hd.beside.prev x (hold head)).trans hprev,(hd.beside.next x (hold head)).trans hnext⟩

theorem listInsert (hs : h.Settled contents pool) (ha : pool.Allocated item)
    (hprev : ∀ p ∈ prev, p ∈ contents head) (hitem : ∀ j, item ∉ contents j) :
    (h.listInsert head prev item).2.Settled
      (Function.update contents head (DisastrOS.listInsert (contents head) prev item)) pool := by
  obtain ⟨h',hi⟩ := hs.holds.inserts head hprev (hs.unlinked hitem)
  rw [hi.result]
  exact hs.inserts ha hprev hi

theorem append (hs : h.Settled contents pool) (ha : pool.Allocated item)
    (hitem : ∀ j, item ∉ contents j) (head : ι) :
    (h.append head item).Settled
      (Function.update contents head (listAppend (contents head) item)) pool := by
  obtain ⟨heap,hlist⟩ := hs.append_eq head item
  have hprev : ∀ p ∈ (contents head).getLast?, p ∈ contents head :=
    fun p hp => List.mem_of_getLast? hp
  have hnew := hs.listInsert ha hprev hitem
  rwa [hlist,← heap] at hnew

end Settled

end ListHeap

end DisastrOS
