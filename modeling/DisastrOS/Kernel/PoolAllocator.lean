import Mathlib.Data.Finset.Card
import Mathlib.Data.Finset.Range
import DisastrOS.Foundation.FreeChain
import DisastrOS.Kernel.Constants

/-! # The pool allocator

Blocks of one size are carved out of a static buffer; the free ones are chained
through an array of indices that ends in minus one, and the allocated ones are
marked with minus two. A `Pool` carries the proof that its chain is sound, so
the kernel, which names blocks by their index, never handles a broken allocator.
-/
namespace DisastrOS
open FreeChain

inductive PoolAllocatorResult
  | success
  | notEnoughMemory
  | unalignedFree
  | outOfRange
  | doubleFree
  deriving DecidableEq, Repr

def nullIdx : ℤ := -1
def detachedIdx : ℤ := -2

/-- The bookkeeping record; `freeList` is the index array behind the item buffer. -/
structure PoolAllocator where
  buffer : ℤ
  freeList : ℕ → ℤ
  bufferSize : ℤ
  size : ℤ
  sizeMax : ℤ
  itemSize : ℤ
  firstIdx : ℤ

namespace PoolAllocator

/-- The loop of `PoolAllocator_init`: each of the first cells links to the next one. -/
def linkCells (freeList : ℕ → ℤ) : ℕ → ℕ → ℤ
  | 0 => freeList
  | n + 1 => Function.update (linkCells freeList n) n (n + 1)

/-- `PoolAllocator_init`. The requested size is computed in `size_t` and cut back to an
`int`; `cells` is what the memory block holds behind the items. -/
def init (a : PoolAllocator) (itemSize numItems memoryBlock memorySize : ℤ) (cells : ℕ → ℤ) :
    PoolAllocatorResult × PoolAllocator :=
  let requestedSize := wrapInt (numItems * (itemSize + 4))
  if memorySize < requestedSize then (.notEnoughMemory,a)
  else (.success,
    { buffer := memoryBlock
      freeList := Function.update (linkCells cells (numItems - 1).toNat) (numItems - 1).toNat
        nullIdx
      bufferSize := itemSize * numItems
      size := numItems
      sizeMax := numItems
      itemSize := itemSize
      firstIdx := 0 })

/-- The bookkeeping part of `getBlock`: the head of the chain leaves it. -/
def detachFirst (a : PoolAllocator) : Option (ℕ × PoolAllocator) :=
  if a.firstIdx = -1 then none
  else
    let detached := a.firstIdx.toNat
    some (detached,
      { a with
        firstIdx := a.freeList detached
        size := a.size - 1
        freeList := Function.update a.freeList detached detachedIdx })

def getBlock (a : PoolAllocator) : Option (ℤ × PoolAllocator) :=
  (a.detachFirst).map (fun r => (a.buffer + r.1 * a.itemSize,r.2))

/-- The bookkeeping part of `releaseBlock` once the index is known to be in range. -/
def attachFirst (a : PoolAllocator) (idx : ℕ) : PoolAllocatorResult × PoolAllocator :=
  if a.freeList idx ≠ detachedIdx then (.doubleFree,a)
  else (.success,
    { a with
      freeList := Function.update a.freeList idx a.firstIdx
      firstIdx := idx
      size := a.size + 1 })

/-- The offset is an `int`; its division and remainder truncate towards zero, as in C. -/
def releaseBlock (a : PoolAllocator) (block : ℤ) : PoolAllocatorResult × PoolAllocator :=
  let offset := wrapInt (block - a.buffer)
  if offset.tmod a.itemSize ≠ 0 then (.unalignedFree,a)
  else
    let idx := offset.tdiv a.itemSize
    if idx < 0 ∨ a.sizeMax ≤ idx then (.outOfRange,a)
    else a.attachFirst idx.toNat

/-- The free chain ends, repeats nothing, and covers exactly the unmarked cells. -/
structure Sound (a : PoolAllocator) (chain : List ℕ) : Prop where
  links : Chain a.freeList a.firstIdx chain
  nodup : chain.Nodup
  inRange : ∀ i ∈ chain, (i : ℤ) < a.sizeMax
  marked : ∀ i : ℕ, (i : ℤ) < a.sizeMax → i ∉ chain → a.freeList i = detachedIdx
  length : a.size = chain.length

variable {a b : PoolAllocator} {chain : List ℕ}

theorem linkCells_of_lt {cells : ℕ → ℤ} {n i : ℕ} (hi : i < n) : linkCells cells n i = i + 1 := by
  induction n with
  | zero => omega
  | succ n ih =>
    unfold linkCells
    by_cases hin : i = n
    · subst hin
      exact Function.update_self _ _ _
    · rw [Function.update_of_ne hin]
      exact ih (by omega)

/-- The index array behind a successful initialisation. -/
theorem init_freeList {itemSize memoryBlock memorySize : ℤ} {cells : ℕ → ℤ} {n : ℕ} (hn : 0 < n)
    (h : init a itemSize n memoryBlock memorySize cells = (.success,b)) :
    ∀ i < n, b.freeList i = successors n i := by
  unfold init at h
  simp only at h
  split at h
  · cases h
  · cases h
    intro i hi
    have hlast : ((n : ℤ) - 1).toNat = n - 1 := by omega
    dsimp only
    rw [hlast]
    unfold successors
    by_cases hin : i = n - 1
    · subst hin
      rw [Function.update_self,if_neg (by omega)]
      rfl
    · rw [Function.update_of_ne hin,linkCells_of_lt (by omega),if_pos (by omega)]
      push_cast
      rfl

/-- An accepted memory block holds the items and the index array. -/
theorem init_memory {itemSize numItems memoryBlock memorySize : ℤ} {cells : ℕ → ℤ}
    (hfits : numItems * (itemSize + 4) < 2147483648) (hnonneg : 0 ≤ numItems * (itemSize + 4))
    (h : init a itemSize numItems memoryBlock memorySize cells = (.success,b)) :
    numItems * (itemSize + 4) ≤ memorySize := by
  have hwrap : wrapInt (numItems * (itemSize + 4)) = numItems * (itemSize + 4) := by
    unfold wrapInt
    apply Int.bmod_eq_of_le
    · omega
    · omega
  unfold init at h
  simp only [hwrap] at h
  split at h
  · cases h
  · omega

/-- After the initialisation all blocks are free, in the order of their indices. -/
theorem init_sound {itemSize memoryBlock memorySize : ℤ} {cells : ℕ → ℤ} {n : ℕ} (hn : 0 < n)
    (h : init a itemSize n memoryBlock memorySize cells = (.success,b)) :
    b.Sound (List.range' 0 n) ∧ b.buffer = memoryBlock ∧ b.itemSize = itemSize ∧ b.sizeMax = n := by
  have hcells := init_freeList hn h
  unfold init at h
  simp only at h
  split at h
  · cases h
  · cases h
    refine ⟨?_,rfl,rfl,rfl⟩
    constructor
    · refine (chain_successors n 0 hn).congr (fun i hi => hcells i ?_)
      simp only [List.mem_range'_1] at hi
      omega
    · exact List.nodup_range'
    · intro i hi
      simp only [List.mem_range'_1] at hi
      dsimp only
      omega
    · intro i hi hnot
      simp only [List.mem_range'_1] at hnot
      dsimp only at hi
      omega
    · simp

theorem Sound.not_marked (h : a.Sound chain) {i : ℕ} (hi : i ∈ chain) :
    a.freeList i ≠ detachedIdx := by
  have hge := h.links.next_ge hi
  unfold detachedIdx
  omega

theorem Sound.detachFirst_eq_none (h : a.Sound chain) : a.detachFirst = none ↔ chain = [] := by
  rw [← h.links.head_eq_end]
  unfold detachFirst
  by_cases hend : a.firstIdx = -1 <;> simp [hend]

theorem Sound.detachFirst_cons {i : ℕ} (h : a.Sound (i :: chain)) :
    ∃ b, a.detachFirst = some (i,b) ∧ b.Sound chain ∧
      b.freeList = Function.update a.freeList i detachedIdx ∧ b.sizeMax = a.sizeMax := by
  obtain ⟨hi,htail⟩ := h.links
  obtain ⟨hnot,hnodup⟩ := List.nodup_cons.mp h.nodup
  have hne : a.firstIdx ≠ -1 := by omega
  have htoNat : a.firstIdx.toNat = i := by omega
  refine ⟨{ a with
    firstIdx := a.freeList i
    size := a.size - 1
    freeList := Function.update a.freeList i detachedIdx },?_,?_,rfl,rfl⟩
  · simp only [detachFirst,if_neg hne,htoNat]
  · constructor
    · exact htail.update hnot _
    · exact hnodup
    · exact fun j hj => h.inRange j (List.mem_cons_of_mem _ hj)
    · intro j hj hjc
      by_cases hji : j = i
      · subst hji
        exact Function.update_self _ _ _
      · dsimp only
        rw [Function.update_of_ne hji]
        exact h.marked j hj (by simp [hji,hjc])
    · have hl := h.length
      simp only [List.length_cons] at hl
      dsimp only
      omega

theorem Sound.attachFirst {i : ℕ} (h : a.Sound chain) (hi : (i : ℤ) < a.sizeMax)
    (hm : a.freeList i = detachedIdx) :
    (a.attachFirst i).1 = .success ∧ (a.attachFirst i).2.Sound (i :: chain) := by
  have hnot : i ∉ chain := fun hc => h.not_marked hc hm
  rw [PoolAllocator.attachFirst,if_neg (not_not.mpr hm)]
  refine ⟨rfl,?_⟩
  constructor
  · exact h.links.push hnot
  · exact List.nodup_cons.mpr ⟨hnot,h.nodup⟩
  · intro j hj
    rcases List.mem_cons.mp hj with rfl | hj
    · exact hi
    · exact h.inRange j hj
  · intro j hj hjc
    obtain ⟨hji,hjc⟩ := not_or.mp (fun hc => hjc (List.mem_cons.mpr hc))
    dsimp only
    rw [Function.update_of_ne hji]
    exact h.marked j hj hjc
  · have hl := h.length
    simp only [List.length_cons]
    push_cast
    omega

end PoolAllocator

/-- An allocator of `n` blocks whose free chain is sound. -/
structure Pool (n : ℕ) where
  allocator : PoolAllocator
  sizeMax_eq : allocator.sizeMax = n
  sound : ∃ chain, allocator.Sound chain

namespace Pool
variable {n : ℕ}

/-- The allocator as `PoolAllocator_init` leaves it. -/
def full (n : ℕ) (hn : 0 < n) : Pool n where
  allocator :=
    { buffer := 0, freeList := successors n, bufferSize := n, size := n, sizeMax := n,
      itemSize := 1, firstIdx := 0 }
  sizeMax_eq := rfl
  sound := by
    refine ⟨List.range' 0 n,?_⟩
    constructor
    · exact chain_successors n 0 hn
    · exact List.nodup_range'
    · intro i hi
      simp only [List.mem_range'_1] at hi
      dsimp only
      omega
    · intro i hi hnot
      simp only [List.mem_range'_1] at hnot
      dsimp only at hi
      omega
    · simp

/-- The index of a block that is handed out. -/
def Allocated (p : Pool n) (i : ℕ) : Prop := i < n ∧ p.allocator.freeList i = detachedIdx

instance (p : Pool n) (i : ℕ) : Decidable (p.Allocated i) :=
  inferInstanceAs (Decidable (_ ∧ _))

def getBlock (p : Pool n) : Option (ℕ × Pool n) :=
  match h : p.allocator.detachFirst with
  | none => none
  | some (i,a) => some (i,
      { allocator := a
        sizeMax_eq := by
          obtain ⟨chain,hc⟩ := p.sound
          cases chain with
          | nil => rw [hc.detachFirst_eq_none.mpr rfl] at h; cases h
          | cons j chain =>
            obtain ⟨b,hb,_,_,hmax⟩ := hc.detachFirst_cons
            rw [hb] at h
            cases h
            exact hmax.trans p.sizeMax_eq
        sound := by
          obtain ⟨chain,hc⟩ := p.sound
          cases chain with
          | nil => rw [hc.detachFirst_eq_none.mpr rfl] at h; cases h
          | cons j chain =>
            obtain ⟨b,hb,hs,_,_⟩ := hc.detachFirst_cons
            rw [hb] at h
            cases h
            exact ⟨chain,hs⟩ })

/-- The kernel ignores the result code; a refused release leaves the pool as it is. -/
def releaseBlock (p : Pool n) (i : ℕ) : Pool n :=
  if h : p.Allocated i then
    { allocator := (p.allocator.attachFirst i).2
      sizeMax_eq := by
        rw [PoolAllocator.attachFirst,if_neg (not_not.mpr h.2)]
        exact p.sizeMax_eq
      sound := by
        obtain ⟨chain,hc⟩ := p.sound
        have hi : (i : ℤ) < p.allocator.sizeMax := by
          rw [p.sizeMax_eq]
          exact_mod_cast h.1
        exact ⟨i :: chain,(hc.attachFirst hi h.2).2⟩ }
  else p

section Used

/-- The blocks that are handed out. -/
def used (p : Pool n) : Finset ℕ := (Finset.range n).filter p.Allocated

@[simp] theorem mem_used {p : Pool n} {i : ℕ} : i ∈ p.used ↔ p.Allocated i := by
  unfold used
  rw [Finset.mem_filter,Finset.mem_range]
  exact and_iff_right_of_imp And.left

theorem card_used_le (p : Pool n) : p.used.card ≤ n := by
  have hle := Finset.card_le_card (Finset.filter_subset p.Allocated (Finset.range n))
  rwa [Finset.card_range] at hle

/-- What is not handed out is on the free chain. -/
theorem size_add_card_used (p : Pool n) : p.allocator.size + p.used.card = n := by
  obtain ⟨chain,hc⟩ := p.sound
  have hlt : ∀ i ∈ chain, i < n := by
    intro i hi
    have hr := hc.inRange i hi
    rw [p.sizeMax_eq] at hr
    exact_mod_cast hr
  have hused : p.used = Finset.range n \ chain.toFinset := by
    ext i
    simp only [mem_used,Finset.mem_sdiff,Finset.mem_range,List.mem_toFinset]
    constructor
    · exact fun hi => ⟨hi.1,fun hic => hc.not_marked hic hi.2⟩
    · rintro ⟨hin,hic⟩
      refine ⟨hin,hc.marked i ?_ hic⟩
      rw [p.sizeMax_eq]
      exact_mod_cast hin
  have hsub : chain.toFinset ⊆ Finset.range n := by
    intro i hi
    exact Finset.mem_range.mpr (hlt i (List.mem_toFinset.mp hi))
  have hcard := Finset.card_sdiff_add_card_eq_card hsub
  rw [List.toFinset_card_of_nodup hc.nodup,Finset.card_range] at hcard
  rw [hused,hc.length]
  omega

end Used

@[simp] theorem not_allocated_full (hn : 0 < n) (i : ℕ) : ¬ (full n hn).Allocated i := by
  rintro ⟨_,h⟩
  have hs : successors n i = -2 := h
  unfold successors at hs
  split at hs <;> omega

theorem Allocated.lt {p : Pool n} {i : ℕ} (h : p.Allocated i) : i < n := h.1

/-- A pool without a free block has handed out every index. -/
theorem allocated_of_getBlock_eq_none {p : Pool n} (h : p.getBlock = none) {i : ℕ}
    (hi : i < n) : p.Allocated i := by
  obtain ⟨chain,hc⟩ := p.sound
  have hnil : chain = [] := by
    rw [← hc.detachFirst_eq_none]
    unfold getBlock at h
    split at h
    · assumption
    · cases h
  subst hnil
  refine ⟨hi,hc.marked i ?_ List.not_mem_nil⟩
  rw [p.sizeMax_eq]
  exact_mod_cast hi

/-- What one successful allocation does. -/
theorem getBlock_eq_some {p q : Pool n} {i : ℕ} (h : p.getBlock = some (i,q)) :
    ¬ p.Allocated i ∧ i < n ∧ ∀ j, q.Allocated j ↔ j = i ∨ p.Allocated j := by
  obtain ⟨chain,hc⟩ := p.sound
  unfold getBlock at h
  split at h
  · cases h
  · rename_i k a ha
    simp only [Option.some.injEq,Prod.mk.injEq] at h
    obtain ⟨rfl,rfl⟩ := h
    cases chain with
    | nil =>
      rw [hc.detachFirst_eq_none.mpr rfl] at ha
      cases ha
    | cons j chain =>
      obtain ⟨b,hb,_,hlist,_⟩ := hc.detachFirst_cons
      rw [hb] at ha
      cases ha
      have hk : k < n := by
        have hr := hc.inRange k List.mem_cons_self
        rw [p.sizeMax_eq] at hr
        exact_mod_cast hr
      refine ⟨fun hal => hc.not_marked List.mem_cons_self hal.2,hk,fun m => ?_⟩
      simp only [Allocated,hlist]
      by_cases hm : m = k
      · subst hm
        simp [hk]
      · simp [hm]

/-- One more block is in use after a successful allocation. -/
theorem card_used_getBlock {p q : Pool n} {i : ℕ} (h : p.getBlock = some (i,q)) :
    q.used.card = p.used.card + 1 := by
  obtain ⟨hfree,_,hal⟩ := getBlock_eq_some h
  have hq : q.used = insert i p.used := by
    ext j
    rw [mem_used,hal j,Finset.mem_insert,mem_used]
  rw [hq,Finset.card_insert_of_notMem (by rwa [mem_used])]

/-- An allocation fails exactly when every block is in use. -/
theorem getBlock_eq_none_iff {p : Pool n} : p.getBlock = none ↔ p.used.card = n := by
  constructor
  · intro h
    have hall : p.used = Finset.range n := by
      ext i
      rw [mem_used,Finset.mem_range]
      exact ⟨And.left,allocated_of_getBlock_eq_none h⟩
    rw [hall,Finset.card_range]
  · intro h
    cases hb : p.getBlock with
    | none => rfl
    | some r =>
      have hcard := card_used_getBlock (p := p) (q := r.2) (i := r.1) hb
      have hle := card_used_le r.2
      omega

/-- A new block is none of those that were handed out before. -/
theorem ne_of_getBlock {p q : Pool n} {i j : ℕ} (h : p.getBlock = some (i,q))
    (hj : p.Allocated j) : j ≠ i := by
  rintro rfl
  exact (getBlock_eq_some h).1 hj

theorem allocated_releaseBlock {p : Pool n} {i : ℕ} (h : p.Allocated i) (j : ℕ) :
    (p.releaseBlock i).Allocated j ↔ j ≠ i ∧ p.Allocated j := by
  obtain ⟨chain,hc⟩ := p.sound
  unfold releaseBlock
  rw [dif_pos h]
  simp only [Allocated,PoolAllocator.attachFirst,if_neg (not_not.mpr h.2)]
  by_cases hj : j = i
  · subst hj
    rw [Function.update_self]
    have hne : p.allocator.firstIdx ≠ detachedIdx := by
      cases chain with
      | nil =>
        have hend : p.allocator.firstIdx = -1 := hc.links
        unfold detachedIdx
        omega
      | cons k chain =>
        have hk := hc.links.1
        unfold detachedIdx
        omega
    simp [hne]
  · simp [hj]

end Pool

end DisastrOS
