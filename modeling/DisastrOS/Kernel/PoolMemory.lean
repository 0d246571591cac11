import DisastrOS.Kernel.PoolAllocator

/-! # The initialisation of a pool in memory

Here the free list is what it is in C: the address of its first cell, which is computed from
the sizes. Every store of an `int` is noted. The products and the difference of `int`s wrap
around, as they do in the code that the compiler makes without optimisation.
-/
namespace DisastrOS
open FreeChain

/-- The record of a pool, with the address of its free list. -/
structure PoolHeader where
  buffer : ℤ
  freeList : ℤ
  bufferSize : ℤ
  size : ℤ
  sizeMax : ℤ
  itemSize : ℤ
  firstIdx : ℤ

/-- The `int`s in memory by their addresses, and the addresses that have been stored to. -/
structure IntMemory where
  ints : ℤ → ℤ
  stores : List ℤ

namespace IntMemory

def store (k : IntMemory) (address value : ℤ) : IntMemory :=
  ⟨Function.update k.ints address value,address :: k.stores⟩

/-- The loop of `PoolAllocator_init`. -/
def linkCells (k : IntMemory) (freeList : ℤ) : ℕ → IntMemory
  | 0 => k
  | n + 1 => (linkCells k freeList n).store (freeList + 4 * n) (n + 1)

end IntMemory

/-- `PoolAllocator_init`. -/
def PoolHeader.init (a : PoolHeader) (itemSize numItems memoryBlock memorySize : ℤ)
    (k : IntMemory) : PoolAllocatorResult × PoolHeader × IntMemory :=
  let requestedSize := wrapInt (numItems * (itemSize + 4))
  if memorySize < requestedSize then (.notEnoughMemory,a,k)
  else
    let a : PoolHeader :=
      { itemSize := itemSize
        size := numItems
        bufferSize := wrapInt (itemSize * numItems)
        sizeMax := numItems
        buffer := memoryBlock
        freeList := memoryBlock + wrapInt (itemSize * numItems)
        firstIdx := 0 }
    let last := wrapInt (a.size - 1)
    (.success,a,(k.linkCells a.freeList last.toNat).store (a.freeList + 4 * last) nullIdx)

/-- The cells that the free list of a pool has in memory. -/
def PoolHeader.cells (a : PoolHeader) (k : IntMemory) (i : ℕ) : ℤ := k.ints (a.freeList + 4 * i)

/-- The record of the pool with these cells. -/
def PoolHeader.allocator (a : PoolHeader) (k : IntMemory) : PoolAllocator where
  buffer := a.buffer
  freeList := a.cells k
  bufferSize := a.bufferSize
  size := a.size
  sizeMax := a.sizeMax
  itemSize := a.itemSize
  firstIdx := a.firstIdx

theorem wrapInt_eq {x : ℤ} (hlow : -2147483648 ≤ x) (hhigh : x < 2147483648) : wrapInt x = x := by
  unfold wrapInt
  apply Int.bmod_eq_of_le <;> omega

namespace IntMemory

variable {k : IntMemory} {freeList p : ℤ} {n i : ℕ}

theorem mem_stores_linkCells : p ∈ (k.linkCells freeList n).stores ↔
    (∃ i : ℕ, i < n ∧ p = freeList + 4 * i) ∨ p ∈ k.stores := by
  induction n with
  | zero => simp [linkCells]
  | succ n ih =>
    simp only [linkCells,store,List.mem_cons,ih]
    constructor
    · rintro (rfl | ⟨i,hi,rfl⟩ | hp)
      · exact Or.inl ⟨n,by omega,rfl⟩
      · exact Or.inl ⟨i,by omega,rfl⟩
      · exact Or.inr hp
    · rintro (⟨i,hi,rfl⟩ | hp)
      · by_cases hin : i = n
        · subst hin
          exact Or.inl rfl
        · exact Or.inr (Or.inl ⟨i,by omega,rfl⟩)
      · exact Or.inr (Or.inr hp)

/-- The loop stores to the cells what the loop over their indices does. -/
theorem cells_linkCells : (fun i : ℕ => (k.linkCells freeList n).ints (freeList + 4 * i)) =
    PoolAllocator.linkCells (fun i => k.ints (freeList + 4 * i)) n := by
  induction n with
  | zero => rfl
  | succ n ih =>
    funext i
    unfold PoolAllocator.linkCells
    rw [← ih]
    by_cases hin : i = n
    · subst hin
      rw [Function.update_self]
      exact Function.update_self _ _ _
    · rw [Function.update_of_ne hin]
      exact Function.update_of_ne (by omega) _ _

/-- The store behind the loop, which ends the chain. -/
theorem cells_store (value : ℤ) :
    (fun i : ℕ => ((k.linkCells freeList n).store (freeList + 4 * n) value).ints
      (freeList + 4 * i)) =
    Function.update (PoolAllocator.linkCells (fun i => k.ints (freeList + 4 * i)) n) n value := by
  funext i
  by_cases hi : i = n
  · subst hi
    rw [Function.update_self]
    exact Function.update_self _ _ _
  · rw [Function.update_of_ne hi,← cells_linkCells]
    exact Function.update_of_ne (by omega) _ _

end IntMemory

namespace PoolHeader

variable {a b : PoolHeader} {itemSize numItems memoryBlock memorySize : ℤ} {k k' : IntMemory}

theorem init_refused (h : memorySize < wrapInt (numItems * (itemSize + 4))) :
    a.init itemSize numItems memoryBlock memorySize k = (.notEnoughMemory,a,k) := if_pos h

theorem init_accepted (a : PoolHeader) (memoryBlock : ℤ) (k : IntMemory)
    (h : wrapInt (numItems * (itemSize + 4)) ≤ memorySize) :
    ∃ b k', a.init itemSize numItems memoryBlock memorySize k = (.success,b,k') :=
  ⟨_,_,if_neg (not_lt.mpr h)⟩

/-- What an initialisation that succeeds leaves behind. -/
theorem init_success (h : a.init itemSize numItems memoryBlock memorySize k = (.success,b,k')) :
    wrapInt (numItems * (itemSize + 4)) ≤ memorySize ∧ b.firstIdx = 0 ∧
    b.freeList = memoryBlock + wrapInt (itemSize * numItems) ∧
    k' = (k.linkCells b.freeList (wrapInt (numItems - 1)).toNat).store
      (b.freeList + 4 * wrapInt (numItems - 1)) nullIdx := by
  unfold init at h
  simp only at h
  split at h
  · cases h
  · rename_i hroom
    cases h
    exact ⟨not_lt.mp hroom,rfl,rfl,rfl⟩

/-- With at least one item, the memory holds the pool of indices behind the initialisation. -/
theorem init_allocator (hn : 0 < numItems) (hlast : numItems < 2147483648)
    (h : a.init itemSize numItems memoryBlock memorySize k = (.success,b,k')) :
    PoolAllocator.init (a.allocator k) itemSize numItems memoryBlock memorySize (b.cells k) =
      (.success,{ b.allocator k' with bufferSize := itemSize * numItems }) := by
  obtain ⟨n,rfl⟩ : ∃ n : ℕ, numItems = n + 1 := ⟨(numItems - 1).toNat,by omega⟩
  have hwrap : wrapInt ((n : ℤ) + 1 - 1) = n := by
    rw [wrapInt_eq (by omega) (by omega)]
    omega
  unfold init at h
  simp only [hwrap,Int.toNat_natCast] at h
  split at h
  · cases h
  · rename_i hroom
    cases h
    unfold PoolAllocator.init allocator cells
    simp only [if_neg hroom,IntMemory.cells_store,Int.add_sub_cancel,Int.toNat_natCast]

end PoolHeader

end DisastrOS
