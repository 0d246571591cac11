import DisastrOS.Kernel.PoolMemory

/-! # What the initialisation of a pool relies on

The size that is asked for is computed in `size_t` and cut back to an `int` before it is
compared, and the last cell is stored to before anyone asks whether there is one.
-/
namespace DisastrOS
open FreeChain

namespace PoolHeader

/-- The store of a cell is in the memory block and behind its items. -/
structure BehindItems (itemSize numItems memoryBlock memorySize p : ℤ) : Prop where
  first : memoryBlock ≤ p
  last : p + 4 ≤ memoryBlock + memorySize
  behind : memoryBlock + numItems * itemSize ≤ p

/-- What the initialisation is to do: with a success there is room for the items and the free
list, all stores are in it, and the chain has each item once; otherwise nothing is stored. -/
structure InitSound (a : PoolHeader) (itemSize numItems memoryBlock memorySize : ℤ)
    (ints : ℤ → ℤ) : Prop where
  success : ∀ b k, a.init itemSize numItems memoryBlock memorySize ⟨ints,[]⟩ = (.success,b,k) →
    numItems * itemSize + numItems * 4 ≤ memorySize ∧
    (∀ p ∈ k.stores, BehindItems itemSize numItems memoryBlock memorySize p) ∧
    ∃ chain : List ℕ, Chain (b.cells k) b.firstIdx chain ∧ chain.Nodup ∧
      ∀ i : ℕ, i ∈ chain ↔ (i : ℤ) < numItems
  failure : ∀ v b k, a.init itemSize numItems memoryBlock memorySize ⟨ints,[]⟩ = (v,b,k) →
    v ≠ .success → v = .notEnoughMemory ∧ b = a ∧ k = ⟨ints,[]⟩

/-- The call is refused; or there are items, and the exact size is an `int`, or a product with
a negative size has left the `int`s for one that fits. -/
def InitGuard (itemSize numItems memorySize : ℤ) : Prop :=
  memorySize < wrapInt (numItems * (itemSize + 4)) ∨
  0 < numItems ∧ (0 ≤ itemSize ∧ numItems * (itemSize + 4) < 2147483648 ∨
    itemSize < 0 ∧ 0 ≤ wrapInt (itemSize * numItems) ∧
      wrapInt (itemSize * numItems) + 4 * numItems ≤ memorySize)

variable {a b : PoolHeader} {itemSize numItems memoryBlock memorySize p : ℤ} {ints : ℤ → ℤ}
variable {k : IntMemory} {chain : List ℕ}

/-- With at least one item, the cells of the items are stored to, and no others. -/
theorem mem_stores (hn : 0 < numItems) (hlast : numItems < 2147483648)
    (h : a.init itemSize numItems memoryBlock memorySize ⟨ints,[]⟩ = (.success,b,k)) :
    p ∈ k.stores ↔ ∃ i : ℕ, (i : ℤ) < numItems ∧ p = b.freeList + 4 * i := by
  obtain ⟨n,rfl⟩ : ∃ n : ℕ, numItems = n + 1 := ⟨(numItems - 1).toNat,by omega⟩
  have hwrap : wrapInt ((n : ℤ) + 1 - 1) = n := by
    rw [wrapInt_eq (by omega) (by omega)]
    omega
  obtain ⟨_,_,_,hk⟩ := init_success h
  rw [hwrap,Int.toNat_natCast] at hk
  rw [hk,IntMemory.store,List.mem_cons,IntMemory.mem_stores_linkCells]
  constructor
  · rintro (rfl | ⟨i,hi,rfl⟩ | hp)
    · exact ⟨n,by omega,rfl⟩
    · exact ⟨i,by omega,rfl⟩
    · cases hp
  · rintro ⟨i,hi,rfl⟩
    by_cases hin : i = n
    · subst hin
      exact Or.inl rfl
    · exact Or.inr (Or.inl ⟨i,by omega,rfl⟩)

theorem exists_chain (hn : 0 < numItems) (hlast : numItems < 2147483648)
    (h : a.init itemSize numItems memoryBlock memorySize ⟨ints,[]⟩ = (.success,b,k)) :
    ∃ chain : List ℕ, Chain (b.cells k) b.firstIdx chain ∧ chain.Nodup ∧
      ∀ i : ℕ, i ∈ chain ↔ (i : ℤ) < numItems := by
  have hinit := init_allocator hn hlast h
  obtain ⟨n,rfl⟩ : ∃ n : ℕ, numItems = n := ⟨numItems.toNat,by omega⟩
  obtain ⟨hsound,-⟩ := PoolAllocator.init_sound (by omega) hinit
  refine ⟨List.range' 0 n,hsound.links,hsound.nodup,?_⟩
  intro i
  rw [List.mem_range'_1]
  omega

theorem numItems_pos (h : a.init itemSize numItems memoryBlock memorySize ⟨ints,[]⟩ = (.success,b,k))
    (hchain : Chain (b.cells k) b.firstIdx chain) (hmem : ∀ i : ℕ, i ∈ chain ↔ (i : ℤ) < numItems) :
    0 < numItems := by
  obtain ⟨_,hfirst,_,_⟩ := init_success h
  rw [hfirst] at hchain
  cases chain with
  | nil =>
    have hend : (0 : ℤ) = -1 := hchain
    omega
  | cons j c =>
    have hj : (0 : ℤ) = j := hchain.1
    have hlt := (hmem j).mp List.mem_cons_self
    omega

/-- A success as it is to be needs the guard. -/
theorem InitSound.initGuard (hs : InitSound a itemSize numItems memoryBlock memorySize ints)
    (hlast : numItems < 2147483648) (hsize : memorySize < 2147483648) :
    InitGuard itemSize numItems memorySize := by
  by_contra hguard
  have hroom : ¬ memorySize < wrapInt (numItems * (itemSize + 4)) := fun hr => hguard (Or.inl hr)
  obtain ⟨b,k,h⟩ := init_accepted a memoryBlock ⟨ints,[]⟩ (not_lt.mp hroom)
  obtain ⟨hfits,hstores,chain,hchain,-,hmem⟩ := hs.success b k h
  have hn := numItems_pos h hchain hmem
  obtain ⟨_,_,hlist,_⟩ := init_success h
  have hfirst := hstores (b.freeList + 4 * (0 : ℕ)) ((mem_stores hn hlast h).mpr ⟨0,hn,rfl⟩)
  have hfinal := hstores (b.freeList + 4 * ((numItems - 1).toNat : ℕ))
    ((mem_stores hn hlast h).mpr ⟨(numItems - 1).toNat,by omega,rfl⟩)
  have hlow := hfirst.first
  have hhigh := hfinal.last
  rw [hlist] at hlow hhigh
  apply hguard
  refine Or.inr ⟨hn,?_⟩
  by_cases hitem : 0 ≤ itemSize
  · refine Or.inl ⟨hitem,?_⟩
    rw [Int.mul_add]
    omega
  · exact Or.inr ⟨by omega,by omega,by omega⟩

/-- With the guard the stores are where they are to be. -/
theorem behindItems (memoryBlock : ℤ) (hn : 0 < numItems)
    (hroom : wrapInt (numItems * (itemSize + 4)) ≤ memorySize)
    (hguard : 0 ≤ itemSize ∧ numItems * (itemSize + 4) < 2147483648 ∨
      itemSize < 0 ∧ 0 ≤ wrapInt (itemSize * numItems) ∧
        wrapInt (itemSize * numItems) + 4 * numItems ≤ memorySize) :
    numItems * itemSize + numItems * 4 ≤ memorySize ∧ ∀ i : ℕ, (i : ℤ) < numItems →
      BehindItems itemSize numItems memoryBlock memorySize
        (memoryBlock + wrapInt (itemSize * numItems) + 4 * i) := by
  rw [Int.mul_add] at hroom hguard
  have hcomm : itemSize * numItems = numItems * itemSize := Int.mul_comm _ _
  rcases hguard with ⟨hitem,hfits⟩ | ⟨hitem,hlow,hhigh⟩
  · have hnonneg : 0 ≤ numItems * itemSize := Int.mul_nonneg hn.le hitem
    rw [wrapInt_eq (by omega) hfits] at hroom
    have hwrap : wrapInt (itemSize * numItems) = numItems * itemSize := by
      rw [wrapInt_eq (by omega) (by omega),hcomm]
    refine ⟨hroom,?_⟩
    intro i hi
    exact ⟨by omega,by omega,by omega⟩
  · have hneg : numItems * itemSize < 0 := Int.mul_neg_of_pos_of_neg hn hitem
    refine ⟨by omega,?_⟩
    intro i hi
    exact ⟨by omega,by omega,by omega⟩

theorem initSound_of_guard (hlast : numItems < 2147483648)
    (hguard : InitGuard itemSize numItems memorySize) :
    InitSound a itemSize numItems memoryBlock memorySize ints := by
  constructor
  · intro b k h
    obtain ⟨hroom,_,hlist,_⟩ := init_success h
    obtain ⟨hn,hguard⟩ := hguard.resolve_left (not_lt.mpr hroom)
    obtain ⟨hfits,hbehind⟩ := behindItems memoryBlock hn hroom hguard
    refine ⟨hfits,?_,exists_chain hn hlast h⟩
    intro p hp
    obtain ⟨i,hi,rfl⟩ := (mem_stores hn hlast h).mp hp
    rw [hlist]
    exact hbehind i hi
  · intro v b k h hv
    by_cases hroom : memorySize < wrapInt (numItems * (itemSize + 4))
    · cases (init_refused hroom).symm.trans h
      exact ⟨rfl,rfl,rfl⟩
    · obtain ⟨b',k',hok⟩ := init_accepted a memoryBlock ⟨ints,[]⟩ (not_lt.mp hroom)
      cases hok.symm.trans h
      exact absurd rfl hv

end PoolHeader

/-- For all sizes, an initialisation that succeeds has room for what it stores and chains the
items, exactly under the guard. -/
theorem pool_init_sound (a : PoolHeader) (itemSize numItems memorySize : Int32) (memoryBlock : ℤ)
    (ints : ℤ → ℤ) :
    PoolHeader.InitSound a itemSize.toInt numItems.toInt memoryBlock memorySize.toInt ints ↔
      PoolHeader.InitGuard itemSize.toInt numItems.toInt memorySize.toInt := by
  have hlast : numItems.toInt < 2147483648 := numItems.toInt_lt
  have hsize : memorySize.toInt < 2147483648 := memorySize.toInt_lt
  exact ⟨fun hs => hs.initGuard hlast hsize,PoolHeader.initSound_of_guard hlast⟩

/-- A pool of no items ends its chain in the cell before its free list. -/
theorem pool_init_empty : ¬ ∀ (a : PoolHeader) (itemSize numItems memorySize : Int32)
    (memoryBlock : ℤ) (ints : ℤ → ℤ),
    PoolHeader.InitSound a itemSize.toInt numItems.toInt memoryBlock memorySize.toInt ints := by
  intro hclaim
  have hsound := hclaim ⟨0,0,0,0,0,0,0⟩ 8 0 64 4096 (fun _ => 0)
  obtain ⟨_,hstores,_⟩ := hsound.success _ _ rfl
  have hbefore := (hstores 4092 (by decide)).first
  exact absurd hbefore (by decide)

end DisastrOS
