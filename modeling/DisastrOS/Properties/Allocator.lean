import DisastrOS.Foundation.Transitions
import DisastrOS.Kernel.PoolAllocator

/-! # The pool allocator under any sequence of calls

Next to the allocator the blocks are recorded that it has handed out and not taken
back. Whatever pointers are released, the marked cells of the index array are those
of the recorded blocks, and the free chain runs through all others.
-/
namespace DisastrOS

namespace PoolAllocator
open FreeChain

inductive Request
  | getBlock
  | releaseBlock (block : ℤ)
  deriving DecidableEq

/-- The distance of the pointer from the buffer fits an `int`. -/
def Fits (a : PoolAllocator) (block : ℤ) : Prop :=
  -2147483648 ≤ block - a.buffer ∧ block - a.buffer < 2147483648

/-- An allocator, and the blocks that `getBlock` has returned and that no successful
release has given back. -/
structure Client where
  allocator : PoolAllocator
  live : List ℤ

namespace Client

def serve (s : Client) : Request → Client
  | .getBlock => match s.allocator.getBlock with
    | none => s
    | some (block,a) => ⟨a,block :: s.live⟩
  | .releaseBlock block =>
    let r := s.allocator.releaseBlock block
    ⟨r.2,if r.1 = .success then s.live.erase block else s.live⟩

/-- The calls that are within the range of pointer arithmetic. -/
def Admissible (s : Client) : Request → Prop
  | .getBlock => True
  | .releaseBlock block => s.allocator.Fits block

instance (s : Client) : (q : Request) → Decidable (s.Admissible q)
  | .getBlock => instDecidableTrue
  | .releaseBlock _ => inferInstanceAs (Decidable (_ ∧ _))

end Client

/-- The runs of the clients of one allocator. -/
def clients (a : PoolAllocator) : Transitions.System Client Request where
  Initial s := s = ⟨a,[]⟩
  Step s q t := t = s.serve q

variable {a b : PoolAllocator} {chain : List ℕ} {block memory size : ℤ} {n i : ℕ} {s : Client}

theorem wrapInt_of_fits (h : a.Fits block) : wrapInt (block - a.buffer) = block - a.buffer := by
  obtain ⟨hlo,hhi⟩ := h
  unfold wrapInt
  apply Int.bmod_eq_of_le
  · omega
  · omega

theorem detachFirst_eq_some (h : a.detachFirst = some (i,b)) :
    b.buffer = a.buffer ∧ b.itemSize = a.itemSize ∧ b.sizeMax = a.sizeMax := by
  unfold detachFirst at h
  split at h
  · cases h
  · cases h
    exact ⟨rfl,rfl,rfl⟩

theorem attachFirst_same (a : PoolAllocator) (i : ℕ) :
    (a.attachFirst i).2.buffer = a.buffer ∧ (a.attachFirst i).2.itemSize = a.itemSize ∧
      (a.attachFirst i).2.sizeMax = a.sizeMax := by
  unfold attachFirst
  split <;> exact ⟨rfl,rfl,rfl⟩

theorem attachFirst_freeList (hm : a.freeList i = detachedIdx) {j : ℕ} (hj : j ≠ i) :
    (a.attachFirst i).2.freeList j = a.freeList j := by
  rw [attachFirst,if_neg (not_not.mpr hm)]
  exact Function.update_of_ne hj _ _

theorem releaseBlock_start (hsize : 0 < a.itemSize) (hfits : a.Fits (a.buffer + i * a.itemSize))
    (hi : (i : ℤ) < a.sizeMax) :
    a.releaseBlock (a.buffer + i * a.itemSize) = a.attachFirst i := by
  have hoff : a.buffer + i * a.itemSize - a.buffer = i * a.itemSize := by omega
  have hdiv : (i * a.itemSize : ℤ).tdiv a.itemSize = i := Int.mul_tdiv_cancel _ (by omega)
  have hwrap := wrapInt_of_fits hfits
  rw [hoff] at hwrap
  unfold releaseBlock
  simp only [hoff,hwrap,Int.mul_tmod_left,hdiv]
  rw [if_neg (by simp),if_neg (by omega),Int.toNat_natCast]

theorem releaseBlock_refused (hfits : a.Fits block)
    (hnot : ∀ i : ℕ, (i : ℤ) < a.sizeMax → block ≠ a.buffer + i * a.itemSize) :
    (a.releaseBlock block).1 ≠ .success ∧ (a.releaseBlock block).2 = a := by
  unfold releaseBlock
  simp only [wrapInt_of_fits hfits]
  split
  · exact ⟨nofun,rfl⟩
  · rename_i haligned
    split
    · exact ⟨nofun,rfl⟩
    · rename_i hrange
      have hmul := Int.tdiv_mul_cancel (Int.dvd_of_tmod_eq_zero (not_not.mp haligned))
      refine absurd ?_ (hnot ((block - a.buffer).tdiv a.itemSize).toNat (by omega))
      rw [Int.toNat_of_nonneg (by omega),hmul]
      omega

/-- The client's record of a run and the allocator agree on the `n` blocks of the given
size from the address `memory` on. -/
structure Client.Exact (s : Client) (memory size : ℤ) (n : ℕ) : Prop where
  sound : ∃ chain, s.allocator.Sound chain
  buffer : s.allocator.buffer = memory
  itemSize : s.allocator.itemSize = size
  sizeMax : s.allocator.sizeMax = n
  liveNodup : s.live.Nodup
  live : ∀ block, block ∈ s.live ↔
    ∃ i : ℕ, i < n ∧ s.allocator.freeList i = detachedIdx ∧ block = memory + i * size

theorem start_injective (hsize : 0 < size) {j : ℕ} (h : memory + i * size = memory + j * size) :
    i = j := by
  have hmul : (i : ℤ) * size = j * size := by omega
  exact_mod_cast Int.eq_of_mul_eq_mul_right hsize.ne' hmul

theorem Client.Exact.start_mem (h : s.Exact memory size n) (hsize : 0 < size) (hi : i < n) :
    memory + i * size ∈ s.live ↔ s.allocator.freeList i = detachedIdx := by
  rw [h.live]
  constructor
  · rintro ⟨j,_,hj,heq⟩
    rwa [start_injective hsize heq]
  · exact fun hm => ⟨i,hi,hm,rfl⟩

/-- An allocation either finds no free block or hands out a block that was not live. -/
theorem Client.Exact.getBlock (h : s.Exact memory size n) (hsize : 0 < size) :
    (s.allocator.getBlock = none ∧ ∀ i < n, memory + i * size ∈ s.live) ∨
    ∃ (i : ℕ) (a : PoolAllocator), i < n ∧ memory + i * size ∉ s.live ∧
      s.allocator.getBlock = some (memory + i * size,a) ∧
      (⟨a,(memory + i * size) :: s.live⟩ : Client).Exact memory size n := by
  obtain ⟨chain,hc⟩ := h.sound
  cases chain with
  | nil =>
    refine Or.inl ⟨?_,?_⟩
    · unfold PoolAllocator.getBlock
      rw [hc.detachFirst_eq_none.mpr rfl]
      rfl
    · intro i hi
      refine (h.start_mem hsize hi).mpr (hc.marked i ?_ List.not_mem_nil)
      rw [h.sizeMax]
      exact_mod_cast hi
  | cons i chain =>
    obtain ⟨b,hb,hsound,hlist,hmax⟩ := hc.detachFirst_cons
    obtain ⟨hbuf,hitem,_⟩ := detachFirst_eq_some hb
    have hi : i < n := by
      have hr := hc.inRange i List.mem_cons_self
      rw [h.sizeMax] at hr
      exact_mod_cast hr
    have hfresh : memory + i * size ∉ s.live := by
      rw [h.start_mem hsize hi]
      exact hc.not_marked List.mem_cons_self
    refine Or.inr ⟨i,b,hi,hfresh,?_,?_⟩
    · unfold PoolAllocator.getBlock
      rw [hb,Option.map_some,h.buffer,h.itemSize]
    · constructor
      · exact ⟨chain,hsound⟩
      · exact hbuf.trans h.buffer
      · exact hitem.trans h.itemSize
      · exact hmax.trans h.sizeMax
      · exact List.nodup_cons.mpr ⟨hfresh,h.liveNodup⟩
      · intro block
        rw [List.mem_cons,h.live block,hlist]
        constructor
        · rintro (rfl | ⟨j,hj,hm,rfl⟩)
          · exact ⟨i,hi,Function.update_self _ _ _,rfl⟩
          · refine ⟨j,hj,?_,rfl⟩
            by_cases hji : j = i
            · subst hji
              exact Function.update_self _ _ _
            · rwa [Function.update_of_ne hji]
        · rintro ⟨j,hj,hm,rfl⟩
          by_cases hji : j = i
          · subst hji
            exact Or.inl rfl
          · rw [Function.update_of_ne hji] at hm
            exact Or.inr ⟨j,hj,hm,rfl⟩

/-- A release takes back a live block, and refuses every other pointer. -/
theorem Client.Exact.releaseBlock (h : s.Exact memory size n) (hsize : 0 < size)
    (hfits : s.allocator.Fits block) :
    (block ∈ s.live ∧ (s.allocator.releaseBlock block).1 = .success ∧
      (⟨(s.allocator.releaseBlock block).2,s.live.erase block⟩ : Client).Exact memory size n) ∨
    block ∉ s.live ∧ (s.allocator.releaseBlock block).1 ≠ .success ∧
      (s.allocator.releaseBlock block).2 = s.allocator := by
  obtain ⟨chain,hc⟩ := h.sound
  by_cases hstart : ∃ i : ℕ, i < n ∧ block = memory + i * size
  · obtain ⟨i,hi,rfl⟩ := hstart
    have hmax : (i : ℤ) < s.allocator.sizeMax := by
      rw [h.sizeMax]
      exact_mod_cast hi
    have heq : s.allocator.releaseBlock (memory + i * size) = s.allocator.attachFirst i := by
      rw [← h.buffer,← h.itemSize] at hfits ⊢
      rw [← h.itemSize] at hsize
      exact releaseBlock_start hsize hfits hmax
    rw [heq,h.start_mem hsize hi]
    by_cases hm : s.allocator.freeList i = detachedIdx
    · obtain ⟨hok,hsound⟩ := hc.attachFirst hmax hm
      obtain ⟨hbuf,hitem,hsmax⟩ := attachFirst_same s.allocator i
      refine Or.inl ⟨hm,hok,?_⟩
      constructor
      · exact ⟨i :: chain,hsound⟩
      · exact hbuf.trans h.buffer
      · exact hitem.trans h.itemSize
      · exact hsmax.trans h.sizeMax
      · exact h.liveNodup.erase _
      · intro block
        rw [h.liveNodup.mem_erase_iff,h.live block]
        constructor
        · rintro ⟨hne,j,hj,hmj,rfl⟩
          have hji : j ≠ i := by
            rintro rfl
            exact hne rfl
          exact ⟨j,hj,(attachFirst_freeList hm hji).trans hmj,rfl⟩
        · rintro ⟨j,hj,hmj,rfl⟩
          have hji : j ≠ i := by
            rintro rfl
            exact hsound.not_marked List.mem_cons_self hmj
          rw [attachFirst_freeList hm hji] at hmj
          exact ⟨fun he => hji (start_injective hsize he),j,hj,hmj,rfl⟩
    · refine Or.inr ⟨hm,?_⟩
      rw [PoolAllocator.attachFirst,if_pos hm]
      exact ⟨nofun,rfl⟩
  · refine Or.inr ⟨?_,releaseBlock_refused hfits ?_⟩
    · rw [h.live]
      exact fun ⟨i,hi,_,hb⟩ => hstart ⟨i,hi,hb⟩
    · intro i hi hb
      rw [h.sizeMax] at hi
      rw [h.buffer,h.itemSize] at hb
      exact hstart ⟨i,by exact_mod_cast hi,hb⟩

theorem Client.Exact.serve (h : s.Exact memory size n) (hsize : 0 < size) {q : Request}
    (hq : s.Admissible q) : (s.serve q).Exact memory size n := by
  cases q with
  | getBlock =>
    unfold Client.serve
    rcases h.getBlock hsize with ⟨hnone,_⟩ | ⟨i,a,_,_,hsome,hexact⟩
    · simp only [hnone]
      exact h
    · simp only [hsome]
      exact hexact
  | releaseBlock block =>
    unfold Client.serve
    rcases h.releaseBlock hsize hq with ⟨_,hok,hexact⟩ | ⟨_,herr,hsame⟩
    · simp only [if_pos hok]
      exact hexact
    · simp only [if_neg herr,hsame]
      exact h

/-- Along every run of a client the record is exact. -/
theorem exact_of_reach (hsize : 0 < size)
    (hinit : ∃ chain, a.Sound chain ∧ (∀ i < n, i ∈ chain))
    (hmemory : a.buffer = memory) (hitem : a.itemSize = size) (hmax : a.sizeMax = n)
    (hs : Transitions.Reach (clients a) Client.Admissible s) : s.Exact memory size n := by
  refine Transitions.Reach.invariant (I := fun s => s.Exact memory size n) ?_ ?_ hs
  · rintro s rfl
    obtain ⟨chain,hc,hall⟩ := hinit
    refine ⟨⟨chain,hc⟩,hmemory,hitem,hmax,List.nodup_nil,fun block => ?_⟩
    refine iff_of_false List.not_mem_nil ?_
    rintro ⟨i,hi,hm,_⟩
    exact hc.not_marked (hall i hi) hm
  · rintro s q t h hq rfl
    exact h.serve hsize hq

end PoolAllocator

namespace Pool
variable {n : ℕ}

/-- The kernel takes a block by its index where the code computes its address. -/
theorem getBlock_allocator (p : Pool n) : p.allocator.getBlock =
    p.getBlock.map (fun r => (p.allocator.buffer + r.1 * p.allocator.itemSize,r.2.allocator)) := by
  unfold PoolAllocator.getBlock getBlock
  split
  · rename_i hnone
    rw [hnone]
    rfl
  · rename_i i a hsome
    exact congrArg (Option.map _) hsome

/-- The kernel gives a block back by its index where the code computes it from the address. -/
theorem releaseBlock_allocator (p : Pool n) {i : ℕ} (hsize : 0 < p.allocator.itemSize)
    (hi : i < n) (hfits : p.allocator.Fits (p.allocator.buffer + i * p.allocator.itemSize)) :
    (p.allocator.releaseBlock (p.allocator.buffer + i * p.allocator.itemSize)).2 =
      (p.releaseBlock i).allocator := by
  have hmax : (i : ℤ) < p.allocator.sizeMax := by
    rw [p.sizeMax_eq]
    exact_mod_cast hi
  rw [PoolAllocator.releaseBlock_start hsize hfits hmax]
  unfold releaseBlock
  by_cases hm : p.allocator.freeList i = detachedIdx
  · rw [dif_pos ⟨hi,hm⟩]
  · rw [dif_neg (fun hal => hm hal.2),PoolAllocator.attachFirst,if_pos hm]

/-- The kernel's pools start as an accepted initialisation leaves the allocator. -/
theorem full_allocator (hn : 0 < n) {a b : PoolAllocator} {itemSize memory memorySize : ℤ}
    {cells : ℕ → ℤ} (h : a.init itemSize n memory memorySize cells = (.success,b)) :
    b.firstIdx = (full n hn).allocator.firstIdx ∧ b.size = (full n hn).allocator.size ∧
      ∀ i < n, b.freeList i = (full n hn).allocator.freeList i := by
  refine ⟨?_,?_,PoolAllocator.init_freeList hn h⟩
  all_goals
    unfold PoolAllocator.init at h
    simp only at h
    split at h
    · cases h
    · cases h
      rfl

end Pool

open PoolAllocator FreeChain in
/-- In every run of a client, from an accepted initialisation on and with whatever
pointers: the memory holds the items and the index array; the free chain ends, repeats
nothing, has `size` elements and holds exactly the cells that are not marked; an
allocation fails only when all blocks are live, and otherwise returns one that is not;
a release succeeds exactly on the live blocks, and otherwise changes nothing. -/
theorem allocator_partitioned {itemSize numItems memory memorySize : ℤ} {cells : ℕ → ℤ}
    {a₀ a : PoolAllocator} (hsize : 1 ≤ itemSize) (hnum : 1 ≤ numItems)
    (hfits : numItems * (itemSize + 4) < 2147483648)
    (hinit : a₀.init itemSize numItems memory memorySize cells = (.success,a)) {s : Client}
    (hs : Transitions.Reach (clients a) Client.Admissible s) :
    numItems * (itemSize + 4) ≤ memorySize ∧
    (∃ chain : List ℕ, Chain s.allocator.freeList s.allocator.firstIdx chain ∧ chain.Nodup ∧
      s.allocator.size = chain.length ∧ (∀ i ∈ chain, (i : ℤ) < numItems) ∧
      ∀ i : ℕ, (i : ℤ) < numItems → (i ∈ chain ↔ s.allocator.freeList i ≠ -2)) ∧
    (s.live.Nodup ∧ ∀ block ∈ s.live, ∃ i : ℕ, (i : ℤ) < numItems ∧
      block = memory + i * itemSize) ∧
    (s.allocator.getBlock = none ↔
      ∀ i : ℕ, (i : ℤ) < numItems → memory + i * itemSize ∈ s.live) ∧
    (∀ block b, s.allocator.getBlock = some (block,b) → block ∉ s.live ∧
      ∃ i : ℕ, (i : ℤ) < numItems ∧ block = memory + i * itemSize) ∧
    ∀ block, s.allocator.Fits block →
      ((s.allocator.releaseBlock block).1 = .success ↔ block ∈ s.live) ∧
      ((s.allocator.releaseBlock block).1 ≠ .success →
        (s.allocator.releaseBlock block).2 = s.allocator) := by
  obtain ⟨n,rfl⟩ := Int.eq_ofNat_of_zero_le (show 0 ≤ numItems by omega)
  obtain ⟨hsound,hbuf,hitem,hmax⟩ := init_sound (by omega) hinit
  have hall : ∃ chain, a.Sound chain ∧ ∀ i < n, i ∈ chain := by
    refine ⟨_,hsound,fun i hi => ?_⟩
    simp only [List.mem_range'_1]
    omega
  have h := exact_of_reach (by omega) hall hbuf hitem hmax hs
  have hlt : ∀ i : ℕ, (i : ℤ) < n ↔ i < n := fun i => by omega
  simp only [hlt]
  refine ⟨init_memory hfits (Int.mul_nonneg (by omega) (by omega)) hinit,?_,⟨h.liveNodup,?_⟩,?_,?_,?_⟩
  · obtain ⟨chain,hc⟩ := h.sound
    refine ⟨chain,hc.links,hc.nodup,hc.length,?_,?_⟩
    · intro i hi
      have hr := hc.inRange i hi
      rw [h.sizeMax] at hr
      exact_mod_cast hr
    · intro i hi
      refine ⟨hc.not_marked,fun hm => ?_⟩
      by_contra hnot
      refine hm (hc.marked i ?_ hnot)
      rw [h.sizeMax]
      exact_mod_cast hi
  · intro block hb
    obtain ⟨i,hi,_,rfl⟩ := (h.live block).mp hb
    exact ⟨i,hi,rfl⟩
  · rcases h.getBlock (by omega) with ⟨hnone,hlive⟩ | ⟨i,b,hi,hfresh,hsome,_⟩
    · exact iff_of_true hnone hlive
    · exact iff_of_false (by simp [hsome]) (fun hlive => hfresh (hlive i hi))
  · intro block b hget
    rcases h.getBlock (by omega) with ⟨hnone,_⟩ | ⟨i,b',hi,hfresh,hsome,_⟩
    · rw [hnone] at hget
      cases hget
    · rw [hsome] at hget
      cases hget
      exact ⟨hfresh,i,hi,rfl⟩
  · intro block hb
    rcases h.releaseBlock (by omega) hb with ⟨hlive,hok,_⟩ | ⟨hlive,herr,hsame⟩
    · exact ⟨iff_of_true hok hlive,fun herr => absurd hok herr⟩
    · exact ⟨iff_of_false herr hlive,fun _ => hsame⟩

open PoolAllocator in
/-- Three items of eight bytes at the address 1000: two are handed out, the first one is
released twice, and a pointer into the second one is refused. -/
theorem allocator_partitioned_run : ∃ s : Client, s.live = [1008] ∧
    (∃ chain : List ℕ, chain.Nodup ∧ s.allocator.size = chain.length ∧
      ∀ i : ℕ, (i : ℤ) < 3 → (i ∈ chain ↔ s.allocator.freeList i ≠ -2)) ∧
    ∀ block, s.allocator.Fits block →
      ((s.allocator.releaseBlock block).1 = .success ↔ block ∈ s.live) := by
  let blank : PoolAllocator := ⟨0,fun _ => 0,0,0,0,0,0⟩
  have hinit : blank.init 8 3 1000 36 (fun _ => 0) =
      (.success,(blank.init 8 3 1000 36 (fun _ => 0)).2) := rfl
  let start : Client := ⟨(blank.init 8 3 1000 36 (fun _ => 0)).2,[]⟩
  let run := fun (s : Client) (q : Request) => (.ok (s.serve q) : Except Unit Client)
  let guard := fun (s : Client) (q : Request) => decide (s.Admissible q)
  let requests : List Request :=
    [.getBlock,.getBlock,.releaseBlock 1000,.releaseBlock 1000,.releaseBlock 1012]
  have hcheck : (Transitions.runUnder run guard start requests).any
      (fun s => s.live = [1008]) = true := by decide
  obtain ⟨s,hrun,hlive⟩ := (Option.any_eq_true _ _).mp hcheck
  have hs : Transitions.Reach (clients start.allocator) Client.Admissible s := by
    refine Transitions.runUnder_reach run guard ?_ (fun _ _ hg => of_decide_eq_true hg)
      (.initial (s := start) rfl) hrun
    intro s q t ht
    exact (Except.ok.inj ht).symm
  obtain ⟨_,⟨chain,_,hnodup,hlen,_,hchain⟩,_,_,_,hrel⟩ :=
    allocator_partitioned (by decide) (by decide) (by decide) hinit hs
  exact ⟨s,of_decide_eq_true hlive,⟨chain,hnodup,hlen,hchain⟩,fun block hb => (hrel block hb).1⟩

end DisastrOS
