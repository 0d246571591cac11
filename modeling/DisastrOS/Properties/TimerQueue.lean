import DisastrOS.Foundation.Alarms
import DisastrOS.Foundation.Transitions
import DisastrOS.Kernel.TimerList
import DisastrOS.Properties.ListOps

/-! # The timer list is a stable queue

The scan stops behind the items that are not later, so that the list stays in the order of the
times and, among equal times, in the order of the calls. The kernel's own timer list is what
the head holds.
-/
namespace DisastrOS

namespace Timers

/-- The head holds this list of allocated blocks. -/
structure Holds (s : Timers) (l : List ℕ) : Prop where
  list : s.heap.Holds (fun _ => l)
  allocated : ∀ i ∈ l, s.allocator.Allocated i

/-- The list with a new item between those that are not later and those that are, which is
sorted again. -/
def AddsSorted (s : Timers) (l : List ℕ) (t : ℤ) (pcb : ℕ) : Prop :=
  ∃ i front back s', (∀ n, l.length ≤ n → s.timerListAdd t pcb n = some (some i,s')) ∧
    l = front ++ back ∧ s'.Holds (front ++ i :: back) ∧
    (front ++ i :: back).Pairwise (fun x y => s'.awakeningTime x ≤ s'.awakeningTime y) ∧
    (∀ x ∈ front, s.awakeningTime x ≤ t) ∧ (∀ x ∈ back, t < s.awakeningTime x) ∧
    s'.awakeningTime = Function.update s.awakeningTime i t ∧ s'.pcb = Function.update s.pcb i pcb

variable {s s' : Timers} {l : List ℕ} {t : ℤ} {pcb i n : ℕ} {pool : Pool maxNumProcesses}

/-- The scan of a chain ends at its end or in front of the first item that is later. -/
theorem scan_eq {previousItem : Option ℕ} (hl : Links.Chained s.heap.next l none)
    (hn : l.length ≤ n) : s.scan t n l.head? previousItem =
      some ((l.takeWhile (fun x => s.awakeningTime x ≤ t)).getLast?.or previousItem) := by
  induction l generalizing n previousItem with
  | nil => cases n <;> rfl
  | cons x l ih =>
    obtain ⟨m,rfl⟩ : ∃ m, n = m + 1 := ⟨n - 1,by simp at hn; omega⟩
    have hnext := hl.1
    rw [Option.or_none] at hnext
    simp only [List.head?_cons,scan]
    by_cases hlater : t < s.awakeningTime x
    · rw [if_pos hlater,List.takeWhile_cons_of_neg (by simpa using hlater)]
      rfl
    · rw [if_neg hlater,hnext,ih hl.2 (by simpa using hn),
        List.takeWhile_cons_of_pos (by simpa using hlater),List.getLast?_cons]
      cases (l.takeWhile (fun x => s.awakeningTime x ≤ t)).getLast? <;> rfl

/-- The place of a new item is that of a new alarm. -/
theorem map_listInsert (time : ℕ → ℤ) (hl : l.Nodup) (hi : i ∉ l) :
    (listInsert l (l.takeWhile (fun x => time x ≤ t)).getLast? i).map
      (fun j => (j,Function.update time i t j)) = Alarms.set (l.map fun j => (j,time j)) (i,t) := by
  have hsame : ∀ j ∈ l, (j,Function.update time i t j) = (j,time j) := by
    intro j hj
    rw [update_of_not_mem hi hj]
  have hset := Alarms.map_set (x := i) hsame
  rw [Function.update_self] at hset
  rw [listInsert_takeWhile hl]
  exact hset

namespace Holds

theorem scan_first (hs : s.Holds l) (hn : l.length ≤ n) : s.scan t n (s.heap.first ()) none =
    some (l.takeWhile (fun x => s.awakeningTime x ≤ t)).getLast? := by
  rw [hs.list.first,scan_eq (hs.list.linked ()).forward hn,Option.or_none]

theorem unique {l' : List ℕ} (hs : s.Holds l) (hs' : s.Holds l') : l = l' :=
  (hs.list.linked ()).forward.unique (hs'.list.linked ()).forward
    ((hs.list.first ()).symm.trans (hs'.list.first ()))

theorem timerListAdd_none (hs : s.Holds l) (hn : l.length ≤ n)
    (hb : s.allocator.getBlock = none) : s.timerListAdd t pcb n = some (none,s) := by
  unfold timerListAdd timerItemAlloc
  rw [hs.scan_first hn,hb]

theorem timerListAdd_some (hs : s.Holds l) (hb : s.allocator.getBlock = some (i,pool)) (t : ℤ)
    (pcb : ℕ) :
    ∃ s', (∀ n, l.length ≤ n → s.timerListAdd t pcb n = some (some i,s')) ∧
      s'.Holds (listInsert l (l.takeWhile (fun x => s.awakeningTime x ≤ t)).getLast? i) ∧
      s'.awakeningTime = Function.update s.awakeningTime i t ∧
      s'.pcb = Function.update s.pcb i pcb ∧ s'.allocator = pool := by
  obtain ⟨hfree,_,hal⟩ := Pool.getBlock_eq_some hb
  have hi : i ∉ l := fun hmem => hfree (hs.allocated i hmem)
  have hprev : ∀ p ∈ (l.takeWhile (fun x => s.awakeningTime x ≤ t)).getLast?, p ∈ l :=
    fun p hp => (List.takeWhile_sublist _).subset (List.mem_of_getLast? hp)
  obtain ⟨heap,hins⟩ := (hs.list.clear fun _ => hi).inserts () hprev
    (ListHeap.Holds.unlinked_clear fun _ => hi)
  have hheap := hins.holds
  rw [Function.update_eq_const_of_subsingleton] at hheap
  refine ⟨⟨heap,Function.update s.awakeningTime i t,Function.update s.pcb i pcb,pool⟩,?_,
    ⟨hheap,?_⟩,rfl,rfl,rfl⟩
  · intro n hn
    unfold timerListAdd timerItemAlloc
    rw [hs.scan_first hn,hb]
    simp only [hins.result]
  · intro j hj
    have hmem := (listInsert_perm hprev i).mem_iff.mp hj
    exact (hal j).mpr ((List.mem_cons.mp hmem).imp_right (hs.allocated j))

theorem timerListAdd_sorted (hs : s.Holds l)
    (hsorted : l.Pairwise fun x y => s.awakeningTime x ≤ s.awakeningTime y)
    (hb : s.allocator.getBlock = some (i,pool)) : s.AddsSorted l t pcb := by
  obtain ⟨s',hadd,hholds,htime,hpcb,_⟩ := hs.timerListAdd_some hb t pcb
  have hnodup := (hs.list.linked ()).nodup
  have hi : i ∉ l := fun hi => (Pool.getBlock_eq_some hb).1 (hs.allocated i hi)
  have hmap := map_listInsert (t := t) s.awakeningTime hnodup hi
  have hsort : Alarms.Sorted (l.map fun j => (j,s.awakeningTime j)) := List.pairwise_map.mpr hsorted
  have hset := hsort.set (i,t)
  rw [← hmap,← htime] at hset
  have hsorted' := List.pairwise_map.mp hset
  rw [listInsert_takeWhile hnodup] at hholds hsorted'
  refine ⟨i,_,_,s',hadd,List.takeWhile_append_dropWhile.symm,hholds,hsorted',?_,?_,htime,hpcb⟩
  · intro x hx
    simpa using List.mem_takeWhile_imp hx
  · intro x hx
    rw [Alarms.dropWhile_eq_filter hsorted] at hx
    simpa using (List.mem_filter.mp hx).2

theorem timerListRemoveCurrent (hs : s.Holds (i :: l)) :
    ∃ s', s.timerListRemoveCurrent = .ok s' ∧ s'.Holds l ∧ s'.awakeningTime = s.awakeningTime ∧
      s'.pcb = s.pcb ∧ s'.allocator = s.allocator.releaseBlock i := by
  obtain ⟨heap,hd⟩ := hs.list.detaches () List.mem_cons_self
  have hheap := hd.holds
  rw [Function.update_eq_const_of_subsingleton,List.erase_cons_head] at hheap
  refine ⟨⟨heap,s.awakeningTime,s.pcb,s.allocator.releaseBlock i⟩,?_,⟨hheap,?_⟩,rfl,rfl,rfl⟩
  · unfold Timers.timerListRemoveCurrent
    rw [hs.list.first,List.head?_cons,hd.result,ok_bind]
  · intro j hj
    have hne : j ≠ i := by
      rintro rfl
      exact (List.nodup_cons.mp (hs.list.linked ()).nodup).1 hj
    exact (Pool.allocated_releaseBlock (hs.allocated i List.mem_cons_self) j).mpr
      ⟨hne,hs.allocated j (List.mem_cons_of_mem i hj)⟩

theorem timerListCurrent_cons (hs : s.Holds (i :: l)) :
    s.timerListCurrent t = if s.awakeningTime i ≤ t then some i else none := by
  unfold Timers.timerListCurrent
  rw [hs.list.first,List.head?_cons]

theorem timerListCurrent_nil (hs : s.Holds []) : s.timerListCurrent t = none := by
  unfold Timers.timerListCurrent
  rw [hs.list.first,List.head?_nil]

end Holds

/-- The timer list of a kernel state, with all that belongs to it. -/
structure Implements (s : Timers) (k : Kernel) : Prop where
  holds : s.Holds k.timerList
  awakeningTime : s.awakeningTime = k.awakeningTime
  pcb : s.pcb = k.timerPcb
  allocator : s.allocator = k.timerItemAllocator

namespace Implements

variable {k k' : Kernel}

/-- The kernel's `TimerList_add` is done by the one in memory. -/
theorem timerListAdd (hs : s.Implements k) (hn : k.timerList.length ≤ n) :
    match k.timerListAdd t pcb with
    | none => s.timerListAdd t pcb n = some (none,s)
    | some k' => ∃ i s', s.timerListAdd t pcb n = some (some i,s') ∧ s'.Implements k' := by
  simp only [Kernel.timerListAdd,Kernel.timerItemAlloc]
  cases hb : k.timerItemAllocator.getBlock with
  | none => exact hs.holds.timerListAdd_none hn (hs.allocator ▸ hb)
  | some p =>
    obtain ⟨i,pool⟩ := p
    obtain ⟨s',hadd,hholds,htime,hpcb,halloc⟩ :=
      hs.holds.timerListAdd_some (hs.allocator ▸ hb) t pcb
    rw [hs.awakeningTime] at htime
    rw [hs.pcb] at hpcb
    refine ⟨i,s',hadd n hn,?_,htime,hpcb,halloc⟩
    simpa only [hs.awakeningTime,not_lt] using hholds

theorem timerListCurrent (hs : s.Implements k) :
    s.timerListCurrent k.disastrOSTime = k.timerListCurrent := by
  have hholds := hs.holds
  unfold Kernel.timerListCurrent
  cases hl : k.timerList with
  | nil =>
    rw [hl] at hholds
    exact hholds.timerListCurrent_nil
  | cons i l =>
    rw [hl] at hholds
    rw [hholds.timerListCurrent_cons,hs.awakeningTime]

theorem timerListRemoveCurrent (hs : s.Implements k) (hok : k.timerListRemoveCurrent = .ok k') :
    ∃ s', s.timerListRemoveCurrent = .ok s' ∧ s'.Implements k' := by
  have hholds := hs.holds
  unfold Kernel.timerListRemoveCurrent at hok
  cases hl : k.timerList with
  | nil =>
    rw [hl] at hok
    cases hok
  | cons i l =>
    rw [hl] at hok hholds
    rw [List.head?_cons,listDetach_cons,ok_bind] at hok
    cases hok
    obtain ⟨s',hrem,hholds',htime,hpcb,halloc⟩ := hholds.timerListRemoveCurrent
    refine ⟨s',hrem,hholds',htime.trans hs.awakeningTime,hpcb.trans hs.pcb,?_⟩
    rw [halloc,hs.allocator]
    rfl

end Implements

/-- The timers, with the number of the call that has set each item and the number of calls. -/
structure Stamped where
  timers : Timers
  stamp : ℕ → ℕ
  adds : ℕ

inductive TimerCall
  | add (awakeningTime : ℤ) (pcb : ℕ)
  | removeCurrent

/-- The calls on a timer list that is empty at first. The loop of `TimerList_add` ends, and the
current item is only removed if there is one. -/
def timerCalls : Transitions.System Stamped TimerCall where
  Initial s := s.timers.Holds []
  Step
    | s, .add awakeningTime pcb, s' => ∃ newItem timers,
        Links.Returns (s.timers.timerListAdd awakeningTime pcb) (newItem,timers) ∧
        s' = match newItem with
          | some i => ⟨timers,Function.update s.stamp i s.adds,s.adds + 1⟩
          | none => ⟨timers,s.stamp,s.adds⟩
    | s, .removeCurrent, s' => s.timers.heap.first () ≠ none ∧
        ∃ timers, s.timers.timerListRemoveCurrent = .ok timers ∧ s' = { s with timers := timers }

namespace Stamped

/-- The list is in the order of the times and, among equal times, of the calls. -/
structure InOrder (s : Stamped) (l : List ℕ) : Prop where
  holds : s.timers.Holds l
  ordered : Alarms.OrderedBy (fun i j => s.stamp i < s.stamp j)
    (l.map fun i => (i,s.timers.awakeningTime i))
  stamps : ∀ i ∈ l, s.stamp i < s.adds

variable {s s' : Stamped} {l : List ℕ} {c : TimerCall}

theorem InOrder.add {t : ℤ} {i : ℕ} {timers : Timers} (hs : s.InOrder l) (hi : i ∉ l)
    (hholds : timers.Holds
      (listInsert l (l.takeWhile (fun x => s.timers.awakeningTime x ≤ t)).getLast? i))
    (htime : timers.awakeningTime = Function.update s.timers.awakeningTime i t) :
    InOrder ⟨timers,Function.update s.stamp i s.adds,s.adds + 1⟩
      (listInsert l (l.takeWhile (fun x => s.timers.awakeningTime x ≤ t)).getLast? i) := by
  have hprev : ∀ p ∈ (l.takeWhile (fun x => s.timers.awakeningTime x ≤ t)).getLast?, p ∈ l :=
    fun p hp => (List.takeWhile_sublist _).subset (List.mem_of_getLast? hp)
  have hnew : Stamped.stamp ⟨timers,Function.update s.stamp i s.adds,s.adds + 1⟩ i = s.adds :=
    Function.update_self _ _ _
  have hold : ∀ j ∈ l, Stamped.stamp ⟨timers,Function.update s.stamp i s.adds,s.adds + 1⟩ j =
      s.stamp j := fun j hj => update_of_not_mem hi hj _ _
  refine ⟨hholds,?_,?_⟩
  · have hmem : ∀ a ∈ l.map (fun j => (j,s.timers.awakeningTime j)), a.1 ∈ l := by
      intro a ha
      obtain ⟨j,hj,rfl⟩ := List.mem_map.mp ha
      exact hj
    rw [htime,map_listInsert _ (hs.holds.list.linked ()).nodup hi]
    refine Alarms.OrderedBy.set (hs.ordered.imp ?_) ?_
    · intro a ha b hb hab
      rwa [hold a.1 (hmem a ha),hold b.1 (hmem b hb)]
    · intro b hb
      rw [hold b.1 (hmem b hb),hnew]
      exact hs.stamps b.1 (hmem b hb)
  · intro j hj
    rcases List.mem_cons.mp ((listInsert_perm hprev i).mem_iff.mp hj) with rfl | hj
    · rw [hnew]
      exact Nat.lt_succ_self _
    · rw [hold j hj]
      exact (hs.stamps j hj).trans (Nat.lt_succ_self _)

theorem InOrder.removeCurrent {i : ℕ} {timers : Timers} (hs : s.InOrder (i :: l))
    (hholds : timers.Holds l) (htime : timers.awakeningTime = s.timers.awakeningTime) :
    InOrder { s with timers := timers } l := by
  refine ⟨hholds,?_,fun j hj => hs.stamps j (List.mem_cons_of_mem i hj)⟩
  rw [htime]
  exact (List.pairwise_cons.mp hs.ordered).2

theorem InOrder.step (hs : s.InOrder l) (hstep : timerCalls.Step s c s') :
    ∃ l', s'.InOrder l' := by
  cases c with
  | add t pcb =>
    obtain ⟨newItem,timers,hadd,rfl⟩ := hstep
    cases hb : s.timers.allocator.getBlock with
    | none =>
      have hnone : Links.Returns (s.timers.timerListAdd t pcb) (none,s.timers) :=
        ⟨l.length,fun m hm => hs.holds.timerListAdd_none hm hb⟩
      cases hadd.unique hnone
      exact ⟨l,hs⟩
    | some p =>
      obtain ⟨i,pool⟩ := p
      obtain ⟨timers',hadd',hholds,htime,_,_⟩ := hs.holds.timerListAdd_some hb t pcb
      cases hadd.unique ⟨l.length,hadd'⟩
      have hi : i ∉ l := fun hi => (Pool.getBlock_eq_some hb).1 (hs.holds.allocated i hi)
      exact ⟨_,hs.add hi hholds htime⟩
  | removeCurrent =>
    obtain ⟨hfirst,timers,hremove,rfl⟩ := hstep
    cases l with
    | nil => exact absurd (hs.holds.list.first ()) hfirst
    | cons i l =>
      obtain ⟨timers',hremove',hholds,htime,_,_⟩ := hs.holds.timerListRemoveCurrent
      rw [hremove'] at hremove
      cases hremove
      exact ⟨l,hs.removeCurrent hholds htime⟩

theorem InOrder.exists_step (hs : s.InOrder l)
    (hfirst : c = .removeCurrent → s.timers.heap.first () ≠ none) :
    ∃ s', timerCalls.Step s c s' := by
  cases c with
  | add t pcb =>
    cases hb : s.timers.allocator.getBlock with
    | none =>
      exact ⟨_,none,s.timers,⟨l.length,fun m hm => hs.holds.timerListAdd_none hm hb⟩,rfl⟩
    | some p =>
      obtain ⟨i,pool⟩ := p
      obtain ⟨timers,hadd,_⟩ := hs.holds.timerListAdd_some hb t pcb
      exact ⟨_,some i,timers,⟨l.length,hadd⟩,rfl⟩
  | removeCurrent =>
    cases l with
    | nil => exact absurd (hs.holds.list.first ()) (hfirst rfl)
    | cons i l =>
      obtain ⟨timers,hremove,_⟩ := hs.holds.timerListRemoveCurrent
      exact ⟨_,hfirst rfl,timers,hremove,rfl⟩

theorem exists_inOrder (hr : Transitions.Reach timerCalls Transitions.unguarded s) :
    ∃ l, s.InOrder l := by
  refine hr.invariant (I := fun s => ∃ l, InOrder s l) ?_ ?_
  · intro s hi
    exact ⟨[],hi,List.Pairwise.nil,nofun⟩
  · rintro s c t ⟨l,hs⟩ - hstep
    exact hs.step hstep

/-- There is a current item exactly if the time of some item has come, and then it is the
earliest one and, among those of its time, the one that was added first. -/
theorem InOrder.current (hs : s.InOrder l) (now : ℤ) :
    ((s.timers.timerListCurrent now).isSome ↔ ∃ i ∈ l, s.timers.awakeningTime i ≤ now) ∧
    ∀ i, s.timers.timerListCurrent now = some i → i ∈ l ∧ ∀ j ∈ l, j ≠ i →
      s.timers.awakeningTime i < s.timers.awakeningTime j ∨
      s.timers.awakeningTime i = s.timers.awakeningTime j ∧ s.stamp i < s.stamp j := by
  cases l with
  | nil =>
    rw [hs.holds.timerListCurrent_nil]
    simp
  | cons x l =>
    have hbehind : ∀ j ∈ l, s.timers.awakeningTime x < s.timers.awakeningTime j ∨
        s.timers.awakeningTime x = s.timers.awakeningTime j ∧ s.stamp x < s.stamp j :=
      fun j hj => (List.pairwise_cons.mp hs.ordered).1 _ (List.mem_map_of_mem hj)
    rw [hs.holds.timerListCurrent_cons]
    constructor
    · constructor
      · intro hsome
        refine ⟨x,List.mem_cons_self,?_⟩
        by_contra hlater
        rw [if_neg hlater] at hsome
        cases hsome
      · rintro ⟨j,hj,hle⟩
        have hx : s.timers.awakeningTime x ≤ now := by
          rcases List.mem_cons.mp hj with rfl | hj
          · exact hle
          · rcases hbehind j hj with hlt | ⟨heq,_⟩
            · exact hlt.le.trans hle
            · exact heq.trans_le hle
        rw [if_pos hx]
        rfl
    · intro i hi
      split at hi
      · cases hi
        refine ⟨List.mem_cons_self,?_⟩
        intro j hj hne
        exact hbehind j ((List.mem_cons.mp hj).resolve_left hne)
      · cases hi

end Stamped

end Timers

open Timers Stamped

/-- A new timer goes behind all those that are not later and in front of all those that are, and
without a block nothing is changed; a removal takes the first item off and gives its block back.
In every run of additions and removals, all of which return, there is a current item exactly if
the time of some item has come, and it is the earliest one and, among those of its time, the one
that was added first. -/
theorem timer_list_stable :
    (∀ (s : Timers) (l : List ℕ) (t : ℤ) (pcb : ℕ), s.Holds l →
      l.Pairwise (fun x y => s.awakeningTime x ≤ s.awakeningTime y) →
      (s.allocator.getBlock ≠ none → s.AddsSorted l t pcb) ∧
      (s.allocator.getBlock = none →
        ∀ n, l.length ≤ n → s.timerListAdd t pcb n = some (none,s))) ∧
    (∀ (s : Timers) (i : ℕ) (l : List ℕ), s.Holds (i :: l) →
      ∃ s', s.timerListRemoveCurrent = .ok s' ∧ s'.Holds l ∧ s'.awakeningTime = s.awakeningTime ∧
        s'.pcb = s.pcb ∧ s'.allocator = s.allocator.releaseBlock i) ∧
    ∀ s, Transitions.Reach timerCalls Transitions.unguarded s →
      (∀ c, (c = .removeCurrent → s.timers.heap.first () ≠ none) → ∃ s', timerCalls.Step s c s') ∧
      ∃ l, s.timers.Holds l ∧ ∀ now,
        ((s.timers.timerListCurrent now).isSome ↔ ∃ i ∈ l, s.timers.awakeningTime i ≤ now) ∧
        ∀ i, s.timers.timerListCurrent now = some i → i ∈ l ∧ ∀ j ∈ l, j ≠ i →
          s.timers.awakeningTime i < s.timers.awakeningTime j ∨
          s.timers.awakeningTime i = s.timers.awakeningTime j ∧ s.stamp i < s.stamp j := by
  refine ⟨?_,fun s i l hs => hs.timerListRemoveCurrent,?_⟩
  · intro s l t pcb hs hsorted
    constructor
    · intro hb
      obtain ⟨⟨i,pool⟩,hb⟩ := Option.ne_none_iff_exists'.mp hb
      exact hs.timerListAdd_sorted hsorted hb
    · exact fun hb n hn => hs.timerListAdd_none hn hb
  · intro s hr
    obtain ⟨l,hs⟩ := exists_inOrder hr
    exact ⟨fun c hfirst => hs.exists_step hfirst,l,hs.holds,hs.current⟩

/-- Two timers for the same time, of which the first one is current when it has come. Its removal
leaves the second one. -/
theorem timer_list_stable_run : ∃ s s' : Timers, s.Holds [0,1] ∧ s.awakeningTime 0 = 3 ∧
    s.awakeningTime 1 = 3 ∧ s.timerListCurrent 3 = some 0 ∧
    s.timerListRemoveCurrent = .ok s' ∧ s'.Holds [1] ∧ s'.awakeningTime 1 = 3 := by
  obtain ⟨p,q,hp,hq⟩ : ∃ p q,
      (Pool.full maxNumProcesses maxNumProcesses_pos).getBlock = some (0,p) ∧
      p.getBlock = some (1,q) := ⟨_,_,rfl,rfl⟩
  have hempty : Timers.Holds ⟨ListHeap.empty,fun _ => 0,fun _ => 0,
    Pool.full maxNumProcesses maxNumProcesses_pos⟩ [] := ⟨ListHeap.holds_empty,nofun⟩
  obtain ⟨s₁,hadd₁,hs₁,htime₁,_,halloc₁⟩ := hempty.timerListAdd_some hp 3 7
  obtain ⟨s₂,hadd₂,hs₂,htime₂,_,_⟩ := hs₁.timerListAdd_some (halloc₁ ▸ hq) 3 8
  have hs₁' : s₁.Holds [0] := hs₁
  have htime₀ : s₁.awakeningTime 0 = 3 := by rw [htime₁]; rfl
  have hs₂' : s₂.Holds [0,1] := by simpa [listInsert,insertAfter,htime₀] using hs₂
  have htimes : s₂.awakeningTime 0 = 3 ∧ s₂.awakeningTime 1 = 3 := by
    rw [htime₂]
    exact ⟨htime₀,rfl⟩
  have hstep₁ : timerCalls.Step ⟨_,fun _ => 0,0⟩ (.add 3 7)
    ⟨s₁,Function.update (fun _ => 0) 0 0,1⟩ := ⟨some 0,s₁,⟨0,hadd₁⟩,rfl⟩
  have hstep₂ : timerCalls.Step ⟨s₁,Function.update (fun _ => 0) 0 0,1⟩ (.add 3 8)
    ⟨s₂,Function.update (Function.update (fun _ => 0) 0 0) 1 1,2⟩ := ⟨some 1,s₂,⟨1,hadd₂⟩,rfl⟩
  have hinit : timerCalls.Initial ⟨_,fun _ => 0,0⟩ := hempty
  have hr := ((Transitions.Reach.initial hinit).step (G := Transitions.unguarded) trivial
    hstep₁).step trivial hstep₂
  obtain ⟨_,l,hl,hcurrent⟩ := timer_list_stable.2.2 _ hr
  obtain rfl := hl.unique hs₂'
  obtain ⟨hsome,hfirst⟩ := hcurrent 3
  obtain ⟨i,hi⟩ := Option.isSome_iff_exists.mp (hsome.mpr ⟨0,by simp,htimes.1.le⟩)
  obtain ⟨hmem,hbefore⟩ := hfirst i hi
  obtain ⟨s₃,hremove,hs₃,htime₃,_,_⟩ := timer_list_stable.2.1 s₂ 0 [1] hs₂'
  refine ⟨s₂,s₃,hs₂',htimes.1,htimes.2,?_,hremove,hs₃,htime₃ ▸ htimes.2⟩
  have hi0 : i = 0 := by
    by_contra hne
    obtain rfl : i = 1 := by simpa [hne] using hmem
    rcases hbefore 0 (by simp) (by decide) with hlt | ⟨_,hstamp⟩
    · exact absurd (htimes.1 ▸ htimes.2 ▸ hlt) (lt_irrefl _)
    · exact absurd hstamp (Nat.not_lt_zero _)
  exact hi.trans (congrArg some hi0)

end DisastrOS
