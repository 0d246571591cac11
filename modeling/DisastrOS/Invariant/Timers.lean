import DisastrOS.Kernel.PoolAllocator
import DisastrOS.Kernel.LinkedList
import Mathlib.Data.List.Perm.Subperm

/-! # Timers and the processes that wait for them

The items of the timer list are the blocks handed out by the timer pool, and they
correspond one to one to the waiting processes that are not blocked in a wait.
-/
namespace DisastrOS

/-- The calls that put a process to sleep on a timer. -/
def SleepsOnTimer (num : ℤ) : Prop :=
  num = dsosCallSleep ∨ num = dsosCallMqSend ∨ num = dsosCallMqReceive

theorem not_sleepsOnTimer_wait : ¬ SleepsOnTimer dsosCallWait := by
  unfold SleepsOnTimer
  decide

structure TimerBijection (itemAllocated : ℕ → Prop) (timers : List ℕ) (pcb : ℕ → ℕ)
    (waiting : List ℕ) (syscallNum : ℕ → ℤ) : Prop where
  nodup : timers.Nodup
  items : ∀ t, itemAllocated t ↔ t ∈ timers
  waits : ∀ t ∈ timers, pcb t ∈ waiting ∧ SleepsOnTimer (syscallNum (pcb t))
  injective : ∀ t ∈ timers, ∀ u ∈ timers, pcb t = pcb u → t = u
  covered : ∀ p ∈ waiting, syscallNum p = dsosCallWait ∨ ∃ t ∈ timers, pcb t = p

namespace TimerBijection
variable {I I' : ℕ → Prop} {T T' : List ℕ} {pcb : ℕ → ℕ} {W : List ℕ} {num num' : ℕ → ℤ} {p t : ℕ}

/-- A process that is not waiting has no timer. -/
theorem no_timer (h : TimerBijection I T pcb W num) (hp : p ∉ W) : ∀ t ∈ T, pcb t ≠ p := by
  rintro t ht rfl
  exact hp (h.waits t ht).1

/-- The last call of a process that is not waiting does not matter. -/
theorem congr_num (h : TimerBijection I T pcb W num) (hnum : ∀ p ∈ W, num' p = num p) :
    TimerBijection I T pcb W num' := by
  refine ⟨h.nodup,h.items,?_,h.injective,?_⟩
  · intro t ht
    obtain ⟨hw,hs⟩ := h.waits t ht
    rw [hnum _ hw]
    exact ⟨hw,hs⟩
  · intro p hp
    rw [hnum p hp]
    exact h.covered p hp

/-- A process goes to sleep on a new timer. -/
theorem sleep (h : TimerBijection I T pcb W num) (hp : p ∉ W) (ht : ¬ I t)
    (hI : ∀ u, I' u ↔ u = t ∨ I u) (hT : T'.Perm (t :: T)) (hnum : SleepsOnTimer (num p)) :
    TimerBijection I' T' (Function.update pcb t p) (listAppend W p) num := by
  have htT : t ∉ T := fun hm => ht ((h.items t).mpr hm)
  have hpcb : ∀ u ∈ T, Function.update pcb t p u = pcb u := fun u hu => update_of_not_mem htT hu _ _
  have hlook : ∀ u ∈ T', u = t ∨ u ∈ T := fun u hu => List.mem_cons.mp (hT.mem_iff.mp hu)
  constructor
  · exact hT.nodup_iff.mpr (List.nodup_cons.mpr ⟨htT,h.nodup⟩)
  · intro u
    rw [hI u,h.items u,hT.mem_iff,List.mem_cons]
  · intro u hu
    rcases hlook u hu with rfl | hu
    · rw [Function.update_self]
      exact ⟨mem_listAppend.mpr (Or.inr rfl),hnum⟩
    · rw [hpcb u hu]
      exact ⟨mem_listAppend.mpr (Or.inl (h.waits u hu).1),(h.waits u hu).2⟩
  · intro u hu v hv huv
    rcases hlook u hu with rfl | hu <;> rcases hlook v hv with rfl | hv
    · rfl
    · rw [Function.update_self,hpcb v hv] at huv
      exact absurd huv.symm (h.no_timer hp v hv)
    · rw [Function.update_self,hpcb u hu] at huv
      exact absurd huv (h.no_timer hp u hu)
    · rw [hpcb u hu,hpcb v hv] at huv
      exact h.injective u hu v hv huv
  · intro q hq
    rcases mem_listAppend.mp hq with hq | rfl
    · rcases h.covered q hq with hw | ⟨u,hu,huq⟩
      · exact Or.inl hw
      · exact Or.inr ⟨u,hT.mem_iff.mpr (List.mem_cons_of_mem _ hu),by rw [hpcb u hu,huq]⟩
    · exact Or.inr ⟨t,hT.mem_iff.mpr List.mem_cons_self,Function.update_self _ _ _⟩

/-- A process blocks in a wait. -/
theorem block (h : TimerBijection I T pcb W num) (hnum : num p = dsosCallWait) :
    TimerBijection I T pcb (listAppend W p) num := by
  refine ⟨h.nodup,h.items,?_,h.injective,?_⟩
  · intro u hu
    exact ⟨mem_listAppend.mpr (Or.inl (h.waits u hu).1),(h.waits u hu).2⟩
  · intro q hq
    rcases mem_listAppend.mp hq with hq | rfl
    · exact h.covered q hq
    · exact Or.inl hnum

/-- The first timer fires. -/
theorem fire (h : TimerBijection I (t :: T) pcb W num) (hW : W.Nodup)
    (hI : ∀ u, I' u ↔ u ≠ t ∧ I u) : TimerBijection I' T pcb (W.erase (pcb t)) num := by
  obtain ⟨htT,hT⟩ := List.nodup_cons.mp h.nodup
  have hne : ∀ u ∈ T, pcb u ≠ pcb t := by
    intro u hu he
    have hut := h.injective u (List.mem_cons_of_mem _ hu) t List.mem_cons_self he
    exact htT (hut ▸ hu)
  constructor
  · exact hT
  · intro u
    rw [hI u,h.items u,List.mem_cons]
    constructor
    · rintro ⟨hu,hmem⟩
      exact hmem.resolve_left hu
    · intro hu
      refine ⟨?_,Or.inr hu⟩
      rintro rfl
      exact htT hu
  · intro u hu
    obtain ⟨hw,hs⟩ := h.waits u (List.mem_cons_of_mem _ hu)
    exact ⟨hW.mem_erase_iff.mpr ⟨hne u hu,hw⟩,hs⟩
  · exact fun u hu v hv => h.injective u (List.mem_cons_of_mem _ hu) v (List.mem_cons_of_mem _ hv)
  · intro q hq
    obtain ⟨hqt,hqW⟩ := hW.mem_erase_iff.mp hq
    rcases h.covered q hqW with hw | ⟨u,hu,huq⟩
    · exact Or.inl hw
    · rcases List.mem_cons.mp hu with rfl | hu
      · exact absurd huq.symm hqt
      · exact Or.inr ⟨u,hu,huq⟩

/-- A process is woken out of a wait. -/
theorem wakeWaiter (h : TimerBijection I T pcb W num) (hW : W.Nodup)
    (hnum : num p = dsosCallWait) : TimerBijection I T pcb (W.erase p) num := by
  have hne : ∀ t ∈ T, pcb t ≠ p := by
    rintro t ht rfl
    exact not_sleepsOnTimer_wait (hnum ▸ (h.waits t ht).2)
  refine ⟨h.nodup,h.items,?_,h.injective,?_⟩
  · intro t ht
    exact ⟨hW.mem_erase_iff.mpr ⟨hne t ht,(h.waits t ht).1⟩,(h.waits t ht).2⟩
  · intro q hq
    exact h.covered q (hW.mem_erase_iff.mp hq).2

/-- The timer pool is as large as the PCB pool, so it cannot run dry while a
process outside the waiting list is allocated. -/
theorem exists_free {n : ℕ} {items pcbs : Pool n} {r : ℕ}
    (h : TimerBijection items.Allocated T pcb W num) (hW : ∀ p ∈ W, pcbs.Allocated p)
    (hr : pcbs.Allocated r) (hrW : r ∉ W) : ∃ i pool, items.getBlock = some (i,pool) := by
  cases hb : items.getBlock with
  | some b => exact ⟨b.1,b.2,rfl⟩
  | none =>
    exfalso
    have hall : ∀ i, i < n → i ∈ T := fun i hi =>
      (h.items i).mp (Pool.allocated_of_getBlock_eq_none hb hi)
    -- the owners of the items are distinct processes below `n`, none of them `r`
    have hmap : (T.map pcb).Nodup := by
      refine (List.nodup_map_iff_inj_on h.nodup).mpr ?_
      exact h.injective
    have hsub : r :: T.map pcb ⊆ List.range n := by
      intro q hq
      rw [List.mem_range]
      rcases List.mem_cons.mp hq with rfl | hq
      · exact hr.lt
      · obtain ⟨t,ht,rfl⟩ := List.mem_map.mp hq
        exact (hW _ (h.waits t ht).1).lt
    have hnot : r ∉ T.map pcb := by
      intro hm
      obtain ⟨t,ht,hrt⟩ := List.mem_map.mp hm
      exact hrW (hrt ▸ (h.waits t ht).1)
    have hle := (List.subperm_of_subset (List.nodup_cons.mpr ⟨hnot,hmap⟩) hsub).length_le
    have hge := (List.subperm_of_subset List.nodup_range
      (fun i hi => hall i (List.mem_range.mp hi))).length_le
    simp only [List.length_cons,List.length_map,List.length_range] at hle hge
    omega

end TimerBijection

end DisastrOS
