import DisastrOS.Kernel.Dispatch
import DisastrOS.Invariant.Placement
import DisastrOS.Invariant.Family
import DisastrOS.Invariant.Descriptors
import DisastrOS.Invariant.Timers
import DisastrOS.Invariant.Messages
import DisastrOS.Invariant.Identity

/-! # The invariant of the kernel

Everything but the existence of init holds already before the first process.
-/
namespace DisastrOS.Kernel

structure Wellformed (s : Kernel) : Prop where
  placement : Placement s.pcbAllocator.Allocated s.running s.readyList s.waitingList s.zombieList
    s.status
  family : Family s.pcbAllocator.Allocated s.pcbPtrAllocator.Allocated s.children s.childPcb
    s.parent s.zombieList
  identity : Identity s.pcbAllocator.Allocated s.pid s.parent s.lastPid
  timers : TimerBijection s.timerItemAllocator.Allocated s.timerList s.timerPcb s.waitingList
    s.syscallNum
  noTimer : ∀ p, s.timer p = none
  resources : s.resources.Linked s.pcbAllocator.Allocated
  messagequeues : s.messagequeues.Linked s.pcbAllocator.Allocated
  mailboxes : Mailboxes s.messagequeues.objectsList s.messageAllocator.Allocated s.messages s.msgNum

structure Inv (s : Kernel) : Prop extends Wellformed s where
  hasInit : HasInit s.pcbAllocator.Allocated s.parent s.initPcb

variable {s t : Kernel} {r p : ℕ}

theorem cold_wellformed (function args : ℤ) (logFile : Bool) (chars : ℤ → UInt8) (ints : ℤ → ℤ) :
    (cold function args logFile chars ints).Wellformed where
  placement := by constructor <;> simp [cold]
  family := by constructor <;> simp [cold]
  identity := by constructor <;> simp [cold]
  timers := by constructor <;> simp [cold]
  noTimer _ := rfl
  resources := DescriptorLayer.Linked.initial
  messagequeues := DescriptorLayer.Linked.initial
  mailboxes := Mailboxes.empty (by simp [cold])

namespace Inv

theorem setRetvalue (h : Inv s) (p : ℕ) (v : ℤ) : Inv (s.setRetvalue p v) := { h with }

theorem record (h : Inv s) (e : Event) : Inv (s.record e) := { h with }

theorem running_allocated (h : Inv s) (hr : s.running = some r) : s.pcbAllocator.Allocated r := by
  have hp := h.placement
  rw [hr] at hp
  exact hp.allocated_running

theorem not_waiting_running (h : Inv s) (hr : s.running = some r) : r ∉ s.waitingList := by
  have hp := h.placement
  rw [hr] at hp
  exact hp.running_not_waiting

theorem not_zombie_running (h : Inv s) (hr : s.running = some r) : r ∉ s.zombieList := by
  have hp := h.placement
  rw [hr] at hp
  exact hp.running_not_zombie

/-- The number of the new call is that of a process which is not waiting. -/
theorem enterTrap (h : Inv s) (hr : s.running = some r) (num : ℤ) (args : List ℤ) :
    Inv (s.enterTrap r num args) := by
  refine { h with timers := h.timers.congr_num ?_ }
  intro p hp
  exact update_of_not_mem (h.not_waiting_running hr) hp _ _

end Inv

end DisastrOS.Kernel
