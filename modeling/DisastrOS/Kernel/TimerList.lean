import DisastrOS.Kernel.ListHeap
import DisastrOS.Kernel.State

/-! # The timer list in memory

The code of the timer list, on the links of its items: a scan with two cursors finds the place
of a new item before the block of the item is asked for.
-/
namespace DisastrOS

/-- The timer list, the blocks of its items, and what is in them. -/
structure Timers where
  heap : ListHeap Unit
  awakeningTime : ℕ → ℤ
  pcb : ℕ → ℕ
  allocator : Pool maxNumProcesses

namespace Timers

/-- `TimerItem_alloc`. -/
def timerItemAlloc (s : Timers) (awakeningTime : ℤ) (pcb : ℕ) : Option (ℕ × Timers) :=
  match s.allocator.getBlock with
  | none => none
  | some (item,pool) => some (item,
      { heap := (s.heap.setPrev item none).setNext item none
        pcb := Function.update s.pcb item pcb
        awakeningTime := Function.update s.awakeningTime item awakeningTime
        allocator := pool })

/-- The loop of `TimerList_add`, in a number of steps: `aux` is the item that is looked at, and
`previousItem` the last one that is not later; nothing if the loop is not over by then. -/
def scan (s : Timers) (awakeningTime : ℤ) : ℕ → Option ℕ → Option ℕ → Option (Option ℕ)
  | _, none, previousItem => some previousItem
  | 0, some _, _ => none
  | n + 1, some aux, previousItem =>
    if awakeningTime < s.awakeningTime aux then some previousItem
    else scan s awakeningTime n (s.heap.next aux) (some aux)

/-- `TimerList_add`, whose loop may take a number of steps. -/
def timerListAdd (s : Timers) (awakeningTime : ℤ) (pcb n : ℕ) : Option (Option ℕ × Timers) :=
  match s.scan awakeningTime n (s.heap.first ()) none with
  | none => none
  | some previousItem =>
    match s.timerItemAlloc awakeningTime pcb with
    | none => some (none,s)
    | some (newItem,s) =>
      some (some newItem,{ s with heap := (s.heap.listInsert () previousItem newItem).2 })

/-- `TimerList_current`. -/
def timerListCurrent (s : Timers) (currentTime : ℤ) : Option ℕ :=
  match s.heap.first () with
  | none => none
  | some item => if s.awakeningTime item ≤ currentTime then some item else none

/-- `TimerList_removeCurrent`; a null item is not returned by the detach. -/
def timerListRemoveCurrent (s : Timers) : Except Fault Timers := do
  let (item,heap) ← s.heap.listDetach () (s.heap.first ())
  .ok { s with heap := heap, allocator := s.allocator.releaseBlock item }

end Timers

end DisastrOS
