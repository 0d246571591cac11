import DisastrOS.Kernel.Descriptors

/-! # The state of the kernel

One function per struct field, indexed by the block the pointer names, and one
field per global. Memory of the processes is split by type into characters and
integers. The history is not part of the program: it records, newest first, what
each call did, so that properties of runs can be read off the state.
-/
namespace DisastrOS

/-- Where a saved context continues: at the entry of a process function, inside
the process, or behind the `swapcontext` of `disastrOS_syscall`. -/
inductive ResumePoint
  | entry (function args : ℤ)
  | user
  | syscall
  deriving DecidableEq, Repr

/-- A `cpu_state` that was set up, with the pid of the process it was set up for. -/
structure Context where
  pid : ℤ
  point : ResumePoint
  deriving DecidableEq, Repr

inductive Event
  | trapped (pcb : ℕ) (num : ℤ)
  | returned (pcb : ℕ) (value : ℤ)
  | refused (pcb : ℕ) (value : ℤ)
  | slept (pcb : ℕ)
  | sent (pcb queue : ℕ) (text : List UInt8)
  | received (pcb queue : ℕ) (text : List UInt8)
  | createdQueue (queue : ℕ)
  | exited (pcb : ℕ) (pid value : ℤ)
  | reaped (waiter child : ℕ) (pid value : ℤ)
  deriving DecidableEq, Repr

structure Kernel where
  -- PCB
  pcbAllocator : Pool maxNumProcesses
  pid : ℕ → ℤ
  returnValue : ℕ → ℤ
  status : ℕ → ProcessStatus
  signals : ℕ → BitVec 32
  signalsMask : ℕ → BitVec 32
  parent : ℕ → Option ℕ
  children : ℕ → List ℕ
  cpuState : ℕ → Option Context
  timer : ℕ → Option ℕ
  syscallNum : ℕ → ℤ
  syscallArgs : ℕ → ℕ → ℤ
  syscallRetvalue : ℕ → ℤ
  -- PCBPtr
  pcbPtrAllocator : Pool maxNumProcesses
  childPcb : ℕ → ℕ
  -- TimerItem
  timerItemAllocator : Pool maxNumProcesses
  awakeningTime : ℕ → ℤ
  timerPcb : ℕ → ℕ
  -- Resource and Descriptor; MessageQueue and Descrittore
  resources : DescriptorLayer
  messagequeues : DescriptorLayer
  -- the remaining fields of MessageQueue, and Message
  msgNum : ℕ → ℤ
  msgSize : ℕ → ℤ
  maxMsg : ℕ → ℤ
  messages : ℕ → List ℕ
  messageAllocator : Pool maxNumMessages
  messageId : ℕ → ℤ
  message : ℕ → List UInt8
  -- globals
  initPcb : Option ℕ
  running : Option ℕ
  lastPid : ℤ
  readyList : List ℕ
  waitingList : List ℕ
  zombieList : List ℕ
  timerList : List ℕ
  disastrOSTime : ℤ
  shutdownNow : Bool
  logFile : Bool
  startFunction : ℤ
  startArgs : ℤ
  -- processor, memory of the processes, history
  cpu : ResumePoint
  chars : ℤ → UInt8
  ints : ℤ → ℤ
  history : List Event

namespace Kernel

def setRetvalue (s : Kernel) (p : ℕ) (v : ℤ) : Kernel :=
  { s with syscallRetvalue := Function.update s.syscallRetvalue p v }

def setReturnValue (s : Kernel) (p : ℕ) (v : ℤ) : Kernel :=
  { s with returnValue := Function.update s.returnValue p v }

/-- `PCB_alloc`; the recycled block keeps its context and its last system call. -/
def pcbAlloc (s : Kernel) : Except Fault (ℕ × Kernel) :=
  match s.pcbAllocator.getBlock with
  | none => .error .nullPointer
  | some (p,pool) => .ok (p,
      { s with
        pcbAllocator := pool
        pid := Function.update s.pid p s.lastPid
        lastPid := s.lastPid + 1
        returnValue := Function.update s.returnValue p 0
        status := Function.update s.status p .invalid
        signals := Function.update s.signals p 0#32
        signalsMask := Function.update s.signalsMask p (BitVec.allOnes 32)
        resources := { s.resources with
          lastFd := Function.update s.resources.lastFd p 0
          descriptors := Function.update s.resources.descriptors p [] }
        messagequeues := { s.messagequeues with
          lastFd := Function.update s.messagequeues.lastFd p 0
          descriptors := Function.update s.messagequeues.descriptors p [] }
        parent := Function.update s.parent p none
        timer := Function.update s.timer p none
        children := Function.update s.children p [] })

def pcbFree (s : Kernel) (p : ℕ) : Kernel :=
  { s with pcbAllocator := s.pcbAllocator.releaseBlock p }

def pcbPtrAlloc (s : Kernel) (pcb : ℕ) : Except Fault (ℕ × Kernel) :=
  match s.pcbPtrAllocator.getBlock with
  | none => .error .nullPointer
  | some (x,pool) => .ok (x,
      { s with
        pcbPtrAllocator := pool
        childPcb := Function.update s.childPcb x pcb })

def pcbPtrFree (s : Kernel) (x : ℕ) : Kernel :=
  { s with pcbPtrAllocator := s.pcbPtrAllocator.releaseBlock x }

/-- A new child goes to the end of its parent's children. -/
def addChild (s : Kernel) (running child : ℕ) : Except Fault Kernel := do
  let (x,s) ← s.pcbPtrAlloc child
  .ok { s with
    children := Function.update s.children running (listAppend (s.children running) x) }

/-- `PCBPtr_byPID`. -/
def childByPid (s : Kernel) (p : ℕ) (pid : ℤ) : Option ℕ :=
  (s.children p).find? (fun x => s.pid (s.childPcb x) = pid)

/-- `signals |= (sig & signals_mask)`. -/
def sendSignal (s : Kernel) (p : ℕ) (sig : BitVec 32) : Kernel :=
  { s with signals := Function.update s.signals p (s.signals p ||| (sig &&& s.signalsMask p)) }

/-- `*result = value`, unless the pointer is null. -/
def storeResult (s : Kernel) (result value : ℤ) : Kernel :=
  { s with ints := if result ≠ 0 then Function.update s.ints result value else s.ints }

def record (s : Kernel) (e : Event) : Kernel := { s with history := e :: s.history }

def timerItemAlloc (s : Kernel) (awakeningTime : ℤ) (pcb : ℕ) : Option (ℕ × Kernel) :=
  match s.timerItemAllocator.getBlock with
  | none => none
  | some (t,pool) => some (t,
      { s with
        timerItemAllocator := pool
        awakeningTime := Function.update s.awakeningTime t awakeningTime
        timerPcb := Function.update s.timerPcb t pcb })

def timerItemFree (s : Kernel) (t : ℕ) : Kernel :=
  { s with timerItemAllocator := s.timerItemAllocator.releaseBlock t }

/-- `TimerList_add`: the new item goes behind all items that are not later. -/
def timerListAdd (s : Kernel) (awakeningTime : ℤ) (pcb : ℕ) : Option Kernel :=
  let previous := (s.timerList.takeWhile (fun t => ¬ awakeningTime < s.awakeningTime t)).getLast?
  match s.timerItemAlloc awakeningTime pcb with
  | none => none
  | some (t,s) => some { s with timerList := listInsert s.timerList previous t }

/-- `TimerList_current`: the first item, if its time has come. -/
def timerListCurrent (s : Kernel) : Option ℕ :=
  match s.timerList with
  | [] => none
  | t :: _ => if s.awakeningTime t ≤ s.disastrOSTime then some t else none

def timerListRemoveCurrent (s : Kernel) : Except Fault Kernel := do
  let (t,rest) ← listDetach s.timerList s.timerList.head?
  .ok ({ s with timerList := rest }.timerItemFree t)

/-- `status=Waiting` and the insertion at the end of the waiting list. -/
def moveToWaiting (s : Kernel) (p : ℕ) : Kernel :=
  { s with
    status := Function.update s.status p .waiting
    waitingList := listAppend s.waitingList p }

/-- The guarded hand-over: the first ready process runs, or no process does. -/
def pickReady (s : Kernel) : Kernel :=
  match s.readyList with
  | [] => { s with running := none }
  | p :: rest => { s with running := some p, readyList := rest }

/-- The unguarded `List_detach(&ready_list, ready_list.first)`. -/
def takeReady (s : Kernel) : Except Fault (ℕ × Kernel) := do
  let (p,rest) ← listDetach s.readyList s.readyList.head?
  .ok (p,{ s with readyList := rest })

/-- The common tail of the handlers that sleep on a timer; `none` when the timer
pool has no block. -/
def goToSleep (s : Kernel) (running : ℕ) (cyclesToSleep : ℤ) : Option Kernel :=
  (s.timerListAdd (wrapInt (s.disastrOSTime + cyclesToSleep)) running).map
    (fun s => (s.moveToWaiting running).pickReady)

end Kernel

end DisastrOS
