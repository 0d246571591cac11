import DisastrOS.Linked.Layers
import DisastrOS.Kernel.Processes
import DisastrOS.Kernel.TimerList

/-! # The kernel on links

The state is the links of all blocks with the heads of all lists, and `fields`, which has the
rest: its own sequences and layers are empty and are not looked at. Each handler is that of the
source once more, with the loops of the source, which may take a number of steps.
-/
namespace DisastrOS

/-- The heads that a PCB is put on. -/
inductive PcbList
  | ready
  | waiting
  | zombie
  deriving DecidableEq

/-- A kernel without its sequences and its layers. -/
def Kernel.fields (s : Kernel) : Kernel :=
  { s with
    children := fun _ => []
    resources := DescriptorLayer.initial
    messagequeues := DescriptorLayer.initial
    messages := fun _ => []
    readyList := []
    waitingList := []
    zombieList := []
    timerList := [] }

structure LinkedKernel where
  fields : Kernel
  pcbs : ListHeap PcbList
  children : ListHeap ℕ
  timers : ListHeap Unit
  resources : LinkedLayer
  messagequeues : LinkedLayer
  messages : ListHeap ℕ

namespace LinkedKernel

def setRetvalue (L : LinkedKernel) (p : ℕ) (v : ℤ) : LinkedKernel :=
  { L with fields := L.fields.setRetvalue p v }

def setStatus (L : LinkedKernel) (p : ℕ) (v : ProcessStatus) : LinkedKernel :=
  { L with fields := { L.fields with status := Function.update L.fields.status p v } }

def setRunning (L : LinkedKernel) (p : Option ℕ) : LinkedKernel :=
  { L with fields := { L.fields with running := p } }

/-- `PCB_alloc`. -/
def pcbAlloc (L : LinkedKernel) : Except Fault (ℕ × LinkedKernel) :=
  match L.fields.pcbAllocator.getBlock with
  | none => .error .nullPointer
  | some (p,pool) => .ok (p,
      { L with
        fields := { L.fields with
          pcbAllocator := pool
          pid := Function.update L.fields.pid p L.fields.lastPid
          lastPid := L.fields.lastPid + 1
          returnValue := Function.update L.fields.returnValue p 0
          status := Function.update L.fields.status p .invalid
          signals := Function.update L.fields.signals p 0#32
          signalsMask := Function.update L.fields.signalsMask p (BitVec.allOnes 32)
          parent := Function.update L.fields.parent p none
          timer := Function.update L.fields.timer p none }
        pcbs := L.pcbs.clear p
        children := L.children.listInit p
        resources := L.resources.initProcess p
        messagequeues := L.messagequeues.initProcess p })

/-- `PCBPtr_alloc` with the insertion at the end of the parent's children. -/
def addChild (L : LinkedKernel) (running child : ℕ) : Except Fault LinkedKernel :=
  match L.fields.pcbPtrAllocator.getBlock with
  | none => .error .nullPointer
  | some (x,pool) => .ok
      { L with
        fields := { L.fields with
          pcbPtrAllocator := pool
          childPcb := Function.update L.fields.childPcb x child }
        children := (L.children.clear x).append running x }

/-- `PCBPtr_byPID`. -/
def childByPid (L : LinkedKernel) (p : ℕ) (pid : ℤ) (n : ℕ) : Except Fault (Option ℕ) :=
  finished (L.children.pcbPtrByPID p L.fields.childPcb L.fields.pid pid n)

/-- `List_insert(&list, list.last, pcb)`. -/
def appendPcb (L : LinkedKernel) (list : PcbList) (p : ℕ) : LinkedKernel :=
  { L with pcbs := L.pcbs.append list p }

/-- `List_detach(&list, pcb)`. -/
def detachPcb (L : LinkedKernel) (list : PcbList) (p : Option ℕ) :
    Except Fault (ℕ × LinkedKernel) := do
  let (p,pcbs) ← L.pcbs.listDetach list p
  .ok (p,{ L with pcbs := pcbs })

/-- `List_detach(&ready_list, ready_list.first)`. -/
def takeReady (L : LinkedKernel) : Except Fault (ℕ × LinkedKernel) :=
  L.detachPcb .ready (L.pcbs.first .ready)

/-- `status=Waiting` and the insertion at the end of the waiting list. -/
def moveToWaiting (L : LinkedKernel) (p : ℕ) : LinkedKernel :=
  (L.setStatus p .waiting).appendPcb .waiting p

/-- The guarded hand-over: the first ready process runs, or no process does. -/
def pickReady (L : LinkedKernel) : Except Fault LinkedKernel :=
  match L.pcbs.first .ready with
  | none => .ok (L.setRunning none)
  | some _ => do
    let (p,L) ← L.takeReady
    .ok (L.setRunning (some p))

/-- The timer list with all that belongs to it. -/
def timerList (L : LinkedKernel) : Timers :=
  ⟨L.timers,L.fields.awakeningTime,L.fields.timerPcb,L.fields.timerItemAllocator⟩

def setTimerList (L : LinkedKernel) (T : Timers) : LinkedKernel :=
  { L with
    fields := { L.fields with
      awakeningTime := T.awakeningTime
      timerPcb := T.pcb
      timerItemAllocator := T.allocator }
    timers := T.heap }

/-- The common tail of the handlers that sleep on a timer; nothing when the timer pool has no
block. -/
def goToSleep (L : LinkedKernel) (running : ℕ) (cyclesToSleep : ℤ) (n : ℕ) :
    Except Fault (Option LinkedKernel) := do
  let wakeTime := wrapInt (L.fields.disastrOSTime + cyclesToSleep)
  let (newTimer,T) ← finished (L.timerList.timerListAdd wakeTime running n)
  match newTimer with
  | none => .ok none
  | some _ => do
    let L ← ((L.setTimerList T).moveToWaiting running).pickReady
    .ok (some L)

/-- The allocation that `internal_fork` and `internal_spawn` share. -/
def createChild (L : LinkedKernel) (running : ℕ) : Except Fault (ℕ × LinkedKernel) := do
  let (p,L) ← L.pcbAlloc
  let L := { L with fields := { L.fields with
    status := Function.update L.fields.status p .ready
    parent := Function.update L.fields.parent p (some running) } }
  let L ← L.addChild running p
  let L := L.appendPcb .ready p
  .ok (p,L.setRetvalue running (L.fields.pid p))

def internalFork (L : LinkedKernel) (running : ℕ) : Except Fault LinkedKernel := do
  let (_,L) ← L.createChild running
  .ok L

def internalSpawn (L : LinkedKernel) (running : ℕ) : Except Fault LinkedKernel := do
  let (p,L) ← L.createChild running
  let newFunction := L.fields.syscallArgs running 0
  .ok { L with fields := { L.fields with
    cpuState := Function.update L.fields.cpuState p
      (some ⟨L.fields.pid p,.entry newFunction (L.fields.syscallArgs running 1)⟩) } }

def internalSleep (L : LinkedKernel) (running n : ℕ) : Except Fault LinkedKernel :=
  if (L.fields.timer running).isSome then .ok (L.setRetvalue running dsosESleep)
  else do
    match ← L.goToSleep running (L.fields.syscallArgs running 0) n with
    | none => .ok (L.setRetvalue running dsosESleep)
    | some L => .ok L

/-- The loop of `internal_wait`: `awaited` is the last child that was looked at, and `aux` the
next one. -/
def scanChildren (L : LinkedKernel) (pidToWait : ℤ) :
    ℕ → Option ℕ → Option ℕ → Except Fault (Option ℕ)
  | _, awaited, none => .ok awaited
  | 0, _, some _ => .error .diverges
  | n + 1, _, some aux =>
    if L.fields.stopsScan pidToWait aux then .ok (some aux)
    else L.scanChildren pidToWait n (some aux) (L.children.next aux)

/-- The child named by the cursor is removed and its value handed to the caller. -/
def reap (L : LinkedKernel) (running x : ℕ) (result : ℤ) : Except Fault LinkedKernel := do
  let (x,children) ← L.children.listDetach running (some x)
  let L := { L with
    fields := { L.fields with pcbPtrAllocator := L.fields.pcbPtrAllocator.releaseBlock x }
    children := children }
  let (c,L) ← L.detachPcb .zombie (some (L.fields.childPcb x))
  let s := (L.fields.setRetvalue running (L.fields.pid c)).storeResult result
    (L.fields.returnValue c)
  let s := { s with pcbAllocator := s.pcbAllocator.releaseBlock c }
  .ok { L with fields := s.record (.reaped running c (s.pid c) (s.returnValue c)) }

def blockInWait (L : LinkedKernel) (running : ℕ) : Except Fault LinkedKernel := do
  let (next,L) ← (L.moveToWaiting running).takeReady
  .ok (L.setRunning (some next))

def internalWait (L : LinkedKernel) (running n : ℕ) : Except Fault LinkedKernel :=
  let pidToWait := L.fields.syscallArgs running 0
  let result := L.fields.syscallArgs running 1
  if L.children.first running = none then .ok (L.setRetvalue running dsosEWait)
  else do
    match ← L.scanChildren pidToWait n none (L.children.first running) with
    | none =>
      if 0 < pidToWait then .ok (L.setRetvalue running dsosEWait)
      else L.blockInWait running
    | some x =>
      if L.fields.status (L.fields.childPcb x) = .zombie then L.reap running x result
      else L.blockInWait running

/-- The loop that hands the children of an exiting process to init. -/
def reparent (initPcb running : ℕ) : ℕ → LinkedKernel → Except Fault LinkedKernel
  | 0, L => match L.children.first running with
    | none => .ok L
    | some _ => .error .diverges
  | n + 1, L => match L.children.first running with
    | none => .ok L
    | some x => do
      let (x,children) ← L.children.listDetach running (some x)
      let children := children.append initPcb x
      reparent initPcb running n
        { L with
          fields := L.fields.sendSignal (L.fields.childPcb x) dsosSighup
          children := children }

/-- The loop that frees the timers of an exiting process; `aux` goes on before the item is
detached. -/
def releaseTimers (running : ℕ) : ℕ → Option ℕ → LinkedKernel → Except Fault LinkedKernel
  | _, none, L => .ok L
  | 0, some _, _ => .error .diverges
  | n + 1, some timer, L =>
    let aux := L.timers.next timer
    if L.fields.timerPcb timer = running then do
      let (timer,timers) ← L.timers.listDetach () (some timer)
      releaseTimers running n aux
        { L with
          fields := { L.fields with
            timerItemAllocator := L.fields.timerItemAllocator.releaseBlock timer }
          timers := timers }
    else releaseTimers running n aux L

/-- The branch of `internal_exit` that wakes the parent and frees the process. -/
def exitToParent (L : LinkedKernel) (running parent n : ℕ) : Except Fault LinkedKernel := do
  let (parent,L) ← L.detachPcb .waiting (some parent)
  let L := L.setStatus parent .running
  let selfInParent ← L.childByPid parent (L.fields.pid running) n
  let (_,children) ← L.children.listDetach parent selfInParent
  let L := { L with
    fields := (L.fields.setRetvalue parent (L.fields.pid running)).storeResult
      (L.fields.syscallArgs parent 1) (L.fields.returnValue running)
    children := children }
  let L ← releaseTimers running n (L.timers.first ()) L
  let resources ← L.resources.releaseAll running n
  let messagequeues ← L.messagequeues.releaseAll running n
  let (running,L) ← L.detachPcb .zombie (some running)
  let s := { L.fields with
    pcbAllocator := L.fields.pcbAllocator.releaseBlock running
    running := some parent }
  .ok { L with
    fields := s.record (.reaped parent running (s.pid running) (s.returnValue running))
    resources := resources
    messagequeues := messagequeues }

/-- The other branch: the process stays a zombie and the first ready one runs. -/
def exitToReady (L : LinkedKernel) : Except Fault LinkedKernel := do
  let (next,L) ← L.takeReady
  .ok ((L.setStatus next .running).setRunning (some next))

/-- The part of `internal_exit` behind the reparenting loop. -/
def becomeZombie (L : LinkedKernel) (running : ℕ) (value : ℤ) (n : ℕ) :
    Except Fault LinkedKernel :=
  let L := (L.setStatus running .zombie).appendPcb .zombie running
  match L.fields.parent running with
  | none => .error .nullPointer
  | some parent =>
    let s := L.fields.sendSignal parent dsosSigchld
    let L := { L with fields := s.record (.exited running (s.pid running) value) }
    if L.fields.wakesParent running parent then L.exitToParent running parent n
    else L.exitToReady

def internalExit (L : LinkedKernel) (running n : ℕ) : Except Fault LinkedKernel :=
  let value := L.fields.syscallArgs running 0
  let L := { L with fields := L.fields.setReturnValue running value }
  match L.fields.initPcb with
  | none => .error .assertion
  | some initPcb => do
    let L ← reparent initPcb running n L
    L.becomeZombie running value n

/-- The loop of `internal_schedule`: each process of an elapsed timer is detached from the waiting
list and put behind the last one that was woken, or in front of the ready list. -/
def wakeElapsed : ℕ → Option ℕ → LinkedKernel → Except Fault LinkedKernel
  | 0, _, L => match L.timerList.timerListCurrent L.fields.disastrOSTime with
    | none => .ok L
    | some _ => .error .diverges
  | n + 1, previousPcb, L => match L.timerList.timerListCurrent L.fields.disastrOSTime with
    | none => .ok L
    | some elapsedTimer => do
      let (pcbToWake,L) ← L.detachPcb .waiting (some (L.fields.timerPcb elapsedTimer))
      let L := { L with
        fields := { L.fields with
          status := Function.update L.fields.status pcbToWake .ready
          timer := Function.update L.fields.timer pcbToWake none }
        pcbs := (L.pcbs.listInsert .ready previousPcb pcbToWake).2 }
      let T ← L.timerList.timerListRemoveCurrent
      wakeElapsed n (some pcbToWake) (L.setTimerList T)

def internalSchedule (L : LinkedKernel) (n : ℕ) : Except Fault LinkedKernel := do
  let L ← wakeElapsed n none L
  match L.pcbs.first .ready with
  | none => .ok L
  | some _ => do
    let (next,L) ← L.takeReady
    match L.fields.running with
    | none => .error .nullRunning
    | some running =>
      let L := (L.setStatus running .ready).appendPcb .ready running
      .ok ((L.setStatus next .running).setRunning (some next))

def internalPreempt (L : LinkedKernel) (n : ℕ) : Except Fault LinkedKernel := L.internalSchedule n

def internalShutdown (L : LinkedKernel) : Except Fault LinkedKernel :=
  .ok { L with fields := { L.fields with shutdownNow := true } }

end LinkedKernel

end DisastrOS
