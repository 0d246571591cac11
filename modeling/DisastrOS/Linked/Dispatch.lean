import DisastrOS.Behaviour.Lists
import DisastrOS.Kernel.Dispatch
import DisastrOS.Linked.Processes

/-! # Descriptors, messages and traps on links

The remaining handlers of the kernel on links, and its runs.
-/
namespace DisastrOS

namespace LinkedKernel

def internalOpenResource (L : LinkedKernel) (running n : ℕ) : Except Fault LinkedKernel := do
  let r ← L.resources.openObject resourceErrors running (L.fields.syscallArgs running 0)
    (L.fields.syscallArgs running 1) (L.fields.syscallArgs running 2) n
  .ok ({ L with resources := r.layer }.setRetvalue running r.retvalue)

def internalCloseResource (L : LinkedKernel) (running n : ℕ) : Except Fault LinkedKernel := do
  let (resources,v) ←
    L.resources.closeDescriptor resourceErrors running (L.fields.syscallArgs running 0) n
  .ok ({ L with resources := resources }.setRetvalue running v)

def internalDestroyResource (L : LinkedKernel) (running n : ℕ) : Except Fault LinkedKernel := do
  let (resources,v,_) ←
    L.resources.destroyObject resourceErrors (L.fields.syscallArgs running 0) n
  .ok ({ L with resources := resources }.setRetvalue running v)

/-- The fields of `MessageQueue` that `Resource` does not have, as `MessageQueue_alloc` sets them. -/
def initQueue (L : LinkedKernel) (msgSize maxMsg : ℤ) (q : ℕ) : LinkedKernel :=
  let s := { L.fields with
    msgNum := Function.update L.fields.msgNum q 0
    msgSize := Function.update L.fields.msgSize q msgSize
    maxMsg := Function.update L.fields.maxMsg q maxMsg }
  { L with
    fields := s.record (.createdQueue q)
    messages := L.messages.listInit q }

def internalMqOpen (L : LinkedKernel) (running n : ℕ) : Except Fault LinkedKernel := do
  let r ← L.messagequeues.openObject messagequeueErrors running (L.fields.syscallArgs running 0)
    (L.fields.syscallArgs running 1) (L.fields.syscallArgs running 4) n
  let L := { L with messagequeues := r.layer }
  let L := match r.created with
    | none => L
    | some q => L.initQueue (L.fields.syscallArgs running 2) (L.fields.syscallArgs running 3) q
  .ok (L.setRetvalue running r.retvalue)

def internalMqClose (L : LinkedKernel) (running n : ℕ) : Except Fault LinkedKernel := do
  let (messagequeues,v) ←
    L.messagequeues.closeDescriptor messagequeueErrors running (L.fields.syscallArgs running 0) n
  .ok ({ L with messagequeues := messagequeues }.setRetvalue running v)

/-- `List_detach(&mq->messages, mq->messages.first)`. -/
def detachMessage (L : LinkedKernel) (q : ℕ) : Except Fault (ℕ × LinkedKernel) := do
  let (m,messages) ← L.messages.listDetach q (L.messages.first q)
  .ok (m,{ L with messages := messages })

/-- `Message_free`. -/
def messageFree (L : LinkedKernel) (m : ℕ) : LinkedKernel :=
  { L with fields := { L.fields with
    messageAllocator := L.fields.messageAllocator.releaseBlock m } }

/-- The loop of `MessageQueue_free`, which counts by `msg_num`. -/
def freeMessages (q : ℕ) : ℕ → LinkedKernel → Except Fault LinkedKernel
  | 0, L => .ok L
  | i + 1, L => do
    let (m,L) ← L.detachMessage q
    freeMessages q i (L.messageFree m)

def internalMqUnlink (L : LinkedKernel) (running n : ℕ) : Except Fault LinkedKernel := do
  let (messagequeues,v,freed) ←
    L.messagequeues.destroyObject messagequeueErrors (L.fields.syscallArgs running 0) n
  let L := { L with messagequeues := messagequeues }
  let L ← match freed with
    | none => .ok L
    | some q => freeMessages q (L.fields.msgNum q).toNat L
  .ok (L.setRetvalue running v)

/-- The blocking part of send and receive. The code is stored after `running` has been given to
another process, or to none. -/
def blockOnQueue (L : LinkedKernel) (running : ℕ) (code : ℤ) (n : ℕ) :
    Except Fault LinkedKernel :=
  if (L.fields.timer running).isSome then .ok (L.setRetvalue running dsosESleep)
  else do
    match ← L.goToSleep running 25 n with
    | none => .ok (L.setRetvalue running dsosESleep)
    | some L => match L.fields.running with
      | none => .error .nullRunning
      | some next =>
        let L := { L with fields := L.fields.record (.slept running) }
        .ok (L.setRetvalue next code)

/-- `Message_alloc` with the insertion behind the last message; the text is stored afterwards. -/
def appendMessage (L : LinkedKernel) (running q : ℕ) (msgPtr : ℤ) : Except Fault LinkedKernel :=
  match L.fields.messageAllocator.getBlock with
  | none => .error .nullPointer
  | some (m,pool) => do
    let text ← L.fields.copyIn msgPtr
    let s := { L.fields with
      messageAllocator := pool
      messageId := Function.update L.fields.messageId m (L.fields.msgNum q)
      message := Function.update L.fields.message m text
      msgNum := Function.update L.fields.msgNum q (L.fields.msgNum q + 1) }
    let L := { L with
      fields := s.record (.sent running q text)
      messages := (L.messages.clear m).append q m }
    .ok (L.setRetvalue running 0)

def internalMqSend (L : LinkedKernel) (running n : ℕ) : Except Fault LinkedKernel := do
  let mqd := L.fields.syscallArgs running 0
  let msgPtr := L.fields.syscallArgs running 1
  let msgLen := L.fields.syscallArgs running 2
  match ← L.messagequeues.byFd running mqd n with
  | none => .ok (L.setRetvalue running dsosEMessagequeueClose)
  | some des =>
    let q := L.messagequeues.fields.object des
    if L.fields.msgSize q < msgLen then .ok (L.setRetvalue running dsosEMessagesize)
    else if L.fields.maxMsg q = 0 then .ok (L.setRetvalue running dsosEMessagesize)
    else if L.fields.msgNum q = L.fields.maxMsg q then
      L.blockOnQueue running dsosEMessagequeueFull n
    else L.appendMessage running q msgPtr

/-- The part of `internal_mq_receive` behind its checks. -/
def removeMessage (L : LinkedKernel) (running q : ℕ) (msgPtr : ℤ) : Except Fault LinkedKernel := do
  let (m,L) ← L.detachMessage q
  if msgPtr = 0 then .error .nullPointer
  else
    let L := L.messageFree m
    let s := { L.fields with
      chars := Kernel.writeString L.fields.chars msgPtr (L.fields.message m)
      msgNum := Function.update L.fields.msgNum q (L.fields.msgNum q - 1) }
    let L := { L with fields := s.record (.received running q (L.fields.message m)) }
    .ok (L.setRetvalue running 0)

/-- A buffer that is too short is reported, but the call goes on. -/
def internalMqReceive (L : LinkedKernel) (running n : ℕ) : Except Fault LinkedKernel := do
  let mqd := L.fields.syscallArgs running 0
  let msgPtr := L.fields.syscallArgs running 1
  let msgLen := L.fields.syscallArgs running 2
  match ← L.messagequeues.byFd running mqd n with
  | none => .ok (L.setRetvalue running dsosEMessagequeueClose)
  | some des =>
    let q := L.messagequeues.fields.object des
    let L := if msgLen < L.fields.msgSize q then L.setRetvalue running dsosEMessagesize else L
    if L.fields.maxMsg q = 0 then .ok (L.setRetvalue running dsosEMessagesize)
    else if L.fields.msgNum q = 0 then L.blockOnQueue running dsosEMessagequeueEmpty n
    else L.removeMessage running q msgPtr

def handler (n : ℕ) : Syscall → LinkedKernel → ℕ → Except Fault LinkedKernel
  | .preempt, L, _ => L.internalPreempt n
  | .fork, L, running => L.internalFork running
  | .wait, L, running => L.internalWait running n
  | .exit, L, running => L.internalExit running n
  | .spawn, L, running => L.internalSpawn running
  | .sleep, L, running => L.internalSleep running n
  | .openResource, L, running => L.internalOpenResource running n
  | .closeResource, L, running => L.internalCloseResource running n
  | .destroyResource, L, running => L.internalDestroyResource running n
  | .mqOpen, L, running => L.internalMqOpen running n
  | .mqClose, L, running => L.internalMqClose running n
  | .mqUnlink, L, running => L.internalMqUnlink running n
  | .mqSend, L, running => L.internalMqSend running n
  | .mqReceive, L, running => L.internalMqReceive running n
  | .shutdown, L, _ => L.internalShutdown

/-- What concerns no links is done by the kernel's own code. -/
def onFields (L : LinkedKernel) (f : Kernel → Except Fault Kernel) : Except Fault LinkedKernel :=
  (f L.fields).map (fun s => { L with fields := s })

def disastrOSTrap (L : LinkedKernel) (running n : ℕ) : Except Fault LinkedKernel :=
  match syscallVector (L.fields.syscallNum running).toNat with
  | none => (L.setRetvalue running dsosESyscallNotImplemented).onFields Kernel.leaveTrap
  | some c => do
    let L ← handler n c L running
    L.onFields Kernel.leaveTrap

def disastrOSSyscall (L : LinkedKernel) (num : ℤ) (args : List ℤ) (n : ℕ) :
    Except Fault LinkedKernel :=
  match L.fields.running with
  | none => .error .assertion
  | some running =>
    if num < 0 ∨ dsosMaxSyscalls < num then
      .ok { L with fields := L.fields.record (.refused running dsosESyscallOutOfRange) }
    else if num = dsosMaxSyscalls then .error .outOfBounds
    else disastrOSTrap { L with fields := L.fields.enterTrap running num args } running n

/-- `timerHandler` and `timerInterrupt`. -/
def timerInterrupt (L : LinkedKernel) (n : ℕ) : Except Fault LinkedKernel :=
  match L.fields.running with
  | none => .error .nullRunning
  | some running => do
    let L ← internalSchedule { L with fields := L.fields.ticked running } n
    match L.fields.running with
    | none => .error .nullRunning
    | some p => L.onFields (fun s => s.setcontext p)

/-- The part of `disastrOS_start` behind its `getcontext(&main_context)`. -/
def startFirstProcess (L : LinkedKernel) : Except Fault LinkedKernel := do
  let (p,L) ← L.pcbAlloc
  let L := { L with fields := { L.fields with
    running := some p
    status := Function.update L.fields.status p .running
    initPcb := some p
    cpuState := Function.update L.fields.cpuState p
      (some ⟨L.fields.pid p,.entry L.fields.startFunction L.fields.startArgs⟩) } }
  L.onFields (fun s => s.setcontext p)

/-- A layer whose list of objects is initialised, in a memory of zeros. -/
def coldLayer : LinkedLayer :=
  ⟨DescriptorLayer.initial,ListHeap.empty.listInit (),ListHeap.empty,ListHeap.empty⟩

/-- The state behind the initialisations of `disastrOS_start`. -/
def cold (function args : ℤ) (logFile : Bool) (chars : ℤ → UInt8) (ints : ℤ → ℤ) :
    LinkedKernel where
  fields := Kernel.cold function args logFile chars ints
  pcbs := ((ListHeap.empty.listInit .ready).listInit .waiting).listInit .zombie
  children := ListHeap.empty
  timers := ListHeap.empty.listInit ()
  resources := coldLayer
  messagequeues := coldLayer
  messages := ListHeap.empty

def disastrOSStart (function args : ℤ) (logFile : Bool) (chars : ℤ → UInt8) (ints : ℤ → ℤ) :
    Except Fault LinkedKernel := (cold function args logFile chars ints).startFirstProcess

def step (n : ℕ) (L : LinkedKernel) (a : Action) : Except Fault LinkedKernel :=
  if L.fields.shutdownNow then .error .disabled
  else match a with
    | .tick => L.timerInterrupt n
    | .call num args =>
      if L.fields.cpu = .syscall then .error .disabled else L.disastrOSSyscall num args n
    | .ret =>
      if L.fields.cpu = .syscall then L.onFields Kernel.returnFromSyscall else .error .disabled
    | .store address c =>
      if L.fields.running = none ∨ L.fields.cpu = .syscall then .error .disabled
      else .ok { L with fields := { L.fields with
        chars := Function.update L.fields.chars address c } }
    | .resumeMain => if L.fields.running = none then L.startFirstProcess else .error .disabled

end LinkedKernel

end DisastrOS
