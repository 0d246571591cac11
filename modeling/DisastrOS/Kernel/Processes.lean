import DisastrOS.Kernel.State

/-! # The handlers of the process system calls

Each handler takes the value of `running` with which the trap entered it; a later
read of the global is a read of the field.
-/
namespace DisastrOS.Kernel

/-- The allocation that `internal_fork` and `internal_spawn` share. -/
def createChild (s : Kernel) (running : ℕ) : Except Fault (ℕ × Kernel) := do
  let (p,s) ← s.pcbAlloc
  let s := { s with
    status := Function.update s.status p .ready
    parent := Function.update s.parent p (some running) }
  let s ← s.addChild running p
  let s := { s with readyList := listAppend s.readyList p }
  .ok (p,s.setRetvalue running (s.pid p))

/-- `internal_fork` sets up no context for the new process. -/
def internalFork (s : Kernel) (running : ℕ) : Except Fault Kernel := do
  let (_,s) ← s.createChild running
  .ok s

def internalSpawn (s : Kernel) (running : ℕ) : Except Fault Kernel := do
  let (p,s) ← s.createChild running
  let newFunction := s.syscallArgs running 0
  .ok { s with
    cpuState := Function.update s.cpuState p
      (some ⟨s.pid p,.entry newFunction (s.syscallArgs running 1)⟩) }

def internalSleep (s : Kernel) (running : ℕ) : Except Fault Kernel :=
  if (s.timer running).isSome then .ok (s.setRetvalue running dsosESleep)
  else match s.goToSleep running (s.syscallArgs running 0) with
    | none => .ok (s.setRetvalue running dsosESleep)
    | some s => .ok s

/-- The test on which the scan of `internal_wait` stops. -/
def stopsScan (s : Kernel) (pidToWait : ℤ) (x : ℕ) : Bool :=
  (pidToWait = 0 && s.status (s.childPcb x) = .zombie) ||
    (pidToWait ≠ 0 && s.pid (s.childPcb x) = pidToWait)

/-- The scan leaves its cursor on the last child when it never stops. -/
def scanChildren (s : Kernel) (pidToWait : ℤ) : Option ℕ → List ℕ → Option ℕ
  | cursor, [] => cursor
  | _, x :: xs => if s.stopsScan pidToWait x then some x else s.scanChildren pidToWait (some x) xs

/-- The child named by the cursor is removed and its value handed to the caller. -/
def reap (s : Kernel) (running x : ℕ) (result : ℤ) : Except Fault Kernel := do
  let (x,own) ← listDetach (s.children running) (some x)
  let s := { s with children := Function.update s.children running own }.pcbPtrFree x
  let (c,zombies) ← listDetach s.zombieList (some (s.childPcb x))
  let s := ({ s with zombieList := zombies }.setRetvalue running (s.pid c)).storeResult result
    (s.returnValue c)
  .ok ((s.pcbFree c).record (.reaped running c (s.pid c) (s.returnValue c)))

def blockInWait (s : Kernel) (running : ℕ) : Except Fault Kernel := do
  let (next,s) ← (s.moveToWaiting running).takeReady
  .ok { s with running := some next }

def internalWait (s : Kernel) (running : ℕ) : Except Fault Kernel :=
  let pidToWait := s.syscallArgs running 0
  let result := s.syscallArgs running 1
  if s.children running = [] then .ok (s.setRetvalue running dsosEWait)
  else match s.scanChildren pidToWait none (s.children running) with
    | none =>
      if 0 < pidToWait then .ok (s.setRetvalue running dsosEWait)
      else s.blockInWait running
    | some x =>
      if s.status (s.childPcb x) = .zombie then s.reap running x result
      else s.blockInWait running

/-- The loop that hands the children of an exiting process to init. Each pass
detaches the first child and inserts it behind init's last one. -/
def reparent (initPcb running : ℕ) : ℕ → Kernel → Except Fault Kernel
  | 0, s => match s.children running with
    | [] => .ok s
    | _ :: _ => .error .diverges
  | n + 1, s => match s.children running with
    | [] => .ok s
    | x :: rest =>
      let s := { s with children := Function.update s.children running rest }
      let s := { s with
        children := Function.update s.children initPcb (listAppend (s.children initPcb) x) }
      reparent initPcb running n (s.sendSignal (s.childPcb x) dsosSighup)

/-- The test by which an exiting process finds its parent blocked in a wait for it. -/
def wakesParent (s : Kernel) (running parent : ℕ) : Bool :=
  s.status parent = .waiting && s.syscallNum parent = dsosCallWait &&
    (s.syscallArgs parent 0 = 0 || s.syscallArgs parent 0 = s.pid running)

/-- The loop that frees the timers of an exiting process. -/
def releaseTimers (s : Kernel) (running : ℕ) : Kernel :=
  { s with
    timerList := s.timerList.filter (fun t => s.timerPcb t ≠ running)
    timerItemAllocator := (s.timerList.filter (fun t => s.timerPcb t = running)).foldl
      Pool.releaseBlock s.timerItemAllocator }

/-- The branch of `internal_exit` that wakes the parent and frees the process. -/
def exitToParent (s : Kernel) (running parent : ℕ) : Except Fault Kernel := do
  let (parent,waiting) ← listDetach s.waitingList (some parent)
  let s := { s with
    waitingList := waiting
    status := Function.update s.status parent .running }
  let (_,own) ← listDetach (s.children parent) (s.childByPid parent (s.pid running))
  let s := { s with children := Function.update s.children parent own }
  let s := (s.setRetvalue parent (s.pid running)).storeResult (s.syscallArgs parent 1)
    (s.returnValue running)
  let s := s.releaseTimers running
  let resources ← s.resources.releaseResources running (s.resources.descriptors running).length
  let s := { s with resources := resources }
  let messagequeues ←
    s.messagequeues.releaseMessagequeues running (s.messagequeues.descriptors running).length
  let s := { s with messagequeues := messagequeues }
  let (running,zombies) ← listDetach s.zombieList (some running)
  let s := { s with zombieList := zombies }.pcbFree running
  .ok ({ s with running := some parent }.record
    (.reaped parent running (s.pid running) (s.returnValue running)))

/-- The other branch: the process stays a zombie and the first ready one runs. -/
def exitToReady (s : Kernel) : Except Fault Kernel := do
  let (next,s) ← s.takeReady
  .ok { s with
    status := Function.update s.status next .running
    running := some next }

/-- The part of `internal_exit` behind the reparenting loop. -/
def becomeZombie (s : Kernel) (running : ℕ) (value : ℤ) : Except Fault Kernel :=
  let s := { s with
    status := Function.update s.status running .zombie
    zombieList := listAppend s.zombieList running }
  match s.parent running with
  | none => .error .nullPointer
  | some parent =>
    let s := (s.sendSignal parent dsosSigchld).record (.exited running (s.pid running) value)
    if s.wakesParent running parent then s.exitToParent running parent else s.exitToReady

def internalExit (s : Kernel) (running : ℕ) : Except Fault Kernel :=
  let value := s.syscallArgs running 0
  let s := s.setReturnValue running value
  match s.initPcb with
  | none => .error .assertion
  | some initPcb => do
    let s ← reparent initPcb running (s.children running).length s
    s.becomeZombie running value

/-- The loop of `internal_schedule`: the processes of elapsed timers go in front of
the ready list, one behind the other. -/
def wakeElapsed : ℕ → Option ℕ → Kernel → Except Fault Kernel
  | 0, _, s => match s.timerListCurrent with
    | none => .ok s
    | some _ => .error .diverges
  | n + 1, previousPcb, s => match s.timerListCurrent with
    | none => .ok s
    | some t => do
      let (pcbToWake,waiting) ← listDetach s.waitingList (some (s.timerPcb t))
      let s := { s with
        waitingList := waiting
        status := Function.update s.status pcbToWake .ready
        timer := Function.update s.timer pcbToWake none
        readyList := listInsert s.readyList previousPcb pcbToWake }
      let s ← s.timerListRemoveCurrent
      wakeElapsed n (some pcbToWake) s

def internalSchedule (s : Kernel) : Except Fault Kernel := do
  let s ← wakeElapsed s.timerList.length none s
  match s.readyList, s.running with
  | [], _ => .ok s
  | _ :: _, none => .error .nullRunning
  | next :: rest, some running => .ok { s with
      status := Function.update (Function.update s.status running .ready) next .running
      readyList := listAppend rest running
      running := some next }

def internalPreempt (s : Kernel) (_running : ℕ) : Except Fault Kernel := s.internalSchedule

/-- `exit(0)` in `main` follows; no process runs any more. -/
def internalShutdown (s : Kernel) (_running : ℕ) : Except Fault Kernel :=
  .ok { s with shutdownNow := true }

end DisastrOS.Kernel
