import DisastrOS.Foundation.Transitions
import DisastrOS.Kernel.MessageQueues
import DisastrOS.Kernel.Processes
import DisastrOS.Kernel.Resources

/-! # Traps, ticks and runs

A system call runs from the library call to the `setcontext` that leaves the trap
in one step, since the trap context masks the timer signal. The process reads its
result in a step of its own, before which the timer may fire. A trap that finds no
running process returns into `disastrOS_start`, which starts the first process anew.
-/
namespace DisastrOS.Kernel

def handler : Syscall → Kernel → ℕ → Except Fault Kernel
  | .preempt => internalPreempt
  | .fork => internalFork
  | .wait => internalWait
  | .exit => internalExit
  | .spawn => internalSpawn
  | .sleep => internalSleep
  | .openResource => internalOpenResource
  | .closeResource => internalCloseResource
  | .destroyResource => internalDestroyResource
  | .mqOpen => internalMqOpen
  | .mqClose => internalMqClose
  | .mqUnlink => internalMqUnlink
  | .mqSend => internalMqSend
  | .mqReceive => internalMqReceive
  | .shutdown => internalShutdown

/-- `setcontext(&p->cpu_state)`. -/
def setcontext (s : Kernel) (p : ℕ) : Except Fault Kernel :=
  match s.cpuState p with
  | none => .error .badContext
  | some c => .ok { s with cpu := c.point }

/-- The `swapcontext` that leaves a process saves where it stands. -/
def saveContext (s : Kernel) (p : ℕ) (point : ResumePoint) : Kernel :=
  { s with cpuState := Function.update s.cpuState p (some ⟨s.pid p,point⟩) }

/-- The end of `disastrOS_trap`, which `internal_shutdown` does not reach. -/
def leaveTrap (s : Kernel) : Except Fault Kernel :=
  if s.shutdownNow then .ok s
  else match s.running with
    | none => if s.logFile then .error .nullRunning else .ok s
    | some p => s.setcontext p

def disastrOSTrap (s : Kernel) (running : ℕ) : Except Fault Kernel :=
  match syscallVector (s.syscallNum running).toNat with
  | none => (s.setRetvalue running dsosESyscallNotImplemented).leaveTrap
  | some c => do
    let s ← handler c s running
    s.leaveTrap

/-- The arguments and the number are stored in the PCB, and the context is saved. -/
def enterTrap (s : Kernel) (running : ℕ) (num : ℤ) (args : List ℤ) : Kernel :=
  let s := { s with
    syscallArgs := Function.update s.syscallArgs running
      (fun i => if i < syscallNumarg num.toNat then args.getD i 0 else s.syscallArgs running i)
    syscallNum := Function.update s.syscallNum running num }
  (s.saveContext running .syscall).record (.trapped running num)

/-- `disastrOS_syscall` up to its `return`. -/
def disastrOSSyscall (s : Kernel) (num : ℤ) (args : List ℤ) : Except Fault Kernel :=
  match s.running with
  | none => .error .assertion
  | some running =>
    if num < 0 ∨ dsosMaxSyscalls < num then
      .ok (s.record (.refused running dsosESyscallOutOfRange))
    else if num = dsosMaxSyscalls then .error .outOfBounds
    else (s.enterTrap running num args).disastrOSTrap running

/-- The `return running->syscall_retvalue` of `disastrOS_syscall`. -/
def returnFromSyscall (s : Kernel) : Except Fault Kernel :=
  match s.running with
  | none => .error .nullRunning
  | some running => .ok ({ s with cpu := .user }.record
      (.returned running (s.syscallRetvalue running)))

/-- `timerHandler` with the increment of the time. -/
def ticked (s : Kernel) (running : ℕ) : Kernel :=
  { s.saveContext running s.cpu with disastrOSTime := wrapInt (s.disastrOSTime + 1) }

/-- `timerHandler` and `timerInterrupt`. -/
def timerInterrupt (s : Kernel) : Except Fault Kernel :=
  match s.running with
  | none => .error .nullRunning
  | some running => do
    let s ← (s.ticked running).internalSchedule
    match s.running with
    | none => .error .nullRunning
    | some p => s.setcontext p

/-- The part of `disastrOS_start` behind its `getcontext(&main_context)`. -/
def startFirstProcess (s : Kernel) : Except Fault Kernel := do
  let (p,s) ← s.pcbAlloc
  { s with
    running := some p
    status := Function.update s.status p .running
    initPcb := some p
    cpuState := Function.update s.cpuState p
      (some ⟨s.pid p,.entry s.startFunction s.startArgs⟩) }.setcontext p

/-- The state behind the initialisations of `disastrOS_start`. -/
def cold (function args : ℤ) (logFile : Bool) (chars : ℤ → UInt8) (ints : ℤ → ℤ) : Kernel where
  pcbAllocator := Pool.full maxNumProcesses maxNumProcesses_pos
  pid := fun _ => 0
  returnValue := fun _ => 0
  status := fun _ => .created
  signals := fun _ => 0#32
  signalsMask := fun _ => 0#32
  parent := fun _ => none
  children := fun _ => []
  cpuState := fun _ => none
  timer := fun _ => none
  syscallNum := fun _ => 0
  syscallArgs := fun _ _ => 0
  syscallRetvalue := fun _ => 0
  pcbPtrAllocator := Pool.full maxNumProcesses maxNumProcesses_pos
  childPcb := fun _ => 0
  timerItemAllocator := Pool.full maxNumProcesses maxNumProcesses_pos
  awakeningTime := fun _ => 0
  timerPcb := fun _ => 0
  resources := DescriptorLayer.resourceInit
  messagequeues := DescriptorLayer.messageQueueInit
  msgNum := fun _ => 0
  msgSize := fun _ => 0
  maxMsg := fun _ => 0
  messages := fun _ => []
  messageAllocator := Pool.full maxNumMessages maxNumMessages_pos
  messageId := fun _ => 0
  message := fun _ => []
  initPcb := none
  running := none
  lastPid := 0
  readyList := []
  waitingList := []
  zombieList := []
  timerList := []
  disastrOSTime := 0
  shutdownNow := false
  logFile := logFile
  startFunction := function
  startArgs := args
  cpu := .user
  chars := chars
  ints := ints
  history := []

def disastrOSStart (function args : ℤ) (logFile : Bool) (chars : ℤ → UInt8) (ints : ℤ → ℤ) :
    Except Fault Kernel := (cold function args logFile chars ints).startFirstProcess

end Kernel

/-- What can happen next: the timer fires, the running process calls the system,
reads the result of its call or writes its memory, or `main` resumes. -/
inductive Action
  | tick
  | call (num : ℤ) (args : List ℤ)
  | ret
  | store (address : ℤ) (c : UInt8)
  | resumeMain
  deriving DecidableEq

namespace Kernel

def step (s : Kernel) (a : Action) : Except Fault Kernel :=
  if s.shutdownNow then .error .disabled
  else match a with
    | .tick => s.timerInterrupt
    | .call num args => if s.cpu = .syscall then .error .disabled else s.disastrOSSyscall num args
    | .ret => if s.cpu = .syscall then s.returnFromSyscall else .error .disabled
    | .store address c =>
      if s.running = none ∨ s.cpu = .syscall then .error .disabled
      else .ok { s with chars := Function.update s.chars address c }
    | .resumeMain => if s.running = none then s.startFirstProcess else .error .disabled

end Kernel

/-- The kernel with the timer and its processes, as a transition system. -/
def system : Transitions.System Kernel Action where
  Initial s := ∃ function args logFile chars ints,
    Kernel.disastrOSStart function args logFile chars ints = .ok s
  Step s a t := s.step a = .ok t

/-- The states of all runs. -/
def Reachable (s : Kernel) : Prop := Transitions.Reach system Transitions.unguarded s

/-- The states of the runs whose steps all meet a condition on the state before the
step and the action taken. -/
def ReachableUnder (guard : Kernel → Action → Prop) (s : Kernel) : Prop :=
  Transitions.Reach system guard s

namespace Kernel

/-- A run from the start, with zero as every other parameter of `disastrOS_start`. -/
def runFrom (guard : Kernel → Action → Bool) (logFile : Bool) (chars : ℤ → UInt8)
    (actions : List Action) : Option Kernel :=
  match disastrOSStart 0 0 logFile chars (fun _ => 0) with
  | .ok s => Transitions.runUnder step guard s actions
  | .error _ => none

/-- A check of the state behind an action, which must not fault. -/
def after (s : Kernel) (a : Action) (check : Kernel → Bool) : Bool :=
  match s.step a with
  | .ok t => check t
  | .error _ => false

theorem after_eq_true {s : Kernel} {a : Action} {check : Kernel → Bool}
    (h : s.after a check = true) : ∃ t, s.step a = .ok t ∧ check t = true := by
  unfold after at h
  split at h
  · rename_i t hstep
    exact ⟨t,hstep,h⟩
  · cases h

end Kernel

/-- A run that ends in a state with a checked property reaches such a state. -/
theorem exists_reachable (G : Kernel → Action → Prop) (guard : Kernel → Action → Bool)
    (logFile : Bool) (chars : ℤ → UInt8) (actions : List Action) (check : Kernel → Bool)
    (h : (Kernel.runFrom guard logFile chars actions).any check = true)
    (hG : ∀ s a, guard s a = true → G s a) : ∃ s, ReachableUnder G s ∧ check s = true := by
  cases hrun : Kernel.runFrom guard logFile chars actions with
  | none => simp [hrun] at h
  | some t =>
    refine ⟨t,?_,by simpa [hrun] using h⟩
    unfold Kernel.runFrom at hrun
    split at hrun
    · rename_i s hs
      exact Transitions.runUnder_reach _ _ (fun _ _ _ hst => hst) hG
        (.initial ⟨_,_,_,_,_,hs⟩) hrun
    · cases hrun

/-- The same for a decidable guard, without a log file, in a memory of zeros. -/
theorem exists_run (G : Kernel → Action → Prop) [∀ s a, Decidable (G s a)] (actions : List Action)
    (check : Kernel → Bool)
    (h : (Kernel.runFrom (fun s a => decide (G s a)) false (fun _ => 0) actions).any check = true) :
    ∃ s, ReachableUnder G s ∧ check s = true :=
  exists_reachable G _ _ _ _ _ h (fun _ _ hg => of_decide_eq_true hg)

/-- A run from the start, with zero as every parameter of `disastrOS_start`, and its record. -/
theorem exists_recorded (as : List Action) (check : List (Kernel × Action × Kernel) → Bool)
    (h : (match Kernel.disastrOSStart 0 0 false (fun _ => 0) (fun _ => 0) with
      | .ok s => (Transitions.recorded Kernel.step s as).any fun r => check r.1
      | .error _ => false) = true) :
    ∃ s t es, Kernel.disastrOSStart 0 0 false (fun _ => 0) (fun _ => 0) = .ok s ∧
      Transitions.Trace system s es t ∧ check es = true := by
  cases hstart : Kernel.disastrOSStart 0 0 false (fun _ => 0) (fun _ => 0) with
  | error f => simp [hstart] at h
  | ok s =>
    simp only [hstart] at h
    obtain ⟨⟨es,t⟩,hrun,hcheck⟩ := (Option.any_eq_true _ _).mp h
    exact ⟨s,t,es,rfl,Transitions.recorded_trace Kernel.step (fun _ _ _ hst => hst) hrun,hcheck⟩

end DisastrOS
