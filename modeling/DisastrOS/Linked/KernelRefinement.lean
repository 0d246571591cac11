import DisastrOS.Behaviour.Steps
import DisastrOS.Linked.MessageRefinement
import DisastrOS.Linked.ScheduleRefinement

/-! # Steps on links

A step on links does what the step does. In a state that keeps the invariant no item is detached
from a list that it is not on, so that nothing remains undefined.
-/
namespace DisastrOS
open Refinement Lockstep

variable {s t : Kernel} {a : Action} {r n : ℕ}

namespace Kernel

/-- Every item that is detached is on the list that it is detached from. -/
theorem step_checked (h : Inv s) : s.step a ≠ .error .detachNonMember := by
  intro hstep
  obtain ⟨num,args,r,c,rfl,hr,hc,herr⟩ := step_error_handler h hstep rfl
  have hfails := handler_fails (h.enterTrap hr num args) hr (syscallVector_enterTrap s args hc) herr
  cases hfails with
  | sendText _ hf => rcases hf with hf | hf <;> cases hf

theorem setcontext_fields (s : Kernel) (p : ℕ) :
    s.fields.setcontext p = (s.setcontext p).map Kernel.fields := by
  have hcontext : s.fields.cpuState = s.cpuState := rfl
  unfold setcontext
  rw [hcontext]
  cases s.cpuState p <;> rfl

theorem setcontext_frame {p : ℕ} (hok : s.setcontext p = .ok t) :
    t = { s with cpu := t.cpu, history := t.history } := by
  unfold setcontext at hok
  split at hok <;> cases hok
  rfl

theorem leaveTrap_fields (s : Kernel) : s.fields.leaveTrap = s.leaveTrap.map Kernel.fields := by
  have hdown : s.fields.shutdownNow = s.shutdownNow := rfl
  have hrun : s.fields.running = s.running := rfl
  have hlog : s.fields.logFile = s.logFile := rfl
  unfold leaveTrap
  rw [hdown,hrun,hlog]
  split
  · rfl
  · cases s.running with
    | none =>
      dsimp only
      split <;> rfl
    | some p => exact s.setcontext_fields p

theorem returnFromSyscall_fields (s : Kernel) :
    s.fields.returnFromSyscall = s.returnFromSyscall.map Kernel.fields := by
  have hrun : s.fields.running = s.running := rfl
  unfold returnFromSyscall
  rw [hrun]
  cases s.running <;> rfl

end Kernel

namespace LinkedKernel

variable {L : LinkedKernel}

namespace Implements

theorem handler (h : L.Implements s) (hs : Kernel.Inv s) (hr : s.running = some r)
    (hn : maxNumProcesses ≤ n) (c : Syscall) :
    Refines Fault.Unchecked Implements (LinkedKernel.handler n c L r) (Kernel.handler c s r) := by
  have hu := hs.unlisted hr
  cases c with
  | preempt => exact h.internalSchedule hs hn
  | fork => exact h.internalFork r
  | wait => exact h.internalWait hn hu
  | exit => exact h.internalExit hn hu
  | spawn => exact h.internalSpawn r
  | sleep => exact h.internalSleep hn hu
  | openResource => exact h.internalOpenResource hn r
  | closeResource => exact h.internalCloseResource hn r
  | destroyResource => exact h.internalDestroyResource hn r
  | mqOpen => exact h.internalMqOpen hn r
  | mqClose => exact h.internalMqClose hn r
  | mqUnlink => exact h.internalMqUnlink hn r
  | mqSend => exact h.internalMqSend hn hu
  | mqReceive => exact h.internalMqReceive hn hu
  | shutdown =>
    refine .ok { h with fields := ?_ }
    rw [h.fields]
    rfl

/-- What changes only the processor and the record is done on the fields. -/
theorem onFields (h : L.Implements s) {f : Kernel → Except Fault Kernel}
    (hf : f s.fields = (f s).map Kernel.fields)
    (hframe : ∀ t, f s = .ok t → t = { s with cpu := t.cpu, history := t.history }) :
    Refines Fault.Unchecked Implements (L.onFields f) (f s) := by
  unfold LinkedKernel.onFields
  rw [h.fields,hf]
  cases ht : f s with
  | error e => exact .error e
  | ok t =>
    refine .ok ?_
    rw [hframe t ht]
    exact { h with fields := rfl }

theorem setcontext (h : L.Implements s) (p : ℕ) :
    Refines Fault.Unchecked Implements (L.onFields fun s => s.setcontext p) (s.setcontext p) :=
  h.onFields (s.setcontext_fields p) fun _ => Kernel.setcontext_frame

theorem leaveTrap (h : L.Implements s) :
    Refines Fault.Unchecked Implements (L.onFields Kernel.leaveTrap) s.leaveTrap := by
  refine h.onFields s.leaveTrap_fields ?_
  intro t ht
  cases Kernel.leaveTrap_ok ht <;> rfl

theorem returnFromSyscall (h : L.Implements s) :
    Refines Fault.Unchecked Implements (L.onFields Kernel.returnFromSyscall)
      s.returnFromSyscall := by
  refine h.onFields s.returnFromSyscall_fields ?_
  intro t ht
  unfold Kernel.returnFromSyscall at ht
  split at ht <;> cases ht
  rfl

theorem disastrOSTrap (h : L.Implements s) (hs : Kernel.Inv s) (hr : s.running = some r)
    (hn : maxNumProcesses ≤ n) :
    Refines Fault.Unchecked Implements (L.disastrOSTrap r n) (s.disastrOSTrap r) := by
  have hnum : L.fields.syscallNum r = s.syscallNum r := by
    rw [h.fields]
    rfl
  unfold LinkedKernel.disastrOSTrap Kernel.disastrOSTrap
  rw [hnum]
  cases syscallVector (s.syscallNum r).toNat with
  | none => exact (h.setRetvalue r _).leaveTrap
  | some c =>
    apply (h.handler hs hr hn c).bind
    exact fun _ _ h' => h'.leaveTrap

theorem enterTrap (h : L.Implements s) (r : ℕ) (num : ℤ) (args : List ℤ) :
    ({ L with fields := L.fields.enterTrap r num args } : LinkedKernel).Implements
      (s.enterTrap r num args) := by
  rw [h.fields]
  exact { h with fields := rfl }

theorem disastrOSSyscall (h : L.Implements s) (hs : Kernel.Inv s) (hn : maxNumProcesses ≤ n)
    (num : ℤ) (args : List ℤ) :
    Refines Fault.Unchecked Implements (L.disastrOSSyscall num args n)
      (s.disastrOSSyscall num args) := by
  have hrunning : L.fields.running = s.running := by
    rw [h.fields]
    rfl
  unfold LinkedKernel.disastrOSSyscall Kernel.disastrOSSyscall
  rw [hrunning]
  cases hr : s.running with
  | none => exact .error _
  | some r =>
    refine Refines.ite Iff.rfl (.ok ?_) (Refines.ite Iff.rfl (.error _) ?_)
    · rw [h.fields]
      exact { h with fields := rfl }
    · exact (h.enterTrap r num args).disastrOSTrap (hs.enterTrap hr num args) hr hn

theorem timerInterrupt (h : L.Implements s) (hs : Kernel.Inv s) (hn : maxNumProcesses ≤ n) :
    Refines Fault.Unchecked Implements (L.timerInterrupt n) s.timerInterrupt := by
  have hrunning : ∀ {L : LinkedKernel} {s : Kernel}, L.Implements s →
      L.fields.running = s.running := by
    intro L s h
    rw [h.fields]
    rfl
  unfold LinkedKernel.timerInterrupt Kernel.timerInterrupt
  rw [hrunning h]
  cases s.running with
  | none => exact .error _
  | some r =>
    have hticked : ({ L with fields := L.fields.ticked r } : LinkedKernel).Implements
        (s.ticked r) := by
      rw [h.fields]
      exact { h with fields := rfl }
    apply (hticked.internalSchedule (hs.ticked r) hn).bind
    intro L s h
    rw [hrunning h]
    cases s.running with
    | none => exact .error _
    | some p => exact h.setcontext p

theorem startFirstProcess (h : L.Implements s) :
    Refines Fault.Unchecked Implements L.startFirstProcess s.startFirstProcess := by
  unfold LinkedKernel.startFirstProcess Kernel.startFirstProcess
  apply h.pcbAlloc.bind
  rintro _ _ @⟨p,L,s,h,_⟩
  have hinit : ({ L with fields := { L.fields with
      running := some p
      status := Function.update L.fields.status p .running
      initPcb := some p
      cpuState := Function.update L.fields.cpuState p
        (some ⟨L.fields.pid p,.entry L.fields.startFunction L.fields.startArgs⟩) } } :
      LinkedKernel).Implements
      { s with
        running := some p
        status := Function.update s.status p .running
        initPcb := some p
        cpuState := Function.update s.cpuState p
          (some ⟨s.pid p,.entry s.startFunction s.startArgs⟩) } := by
    rw [h.fields]
    exact { h with fields := rfl }
  exact hinit.setcontext p

/-- A step on links does what the step does. -/
theorem step (h : L.Implements s) (hs : Kernel.Inv s) (hn : maxNumProcesses ≤ n) (a : Action) :
    Agree Implements (LinkedKernel.step n L a) (s.step a) := by
  have hdown : L.fields.shutdownNow = s.shutdownNow := by
    rw [h.fields]
    rfl
  have hcpu : L.fields.cpu = s.cpu := by
    rw [h.fields]
    rfl
  have hrunning : L.fields.running = s.running := by
    rw [h.fields]
    rfl
  have hrefines : Refines Fault.Unchecked Implements (LinkedKernel.step n L a) (s.step a) := by
    unfold LinkedKernel.step Kernel.step
    rw [hdown,hcpu,hrunning]
    refine Refines.ite Iff.rfl (.error _) ?_
    cases a with
    | tick => exact h.timerInterrupt hs hn
    | call num args => exact Refines.ite Iff.rfl (.error _) (h.disastrOSSyscall hs hn num args)
    | ret => exact Refines.ite Iff.rfl h.returnFromSyscall (.error _)
    | store address c =>
      refine Refines.ite Iff.rfl (.error _) (.ok { h with fields := ?_ })
      rw [h.fields]
      rfl
    | resumeMain => exact Refines.ite Iff.rfl h.startFirstProcess (.error _)
  apply hrefines.agree
  rintro _ he rfl
  exact Kernel.step_checked hs he

end Implements

theorem coldLayer_implements : coldLayer.Implements DescriptorLayer.initial where
  fields := rfl
  objects := by
    unfold coldLayer
    rw [ListHeap.listInit_empty]
    exact ListHeap.stored_empty _
  descriptors := ListHeap.stored_empty _
  descriptorsPtrs := ListHeap.stored_empty _

/-- At first nothing is on a list. -/
theorem cold_implements (function args : ℤ) (logFile : Bool) (chars : ℤ → UInt8) (ints : ℤ → ℤ) :
    (cold function args logFile chars ints).Implements
      (Kernel.cold function args logFile chars ints) := by
  have hpcbs : (Kernel.cold function args logFile chars ints).pcbs = fun _ => [] := by
    funext list
    cases list <;> rfl
  refine ⟨rfl,?_,ListHeap.stored_empty _,?_,coldLayer_implements,coldLayer_implements,
    ListHeap.stored_empty _⟩
  · unfold cold
    rw [ListHeap.listInit_empty,ListHeap.listInit_empty,ListHeap.listInit_empty,hpcbs]
    exact ListHeap.settled_empty _
  · unfold cold
    rw [ListHeap.listInit_empty]
    exact ListHeap.stored_empty _

theorem disastrOSStart_implements (function args : ℤ) (logFile : Bool) (chars : ℤ → UInt8)
    (ints : ℤ → ℤ) :
    Agree Implements (disastrOSStart function args logFile chars ints)
      (Kernel.disastrOSStart function args logFile chars ints) := by
  apply (cold_implements function args logFile chars ints).startFirstProcess.agree
  rintro _ he rfl
  cases Kernel.startFirstProcess_error he

end LinkedKernel

end DisastrOS
