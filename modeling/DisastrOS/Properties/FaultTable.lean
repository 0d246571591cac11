import DisastrOS.Properties.Contexts
import DisastrOS.Properties.Faults
import DisastrOS.Properties.Handles

/-! # All ways in which a step can fail

The fault of a step, read off the state before it. The list is complete: a step that it does not
name succeeds, or hands the processor to a process that has no context.
-/
namespace DisastrOS
open Handles DescriptorLayer

/-- An open fails if it is to create an object and there is no block for one. -/
def DescriptorLayer.openFault (L : DescriptorLayer) (id openMode : ℤ) : Option Fault :=
  if hasFlag openMode dsosCreate ∧ L.byId id = none ∧ L.objectAllocator.getBlock = none
  then some .nullPointer else none

namespace Kernel

/-- A call that gives up the processor fails where nobody is ready. -/
def idleFault (s : Kernel) (f : Fault) : Option Fault := if s.readyList = [] then some f else none

/-- The fault of an exit: it runs over its own children, has no parent to report to, is on no list
of the parent that it wakes, or leaves nobody to run. -/
def exitFault (s : Kernel) (r : ℕ) : Option Fault :=
  if s.initPcb = some r ∧ s.children r ≠ [] then some .diverges
  else match s.parent r with
    | none => some .nullPointer
    | some p =>
      if s.wakesParent r p then
        if ∃ x ∈ s.children p, s.childPcb x = r then none else some .detachNull
      else s.idleFault .detachNull

/-- The fault of a send that passes its checks: no block, or no string to copy. -/
def postFault (s : Kernel) (source : ℤ) : Option Fault :=
  if s.messageAllocator.getBlock = none then some .nullPointer
  else match s.copyIn source with
    | .error f => some f
    | .ok _ => none

/-- The fault of the handler of a call of `r`. -/
def handlerFault (s : Kernel) (r : ℕ) : Syscall → Option Fault
  | .fork | .spawn =>
    if s.pcbAllocator.getBlock = none ∨ s.pcbPtrAllocator.getBlock = none
    then some .nullPointer else none
  | .wait => match s.awaitedEntry r with
    | none => none
    | some x =>
      if s.status (s.childPcb x) = .zombie then none else s.idleFault .detachNull
  | .exit => s.exitFault r
  | .openResource => s.resources.openFault (s.syscallArgs r 0) (s.syscallArgs r 2)
  | .mqOpen => s.messagequeues.openFault (s.syscallArgs r 0) (s.syscallArgs r 4)
  | .mqSend =>
    if s.SendBlocks r then s.idleFault .nullRunning
    else if ∃ q ∈ s.queueOf r, s.SendPasses r q then s.postFault (s.syscallArgs r 1)
    else none
  | .mqReceive =>
    if s.ReceiveBlocks r then s.idleFault .nullRunning
    else if (∃ q ∈ s.queueOf r, s.ReceivePasses r q) ∧ s.syscallArgs r 1 = 0
    then some .nullPointer else none
  -- there are as many timer items as processes, so a sleep always finds one
  | _ => none

/-- The fault of a trap. A sleep that leaves nobody to run fails if its end is logged. -/
def trapFault (s : Kernel) (r : ℕ) (c : Syscall) : Option Fault :=
  if c = .sleep ∧ s.logFile = true then s.idleFault .nullRunning else s.handlerFault r c

/-- The fault of a step, other than that of a missing context. -/
def stepFault (s : Kernel) (a : Action) : Option Fault :=
  if s.shutdownNow then some .disabled
  else match a with
    | .tick => if s.running = none then some .nullRunning else none
    | .call num args =>
      if s.cpu = .syscall then some .disabled
      else match s.running with
        | none => some .assertion
        | some r =>
          -- the range check lets the number pass that is one behind the tables
          if num = dsosMaxSyscalls then some .outOfBounds
          else match syscallVector num.toNat with
            | none => none
            | some c => (s.enterTrap r num args).trapFault r c
    | .ret => if s.cpu = .syscall then none else some .disabled
    | .store _ _ => if s.running = none ∨ s.cpu = .syscall then some .disabled else none
    | .resumeMain =>
      if s.running ≠ none then some .disabled
      else if s.pcbAllocator.getBlock = none then some .nullPointer else none

/-- The result is this fault, or there is a result. -/
def Faulted (o : Option Fault) (x : Except Fault Kernel) : Prop :=
  match o with
  | none => ∃ t, x = .ok t
  | some f => x = .error f

variable {s t : Kernel} {r p q : ℕ} {c : Syscall} {f : Fault} {a : Action}

theorem faulted_idle {x : Except Fault Kernel}
    (hx : (s.readyList = [] ∧ x = .error f) ∨
      ∃ next rest t, s.readyList = next :: rest ∧ x = .ok t) : Faulted (s.idleFault f) x := by
  unfold idleFault
  rcases hx with ⟨hnil,hx⟩ | ⟨next,rest,t,hready,hx⟩
  · rw [if_pos hnil]
    exact hx
  · rw [if_neg (by simp [hready])]
    exact ⟨t,hx⟩

theorem create_faulted {x : Except Fault Kernel} (g : ℕ × Kernel → Kernel)
    (hx : x = s.createChild r >>= fun res => .ok (g res)) :
    Faulted (if s.pcbAllocator.getBlock = none ∨ s.pcbPtrAllocator.getBlock = none
      then some .nullPointer else none) x := by
  subst hx
  split
  · rename_i hnone
    rw [createChild_none hnone]
    rfl
  · rename_i hsome
    obtain ⟨hpcb,hptr⟩ := not_or.mp hsome
    obtain ⟨⟨p,pool⟩,hb⟩ := Option.ne_none_iff_exists'.mp hpcb
    obtain ⟨⟨x,entries⟩,hx⟩ := Option.ne_none_iff_exists'.mp hptr
    rw [createChild_eq hb hx]
    exact ⟨_,rfl⟩

theorem internalWait_faulted (h : Inv s) (hr : s.running = some r) :
    Faulted (s.handlerFault r .wait) (s.internalWait r) := by
  dsimp only [handlerFault]
  cases hx : s.awaitedEntry r with
  | none =>
    by_cases hnil : s.children r = []
    · exact ⟨_,internalWait_nil hnil⟩
    · obtain ⟨x,hx'⟩ := exists_awaitedEntry hnil
      cases hx.symm.trans hx'
  | some x =>
    dsimp only
    rw [internalWait_eq hx]
    by_cases hz : s.status (s.childPcb x) = .zombie
    · rw [if_pos hz,if_pos hz]
      exact ⟨_,reap_eq h hr (awaitedEntry_mem hx) hz⟩
    · rw [if_neg hz,if_neg hz]
      apply faulted_idle
      cases hready : s.readyList with
      | nil => exact Or.inl ⟨rfl,blockInWait_nil hready⟩
      | cons next rest => exact Or.inr ⟨next,rest,_,rfl,blockInWait_cons hready⟩

theorem internalExit_faulted (h : Inv s) (hr : s.running = some r) :
    Faulted (s.exitFault r) (s.internalExit r) := by
  obtain ⟨i,hi,_,_⟩ := h.hasInit
  unfold exitFault
  by_cases hself : s.initPcb = some r ∧ s.children r ≠ []
  · rw [if_pos hself]
    exact internalExit_diverges hself.1 hself.2
  have hir : i ≠ r ∨ s.children r = [] := by
    by_cases hne : i = r
    · subst hne
      exact Or.inr (not_not.mp fun hne => hself ⟨hi,hne⟩)
    · exact Or.inl hne
  rw [if_neg hself]
  cases hp : s.parent r with
  | none => exact internalExit_noParent hi hir hp
  | some p =>
    dsimp only
    rw [internalExit_eq hi hir hp,wakesParent_exiting (h.placement.runningStatus r hr)]
    by_cases hwakes : s.wakesParent r p
    · rw [if_pos hwakes,if_pos hwakes]
      have hfound := h.family.exists_mem_handedOver (q := i) (h.running_allocated hr)
        (ne_of_wakesParent h hr hwakes)
      rcases exitToParent_exiting h hr (s.syscallArgs r 0) hi hir
          (mem_waiting_of_wakesParent h hwakes).1 with ⟨x,L,M,hx,hxr,_,_,hok⟩ | ⟨hnone,herr⟩
      · rw [if_pos (hfound.mp ⟨x,hx,hxr⟩)]
        exact ⟨_,hok⟩
      · rw [if_neg fun hsome => ?_]
        · exact herr
        · obtain ⟨x,hx,hxr⟩ := hfound.mpr hsome
          exact hnone x hx hxr
    · rw [if_neg hwakes,if_neg hwakes]
      apply faulted_idle
      cases hready : s.readyList with
      | nil =>
        have herr := exitToReady_nil (s := s.exiting i r p (s.syscallArgs r 0)) hready
        exact Or.inl ⟨rfl,herr⟩
      | cons next rest =>
        have hok := exitToReady_cons (s := s.exiting i r p (s.syscallArgs r 0)) hready
        exact Or.inr ⟨next,rest,_,rfl,hok⟩

theorem open_faulted (k : LayerKind) (r : ℕ) (hL : (s.layer k).Sound) :
    Faulted ((s.layer k).openFault (s.syscallArgs r 0) (s.syscallArgs r k.modeArg))
      (handler k.openCall s r) := by
  have hanswers := hL.openObject_answers k.errors r (s.syscallArgs r 0) (s.syscallArgs r 1)
    (s.syscallArgs r k.modeArg)
  have hfails : (s.layer k).registry.openHandle layerLimits r (s.syscallArgs r 0)
      (s.syscallArgs r 1) (hasFlag (s.syscallArgs r k.modeArg) dsosCreate)
      (hasFlag (s.syscallArgs r k.modeArg) dsosExcl) = none ↔
        hasFlag (s.syscallArgs r k.modeArg) dsosCreate = true ∧
          (s.layer k).byId (s.syscallArgs r 0) = none ∧
            (s.layer k).objectAllocator.getBlock = none := by
    rw [Registry.openHandle_eq_none_iff,Sound.full_iff]
    dsimp only [DescriptorLayer.registry]
    rw [Option.map_eq_none_iff]
  unfold DescriptorLayer.openFault
  generalize (s.layer k).registry.openHandle layerLimits r (s.syscallArgs r 0)
    (s.syscallArgs r 1) (hasFlag (s.syscallArgs r k.modeArg) dsosCreate)
    (hasFlag (s.syscallArgs r k.modeArg) dsosExcl) = answer at hanswers hfails
  cases hopen : s.openTrapped k r with
  | error f =>
    unfold openTrapped at hopen
    rw [hopen] at hanswers
    cases hanswers
    rw [if_pos (hfails.mp rfl)]
    exact handler_open_error hopen
  | ok res =>
    rw [if_neg fun hfull => ?_]
    · exact ⟨_,handler_open_ok hopen⟩
    · unfold openTrapped at hopen
      rw [hopen,hfails.mpr hfull] at hanswers
      cases hanswers

theorem blockOnQueue_faulted (h : Inv s) (hr : s.running = some r)
    (hnum : SleepsOnTimer (s.syscallNum r)) (code : ℤ) :
    Faulted (s.idleFault .nullRunning) (s.blockOnQueue r code) := by
  apply faulted_idle
  obtain ⟨u,_,_,⟨hready,herr⟩ | ⟨next,rest,hready,hok⟩⟩ := blockOnQueue_spec h hr hnum code
  · exact Or.inl ⟨hready,herr⟩
  · exact Or.inr ⟨next,rest,_,hready,hok⟩

theorem appendMessage_faulted (s : Kernel) (r q : ℕ) (source : ℤ) :
    Faulted (s.postFault source) (s.appendMessage r q source) := by
  unfold postFault
  cases hb : s.messageAllocator.getBlock with
  | none =>
    rw [if_pos rfl,appendMessage_none hb]
    rfl
  | some b =>
    obtain ⟨m,pool⟩ := b
    rw [if_neg (Option.some_ne_none _),appendMessage_some hb]
    cases hc : s.copyIn source with
    | error f => rfl
    | ok text => exact ⟨_,rfl⟩

theorem internalMqSend_faulted (h : Inv s) (hr : s.running = some r)
    (hnum : SleepsOnTimer (s.syscallNum r)) :
    Faulted (s.handlerFault r .mqSend) (s.internalMqSend r) := by
  dsimp only [handlerFault]
  rcases internalMqSend_cases s r with ⟨hb,v,_,heq⟩ | ⟨hb,heq⟩ | ⟨hb,q,hp,heq⟩
  · rw [if_neg hb]
    split
    · rename_i hpasses
      obtain ⟨q,_,hp⟩ := hpasses
      rw [internalMqSend_passes hp]
      exact appendMessage_faulted s r q _
    · exact ⟨_,heq⟩
  · rw [if_pos hb,heq]
    exact blockOnQueue_faulted h hr hnum _
  · rw [if_neg hb,if_pos ⟨q,hp.1,hp⟩,heq]
    exact appendMessage_faulted s r q _

theorem internalMqReceive_faulted (h : Inv s) (hr : s.running = some r)
    (hnum : SleepsOnTimer (s.syscallNum r)) :
    Faulted (s.handlerFault r .mqReceive) (s.internalMqReceive r) := by
  have hremoves : ∀ {q}, s.ReceivePasses r q → Faulted
      (if (∃ q ∈ s.queueOf r, s.ReceivePasses r q) ∧ s.syscallArgs r 1 = 0
        then some .nullPointer else none) (s.internalMqReceive r) := by
    intro q hp
    obtain ⟨m,rest,_,hrem⟩ := removeMessage_eq (r := r) h
      (h.queueOf_mem (h.running_allocated hr) hp.1) hp.2.2 (s.syscallArgs r 1)
    rw [internalMqReceive_passes hp,hrem]
    by_cases hptr : s.syscallArgs r 1 = 0
    · rw [if_pos ⟨⟨q,hp.1,hp⟩,hptr⟩,if_pos hptr]
      rfl
    · rw [if_neg (fun hboth => hptr hboth.2),if_neg hptr]
      exact ⟨_,rfl⟩
  dsimp only [handlerFault]
  rcases internalMqReceive_cases s r with ⟨hb,v,_,heq⟩ | ⟨hb,q,_,heq⟩ | ⟨hb,q,hp,_⟩
  · rw [if_neg hb]
    by_cases hpasses : ∃ q ∈ s.queueOf r, s.ReceivePasses r q
    · obtain ⟨q,_,hp⟩ := hpasses
      exact hremoves hp
    · rw [if_neg (fun hboth => hpasses hboth.1)]
      exact ⟨_,heq⟩
  · rw [if_pos hb,heq]
    exact blockOnQueue_faulted (h.sizeChecked r q) hr hnum _
  · rw [if_neg hb]
    exact hremoves hp

/-- Every handler ends in the fault that is read off the state before it, or succeeds. -/
theorem handler_faulted (h : Inv s) (hL : ∀ k, (s.layer k).Sound) (hr : s.running = some r)
    (hc : syscallVector (s.syscallNum r).toNat = some c) :
    Faulted (s.handlerFault r c) (handler c s r) := by
  have hnone : ∀ {x}, Outcome s r c x → (∀ f, ¬ Fails s r c f) → ∃ t, x = .ok t := by
    intro x hx hfails
    cases hx with
    | ok => exact ⟨_,rfl⟩
    | error hf => exact absurd hf (hfails _)
  have hout := handler_outcome h hr hc
  cases c with
  | fork => exact create_faulted Prod.snd rfl
  | spawn => exact create_faulted (fun res => { res.2 with
      cpuState := Function.update res.2.cpuState res.1
        (some ⟨res.2.pid res.1,.entry (res.2.syscallArgs r 0) (res.2.syscallArgs r 1)⟩) }) rfl
  | wait => exact internalWait_faulted h hr
  | exit => exact internalExit_faulted h hr
  | openResource => exact open_faulted .resources r (hL .resources)
  | mqOpen => exact open_faulted .messagequeues r (hL .messagequeues)
  | mqSend => exact internalMqSend_faulted h hr (sleepsOnTimer_of_syscall (Or.inr (Or.inl hc)))
  | mqReceive =>
    exact internalMqReceive_faulted h hr (sleepsOnTimer_of_syscall (Or.inr (Or.inr hc)))
  | _ =>
    refine hnone hout ?_
    intro f hf
    cases hf with
    | noBlock hc => simp at hc

/-- The result is as listed, or a process is selected that has no context. -/
def Listed (o : Option Fault) (x : Except Fault Kernel) : Prop :=
  Faulted o x ∨ o = none ∧ x = .error .badContext

theorem Faulted.listed {o : Option Fault} {x : Except Fault Kernel} (h : Faulted o x) :
    Listed o x := Or.inl h

theorem setcontext_listed (s : Kernel) (p : ℕ) : Listed none (s.setcontext p) := by
  unfold setcontext
  cases s.cpuState p with
  | none => exact Or.inr ⟨rfl,rfl⟩
  | some c => exact Or.inl ⟨_,rfl⟩

theorem leaveTrap_listed (hdown : s.shutdownNow = false) :
    Listed (if s.running = none ∧ s.logFile = true then some .nullRunning else none)
      s.leaveTrap := by
  unfold leaveTrap
  rw [hdown]
  cases hrun : s.running with
  | none =>
    cases hlog : s.logFile with
    | true => exact Faulted.listed (o := some .nullRunning) rfl
    | false => exact Faulted.listed (o := none) ⟨s,rfl⟩
  | some p =>
    rw [if_neg (by simp)]
    exact setcontext_listed s p

theorem leaveTrap_running_listed (hdown : s.shutdownNow = false) (hr : s.running ≠ none) :
    Listed none s.leaveTrap := by
  have h := leaveTrap_listed hdown
  rwa [if_neg (fun hnone => hr hnone.1)] at h

theorem Effect.running_none_iff (hr : s.running = some r) (he : Effect s r .sleep t) :
    t.running = none ↔ s.readyList = [] := by
  refine ⟨fun hnone => (he.running_none hr hnone).2,fun hnil => ?_⟩
  cases he with
  | sleep hslept =>
    obtain ⟨⟩ := hslept
    rfl
  | sleepNext _ _ hready =>
    rw [hnil] at hready
    cases hready
  | resource hc => simp at hc
  | queue hc => simp at hc

theorem trap_listed (h : Inv s) (hL : ∀ k, (s.layer k).Sound) (hr : s.running = some r)
    (hc : syscallVector (s.syscallNum r).toNat = some c) (hdown : s.shutdownNow = false) :
    Listed (s.trapFault r c) (s.disastrOSTrap r) := by
  unfold disastrOSTrap trapFault
  rw [hc]
  -- only a sleep gets to the end of the trap without a process that runs
  by_cases hsleep : c = .sleep
  · subst hsleep
    obtain ⟨t,heq⟩ := exists_internalSleep h hr hc
    have he := handler_effect h hr hc heq
    have hleave := leaveTrap_listed ((he.cpu.2.2 (by simp)).trans hdown)
    simp only [handler,heq,ok_bind,he.running_none_iff hr,he.cpu.2.1] at hleave ⊢
    unfold idleFault
    by_cases hlog : s.logFile = true
    · simpa [hlog] using hleave
    · simpa [hlog,handlerFault] using hleave
  · rw [if_neg (fun hboth => hsleep hboth.1)]
    have hfaulted := handler_faulted h hL hr hc
    cases ho : s.handlerFault r c with
    | some f =>
      rw [ho] at hfaulted
      have herr : handler c s r = .error f := hfaulted
      simp only [herr,error_bind]
      exact Faulted.listed (o := some f) rfl
    | none =>
      rw [ho] at hfaulted
      obtain ⟨t,hok⟩ := hfaulted
      have he := handler_effect h hr hc hok
      simp only [hok,ok_bind]
      by_cases hshut : c = .shutdown
      · subst hshut
        cases hok
        exact Faulted.listed (o := none) ⟨_,rfl⟩
      · exact leaveTrap_running_listed ((he.cpu.2.2 hshut).trans hdown)
          fun hnone => hsleep (he.running_none hr hnone).1

theorem call_listed (h : Inv s) (hL : ∀ k, (s.layer k).Sound) (hdown : s.shutdownNow = false)
    (hcpu : s.cpu ≠ .syscall) (num : ℤ) (args : List ℤ) :
    Listed (s.stepFault (.call num args)) (s.disastrOSSyscall num args) := by
  unfold stepFault disastrOSSyscall
  rw [hdown]
  simp only [hcpu,if_false,Bool.false_eq_true]
  cases hr : s.running with
  | none => exact Faulted.listed (o := some .assertion) rfl
  | some r =>
    by_cases hrange : num < 0 ∨ dsosMaxSyscalls < num
    · have hne : num ≠ dsosMaxSyscalls := by
        unfold dsosMaxSyscalls at hrange ⊢
        omega
      simp only [if_pos hrange,if_neg hne,syscallVector_of_range hrange]
      exact Faulted.listed (o := none) ⟨_,rfl⟩
    · simp only [if_neg hrange]
      by_cases hmax : num = dsosMaxSyscalls
      · rw [if_pos hmax,if_pos hmax]
        exact Faulted.listed (o := some .outOfBounds) rfl
      · have hsys := syscallNum_enterTrap s r num args
        rw [if_neg hmax,if_neg hmax]
        cases hc : syscallVector num.toNat with
        | none =>
          unfold disastrOSTrap
          rw [hsys,hc]
          exact leaveTrap_running_listed hdown fun hnone => absurd (hr.symm.trans hnone) (by simp)
        | some c => exact trap_listed (h.enterTrap hr num args) hL hr (by rw [hsys]; exact hc) hdown

theorem tick_listed (h : Inv s) :
    Listed (if s.running = none then some .nullRunning else none) s.timerInterrupt := by
  unfold timerInterrupt
  cases hr : s.running with
  | none => exact Faulted.listed (o := some .nullRunning) rfl
  | some r =>
    rw [if_neg (by simp)]
    obtain ⟨v,hv⟩ : ∃ v, (s.ticked r).internalSchedule = .ok v := by
      obtain ⟨u,_,_,⟨_,heq⟩ | ⟨_,_,_,heq⟩⟩ := internalSchedule_spec (h.ticked r) hr
      · exact ⟨_,heq⟩
      · exact ⟨_,heq⟩
    have hne := (internalSchedule_scheduled (h.ticked r) hr hv).running_ne_none
      (s := s.ticked r) hr
    simp only [hv,ok_bind]
    cases hrun : v.running with
    | none => exact absurd hrun hne
    | some p => exact setcontext_listed v p

theorem start_listed : Listed (if s.pcbAllocator.getBlock = none then some .nullPointer else none)
    s.startFirstProcess := by
  unfold startFirstProcess
  cases ha : s.pcbAlloc with
  | error f =>
    have hnone : s.pcbAllocator.getBlock = none := by
      cases hb : s.pcbAllocator.getBlock with
      | none => rfl
      | some b =>
        unfold pcbAlloc at ha
        rw [hb] at ha
        cases ha
    cases pcbAlloc_error ha
    rw [if_pos hnone]
    simp only [error_bind]
    exact Faulted.listed (o := some .nullPointer) rfl
  | ok v =>
    obtain ⟨p,t⟩ := v
    obtain ⟨pool,hb,rfl⟩ := pcbAlloc_ok ha
    rw [if_neg (by simp [hb])]
    simp only [ok_bind]
    exact setcontext_listed _ _

/-- The step fails with the fault that is listed for it. -/
theorem step_listed (h : Inv s) (hL : ∀ k, (s.layer k).Sound)
    (hidle : s.running = none → s.cpu ≠ .syscall) : Listed (s.stepFault a) (s.step a) := by
  unfold step
  by_cases hdown : s.shutdownNow = true
  · unfold stepFault
    rw [if_pos hdown,if_pos hdown]
    exact Faulted.listed (o := some .disabled) rfl
  · rw [if_neg hdown]
    cases a with
    | call num args =>
      by_cases hcpu : s.cpu = .syscall
      · unfold stepFault
        simp only [hdown,hcpu,if_true]
        exact Faulted.listed (o := some .disabled) rfl
      · simp only [if_neg hcpu]
        exact call_listed h hL (by simpa using hdown) hcpu num args
    | tick =>
      unfold stepFault
      rw [if_neg hdown]
      exact tick_listed h
    | ret =>
      unfold stepFault
      rw [if_neg hdown]
      by_cases hcpu : s.cpu = .syscall
      · simp only [if_pos hcpu]
        cases hr : s.running with
        | none => exact absurd hcpu (hidle hr)
        | some r =>
          unfold returnFromSyscall
          rw [hr]
          exact Faulted.listed (o := none) ⟨_,rfl⟩
      · simp only [if_neg hcpu]
        exact Faulted.listed (o := some .disabled) rfl
    | store address c =>
      unfold stepFault
      rw [if_neg hdown]
      by_cases hoff : s.running = none ∨ s.cpu = .syscall
      · simp only [if_pos hoff]
        exact Faulted.listed (o := some .disabled) rfl
      · simp only [if_neg hoff]
        exact Faulted.listed (o := none) ⟨_,rfl⟩
    | resumeMain =>
      unfold stepFault
      rw [if_neg hdown]
      by_cases hr : s.running = none
      · simp only [ne_eq,hr,not_true_eq_false,if_false]
        exact start_listed
      · simp only [ne_eq,hr,not_false_eq_true,if_true]
        exact Faulted.listed (o := some .disabled) rfl

end Kernel

/-- The fault that is read off a state before the step is the fault of the step. -/
theorem faults_listed {s : Kernel} {a : Action} {f : Fault} (hs : Reachable s)
    (hf : f ≠ .badContext) : s.step a = .error f ↔ s.stepFault a = some f := by
  rcases Kernel.step_listed (a := a) hs.inv hs.sound (Kernel.cpu_of_idle hs) with
    hfaulted | ⟨hnone,hstep⟩
  · cases hlist : s.stepFault a with
    | none =>
      rw [hlist] at hfaulted
      obtain ⟨t,hstep⟩ := hfaulted
      simp [hstep]
    | some f' =>
      rw [hlist] at hfaulted
      have hstep : s.step a = .error f' := hfaulted
      simp [hstep]
  · rw [hnone,hstep]
    simp [hf.symm]

/-- The only child sleeps and the first process waits for it. -/
theorem faults_listed_run : ∃ s : Kernel, s.step (.call 3 [0,0]) = .error .detachNull ∧
    s.stepFault (.call 3 [0,0]) = some .detachNull := by
  obtain ⟨s,hs,hcheck⟩ := exists_run Transitions.unguarded [.call 5 [1,0],.ret,.tick,.call 6 [9]]
      (fun s => match s.step (.call 3 [0,0]) with
      | .error f => f = .detachNull
      | .ok _ => false)
    (by decide)
  have hstep : s.step (.call 3 [0,0]) = .error .detachNull := by
    cases hstep : s.step (.call 3 [0,0]) with
    | ok t => simp [hstep] at hcheck
    | error f =>
      simp only [hstep,decide_eq_true_eq] at hcheck
      rw [hcheck]
  exact ⟨s,hstep,(faults_listed hs (by simp)).mp hstep⟩

/-- Along a run without forks an action can be taken exactly if no fault is listed for it. -/
theorem taken_iff_no_fault {s : Kernel} {a : Action} (hs : ReachableUnder Kernel.KeepsContexts s)
    (ha : s.KeepsContexts a) : (∃ t, s.step a = .ok t) ↔ s.stepFault a = none := by
  have h := hs.reachable.inv
  rcases Kernel.step_listed (a := a) h hs.reachable.sound (Kernel.cpu_of_idle hs.reachable) with
    hfaulted | ⟨_,hbad⟩
  · cases hlist : s.stepFault a with
    | none =>
      rw [hlist] at hfaulted
      exact iff_of_true hfaulted rfl
    | some f =>
      rw [hlist] at hfaulted
      have hstep : s.step a = .error f := hfaulted
      simp [hstep]
  · exact absurd hbad (Kernel.step_ne_badContext h hs.prepared ha)

/-- No fault is listed for a second spawn, so it can be made; and a tick can come, so no fault is
listed for it. -/
theorem taken_iff_no_fault_run : ∃ s t : Kernel,
    (s.stepFault (.call 5 [1,0]) = none ∧ ∃ u, s.step (.call 5 [1,0]) = .ok u) ∧
    s.step .tick = .ok t ∧ s.stepFault .tick = none := by
  obtain ⟨s,hs,hcheck⟩ := exists_run Kernel.KeepsContexts [.call 5 [1,0],.ret]
    (fun s => s.stepFault (.call 5 [1,0]) = none && s.after .tick (fun _ => true)) (by decide)
  simp only [Bool.and_eq_true,decide_eq_true_eq] at hcheck
  obtain ⟨hnone,hafter⟩ := hcheck
  obtain ⟨t,htick,_⟩ := Kernel.after_eq_true hafter
  have hspawn : s.KeepsContexts (.call 5 [1,0]) := by
    unfold Kernel.KeepsContexts
    decide
  have htickKeeps : s.KeepsContexts .tick := by
    unfold Kernel.KeepsContexts
    decide
  exact ⟨s,t,⟨hnone,(taken_iff_no_fault hs hspawn).mpr hnone⟩,htick,
    (taken_iff_no_fault hs htickKeeps).mp ⟨t,htick⟩⟩

end DisastrOS
