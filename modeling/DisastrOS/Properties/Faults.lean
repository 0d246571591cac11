import DisastrOS.Behaviour.Steps

/-! # Which steps detach from the wrong place or use a null `running`

The handlers that give up the processor do not look whether another process is
ready. The states before the step in which that matters are described exactly.
-/
namespace DisastrOS

namespace Kernel

/-- A call of `r` that does not lead to a wrong detach or to a null `running`. -/
def SafeCall (s : Kernel) (r : ℕ) : Syscall → Prop
  | .wait => (∃ x, s.awaitedEntry r = some x ∧ s.status (s.childPcb x) ≠ .zombie) →
      s.readyList ≠ []
  | .sleep => s.readyList = [] → s.logFile = false
  | .mqSend => s.SendBlocks r → s.readyList ≠ []
  | .mqReceive => s.ReceiveBlocks r → s.readyList ≠ []
  | .exit => ∀ p, s.parent r = some p → (s.initPcb ≠ some r ∨ s.children r = []) →
      if s.wakesParent r p then ∃ x ∈ s.children p, s.childPcb x = r else s.readyList ≠ []
  | _ => True

/-- An action that does not lead to a wrong detach or to a null `running`. -/
def Safe (s : Kernel) : Action → Prop
  | .tick => s.shutdownNow ∨ s.running ≠ none
  | .call num args => s.shutdownNow ∨ s.cpu = .syscall ∨ ∀ r c, s.running = some r → 0 ≤ num →
      syscallVector num.toNat = some c → (s.enterTrap r num args).SafeCall r c
  | _ => True

variable {s t : Kernel} {r p i : ℕ} {c : Syscall} {f : Fault} {a : Action}

theorem Effect.cpu (he : Effect s r c t) : t.cpu = s.cpu ∧ t.logFile = s.logFile ∧
    (c ≠ .shutdown → t.shutdownNow = s.shutdownNow) := by
  cases he with
  | preempt hs => cases hs with
    | stay hw => obtain ⟨⟩ := hw; exact ⟨rfl,rfl,fun _ => rfl⟩
    | rotate hw => obtain ⟨⟩ := hw; exact ⟨rfl,rfl,fun _ => rfl⟩
  | sleep hslept => obtain ⟨⟩ := hslept; exact ⟨rfl,rfl,fun _ => rfl⟩
  | sleepNext hslept => obtain ⟨⟩ := hslept; exact ⟨rfl,rfl,fun _ => rfl⟩
  | sendBlocks _ hslept => obtain ⟨⟩ := hslept; exact ⟨rfl,rfl,fun _ => rfl⟩
  | receiveBlocks _ _ hslept => obtain ⟨⟩ := hslept; exact ⟨rfl,rfl,fun _ => rfl⟩
  | shutdown => exact ⟨rfl,rfl,fun hc => absurd rfl hc⟩
  | _ => exact ⟨rfl,rfl,fun _ => rfl⟩

theorem Effect.running_none (hr : s.running = some r) (he : Effect s r c t)
    (hnone : t.running = none) : c = .sleep ∧ s.readyList = [] := by
  have hsome : s.running ≠ none := by
    rw [hr]
    exact Option.some_ne_none r
  cases he with
  | preempt hs => exact absurd hnone (hs.running_ne_none hr)
  | block => cases hnone
  | collect => cases hnone
  | replace => cases hnone
  | sleep _ _ hready => exact ⟨rfl,hready⟩
  | sleepNext => cases hnone
  | sendBlocks => cases hnone
  | receiveBlocks => cases hnone
  | _ => exact absurd hnone hsome

/-- With no process running, the processor is not behind a trap. -/
theorem cpu_of_idle (hs : Reachable s) : s.running = none → s.cpu ≠ .syscall := by
  refine hs.induction (P := fun s => s.running = none → s.cpu ≠ .syscall) ?_ ?_
  · intro function args logFile chars ints s hok hnone
    obtain ⟨p,pool,_,hsw⟩ := startFirstProcess_ok hok
    cases hsw <;> cases hnone
  · intro s a t h hidle hstep hnone
    cases step_moves h hstep with
    | @tick r v t hr _ hs hsw =>
      exact absurd (hsw.running.symm.trans hnone) (hs.running_ne_none (s := s.ticked r) hr)
    | refused hr => exact absurd (hr.symm.trans hnone) (by simp)
    | missing hr _ _ _ _ hsw =>
      cases hsw <;> exact absurd (hr.symm.trans hnone) (by simp)
    | handled hr _ hcpu _ _ he hsw =>
      cases hsw with
      | resume hrun => exact absurd (hrun.symm.trans hnone) (by simp)
      | stay => exact he.cpu.1 ▸ hcpu
    | ret hr => exact absurd (hr.symm.trans hnone) (by simp)
    | store => exact hidle hnone
    | resumeMain _ _ _ hsw => cases hsw <;> cases hnone

/-- A result that is a wrong detach or a null `running`. -/
def SwitchFault (x : Except Fault Kernel) : Prop := ∃ f, x = .error f ∧ f.ofSwitch = true

@[simp] theorem not_switchFault_ok (t : Kernel) : ¬ SwitchFault (.ok t) := by
  rintro ⟨f,hf,_⟩
  cases hf

@[simp] theorem switchFault_error (f : Fault) : SwitchFault (.error f) ↔ f.ofSwitch = true := by
  constructor
  · rintro ⟨g,hg,hf⟩
    cases hg
    exact hf
  · exact fun hf => ⟨f,rfl,hf⟩

/-- A handler that ends in a state was called safely; sleep is settled behind its handler. -/
theorem Effect.safeCall (h : Inv s) (hr : s.running = some r) (he : Effect s r c t)
    (hsleep : c ≠ .sleep) : s.SafeCall r c := by
  cases he with
  | noChild hnil =>
    rintro ⟨x,hx,_⟩
    have hmem := awaitedEntry_mem hx
    rw [hnil] at hmem
    cases hmem
  | reap hx hz =>
    rintro ⟨y,hy,hyz⟩
    cases Option.some.inj (hx.symm.trans hy)
    exact absurd hz hyz
  | block _ _ hready =>
    intro _
    rw [hready]
    exact List.cons_ne_nil _ _
  | @collect i p x L M hi hir hp hwakes hx hxr =>
    intro q hq _
    cases Option.some.inj (hp.symm.trans hq)
    have hpr := ne_of_wakesParent h hr hwakes
    rw [if_pos hwakes]
    exact (h.family.exists_mem_handedOver (h.running_allocated hr) hpr).mp ⟨x,hx,hxr⟩
  | @replace i p next rest hi hir hp hwakes hready =>
    intro q hq _
    cases Option.some.inj (hp.symm.trans hq)
    rw [if_neg hwakes,hready]
    exact List.cons_ne_nil _ _
  | sleep => exact absurd rfl hsleep
  | sleepNext => exact absurd rfl hsleep
  | sendRefused hblocks => exact fun hb => absurd hb hblocks
  | sendBlocks _ _ _ hready =>
    intro _
    rw [hready]
    exact List.cons_ne_nil _ _
  | send hblocks => exact fun hb => absurd hb hblocks
  | receiveRefused hblocks => exact fun hb => absurd hb hblocks
  | receiveBlocks _ _ _ _ hready =>
    intro _
    rw [hready]
    exact List.cons_ne_nil _ _
  | receive hblocks => exact fun hb => absurd hb hblocks
  | resource hc => rcases hc with rfl | rfl | rfl <;> trivial
  | queue hc => rcases hc with rfl | rfl <;> trivial
  | _ => trivial

/-- A handler that fails goes wrong exactly if it was not called safely. -/
theorem Fails.switchFault (h : Inv s) (hr : s.running = some r) (hf : Fails s r c f) :
    SwitchFault (.error f) ↔ ¬ s.SafeCall r c := by
  rw [switchFault_error]
  cases hf with
  | noBlock hc => rcases hc with rfl | rfl | rfl | rfl <;> exact iff_of_false nofun (by simp [SafeCall])
  | waitIdle hx hz hready => exact iff_of_true rfl (fun hs => hs ⟨_,hx,hz⟩ hready)
  | exitSelf hi hne =>
    refine iff_of_false nofun (not_not.mpr ?_)
    intro p _ hir
    exact absurd hir (by simp [hi,hne])
  | exitOrphan hp =>
    refine iff_of_false nofun (not_not.mpr ?_)
    intro p hp'
    cases hp.symm.trans hp'
  | @exitUnlisted i p hi hir hp hwakes hx =>
    refine iff_of_true rfl (fun hs => ?_)
    have hpr := ne_of_wakesParent h hr hwakes
    have hfound := hs p hp (by simpa [hi] using hir)
    rw [if_pos hwakes] at hfound
    obtain ⟨x,hxm,hxr⟩ :=
      (h.family.exists_mem_handedOver (q := i) (h.running_allocated hr) hpr).mpr hfound
    exact hx x hxm hxr
  | exitIdle hi hir hp hwakes hready =>
    refine iff_of_true rfl (fun hs => ?_)
    have hne := hs _ hp (by simpa [hi] using hir)
    rw [if_neg hwakes] at hne
    exact hne hready
  | sendIdle hblocks hready => exact iff_of_true rfl (fun hs => hs hblocks hready)
  | sendText hblocks hf =>
    refine iff_of_false ?_ (not_not.mpr fun hb => absurd hb hblocks)
    rcases hf with rfl | rfl <;> exact nofun
  | receiveIdle hblocks hready => exact iff_of_true rfl (fun hs => hs hblocks hready)
  | receiveNull hblocks => exact iff_of_false nofun (not_not.mpr fun hb => absurd hb hblocks)

theorem switchFault_handler (h : Inv s) (hr : s.running = some r)
    (hc : syscallVector (s.syscallNum r).toNat = some c) (hsleep : c ≠ .sleep) :
    SwitchFault (handler c s r) ↔ ¬ s.SafeCall r c := by
  cases hh : handler c s r with
  | ok t =>
    have he := handler_effect h hr hc hh
    exact iff_of_false (not_switchFault_ok t) (not_not.mpr (he.safeCall h hr hsleep))
  | error f => exact (handler_fails h hr hc hh).switchFault h hr

theorem exists_internalSleep (h : Inv s) (hr : s.running = some r)
    (hc : syscallVector (s.syscallNum r).toNat = some .sleep) : ∃ t, s.internalSleep r = .ok t := by
  cases hok : s.internalSleep r with
  | ok t => exact ⟨t,rfl⟩
  | error f =>
    cases handler_fails h hr hc hok with
    | noBlock hc => simp at hc

theorem switchFault_leaveTrap (hdown : s.shutdownNow = false) :
    SwitchFault s.leaveTrap ↔ s.running = none ∧ s.logFile = true := by
  unfold leaveTrap
  rw [hdown]
  cases hrun : s.running with
  | none => cases hlog : s.logFile <;> simp [Fault.ofSwitch]
  | some p =>
    cases hc : s.cpuState p <;> simp [setcontext,hc,Fault.ofSwitch]

theorem switchFault_trap (h : Inv s) (hr : s.running = some r)
    (hc : syscallVector (s.syscallNum r).toNat = some c) (hdown : s.shutdownNow = false) :
    SwitchFault (s.disastrOSTrap r) ↔ ¬ s.SafeCall r c := by
  unfold disastrOSTrap
  rw [hc]
  by_cases hsleep : c = .sleep
  · subst hsleep
    obtain ⟨t,heq⟩ := exists_internalSleep h hr hc
    have he := handler_effect h hr hc heq
    have hlog := he.cpu.2.1
    have hdown' := (he.cpu.2.2 (by simp)).trans hdown
    simp only [handler,heq,ok_bind,SafeCall]
    rw [switchFault_leaveTrap hdown',hlog]
    have hready : t.running = none ↔ s.readyList = [] := by
      refine ⟨fun hnone => (he.running_none hr hnone).2,fun hnil => ?_⟩
      cases he with
      | sleep hslept =>
        obtain ⟨⟩ := hslept
        rfl
      | sleepNext _ _ hready =>
        rw [hnil] at hready
        cases hready
      | resource hc => simp at hc
      | queue hc => simp at hc
    simp [hready]
  · rw [← switchFault_handler h hr hc hsleep]
    cases hh : handler c s r with
    | error f => simp only [hh,error_bind]
    | ok t =>
      have he := handler_effect h hr hc hh
      simp only [hh,ok_bind]
      refine iff_of_false ?_ (not_switchFault_ok t)
      by_cases hshut : c = .shutdown
      · subst hshut
        cases hh
        simp [leaveTrap]
      · rw [switchFault_leaveTrap ((he.cpu.2.2 hshut).trans hdown)]
        exact fun hnone => hsleep (he.running_none hr hnone.1).1

theorem switchFault_tick (h : Inv s) :
    SwitchFault s.timerInterrupt ↔ s.running = none := by
  unfold timerInterrupt
  cases hr : s.running with
  | none => simp [Fault.ofSwitch]
  | some r =>
    refine iff_of_false ?_ (by simp)
    cases hs : (s.ticked r).internalSchedule with
    | error f =>
      obtain ⟨u,_,_,⟨_,heq⟩ | ⟨_,_,_,heq⟩⟩ := internalSchedule_spec (h.ticked r) hr
      · cases heq.symm.trans hs
      · cases heq.symm.trans hs
    | ok v =>
      have hv := (internalSchedule_scheduled (h.ticked r) hr hs).running_ne_none
        (s := s.ticked r) hr
      simp only [hs,ok_bind]
      cases hrun : v.running with
      | none => exact absurd hrun hv
      | some p => cases hc : v.cpuState p <;> simp [setcontext,hc,Fault.ofSwitch]

theorem switchFault_call (h : Inv s) (hdown : s.shutdownNow = false) (num : ℤ) (args : List ℤ) :
    SwitchFault (s.disastrOSSyscall num args) ↔ ∃ r c, s.running = some r ∧ 0 ≤ num ∧
      syscallVector num.toNat = some c ∧ ¬ (s.enterTrap r num args).SafeCall r c := by
  unfold disastrOSSyscall
  cases hr : s.running with
  | none => simp [Fault.ofSwitch]
  | some r =>
    by_cases hrange : num < 0 ∨ dsosMaxSyscalls < num
    · simp only [if_pos hrange,syscallVector_of_range hrange]
      exact iff_of_false (not_switchFault_ok _) (by simp)
    · have hnum : 0 ≤ num := by omega
      simp only [if_neg hrange]
      by_cases hmax : num = dsosMaxSyscalls
      · subst hmax
        simp [Fault.ofSwitch,syscallVector,dsosMaxSyscalls]
      · have hsys := syscallNum_enterTrap s r num args
        rw [if_neg hmax]
        cases hc : syscallVector num.toNat with
        | none =>
          unfold disastrOSTrap
          rw [hsys,hc]
          simp only [reduceCtorEq,false_and,and_false,exists_false,iff_false]
          rw [switchFault_leaveTrap (by exact hdown)]
          exact fun hnone => absurd (hr.symm.trans hnone.1) (by simp)
        | some c =>
          rw [switchFault_trap (h.enterTrap hr num args) hr (by rw [hsys]; exact hc) hdown]
          simp [hnum]

/-- A restart that finds no free PCB dereferences the null pointer it got. -/
theorem not_switchFault_start : ¬ SwitchFault s.startFirstProcess := by
  rintro ⟨f,hf,hsw⟩
  unfold startFirstProcess at hf
  cases ha : s.pcbAlloc with
  | error e =>
    simp only [ha,error_bind,Except.error.injEq] at hf
    cases hf
    cases pcbAlloc_error ha
    cases hsw
  | ok v =>
    simp only [ha,ok_bind,setcontext,Function.update_self,reduceCtorEq] at hf

/-- A step ends in a wrong detach or a null `running` exactly from the unsafe states. -/
theorem switchFault_step (hs : Reachable s) : SwitchFault (s.step a) ↔ ¬ s.Safe a := by
  have h := hs.inv
  unfold step Safe
  by_cases hdown : s.shutdownNow = true
  · rw [if_pos hdown]
    cases a <;> simp [hdown,Fault.ofSwitch]
  · rw [if_neg hdown]
    simp only [hdown]
    cases a with
    | tick => simp [switchFault_tick h]
    | call num args =>
      by_cases hcpu : s.cpu = .syscall
      · simp [hcpu,Fault.ofSwitch]
      · simp [hcpu,switchFault_call h (by simpa using hdown)]
    | ret =>
      by_cases hcpu : s.cpu = .syscall
      · cases hr : s.running with
        | none => exact absurd hcpu (cpu_of_idle hs hr)
        | some r => simp [hcpu,returnFromSyscall,hr]
      · simp [hcpu,Fault.ofSwitch]
    | store address c =>
      by_cases hidle : s.running = none ∨ s.cpu = .syscall <;> simp [hidle,Fault.ofSwitch]
    | resumeMain =>
      by_cases hr : s.running = none
      · simp [hr,not_switchFault_start]
      · simp [hr,Fault.ofSwitch]

end Kernel

/-- A step keeps clear of wrong detaches and of a null `running` if and only if it is
safe: the processor is not given up while nobody is ready, an exit that wakes its
parent is on the parent's children list, and no tick comes while nobody runs. -/
theorem no_switchFault_iff_safe {s : Kernel} {a : Action} (hs : Reachable s) :
    ¬ Kernel.SwitchFault (s.step a) ↔ s.Safe a := by
  rw [Kernel.switchFault_step hs,not_not]

/-- The only child sleeps and the first process has just come back. -/
theorem no_switchFault_iff_safe_run : ∃ s : Kernel, s.readyList = [] ∧ s.running = some 0 ∧
    (¬ Kernel.SwitchFault (s.step (.call 6 [3])) ↔ s.Safe (.call 6 [3])) := by
  obtain ⟨s,hs,hcheck⟩ := exists_reachable Transitions.unguarded (fun _ _ => true) true (fun _ => 0)
      [.call 5 [1,0],.ret,.tick,.call 6 [9]]
      (fun s => s.readyList = [] && s.running = some 0)
    (by decide) (fun _ _ _ => trivial)
  have hall : s.readyList = [] ∧ s.running = some 0 := by simpa using hcheck
  exact ⟨s,hall.1,hall.2,no_switchFault_iff_safe hs⟩

/-- A wait while nobody is ready detaches a null item from the ready list. -/
theorem wait_detaches_null :
    ¬ ∀ (s : Kernel) (a : Action), Reachable s → ¬ Kernel.SwitchFault (s.step a) := by
  intro hclaim
  obtain ⟨s,hs,hcheck⟩ := exists_run Transitions.unguarded [.call 5 [1,0],.ret,.tick,.call 6 [9]]
      (fun s => match s.step (.call 3 [0,0]) with
      | .error f => f = .detachNull
      | .ok _ => false)
    (by decide)
  apply hclaim s (.call 3 [0,0]) hs
  cases hstep : s.step (.call 3 [0,0]) with
  | ok t => simp [hstep] at hcheck
  | error f =>
    simp only [hstep,decide_eq_true_eq] at hcheck
    rw [hcheck]
    exact ⟨_,rfl,rfl⟩

end DisastrOS
