import DisastrOS.Behaviour.Kinship
import DisastrOS.Behaviour.Timers
import DisastrOS.Properties.Faults

/-! # The contexts that a switch resumes

A context carries the identifier of the process it was set up for. Identifiers are given
only once, so a process whose context carries its own identifier has got this context
since its block was allocated, and not from an earlier owner of the block.
-/
namespace DisastrOS

namespace Kin

variable {k : Kin} {contexts : ℕ → Option Context} {p r q d i x : ℕ} {value : ℤ}
variable {pool : Pool maxNumProcesses} {point : ResumePoint}

/-- Every process that is no zombie has a context that was set up for it. -/
def Prepared (k : Kin) (contexts : ℕ → Option Context) : Prop :=
  ∀ p, k.pcbs.Allocated p → p ∉ k.zombies → (contexts p).map Context.pid = some (k.pid p)

/-- Contexts carry identifiers that have been given. -/
def Stamped (k : Kin) (contexts : ℕ → Option Context) : Prop :=
  ∀ p c, contexts p = some c → c.pid < k.lastPid

theorem Prepared.save (h : k.Prepared contexts) (r : ℕ) (point : ResumePoint) :
    k.Prepared (Function.update contexts r (some ⟨k.pid r,point⟩)) := by
  intro p hp hz
  by_cases hpr : p = r
  · subst hpr
    rw [Function.update_self]
    rfl
  · rw [Function.update_of_ne hpr]
    exact h p hp hz

theorem Prepared.exit (h : k.Prepared contexts) : (k.exit i r value).Prepared contexts := by
  intro p hp hz
  exact h p hp (fun hmem => hz (mem_listAppend.mpr (Or.inl hmem)))

theorem Prepared.release (h : k.Prepared contexts) (hd : k.pcbs.Allocated d) :
    (k.release q x d).Prepared contexts := by
  intro p hp hz
  obtain ⟨hpd,hpA⟩ := (Pool.allocated_releaseBlock hd p).mp hp
  exact h p hpA (fun hmem => hz ((List.mem_erase_of_ne hpd).mpr hmem))

theorem Prepared.create (h : k.Prepared contexts) (hb : k.pcbs.getBlock = some (p,pool)) :
    (k.create r p pool x).Prepared (Function.update contexts p (some ⟨k.lastPid,point⟩)) := by
  obtain ⟨_,_,hal⟩ := Pool.getBlock_eq_some hb
  intro q hq hz
  change _ = some (Function.update k.pid p k.lastPid q)
  by_cases hqp : q = p
  · subst hqp
    rw [Function.update_self,Function.update_self]
    rfl
  · rw [Function.update_of_ne hqp,Function.update_of_ne hqp]
    exact h q (((hal q).mp hq).resolve_left hqp) hz

theorem Prepared.restart (h : k.Prepared contexts) (hb : k.pcbs.getBlock = some (p,pool)) :
    (k.restart p pool).Prepared (Function.update contexts p (some ⟨k.lastPid,point⟩)) :=
  h.create (r := p) (x := p) hb

theorem Stamped.set (h : k.Stamped contexts) {c : Context} (hc : c.pid < k.lastPid) (r : ℕ) :
    k.Stamped (Function.update contexts r (some c)) := by
  intro p c' hp
  by_cases hpr : p = r
  · subst hpr
    rw [Function.update_self] at hp
    cases hp
    exact hc
  · rw [Function.update_of_ne hpr] at hp
    exact h p c' hp

theorem Stamped.create (h : k.Stamped contexts) : (k.create r p pool x).Stamped contexts :=
  fun q c hq => (h q c hq).trans (Int.lt_succ _)

theorem Stamped.restart (h : k.Stamped contexts) : (k.restart p pool).Stamped contexts :=
  fun q c hq => (h q c hq).trans (Int.lt_succ _)

end Kin

namespace Kernel

/-- The context of the process was set up for it. -/
def HasContext (s : Kernel) (p : ℕ) : Prop := (s.cpuState p).map Context.pid = some (s.pid p)

/-- Every process that the kernel may select has a context that was set up for it. -/
def ValidContexts (s : Kernel) : Prop := ∀ p, p ∈ s.readyList ∨ p ∈ s.waitingList → s.HasContext p

/-- The processor goes on in the context of the process that runs, which is its own. -/
def ResumesOwn (s : Kernel) : Prop := ∀ p, s.running = some p → s.cpuState p = some ⟨s.pid p,s.cpu⟩

/-- The action is not a fork. -/
def KeepsContexts (_ : Kernel) : Action → Prop
  | .call num _ => num ≠ Syscall.fork.number
  | _ => True

instance (s : Kernel) : (a : Action) → Decidable (s.KeepsContexts a)
  | .call num _ => inferInstanceAs (Decidable (num ≠ Syscall.fork.number))
  | .resumeMain | .tick | .ret | .store _ _ => instDecidableTrue

/-- The actions that end in a `setcontext`, unless they fail or shut the system down. -/
def switches : Action → Bool
  | .tick | .resumeMain => true
  | .call num _ => 0 ≤ num && num < dsosMaxSyscalls
  | _ => false

variable {s t u v : Kernel} {a : Action} {r p q : ℕ} {c : Syscall} {num : ℤ} {args : List ℤ}
variable {pool : Pool maxNumProcesses}

theorem Switched.cpuState (hsw : Switched v t) : t.cpuState = v.cpuState := by
  cases hsw <;> rfl

theorem Effect.cpuState (he : Effect s r c t) (hspawn : c ≠ .spawn) : t.cpuState = s.cpuState := by
  cases he with
  | preempt hs => cases hs with
    | stay hw => obtain ⟨⟩ := hw; rfl
    | rotate hw => obtain ⟨⟩ := hw; rfl
  | spawn => exact absurd rfl hspawn
  | sleep hslept => obtain ⟨⟩ := hslept; rfl
  | sleepNext hslept => obtain ⟨⟩ := hslept; rfl
  | sendBlocks _ hslept => obtain ⟨⟩ := hslept; rfl
  | receiveBlocks _ _ hslept => obtain ⟨⟩ := hslept; rfl
  | _ => rfl

theorem internalSpawn_ok (hok : s.internalSpawn r = .ok t) :
    ∃ p pool x entries point, s.pcbAllocator.getBlock = some (p,pool) ∧
      t.kin = s.kin.create r p pool x ∧ s.pcbPtrAllocator.getBlock = some (x,entries) ∧
        t.cpuState = Function.update s.cpuState p (some ⟨s.lastPid,point⟩) := by
  rcases createChild_cases s r with herr | ⟨p,pool,x,entries,hb,hx,_⟩
  · simp only [internalSpawn,herr,error_bind,reduceCtorEq] at hok
  · cases (internalSpawn_eq hb hx).symm.trans hok
    exact ⟨p,pool,x,entries,_,hb,rfl,hx,rfl⟩

theorem handler_prepared (h : Inv s) (hs : s.kin.Prepared s.cpuState) (hr : s.running = some r)
    (hc : syscallVector (s.syscallNum r).toNat = some c) (hok : handler c s r = .ok v)
    (hfork : c ≠ .fork) : v.kin.Prepared v.cpuState := by
  by_cases hspawn : c = .spawn
  · subst hspawn
    obtain ⟨p,pool,x,_,point,hb,hk,_,hcpu⟩ := internalSpawn_ok hok
    rw [hk,hcpu]
    exact hs.create hb
  · have hrA := h.running_allocated hr
    have he := handler_effect h hr hc hok
    rw [he.cpuState hspawn]
    by_cases hkin : c ≠ .wait ∧ c ≠ .exit
    · rw [he.kin hfork hspawn hkin.1 hkin.2]
      exact hs
    · cases he with
      | noChild => exact hs
      | block => exact hs
      | @reap x hx hz =>
        rw [kin_reaped]
        exact hs.release (h.family.childAllocated r hrA x (awaitedEntry_mem hx))
      | collect =>
        rw [kin_collected,kin_exiting]
        exact hs.exit.release hrA
      | replace =>
        rw [kin_replaced,kin_exiting]
        exact hs.exit
      | resource hc => rcases hc with rfl | rfl | rfl <;> simp at hkin
      | queue hc => rcases hc with rfl | rfl <;> simp at hkin
      | _ => simp at hkin

theorem handler_stamped (h : Inv s) (hs : s.kin.Stamped s.cpuState) (hr : s.running = some r)
    (hc : syscallVector (s.syscallNum r).toNat = some c) (hok : handler c s r = .ok v) :
    v.kin.Stamped v.cpuState := by
  by_cases hspawn : c = .spawn
  · subst hspawn
    obtain ⟨p,pool,x,_,point,hb,hk,_,hcpu⟩ := internalSpawn_ok hok
    rw [hk,hcpu]
    exact hs.create.set (Int.lt_succ _) p
  · have he := handler_effect h hr hc hok
    rw [he.cpuState hspawn]
    by_cases hkin : c ≠ .fork ∧ c ≠ .wait ∧ c ≠ .exit
    · rw [he.kin hkin.1 hspawn hkin.2.1 hkin.2.2]
      exact hs
    · cases he with
      | fork =>
        rw [kin_withChild]
        exact hs.create
      | noChild => exact hs
      | block => exact hs
      | reap => exact hs
      | collect => exact hs
      | replace => exact hs
      | spawn => exact absurd rfl hspawn
      | resource hc => rcases hc with rfl | rfl | rfl <;> simp at hkin
      | queue hc => rcases hc with rfl | rfl <;> simp at hkin
      | _ => simp at hkin

theorem validContexts_of_prepared (h : Inv s) (hs : s.kin.Prepared s.cpuState) :
    s.ValidContexts := by
  rintro p (hp | hp)
  · exact hs p (h.placement.allocated_ready hp) (h.placement.ready_not_zombie hp)
  · exact hs p (h.placement.allocated_waiting hp) (h.placement.waiting_not_zombie hp)

theorem exists_context (h : Inv s) (hs : s.kin.Prepared s.cpuState) (hr : s.running = some r) :
    ∃ point, s.cpuState r = some ⟨s.pid r,point⟩ := by
  obtain ⟨c,hc,hpid⟩ := Option.map_eq_some_iff.mp
    (hs r (h.running_allocated hr) (h.not_zombie_running hr))
  have hpid' : c.pid = s.pid r := hpid
  exact ⟨c.point,by rw [hc,← hpid']⟩

theorem Switched.resumesOwn (h : Inv v) (hs : v.kin.Prepared v.cpuState)
    (hdown : t.shutdownNow = false) (hsw : Switched v t) : t.ResumesOwn := by
  intro p hp
  cases hsw with
  | @resume q c hrun hc =>
    obtain ⟨point,hpoint⟩ := exists_context h hs hrun
    cases Option.some.inj (hp.symm.trans hrun)
    cases Option.some.inj (hpoint.symm.trans hc)
    exact hc
  | stay hidle =>
    rcases hidle with hnone | hdown'
    · rw [hnone] at hp
      cases hp
    · rw [hdown] at hdown'
      cases hdown'

theorem prepared_enterTrap (hs : s.kin.Prepared s.cpuState) (r : ℕ) (num : ℤ) (args : List ℤ) :
    (s.enterTrap r num args).kin.Prepared (s.enterTrap r num args).cpuState := hs.save r .syscall

theorem stamped_enterTrap (h : Inv s) (hs : s.kin.Stamped s.cpuState) (hr : s.running = some r)
    (num : ℤ) (args : List ℤ) :
    (s.enterTrap r num args).kin.Stamped (s.enterTrap r num args).cpuState :=
  hs.set (h.identity.below r (h.running_allocated hr)) r

theorem cpuState_withInit (s : Kernel) (p : ℕ) (pool : Pool maxNumProcesses) :
    (s.withInit p pool).cpuState =
      Function.update s.cpuState p (some ⟨s.lastPid,.entry s.startFunction s.startArgs⟩) := by
  have hpid : (s.withPcb p pool).pid p = s.lastPid := Function.update_self _ _ _
  rw [← hpid]
  rfl

theorem prepared_withInit (hs : s.kin.Prepared s.cpuState)
    (hb : s.pcbAllocator.getBlock = some (p,pool)) :
    (s.withInit p pool).kin.Prepared (s.withInit p pool).cpuState := by
  rw [kin_withInit,cpuState_withInit]
  exact hs.restart hb

theorem stamped_withInit (hs : s.kin.Stamped s.cpuState) (p : ℕ) (pool : Pool maxNumProcesses) :
    (s.withInit p pool).kin.Stamped (s.withInit p pool).cpuState := by
  rw [kin_withInit,cpuState_withInit]
  exact hs.restart.set (Int.lt_succ _) p

/-- The state in front of a `setcontext` that resumes a process in its own context. -/
def Ready (v : Kernel) : Prop := Inv v ∧ v.kin.Prepared v.cpuState

theorem ready_ticked (h : Inv s) (hs : s.kin.Prepared s.cpuState) (hr : s.running = some r)
    (hok : (s.ticked r).internalSchedule = .ok v) : v.Ready := by
  have hsched := internalSchedule_scheduled (h.ticked r) hr hok
  refine ⟨hsched.inv (s := s.ticked r) hr,?_⟩
  rw [hsched.kin,(Effect.preempt hsched).cpuState nofun]
  exact hs.save r s.cpu

theorem ready_handled (h : Inv s) (hs : s.kin.Prepared s.cpuState) (hr : s.running = some r)
    (hG : s.KeepsContexts (.call num args)) (hc : syscallVector num.toNat = some c)
    (hok : handler c (s.enterTrap r num args) r = .ok v) : v.Ready := by
  have h' := h.enterTrap hr num args
  have hc' := syscallVector_enterTrap (r := r) s args hc
  have hfork : c ≠ .fork := by
    rintro rfl
    exact hG (syscallVector_eq_some hc)
  exact ⟨(handler_effect h' hr hc' hok).inv h' hr hc',
    handler_prepared h' (prepared_enterTrap hs r num args) hr hc' hok hfork⟩

/-- In front of its `setcontext` a step has prepared every process. -/
theorem ready_of_step (h : Inv s) (hs : s.kin.Prepared s.cpuState) (hG : s.KeepsContexts a)
    (hstep : s.step a = .ok t) (ha : switches a = true) : ∃ v, Switched v t ∧ v.Ready := by
  cases a with
  | tick =>
    obtain ⟨r,v,hr,hok,hsw⟩ := step_ticked hstep
    exact ⟨v,hsw,ready_ticked h hs hr hok⟩
  | call num args =>
    obtain ⟨r,hr,_,_,hcalled⟩ := step_called hstep
    cases hcalled with
    | refused hnum =>
      simp only [switches,Bool.and_eq_true,decide_eq_true_eq] at ha
      omega
    | missing hnum hc hsw =>
      exact ⟨_,hsw,(h.enterTrap hr num args).setRetvalue _ _,prepared_enterTrap hs r num args⟩
    | handled hnum hc hok hsw => exact ⟨_,hsw,ready_handled h hs hr hG hc hok⟩
  | resumeMain =>
    cases step_moves h hstep with
    | resumeMain hr hdown hb hsw => exact ⟨_,hsw,h.toWellformed.withInit hr hb,prepared_withInit hs hb⟩
  | ret => cases ha
  | store => cases ha

/-- What does not end in a `setcontext` has nothing to do with the contexts. -/
theorem contexts_of_not_switches (h : Inv s) (hstep : s.step a = .ok t)
    (ha : switches a = false) : t.kin = s.kin ∧ t.cpuState = s.cpuState := by
  cases a with
  | tick => cases ha
  | call num args =>
    obtain ⟨r,_,_,_,hcalled⟩ := step_called hstep
    have hout : ¬ (0 ≤ num ∧ num < dsosMaxSyscalls) := by simpa [switches] using ha
    cases hcalled with
    | refused => exact ⟨rfl,rfl⟩
    | missing hnum => exact absurd hnum hout
    | handled hnum => exact absurd hnum hout
  | ret =>
    cases step_moves h hstep
    exact ⟨rfl,rfl⟩
  | store =>
    cases step_moves h hstep
    exact ⟨rfl,rfl⟩
  | resumeMain => cases ha

theorem handler_ne_badContext (h : Inv s) (hr : s.running = some r)
    (hc : syscallVector (s.syscallNum r).toNat = some c) :
    handler c s r ≠ .error .badContext := by
  intro herr
  cases handler_fails h hr hc herr with
  | sendText _ hf => rcases hf with hf | hf <;> cases hf

theorem setcontext_ne_badContext (hv : v.Ready) (hr : v.running = some r) :
    v.setcontext r ≠ .error .badContext := by
  obtain ⟨point,hc⟩ := exists_context hv.1 hv.2 hr
  unfold setcontext
  rw [hc]
  exact nofun

theorem leaveTrap_ne_badContext (hv : v.Ready) : v.leaveTrap ≠ .error .badContext := by
  unfold leaveTrap
  split
  · simp
  · split
    · split <;> simp
    · rename_i r hr
      exact setcontext_ne_badContext hv hr

theorem timerInterrupt_ne_badContext (h : Inv s) (hs : s.kin.Prepared s.cpuState) :
    s.timerInterrupt ≠ .error .badContext := by
  unfold timerInterrupt
  split
  · simp
  · rename_i r hr
    have hok := internalSchedule_eq (h.ticked r) hr
    rw [hok]
    simp only [ok_bind]
    split
    · simp
    · rename_i p hp
      exact setcontext_ne_badContext (ready_ticked h hs hr hok) hp

theorem disastrOSTrap_ne_badContext (h : Inv s) (hs : s.kin.Prepared s.cpuState)
    (hG : s.KeepsContexts (.call num args)) (hr : s.running = some r) :
    (s.enterTrap r num args).disastrOSTrap r ≠ .error .badContext := by
  have h' := h.enterTrap hr num args
  unfold disastrOSTrap
  rw [syscallNum_enterTrap]
  split
  · exact leaveTrap_ne_badContext ⟨h'.setRetvalue _ _,prepared_enterTrap hs r num args⟩
  · rename_i c hc
    cases hok : handler c (s.enterTrap r num args) r with
    | error f =>
      have hc' := syscallVector_enterTrap (r := r) s args hc
      have hne := handler_ne_badContext h' hr hc'
      rw [hok] at hne
      exact hne
    | ok v => exact leaveTrap_ne_badContext (ready_handled h hs hr hG hc hok)

theorem startFirstProcess_ne_badContext (h : Inv s) (hs : s.kin.Prepared s.cpuState)
    (hr : s.running = none) : s.startFirstProcess ≠ .error .badContext := by
  unfold startFirstProcess
  cases hal : s.pcbAlloc with
  | error e =>
    cases pcbAlloc_error hal
    simp
  | ok v =>
    obtain ⟨p,v⟩ := v
    obtain ⟨pool,hb,rfl⟩ := pcbAlloc_ok hal
    exact setcontext_ne_badContext (v := s.withInit p pool)
      ⟨h.toWellformed.withInit hr hb,prepared_withInit hs hb⟩ rfl

/-- No step of a run without forks resumes a context that was never set up. -/
theorem step_ne_badContext (h : Inv s) (hs : s.kin.Prepared s.cpuState) (hG : s.KeepsContexts a) :
    s.step a ≠ .error .badContext := by
  unfold step
  split
  · simp
  · cases a with
    | tick => exact timerInterrupt_ne_badContext h hs
    | call num args =>
      simp only [disastrOSSyscall]
      split
      · simp
      · split
        · simp
        · rename_i r hr
          split
          · simp
          · split
            · simp
            · exact disastrOSTrap_ne_badContext h hs hG hr
    | ret =>
      simp only [returnFromSyscall]
      split
      · split <;> simp
      · simp
    | store address c =>
      simp only
      split <;> simp
    | resumeMain =>
      simp only
      split
      · rename_i hr
        exact startFirstProcess_ne_badContext h hs hr
      · simp

theorem step_prepared (h : Inv s) (hs : s.kin.Prepared s.cpuState) (hG : s.KeepsContexts a)
    (hstep : s.step a = .ok t) : t.kin.Prepared t.cpuState := by
  cases ha : switches a with
  | true =>
    obtain ⟨v,hsw,_,hv⟩ := ready_of_step h hs hG hstep ha
    rw [hsw.kin,hsw.cpuState]
    exact hv
  | false =>
    obtain ⟨hk,hcpu⟩ := contexts_of_not_switches h hstep ha
    rw [hk,hcpu]
    exact hs

theorem step_stamped (h : Inv s) (hs : s.kin.Stamped s.cpuState) (hstep : s.step a = .ok t) :
    t.kin.Stamped t.cpuState := by
  cases a with
  | tick =>
    obtain ⟨r,v,hr,hok,hsw⟩ := step_ticked hstep
    have hsched := internalSchedule_scheduled (h.ticked r) hr hok
    have hcpu := (Effect.preempt hsched).cpuState nofun
    rw [hsw.kin,hsw.cpuState,hsched.kin,hcpu]
    exact hs.set (h.identity.below r (h.running_allocated hr)) r
  | call num args =>
    obtain ⟨r,hr,_,_,hcalled⟩ := step_called hstep
    have h' := h.enterTrap hr num args
    have hs' := stamped_enterTrap h hs hr num args
    cases hcalled with
    | refused hnum => exact hs
    | missing hnum hc hsw =>
      rw [hsw.kin,hsw.cpuState]
      exact hs'
    | @handled c v t hnum hc hok hsw =>
      have hc' := syscallVector_enterTrap (r := r) s args hc
      rw [hsw.kin,hsw.cpuState]
      exact handler_stamped h' hs' hr hc' hok
  | resumeMain =>
    cases step_moves h hstep with
    | @resumeMain p pool t hr hdown hb hsw =>
      rw [hsw.kin,hsw.cpuState]
      exact stamped_withInit hs p pool
  | ret =>
    cases step_moves h hstep
    exact hs
  | store =>
    cases step_moves h hstep
    exact hs

/-- A fork makes a process ready that has no context, or that of an earlier one. -/
theorem not_validContexts_fork (h : Inv s) (hs : s.kin.Stamped s.cpuState)
    (hstep : s.step (.call Syscall.fork.number args) = .ok t) : ¬ t.ValidContexts := by
  obtain ⟨r,hr,_,_,hcalled⟩ := step_called hstep
  have hs' := stamped_enterTrap h hs hr Syscall.fork.number args
  cases hcalled with
  | refused hnum => exact absurd hnum (by decide)
  | missing hnum hc => cases hc
  | @handled c v t hnum hc hok hsw =>
    cases hc
    have hfork : syscallVector (Syscall.fork.number : ℤ).toNat = some .fork := rfl
    have hc' := syscallVector_enterTrap (r := r) s args hfork
    cases handler_effect (h.enterTrap hr _ args) hr hc' hok with
    | @fork p x pool entries hb hx =>
      intro hvalid
      have hready : p ∈ t.readyList := by
        rw [hsw.readyList]
        exact mem_listAppend.mpr (Or.inr rfl)
      have hpid : t.pid p = s.lastPid := by
        have hk := congrFun (congrArg Kin.pid hsw.kin) p
        exact hk.trans (Function.update_self _ _ _)
      have hcontext := hvalid p (Or.inl hready)
      unfold HasContext at hcontext
      rw [hsw.cpuState,hpid] at hcontext
      obtain ⟨c,hc,hcpid⟩ := Option.map_eq_some_iff.mp hcontext
      have hlt := hs' p c hc
      rw [hcpid] at hlt
      exact absurd hlt (Int.lt_irrefl _)
    | resource hc => simp at hc
    | queue hc => simp at hc

theorem disastrOSStart_prepared {function args : ℤ} {logFile : Bool} {chars : ℤ → UInt8}
    {ints : ℤ → ℤ} (hok : disastrOSStart function args logFile chars ints = .ok s) :
    s.kin.Prepared s.cpuState ∧ s.kin.Stamped s.cpuState := by
  obtain ⟨p,pool,hb,hsw⟩ := startFirstProcess_ok hok
  rw [hsw.kin,hsw.cpuState]
  constructor
  · apply prepared_withInit _ hb
    intro q hq
    exact absurd hq (Pool.not_allocated_full maxNumProcesses_pos q)
  · apply stamped_withInit
    exact nofun

end Kernel

theorem Reachable.stamped {s : Kernel} (hs : Reachable s) : s.kin.Stamped s.cpuState := by
  refine Transitions.Reach.invariant_within (I := fun s => s.kin.Stamped s.cpuState)
    (fun _ => Reachable.inv) ?_ (fun s a t h hs _ hst => Kernel.step_stamped h hs hst) hs
  rintro s ⟨function,args,logFile,chars,ints,hok⟩
  exact (Kernel.disastrOSStart_prepared hok).2

/-- Along a run without forks every process that is no zombie has a context. -/
theorem ReachableUnder.prepared {s : Kernel} (hs : ReachableUnder Kernel.KeepsContexts s) :
    s.kin.Prepared s.cpuState := by
  refine Transitions.Reach.invariant_within (I := fun s => s.kin.Prepared s.cpuState)
    (fun _ => Reachable.inv) ?_ (fun s a t h hs hG hst => Kernel.step_prepared h hs hG hst) hs
  rintro s ⟨function,args,logFile,chars,ints,hok⟩
  exact (Kernel.disastrOSStart_prepared hok).1

/-- Along every run without forks whoever is ready or waits has a context that was set up
for it, and the first fork ends that. Every switch of such a run resumes a context, and
it is that of the process that runs. -/
theorem contexts_valid {s : Kernel} (hs : ReachableUnder Kernel.KeepsContexts s) :
    s.ValidContexts ∧ (∀ a t, s.step a = .ok t → (t.ValidContexts ↔ s.KeepsContexts a)) ∧
    ∀ a, s.KeepsContexts a → s.step a ≠ .error .badContext ∧
      ∀ t, s.step a = .ok t → Kernel.switches a = true → t.shutdownNow = false →
        t.ResumesOwn := by
  have h := hs.reachable.inv
  have hprep := hs.prepared
  refine ⟨Kernel.validContexts_of_prepared h hprep,?_,?_⟩
  · intro a t hst
    constructor
    · intro hvalid
      cases a with
      | call num args =>
        rintro rfl
        exact Kernel.not_validContexts_fork h hs.reachable.stamped hst hvalid
      | _ => trivial
    · intro hG
      have ht := (Kernel.step_moves h hst).inv h
      exact Kernel.validContexts_of_prepared ht (Kernel.step_prepared h hprep hG hst)
  · intro a hG
    refine ⟨Kernel.step_ne_badContext h hprep hG,?_⟩
    intro t hst ha hdown
    obtain ⟨v,hsw,hv⟩ := Kernel.ready_of_step h hprep hG hst ha
    exact hsw.resumesOwn hv.1 hv.2 hdown

/-- The block of a process that was waited for has a new process, which is ready. -/
theorem contexts_valid_run : ∃ s : Kernel, (s.readyList = [1] ∧ s.pid 1 = 2 ∧
    s.running = some 0) ∧ s.ValidContexts ∧
    (∀ a t, s.step a = .ok t → (t.ValidContexts ↔ s.KeepsContexts a)) ∧
    s.step .tick ≠ .error .badContext ∧
    ∀ t, s.step .tick = .ok t → t.shutdownNow = false → t.ResumesOwn := by
  obtain ⟨s,hs,hcheck⟩ := exists_run Kernel.KeepsContexts
    [.call 5 [1,0],.ret,.tick,.call 4 [7],.call 3 [0,0],.ret,.call 5 [1,0],.ret]
    (fun s => s.readyList = [1] && s.pid 1 = 2 && s.running = some 0) (by decide)
  obtain ⟨hvalid,hstep,hresumes⟩ := contexts_valid hs
  obtain ⟨hbad,hown⟩ := hresumes .tick trivial
  refine ⟨s,?_,hvalid,hstep,hbad,fun t hst => hown t hst rfl⟩
  simpa [and_assoc] using hcheck

/-- A fork makes its child ready without a context. -/
theorem fork_sets_no_context : ¬ ∀ s : Kernel, Reachable s → s.ValidContexts := by
  intro hclaim
  obtain ⟨s,hs,hcheck⟩ := exists_run Transitions.unguarded [.call 2 []]
    (fun s => s.readyList = [1] && s.cpuState 1 = none) (by decide)
  simp only [Bool.and_eq_true,decide_eq_true_eq] at hcheck
  have hready : 1 ∈ s.readyList := by simp [hcheck.1]
  have hcontext := hclaim s hs 1 (Or.inl hready)
  unfold Kernel.HasContext at hcontext
  rw [hcheck.2] at hcontext
  cases hcontext

end DisastrOS
