import DisastrOS.Behaviour.Handlers

/-! # What a step can do

All states that a step can lead to from a state that satisfies the invariant. The
properties of the kernel are derived from this list of cases and from that of the handlers.
-/
namespace DisastrOS

namespace Kernel

/-- The processor goes on with the running process, if there is one to go on with. -/
inductive Switched (v : Kernel) : Kernel → Prop
  | resume {p : ℕ} {c : Context} (hrun : v.running = some p) (hc : v.cpuState p = some c) :
      Switched v { v with cpu := c.point }
  | stay (hidle : v.running = none ∨ v.shutdownNow) : Switched v v

/-- The states that a step can lead to. -/
inductive Moves (s : Kernel) : Action → Kernel → Prop
  | tick {r : ℕ} {v t : Kernel} (hr : s.running = some r) (hdown : s.shutdownNow = false)
      (hs : Scheduled (s.ticked r) r v) (hsw : Switched v t) : Moves s .tick t
  | refused {r : ℕ} {num : ℤ} {args : List ℤ} (hr : s.running = some r) (hcpu : s.cpu ≠ .syscall)
      (hnum : num < 0 ∨ dsosMaxSyscalls < num) :
      Moves s (.call num args) (s.record (.refused r dsosESyscallOutOfRange))
  | missing {r : ℕ} {num : ℤ} {args : List ℤ} {t : Kernel} (hr : s.running = some r)
      (hdown : s.shutdownNow = false) (hcpu : s.cpu ≠ .syscall) (hnum : 0 ≤ num)
      (hc : syscallVector num.toNat = none)
      (hsw : Switched ((s.enterTrap r num args).setRetvalue r dsosESyscallNotImplemented) t) :
      Moves s (.call num args) t
  | handled {r : ℕ} {num : ℤ} {args : List ℤ} {c : Syscall} {v t : Kernel}
      (hr : s.running = some r) (hdown : s.shutdownNow = false) (hcpu : s.cpu ≠ .syscall)
      (hnum : 0 ≤ num) (hc : syscallVector num.toNat = some c)
      (he : Effect (s.enterTrap r num args) r c v) (hsw : Switched v t) : Moves s (.call num args) t
  | ret {r : ℕ} (hr : s.running = some r) (hcpu : s.cpu = .syscall) :
      Moves s .ret ({ s with cpu := .user }.record (.returned r (s.syscallRetvalue r)))
  | store (address : ℤ) (c : UInt8) :
      Moves s (.store address c) { s with chars := Function.update s.chars address c }
  | resumeMain {p : ℕ} {pool : Pool maxNumProcesses} {t : Kernel} (hr : s.running = none)
      (hdown : s.shutdownNow = false) (hb : s.pcbAllocator.getBlock = some (p,pool))
      (hsw : Switched (s.withInit p pool) t) : Moves s .resumeMain t

variable {s t u : Kernel} {r p : ℕ} {c : Syscall} {a : Action}

theorem setcontext_ok (hrun : s.running = some p) (hok : s.setcontext p = .ok t) :
    Switched s t := by
  unfold setcontext at hok
  split at hok
  · cases hok
  · rename_i c hc
    cases hok
    exact .resume hrun hc

theorem leaveTrap_ok (hok : s.leaveTrap = .ok t) : Switched s t := by
  unfold leaveTrap at hok
  split at hok
  · rename_i hdown
    cases hok
    exact .stay (Or.inr hdown)
  · split at hok
    · rename_i hnone
      split at hok
      · cases hok
      · cases hok
        exact .stay (Or.inl hnone)
    · rename_i p hrun
      exact setcontext_ok hrun hok

theorem leaveTrap_resumes {v : Kernel} {d : Context} (hdown : v.shutdownNow = false)
    (hr : v.running = some r) (hd : v.cpuState r = some d) :
    v.leaveTrap = .ok { v with cpu := d.point } := by
  simp only [leaveTrap,hdown,Bool.false_eq_true,if_false,hr,setcontext,hd]

theorem Inv.ticked (h : Inv s) (r : ℕ) : Inv (s.ticked r) := { h with }

theorem timerInterrupt_ok (hok : s.timerInterrupt = .ok t) :
    ∃ r v, s.running = some r ∧ (s.ticked r).internalSchedule = .ok v ∧ Switched v t := by
  unfold timerInterrupt at hok
  split at hok
  · cases hok
  · rename_i r hr
    obtain ⟨v,hs,hok⟩ := exists_of_bind_eq_ok hok
    split at hok
    · cases hok
    · rename_i p hp
      exact ⟨r,v,hr,hs,setcontext_ok hp hok⟩

theorem syscallNum_enterTrap (s : Kernel) (r : ℕ) (num : ℤ) (args : List ℤ) :
    (s.enterTrap r num args).syscallNum r = num := Function.update_self _ _ _

theorem syscallVector_enterTrap {num : ℤ} (s : Kernel) (args : List ℤ)
    (hc : syscallVector num.toNat = some c) :
    syscallVector ((s.enterTrap r num args).syscallNum r).toNat = some c := by
  rwa [syscallNum_enterTrap]

theorem cpuState_enterTrap (s : Kernel) (r : ℕ) (num : ℤ) (args : List ℤ) :
    (s.enterTrap r num args).cpuState r = some ⟨s.pid r,.syscall⟩ := Function.update_self _ _ _

/-- What a system call of `r` does: it is refused, it finds no handler, or it runs one. -/
inductive Called (s : Kernel) (r : ℕ) (num : ℤ) (args : List ℤ) : Kernel → Prop
  | refused (hnum : num < 0 ∨ dsosMaxSyscalls < num) :
      Called s r num args (s.record (.refused r dsosESyscallOutOfRange))
  | missing {t : Kernel} (hnum : 0 ≤ num ∧ num < dsosMaxSyscalls)
      (hc : syscallVector num.toNat = none)
      (hsw : Switched ((s.enterTrap r num args).setRetvalue r dsosESyscallNotImplemented) t) :
      Called s r num args t
  | handled {c : Syscall} {v t : Kernel} (hnum : 0 ≤ num ∧ num < dsosMaxSyscalls)
      (hc : syscallVector num.toNat = some c)
      (hok : handler c (s.enterTrap r num args) r = .ok v) (hsw : Switched v t) :
      Called s r num args t

theorem disastrOSSyscall_called {num : ℤ} {args : List ℤ}
    (hok : s.disastrOSSyscall num args = .ok t) :
    ∃ r, s.running = some r ∧ s.Called r num args t := by
  unfold disastrOSSyscall at hok
  split at hok
  · cases hok
  · rename_i r hr
    refine ⟨r,hr,?_⟩
    split at hok
    · rename_i hnum
      cases hok
      exact .refused hnum
    · rename_i hnum
      split at hok
      · cases hok
      · have hrange : 0 ≤ num ∧ num < dsosMaxSyscalls := by omega
        unfold disastrOSTrap at hok
        rw [syscallNum_enterTrap] at hok
        split at hok
        · rename_i hc
          exact .missing hrange hc (leaveTrap_ok hok)
        · rename_i c hc
          obtain ⟨v,hh,hok⟩ := exists_of_bind_eq_ok hok
          exact .handled hrange hc hh (leaveTrap_ok hok)

/-- A call is only made by a running process that is not inside another one. -/
theorem step_called {num : ℤ} {args : List ℤ} (hstep : s.step (.call num args) = .ok t) :
    ∃ r, s.running = some r ∧ s.shutdownNow = false ∧ s.cpu ≠ .syscall ∧ s.Called r num args t := by
  unfold step at hstep
  split at hstep
  · cases hstep
  · rename_i hdown
    simp only at hstep
    split at hstep
    · cases hstep
    · rename_i hcpu
      obtain ⟨r,hr,hcalled⟩ := disastrOSSyscall_called hstep
      exact ⟨r,hr,by simpa using hdown,hcpu,hcalled⟩

theorem step_ticked (hstep : s.step .tick = .ok t) : ∃ r v, s.running = some r ∧
    (s.ticked r).internalSchedule = .ok v ∧ Switched v t := by
  unfold step at hstep
  split at hstep
  · cases hstep
  · exact timerInterrupt_ok hstep

theorem Called.moves {num : ℤ} {args : List ℤ} (h : Inv s) (hr : s.running = some r)
    (hdown : s.shutdownNow = false) (hcpu : s.cpu ≠ .syscall) (hcalled : s.Called r num args t) :
    Moves s (.call num args) t := by
  cases hcalled with
  | refused hnum => exact .refused hr hcpu hnum
  | missing hnum hc hsw => exact .missing hr hdown hcpu hnum.1 hc hsw
  | handled hnum hc hok hsw =>
    have he := handler_effect (h.enterTrap hr num args) hr (syscallVector_enterTrap s args hc) hok
    exact .handled hr hdown hcpu hnum.1 hc he hsw

/-- A call whose number has a handler runs it between the trap and its end. -/
theorem disastrOSSyscall_handled {num : ℤ} {args : List ℤ} (hr : s.running = some r)
    (hc : syscallVector num.toNat = some c) :
    s.disastrOSSyscall num args = handler c (s.enterTrap r num args) r >>= leaveTrap := by
  have hnum := syscallVector_eq_some hc
  have hrange : ¬ (num < 0 ∨ dsosMaxSyscalls < num) ∧ num ≠ dsosMaxSyscalls := by
    rw [hnum]
    cases c <;> decide
  simp only [disastrOSSyscall,hr,if_neg hrange.1,if_neg hrange.2,disastrOSTrap,
    syscallNum_enterTrap,hc]

theorem step_call {num : ℤ} {args : List ℤ} (hr : s.running = some r)
    (hdown : s.shutdownNow = false) (hcpu : s.cpu ≠ .syscall)
    (hc : syscallVector num.toNat = some c) :
    s.step (.call num args) = handler c (s.enterTrap r num args) r >>= leaveTrap := by
  rw [← disastrOSSyscall_handled hr hc]
  simp only [step,hdown,Bool.false_eq_true,if_false,if_neg hcpu]

/-- The processor refuses a call only behind a trap and after a shutdown. -/
theorem enabled_of_step {num : ℤ} {args : List ℤ} (hstep : s.step (.call num args) ≠ .error .disabled) :
    s.shutdownNow = false ∧ s.cpu ≠ .syscall := by
  unfold step at hstep
  split at hstep
  · exact absurd rfl hstep
  · rename_i hdown
    refine ⟨by simpa using hdown,fun hcpu => hstep ?_⟩
    simp only [if_pos hcpu]

/-- A call whose handler goes back to the caller, with the context that the trap has saved. -/
theorem step_resumes {v : Kernel} {num : ℤ} {args : List ℤ} (hr : s.running = some r)
    (hdown : s.shutdownNow = false) (hcpu : s.cpu ≠ .syscall)
    (hc : syscallVector num.toNat = some c)
    (hh : handler c (s.enterTrap r num args) r = .ok v) (hrun : v.running = some r)
    (hdown' : v.shutdownNow = false)
    (hcontext : v.cpuState r = (s.enterTrap r num args).cpuState r) :
    s.step (.call num args) = .ok { v with cpu := .syscall } := by
  rw [step_call hr hdown hcpu hc,hh,ok_bind]
  exact leaveTrap_resumes hdown' hrun (hcontext.trans (cpuState_enterTrap s r num args))

theorem startFirstProcess_ok (hok : s.startFirstProcess = .ok t) :
    ∃ p pool, s.pcbAllocator.getBlock = some (p,pool) ∧ Switched (s.withInit p pool) t := by
  unfold startFirstProcess at hok
  obtain ⟨⟨p,v⟩,ha,hok⟩ := exists_of_bind_eq_ok hok
  obtain ⟨pool,hb,rfl⟩ := pcbAlloc_ok ha
  exact ⟨p,pool,hb,setcontext_ok rfl hok⟩

theorem setcontext_error {f : Fault} (hf : s.setcontext p = .error f) : f = .badContext := by
  unfold setcontext at hf
  split at hf
  · cases hf
    rfl
  · cases hf

theorem leaveTrap_error {f : Fault} (hf : s.leaveTrap = .error f) : f.ofHandler = false := by
  unfold leaveTrap at hf
  split at hf
  · cases hf
  · split at hf
    · split at hf
      · cases hf
        rfl
      · cases hf
    · rw [setcontext_error hf]
      rfl

theorem timerInterrupt_error (h : Inv s) {f : Fault} (hf : s.timerInterrupt = .error f) :
    f.ofHandler = false := by
  unfold timerInterrupt at hf
  split at hf
  · cases hf
    rfl
  · rename_i r hr
    obtain ⟨v,hok⟩ : ∃ v, (s.ticked r).internalSchedule = .ok v := by
      obtain ⟨u,_,_,⟨_,hok⟩ | ⟨_,_,_,hok⟩⟩ := internalSchedule_spec (h.ticked r) hr
      · exact ⟨_,hok⟩
      · exact ⟨_,hok⟩
    simp only [hok,ok_bind] at hf
    split at hf
    · cases hf
      rfl
    · rw [setcontext_error hf]
      rfl

theorem startFirstProcess_error {f : Fault} (hf : s.startFirstProcess = .error f) :
    f.ofHandler = false := by
  unfold startFirstProcess at hf
  cases ha : s.pcbAlloc with
  | error e =>
    simp only [ha,error_bind,Except.error.injEq] at hf
    subst hf
    unfold pcbAlloc at ha
    split at ha
    · cases ha
      rfl
    · cases ha
  | ok v =>
    simp only [ha,ok_bind] at hf
    rw [setcontext_error hf]
    rfl

/-- A fault that only a handler has is that of the handler of a call. -/
theorem step_error_handler (h : Inv s) {f : Fault} (hf : s.step a = .error f)
    (hfault : f.ofHandler = true) :
    ∃ num args r c, a = .call num args ∧ s.running = some r ∧
      syscallVector num.toNat = some c ∧ handler c (s.enterTrap r num args) r = .error f := by
  have hnot : f.ofHandler ≠ false := by simp [hfault]
  unfold step at hf
  split at hf
  · cases hf
    cases hfault
  · cases a with
    | tick => exact absurd (timerInterrupt_error h hf) hnot
    | call num args =>
      simp only at hf
      split at hf
      · cases hf
        cases hfault
      · unfold disastrOSSyscall at hf
        split at hf
        · cases hf
          cases hfault
        · rename_i r hr
          split at hf
          · cases hf
          · split at hf
            · cases hf
              cases hfault
            · unfold disastrOSTrap at hf
              rw [syscallNum_enterTrap] at hf
              split at hf
              · exact absurd (leaveTrap_error hf) hnot
              · rename_i c hc
                cases hh : handler c (s.enterTrap r num args) r with
                | error e =>
                  simp only [hh,error_bind,Except.error.injEq] at hf
                  exact ⟨num,args,r,c,rfl,hr,hc,hf ▸ hh⟩
                | ok v =>
                  simp only [hh,ok_bind] at hf
                  exact absurd (leaveTrap_error hf) hnot
    | ret =>
      simp only at hf
      split at hf
      · unfold returnFromSyscall at hf
        split at hf
        · cases hf
          cases hfault
        · cases hf
      · cases hf
        cases hfault
    | store address c =>
      simp only at hf
      split at hf
      · cases hf
        cases hfault
      · cases hf
    | resumeMain =>
      simp only at hf
      split at hf
      · exact absurd (startFirstProcess_error hf) hnot
      · cases hf
        cases hfault

theorem step_moves (h : Inv s) (hstep : s.step a = .ok t) : Moves s a t := by
  unfold step at hstep
  split at hstep
  · cases hstep
  · rename_i hdown
    rw [Bool.not_eq_true] at hdown
    cases a with
    | tick =>
      obtain ⟨r,v,hr,hs,hsw⟩ := timerInterrupt_ok hstep
      exact .tick hr hdown (internalSchedule_scheduled (h.ticked r) hr hs) hsw
    | call num args =>
      simp only at hstep
      split at hstep
      · cases hstep
      · rename_i hcpu
        obtain ⟨r,hr,hcalled⟩ := disastrOSSyscall_called hstep
        exact hcalled.moves h hr hdown hcpu
    | ret =>
      simp only at hstep
      split at hstep
      · rename_i hcpu
        unfold returnFromSyscall at hstep
        split at hstep
        · cases hstep
        · rename_i r hr
          cases hstep
          exact .ret hr hcpu
      · cases hstep
    | store address c =>
      simp only at hstep
      split at hstep
      · cases hstep
      · cases hstep
        exact .store address c
    | resumeMain =>
      simp only at hstep
      split at hstep
      · rename_i hr
        obtain ⟨p,pool,hb,hsw⟩ := startFirstProcess_ok hstep
        exact .resumeMain hr hdown hb hsw
      · cases hstep

theorem Switched.running (hsw : Switched s t) : t.running = s.running := by
  cases hsw <;> rfl

theorem Switched.inv (hsw : Switched s t) (h : Inv s) : Inv t := by
  cases hsw with
  | resume hrun hc => exact { h with }
  | stay => exact h

theorem syscallArgs_enterTrap {i : ℕ} (hi : i < syscallNumarg num.toNat) :
    (s.enterTrap r num args).syscallArgs r i = args.getD i 0 :=
  (congrFun (Function.update_self r _ s.syscallArgs) i).trans (if_pos hi)

/-- Every step keeps the invariant. -/
theorem Moves.inv (h : Inv s) (hm : Moves s a t) : Inv t := by
  cases hm with
  | @tick r v t hr hdown hs hsw => exact hsw.inv (hs.inv (s := s.ticked r) hr)
  | refused => exact h.record _
  | missing hr hdown hcpu hnum hc hsw => exact hsw.inv ((h.enterTrap hr _ _).setRetvalue _ _)
  | handled hr hdown hcpu hnum hc he hsw =>
    exact hsw.inv (he.inv (h.enterTrap hr _ _) hr (syscallVector_enterTrap s _ hc))
  | ret => exact { h with }
  | store => exact { h with }
  | resumeMain hr hdown hb hsw => exact hsw.inv (h.toWellformed.withInit hr hb)

theorem disastrOSStart_inv {function args : ℤ} {logFile : Bool} {chars : ℤ → UInt8} {ints : ℤ → ℤ}
    (hok : disastrOSStart function args logFile chars ints = .ok s) : Inv s := by
  obtain ⟨p,pool,hb,hsw⟩ := startFirstProcess_ok hok
  exact hsw.inv ((cold_wellformed function args logFile chars ints).withInit rfl hb)

end Kernel

/-- The invariant holds in every state of every run. -/
theorem Reachable.inv {s : Kernel} (hs : Reachable s) : s.Inv := by
  refine Transitions.Reach.invariant ?_ ?_ hs
  · rintro s ⟨function,args,logFile,chars,ints,hok⟩
    exact Kernel.disastrOSStart_inv hok
  · intro s a t h _ hstep
    exact (Kernel.step_moves h hstep).inv h

theorem ReachableUnder.reachable {guard : Kernel → Action → Prop} {s : Kernel}
    (hs : ReachableUnder guard s) : Reachable s := Transitions.Reach.unguard hs

/-- The rule by which it is shown when exactly a property of runs is lost. -/
theorem ReachableUnder.holds_iff {guard : Kernel → Action → Prop} {P I : Kernel → Prop}
    (hP : ∀ s, Reachable s → (P s ↔ I s))
    (hinit : ∀ function args logFile chars ints s,
      Kernel.disastrOSStart function args logFile chars ints = .ok s → I s)
    (hstep : ∀ s a t, s.Inv → I s → s.step a = .ok t → (I t ↔ guard s a)) {s : Kernel}
    (hs : ReachableUnder guard s) : P s ∧ ∀ a t, s.step a = .ok t → (P t ↔ guard s a) := by
  refine Transitions.Reach.holds_iff hP ?_ ?_ hs
  · rintro s ⟨function,args,logFile,chars,ints,hok⟩
    exact hinit _ _ _ _ _ s hok
  · intro s a t hs hI hst
    exact hstep s a t (Reachable.inv hs) hI hst

/-- The rule by which properties of runs are shown: a step from a state that satisfies
the invariant. -/
theorem Reachable.induction {P : Kernel → Prop}
    (hinit : ∀ function args logFile chars ints s,
      Kernel.disastrOSStart function args logFile chars ints = .ok s → P s)
    (hstep : ∀ s a t, s.Inv → P s → s.step a = .ok t → P t) {s : Kernel} (hs : Reachable s) :
    P s := by
  refine Transitions.Reach.invariant_within (fun _ => Reachable.inv) ?_ ?_ hs
  · rintro s ⟨function,args,logFile,chars,ints,hok⟩
    exact hinit _ _ _ _ _ s hok
  · intro s a t h hP _ hst
    exact hstep s a t h hP hst

end DisastrOS
