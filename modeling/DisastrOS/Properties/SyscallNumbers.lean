import DisastrOS.Kernel.SyscallTables
import DisastrOS.Properties.Exhaustion

/-! # Calls by number

Both checks of a number let through the one behind the last entry of the tables. Every
other number is either refused, or found without a handler, or runs its own one.
-/
namespace DisastrOS

namespace Kernel

/-- Of the process `r` only what its trap stores is different, and nothing else. -/
structure OnlyTrapped (s t : Kernel) (r : ℕ) : Prop where
  rest : t = { s with
    cpuState := t.cpuState
    syscallNum := t.syscallNum
    syscallArgs := t.syscallArgs
    syscallRetvalue := t.syscallRetvalue
    cpu := t.cpu
    history := t.history }
  others : ∀ p, p ≠ r → t.cpuState p = s.cpuState p ∧ t.syscallNum p = s.syscallNum p ∧
    t.syscallArgs p = s.syscallArgs p ∧ t.syscallRetvalue p = s.syscallRetvalue p

/-- A call of `r` with this number reads the tables in bounds and does what they say. -/
structure Dispatched (s : Kernel) (r : ℕ) (num : ℤ) (args : List ℤ) : Prop where
  syscallInBounds : syscallTables.disastrOSSyscall s num args ≠ .error .outOfBounds
  trapInBounds : syscallTables.disastrOSTrap (s.enterTrap r num args) r ≠ .error .outOfBounds
  outOfRange : num < 0 ∨ dsosMaxSyscalls ≤ num →
    s.step (.call num args) = .ok (s.record (.refused r dsosESyscallOutOfRange))
  trapOutOfRange : num < 0 ∨ dsosMaxSyscalls ≤ num →
    ∃ t, syscallTables.disastrOSTrap (s.enterTrap r num args) r = .ok t ∧ t.running = some r ∧
      t.syscallRetvalue r = dsosESyscallOutOfRange ∧ s.OnlyTrapped t r
  notImplemented : 0 ≤ num → num < dsosMaxSyscalls → (∀ c : Syscall, (c.number : ℤ) ≠ num) →
    ∃ t, s.step (.call num args) = .ok t ∧ t.running = some r ∧ t.cpu = .syscall ∧
      t.syscallRetvalue r = dsosESyscallNotImplemented ∧ s.OnlyTrapped t r
  registered : ∀ c : Syscall, (c.number : ℤ) = num →
    s.step (.call num args) = handler c (s.enterTrap r num args) r >>= leaveTrap ∧
      ∃ nargs, readEntry syscallTables.syscallNumarg num = .ok nargs ∧
        nargs ≤ dsosMaxSyscallsArgs ∧
        ∀ i, (s.enterTrap r num args).syscallArgs r i =
          if i < nargs then args.getD i 0 else s.syscallArgs r i

variable {s t : Kernel} {r : ℕ} {num v : ℤ} {args : List ℤ} {c : Syscall} {f : Fault}

theorem Fails.ne_outOfBounds (hf : Fails s r c f) : f ≠ .outOfBounds := by
  cases hf with
  | sendText _ hf => rcases hf with rfl | rfl <;> exact nofun
  | _ => exact nofun

theorem leaveTrap_ne_outOfBounds (s : Kernel) : s.leaveTrap ≠ .error .outOfBounds := by
  intro hf
  unfold leaveTrap at hf
  split at hf
  · cases hf
  · split at hf
    · split at hf <;> cases hf
    · cases setcontext_error hf

theorem handler_ne_outOfBounds (h : Inv s) (hr : s.running = some r)
    (hc : syscallVector (s.syscallNum r).toNat = some c) :
    (handler c s r >>= leaveTrap) ≠ .error .outOfBounds := by
  cases hv : handler c s r with
  | error f =>
    rw [error_bind]
    rintro ⟨⟩
    exact (handler_fails h hr hc hv).ne_outOfBounds rfl
  | ok v =>
    rw [ok_bind]
    exact leaveTrap_ne_outOfBounds v

theorem disastrOSTrap_ne_outOfBounds (h : Inv s) (hr : s.running = some r)
    (hnum : s.syscallNum r ≠ dsosMaxSyscalls) :
    syscallTables.disastrOSTrap s r ≠ .error .outOfBounds := by
  by_cases hrange : s.syscallNum r < 0 ∨ dsosMaxSyscalls < s.syscallNum r
  · unfold SyscallTables.disastrOSTrap
    rw [if_pos hrange]
    exact leaveTrap_ne_outOfBounds _
  · rw [SyscallTables.disastrOSTrap_eq (by omega) (by omega)]
    unfold disastrOSTrap
    split
    · exact leaveTrap_ne_outOfBounds _
    · rename_i c hc
      exact handler_ne_outOfBounds h hr hc

/-- The state behind a trap of `r` that has stored a code and nothing else. -/
def coded (s : Kernel) (r : ℕ) (num : ℤ) (args : List ℤ) (v : ℤ) : Kernel :=
  { (s.enterTrap r num args).setRetvalue r v with cpu := .syscall }

theorem leaveTrap_coded (hr : s.running = some r) (hdown : s.shutdownNow = false) :
    ((s.enterTrap r num args).setRetvalue r v).leaveTrap = .ok (s.coded r num args v) := by
  refine leaveTrap_resumes (r := r) (d := ⟨s.pid r,.syscall⟩) hdown hr ?_
  exact cpuState_enterTrap s r num args

theorem syscallRetvalue_coded (s : Kernel) (r : ℕ) (num v : ℤ) (args : List ℤ) :
    (s.coded r num args v).syscallRetvalue r = v := Function.update_self _ _ _

theorem onlyTrapped_coded (s : Kernel) (r : ℕ) (num v : ℤ) (args : List ℤ) :
    s.OnlyTrapped (s.coded r num args v) r := by
  refine ⟨rfl,?_⟩
  intro p hp
  exact ⟨Function.update_of_ne hp _ _,Function.update_of_ne hp _ _,Function.update_of_ne hp _ _,
    Function.update_of_ne hp _ _⟩

theorem Calling.step_eq (h : s.Calling r) :
    s.step (.call num args) = syscallTables.disastrOSSyscall s num args := by
  rw [SyscallTables.disastrOSSyscall_eq]
  simp only [step,h.down,Bool.false_eq_true,if_false,if_neg h.cpu]

theorem Calling.step_max (h : s.Calling r) :
    syscallTables.disastrOSSyscall s dsosMaxSyscalls args = .error .outOfBounds := by
  rw [SyscallTables.disastrOSSyscall_eq]
  unfold disastrOSSyscall
  rw [h.running]
  rfl

theorem Calling.syscall_ne_outOfBounds (h : s.Calling r) (hnum : num ≠ dsosMaxSyscalls) :
    syscallTables.disastrOSSyscall s num args ≠ .error .outOfBounds := by
  rw [SyscallTables.disastrOSSyscall_eq]
  simp only [disastrOSSyscall,h.running,if_neg hnum]
  by_cases hrange : num < 0 ∨ dsosMaxSyscalls < num
  · rw [if_pos hrange]
    intro hok
    cases hok
  · have hentered := syscallNum_enterTrap s r num args
    rw [if_neg hrange,← SyscallTables.disastrOSTrap_eq (by omega) (by omega)]
    exact disastrOSTrap_ne_outOfBounds ((Reachable.inv h.reachable).enterTrap h.running num args)
      h.running (hentered.symm ▸ hnum)

theorem Calling.refused (h : s.Calling r) (hnum : num < 0 ∨ dsosMaxSyscalls < num) :
    s.step (.call num args) = .ok (s.record (.refused r dsosESyscallOutOfRange)) := by
  simp only [h.step_eq,SyscallTables.disastrOSSyscall,h.running,if_pos hnum]

theorem Calling.trap_refused (h : s.Calling r) (hnum : num < 0 ∨ dsosMaxSyscalls < num) :
    ∃ t, syscallTables.disastrOSTrap (s.enterTrap r num args) r = .ok t ∧ t.running = some r ∧
      t.syscallRetvalue r = dsosESyscallOutOfRange ∧ s.OnlyTrapped t r := by
  refine ⟨s.coded r num args dsosESyscallOutOfRange,?_,h.running,syscallRetvalue_coded s r num _ args,
    onlyTrapped_coded s r num _ args⟩
  unfold SyscallTables.disastrOSTrap
  rw [syscallNum_enterTrap,if_pos hnum]
  exact leaveTrap_coded h.running h.down

theorem Calling.notImplemented (h : s.Calling r) (hnum : 0 ≤ num) (hmax : num < dsosMaxSyscalls)
    (hc : syscallVector num.toNat = none) :
    ∃ t, s.step (.call num args) = .ok t ∧ t.running = some r ∧ t.cpu = .syscall ∧
      t.syscallRetvalue r = dsosESyscallNotImplemented ∧ s.OnlyTrapped t r := by
  refine ⟨s.coded r num args dsosESyscallNotImplemented,?_,h.running,rfl,
    syscallRetvalue_coded s r num _ args,onlyTrapped_coded s r num _ args⟩
  rw [h.step_eq,SyscallTables.disastrOSSyscall_eq]
  simp only [disastrOSSyscall,h.running,if_neg (show ¬ (num < 0 ∨ dsosMaxSyscalls < num) by omega),
    if_neg hmax.ne,disastrOSTrap,syscallNum_enterTrap,hc]
  exact leaveTrap_coded h.running h.down

theorem Syscall.syscallVector_number (c : Syscall) : syscallVector (c.number : ℤ).toNat = some c := by
  cases c <;> rfl

theorem Calling.registered (h : s.Calling r) (c : Syscall) :
    s.step (.call c.number args) = handler c (s.enterTrap r c.number args) r >>= leaveTrap ∧
      ∃ nargs, readEntry syscallTables.syscallNumarg c.number = .ok nargs ∧
        nargs ≤ dsosMaxSyscallsArgs ∧ ∀ i, (s.enterTrap r c.number args).syscallArgs r i =
          if i < nargs then args.getD i 0 else s.syscallArgs r i := by
  have hlt : 0 ≤ (c.number : ℤ) ∧ (c.number : ℤ) < dsosMaxSyscalls := by
    cases c <;> decide
  refine ⟨step_call h.running h.down h.cpu (Syscall.syscallVector_number c),_,
    readEntry_of_lt syscallTables_syscallNumarg hlt,syscallNumarg_le _,?_⟩
  intro i
  exact congrFun (Function.update_self r _ s.syscallArgs) i

end Kernel

open Kernel

/-- A call by any process in any state is dispatched in bounds and as the tables say, exactly
if its number is not the one behind the last entry. -/
theorem syscalls_dispatched {s : Kernel} {r : ℕ} (h : s.Calling r) (num : ℤ) (args : List ℤ) :
    s.Dispatched r num args ↔ num ≠ dsosMaxSyscalls := by
  constructor
  · rintro hd rfl
    exact hd.syscallInBounds h.step_max
  · intro hnum
    have htrap := disastrOSTrap_ne_outOfBounds
      ((Reachable.inv h.reachable).enterTrap h.running num args) h.running
      ((syscallNum_enterTrap s r num args).symm ▸ hnum)
    refine ⟨h.syscall_ne_outOfBounds hnum,htrap,?_,?_,?_,?_⟩
    · intro hrange
      exact h.refused (hrange.imp_right fun hle => lt_of_le_of_ne hle hnum.symm)
    · intro hrange
      exact h.trap_refused (hrange.imp_right fun hle => lt_of_le_of_ne hle hnum.symm)
    · intro hnonneg hmax hnone
      refine h.notImplemented hnonneg hmax ?_
      cases hc : syscallVector num.toNat with
      | none => rfl
      | some c => exact absurd (syscallVector_eq_some hc).symm (hnone c)
    · rintro c rfl
      exact h.registered c

/-- The first process makes a call without a handler, and one behind the tables. -/
theorem syscalls_dispatched_run : ∃ s : Kernel, s.Calling 0 ∧ s.Dispatched 0 31 [7] ∧
    ¬ s.Dispatched 0 32 [7] := by
  obtain ⟨s,hs,hcheck⟩ := exists_run Transitions.unguarded []
    (fun s => s.running = some 0 && s.shutdownNow = false && s.cpu ≠ .syscall) (by decide)
  simp only [Bool.and_eq_true,decide_eq_true_eq] at hcheck
  obtain ⟨⟨hr,hdown⟩,hcpu⟩ := hcheck
  have h : s.Calling 0 := ⟨hs,hr,hdown,hcpu⟩
  exact ⟨s,h,(syscalls_dispatched h 31 [7]).mpr (by decide),
    fun hd => (syscalls_dispatched h 32 [7]).mp hd rfl⟩

/-- The call with the number 32 is not refused. -/
theorem syscall_behind_tables : ¬ ∀ (s : Kernel) (r : ℕ) (num : ℤ) (args : List ℤ),
    s.Calling r → s.Dispatched r num args := by
  intro hclaim
  obtain ⟨s,hs,hcheck⟩ := exists_run Transitions.unguarded []
    (fun s => s.running = some 0 && s.shutdownNow = false && s.cpu ≠ .syscall) (by decide)
  simp only [Bool.and_eq_true,decide_eq_true_eq] at hcheck
  obtain ⟨⟨hr,hdown⟩,hcpu⟩ := hcheck
  have h : s.Calling 0 := ⟨hs,hr,hdown,hcpu⟩
  exact (hclaim s 0 dsosMaxSyscalls [] h).syscallInBounds h.step_max

end DisastrOS
