import DisastrOS.Kernel.Dispatch

/-! # The tables of the system calls

`disastrOS_start` fills two arrays, which `disastrOS_syscall` and `disastrOS_trap` read on the
two sides of a context switch, each behind a check of its own. Here a read outside of an array
and a store of too many arguments are faults.
-/
namespace DisastrOS

def dsosMaxSyscallsArgs : ℕ := 8

/-- The read of an entry of an array. -/
def readEntry {α : Type} {n : ℕ} (table : Vector α n) (i : ℤ) : Except Fault α :=
  if h : 0 ≤ i ∧ i < n then .ok (table.get ⟨i.toNat,by omega⟩) else .error .outOfBounds

structure SyscallTables where
  syscallVector : Vector (Option Syscall) dsosMaxSyscalls.toNat
  syscallNumarg : Vector ℕ dsosMaxSyscalls.toNat

theorem Syscall.number_lt (c : Syscall) : c.number < dsosMaxSyscalls.toNat := by
  cases c <;> decide

/-- The loop of `disastrOS_syscall` that stores the arguments in the PCB. -/
def storeArgs (stored : ℕ → ℤ) (args : List ℤ) : ℕ → Except Fault (ℕ → ℤ)
  | 0 => .ok stored
  | n + 1 => do
    let stored ← storeArgs stored args n
    if n < dsosMaxSyscallsArgs then .ok (Function.update stored n (args.getD n 0))
    else .error .outOfBounds

namespace SyscallTables

/-- One handler with the number of its arguments. -/
def register (T : SyscallTables) (c : Syscall) (nargs : ℕ) : SyscallTables :=
  ⟨T.syscallVector.set c.number (some c) c.number_lt,
    T.syscallNumarg.set c.number nargs c.number_lt⟩

/-- `disastrOS_trap`, which looks at the number that the PCB holds. -/
def disastrOSTrap (T : SyscallTables) (s : Kernel) (running : ℕ) : Except Fault Kernel :=
  let num := s.syscallNum running
  if num < 0 ∨ dsosMaxSyscalls < num then
    (s.setRetvalue running dsosESyscallOutOfRange).leaveTrap
  else do
    match ← readEntry T.syscallVector num with
    | none => (s.setRetvalue running dsosESyscallNotImplemented).leaveTrap
    | some c => do
      let s ← Kernel.handler c s running
      s.leaveTrap

/-- The `swapcontext` of `disastrOS_syscall` with the stores before it. -/
def toTrap (s : Kernel) (running : ℕ) (num : ℤ) (stored : ℕ → ℤ) : Kernel :=
  let s := { s with
    syscallArgs := Function.update s.syscallArgs running stored
    syscallNum := Function.update s.syscallNum running num }
  (s.saveContext running .syscall).record (.trapped running num)

/-- `disastrOS_syscall` up to its `return`. -/
def disastrOSSyscall (T : SyscallTables) (s : Kernel) (num : ℤ) (args : List ℤ) :
    Except Fault Kernel :=
  match s.running with
  | none => .error .assertion
  | some running =>
    if num < 0 ∨ dsosMaxSyscalls < num then
      .ok (s.record (.refused running dsosESyscallOutOfRange))
    else do
      let nargs ← readEntry T.syscallNumarg num
      let stored ← storeArgs (s.syscallArgs running) args nargs
      T.disastrOSTrap (toTrap s running num stored) running

end SyscallTables

/-- The tables behind `disastrOS_start`, which resets one of them and fills both. -/
def syscallTables : SyscallTables :=
  let T : SyscallTables := ⟨Vector.replicate _ none,Vector.replicate _ 0⟩
  let T := T.register .preempt 0
  let T := T.register .fork 0
  let T := T.register .spawn 2
  let T := T.register .wait 2
  let T := T.register .exit 1
  let T := T.register .sleep 1
  let T := T.register .openResource 3
  let T := T.register .closeResource 1
  let T := T.register .destroyResource 1
  let T := T.register .mqOpen 5
  let T := T.register .mqClose 1
  let T := T.register .mqUnlink 1
  let T := T.register .mqSend 3
  let T := T.register .mqReceive 3
  T.register .shutdown 0

variable {α : Type} {n : ℕ} {table : Vector α n} {i num : ℤ} {stored : ℕ → ℤ} {args : List ℤ}

theorem readEntry_of_lt {f : ℕ → α} (hf : ∀ j : Fin n, table.get j = f j) (hi : 0 ≤ i ∧ i < n) :
    readEntry table i = .ok (f i.toNat) := by
  unfold readEntry
  rw [dif_pos hi,hf]

theorem readEntry_of_not (hi : ¬ (0 ≤ i ∧ i < n)) : readEntry table i = .error .outOfBounds :=
  dif_neg hi

theorem syscallTables_syscallVector :
    ∀ j : Fin dsosMaxSyscalls.toNat, syscallTables.syscallVector.get j = syscallVector j := by decide

theorem syscallTables_syscallNumarg :
    ∀ j : Fin dsosMaxSyscalls.toNat, syscallTables.syscallNumarg.get j = syscallNumarg j := by decide

theorem syscallNumarg_le (j : ℕ) : syscallNumarg j ≤ dsosMaxSyscallsArgs := by
  unfold syscallNumarg
  split <;> decide

/-- The first arguments are stored, and what is behind them stays. -/
theorem storeArgs_eq (hn : n ≤ dsosMaxSyscallsArgs) :
    storeArgs stored args n = .ok (fun i => if i < n then args.getD i 0 else stored i) := by
  induction n with
  | zero => rfl
  | succ n ih =>
    unfold storeArgs
    rw [ih (by omega),ok_bind,if_pos (Nat.lt_of_succ_le hn)]
    congr 1
    funext i
    by_cases hi : i = n
    · subst hi
      rw [Function.update_self,if_pos (by omega)]
    · rw [Function.update_of_ne hi]
      by_cases hin : i < n
      · rw [if_pos hin,if_pos (by omega)]
      · rw [if_neg hin,if_neg (by omega)]

/-- The tables have no entry behind the last one. -/
theorem readEntry_max {table : Vector α dsosMaxSyscalls.toNat} :
    readEntry table dsosMaxSyscalls = .error .outOfBounds := readEntry_of_not (by decide)

namespace SyscallTables

/-- With the tables of `disastrOS_start` the trap of a number in range does what the kernel does. -/
theorem disastrOSTrap_eq {s : Kernel} {r : ℕ} (hnum : 0 ≤ s.syscallNum r)
    (hmax : s.syscallNum r < dsosMaxSyscalls) :
    syscallTables.disastrOSTrap s r = s.disastrOSTrap r := by
  have hread := readEntry_of_lt syscallTables_syscallVector (i := s.syscallNum r) ⟨hnum,hmax⟩
  unfold disastrOSTrap Kernel.disastrOSTrap
  rw [if_neg (by omega),hread]
  rfl

/-- A call with these tables is a call of the kernel. -/
theorem disastrOSSyscall_eq (s : Kernel) (num : ℤ) (args : List ℤ) :
    syscallTables.disastrOSSyscall s num args = s.disastrOSSyscall num args := by
  unfold disastrOSSyscall Kernel.disastrOSSyscall
  cases hr : s.running with
  | none => rfl
  | some r =>
    by_cases hrange : num < 0 ∨ dsosMaxSyscalls < num
    · simp only [if_pos hrange]
    · simp only [if_neg hrange]
      by_cases hmax : num = dsosMaxSyscalls
      · subst hmax
        rw [if_pos rfl,readEntry_max,error_bind]
      · have hlt : 0 ≤ num ∧ num < dsosMaxSyscalls := by omega
        have hread := readEntry_of_lt syscallTables_syscallNumarg (i := num) hlt
        have hnum : (s.enterTrap r num args).syscallNum r = num := Function.update_self _ _ _
        have htrap : toTrap s r num (fun i => if i < DisastrOS.syscallNumarg num.toNat then
            args.getD i 0 else s.syscallArgs r i) = s.enterTrap r num args := rfl
        rw [if_neg hmax,hread,ok_bind,storeArgs_eq (syscallNumarg_le _),ok_bind,htrap]
        exact disastrOSTrap_eq (hnum.symm ▸ hlt.1) (hnum.symm ▸ hlt.2)

end SyscallTables

end DisastrOS
