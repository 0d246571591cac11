import Mathlib.Data.Nat.Notation
import Mathlib.Data.Int.Notation

/-! # Constants, process states and system calls

The values are those of `disastrOS_constants.h`; the two families of descriptor
errors have their own names.
-/
namespace DisastrOS

abbrev maxNumProcesses : ℕ := 1024
abbrev maxNumResources : ℕ := 1024
abbrev maxNumDescriptorsPerProcess : ℕ := 32
abbrev maxNumMessagequeues : ℕ := 1024
abbrev maxNumMessages : ℕ := 1024
abbrev maxNumDescrittoriPerProcess : ℕ := 32
abbrev maxMessageLenght : ℕ := 1024

theorem maxNumProcesses_pos : 0 < maxNumProcesses := by decide

theorem maxNumResources_pos : 0 < maxNumResources := by decide

theorem maxNumMessagequeues_pos : 0 < maxNumMessagequeues := by decide

theorem maxNumMessages_pos : 0 < maxNumMessages := by decide

def dsosSigchld : BitVec 32 := 1#32
def dsosSighup : BitVec 32 := 2#32

def dsosESyscallOutOfRange : ℤ := -3
def dsosESyscallNotImplemented : ℤ := -2
def dsosEWait : ℤ := -5
def dsosESleep : ℤ := -7
def dsosEResourceCreate : ℤ := -8
def dsosEResourceOpen : ℤ := -9
def dsosEResourceNoExcl : ℤ := -10
def dsosEResourceNoFd : ℤ := -11
def dsosEResourceClose : ℤ := -12
def dsosEResourceInUse : ℤ := -13
def dsosEMessagequeueCreate : ℤ := -8
def dsosEMessagequeueOpen : ℤ := -9
def dsosEMessagequeueNoExcl : ℤ := -10
def dsosEMessagequeueNoFd : ℤ := -11
def dsosEMessagequeueClose : ℤ := -12
def dsosEMessagequeueInUse : ℤ := -13
def dsosEMessagequeueFull : ℤ := -14
def dsosEMessagequeueEmpty : ℤ := -15
def dsosEMessagesize : ℤ := -16

def dsosCreate : ℤ := 0x1
def dsosRead : ℤ := 0x2
def dsosWrite : ℤ := 0x3
def dsosExcl : ℤ := 0x4

/-- `mode & flag` on a C `int`, read as a condition. -/
def hasFlag (mode flag : ℤ) : Bool := BitVec.ofInt 32 mode &&& BitVec.ofInt 32 flag != 0#32

/-- The value of a C `int` after an addition that may leave its range. -/
def wrapInt (x : ℤ) : ℤ := x.bmod 4294967296

inductive ProcessStatus
  | invalid
  | created
  | running
  | ready
  | waiting
  | suspended
  | zombie
  deriving DecidableEq, Repr

inductive Syscall
  | preempt
  | fork
  | wait
  | exit
  | spawn
  | sleep
  | openResource
  | closeResource
  | destroyResource
  | mqOpen
  | mqClose
  | mqUnlink
  | mqSend
  | mqReceive
  | shutdown
  deriving DecidableEq, Repr

def dsosMaxSyscalls : ℤ := 32

/-- The table of handlers that `disastrOS_start` fills; every other entry is zero. -/
def syscallVector : ℕ → Option Syscall
  | 1 => some .preempt
  | 2 => some .fork
  | 3 => some .wait
  | 4 => some .exit
  | 5 => some .spawn
  | 6 => some .sleep
  | 7 => some .openResource
  | 8 => some .closeResource
  | 9 => some .destroyResource
  | 10 => some .mqOpen
  | 11 => some .mqClose
  | 12 => some .mqUnlink
  | 13 => some .mqSend
  | 14 => some .mqReceive
  | 15 => some .shutdown
  | _ => none

/-- The place of each handler in the table. -/
def Syscall.number : Syscall → ℕ
  | .preempt => 1
  | .fork => 2
  | .wait => 3
  | .exit => 4
  | .spawn => 5
  | .sleep => 6
  | .openResource => 7
  | .closeResource => 8
  | .destroyResource => 9
  | .mqOpen => 10
  | .mqClose => 11
  | .mqUnlink => 12
  | .mqSend => 13
  | .mqReceive => 14
  | .shutdown => 15

theorem syscallVector_eq_some {num : ℤ} {c : Syscall} (h : syscallVector num.toNat = some c) :
    num = c.number := by
  have hn : num.toNat = c.number ∧ c.number ≠ 0 := by
    unfold syscallVector at h
    split at h <;> cases h <;> exact ⟨by assumption,by decide⟩
  omega

/-- The number of arguments `disastrOS_syscall` copies for each entry. -/
def syscallNumarg : ℕ → ℕ
  | 3 => 2
  | 4 => 1
  | 5 => 2
  | 6 => 1
  | 7 => 3
  | 8 => 1
  | 9 => 1
  | 10 => 5
  | 11 => 1
  | 12 => 1
  | 13 => 3
  | 14 => 3
  | _ => 0

def dsosCallWait : ℤ := 3
def dsosCallExit : ℤ := 4
def dsosCallSleep : ℤ := 6
def dsosCallMqUnlink : ℤ := 12
def dsosCallMqSend : ℤ := 13
def dsosCallMqReceive : ℤ := 14

end DisastrOS
