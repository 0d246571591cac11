import DisastrOS.Kernel.LinkedList

/-! # Where the processes are

The lists of the scheduler, seen apart from everything else the kernel stores: an
allocated process is the running one or is on exactly one list, and its status
names the list. Every handler moves processes by the operations below.
-/
namespace DisastrOS

structure Placement (allocated : ℕ → Prop) (running : Option ℕ) (ready waiting zombie : List ℕ)
    (status : ℕ → ProcessStatus) : Prop where
  readyNodup : ready.Nodup
  waitingNodup : waiting.Nodup
  zombieNodup : zombie.Nodup
  covered : ∀ p, allocated p ↔ running = some p ∨ p ∈ ready ∨ p ∈ waiting ∨ p ∈ zombie
  readyStatus : ∀ p ∈ ready, status p = .ready
  waitingStatus : ∀ p, p ∈ waiting ↔ status p = .waiting
  zombieStatus : ∀ p ∈ zombie, status p = .zombie
  runningStatus : ∀ p, running = some p → status p = .running ∨ status p = .ready
  runningNotReady : ∀ p, running = some p → p ∉ ready

namespace Placement
variable {A A' : ℕ → Prop} {running : Option ℕ} {R R' W Z : List ℕ} {st : ℕ → ProcessStatus}
variable {p r : ℕ}

theorem allocated_running (h : Placement A (some r) R W Z st) : A r :=
  (h.covered r).mpr (Or.inl rfl)

theorem allocated_of_running (h : Placement A running R W Z st) (hp : running = some p) : A p :=
  (h.covered p).mpr (Or.inl hp)

theorem allocated_ready (h : Placement A running R W Z st) (hp : p ∈ R) : A p :=
  (h.covered p).mpr (Or.inr (Or.inl hp))

theorem allocated_waiting (h : Placement A running R W Z st) (hp : p ∈ W) : A p :=
  (h.covered p).mpr (Or.inr (Or.inr (Or.inl hp)))

theorem allocated_zombie (h : Placement A running R W Z st) (hp : p ∈ Z) : A p :=
  (h.covered p).mpr (Or.inr (Or.inr (Or.inr hp)))

theorem running_not_waiting (h : Placement A (some r) R W Z st) : r ∉ W := by
  intro hw
  have hs := (h.waitingStatus r).mp hw
  rcases h.runningStatus r rfl with hr | hr <;> rw [hr] at hs <;> cases hs

theorem running_not_zombie (h : Placement A (some r) R W Z st) : r ∉ Z := by
  intro hz
  have hs := h.zombieStatus r hz
  rcases h.runningStatus r rfl with hr | hr <;> rw [hr] at hs <;> cases hs

theorem ready_not_waiting (h : Placement A running R W Z st) (hp : p ∈ R) : p ∉ W := by
  intro hw
  have hs := (h.waitingStatus p).mp hw
  rw [h.readyStatus p hp] at hs
  cases hs

theorem ready_not_zombie (h : Placement A running R W Z st) (hp : p ∈ R) : p ∉ Z := by
  intro hz
  have hs := h.zombieStatus p hz
  rw [h.readyStatus p hp] at hs
  cases hs

theorem waiting_not_zombie (h : Placement A running R W Z st) (hp : p ∈ W) : p ∉ Z := by
  intro hz
  have hs := h.zombieStatus p hz
  rw [(h.waitingStatus p).mp hp] at hs
  cases hs

/-- Among the allocated processes the status zombie marks the zombie list. -/
theorem mem_zombie_iff (h : Placement A running R W Z st) (hp : A p) :
    p ∈ Z ↔ st p = .zombie := by
  constructor
  · exact h.zombieStatus p
  · intro hs
    rcases (h.covered p).mp hp with hr | hr | hr | hr
    · rcases h.runningStatus p hr with he | he <;> rw [he] at hs <;> cases hs
    · rw [h.readyStatus p hr] at hs
      cases hs
    · rw [(h.waitingStatus p).mp hr] at hs
      cases hs
    · exact hr

/-- The running process is set aside. -/
theorem setAside (h : Placement A (some r) R W Z st) :
    Placement (fun q => q ≠ r ∧ A q) none R W Z st := by
  have hrR := h.runningNotReady r rfl
  have hrW := h.running_not_waiting
  have hrZ := h.running_not_zombie
  constructor
  case readyNodup => exact h.readyNodup
  case waitingNodup => exact h.waitingNodup
  case zombieNodup => exact h.zombieNodup
  case covered =>
    intro p
    rw [h.covered p]
    simp only [Option.some.injEq]
    grind
  case readyStatus => exact h.readyStatus
  case waitingStatus => exact h.waitingStatus
  case zombieStatus => exact h.zombieStatus
  case runningStatus =>
    intro p hp
    cases hp
  case runningNotReady =>
    intro p hp
    cases hp

/-- A status that changes is that of no process on the list. -/
theorem readyStatus_update (h : Placement A running R W Z st) (hp : p ∉ R)
    (status : ProcessStatus) : ∀ q ∈ R, Function.update st p status q = .ready := by
  intro q hq
  rw [update_of_not_mem hp hq]
  exact h.readyStatus q hq

theorem zombieStatus_update (h : Placement A running R W Z st) (hp : p ∉ Z)
    (status : ProcessStatus) : ∀ q ∈ Z, Function.update st p status q = .zombie := by
  intro q hq
  rw [update_of_not_mem hp hq]
  exact h.zombieStatus q hq

theorem runningStatus_update (h : Placement A running R W Z st) (hp : running ≠ some p)
    (status : ProcessStatus) : ∀ q, running = some q →
      Function.update st p status q = .running ∨ Function.update st p status q = .ready := by
  intro q hq
  have hqp : q ≠ p := by
    rintro rfl
    exact hp hq
  rw [Function.update_of_ne hqp]
  exact h.runningStatus q hq

/-- Who was set aside comes back. -/
theorem allocated_iff (h : Placement A (some r) R W Z st) (q : ℕ) :
    A q ↔ q = r ∨ q ≠ r ∧ A q := by
  by_cases hqr : q = r
  · subst hqr
    exact iff_of_true h.allocated_running (Or.inl rfl)
  · simp [hqr]

/-- The status of a process that does not exist is of no interest, unless it is waiting. -/
theorem setStatus (h : Placement A running R W Z st) (hp : ¬ A p) (status : ProcessStatus)
    (hstatus : status ≠ .waiting) :
    Placement A running R W Z (Function.update st p status) := by
  have hpR : p ∉ R := fun hr => hp (h.allocated_ready hr)
  have hpW : p ∉ W := fun hr => hp (h.allocated_waiting hr)
  have hpZ : p ∉ Z := fun hr => hp (h.allocated_zombie hr)
  constructor
  case readyNodup => exact h.readyNodup
  case waitingNodup => exact h.waitingNodup
  case zombieNodup => exact h.zombieNodup
  case covered => exact h.covered
  case readyStatus => exact h.readyStatus_update hpR _
  case waitingStatus =>
    intro q
    by_cases hqp : q = p
    · subst hqp
      simp [hpW,hstatus]
    · rw [Function.update_of_ne hqp]
      exact h.waitingStatus q
  case zombieStatus => exact h.zombieStatus_update hpZ _
  case runningStatus =>
    exact h.runningStatus_update (fun hrun => hp (h.allocated_of_running hrun)) _
  case runningNotReady => exact h.runningNotReady

section Enter
variable (h : Placement A running R W Z st) (hp : ¬ A p) (hA : ∀ q, A' q ↔ q = p ∨ A q)
include h hp hA

/-- A new process enters the ready list. -/
theorem create : Placement A' running (listAppend R p) W Z (Function.update st p .ready) := by
  have hpR : p ∉ R := fun hr => hp (h.allocated_ready hr)
  have h' := h.setStatus hp .ready nofun
  constructor
  case readyNodup => exact nodup_listAppend h.readyNodup hpR
  case waitingNodup => exact h.waitingNodup
  case zombieNodup => exact h.zombieNodup
  case covered =>
    intro q
    rw [hA q,h.covered q]
    simp only [mem_listAppend]
    grind
  case readyStatus =>
    intro q hq
    rcases mem_listAppend.mp hq with hq | rfl
    · exact h'.readyStatus q hq
    · exact Function.update_self _ _ _
  case waitingStatus => exact h'.waitingStatus
  case zombieStatus => exact h'.zombieStatus
  case runningStatus => exact h'.runningStatus
  case runningNotReady =>
    intro q hq hqR
    rcases mem_listAppend.mp hqR with hqR | rfl
    · exact h.runningNotReady q hq hqR
    · exact hp ((h.covered q).mpr (Or.inl hq))

theorem enterWaiting :
    Placement A' running R (listAppend W p) Z (Function.update st p .waiting) := by
  have hpR : p ∉ R := fun hr => hp (h.allocated_ready hr)
  have hpW : p ∉ W := fun hr => hp (h.allocated_waiting hr)
  have hpZ : p ∉ Z := fun hr => hp (h.allocated_zombie hr)
  constructor
  case readyNodup => exact h.readyNodup
  case waitingNodup => exact nodup_listAppend h.waitingNodup hpW
  case zombieNodup => exact h.zombieNodup
  case covered =>
    intro q
    rw [hA q,h.covered q]
    simp only [mem_listAppend]
    grind
  case readyStatus => exact h.readyStatus_update hpR _
  case waitingStatus =>
    intro q
    rw [mem_listAppend]
    by_cases hqp : q = p
    · subst hqp
      simp
    · rw [Function.update_of_ne hqp,h.waitingStatus q]
      simp [hqp]
  case zombieStatus => exact h.zombieStatus_update hpZ _
  case runningStatus =>
    exact h.runningStatus_update (fun hrun => hp (h.allocated_of_running hrun)) _
  case runningNotReady => exact h.runningNotReady

theorem enterZombie :
    Placement A' running R W (listAppend Z p) (Function.update st p .zombie) := by
  have hpZ : p ∉ Z := fun hr => hp (h.allocated_zombie hr)
  have h' := h.setStatus hp .zombie nofun
  constructor
  case readyNodup => exact h.readyNodup
  case waitingNodup => exact h.waitingNodup
  case zombieNodup => exact nodup_listAppend h.zombieNodup hpZ
  case covered =>
    intro q
    rw [hA q,h.covered q]
    simp only [mem_listAppend]
    grind
  case readyStatus => exact h'.readyStatus
  case waitingStatus => exact h'.waitingStatus
  case zombieStatus =>
    intro q hq
    rcases mem_listAppend.mp hq with hq | rfl
    · exact h'.zombieStatus q hq
    · exact Function.update_self _ _ _
  case runningStatus => exact h'.runningStatus
  case runningNotReady => exact h.runningNotReady

end Enter

/-- A new process starts running when none does. -/
theorem start (h : Placement A none R W Z st) (hp : ¬ A p) (hA : ∀ q, A' q ↔ q = p ∨ A q) :
    Placement A' (some p) R W Z (Function.update st p .running) := by
  have h' := h.setStatus hp .running nofun
  constructor
  case readyNodup => exact h.readyNodup
  case waitingNodup => exact h.waitingNodup
  case zombieNodup => exact h.zombieNodup
  case covered =>
    intro q
    rw [hA q,h.covered q]
    simp only [Option.some.injEq]
    grind
  case readyStatus => exact h'.readyStatus
  case waitingStatus => exact h'.waitingStatus
  case zombieStatus => exact h'.zombieStatus
  case runningStatus =>
    intro q hq
    cases hq
    exact Or.inl (Function.update_self _ _ _)
  case runningNotReady =>
    intro q hq
    cases hq
    exact fun hr => hp (h.allocated_ready hr)

section Running
variable (h : Placement A (some r) R W Z st)
include h

/-- The running process goes to the waiting list. -/
theorem park : Placement A none R (listAppend W r) Z (Function.update st r .waiting) :=
  h.setAside.enterWaiting (fun hr => hr.1 rfl) h.allocated_iff

/-- The running process goes behind the ready ones. -/
theorem preempt : Placement A none (listAppend R r) W Z (Function.update st r .ready) :=
  h.setAside.create (fun hr => hr.1 rfl) h.allocated_iff

/-- The running process becomes a zombie. -/
theorem die : Placement A none R W (listAppend Z r) (Function.update st r .zombie) :=
  h.setAside.enterZombie (fun hr => hr.1 rfl) h.allocated_iff

theorem markRunning : Placement A (some r) R W Z (Function.update st r .running) :=
  h.setAside.start (fun hr => hr.1 rfl) h.allocated_iff

end Running

/-- The first ready process gets the processor; its status is left alone. -/
theorem dispatch (h : Placement A none (p :: R) W Z st) : Placement A (some p) R W Z st := by
  obtain ⟨hp,hR⟩ := List.nodup_cons.mp h.readyNodup
  constructor
  case readyNodup => exact hR
  case waitingNodup => exact h.waitingNodup
  case zombieNodup => exact h.zombieNodup
  case covered =>
    intro q
    rw [h.covered q]
    simp only [List.mem_cons,Option.some.injEq]
    grind
  case readyStatus => exact fun q hq => h.readyStatus q (List.mem_cons_of_mem _ hq)
  case waitingStatus => exact h.waitingStatus
  case zombieStatus => exact h.zombieStatus
  case runningStatus =>
    intro q hq
    cases hq
    exact Or.inr (h.readyStatus p List.mem_cons_self)
  case runningNotReady =>
    intro q hq
    cases hq
    exact hp

/-- A waiting process becomes ready, at whatever place of the ready list. -/
theorem wake (h : Placement A running R W Z st) (hp : p ∈ W) (hR : R'.Perm (p :: R)) :
    Placement A running R' (W.erase p) Z (Function.update st p .ready) := by
  have hpR : p ∉ R := fun hr => h.ready_not_waiting hr hp
  have hpZ := h.waiting_not_zombie hp
  constructor
  case readyNodup => exact hR.nodup_iff.mpr (List.nodup_cons.mpr ⟨hpR,h.readyNodup⟩)
  case waitingNodup => exact h.waitingNodup.erase p
  case zombieNodup => exact h.zombieNodup
  case covered =>
    intro q
    rw [h.covered q,hR.mem_iff,h.waitingNodup.mem_erase_iff]
    simp only [List.mem_cons]
    grind
  case readyStatus =>
    intro q hq
    by_cases hqp : q = p
    · subst hqp
      exact Function.update_self _ _ _
    · rw [Function.update_of_ne hqp]
      exact h.readyStatus q ((List.mem_cons.mp (hR.mem_iff.mp hq)).resolve_left hqp)
  case waitingStatus =>
    intro q
    rw [h.waitingNodup.mem_erase_iff]
    by_cases hqp : q = p
    · subst hqp
      simp
    · rw [Function.update_of_ne hqp,h.waitingStatus q]
      simp [hqp]
  case zombieStatus => exact h.zombieStatus_update hpZ _
  case runningStatus =>
    refine h.runningStatus_update ?_ _
    rintro rfl
    exact h.running_not_waiting hp
  case runningNotReady =>
    intro q hq hqR
    rcases List.mem_cons.mp (hR.mem_iff.mp hqR) with rfl | hqR
    · subst hq
      exact h.running_not_waiting hp
    · exact h.runningNotReady q hq hqR

/-- A waiting process gets the processor at once. -/
theorem resume (h : Placement A none R W Z st) (hp : p ∈ W) :
    Placement A (some p) R (W.erase p) Z (Function.update st p .running) :=
  have hd := (h.wake hp (List.Perm.refl (p :: R))).dispatch.markRunning
  by rwa [Function.update_idem] at hd

/-- A zombie is freed. -/
theorem free (h : Placement A running R W Z st) (hp : p ∈ Z)
    (hA : ∀ q, A' q ↔ q ≠ p ∧ A q) : Placement A' running R W (Z.erase p) st := by
  constructor
  case readyNodup => exact h.readyNodup
  case waitingNodup => exact h.waitingNodup
  case zombieNodup => exact h.zombieNodup.erase p
  case covered =>
    intro q
    rw [hA q,h.covered q,h.zombieNodup.mem_erase_iff]
    have hrun : running = some q → q ≠ p := by
      rintro hr rfl
      subst hr
      exact h.running_not_zombie hp
    have hready : q ∈ R → q ≠ p := by
      rintro hr rfl
      exact h.ready_not_zombie hr hp
    have hwait : q ∈ W → q ≠ p := by
      rintro hr rfl
      exact h.waiting_not_zombie hr hp
    grind
  case readyStatus => exact h.readyStatus
  case waitingStatus => exact h.waitingStatus
  case zombieStatus => exact fun q hq => h.zombieStatus q (List.mem_of_mem_erase hq)
  case runningStatus => exact h.runningStatus
  case runningNotReady => exact h.runningNotReady

end Placement

end DisastrOS
