import DisastrOS.Behaviour.LayerHandlers
import DisastrOS.Invariant.Kernel

/-! # What the scheduler does

The wake-up loop moves processes from the waiting list to the front of the ready
list and touches nothing else; afterwards the running process goes behind the
ready ones. The handlers that sleep take a timer, which is always to be had.
-/
namespace DisastrOS.Kernel

/-- What the wake-up loop may change; it wakes nobody who is blocked in a wait. -/
inductive Woken (s : Kernel) : Kernel → Prop
  | intro {status : ℕ → ProcessStatus} {timer : ℕ → Option ℕ} {ready waiting timers : List ℕ}
      {items : Pool maxNumProcesses} (hwaiting : ∀ p ∈ waiting, p ∈ s.waitingList)
      (hkept : ∀ p ∈ s.waitingList, s.syscallNum p = dsosCallWait → p ∈ waiting)
      (hready : ∀ p ∈ s.readyList, p ∈ ready) : Woken s
      { s with
        waitingList := waiting
        status := status
        timer := timer
        readyList := ready
        timerList := timers
        timerItemAllocator := items }

/-- One pass of the wake-up loop: the first timer fires. -/
def fired (s : Kernel) (previousPcb : Option ℕ) (t : ℕ) (rest : List ℕ) : Kernel :=
  { s with
    waitingList := s.waitingList.erase (s.timerPcb t)
    status := Function.update s.status (s.timerPcb t) .ready
    timer := Function.update s.timer (s.timerPcb t) none
    readyList := listInsert s.readyList previousPcb (s.timerPcb t)
    timerList := rest
    timerItemAllocator := s.timerItemAllocator.releaseBlock t }

/-- The running process behind the ready ones, of which the first runs. -/
def rotated (s : Kernel) (r next : ℕ) (rest : List ℕ) : Kernel :=
  { s with
    status := Function.update (Function.update s.status r .ready) next .running
    readyList := listAppend rest r
    running := some next }

variable {s t u : Kernel} {r p i : ℕ} {previousPcb : Option ℕ} {rest : List ℕ}

theorem timerListCurrent_eq_some (h : s.timerListCurrent = some i) :
    ∃ rest, s.timerList = i :: rest := by
  unfold timerListCurrent at h
  split at h
  · cases h
  · rename_i t rest heq
    split at h
    · cases h
      exact ⟨rest,heq⟩
    · cases h

/-- The process of a timer is on the waiting list, so the detach finds it. -/
theorem wakeElapsed_succ (h : Inv s) {n : ℕ} (hcur : s.timerListCurrent = some i)
    (hT : s.timerList = i :: rest) :
    wakeElapsed (n + 1) previousPcb s =
      wakeElapsed n (some (s.timerPcb i)) (s.fired previousPcb i rest) := by
  have hi : i ∈ s.timerList := by
    rw [hT]
    exact List.mem_cons_self
  have hw := (h.timers.waits i hi).1
  rw [wakeElapsed,hcur]
  simp only [listDetach_mem hw,ok_bind,timerListRemoveCurrent,hT,List.head?_cons,listDetach_cons]
  rfl

theorem Inv.fired (h : Inv s) (hT : s.timerList = i :: rest)
    (hprev : ∀ p, previousPcb = some p → p ∈ s.readyList) : Inv (s.fired previousPcb i rest) := by
  have hi : i ∈ s.timerList := by
    rw [hT]
    exact List.mem_cons_self
  have hw := (h.timers.waits i hi).1
  have ht := h.timers
  rw [hT] at ht
  refine { h with placement := ?_, timers := ?_, noTimer := ?_ }
  · exact h.placement.wake hw (listInsert_perm hprev _)
  · exact ht.fire h.placement.waitingNodup
      (Pool.allocated_releaseBlock ((h.timers.items i).mpr hi))
  · intro p
    by_cases hp : p = s.timerPcb i
    · subst hp
      exact Function.update_self _ _ _
    · exact (Function.update_of_ne hp _ _).trans (h.noTimer p)

theorem mem_ready_fired (hprev : ∀ p, previousPcb = some p → p ∈ s.readyList) :
    p ∈ (s.fired previousPcb i rest).readyList ↔ p = s.timerPcb i ∨ p ∈ s.readyList :=
  (listInsert_perm hprev _).mem_iff.trans List.mem_cons

theorem wakeElapsed_done (n : ℕ) (hcur : s.timerListCurrent = none) :
    wakeElapsed n previousPcb s = .ok s := by
  cases n <;> simp only [wakeElapsed,hcur]

theorem Woken.refl (s : Kernel) : Woken s s :=
  .intro (fun _ hp => hp) (fun _ hp _ => hp) (fun _ hp => hp)

/-- A pass of the loop in front of the remaining ones. -/
theorem Woken.fired (hi : SleepsOnTimer (s.syscallNum (s.timerPcb i)))
    (h : Woken (s.fired previousPcb i rest) u)
    (hprev : ∀ p, previousPcb = some p → p ∈ s.readyList) : Woken s u := by
  obtain ⟨hwaiting,hkept,hready⟩ := h
  refine .intro ?_ ?_ ?_
  · exact fun p hp => List.mem_of_mem_erase (hwaiting p hp)
  · intro p hp hnum
    have hne : p ≠ s.timerPcb i := by
      rintro rfl
      rw [hnum] at hi
      exact not_sleepsOnTimer_wait hi
    exact hkept p ((List.mem_erase_of_ne hne).mpr hp) hnum
  · exact fun p hp => hready p ((mem_ready_fired hprev).mpr (Or.inr hp))

/-- The wake-up loop ends, finds every process it wakes, and keeps the invariant. -/
theorem wakeElapsed_spec {n : ℕ} (previousPcb : Option ℕ) (h : Inv s) (hn : s.timerList.length ≤ n)
    (hprev : ∀ p, previousPcb = some p → p ∈ s.readyList) :
    ∃ u, wakeElapsed n previousPcb s = .ok u ∧ Inv u ∧ Woken s u := by
  induction n generalizing s previousPcb with
  | zero =>
    have hnil := List.length_eq_zero_iff.mp (Nat.le_zero.mp hn)
    have hcur : s.timerListCurrent = none := by simp only [timerListCurrent,hnil]
    exact ⟨s,wakeElapsed_done 0 hcur,h,.refl s⟩
  | succ n ih =>
    cases hcur : s.timerListCurrent with
    | none => exact ⟨s,wakeElapsed_done _ hcur,h,.refl s⟩
    | some i =>
      obtain ⟨rest,hT⟩ := timerListCurrent_eq_some hcur
      have hlen : (s.fired previousPcb i rest).timerList.length ≤ n := by
        rw [hT,List.length_cons] at hn
        exact Nat.le_of_succ_le_succ hn
      have hprev' : ∀ p, some (s.timerPcb i) = some p →
          p ∈ (s.fired previousPcb i rest).readyList := by
        rintro p hp
        cases hp
        exact (mem_ready_fired hprev).mpr (Or.inl rfl)
      obtain ⟨u,hok,hu,hw⟩ := ih _ (h.fired hT hprev) hlen hprev'
      have hi : i ∈ s.timerList := by
        rw [hT]
        exact List.mem_cons_self
      exact ⟨u,(wakeElapsed_succ h hcur hT).trans hok,hu,hw.fired (h.timers.waits i hi).2 hprev⟩

theorem Woken.running (h : Woken s u) : u.running = s.running := by
  obtain ⟨⟩ := h
  rfl

/-- The scheduler on a running process. -/
theorem internalSchedule_spec (h : Inv s) (hr : s.running = some r) :
    ∃ u, Inv u ∧ Woken s u ∧
      ((u.readyList = [] ∧ s.internalSchedule = .ok u) ∨
        ∃ next rest, u.readyList = next :: rest ∧
          s.internalSchedule = .ok (u.rotated r next rest)) := by
  obtain ⟨u,hok,hu,hw⟩ := wakeElapsed_spec none h (Nat.le_refl _)
    (fun p hp => nomatch hp)
  refine ⟨u,hu,hw,?_⟩
  have hrun : u.running = some r := hw.running.trans hr
  cases hready : u.readyList with
  | nil => exact Or.inl ⟨rfl,by simp only [internalSchedule,hok,ok_bind,hready]⟩
  | cons next rest =>
    refine Or.inr ⟨next,rest,rfl,?_⟩
    simp only [internalSchedule,hok,ok_bind,hready,hrun]
    rfl

theorem Inv.rotated (h : Inv s) (hr : s.running = some r) {next : ℕ}
    (hready : s.readyList = next :: rest) : Inv (s.rotated r next rest) := by
  refine { h with placement := ?_ }
  have hp := h.placement
  rw [hr,hready] at hp
  exact hp.preempt.dispatch.markRunning

theorem timerListAdd_none {awakeningTime : ℤ} (hb : s.timerItemAllocator.getBlock = none) :
    s.timerListAdd awakeningTime r = none := by
  simp only [timerListAdd,timerItemAlloc,hb]

theorem timerListAdd_some {awakeningTime : ℤ} {t : ℕ} {pool : Pool maxNumProcesses}
    (hb : s.timerItemAllocator.getBlock = some (t,pool)) :
    s.timerListAdd awakeningTime r = some { s with
      timerItemAllocator := pool
      awakeningTime := Function.update s.awakeningTime t awakeningTime
      timerPcb := Function.update s.timerPcb t r
      timerList := listInsert s.timerList
        (s.timerList.takeWhile (fun t => ¬ awakeningTime < s.awakeningTime t)).getLast? t } := by
  simp only [timerListAdd,timerItemAlloc,hb]

/-- The insertion point of a new timer is on the timer list. -/
theorem timerListAdd_eq_some {awakeningTime : ℤ} (hadd : s.timerListAdd awakeningTime r = some u) :
    ∃ t pool T, s.timerItemAllocator.getBlock = some (t,pool) ∧ T.Perm (t :: s.timerList) ∧
      u = { s with
        timerItemAllocator := pool
        awakeningTime := Function.update s.awakeningTime t awakeningTime
        timerPcb := Function.update s.timerPcb t r
        timerList := T } := by
  cases hb : s.timerItemAllocator.getBlock with
  | none => cases hadd.symm.trans (timerListAdd_none hb)
  | some b =>
    obtain ⟨t,pool⟩ := b
    cases hadd.symm.trans (timerListAdd_some hb)
    refine ⟨t,pool,_,rfl,listInsert_perm ?_ t,rfl⟩
    intro p hp
    exact (List.takeWhile_subset _) (List.mem_of_getLast? hp)

/-- A running process always gets a timer. -/
theorem Inv.timerListAdd (h : Inv s) (hr : s.running = some r) (awakeningTime : ℤ) :
    ∃ u, s.timerListAdd awakeningTime r = some u := by
  obtain ⟨t,pool,hb⟩ := h.timers.exists_free (fun p hw => h.placement.allocated_waiting hw)
    (h.running_allocated hr) (h.not_waiting_running hr)
  exact ⟨_,timerListAdd_some hb⟩

/-- What a process that goes to sleep on a timer changes before another one runs. -/
inductive Slept (s : Kernel) (r : ℕ) : Kernel → Prop
  | intro {items : Pool maxNumProcesses} {awakeningTime : ℕ → ℤ} {timerPcb : ℕ → ℕ}
      {timers : List ℕ} : Slept s r
      { s with
        timerItemAllocator := items
        awakeningTime := awakeningTime
        timerPcb := timerPcb
        timerList := timers
        status := Function.update s.status r .waiting
        waitingList := listAppend s.waitingList r
        running := none }

/-- The first ready process takes over without a change of its status. -/
def dispatched (s : Kernel) (next : ℕ) (rest : List ℕ) : Kernel :=
  { s with running := some next, readyList := rest }

theorem Inv.dispatched (h : Inv s) (hr : s.running = none) {next : ℕ}
    (hready : s.readyList = next :: rest) : Inv (s.dispatched next rest) := by
  refine { h with placement := ?_ }
  have hp := h.placement
  rw [hr,hready] at hp
  exact hp.dispatch

/-- The process waits on its new timer. -/
theorem Inv.asleep (h : Inv s) (hr : s.running = some r) (hnum : SleepsOnTimer (s.syscallNum r))
    {awakeningTime : ℤ} (hadd : s.timerListAdd awakeningTime r = some u) :
    Inv { u.moveToWaiting r with running := none } := by
  obtain ⟨t,pool,T,hb,hT,rfl⟩ := timerListAdd_eq_some hadd
  obtain ⟨hfree,_,hal⟩ := Pool.getBlock_eq_some hb
  have hp := h.placement
  rw [hr] at hp
  have htimers := h.timers.sleep (h.not_waiting_running hr) hfree hal hT hnum
  exact { h with placement := hp.park, timers := htimers }

theorem Slept.asleep {awakeningTime : ℤ} (hadd : s.timerListAdd awakeningTime r = some u) :
    Slept s r { u.moveToWaiting r with running := none } := by
  obtain ⟨t,pool,T,_,_,rfl⟩ := timerListAdd_eq_some hadd
  exact .intro

theorem goToSleep_spec (h : Inv s) (hr : s.running = some r) (hnum : SleepsOnTimer (s.syscallNum r))
    (cycles : ℤ) : ∃ u, Slept s r u ∧ Inv u ∧ ((s.readyList = [] ∧ s.goToSleep r cycles = some u) ∨
      ∃ next rest, s.readyList = next :: rest ∧
        s.goToSleep r cycles = some (u.dispatched next rest)) := by
  obtain ⟨v,hadd⟩ := h.timerListAdd hr (wrapInt (s.disastrOSTime + cycles))
  refine ⟨_,.asleep hadd,h.asleep hr hnum hadd,?_⟩
  have hgo : s.goToSleep r cycles = some (v.moveToWaiting r).pickReady := by
    unfold goToSleep
    rw [hadd]
    rfl
  have hready : (v.moveToWaiting r).readyList = s.readyList := by
    obtain ⟨t,pool,T,_,_,rfl⟩ := timerListAdd_eq_some hadd
    rfl
  rw [hgo,pickReady]
  cases hs : s.readyList with
  | nil => exact Or.inl ⟨rfl,by simp only [hready,hs]⟩
  | cons next rest =>
    refine Or.inr ⟨next,rest,rfl,?_⟩
    simp only [hready,hs]
    rfl

end DisastrOS.Kernel
