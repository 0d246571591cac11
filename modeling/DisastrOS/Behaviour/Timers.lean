import DisastrOS.Foundation.Alarms
import DisastrOS.Behaviour.Steps

/-! # Timers as alarms

What the wake-up loop and the insertion of a timer do, exactly, and what becomes of the
timer list in a step: a sleep sets an alarm, the scheduler takes off those whose time
has come, and no other step has to do with it.
-/
namespace DisastrOS

namespace Kernel

/-- The timers on which the wake-up loop stops. -/
def elapsed (s : Kernel) : List ℕ :=
  s.timerList.takeWhile (fun i => s.awakeningTime i ≤ s.disastrOSTime)

/-- The processes that the loop wakes, in this order. -/
def woken (s : Kernel) : List ℕ := s.elapsed.map s.timerPcb

/-- The state behind the loop when the processes `first` have been woken before, and
stand in front of `ready`. -/
def wokenBehind (s : Kernel) (first ready : List ℕ) : Kernel :=
  { s with
    waitingList := s.woken.foldl List.erase s.waitingList
    status := fun p => if p ∈ s.woken then .ready else s.status p
    timer := fun p => if p ∈ s.woken then none else s.timer p
    readyList := first ++ s.woken ++ ready
    timerList := s.timerList.dropWhile (fun i => s.awakeningTime i ≤ s.disastrOSTime)
    timerItemAllocator := s.elapsed.foldl Pool.releaseBlock s.timerItemAllocator }

/-- The state behind the wake-up loop. -/
def woke (s : Kernel) : Kernel := s.wokenBehind [] s.readyList

/-- The state behind `internal_schedule` while `r` runs. -/
def scheduled (s : Kernel) (r : ℕ) : Kernel :=
  match s.woke.readyList with
  | [] => s.woke
  | next :: rest => s.woke.rotated r next rest

variable {s t u v : Kernel} {r p i : ℕ} {previousPcb : Option ℕ} {rest first ready : List ℕ}

section WakeUp

theorem timerListCurrent_eq_none (h : s.timerListCurrent = none) : s.elapsed = [] := by
  unfold timerListCurrent at h
  unfold elapsed
  split at h
  · rename_i hnil
    rw [hnil]
    rfl
  · rename_i i rest hcons
    split at h
    · cases h
    · rename_i hlate
      rw [hcons,List.takeWhile_cons_of_neg (by simpa using hlate)]

theorem timerListCurrent_le (h : s.timerListCurrent = some i) :
    s.awakeningTime i ≤ s.disastrOSTime := by
  unfold timerListCurrent at h
  split at h
  · cases h
  · split at h
    · cases h
      assumption
    · cases h

theorem wokenBehind_nil (h : s.elapsed = []) (hready : s.readyList = first ++ ready) :
    s.wokenBehind first ready = s := by
  have hdrop : s.timerList.dropWhile (fun i => s.awakeningTime i ≤ s.disastrOSTime) =
      s.timerList := by
    have happ := List.takeWhile_append_dropWhile
      (p := fun i => decide (s.awakeningTime i ≤ s.disastrOSTime)) (l := s.timerList)
    unfold elapsed at h
    rwa [h,List.nil_append] at happ
  unfold wokenBehind woken
  rw [hdrop,h]
  simp only [List.map_nil,List.foldl_nil,List.not_mem_nil,if_false,List.append_nil,← hready]

theorem elapsed_cons (hcur : s.timerListCurrent = some i) (hT : s.timerList = i :: rest) :
    s.elapsed = i :: (s.fired previousPcb i rest).elapsed := by
  unfold elapsed
  rw [hT,List.takeWhile_cons_of_pos (by simpa using timerListCurrent_le hcur)]
  rfl

/-- The first pass of the loop, and the others behind it. -/
theorem wokenBehind_fired (hcur : s.timerListCurrent = some i) (hT : s.timerList = i :: rest) :
    (s.fired previousPcb i rest).wokenBehind (first ++ [s.timerPcb i]) ready =
      s.wokenBehind first ready := by
  have hel : s.elapsed = i :: (s.fired previousPcb i rest).elapsed := elapsed_cons hcur hT
  have hwoken : s.woken = s.timerPcb i :: (s.fired previousPcb i rest).woken := by
    unfold woken
    rw [hel]
    rfl
  have hdrop : s.timerList.dropWhile (fun i => s.awakeningTime i ≤ s.disastrOSTime) =
      rest.dropWhile (fun i => s.awakeningTime i ≤ s.disastrOSTime) := by
    rw [hT,List.dropWhile_cons_of_pos (by simpa using timerListCurrent_le hcur)]
  have hupdate : ∀ {β : Type} (f : ℕ → β) (v : β),
      (fun p => if p ∈ (s.fired previousPcb i rest).woken then v
        else Function.update f (s.timerPcb i) v p) = fun p => if p ∈ s.woken then v else f p := by
    intro β f v
    funext p
    rw [hwoken]
    by_cases hp : p = s.timerPcb i
    · subst hp
      simp
    · simp [hp]
  have hstatus := hupdate s.status .ready
  have htimer := hupdate s.timer none
  unfold wokenBehind
  rw [hdrop,← hstatus,← htimer,hwoken,hel]
  simp only [List.foldl_cons,List.append_assoc,List.singleton_append]
  rfl

theorem wakeElapsed_eq {n : ℕ} (h : Inv s) (hn : s.timerList.length ≤ n)
    (hready : s.readyList = first ++ ready) :
    wakeElapsed n first.getLast? s = .ok (s.wokenBehind first ready) := by
  induction n generalizing s first with
  | zero =>
    have hnil := List.length_eq_zero_iff.mp (Nat.le_zero.mp hn)
    have hcur : s.timerListCurrent = none := by simp only [timerListCurrent,hnil]
    rw [wokenBehind_nil (timerListCurrent_eq_none hcur) hready]
    exact wakeElapsed_done 0 hcur
  | succ n ih =>
    cases hcur : s.timerListCurrent with
    | none =>
      rw [wokenBehind_nil (timerListCurrent_eq_none hcur) hready]
      exact wakeElapsed_done _ hcur
    | some i =>
      obtain ⟨rest,hT⟩ := timerListCurrent_eq_some hcur
      have hprev : ∀ p, first.getLast? = some p → p ∈ s.readyList := by
        intro p hp
        rw [hready]
        exact List.mem_append_left _ (List.mem_of_getLast? hp)
      have hfirst : first.Nodup := by
        have hnodup := h.placement.readyNodup
        rw [hready] at hnodup
        exact (List.nodup_append.mp hnodup).1
      have hready' : (s.fired first.getLast? i rest).readyList =
          (first ++ [s.timerPcb i]) ++ ready := by
        refine (congrArg (fun l => listInsert l _ _) hready).trans ?_
        rw [listInsert_append hfirst,List.append_assoc]
        rfl
      have hlen : (s.fired first.getLast? i rest).timerList.length ≤ n := by
        rw [hT,List.length_cons] at hn
        exact Nat.le_of_succ_le_succ hn
      have hi := ih (h.fired hT hprev) hlen hready'
      rw [List.getLast?_concat,wokenBehind_fired hcur hT] at hi
      rw [wakeElapsed_succ h hcur hT,hi]

/-- The wake-up loop leaves exactly this state. -/
theorem wakeElapsed_woke (h : Inv s) : wakeElapsed s.timerList.length none s = .ok s.woke := by
  have hready : s.readyList = [] ++ s.readyList := rfl
  exact wakeElapsed_eq h (Nat.le_refl _) hready

theorem internalSchedule_eq (h : Inv s) (hr : s.running = some r) :
    s.internalSchedule = .ok (s.scheduled r) := by
  have hrun : s.woke.running = some r := hr
  unfold internalSchedule scheduled
  rw [wakeElapsed_woke h]
  cases hready : s.woke.readyList with
  | nil => simp only [ok_bind,hready]
  | cons next rest =>
    simp only [ok_bind,hready,hrun]
    rfl

theorem readyList_woke (s : Kernel) : s.woke.readyList = s.woken ++ s.readyList := rfl

/-- Whoever was ready, or is woken, is ready or runs behind the scheduler. -/
theorem mem_scheduled (hp : p ∈ s.woken ∨ p ∈ s.readyList) :
    p ∈ (s.scheduled r).readyList ∨ (s.scheduled r).running = some p := by
  have hmem : p ∈ s.woke.readyList := by
    rw [readyList_woke]
    exact List.mem_append.mpr hp
  unfold scheduled
  cases hready : s.woke.readyList with
  | nil =>
    rw [hready] at hmem
    cases hmem
  | cons next rest =>
    rw [hready] at hmem
    rcases List.mem_cons.mp hmem with rfl | hrest
    · exact Or.inr rfl
    · exact Or.inl (mem_listAppend.mpr (Or.inl hrest))

end WakeUp

section Alarms

/-- The queue of alarms that the timer list stands for. -/
def alarms (s : Kernel) : List (ℕ × ℤ) :=
  s.timerList.map (fun i => (s.timerPcb i,s.awakeningTime i))

/-- Two states have the same timers. -/
structure SameTimers (s t : Kernel) : Prop where
  timerList : t.timerList = s.timerList
  timerPcb : t.timerPcb = s.timerPcb
  awakeningTime : t.awakeningTime = s.awakeningTime

theorem SameTimers.alarms (h : SameTimers s t) : t.alarms = s.alarms := by
  unfold Kernel.alarms
  rw [h.timerList,h.timerPcb,h.awakeningTime]

theorem alarms_scheduled (s : Kernel) (r : ℕ) :
    (s.scheduled r).alarms = Alarms.pending s.alarms s.disastrOSTime := by
  have hwoke : s.woke.alarms = Alarms.pending s.alarms s.disastrOSTime := by
    unfold alarms Alarms.pending
    rw [List.dropWhile_map]
    rfl
  unfold scheduled
  split
  · exact hwoke
  · exact hwoke

theorem woken_eq (s : Kernel) : s.woken = (Alarms.due s.alarms s.disastrOSTime).map Prod.fst := by
  unfold woken elapsed alarms Alarms.due
  rw [List.takeWhile_map,List.map_map]
  rfl

/-- A new timer is a new alarm. -/
theorem alarms_timerListAdd (h : Inv s) {awakeningTime : ℤ}
    (hadd : s.timerListAdd awakeningTime r = some u) :
    u.alarms = Alarms.set s.alarms (r,awakeningTime) := by
  cases hb : s.timerItemAllocator.getBlock with
  | none => cases hadd.symm.trans (timerListAdd_none hb)
  | some b =>
    obtain ⟨i,pool⟩ := b
    cases hadd.symm.trans (timerListAdd_some hb)
    obtain ⟨hfree,_,_⟩ := Pool.getBlock_eq_some hb
    have hiT : i ∉ s.timerList := fun hi => hfree ((h.timers.items i).mpr hi)
    have hsame : ∀ j ∈ s.timerList, (Function.update s.timerPcb i r j,
        Function.update s.awakeningTime i awakeningTime j) = (s.timerPcb j,s.awakeningTime j) := by
      intro j hj
      rw [update_of_not_mem hiT hj,update_of_not_mem hiT hj]
    have hset := Alarms.map_set (x := i) hsame
    rw [Function.update_self,Function.update_self] at hset
    unfold alarms
    simp only [not_lt,listInsert_takeWhile h.timers.nodup]
    exact hset

end Alarms

section Moves

/-- The time at which an action executes `internal_schedule`, if it does. -/
def scheduleTime (s : Kernel) : Action → Option ℤ
  | .tick => some (wrapInt (s.disastrOSTime + 1))
  | .call num _ => if num = Syscall.preempt.number then some s.disastrOSTime else none
  | _ => none

/-- For how long a call that sleeps on a timer sleeps. -/
def sleepCycles (num : ℤ) (args : List ℤ) : ℤ := if num = dsosCallSleep then args.getD 0 0 else 25

/-- What a step does to the alarms. -/
inductive AlarmMove (s : Kernel) : Action → Kernel → Prop
  | keep {a : Action} {t : Kernel} (ha : s.scheduleTime a = none) (hal : t.alarms = s.alarms)
      (hawake : ∀ num args, a = .call num args → SleepsOnTimer num → t.running = s.running) :
      AlarmMove s a t
  | sleep {num : ℤ} {args : List ℤ} {r : ℕ} {t : Kernel} (hnum : SleepsOnTimer num)
      (hr : s.running = some r)
      (hal : t.alarms =
        Alarms.set s.alarms (r,wrapInt (s.disastrOSTime + sleepCycles num args))) :
      AlarmMove s (.call num args) t
  | schedule {a : Action} {now : ℤ} {t : Kernel} (ha : s.scheduleTime a = some now)
      (hal : t.alarms = Alarms.pending s.alarms now)
      (hwakes : ∀ b ∈ Alarms.due s.alarms now, b.1 ∈ t.readyList ∨ t.running = some b.1) :
      AlarmMove s a t

variable {c : Syscall} {a : Action} {num : ℤ} {args : List ℤ}

theorem Switched.readyList (hsw : Switched v t) : t.readyList = v.readyList := by
  cases hsw <;> rfl

theorem Switched.sameTimers (hsw : Switched v t) : SameTimers v t := by
  cases hsw <;> exact ⟨rfl,rfl,rfl⟩

/-- Only four calls have to do with the timers. -/
theorem Effect.sameTimers (he : Effect s r c t) (hpreempt : c ≠ .preempt) (hsleep : c ≠ .sleep)
    (hsend : c ≠ .mqSend) (hreceive : c ≠ .mqReceive) : SameTimers s t := by
  cases he with
  | preempt => exact absurd rfl hpreempt
  | sleep => exact absurd rfl hsleep
  | sleepNext => exact absurd rfl hsleep
  | sendRefused => exact absurd rfl hsend
  | sendBlocks => exact absurd rfl hsend
  | send => exact absurd rfl hsend
  | receiveRefused => exact absurd rfl hreceive
  | receiveBlocks => exact absurd rfl hreceive
  | receive => exact absurd rfl hreceive
  | _ => exact ⟨rfl,rfl,rfl⟩

theorem alarms_goToSleep (h : Inv s) {cycles : ℤ} (hgo : s.goToSleep r cycles = some t) :
    t.alarms = Alarms.set s.alarms (r,wrapInt (s.disastrOSTime + cycles)) := by
  unfold goToSleep at hgo
  obtain ⟨u,hadd,rfl⟩ := Option.map_eq_some_iff.mp hgo
  have hpick : SameTimers u (u.moveToWaiting r).pickReady := by
    unfold pickReady
    split <;> exact ⟨rfl,rfl,rfl⟩
  rw [hpick.alarms,alarms_timerListAdd h hadd]

theorem alarms_internalSleep (h : Inv s) (hr : s.running = some r)
    (hok : s.internalSleep r = .ok t) :
    t.alarms = Alarms.set s.alarms (r,wrapInt (s.disastrOSTime + s.syscallArgs r 0)) := by
  obtain ⟨u,hadd⟩ := h.timerListAdd hr (wrapInt (s.disastrOSTime + s.syscallArgs r 0))
  have hnot : ¬ (s.timer r).isSome := by simp [h.noTimer r]
  have hgo : s.goToSleep r (s.syscallArgs r 0) = some (u.moveToWaiting r).pickReady := by
    unfold goToSleep
    rw [hadd]
    rfl
  unfold internalSleep at hok
  rw [if_neg hnot] at hok
  simp only [hgo,Except.ok.injEq] at hok
  exact hok ▸ alarms_goToSleep h hgo

theorem alarms_blockOnQueue (h : Inv s) (hr : s.running = some r) {code : ℤ}
    (hok : s.blockOnQueue r code = .ok t) :
    t.alarms = Alarms.set s.alarms (r,wrapInt (s.disastrOSTime + 25)) := by
  obtain ⟨u,hadd⟩ := h.timerListAdd hr (wrapInt (s.disastrOSTime + 25))
  have hnot : ¬ (s.timer r).isSome := by simp [h.noTimer r]
  have hgo : s.goToSleep r 25 = some (u.moveToWaiting r).pickReady := by
    unfold goToSleep
    rw [hadd]
    rfl
  have halarms := alarms_goToSleep h hgo
  unfold blockOnQueue at hok
  rw [if_neg hnot] at hok
  simp only [hgo] at hok
  split at hok
  · cases hok
  · cases hok
    exact halarms

/-- A send sets an alarm, or returns at once. -/
theorem alarms_internalMqSend (h : Inv s) (hr : s.running = some r)
    (hok : s.internalMqSend r = .ok t) :
    t.alarms = Alarms.set s.alarms (r,wrapInt (s.disastrOSTime + 25)) ∨
      t.alarms = s.alarms ∧ t.running = s.running := by
  rcases internalMqSend_cases s r with ⟨_,v,_,heq⟩ | ⟨_,heq⟩ | ⟨_,q,_,heq⟩
  · cases heq.symm.trans hok
    exact Or.inr ⟨rfl,rfl⟩
  · exact Or.inl (alarms_blockOnQueue h hr (heq.symm.trans hok))
  · obtain ⟨m,pool,text,_,_,rfl⟩ := appendMessage_ok (heq.symm.trans hok)
    exact Or.inr ⟨rfl,rfl⟩

theorem alarms_internalMqReceive (h : Inv s) (hr : s.running = some r)
    (hok : s.internalMqReceive r = .ok t) :
    t.alarms = Alarms.set s.alarms (r,wrapInt (s.disastrOSTime + 25)) ∨
      t.alarms = s.alarms ∧ t.running = s.running := by
  rcases internalMqReceive_cases s r with ⟨_,v,_,heq⟩ | ⟨_,q,_,heq⟩ | ⟨_,q,hp,heq⟩
  · cases heq.symm.trans hok
    exact Or.inr ⟨rfl,rfl⟩
  · have hal := alarms_blockOnQueue (s := s.sizeChecked r q) (h.sizeChecked r q) hr
      (heq.symm.trans hok)
    exact Or.inl hal
  · obtain ⟨m,rest,_,hrem⟩ := removeMessage_eq h
      (h.queueOf_mem (h.running_allocated hr) hp.1) hp.2.2 (s.syscallArgs r 1)
    rw [heq,hrem] at hok
    split at hok
    · cases hok
    · cases hok
      exact Or.inr ⟨rfl,rfl⟩

/-- A handler sleeps, schedules or leaves the timers alone. -/
theorem handler_alarms (h : Inv s) (hr : s.running = some r)
    (hc : syscallVector (s.syscallNum r).toNat = some c) (hok : handler c s r = .ok t)
    (hpreempt : c ≠ .preempt) (hsleep : c ≠ .sleep) (hsend : c ≠ .mqSend)
    (hreceive : c ≠ .mqReceive) : t.alarms = s.alarms :=
  ((handler_effect h hr hc hok).sameTimers hpreempt hsleep hsend hreceive).alarms

theorem internalSchedule_alarmMove (h : Inv s) (hr : s.running = some r)
    (hok : s.internalSchedule = .ok v) (hsw : Switched v t) :
    t.alarms = Alarms.pending s.alarms s.disastrOSTime ∧
      ∀ b ∈ Alarms.due s.alarms s.disastrOSTime, b.1 ∈ t.readyList ∨ t.running = some b.1 := by
  cases (internalSchedule_eq h hr).symm.trans hok
  constructor
  · rw [hsw.sameTimers.alarms,alarms_scheduled]
  · intro b hb
    have hwoken : b.1 ∈ s.woken := by
      rw [woken_eq]
      exact List.mem_map_of_mem hb
    rw [hsw.running,hsw.readyList]
    exact mem_scheduled (Or.inl hwoken)

theorem Called.alarmMove (h : Inv s) (hr : s.running = some r) (hcalled : s.Called r num args t) :
    AlarmMove s (.call num args) t := by
  have hnone : ∀ {n : ℤ}, n ≠ Syscall.preempt.number → s.scheduleTime (.call n args) = none :=
    fun hn => if_neg hn
  have h' := h.enterTrap hr num args
  cases hcalled with
  | refused hnum =>
    refine .keep (hnone ?_) rfl (fun _ _ _ _ => rfl)
    rintro rfl
    revert hnum
    decide
  | missing hnum hc hsw =>
    refine .keep (hnone ?_) hsw.sameTimers.alarms (fun _ _ _ _ => hsw.running)
    rintro rfl
    cases hc
  | @handled c v t hnum hc hok hsw =>
    have hn := syscallVector_eq_some hc
    have hc' := syscallVector_enterTrap (r := r) s args hc
    have hkeep : c ≠ .preempt → t.alarms = s.alarms →
        (SleepsOnTimer num → t.running = s.running) → AlarmMove s (.call num args) t := by
      intro hne hal hawake
      refine .keep (hnone ?_) hal ?_
      · rw [hn]
        cases c <;> first | decide | exact absurd rfl hne
      · intro n as heq hsleeps
        cases heq
        exact hawake hsleeps
    have hset : ∀ {n : ℤ}, SleepsOnTimer num → sleepCycles num args = n →
        v.alarms = Alarms.set s.alarms (r,wrapInt (s.disastrOSTime + n)) →
        AlarmMove s (.call num args) t := by
      intro n hsleeps hcycles hal
      refine .sleep hsleeps hr ?_
      rw [hsw.sameTimers.alarms,hal,hcycles]
    cases c with
    | preempt =>
      obtain ⟨hal,hwakes⟩ := internalSchedule_alarmMove h' hr hok hsw
      exact .schedule (if_pos hn) hal hwakes
    | sleep =>
      have hal := alarms_internalSleep h' hr hok
      have harg : (s.enterTrap r num args).syscallArgs r 0 = args.getD 0 0 :=
        syscallArgs_enterTrap (by rw [hn]; decide)
      rw [harg] at hal
      exact hset (Or.inl hn) (if_pos hn) hal
    | mqSend =>
      have hsleeps : SleepsOnTimer num := Or.inr (Or.inl hn)
      have hcycles : sleepCycles num args = 25 := if_neg (by rw [hn]; decide)
      rcases alarms_internalMqSend h' hr hok with hal | ⟨hal,hrun⟩
      · exact hset hsleeps hcycles hal
      · exact hkeep nofun (hsw.sameTimers.alarms.trans hal) (fun _ => hsw.running.trans hrun)
    | mqReceive =>
      have hsleeps : SleepsOnTimer num := Or.inr (Or.inr hn)
      have hcycles : sleepCycles num args = 25 := if_neg (by rw [hn]; decide)
      rcases alarms_internalMqReceive h' hr hok with hal | ⟨hal,hrun⟩
      · exact hset hsleeps hcycles hal
      · exact hkeep nofun (hsw.sameTimers.alarms.trans hal) (fun _ => hsw.running.trans hrun)
    | _ =>
      have hal := handler_alarms h' hr hc' hok nofun nofun nofun nofun
      refine hkeep nofun (hsw.sameTimers.alarms.trans hal) ?_
      rw [hn]
      exact fun hsleeps => absurd hsleeps (by unfold SleepsOnTimer; decide)

/-- What each step does to the alarms. -/
theorem step_alarmMove (h : Inv s) (hstep : s.step a = .ok t) : AlarmMove s a t := by
  cases a with
  | tick =>
    obtain ⟨r,v,hr,hok,hsw⟩ := step_ticked hstep
    obtain ⟨hal,hwakes⟩ := internalSchedule_alarmMove (h.ticked r) hr hok hsw
    exact .schedule rfl hal hwakes
  | call num args =>
    obtain ⟨r,hr,_,_,hcalled⟩ := step_called hstep
    exact hcalled.alarmMove h hr
  | ret =>
    cases step_moves h hstep
    exact .keep rfl rfl nofun
  | store address c =>
    cases step_moves h hstep
    exact .keep rfl rfl nofun
  | resumeMain =>
    cases step_moves h hstep with
    | resumeMain hr hdown hb hsw => exact .keep rfl hsw.sameTimers.alarms nofun

theorem AlarmMove.sorted (hs : Alarms.Sorted s.alarms) (hm : AlarmMove s a t) :
    Alarms.Sorted t.alarms := by
  cases hm with
  | keep ha hal => exact hal ▸ hs
  | sleep hnum hr hal => exact hal ▸ hs.set _
  | schedule ha hal => exact hal ▸ hs.pending _

end Moves

end Kernel

end DisastrOS
