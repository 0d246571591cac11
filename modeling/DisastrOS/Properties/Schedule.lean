import DisastrOS.Behaviour.History
import DisastrOS.Behaviour.Timers

/-! # What the scheduler does to the lists

The timer list is in the order of the awakening times and, among equal times, of the calls
that set the timers. So the loop takes exactly the timers whose time has come, and puts
their processes in this order in front of the ready ones, of which the first runs.
-/
namespace DisastrOS

/-- The last call of `p` came before that of `q`. -/
def CalledBefore (history : List Event) (p q : ℕ) : Prop :=
  (sinceTrap q history).length < (sinceTrap p history).length

namespace Kernel

/-- The timers whose time has come, in the order of their times and, among equal times, in
that of their insertion, which is what their processes have called the system for last. -/
structure Expired (s : Kernel) (items : List ℕ) : Prop where
  perm : items.Perm (s.timerList.filter (fun i => s.awakeningTime i ≤ s.disastrOSTime))
  ordered : items.Pairwise (fun i j => s.awakeningTime i < s.awakeningTime j ∨
    s.awakeningTime i = s.awakeningTime j ∧
      CalledBefore s.history (s.timerPcb i) (s.timerPcb j))

/-- The scheduler ends in the state `t`, with the processes of the items woken and the
running process `r` behind all those that are ready. -/
structure SchedulesTo (s : Kernel) (r : ℕ) (items : List ℕ) (t : Kernel) : Prop where
  ok : s.internalSchedule = .ok t
  timers : t.timerList = s.timerList.filter (fun i => s.disastrOSTime < s.awakeningTime i)
  waiting : t.waitingList = s.waitingList.filter (fun p => p ∉ items.map s.timerPcb)
  stays : items.map s.timerPcb ++ s.readyList = [] →
    t.running = some r ∧ t.status r = s.status r ∧ t.readyList = []
  switches : ∀ next rest, items.map s.timerPcb ++ s.readyList = next :: rest →
    t.running = some next ∧ t.status next = .running ∧
      t.readyList = rest ++ [r] ∧ t.status r = .ready

/-- The states in which `internal_schedule` runs from `s`: as it stands, on a tick of the
timer, and in a call of `preempt`. -/
inductive ScheduledFrom (s : Kernel) (r : ℕ) : Kernel → Prop
  | here : ScheduledFrom s r s
  | tick : ScheduledFrom s r (s.ticked r)
  | preempt (args : List ℤ) : ScheduledFrom s r (s.enterTrap r Syscall.preempt.number args)

variable {s t k : Kernel} {a : Action} {r : ℕ} {es : List Event} {p q : ℕ}

theorem calledBefore_append {h : List Event} (hp : ∀ e ∈ es, e.trapOf p = none)
    (hq : ∀ e ∈ es, e.trapOf q = none) : CalledBefore (es ++ h) p q ↔ CalledBefore h p q := by
  unfold CalledBefore
  rw [sinceTrap_append es hp,sinceTrap_append es hq,List.length_append,List.length_append]
  omega

/-- The newest call comes behind all others. -/
theorem calledBefore_trapped {h : List Event} {num : ℤ} (hp : p ≠ r)
    (hes : ∀ e ∈ es, ∀ q, e.trapOf q = none) :
    CalledBefore (es ++ .trapped r num :: h) p r := by
  have hother : (Event.trapped r num).trapOf p = none := if_neg hp.symm
  unfold CalledBefore
  rw [sinceTrap_append es (fun e he => hes e he r),sinceTrap_append es (fun e he => hes e he p),
    sinceTrap_trapped,sinceTrap_cons hother,List.length_append,List.length_append]
  simp

theorem Inv.alarm_waits (h : Inv s) {b : ℕ × ℤ} (hb : b ∈ s.alarms) : b.1 ∈ s.waitingList := by
  obtain ⟨i,hi,rfl⟩ := List.mem_map.mp hb
  exact (h.timers.waits i hi).1

theorem Inv.alarm_not_running (h : Inv s) {b : ℕ × ℤ} (hb : b ∈ s.alarms) :
    s.running ≠ some b.1 := fun hr => h.not_waiting_running hr (h.alarm_waits hb)

/-- The alarms stay in the order in which they were set. -/
theorem AlarmMove.orderedBy (h : Inv s) (hs : Alarms.OrderedBy (CalledBefore s.history) s.alarms)
    (hm : AlarmMove s a t) (hstep : s.step a = .ok t) :
    Alarms.OrderedBy (CalledBefore t.history) t.alarms := by
  obtain ⟨es,hes,hquiet⟩ := step_history h hstep
  have hsame : Alarms.OrderedBy (CalledBefore t.history) s.alarms := by
    refine hs.imp fun a ha b hb hab => ?_
    rw [hes]
    exact (calledBefore_append (hquiet a.1 (h.alarm_not_running ha))
      (hquiet b.1 (h.alarm_not_running hb))).mpr hab
  cases hm with
  | keep ha hal =>
    rw [hal]
    exact hsame
  | schedule ha hal =>
    rw [hal]
    exact hsame.pending _
  | @sleep num args r t hnum hr hal =>
    obtain ⟨c,hc⟩ : ∃ c, syscallVector num.toNat = some c := by
      rcases hnum with rfl | rfl | rfl <;> exact ⟨_,rfl⟩
    obtain ⟨es',hes',hall⟩ := step_trapped h hstep hr hc
    rw [hal]
    refine hsame.set fun b hb => ?_
    rw [hes']
    refine calledBefore_trapped ?_ hall
    rintro rfl
    exact h.alarm_not_running hb hr

theorem alarms_orderedBy (hs : Reachable s) :
    Alarms.OrderedBy (CalledBefore s.history) s.alarms := by
  refine hs.induction (P := fun s => Alarms.OrderedBy (CalledBefore s.history) s.alarms) ?_ ?_
  · intro function args logFile chars ints s hok
    obtain ⟨p,pool,hb,hsw⟩ := startFirstProcess_ok hok
    rw [hsw.sameTimers.alarms]
    exact List.Pairwise.nil
  · exact fun s a t h hs hstep => (step_alarmMove h hstep).orderedBy h hs hstep

theorem ScheduledFrom.inv (hk : ScheduledFrom s r k) (h : Inv s) (hr : s.running = some r) :
    Inv k ∧ k.running = some r := by
  cases hk with
  | here => exact ⟨h,hr⟩
  | tick => exact ⟨h.ticked r,hr⟩
  | preempt args => exact ⟨h.enterTrap hr _ args,hr⟩

theorem ScheduledFrom.orderedBy (hk : ScheduledFrom s r k) (h : Inv s) (hr : s.running = some r)
    (hs : Alarms.OrderedBy (CalledBefore s.history) s.alarms) :
    Alarms.OrderedBy (CalledBefore k.history) k.alarms := by
  cases hk with
  | here => exact hs
  | tick => exact hs
  | preempt args =>
    have hother : ∀ b ∈ s.alarms, ∀ e ∈ [Event.trapped r Syscall.preempt.number],
        e.trapOf b.1 = none := by
      intro b hb e he
      obtain rfl := List.mem_singleton.mp he
      refine if_neg ?_
      rintro rfl
      exact h.alarm_not_running hb hr
    exact hs.imp fun a ha b hb hab =>
      (calledBefore_append (hother a ha) (hother b hb)).mpr hab

theorem timers_sorted (hs : Alarms.Sorted s.alarms) :
    s.timerList.Pairwise (fun i j => s.awakeningTime i ≤ s.awakeningTime j) := by
  have hpairs := List.pairwise_map.mp hs
  exact hpairs

theorem expired_elapsed (hs : Alarms.OrderedBy (CalledBefore s.history) s.alarms) :
    s.Expired s.elapsed := by
  have hsorted := timers_sorted hs.sorted
  constructor
  · unfold elapsed
    rw [Alarms.takeWhile_eq_filter hsorted]
  · exact List.Pairwise.sublist (List.takeWhile_sublist _) (List.pairwise_map.mp hs)

theorem woken_waiting (h : Inv s) (hp : p ∈ s.woken) : p ∈ s.waitingList := by
  obtain ⟨i,hi,rfl⟩ := List.mem_map.mp hp
  exact (h.timers.waits i ((List.takeWhile_sublist _).subset hi)).1

theorem schedulesTo_scheduled (h : Inv s) (hr : s.running = some r)
    (hs : Alarms.OrderedBy (CalledBefore s.history) s.alarms) :
    SchedulesTo s r s.elapsed (s.scheduled r) := by
  have hsorted := timers_sorted hs.sorted
  have hrW : r ∉ s.woken := fun hw => h.not_waiting_running hr (woken_waiting h hw)
  have htimers : s.woke.timerList =
      s.timerList.filter (fun i => s.disastrOSTime < s.awakeningTime i) :=
    Alarms.dropWhile_eq_filter hsorted s.disastrOSTime
  have hwaiting : s.woke.waitingList = s.waitingList.filter (fun p => p ∉ s.woken) := by
    refine (List.diff_eq_foldl _ _).symm.trans ?_
    exact h.placement.waitingNodup.sdiff_eq_filter
  refine ⟨internalSchedule_eq h hr,?_,?_,?_,?_⟩
  · unfold scheduled
    split
    · exact htimers
    · exact htimers
  · unfold scheduled
    split
    · exact hwaiting
    · exact hwaiting
  · intro hnil
    have hready : s.woke.readyList = [] := hnil
    unfold scheduled
    rw [hready]
    exact ⟨hr,if_neg hrW,hready⟩
  · intro next rest hcons
    have hready : s.woke.readyList = next :: rest := hcons
    have hne : r ≠ next := by
      rintro rfl
      have hmem : r ∈ s.woken ++ s.readyList := hcons ▸ List.mem_cons_self
      exact (List.mem_append.mp hmem).elim hrW (h.placement.runningNotReady r hr)
    unfold scheduled
    rw [hready]
    refine ⟨rfl,Function.update_self _ _ _,rfl,?_⟩
    exact (Function.update_of_ne hne _ _).trans (Function.update_self _ _ _)

end Kernel

/-- Wherever `internal_schedule` runs, it takes off the timers whose time has come, wakes
their processes in the order of the times and of the insertions, and lets the first of those
that are then ready run. -/
theorem schedule_meets_specification {s k : Kernel} {r : ℕ} (hs : Reachable s)
    (hr : s.running = some r) (hk : Kernel.ScheduledFrom s r k) :
    ∃ items t, k.Expired items ∧ Kernel.SchedulesTo k r items t := by
  obtain ⟨hki,hkr⟩ := hk.inv hs.inv hr
  have hordered := hk.orderedBy hs.inv hr (Kernel.alarms_orderedBy hs)
  exact ⟨_,_,Kernel.expired_elapsed hordered,Kernel.schedulesTo_scheduled hki hkr hordered⟩

/-- Two processes have gone to sleep for the same time, and it has come. -/
theorem schedule_meets_specification_run : ∃ s : Kernel,
    (s.running = some 2 ∧ s.timerList.map s.timerPcb = [0,1]) ∧
      ∃ items t, s.Expired items ∧ Kernel.SchedulesTo s 2 items t := by
  obtain ⟨s,hs,hcheck⟩ := exists_run Transitions.unguarded
    [.call 5 [1,0],.ret,.call 5 [1,0],.ret,.call 6 [0],.call 6 [0]]
    (fun s => s.running = some 2 && s.timerList.map s.timerPcb = [0,1]) (by decide)
  simp only [Bool.and_eq_true,decide_eq_true_eq] at hcheck
  exact ⟨s,hcheck,schedule_meets_specification hs hcheck.1 .here⟩

end DisastrOS
