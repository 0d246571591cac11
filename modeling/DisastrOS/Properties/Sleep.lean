import DisastrOS.Behaviour.Timers

/-! # Sleep is neither early nor late

A process that sleeps on a timer has exactly one alarm. The alarm stays set while the
scheduler runs before its time, and the first run of the scheduler at its time, or
behind it, takes it off and makes the process ready.
-/
namespace DisastrOS

namespace Kernel

/-- An action does not execute `internal_schedule` at the time `w` or behind it. -/
def SchedulesBefore (w : ℤ) (s : Kernel) (a : Action) : Prop :=
  ∀ now, s.scheduleTime a = some now → now < w

variable {s t u v : Kernel} {a : Action} {p : ℕ} {w now : ℤ} {num : ℤ} {args : List ℤ}

theorem wrapInt_of_range {x : ℤ} (hlo : -2147483648 ≤ x) (hhi : x < 2147483648) :
    wrapInt x = x := by
  unfold wrapInt
  apply Int.bmod_eq_of_le
  · omega
  · omega

theorem mem_alarms :
    (p,w) ∈ s.alarms ↔ ∃ i ∈ s.timerList, s.timerPcb i = p ∧ s.awakeningTime i = w := by
  unfold alarms
  rw [List.mem_map]
  simp only [Prod.mk.injEq]

theorem scheduleTime_of_sleeps (hnum : SleepsOnTimer num) :
    s.scheduleTime (.call num args) = none := by
  apply if_neg
  rintro rfl
  revert hnum
  unfold SleepsOnTimer
  decide

theorem asleep_of_alarm (h : Inv s) (ha : (p,w) ∈ s.alarms) :
    p ∈ s.waitingList ∧ p ∉ s.readyList ∧ s.running ≠ some p := by
  obtain ⟨i,hi,rfl,_⟩ := mem_alarms.mp ha
  have hw := (h.timers.waits i hi).1
  refine ⟨hw,fun hready => h.placement.ready_not_waiting hready hw,?_⟩
  intro hrun
  exact h.not_waiting_running hrun hw

theorem alarm_unique (h : Inv s) {w' : ℤ} (ha : (p,w) ∈ s.alarms) (ha' : (p,w') ∈ s.alarms) :
    w' = w := by
  obtain ⟨i,hi,hip,hiw⟩ := mem_alarms.mp ha
  obtain ⟨j,hj,hjp,hjw⟩ := mem_alarms.mp ha'
  cases h.timers.injective j hj i hi (hjp.trans hip.symm)
  exact hjw.symm.trans hiw

theorem AlarmMove.sets (h : Inv t) (hm : AlarmMove s (.call num args) t) (hnum : SleepsOnTimer num)
    (hr : s.running = some p) (hp : p ∈ t.waitingList) :
    (p,wrapInt (s.disastrOSTime + sleepCycles num args)) ∈ t.alarms := by
  cases hm with
  | keep ha hal hawake =>
    exact absurd hp (h.not_waiting_running ((hawake num args rfl hnum).trans hr))
  | sleep _ hr' hal =>
    cases Option.some.inj (hr'.symm.trans hr)
    rw [hal]
    exact Alarms.mem_set.mpr (Or.inl rfl)
  | schedule ha hal hwakes =>
    cases (scheduleTime_of_sleeps hnum).symm.trans ha

theorem AlarmMove.keeps (hs : Alarms.Sorted s.alarms) (hm : AlarmMove s a t)
    (ha : (p,w) ∈ s.alarms) (hbefore : s.SchedulesBefore w a) : (p,w) ∈ t.alarms := by
  cases hm with
  | keep _ hal => exact hal ▸ ha
  | sleep hnum hr hal =>
    rw [hal]
    exact Alarms.mem_set.mpr (Or.inr ha)
  | schedule hsched hal =>
    rw [hal,hs.mem_pending]
    exact ⟨ha,hbefore _ hsched⟩

/-- The scheduler takes an alarm off whose time has come, and wakes its process. -/
theorem AlarmMove.wakes (h : Inv s) (ht : Inv t) (hs : Alarms.Sorted s.alarms)
    (hm : AlarmMove s a t) (ha : (p,w) ∈ s.alarms) (hnow : s.scheduleTime a = some now)
    (hdue : w ≤ now) : p ∉ t.waitingList ∧ (∀ i ∈ t.timerList, t.timerPcb i ≠ p) ∧
      (p ∈ t.readyList ∨ t.running = some p) := by
  cases hm with
  | keep hnone => cases hnone.symm.trans hnow
  | sleep hnum => cases (scheduleTime_of_sleeps hnum).symm.trans hnow
  | schedule hsched hal hwakes =>
    cases Option.some.inj (hsched.symm.trans hnow)
    have hready := hwakes (p,w) (hs.mem_due.mpr ⟨ha,hdue⟩)
    refine ⟨?_,?_,hready⟩
    · rcases hready with hready | hrun
      · exact ht.placement.ready_not_waiting hready
      · exact ht.not_waiting_running hrun
    · intro i hi hip
      have hleft : (p,t.awakeningTime i) ∈ t.alarms := mem_alarms.mpr ⟨i,hi,hip,rfl⟩
      rw [hal,hs.mem_pending] at hleft
      have heq := alarm_unique h ha hleft.1
      have hlt := hleft.2
      simp only at hlt
      omega

end Kernel

theorem Reachable.sorted {s : Kernel} (hs : Reachable s) : Alarms.Sorted s.alarms := by
  refine Transitions.Reach.invariant_within (I := fun s => Alarms.Sorted s.alarms)
    (fun _ => Reachable.inv) ?_ (fun s a t h hs _ hst => (Kernel.step_alarmMove h hst).sorted hs) hs
  rintro s ⟨function,args,logFile,chars,ints,hok⟩
  obtain ⟨p,pool,hb,hsw⟩ := Kernel.startFirstProcess_ok hok
  rw [hsw.sameTimers.alarms]
  exact List.Pairwise.nil

/-- A process that goes to sleep stays asleep until the scheduler runs at its wake time or
behind it, and the first such run makes it ready or lets it run. -/
theorem sleep_punctual {s t : Kernel} {p : ℕ} {num : ℤ} {args : List ℤ} (hs : Reachable s)
    (hr : s.running = some p) (hnum : SleepsOnTimer num) (hstep : s.step (.call num args) = .ok t)
    (hp : p ∈ t.waitingList) (hlo : -2147483648 ≤ s.disastrOSTime + Kernel.sleepCycles num args)
    (hhi : s.disastrOSTime + Kernel.sleepCycles num args < 2147483648) {u : Kernel}
    (hu : Transitions.LaterUnder system
      (Kernel.SchedulesBefore (s.disastrOSTime + Kernel.sleepCycles num args)) t u) :
    (p ∈ u.waitingList ∧ p ∉ u.readyList ∧ u.running ≠ some p) ∧
      ∀ a v now, u.step a = .ok v → u.scheduleTime a = some now →
        s.disastrOSTime + Kernel.sleepCycles num args ≤ now →
          p ∉ v.waitingList ∧ (∀ i ∈ v.timerList, v.timerPcb i ≠ p) ∧
            (p ∈ v.readyList ∨ v.running = some p) := by
  have ht : Reachable t := .step hs trivial hstep
  have hset := (Kernel.step_alarmMove hs.inv hstep).sets ht.inv hnum hr hp
  rw [Kernel.wrapInt_of_range hlo hhi] at hset
  obtain ⟨hur,hua⟩ := hu.preserves (I := fun u =>
      (p,s.disastrOSTime + Kernel.sleepCycles num args) ∈ u.alarms)
    (fun u a v hur hua hbefore hst =>
      (Kernel.step_alarmMove (Reachable.inv hur) hst).keeps (Reachable.sorted hur) hua hbefore) ht hset
  have hui := Reachable.inv hur
  refine ⟨Kernel.asleep_of_alarm hui hua,?_⟩
  intro a v now hst hnow hdue
  have hv : Reachable v := .step hur trivial hst
  exact (Kernel.step_alarmMove hui hst).wakes hui hv.inv (Reachable.sorted hur) hua hnow hdue

/-- Init sleeps for two ticks while its child runs. -/
theorem sleep_punctual_run : ∃ s t : Kernel, (t.running = some 1 ∧ t.waitingList = [0]) ∧
    s.step (.call 6 [2]) = .ok t ∧
    ∀ u, Transitions.LaterUnder system (Kernel.SchedulesBefore 2) t u →
      (0 ∈ u.waitingList ∧ 0 ∉ u.readyList ∧ u.running ≠ some 0) ∧
        ∀ a v now, u.step a = .ok v → u.scheduleTime a = some now → 2 ≤ now →
          0 ∉ v.waitingList ∧ (∀ i ∈ v.timerList, v.timerPcb i ≠ 0) ∧
            (0 ∈ v.readyList ∨ v.running = some 0) := by
  obtain ⟨s,hs,hcheck⟩ := exists_run Transitions.unguarded [.call 5 [1,0],.ret]
    (fun s => s.running = some 0 && s.disastrOSTime = 0 &&
      s.after (.call 6 [2]) (fun t => t.running = some 1 && t.waitingList = [0])) (by decide)
  simp only [Bool.and_eq_true,decide_eq_true_eq] at hcheck
  obtain ⟨⟨hr,htime⟩,hafter⟩ := hcheck
  obtain ⟨t,hstep,hcheck⟩ := Kernel.after_eq_true hafter
  simp only [Bool.and_eq_true,decide_eq_true_eq] at hcheck
  have hwake : s.disastrOSTime + Kernel.sleepCycles 6 [2] = 2 := by
    rw [htime]
    rfl
  refine ⟨s,t,hcheck,hstep,?_⟩
  intro u hu
  have hsleeps : SleepsOnTimer 6 := Or.inl rfl
  have hpunctual := sleep_punctual hs hr hsleeps hstep (by simp [hcheck.2])
    (by rw [hwake]; decide) (by rw [hwake]; decide) (u := u)
  rw [hwake] at hpunctual
  exact hpunctual hu

end DisastrOS
