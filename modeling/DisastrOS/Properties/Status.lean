import DisastrOS.Behaviour.Timers

/-! # The status of who runs

The scheduler and an exit mark the process they pass the processor to as running. The
four calls that block pass it on without a mark, so the next process keeps the status of
a ready one. Everything else about the status is settled by the list a process is on.
-/
namespace DisastrOS

namespace Kernel

/-- While a process runs it has the status of one and no other process has it, and
whoever is ready has the status of that. -/
def StatusAgrees (s : Kernel) : Prop :=
  ∀ r, s.running = some r → s.status r = .running ∧ (∀ p ∈ s.readyList, s.status p = .ready) ∧
    ∀ p, s.pcbAllocator.Allocated p → s.status p = .running → p = r

/-- The running process is marked as such. -/
def Marked (s : Kernel) : Prop := ∀ r, s.running = some r → s.status r = .running

/-- The handler blocks its caller and lets the first ready process run. -/
def HandsOver (s : Kernel) (r : ℕ) : Syscall → Prop
  | .wait => ∃ x, s.awaitedEntry r = some x ∧ s.status (s.childPcb x) ≠ .zombie
  | .sleep => True
  | .mqSend => s.SendBlocks r
  | .mqReceive => s.ReceiveBlocks r
  | _ => False

/-- No call blocks while another process is ready. -/
def KeepsStatus (s : Kernel) : Action → Prop
  | .call num args => ∀ r c, s.running = some r → syscallVector num.toNat = some c →
      s.readyList ≠ [] → ¬ (s.enterTrap r num args).HandsOver r c
  | _ => True

variable {s t u v : Kernel} {a : Action} {r p next : ℕ} {c : Syscall} {rest : List ℕ}
variable {num : ℤ} {args : List ℤ}

/-- Apart from the mark the statuses agree in any case. -/
theorem statusAgrees_iff (h : Inv s) : s.StatusAgrees ↔ s.Marked := by
  constructor
  · exact fun hs r hr => (hs r hr).1
  · intro hs r hr
    refine ⟨hs r hr,h.placement.readyStatus,?_⟩
    intro p hp hst
    rcases (h.placement.covered p).mp hp with hrun | hready | hwait | hz
    · exact Option.some.inj (hrun.symm.trans hr)
    · cases (h.placement.readyStatus p hready).symm.trans hst
    · cases ((h.placement.waitingStatus p).mp hwait).symm.trans hst
    · cases (h.placement.zombieStatus p hz).symm.trans hst

theorem Switched.marked (hsw : Switched v t) : t.Marked ↔ v.Marked := by
  cases hsw <;> exact Iff.rfl

theorem not_marked_of_ready (hrun : t.running = some next) (hst : t.status next = .ready) :
    ¬ t.Marked := by
  intro hm
  cases hst.symm.trans (hm next hrun)

theorem marked_of_status (hrun : t.running = some next) (hst : t.status next = .running) :
    t.Marked := by
  intro r hr
  cases Option.some.inj (hrun.symm.trans hr)
  exact hst

theorem not_mem_woken (h : Inv s) (hr : s.running = some r) : r ∉ s.woken := by
  intro hmem
  obtain ⟨i,hi,rfl⟩ := List.mem_map.mp hmem
  have hw := (h.timers.waits i ((List.takeWhile_sublist _).subset hi)).1
  exact h.not_waiting_running hr hw

theorem marked_scheduled (h : Inv s) (hs : s.Marked) (hr : s.running = some r) :
    (s.scheduled r).Marked := by
  unfold scheduled
  split
  · intro q hq
    cases Option.some.inj (hr.symm.trans hq)
    exact (if_neg (not_mem_woken h hr)).trans (hs r hr)
  · exact marked_of_status rfl (Function.update_self _ _ _)

theorem internalSchedule_marked (h : Inv s) (hs : s.Marked) (hr : s.running = some r)
    (hok : s.internalSchedule = .ok v) : v.Marked := by
  cases (internalSchedule_eq h hr).symm.trans hok
  exact marked_scheduled h hs hr

theorem not_marked_dispatched (h : Inv s) (hr : s.running = some r)
    (hready : s.readyList = next :: rest) (hrun : t.running = some next)
    (hst : t.status next = Function.update s.status r .waiting next) : ¬ t.Marked := by
  have hmem : next ∈ s.readyList := by
    rw [hready]
    exact List.mem_cons_self
  have hne : next ≠ r := by
    rintro rfl
    exact h.placement.runningNotReady next hr hmem
  apply not_marked_of_ready hrun
  rw [hst,Function.update_of_ne hne]
  exact h.placement.readyStatus next hmem

/-- A handler leaves the processor with an unmarked process exactly if it blocks and a
process is ready. -/
theorem Effect.marked (h : Inv s) (hs : s.Marked) (hr : s.running = some r)
    (he : Effect s r c v) (hpreempt : c ≠ .preempt) :
    v.Marked ↔ (s.readyList ≠ [] → ¬ s.HandsOver r c) := by
  have hst := hs r hr
  have hsame : ∀ {t : Kernel}, t.running = some r → t.status r = s.status r → ¬ s.HandsOver r c →
      (t.Marked ↔ (s.readyList ≠ [] → ¬ s.HandsOver r c)) := by
    intro t hrun hstatus hnot
    exact iff_of_true (marked_of_status hrun (hstatus.trans hst)) (fun _ => hnot)
  have hblocks : ∀ {t : Kernel} {next : ℕ} {rest : List ℕ}, s.readyList = next :: rest →
      t.running = some next → t.status next = Function.update s.status r .waiting next →
      s.HandsOver r c → (t.Marked ↔ (s.readyList ≠ [] → ¬ s.HandsOver r c)) := by
    intro t next rest hready hrun hstatus hands
    refine iff_of_false (not_marked_dispatched h hr hready hrun hstatus) ?_
    intro hnot
    exact hnot (by simp [hready]) hands
  have hcreated : ∀ p pool x entries, s.pcbAllocator.getBlock = some (p,pool) →
      (s.withChild r p pool x entries).status r = s.status r := by
    intro p pool x entries hb
    obtain ⟨hfree,_,_⟩ := Pool.getBlock_eq_some hb
    have hrp : r ≠ p := by
      rintro rfl
      exact hfree (h.running_allocated hr)
    exact (Function.update_of_ne hrp _ _).trans (Function.update_of_ne hrp _ _)
  cases he with
  | preempt => exact absurd rfl hpreempt
  | @fork p x pool entries hb hx => exact hsame hr (hcreated p pool x entries hb) id
  | @spawn p x pool entries hb hx => exact hsame hr (hcreated p pool x entries hb) id
  | noChild hnil =>
    refine hsame hr rfl ?_
    rintro ⟨x,hx,_⟩
    have hmem := awaitedEntry_mem hx
    rw [hnil] at hmem
    cases hmem
  | reap hx hz =>
    refine hsame hr rfl ?_
    rintro ⟨y,hy,hyz⟩
    cases Option.some.inj (hx.symm.trans hy)
    exact hyz hz
  | block hx hz hready => exact hblocks hready rfl rfl ⟨_,hx,hz⟩
  | collect => exact iff_of_true (marked_of_status rfl (Function.update_self _ _ _)) (fun _ => id)
  | replace => exact iff_of_true (marked_of_status rfl (Function.update_self _ _ _)) (fun _ => id)
  | sleep hslept hu hready =>
    obtain ⟨⟩ := hslept
    exact iff_of_true nofun (fun hne => absurd hready hne)
  | sleepNext hslept hu hready =>
    obtain ⟨⟩ := hslept
    exact hblocks hready rfl rfl trivial
  | resource hc => rcases hc with rfl | rfl | rfl <;> exact hsame hr rfl id
  | queue hc => rcases hc with rfl | rfl <;> exact hsame hr rfl id
  | sendRefused hnot => exact hsame hr rfl hnot
  | sendBlocks hb hslept hu hready =>
    obtain ⟨⟩ := hslept
    exact hblocks hready rfl rfl hb
  | send hnot => exact hsame hr rfl hnot
  | receiveRefused hnot => exact hsame hr rfl hnot
  | receiveBlocks hb hq hslept hu hready =>
    obtain ⟨⟩ := hslept
    exact hblocks hready rfl rfl hb
  | receive hnot => exact hsame hr rfl hnot
  | createQueue => exact hsame hr rfl id
  | unlinkRefused => exact hsame hr rfl id
  | unlink => exact hsame hr rfl id
  | shutdown => exact hsame hr rfl id

/-- A call leaves the processor with an unmarked process exactly if it breaks the guard. -/
theorem Called.marked (h : Inv s) (hs : s.Marked) (hr : s.running = some r)
    (hcalled : s.Called r num args t) : t.Marked ↔ s.KeepsStatus (.call num args) := by
  have h' := h.enterTrap hr num args
  have hkeeps : s.KeepsStatus (.call num args) ↔ ∀ c, syscallVector num.toNat = some c →
      s.readyList ≠ [] → ¬ (s.enterTrap r num args).HandsOver r c := by
    constructor
    · exact fun hk c hc => hk r c hr hc
    · intro hk q c hq hc
      cases Option.some.inj (hr.symm.trans hq)
      exact hk c hc
  rw [hkeeps]
  cases hcalled with
  | refused hnum =>
    refine iff_of_true hs ?_
    intro c hc
    rw [syscallVector_of_range hnum] at hc
    cases hc
  | missing hnum hc hsw =>
    rw [hsw.marked]
    refine iff_of_true hs ?_
    intro c hc'
    cases hc.symm.trans hc'
  | @handled c v t hnum hc hok hsw =>
    have hc' := syscallVector_enterTrap (r := r) s args hc
    have hone : (∀ d, syscallVector num.toNat = some d → s.readyList ≠ [] →
        ¬ (s.enterTrap r num args).HandsOver r d) ↔
          (s.readyList ≠ [] → ¬ (s.enterTrap r num args).HandsOver r c) := by
      constructor
      · exact fun hk => hk c hc
      · intro hk d hd
        cases hc.symm.trans hd
        exact hk
    rw [hsw.marked,hone]
    by_cases hpreempt : c = .preempt
    · subst hpreempt
      exact iff_of_true (internalSchedule_marked h' hs hr hok) (fun _ => id)
    · exact (handler_effect h' hr hc' hok).marked h' hs hr hpreempt

/-- The running process stays marked in a step exactly if the step keeps to the guard. -/
theorem step_marked (h : Inv s) (hs : s.Marked) (hstep : s.step a = .ok t) :
    t.Marked ↔ s.KeepsStatus a := by
  cases a with
  | tick =>
    obtain ⟨r,v,hr,hok,hsw⟩ := step_ticked hstep
    rw [hsw.marked]
    exact iff_of_true (internalSchedule_marked (h.ticked r) hs hr hok) trivial
  | call num args =>
    obtain ⟨r,hr,_,_,hcalled⟩ := step_called hstep
    exact hcalled.marked h hs hr
  | ret =>
    cases step_moves h hstep
    exact iff_of_true hs trivial
  | store address c =>
    cases step_moves h hstep
    exact iff_of_true hs trivial
  | resumeMain =>
    cases step_moves h hstep with
    | resumeMain hr hdown hb hsw =>
      rw [hsw.marked]
      exact iff_of_true (marked_of_status rfl (Function.update_self _ _ _)) trivial

theorem disastrOSStart_marked {function args : ℤ} {logFile : Bool} {chars : ℤ → UInt8}
    {ints : ℤ → ℤ} (hok : disastrOSStart function args logFile chars ints = .ok s) :
    s.Marked := by
  obtain ⟨p,pool,hb,hsw⟩ := startFirstProcess_ok hok
  rw [hsw.marked]
  exact marked_of_status rfl (Function.update_self _ _ _)

end Kernel

/-- Along every run in which no call blocks while another process is ready the statuses
agree with the scheduling, and the first call that does so ends that. -/
theorem status_agrees {s : Kernel} (hs : ReachableUnder Kernel.KeepsStatus s) :
    s.StatusAgrees ∧ ∀ a t, s.step a = .ok t → (t.StatusAgrees ↔ s.KeepsStatus a) := by
  apply ReachableUnder.holds_iff (I := Kernel.Marked) _ _ _ hs
  · intro s hs
    exact Kernel.statusAgrees_iff hs.inv
  · intro function args logFile chars ints s hok
    exact Kernel.disastrOSStart_marked hok
  · intro s a t h hmarked hst
    exact Kernel.step_marked h hmarked hst

/-- Init has slept alone, another init has come, and a tick has woken the first one. -/
theorem status_agrees_run : ∃ s : Kernel, (s.running = some 0 ∧ s.readyList = [1] ∧
    s.disastrOSTime = 1) ∧ s.StatusAgrees ∧
      ∀ a t, s.step a = .ok t → (t.StatusAgrees ↔ s.KeepsStatus a) := by
  have hguard : ∀ (s : Kernel) (a : Action), (match a with
      | .call _ _ => decide (s.readyList = [])
      | _ => true) = true → s.KeepsStatus a := by
    intro s a hready
    cases a with
    | call num args =>
      intro r c _ _ hne
      exact absurd (of_decide_eq_true hready) hne
    | _ => trivial
  obtain ⟨s,hs,hcheck⟩ := exists_reachable Kernel.KeepsStatus _ false (fun _ => 0)
    [.call 6 [1],.resumeMain,.tick]
    (fun s => s.running = some 0 && s.readyList = [1] && s.disastrOSTime = 1) (by decide) hguard
  refine ⟨s,?_,status_agrees hs⟩
  simpa [and_assoc] using hcheck

/-- The parent sleeps, and its child runs with the status of a ready process. -/
theorem sleep_marks_nobody : ¬ ∀ s : Kernel, Reachable s → s.StatusAgrees := by
  intro hclaim
  obtain ⟨s,hs,hcheck⟩ := exists_run Transitions.unguarded [.call 5 [1,0],.ret,.call 6 [9]]
    (fun s => s.running = some 1 && s.status 1 = .ready) (by decide)
  simp only [Bool.and_eq_true,decide_eq_true_eq] at hcheck
  cases hcheck.2.symm.trans (hclaim s hs 1 hcheck.1).1

end DisastrOS
