import DisastrOS.Behaviour.Steps

/-! # Where a process is, and its timer

Both follow from the invariant: a process is in one place, which its status names,
and the timers belong to the processes that sleep.
-/
namespace DisastrOS

namespace Kernel

/-- The running process and the processes on the three lists, with repetitions. -/
def places (s : Kernel) : List ℕ :=
  s.running.toList ++ s.readyList ++ s.waitingList ++ s.zombieList

variable {s : Kernel} {p : ℕ}

theorem Inv.count_places (h : Inv s) (p : ℕ) :
    s.places.count p = if s.pcbAllocator.Allocated p then 1 else 0 := by
  have hp := h.placement
  have hmem : p ∈ s.places ↔ s.pcbAllocator.Allocated p := by
    rw [hp.covered p]
    simp only [places,List.mem_append,Option.mem_toList,or_assoc]
  have hnodup : s.places.Nodup := by
    have hrun : s.running.toList.Nodup := by
      cases s.running <;> simp
    refine List.nodup_append.mpr ⟨List.nodup_append.mpr ⟨List.nodup_append.mpr
      ⟨hrun,hp.readyNodup,?_⟩,hp.waitingNodup,?_⟩,hp.zombieNodup,?_⟩
    · rintro a ha b hb rfl
      exact hp.runningNotReady a (Option.mem_toList.mp ha) hb
    · rintro a ha b hb rfl
      rcases List.mem_append.mp ha with ha | ha
      · rw [Option.mem_toList.mp ha] at hp
        exact hp.running_not_waiting hb
      · exact hp.ready_not_waiting ha hb
    · rintro a ha b hb rfl
      rcases List.mem_append.mp ha with ha | ha
      · rcases List.mem_append.mp ha with ha | ha
        · rw [Option.mem_toList.mp ha] at hp
          exact hp.running_not_zombie hb
        · exact hp.ready_not_zombie ha hb
      · exact hp.waiting_not_zombie ha hb
  rw [hnodup.count]
  simp only [hmem]

end Kernel

/-- In every reachable state an allocated process is in exactly one place and occurs
there once, a freed one is nowhere, and the status of an allocated process is waiting
or zombie exactly when it is on the list of that name. -/
theorem allocated_in_one_place {s : Kernel} (hs : Reachable s) :
    (∀ p, s.places.count p = if s.pcbAllocator.Allocated p then 1 else 0) ∧
    ∀ p, s.pcbAllocator.Allocated p →
      (p ∈ s.waitingList ↔ s.status p = .waiting) ∧ (p ∈ s.zombieList ↔ s.status p = .zombie) := by
  have h := hs.inv
  refine ⟨h.count_places,?_⟩
  intro p hp
  exact ⟨h.placement.waitingStatus p,h.placement.mem_zombie_iff hp⟩

/-- The first process sleeps, its second child has exited, the first child runs. -/
theorem allocated_in_one_place_run : ∃ s : Kernel, (s.running = some 1 ∧ s.waitingList = [0] ∧
    s.zombieList = [2]) ∧ (∀ p, s.places.count p = if s.pcbAllocator.Allocated p then 1 else 0) ∧
    ∀ p, s.pcbAllocator.Allocated p →
      (p ∈ s.waitingList ↔ s.status p = .waiting) ∧ (p ∈ s.zombieList ↔ s.status p = .zombie) := by
  obtain ⟨s,hs,hcheck⟩ := exists_run Transitions.unguarded
    [.call 5 [1,0],.ret,.call 5 [1,0],.ret,.call 6 [9],.tick,.call 4 [7]]
      (fun s => s.running = some 1 && s.waitingList = [0] && s.zombieList = [2])
    (by decide)
  refine ⟨s,?_,allocated_in_one_place hs⟩
  simpa [and_assoc] using hcheck

/-- The timers are those of the waiting processes that are not blocked in a wait, one
for each. A wake-up therefore finds its process, and a process that goes to sleep
finds a free timer. -/
theorem timers_are_sleepers {s : Kernel} (hs : Reachable s) :
    (∀ t ∈ s.timerList, s.timerPcb t ∈ s.waitingList) ∧
    (s.timerList.Nodup ∧
      ∀ t ∈ s.timerList, ∀ u ∈ s.timerList, s.timerPcb t = s.timerPcb u → t = u) ∧
    (∀ p ∈ s.waitingList, s.syscallNum p = dsosCallWait ∨ SleepsOnTimer (s.syscallNum p)) ∧
    (∀ p ∈ s.waitingList, SleepsOnTimer (s.syscallNum p) →
      ∃! t, t ∈ s.timerList ∧ s.timerPcb t = p) ∧
    (∀ p ∈ s.waitingList, s.syscallNum p = dsosCallWait → ∀ t ∈ s.timerList, s.timerPcb t ≠ p) ∧
    (∀ r, s.running = some r →
      ∃ u, Kernel.wakeElapsed (s.ticked r).timerList.length none (s.ticked r) = .ok u) ∧
    ∀ r num args, s.running = some r →
      (∃ u, Kernel.wakeElapsed (s.enterTrap r num args).timerList.length none
        (s.enterTrap r num args) = .ok u) ∧
      ∀ awakeningTime, ((s.enterTrap r num args).timerListAdd awakeningTime r).isSome := by
  have h := hs.inv
  have ht := h.timers
  have hwake : ∀ {u : Kernel}, u.Inv →
      ∃ v, Kernel.wakeElapsed u.timerList.length none u = .ok v := by
    intro u hu
    obtain ⟨v,hv,_⟩ := Kernel.wakeElapsed_spec none hu (Nat.le_refl _)
      (fun p hp => nomatch hp)
    exact ⟨v,hv⟩
  refine ⟨fun t htl => (ht.waits t htl).1,⟨ht.nodup,ht.injective⟩,?_,?_,?_,?_,?_⟩
  · intro p hp
    rcases ht.covered p hp with hw | ⟨t,htl,rfl⟩
    · exact Or.inl hw
    · exact Or.inr (ht.waits t htl).2
  · intro p hp hsleeps
    rcases ht.covered p hp with hw | ⟨t,htl,htp⟩
    · rw [hw] at hsleeps
      exact absurd hsleeps not_sleepsOnTimer_wait
    · refine ⟨t,⟨htl,htp⟩,?_⟩
      rintro u ⟨hul,hup⟩
      exact ht.injective u hul t htl (hup.trans htp.symm)
  · rintro p hp hw t htl rfl
    have hsleeps := (ht.waits t htl).2
    rw [hw] at hsleeps
    exact not_sleepsOnTimer_wait hsleeps
  · exact fun r _ => hwake (h.ticked r)
  · intro r num args hr
    refine ⟨hwake (h.enterTrap hr num args),fun awakeningTime => ?_⟩
    obtain ⟨u,hu⟩ := (h.enterTrap hr num args).timerListAdd hr awakeningTime
    rw [hu]
    rfl

/-- One process sleeps on a timer, one is blocked on an empty queue, one in a wait. -/
theorem timers_are_sleepers_run : ∃ s : Kernel, (s.waitingList = [1,2,0] ∧ s.timerList = [0,1] ∧
    s.running = some 3) ∧
    (∀ t ∈ s.timerList, s.timerPcb t ∈ s.waitingList) ∧
    (∀ p ∈ s.waitingList, SleepsOnTimer (s.syscallNum p) →
      ∃! t, t ∈ s.timerList ∧ s.timerPcb t = p) ∧
    ∀ num args awakeningTime,
      ((s.enterTrap 3 num args).timerListAdd awakeningTime 3).isSome := by
  obtain ⟨s,hs,hcheck⟩ := exists_run Transitions.unguarded
    [.call 5 [1,0],.ret,.call 5 [1,0],.ret,.call 5 [1,0],.ret,.tick,.call 6 [9],
      .call 10 [0,0,20,1,1],.ret,.call 14 [0,100,20],.tick,.call 3 [0,0]]
    (fun s => s.waitingList = [1,2,0] && s.timerList = [0,1] && s.running = some 3)
    (by decide)
  have hall : s.waitingList = [1,2,0] ∧ s.timerList = [0,1] ∧ s.running = some 3 := by
    simpa [and_assoc] using hcheck
  obtain ⟨h1,_,_,h4,_,_,h7⟩ := timers_are_sleepers hs
  exact ⟨s,hall,h1,h4,fun num args => (h7 3 num args hall.2.2).2⟩

end DisastrOS
