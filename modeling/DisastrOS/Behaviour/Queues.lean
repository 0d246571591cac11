import DisastrOS.Foundation.RoundRobin
import DisastrOS.Behaviour.Timers

/-! # The processor as it is handed round

Who runs, who is ready and who waits are the queues of a round robin. Every step of the kernel
is one of its moves: a tick, a preemption and an exit are turns, a call that waits is a block,
and whatever else happens leaves the processor where it is.
-/
namespace DisastrOS

/-- The actions that end the turn of the running process. -/
def Action.isTurn : Action → Bool
  | .tick => true
  | .call num _ => num = Syscall.preempt.number || num = dsosCallExit
  | _ => false

namespace Kernel
open RoundRobin

def queues (s : Kernel) : Queues ℕ := ⟨s.running,s.readyList,s.waitingList⟩

/-- What a step does to the queues can be told from the action and the waiting list. -/
def moveKind (e : Kernel × Action × Kernel) : Kind :=
  if e.2.1.isTurn then .turn
  else if e.2.2.waitingList = e.1.waitingList then .stay
  else .block

variable {s t u v : Kernel} {r p next : ℕ} {c : Syscall} {a : Action} {rest : List ℕ}

theorem Inv.separate (h : Inv s) : s.queues.Separate := by
  have hp := h.placement
  refine separate_iff.mpr ⟨hp.readyNodup,hp.waitingNodup,fun p => hp.ready_not_waiting,?_⟩
  exact fun p hr => ⟨hp.runningNotReady p hr,h.not_waiting_running hr⟩

/-- Who is in the queues is allocated. -/
theorem Inv.allocated_member (h : Inv s) (hp : p ∈ s.queues.members) :
    s.pcbAllocator.Allocated p := by
  refine (h.placement.covered p).mpr ?_
  rcases List.mem_append.mp hp with hrun | hlists
  · exact Or.inl (Option.mem_toList.mp hrun)
  · rcases List.mem_append.mp hlists with hready | hwaiting
    · exact Or.inr (Or.inl hready)
    · exact Or.inr (Or.inr (Or.inl hwaiting))

/-- A block that is taken from the pool is not in the queues. -/
theorem Inv.not_member (h : Inv s) {pool : Pool maxNumProcesses}
    (hb : s.pcbAllocator.getBlock = some (p,pool)) : p ∉ s.queues.members :=
  fun hp => (Pool.getBlock_eq_some hb).1 (h.allocated_member hp)

/-- A handler leaves the processor with its caller, or the caller waits. -/
inductive Stays (s v : Kernel) (r : ℕ) : Prop
  | stay (hw : v.waitingList = s.waitingList) (hm : Move s.queues .stay v.queues)
  | block (hw : v.waitingList = s.waitingList ++ [r]) (hm : Move s.queues .block v.queues)

theorem stays_same (hq : v.queues = s.queues) : Stays s v r := by
  refine .stay (congrArg Queues.waiting hq) ?_
  rw [hq]
  exact .stay _

theorem stays_enter (h : Inv s) (hr : s.running = some r) {pool : Pool maxNumProcesses}
    (hb : s.pcbAllocator.getBlock = some (p,pool))
    (hq : v.queues = ⟨s.running,s.readyList ++ [p],s.waitingList⟩) : Stays s v r := by
  refine .stay (congrArg Queues.waiting hq) ?_
  have hp := h.not_member hb
  rw [hq]
  rw [queues,hr] at hp ⊢
  exact .enter hp

theorem stays_block (hr : s.running = some r) (hready : s.readyList = next :: rest)
    (hq : v.queues = ⟨some next,rest,s.waitingList ++ [r]⟩) : Stays s v r := by
  refine .block (congrArg Queues.waiting hq) ?_
  rw [hq,queues,hr,hready]
  exact .block

theorem stays_idle (hr : s.running = some r) (hready : s.readyList = [])
    (hq : v.queues = ⟨none,s.readyList,s.waitingList ++ [r]⟩) : Stays s v r := by
  refine .block (congrArg Queues.waiting hq) ?_
  rw [hq,queues,hr,hready]
  exact .idle

/-- The queues of a process that sleeps. -/
theorem Slept.queues (hslept : Slept s r u) :
    u.queues = ⟨none,s.readyList,s.waitingList ++ [r]⟩ := by
  obtain ⟨⟩ := hslept
  rfl

theorem Slept.queues_dispatched (hslept : Slept s r u) :
    (u.dispatched next rest).queues = ⟨some next,rest,s.waitingList ++ [r]⟩ := by
  obtain ⟨⟩ := hslept
  rfl

/-- The handlers of the calls that are not turns. -/
theorem Effect.stays (h : Inv s) (hr : s.running = some r) (he : Effect s r c v)
    (hpreempt : c ≠ .preempt) (hexit : c ≠ .exit) : Stays s v r := by
  cases he with
  | preempt => exact absurd rfl hpreempt
  | fork hb hx => exact stays_enter h hr hb rfl
  | spawn hb hx => exact stays_enter h hr hb rfl
  | noChild => exact stays_same rfl
  | reap => exact stays_same rfl
  | block hx hz hready => exact stays_block hr hready rfl
  | collect => exact absurd rfl hexit
  | replace => exact absurd rfl hexit
  | sleep hslept hu hready => exact stays_idle hr hready hslept.queues
  | sleepNext hslept hu hready => exact stays_block hr hready hslept.queues_dispatched
  | resource => exact stays_same rfl
  | queue => exact stays_same rfl
  | createQueue => exact stays_same rfl
  | unlinkRefused => exact stays_same rfl
  | unlink => exact stays_same rfl
  | sendRefused => exact stays_same rfl
  | sendBlocks hblocks hslept hu hready =>
    exact stays_block hr hready hslept.queues_dispatched
  | send => exact stays_same rfl
  | receiveRefused => exact stays_same rfl
  | receiveBlocks hblocks hq hslept hu hready =>
    exact stays_block hr hready hslept.queues_dispatched
  | receive => exact stays_same rfl
  | shutdown => exact stays_same rfl

/-- An exit gives the processor to the first ready process, or to the waiting parent. -/
theorem Effect.move_exit (h : Inv s) (hr : s.running = some r) (he : Effect s r .exit v) :
    Move s.queues .turn v.queues := by
  cases he with
  | @collect i p x L M hi hir hp hwakes =>
    have hw : p ∈ s.waitingList := (mem_waiting_of_wakesParent h hwakes).1
    rw [queues,hr]
    exact .handOver hw
  | replace hi hir hp hwakes hready =>
    rw [queues,hr,hready]
    exact .leave
  | resource hc => rcases hc with hc | hc | hc <;> cases hc
  | queue hc => rcases hc with hc | hc <;> cases hc

/-- The processes that the scheduler wakes leave the waiting list. -/
theorem Inv.woken_perm (h : Inv s) : s.waitingList.Perm (s.woken ++ s.woke.waitingList) := by
  have hnodup : s.woken.Nodup := by
    refine List.Nodup.map_on ?_ (h.timers.nodup.sublist (List.takeWhile_sublist _))
    intro i hi j hj hij
    exact h.timers.injective i ((List.takeWhile_sublist _).subset hi) j
      ((List.takeWhile_sublist _).subset hj) hij
  have hw : s.woke.waitingList = s.waitingList.diff s.woken := (List.diff_eq_foldl _ _).symm
  rw [hw]
  refine (List.subperm_append_diff_self_of_count_le fun p hp => ?_).symm
  rw [List.count_eq_one_of_mem hnodup hp]
  obtain ⟨i,hi,rfl⟩ := List.mem_map.mp hp
  exact List.count_pos_iff.mpr (h.timers.waits i ((List.takeWhile_sublist _).subset hi)).1

theorem scheduled_move (h : Inv s) (hr : s.running = some r) :
    Move s.queues .turn (s.scheduled r).queues := by
  have hperm := h.woken_perm
  have hready := readyList_woke s
  unfold scheduled
  cases hcons : s.woke.readyList with
  | nil =>
    -- nobody wakes up, and nobody is ready
    obtain ⟨hwoken,hnil⟩ := List.append_eq_nil_iff.mp (hready.symm.trans hcons)
    have hw : s.woke.waitingList = s.waitingList := by
      change s.woken.foldl List.erase s.waitingList = s.waitingList
      rw [hwoken]
      rfl
    have hq : s.woke.queues = ⟨some r,[],s.waitingList⟩ := by
      rw [queues,hw,hcons]
      exact congrArg (fun o => (⟨o,[],s.waitingList⟩ : Queues ℕ)) hr
    rw [hq,queues,hr,hnil]
    exact .alone
  | cons next rest =>
    rw [queues,hr]
    exact .rotate hperm (hready.symm.trans hcons)

theorem Switched.queues (hsw : Switched v t) : t.queues = v.queues := by
  cases hsw <;> rfl

theorem moveKind_turn (ha : a.isTurn = true) : moveKind (s,a,t) = .turn := if_pos ha

theorem Stays.move (hs : Stays s t r) (ha : a.isTurn = false) :
    Move s.queues (moveKind (s,a,t)) t.queues := by
  have hnot : ¬ a.isTurn = true := by simp [ha]
  unfold moveKind
  rw [if_neg hnot]
  cases hs with
  | stay hw hm =>
    rw [if_pos hw]
    exact hm
  | block hw hm =>
    have hne : ¬ t.waitingList = s.waitingList := by simp [hw]
    rw [if_neg hne]
    exact hm

theorem isTurn_iff {num : ℤ} {args : List ℤ} : (Action.call num args).isTurn = true ↔
    num = Syscall.preempt.number ∨ num = dsosCallExit := by
  simp [Action.isTurn]

/-- A number without a handler is not that of a turn. -/
theorem isTurn_of_none {num : ℤ} {args : List ℤ} (hc : syscallVector num.toNat = none) :
    (Action.call num args).isTurn = false := by
  rw [← Bool.not_eq_true,isTurn_iff]
  rintro (rfl | rfl)
  · cases hc
  · cases hc

theorem isTurn_of_handler {num : ℤ} (args : List ℤ) (hc : syscallVector num.toNat = some c) :
    (Action.call num args).isTurn = true ↔ c = .preempt ∨ c = .exit := by
  rw [isTurn_iff,syscallVector_eq_some hc]
  cases c <;> decide

theorem Called.move {num : ℤ} {args : List ℤ} (h : Inv s) (hr : s.running = some r)
    (hcalled : s.Called r num args t) :
    Move s.queues (moveKind (s,.call num args,t)) t.queues := by
  cases hcalled with
  | refused hnum => exact (stays_same (r := r) rfl).move (isTurn_of_none (syscallVector_of_range hnum))
  | missing hnum hc hsw => exact (stays_same (r := r) hsw.queues).move (isTurn_of_none hc)
  | @handled c v t hnum hc hok hsw =>
    have he := h.enterTrap hr num args
    have hturn := isTurn_of_handler args hc
    by_cases hpreempt : c = .preempt
    · subst hpreempt
      rw [moveKind_turn (hturn.mpr (Or.inl rfl)),hsw.queues]
      cases (internalSchedule_eq he hr).symm.trans hok
      have hm := scheduled_move he hr
      exact hm
    · have heffect := handler_effect he hr (syscallVector_enterTrap s args hc) hok
      by_cases hexit : c = .exit
      · subst hexit
        rw [moveKind_turn (hturn.mpr (Or.inr rfl)),hsw.queues]
        have hm := heffect.move_exit he hr
        exact hm
      · have hnot : (Action.call num args).isTurn = false := by
          rw [← Bool.not_eq_true,hturn,not_or]
          exact ⟨hpreempt,hexit⟩
        refine Stays.move (r := r) ?_ hnot
        cases heffect.stays he hr hpreempt hexit with
        | stay hw hm =>
          have hq := hsw.queues
          exact .stay ((congrArg Queues.waiting hq).trans hw) (hq ▸ hm)
        | block hw hm =>
          have hq := hsw.queues
          exact .block ((congrArg Queues.waiting hq).trans hw) (hq ▸ hm)

/-- Every step is a move of the round robin. -/
theorem step_move (h : Inv s) (hstep : s.step a = .ok t) :
    Move s.queues (moveKind (s,a,t)) t.queues := by
  cases a with
  | tick =>
    obtain ⟨r,v,hr,hok,hsw⟩ := step_ticked hstep
    rw [internalSchedule_eq (h.ticked r) hr] at hok
    cases hok
    rw [moveKind_turn rfl,hsw.queues]
    exact scheduled_move (h.ticked r) hr
  | call num args =>
    obtain ⟨r,hr,_,_,hcalled⟩ := step_called hstep
    exact hcalled.move h hr
  | ret =>
    cases step_moves h hstep
    exact (stays_same (r := 0) rfl).move rfl
  | store address c =>
    cases step_moves h hstep
    exact (stays_same (r := 0) rfl).move rfl
  | resumeMain =>
    cases step_moves h hstep with
    | @resumeMain p pool t hr hdown hb hsw =>
      have hp := h.not_member hb
      rw [queues,hr] at hp
      have hw : t.waitingList = s.waitingList := congrArg Queues.waiting hsw.queues
      refine Stays.move (r := 0) (.stay hw ?_) rfl
      rw [hsw.queues,queues,hr]
      exact .start hp

end Kernel

end DisastrOS
