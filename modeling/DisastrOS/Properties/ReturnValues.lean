import DisastrOS.Behaviour.History

/-! # Who writes whose return value

A send or a receive that blocks stores its code after it has handed over the
processor, and so into the return value of another process. No other handler
touches the return value of a process that did not call it, except that an exit
reports to the parent it wakes.
-/
namespace DisastrOS

namespace Kernel

/-- The result that a process holds when it goes to sleep on a queue. -/
def heldResult (s : Kernel) (r : ℕ) (c : Syscall) : ℤ :=
  if c = .mqReceive ∧ s.BufferTooShort r then dsosEMessagesize else s.syscallRetvalue r

/-- The code that a call returns if it blocks on a queue. -/
def callBlocks (s : Kernel) (r : ℕ) (num : ℤ) (args : List ℤ) : Option ℤ :=
  (syscallVector num.toNat).bind ((s.enterTrap r num args).blockCode r)

variable {s t : Kernel} {r q : ℕ} {c : Syscall} {code : ℤ}

/-- What a handler does that blocks on a queue. -/
structure Blocked (s : Kernel) (r : ℕ) (c : Syscall) (code : ℤ) (next : ℕ) (t : Kernel) : Prop where
  ne : next ≠ r
  running : t.running = some next
  misdirected : t.syscallRetvalue next = code
  held : t.syscallRetvalue r = s.heldResult r c
  others : ∀ q, q ≠ r → q ≠ next → t.syscallRetvalue q = s.syscallRetvalue q
  history : t.history = .slept r :: s.history
  cpuState : t.cpuState = s.cpuState
  syscallNum : t.syscallNum = s.syscallNum

theorem Effect.blocked (h : Inv s) (hr : s.running = some r) (he : Effect s r c t)
    (hb : s.blockCode r c = some code) :
    ∃ next rest, s.readyList = next :: rest ∧ Blocked s r c code next t := by
  have hne : ∀ next rest, s.readyList = next :: rest → next ≠ r := by
    rintro next rest hready rfl
    refine h.placement.runningNotReady next hr ?_
    rw [hready]
    exact List.mem_cons_self
  cases he with
  | @sendBlocks u next rest hblocks hslept hu hready =>
    have hrn := hne next rest hready
    simp only [blockCode,if_pos hblocks,Option.some.injEq] at hb
    subst hb
    obtain ⟨⟩ := hslept
    refine ⟨next,rest,hready,hrn,rfl,Function.update_self _ _ _,?_,?_,rfl,rfl,rfl⟩
    · simp [setRetvalue,record,dispatched,heldResult,hrn.symm]
    · intro q _ hq
      exact Function.update_of_ne hq _ _
  | @receiveBlocks u q' next rest hblocks hq' hslept hu hready =>
    have hrn := hne next rest hready
    simp only [blockCode,if_pos hblocks,Option.some.injEq] at hb
    subst hb
    have hshort : s.BufferTooShort r ↔ s.syscallArgs r 2 < s.msgSize q' := by
      rw [Option.mem_def] at hq'
      simp [BufferTooShort,hq']
    obtain ⟨⟩ := hslept
    refine ⟨next,rest,hready,hrn,rfl,Function.update_self _ _ _,?_,?_,rfl,rfl,rfl⟩
    · simp only [setRetvalue,record,dispatched,heldResult,sizeChecked,hshort,true_and,
        Function.update_of_ne hrn.symm]
      split <;> simp
    · intro q hqr hq
      simp only [setRetvalue,record,dispatched,sizeChecked,Function.update_of_ne hq]
      split
      · exact Function.update_of_ne hqr _ _
      · rfl
  | sendRefused hblocks => simp [blockCode,hblocks] at hb
  | send hblocks => simp [blockCode,hblocks] at hb
  | receiveRefused hblocks => simp [blockCode,hblocks] at hb
  | receive hblocks => simp [blockCode,hblocks] at hb
  | resource hc => rcases hc with rfl | rfl | rfl <;> cases hb
  | queue hc => rcases hc with rfl | rfl <;> cases hb
  | _ => cases hb

/-- A handler that does not block writes the return value of another process only
when an exit wakes the parent. -/
theorem Effect.retvalue (h : Inv s) (he : Effect s r c t) (hb : s.blockCode r c = none)
    (hq : q ≠ r) : t.syscallRetvalue q = s.syscallRetvalue q ∨
      (c = .exit ∧ s.parent r = some q ∧ s.wakesParent r q ∧ t.syscallRetvalue q = s.pid r ∧
        q ∉ t.waitingList) := by
  cases he with
  | preempt hs =>
    cases hs with
    | stay hw => obtain ⟨⟩ := hw; exact Or.inl rfl
    | rotate hw => obtain ⟨⟩ := hw; exact Or.inl rfl
  | @collect i p x L M _ _ hp hwakes =>
    by_cases hqp : q = p
    · subst hqp
      refine Or.inr ⟨rfl,hp,hwakes,Function.update_self _ _ _,?_⟩
      exact fun hw => (h.placement.waitingNodup.mem_erase_iff.mp hw).1 rfl
    · exact Or.inl (Function.update_of_ne hqp _ _)
  | sleep hslept => obtain ⟨⟩ := hslept; exact Or.inl rfl
  | sleepNext hslept => obtain ⟨⟩ := hslept; exact Or.inl rfl
  | sendBlocks hblocks => simp [blockCode,hblocks] at hb
  | receiveBlocks hblocks => simp [blockCode,hblocks] at hb
  | block => exact Or.inl rfl
  | replace => exact Or.inl rfl
  | shutdown => exact Or.inl rfl
  | _ => exact Or.inl (Function.update_of_ne hq _ _)

/-- The code of a blocking call goes into a return value that holds something else. -/
def Misdirects (s : Kernel) (r : ℕ) (num : ℤ) (args : List ℤ) : Prop :=
  ∃ code ∈ s.callBlocks r num args, ∃ next ∈ s.readyList.head?, s.syscallRetvalue next ≠ code

/-- The call of `r` that leads from `s` to `t` writes no return value but its own,
and that of a parent which it wakes out of its wait. -/
def Isolated (s t : Kernel) (r : ℕ) (num : ℤ) : Prop :=
  ∀ q, q ≠ r → t.syscallRetvalue q = s.syscallRetvalue q ∨
    (num = dsosCallExit ∧ s.parent r = some q ∧ s.syscallNum q = dsosCallWait ∧
      q ∈ s.waitingList ∧ q ∉ t.waitingList ∧ t.syscallRetvalue q = s.pid r)

theorem isolated_iff (h : Inv s) (hr : s.running = some r) {num : ℤ} {args : List ℤ}
    (hm : Moves s (.call num args) t) : Isolated s t r num ↔ ¬ s.Misdirects r num args := by
  cases hm with
  | refused _ _ hnum =>
    refine iff_of_true (fun q _ => Or.inl rfl) ?_
    simp [Misdirects,callBlocks,syscallVector_of_range hnum]
  | missing hr' _ _ _ hc hsw =>
    cases hr.symm.trans hr'
    refine iff_of_true ?_ (by simp [Misdirects,callBlocks,hc])
    intro q hq
    cases hsw <;> exact Or.inl (Function.update_of_ne hq _ _)
  | @handled r' num args c v t hr' _ _ hnum hc he hsw =>
    cases hr.symm.trans hr'
    have h' := h.enterTrap hr num args
    have hret : t.syscallRetvalue = v.syscallRetvalue := by cases hsw <;> rfl
    have hwait : t.waitingList = v.waitingList := by cases hsw <;> rfl
    have hcode : s.callBlocks r num args = (s.enterTrap r num args).blockCode r c := by
      simp [callBlocks,hc]
    unfold Isolated Misdirects
    rw [hret,hwait,hcode]
    cases hb : (s.enterTrap r num args).blockCode r c with
    | none =>
      refine iff_of_true ?_ (by simp)
      intro q hq
      rcases he.retvalue h' hb hq with hsame | ⟨rfl,hp,hwakes,hval,hnot⟩
      · exact Or.inl hsame
      · obtain ⟨hw,hsys,_⟩ := mem_waiting_of_wakesParent h' hwakes
        have hsys' : s.syscallNum q = dsosCallWait := by
          rw [← hsys]
          exact (Function.update_of_ne hq num s.syscallNum).symm
        exact Or.inr ⟨syscallVector_eq_some hc,hp,hsys',hw,hnot,hval⟩
    | some code =>
      obtain ⟨next,rest,hready,hblk⟩ := he.blocked h' hr hb
      have hready' : s.readyList = next :: rest := hready
      simp only [hready',List.head?_cons,Option.mem_some_iff,exists_eq_left']
      constructor
      · intro hiso hne
        rcases hiso next hblk.ne with hsame | ⟨hexit,_⟩
        · exact hne (hsame.symm.trans hblk.misdirected)
        · rw [hexit] at hc
          cases hc
          cases hb
      · intro hsame q hq
        refine Or.inl ?_
        by_cases hqn : q = next
        · subst hqn
          rw [hblk.misdirected]
          exact (not_not.mp hsame).symm
        · exact hblk.others q hq hqn

end Kernel

/-- A call leaves the return values of the other processes alone if and only if it
does not block on a queue while the process that runs next holds another result. -/
theorem isolated_iff_not_misdirects {s t : Kernel} {r : ℕ} {num : ℤ} {args : List ℤ}
    (hs : Reachable s) (hr : s.running = some r) (hstep : s.step (.call num args) = .ok t) :
    Kernel.Isolated s t r num ↔ ¬ s.Misdirects r num args :=
  Kernel.isolated_iff hs.inv hr (Kernel.step_moves hs.inv hstep)

/-- The first process fills its queue while its child has not yet read the descriptor
that its own open returned. -/
def fillQueue : List Action :=
  [.call 5 [1,0],.ret,.call 10 [0,0,20,1,1],.ret,.call 13 [0,100,1],.ret,.tick,
    .call 10 [0,0,20,1,0],.tick]

/-- A send that is too long leaves the result of the other process alone. -/
theorem isolated_iff_not_misdirects_run : ∃ s t : Kernel, s.running = some 0 ∧
    s.readyList = [1] ∧ (Kernel.Isolated s t 0 13 ↔ ¬ s.Misdirects 0 13 [0,100,21]) := by
  obtain ⟨s,hs,hcheck⟩ := exists_run Transitions.unguarded fillQueue
    (fun s => s.running = some 0 && s.readyList = [1] &&
      s.after (.call 13 [0,100,21]) (fun _ => true)) (by decide)
  simp only [Bool.and_eq_true,decide_eq_true_eq] at hcheck
  obtain ⟨⟨hr,hready⟩,hafter⟩ := hcheck
  obtain ⟨t,hstep,_⟩ := Kernel.after_eq_true hafter
  exact ⟨s,t,hr,hready,isolated_iff_not_misdirects hs hr hstep⟩

/-- The descriptor zero, about to be read, is overwritten with the code of the first
process, which blocks on the full queue. -/
theorem send_overwrites_retvalue : ¬ ∀ (s t : Kernel) (r : ℕ) (num : ℤ) (args : List ℤ),
    Reachable s → s.running = some r → s.step (.call num args) = .ok t →
      Kernel.Isolated s t r num := by
  intro hclaim
  obtain ⟨s,hs,hcheck⟩ := exists_run Transitions.unguarded fillQueue
    (fun s => s.running = some 0 && s.syscallRetvalue 1 = 0 &&
      s.after (.call 13 [0,100,1]) (fun t => t.syscallRetvalue 1 = dsosEMessagequeueFull)) (by decide)
  simp only [Bool.and_eq_true,decide_eq_true_eq] at hcheck
  obtain ⟨⟨hr,hzero⟩,hafter⟩ := hcheck
  obtain ⟨t,hstep,hfull⟩ := Kernel.after_eq_true hafter
  rw [decide_eq_true_eq] at hfull
  rcases hclaim s t 0 13 [0,100,1] hs hr hstep 1 (by decide) with hsame | ⟨hexit,_⟩
  · rw [hfull,hzero] at hsame
    exact absurd hsame (by decide)
  · exact absurd hexit (by decide)

end DisastrOS
