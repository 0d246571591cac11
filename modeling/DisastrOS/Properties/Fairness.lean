import DisastrOS.Behaviour.Queues
import DisastrOS.Properties.Contexts

/-! # Nobody starves

A ready process sees only as many turns as others are in front of it or wait; then it runs. It
is overtaken by nobody behind it, and among processes that only run the turns are shared out
evenly. Nothing is assumed about what the processes do.
-/
namespace DisastrOS
open RoundRobin Transitions

namespace Kernel

/-- The steps of a run. -/
abbrev Steps := List (Kernel × Action × Kernel)

/-- The ticks, preemptions and exits among the steps. -/
def turnCount (es : Steps) : ℕ := es.countP (fun e => e.2.1.isTurn)

/-- Those that end a turn of `p`. -/
def turnCountOf (p : ℕ) (es : Steps) : ℕ :=
  es.countP (fun e => e.2.1.isTurn && e.1.running = some p)

/-- The steps behind which another process runs. -/
def switchCount (es : Steps) : ℕ := es.countP (fun e => e.2.2.running ≠ e.1.running)

/-- The running process and the ready ones, in the order of their turns. -/
def turnOrder (s : Kernel) : List ℕ := s.running.toList ++ s.readyList

variable {s t : Kernel} {a : Action} {c p q : ℕ} {es : Steps}

theorem moveKind_eq_turn {e : Kernel × Action × Kernel} :
    moveKind e = .turn ↔ e.2.1.isTurn = true := by
  unfold moveKind
  split
  · simp [*]
  · split <;> simp [*]

/-- The run of the round robin behind a run of the kernel. -/
def views (es : Steps) : List (Queues ℕ × Kind × Queues ℕ) :=
  es.map (fun e => (e.1.queues,moveKind e,e.2.2.queues))

theorem inv_step (s : Kernel) (a : Action) (t : Kernel) (h : Inv s) (hstep : s.step a = .ok t) :
    Inv t := (step_moves h hstep).inv h

theorem trace_views (h : Inv s) (htr : Trace system s es t) :
    Trace (machine ℕ) s.queues (views es) t.queues :=
  htr.map Kernel.queues moveKind (fun _ _ _ h hstep => inv_step _ _ _ h hstep)
    (fun _ _ _ h hstep => step_move h hstep) h

theorem countP_views (f : Queues ℕ × Kind × Queues ℕ → Bool) (es : Steps) :
    (views es).countP f = es.countP (fun e => f (e.1.queues,moveKind e,e.2.2.queues)) :=
  List.countP_map

theorem turns_views (es : Steps) : turns (views es) = turnCount es := by
  unfold turns turnCount
  rw [countP_views]
  exact List.countP_congr fun e _ => by simp [moveKind_eq_turn]

theorem turnsOf_views (p : ℕ) (es : Steps) : turnsOf p (views es) = turnCountOf p es := by
  unfold turnsOf turnCountOf
  rw [countP_views]
  refine List.countP_congr fun e _ => ?_
  simp only [moveKind_eq_turn,Bool.decide_and,Bool.decide_eq_true]
  rfl

theorem ready_of_views {P : Queues ℕ → Prop} (hall : ∀ e ∈ es, P e.2.2.queues) :
    ∀ e ∈ views es, P e.2.2 := by
  intro e he
  obtain ⟨d,hd,rfl⟩ := List.mem_map.mp he
  exact hall d hd

/-- The first step behind which a ready process is no longer ready lets it run. -/
theorem exists_first_run (h : Inv s) (hc : c ∈ s.readyList) (htr : Trace system s es t)
    (hout : ¬ ∀ e ∈ es, c ∈ e.2.2.readyList) : ∃ es₁ e es₂, es = es₁ ++ e :: es₂ ∧
      Trace system s es₁ e.1 ∧ (∀ d ∈ es₁, c ∈ d.2.2.readyList) ∧ e.2.2.running = some c := by
  obtain ⟨es₁,e,es₂,rfl,htr₁,hall,hready,hstep,hleft⟩ :=
    htr.exists_leave (Q := fun k => c ∈ k.readyList) hc hout
  have he : Inv e.1 := htr₁.preserves (fun s a t => inv_step s a t) h
  have hruns := (step_move he hstep).ready_or_runs hready
  exact ⟨es₁,e,es₂,rfl,htr₁,hall,hruns.resolve_left hleft⟩

theorem turnCount_le (h : Inv s) (hc : c ∈ s.readyList) (htr : Trace system s es t)
    (hall : ∀ e ∈ es, c ∈ e.2.2.readyList) :
    turnCount es ≤ s.readyList.idxOf c + s.waitingList.length := by
  have hle := turns_le (trace_views h htr) h.separate hc
    (ready_of_views (P := fun q => c ∈ q.ready) hall)
  have hturns : (views es).countP (fun e => e.2.1 = .turn) = turnCount es := turns_views es
  rw [hturns] at hle
  exact (Nat.le_add_left _ _).trans hle

theorem Inv.members_length_le (h : Inv s) : s.queues.members.length ≤ maxNumProcesses := by
  rw [← List.toFinset_card_of_nodup h.separate]
  refine (Finset.card_le_card ?_).trans s.pcbAllocator.card_used_le
  intro p hp
  exact Pool.mem_used.mpr (h.allocated_member (List.mem_toFinset.mp hp))

theorem patience_lt (h : Inv s) (hb : s.queues.Busy) (hc : c ∈ s.readyList) :
    s.readyList.idxOf c + s.waitingList.length + 2 ≤ maxNumProcesses := by
  have hlen := h.members_length_le
  have hidx := List.idxOf_lt_length_of_mem hc
  cases hr : s.running with
  | none =>
    rw [show s.readyList = [] from hb hr] at hc
    cases hc
  | some r =>
    simp only [queues,Queues.members,hr,Option.toList_some,List.length_append,List.length_singleton]
      at hlen
    omega

theorem switchCount_le (h : Inv s) (hb : s.queues.Busy) (hc : c ∈ s.readyList)
    (htr : Trace system s es t) (hall : ∀ e ∈ es, c ∈ e.2.2.readyList) :
    switchCount es ≤ s.queues.changes c := by
  have hle := htr.countP_le (J := fun s => Inv s ∧ s.queues.Busy) (Q := fun s => c ∈ s.readyList)
    (fun s => s.queues.changes c) (fun e => e.2.2.running ≠ e.1.running)
    (fun s a t hs hstep => ⟨inv_step s a t hs.1 hstep,(step_move hs.1 hstep).busy hs.2⟩) ?_ ⟨h,hb⟩
    hc hall
  · exact (Nat.le_add_left _ _).trans hle
  · intro s a t hs hc hc' hstep
    have hm := step_move hs.1 hstep
    have hchanges := hm.changes_le hs.1.separate hc hc'
    by_cases hstay : moveKind (s,a,t) = .stay
    · have hrun : t.running = s.running := (hstay ▸ hm).running_eq hs.2 hc
      simpa [hstay,hrun] using hchanges
    · have hone : (decide (moveKind (s,a,t) ≠ .stay)).toNat = 1 := by simp [hstay]
      rw [hone] at hchanges
      exact (Nat.add_le_add_left (Bool.toNat_le _) _).trans hchanges

theorem shutdownNow_scheduled (s : Kernel) (r : ℕ) :
    (s.scheduled r).shutdownNow = s.shutdownNow := by
  unfold scheduled
  split <;> rfl

theorem exists_tick {r : ℕ} (h : Inv s) (hs : s.kin.Prepared s.cpuState) (hr : s.running = some r)
    (hdown : s.shutdownNow = false) :
    ∃ t, s.step .tick = .ok t ∧ t.shutdownNow = false := by
  have hok := internalSchedule_eq (h.ticked r) hr
  have hready := ready_ticked h hs hr hok
  obtain ⟨next,hnext⟩ : ∃ next, ((s.ticked r).scheduled r).running = some next :=
    Option.ne_none_iff_exists'.mp
      ((internalSchedule_scheduled (h.ticked r) hr hok).running_ne_none (s := s.ticked r) hr)
  obtain ⟨point,hpoint⟩ := exists_context hready.1 hready.2 hnext
  refine ⟨{ (s.ticked r).scheduled r with cpu := point },?_,?_⟩
  · unfold step
    rw [if_neg (by simp [hdown])]
    simp only [timerInterrupt,hr,hok,ok_bind,hnext,setcontext,hpoint]
  · exact (shutdownNow_scheduled (s.ticked r) r).trans hdown

end Kernel

theorem Reachable.busy {s : Kernel} (hs : Reachable s) : s.queues.Busy := by
  refine hs.induction (P := fun s => s.queues.Busy) ?_ ?_
  · intro function args logFile chars ints s hok
    obtain ⟨p,pool,hb,hsw⟩ := Kernel.startFirstProcess_ok hok
    rw [hsw.queues]
    exact fun _ => rfl
  · exact fun s a t h hb hstep => (Kernel.step_move h hstep).busy hb

/-- Behind as many turns as others are in front of a ready process or wait, it runs: there are
fewer than the processes there can be. -/
theorem ready_process_runs {s t : Kernel} {c : ℕ} {es : Kernel.Steps} (hs : Reachable s)
    (hc : c ∈ s.readyList) (htr : Trace system s es t)
    (hmany : s.readyList.idxOf c + s.waitingList.length < Kernel.turnCount es) :
    s.readyList.idxOf c + s.waitingList.length + 2 ≤ maxNumProcesses ∧
    ∃ es₁ e es₂, es = es₁ ++ e :: es₂ ∧ e.2.2.running = some c ∧
      (∀ d ∈ es₁, c ∈ d.2.2.readyList) ∧
        Kernel.turnCount es₁ ≤ s.readyList.idxOf c + s.waitingList.length := by
  have h := hs.inv
  refine ⟨Kernel.patience_lt h hs.busy hc,?_⟩
  · have hout : ¬ ∀ e ∈ es, c ∈ e.2.2.readyList := by
      intro hall
      exact absurd (Kernel.turnCount_le h hc htr hall) (by omega)
    obtain ⟨es₁,e,es₂,rfl,htr₁,hall,hrun⟩ := Kernel.exists_first_run h hc htr hout
    exact ⟨es₁,e,es₂,rfl,hrun,hall,Kernel.turnCount_le h hc htr₁ hall⟩

/-- The second of two ready processes while another one sleeps. -/
theorem ready_process_runs_run : ∃ s : Kernel, ((s.running = some 1 ∧ s.readyList = [2,3]) ∧
    s.waitingList = [0]) ∧ ∀ es t, Trace system s es t → 2 < Kernel.turnCount es →
      ∃ es₁ e es₂, es = es₁ ++ e :: es₂ ∧ e.2.2.running = some 3 ∧
        (∀ d ∈ es₁, 3 ∈ d.2.2.readyList) ∧ Kernel.turnCount es₁ ≤ 2 := by
  obtain ⟨s,hs,hcheck⟩ := exists_run Transitions.unguarded
    [.call 5 [1,0],.ret,.call 5 [1,0],.ret,.call 5 [1,0],.ret,.call 6 [9]]
    (fun s => (s.running = some 1 && s.readyList = [2,3]) && s.waitingList = [0]) (by decide)
  simp only [Bool.and_eq_true,decide_eq_true_eq] at hcheck
  refine ⟨s,hcheck,fun es t htr hmany => ?_⟩
  have hplace : s.readyList.idxOf 3 + s.waitingList.length = 2 := by
    rw [hcheck.1.2,hcheck.2]
    rfl
  have hruns := ready_process_runs hs (c := 3) (by simp [hcheck.1.2]) htr (by omega)
  rw [hplace] at hruns
  exact hruns.2

/-- In a run without forks the ticks alone suffice: each of them succeeds, and at the latest the
one behind as many as there are others in front of a ready process or waiting lets it run. -/
theorem ticks_serve {s : Kernel} {c : ℕ} (hs : ReachableUnder Kernel.KeepsContexts s)
    (hdown : s.shutdownNow = false) (hc : c ∈ s.readyList) :
    ∃ n t, n ≤ s.readyList.idxOf c + s.waitingList.length + 1 ∧
      runUnder Kernel.step (fun _ _ => true) s (List.replicate n .tick) = some t ∧
        t.running = some c := by
  obtain ⟨m,hm⟩ : ∃ m, s.queues.patience c = m := ⟨_,rfl⟩
  induction m using Nat.strong_induction_on generalizing s with
  | _ m ih =>
    have h := hs.reachable.inv
    obtain ⟨r,hr⟩ : ∃ r, s.running = some r := by
      refine Option.ne_none_iff_exists'.mp fun hnone => ?_
      rw [show s.readyList = [] from hs.reachable.busy hnone] at hc
      cases hc
    obtain ⟨t,hstep,ht⟩ := Kernel.exists_tick h hs.prepared hr hdown
    have hmove := Kernel.step_move h hstep
    rcases hmove.ready_or_runs hc with hready | hrun
    · have hless := hmove.patience_eq h.separate hc hready
      have hkind : Kernel.moveKind (s,.tick,t) = .turn := Kernel.moveKind_turn rfl
      simp only [hkind,decide_true,Bool.toNat_true] at hless
      obtain ⟨n,u,hn,hrun,hu⟩ := ih (t.queues.patience c) (by omega) (s := t)
        (hs.step (show s.KeepsContexts .tick from trivial) hstep) ht hready rfl
      refine ⟨n + 1,u,?_,?_,hu⟩
      · exact (Nat.succ_le_succ hn).trans (Nat.succ_le_succ hless.le)
      · simp only [List.replicate_succ,runUnder,if_true,hstep,hrun]
    · refine ⟨1,t,by omega,?_,hrun⟩
      simp only [List.replicate_one,runUnder,if_true,hstep]

/-- Two ticks let the last of two ready processes run. -/
theorem ticks_serve_run : ∃ s : Kernel, (s.running = some 0 ∧ s.readyList = [1,2]) ∧
    ∃ n t, n ≤ 2 ∧ runUnder Kernel.step (fun _ _ => true) s (List.replicate n .tick) = some t ∧
      t.running = some 2 := by
  obtain ⟨s,hs,hcheck⟩ := exists_run Kernel.KeepsContexts
    [.call 5 [1,0],.ret,.call 5 [1,0],.ret]
    (fun s => ((s.running = some 0 && s.readyList = [1,2]) && s.waitingList = []) &&
      s.shutdownNow = false) (by decide)
  simp only [Bool.and_eq_true,decide_eq_true_eq] at hcheck
  obtain ⟨⟨⟨hr,hready⟩,hwaiting⟩,hdown⟩ := hcheck
  have hserve := ticks_serve hs hdown (c := 2) (by simp [hready])
  rw [hready,hwaiting] at hserve
  exact ⟨s,⟨hr,hready⟩,hserve⟩

/-- Between two turns those in front of a ready process may go to wait. So the processor changes
hands at most so often before it runs, and then it runs. -/
theorem ready_process_runs_within {s t : Kernel} {c : ℕ} {es : Kernel.Steps} (hs : Reachable s)
    (hc : c ∈ s.readyList) (htr : Trace system s es t)
    (hmany : (s.readyList.idxOf c + s.waitingList.length + 1).choose 2 + s.readyList.idxOf c <
      Kernel.switchCount es) :
    ∃ es₁ e es₂, es = es₁ ++ e :: es₂ ∧ e.2.2.running = some c ∧
      (∀ d ∈ es₁, c ∈ d.2.2.readyList) ∧ Kernel.switchCount es₁ ≤
        (s.readyList.idxOf c + s.waitingList.length + 1).choose 2 + s.readyList.idxOf c := by
  have h := hs.inv
  have hout : ¬ ∀ e ∈ es, c ∈ e.2.2.readyList := by
    intro hall
    exact absurd (Kernel.switchCount_le h hs.busy hc htr hall) (Nat.not_le_of_lt hmany)
  obtain ⟨es₁,e,es₂,rfl,htr₁,hall,hrun⟩ := Kernel.exists_first_run h hc htr hout
  exact ⟨es₁,e,es₂,rfl,hrun,hall,Kernel.switchCount_le h hs.busy hc htr₁ hall⟩

/-- The second of two ready processes, before which the processor changes hands at most twice. -/
theorem ready_process_runs_within_run : ∃ s : Kernel, (s.readyList = [1,2] ∧ s.waitingList = []) ∧
    ∀ es t, Trace system s es t → 2 < Kernel.switchCount es →
      ∃ es₁ e es₂, es = es₁ ++ e :: es₂ ∧ e.2.2.running = some 2 ∧
        (∀ d ∈ es₁, 2 ∈ d.2.2.readyList) ∧ Kernel.switchCount es₁ ≤ 2 := by
  obtain ⟨s,hs,hcheck⟩ := exists_run Transitions.unguarded
    [.call 5 [1,0],.ret,.call 5 [1,0],.ret]
    (fun s => s.readyList = [1,2] && s.waitingList = []) (by decide)
  simp only [Bool.and_eq_true,decide_eq_true_eq] at hcheck
  refine ⟨s,hcheck,fun es t htr hmany => ?_⟩
  have hplace : (s.readyList.idxOf 2 + s.waitingList.length + 1).choose 2 +
      s.readyList.idxOf 2 = 2 := by
    rw [hcheck.1,hcheck.2]
    rfl
  have hruns := ready_process_runs_within hs (c := 2) (by simp [hcheck.1]) htr (by omega)
  rw [hplace] at hruns
  exact hruns

/-- Until it runs itself, a ready process keeps everybody behind it from running. -/
theorem ready_not_overtaken {s t : Kernel} {a b : ℕ} {es : Kernel.Steps} (hs : Reachable s)
    (hab : [a,b].Sublist s.readyList) (htr : Trace system s es t)
    (hall : ∀ e ∈ es, e.2.2.running ≠ some a) :
    [a,b].Sublist t.readyList ∧ ∀ e ∈ es, e.2.2.running ≠ some b := by
  induction htr with
  | nil s => exact ⟨hab,fun e he => absurd he List.not_mem_nil⟩
  | @cons s u t action es hstep _ ih =>
    have hu : Reachable u := hs.step trivial hstep
    have hm := Kernel.step_move hs.inv hstep
    have ha : a ∈ s.readyList := hab.subset List.mem_cons_self
    have ha' : a ∈ u.readyList :=
      (hm.ready_or_runs ha).resolve_right (hall _ List.mem_cons_self)
    have hab' : [a,b].Sublist u.readyList := hm.keeps_order hs.inv.separate hab ha'
    obtain ⟨hlast,hrest⟩ := ih hu hab' (fun e he => hall e (List.mem_cons_of_mem _ he))
    refine ⟨hlast,fun e he => ?_⟩
    rcases List.mem_cons.mp he with rfl | he
    · -- behind the step `b` is ready, so it does not run
      intro hrun
      have hb : b ∈ u.readyList := hab'.subset (List.mem_cons_of_mem _ List.mem_cons_self)
      exact hu.inv.placement.runningNotReady b hrun hb
    · exact hrest e he

/-- Two ready processes, whatever the running one does. -/
theorem ready_not_overtaken_run : ∃ s : Kernel, s.readyList = [1,2] ∧
    ∀ es t, Trace system s es t → (∀ e ∈ es, e.2.2.running ≠ some 1) →
      [1,2].Sublist t.readyList ∧ ∀ e ∈ es, e.2.2.running ≠ some 2 := by
  obtain ⟨s,hs,hcheck⟩ := exists_run Transitions.unguarded
    [.call 5 [1,0],.ret,.call 5 [1,0],.ret] (fun s => s.readyList = [1,2]) (by decide)
  have hready := of_decide_eq_true hcheck
  refine ⟨s,hready,fun es t htr hall => ?_⟩
  exact ready_not_overtaken hs (hready ▸ List.Sublist.refl _) htr hall

/-- While processes only run, nobody being created, ended, put to sleep or woken, they run one
behind the other, and the turns of any two differ by one at most. -/
theorem turns_shared {s t : Kernel} {es : Kernel.Steps} (hs : Reachable s)
    (htr : Trace system s es t) (hwaiting : ∀ e ∈ es, e.2.2.waitingList = e.1.waitingList)
    (horder : ∀ e ∈ es, e.2.2.turnOrder.Perm e.1.turnOrder) :
    t.turnOrder = s.turnOrder.rotate (Kernel.turnCount es) ∧
    ∀ p ∈ s.turnOrder,
      Kernel.turnCountOf p es =
        (Kernel.turnCount es + (s.turnOrder.length - 1 - s.turnOrder.idxOf p)) /
          s.turnOrder.length ∧
      Kernel.turnCount es / s.turnOrder.length ≤ Kernel.turnCountOf p es ∧
      Kernel.turnCountOf p es ≤ Kernel.turnCount es / s.turnOrder.length + 1 := by
  have h := hs.inv
  have hviews := Kernel.trace_views h htr
  have hwaiting' : ∀ e ∈ Kernel.views es, e.2.2.waiting = e.1.waiting := by
    intro e he
    obtain ⟨d,hd,rfl⟩ := List.mem_map.mp he
    exact hwaiting d hd
  have horder' : ∀ e ∈ Kernel.views es, e.2.2.order.Perm e.1.order := by
    intro e he
    obtain ⟨d,hd,rfl⟩ := List.mem_map.mp he
    exact horder d hd
  have hnodup : s.turnOrder.Nodup := by
    have hall := h.separate
    unfold Queues.Separate Queues.members at hall
    rw [← List.append_assoc] at hall
    exact (List.nodup_append.mp hall).1
  have hrotated := order_rotated hviews hwaiting' horder'
  rw [Kernel.turns_views] at hrotated
  refine ⟨hrotated,fun p hp => ?_⟩
  have hshare := turnsOf_eq hviews hnodup hwaiting' horder' hp
  rw [Kernel.turns_views,Kernel.turnsOf_views] at hshare
  have hshare' : Kernel.turnCountOf p es =
      (Kernel.turnCount es + (s.turnOrder.length - 1 - s.turnOrder.idxOf p)) /
        s.turnOrder.length := hshare
  have hpos : 0 < s.turnOrder.length := List.length_pos_of_mem hp
  refine ⟨hshare',?_,?_⟩
  · rw [hshare']
    exact Nat.div_le_div_right (Nat.le_add_right _ _)
  · rw [hshare',← Nat.add_div_right _ hpos]
    exact Nat.div_le_div_right (by omega)

/-- Two processes and two ticks, of which each gets one. -/
theorem turns_shared_run : ∃ s t : Kernel, ∃ es, (s.turnOrder = [0,1] ∧ Kernel.turnCount es = 2) ∧
    Trace system s es t ∧ t.turnOrder = [0,1] ∧ Kernel.turnCountOf 0 es = 1 ∧
      Kernel.turnCountOf 1 es = 1 := by
  obtain ⟨s,hs,hcheck⟩ := exists_run Transitions.unguarded [.call 5 [1,0],.ret]
    (fun s => (s.turnOrder = [0,1] && s.waitingList = []) && s.after .tick (fun t =>
      (t.turnOrder = [1,0] && t.waitingList = []) && t.after .tick (fun u =>
        u.turnOrder = [0,1] && u.waitingList = []))) (by decide)
  simp only [Bool.and_eq_true,decide_eq_true_eq] at hcheck
  obtain ⟨⟨hs₁,hs₂⟩,hafter⟩ := hcheck
  obtain ⟨t,hst,hcheck⟩ := Kernel.after_eq_true hafter
  simp only [Bool.and_eq_true,decide_eq_true_eq] at hcheck
  obtain ⟨⟨ht₁,ht₂⟩,hafter⟩ := hcheck
  obtain ⟨u,htu,hcheck⟩ := Kernel.after_eq_true hafter
  simp only [Bool.and_eq_true,decide_eq_true_eq] at hcheck
  obtain ⟨hu₁,hu₂⟩ := hcheck
  have htr : Trace system s [(s,.tick,t),(t,.tick,u)] u := .cons hst (.cons htu (.nil u))
  obtain ⟨horder,hshare⟩ := turns_shared hs htr (by simp [hs₂,ht₂,hu₂])
    (by simp [hs₁,ht₁,hu₁,List.Perm.swap])
  have hcount : Kernel.turnCount [(s,.tick,t),(t,.tick,u)] = 2 := rfl
  rw [hs₁,hcount] at horder hshare
  exact ⟨s,u,_,⟨hs₁,hcount⟩,htr,horder,(hshare 0 (by simp)).1,(hshare 1 (by simp)).1⟩

end DisastrOS
