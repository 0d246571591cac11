import DisastrOS.Behaviour.Steps

/-! # Which child a wait reaps

A wait asks for the first zombie among the children, or for the child with a given
identifier. The scan finds it if there is one; if there is none, it ends on the last
child, which is right as long as the caller has a child with that identifier.
-/
namespace DisastrOS

namespace Kernel

/-- A wait that is to be refused. -/
def NothingToWaitFor (s : Kernel) (r : ℕ) : Prop :=
  s.children r = [] ∨
    (0 < s.syscallArgs r 0 ∧ ∀ x ∈ s.children r, s.pid (s.childPcb x) ≠ s.syscallArgs r 0)

/-- The first zombie among the children that the wait asks for. -/
def askedZombie (s : Kernel) (r : ℕ) : Option ℕ :=
  (s.children r).find? (fun x => s.status (s.childPcb x) = .zombie ∧
    (s.syscallArgs r 0 = 0 ∨ s.pid (s.childPcb x) = s.syscallArgs r 0))

/-- The child behind the entry `x` is reaped, and nobody else. -/
structure Reaps (s : Kernel) (r x : ℕ) (t : Kernel) : Prop where
  retvalue : t.syscallRetvalue r = s.pid (s.childPcb x)
  result : s.syscallArgs r 1 ≠ 0 → t.ints (s.syscallArgs r 1) = s.returnValue (s.childPcb x)
  children : t.children = Function.update s.children r ((s.children r).erase x)
  zombieList : t.zombieList = s.zombieList.erase (s.childPcb x)
  pcbs : ∀ p, t.pcbAllocator.Allocated p ↔ p ≠ s.childPcb x ∧ s.pcbAllocator.Allocated p
  entries : ∀ y, t.pcbPtrAllocator.Allocated y ↔ y ≠ x ∧ s.pcbPtrAllocator.Allocated y
  running : t.running = s.running
  readyList : t.readyList = s.readyList
  waitingList : t.waitingList = s.waitingList

/-- The caller waits, the first ready process runs, and nothing is freed. -/
structure Waits (s : Kernel) (r : ℕ) (t : Kernel) : Prop where
  waitingList : t.waitingList = listAppend s.waitingList r
  status : t.status r = .waiting
  running : t.running = s.readyList.head?
  readyList : t.readyList = s.readyList.tail
  children : t.children = s.children
  zombieList : t.zombieList = s.zombieList
  pcbs : t.pcbAllocator = s.pcbAllocator
  entries : t.pcbPtrAllocator = s.pcbPtrAllocator

/-- What `wait` promises: an error without any other change, the child asked for, or a
caller that waits. -/
structure WaitsAsAsked (s : Kernel) (r : ℕ) : Prop where
  refuses : s.NothingToWaitFor r → s.internalWait r = .ok (s.setRetvalue r dsosEWait)
  reaps : ¬ s.NothingToWaitFor r → ∀ x, s.askedZombie r = some x →
    ∃ t, s.internalWait r = .ok t ∧ Reaps s r x t
  waits : ¬ s.NothingToWaitFor r → s.askedZombie r = none → s.readyList ≠ [] →
    ∃ t, s.internalWait r = .ok t ∧ Waits s r t

variable {s t : Kernel} {r x : ℕ} {args : List ℤ}

/-- The entry on which the scan ends is the one asked for, if there is anything to ask for. -/
theorem askedZombie_eq (h : Inv s) (hr : s.running = some r) (hx : s.awaitedEntry r = some x)
    (hask : s.syscallArgs r 0 = 0 ∨
      ∃ y ∈ s.children r, s.pid (s.childPcb y) = s.syscallArgs r 0) :
    s.askedZombie r = if s.status (s.childPcb x) = .zombie then some x else none := by
  have hrA := h.running_allocated hr
  have hxm := awaitedEntry_mem hx
  by_cases hzero : s.syscallArgs r 0 = 0
  · have hstops : s.askedZombie r = (s.children r).find? (s.stopsScan (s.syscallArgs r 0)) := by
      unfold askedZombie
      congr 1
      funext y
      simp [stopsScan,hzero]
    rw [awaitedEntry_eq,← hstops] at hx
    cases hz : s.askedZombie r with
    | none =>
      rw [hz,Option.none_or] at hx
      have hnone := List.find?_eq_none.mp (hstops ▸ hz) x hxm
      exact (if_neg (fun hst => hnone (stopsScan_iff.mpr (Or.inl ⟨hzero,hst⟩)))).symm
    | some y =>
      rw [hz,Option.some_or] at hx
      cases hx
      rcases stopsScan_iff.mp (List.find?_some (hstops ▸ hz)) with ⟨_,hst⟩ | ⟨hne,_⟩
      · exact (if_pos hst).symm
      · exact absurd hzero hne
  · obtain ⟨y,hy,hypid⟩ := hask.resolve_left hzero
    have hpid : s.pid (s.childPcb x) = s.syscallArgs r 0 := by
      rcases awaitedEntry_cases hx with ⟨_,hstop⟩ | ⟨hnone,_⟩
      · exact ((stopsScan_iff.mp hstop).resolve_left (fun hz => hzero hz.1)).2
      · exact absurd (stopsScan_iff.mpr (Or.inr ⟨hzero,hypid⟩)) (hnone y hy)
    -- two children with the same identifier are one, so that the first zombie is this one
    have honly : ∀ z ∈ s.children r, s.pid (s.childPcb z) = s.syscallArgs r 0 → z = x := by
      intro z hz hzpid
      have hsame := h.identity.injective _ _ (h.family.childAllocated r hrA z hz)
        (h.family.childAllocated r hrA x hxm) (hzpid.trans hpid.symm)
      exact (h.family.unique r r hrA hrA z hz x hxm hsame).2
    cases hz : s.askedZombie r with
    | none =>
      have hnone := List.find?_eq_none.mp hz x hxm
      simp only [hpid,or_true,and_true,decide_eq_true_eq] at hnone
      exact (if_neg hnone).symm
    | some z =>
      have hprop := List.find?_some hz
      simp only [hzero,false_or,decide_eq_true_eq] at hprop
      obtain rfl := honly z (List.mem_of_find?_eq_some hz) hprop.2
      exact (if_pos hprop.1).symm

theorem reaps_reaped (h : Inv s) (hr : s.running = some r) (hx : x ∈ s.children r) :
    Reaps s r x (s.reaped r x) where
  retvalue := Function.update_self _ _ _
  result hres := by
    refine (congrFun (if_pos hres) _).trans ?_
    exact Function.update_self _ _ _
  children := rfl
  zombieList := rfl
  pcbs := Pool.allocated_releaseBlock (h.family.childAllocated r (h.running_allocated hr) x hx)
  entries := Pool.allocated_releaseBlock (h.family.entry r (h.running_allocated hr) x hx)
  running := rfl
  readyList := rfl
  waitingList := rfl

theorem waits_blocked {next : ℕ} {rest : List ℕ} (hready : s.readyList = next :: rest) :
    Waits s r ((s.blocked r).dispatched next rest) where
  waitingList := rfl
  status := Function.update_self _ _ _
  running := by
    rw [hready]
    rfl
  readyList := by
    rw [hready]
    rfl
  children := rfl
  zombieList := rfl
  pcbs := rfl
  entries := rfl

/-- The last child is reaped or waited for, whoever it is. -/
theorem internalWait_ne_refused (h : Inv s) (hr : s.running = some r)
    (hx : s.awaitedEntry r = some x) : s.internalWait r ≠ .ok (s.setRetvalue r dsosEWait) := by
  intro hok
  rw [internalWait_eq hx] at hok
  have hxm := awaitedEntry_mem hx
  split at hok
  · rename_i hz
    rw [reap_eq h hr hxm hz,Except.ok.injEq] at hok
    have hc := h.family.childAllocated r (h.running_allocated hr) x hxm
    have hlist : s.zombieList.erase (s.childPcb x) = s.zombieList := congrArg Kernel.zombieList hok
    have hlen := List.length_erase_of_mem ((h.placement.mem_zombie_iff hc).mpr hz)
    have hpos := List.length_pos_of_mem ((h.placement.mem_zombie_iff hc).mpr hz)
    rw [hlist] at hlen
    omega
  · cases hready : s.readyList with
    | nil =>
      rw [blockInWait_nil hready] at hok
      cases hok
    | cons next rest =>
      rw [blockInWait_cons hready,Except.ok.injEq] at hok
      have hwait : listAppend s.waitingList r = s.waitingList := congrArg Kernel.waitingList hok
      have hmem : r ∈ listAppend s.waitingList r := mem_listAppend.mpr (Or.inr rfl)
      rw [hwait] at hmem
      exact h.not_waiting_running hr hmem

/-- A wait keeps its promise unless it is for an identifier that no child has. -/
theorem waitsAsAsked_iff (h : Inv s) (hr : s.running = some r) (hpid : 0 ≤ s.syscallArgs r 0) :
    s.WaitsAsAsked r ↔ s.children r = [] ∨ s.syscallArgs r 0 = 0 ∨
      ∃ x ∈ s.children r, s.pid (s.childPcb x) = s.syscallArgs r 0 := by
  by_cases hnil : s.children r = []
  · refine iff_of_true ⟨fun _ => internalWait_nil hnil,?_,?_⟩ (Or.inl hnil)
    · exact fun hsome => absurd (Or.inl hnil) hsome
    · exact fun hsome => absurd (Or.inl hnil) hsome
  · obtain ⟨x,hx⟩ := exists_awaitedEntry hnil
    by_cases hask : s.syscallArgs r 0 = 0 ∨
        ∃ y ∈ s.children r, s.pid (s.childPcb y) = s.syscallArgs r 0
    · have hsome : ¬ s.NothingToWaitFor r := by
        rintro (hnil' | ⟨hpos,hall⟩)
        · exact hnil hnil'
        · rcases hask with hzero | ⟨y,hy,hypid⟩
          · omega
          · exact hall y hy hypid
      have hasked := askedZombie_eq h hr hx hask
      refine iff_of_true ⟨fun hno => absurd hno hsome,?_,?_⟩ (Or.inr hask)
      · intro _ z hz
        by_cases hst : s.status (s.childPcb x) = .zombie
        · rw [hasked,if_pos hst] at hz
          cases hz
          have hxm := awaitedEntry_mem hx
          refine ⟨s.reaped r x,?_,reaps_reaped h hr hxm⟩
          rw [internalWait_eq hx,if_pos hst,reap_eq h hr hxm hst]
        · rw [hasked,if_neg hst] at hz
          cases hz
      · intro _ hnone hready
        have hst : s.status (s.childPcb x) ≠ .zombie := by
          intro hst
          rw [hasked,if_pos hst] at hnone
          cases hnone
        obtain ⟨next,rest,hcons⟩ := List.exists_cons_of_ne_nil hready
        refine ⟨_,?_,waits_blocked hcons⟩
        rw [internalWait_eq hx,if_neg hst,blockInWait_cons hcons]
    · refine iff_of_false ?_ (not_or.mpr ⟨hnil,hask⟩)
      obtain ⟨hne,hall⟩ := not_or.mp hask
      intro hpromise
      refine internalWait_ne_refused h hr hx (hpromise.refuses (Or.inr ⟨?_,?_⟩))
      · omega
      · exact fun y hy hypid => hall ⟨y,hy,hypid⟩

end Kernel

/-- A wait reaps what was asked for, blocks or reports an error as promised exactly if the
caller has no children, or has a child with the identifier asked for, or asks for any. -/
theorem wait_reaps_asked {s : Kernel} {r : ℕ} {args : List ℤ} (hs : Reachable s)
    (hr : s.running = some r) (hpid : 0 ≤ args.getD 0 0) :
    (s.enterTrap r dsosCallWait args).WaitsAsAsked r ↔ s.children r = [] ∨ args.getD 0 0 = 0 ∨
      ∃ x ∈ s.children r, s.pid (s.childPcb x) = args.getD 0 0 := by
  have harg : (s.enterTrap r dsosCallWait args).syscallArgs r 0 = args.getD 0 0 :=
    Kernel.syscallArgs_enterTrap (by decide)
  have hiff := Kernel.waitsAsAsked_iff (hs.inv.enterTrap hr dsosCallWait args) hr (harg ▸ hpid)
  rw [harg] at hiff
  exact hiff

/-- The second of two children has exited, and the caller waits for any. -/
theorem wait_reaps_asked_run : ∃ s : Kernel, (s.children 0 = [0,1] ∧ s.zombieList = [2]) ∧
    ((s.enterTrap 0 dsosCallWait [0,0]).WaitsAsAsked 0 ↔ s.children 0 = [] ∨ (0 : ℤ) = 0 ∨
      ∃ x ∈ s.children 0, s.pid (s.childPcb x) = 0) := by
  obtain ⟨s,hs,hcheck⟩ := exists_run Transitions.unguarded
    [.call 5 [1,0],.ret,.call 5 [1,0],.ret,.tick,.tick,.call 4 [7]]
    (fun s => s.running = some 0 && s.children 0 = [0,1] && s.zombieList = [2]) (by decide)
  simp only [Bool.and_eq_true,decide_eq_true_eq] at hcheck
  have hany : 0 ≤ ([0,0] : List ℤ).getD 0 0 := by decide
  exact ⟨s,⟨hcheck.1.2,hcheck.2⟩,wait_reaps_asked hs hcheck.1.1 hany⟩

/-- The only child is a zombie, and is reaped by a wait for another identifier. -/
theorem wait_reaps_another : ¬ ∀ (s : Kernel) (r : ℕ) (args : List ℤ), Reachable s →
    s.running = some r → 0 ≤ args.getD 0 0 →
      (s.enterTrap r dsosCallWait args).WaitsAsAsked r := by
  intro hclaim
  obtain ⟨s,hs,hcheck⟩ := exists_run Transitions.unguarded
    [.call 5 [1,0],.ret,.tick,.call 4 [7]]
    (fun s => s.running = some 0 && s.children 0 = [0] && s.childPcb 0 = 1 && s.pid 1 = 1)
    (by decide)
  simp only [Bool.and_eq_true,decide_eq_true_eq] at hcheck
  obtain ⟨⟨⟨hr,hchildren⟩,hchild⟩,hpid⟩ := hcheck
  have hinv := (Reachable.inv hs).enterTrap hr dsosCallWait [5,0]
  have harg : (s.enterTrap 0 dsosCallWait [5,0]).syscallArgs 0 0 = 5 :=
    Kernel.syscallArgs_enterTrap (by decide)
  have hiff := Kernel.waitsAsAsked_iff hinv hr (by rw [harg]; decide)
  rw [harg] at hiff
  rcases hiff.mp (hclaim s 0 [5,0] hs hr (by decide)) with hnil | hzero | ⟨x,hx,hx5⟩
  · cases hchildren.symm.trans hnil
  · exact absurd hzero (by decide)
  · cases List.mem_singleton.mp (hchildren ▸ hx : x ∈ [0])
    have hpid' : (s.enterTrap 0 dsosCallWait [5,0]).pid (s.childPcb 0) = 1 := hchild ▸ hpid
    exact absurd (hpid'.symm.trans hx5) (by decide)

end DisastrOS
