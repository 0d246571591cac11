import DisastrOS.Behaviour.Scheduling

/-! # What the process handlers do

For each branch of `fork`, `spawn` and `wait` the state it leaves, or the fault it
ends in, on a state that satisfies the invariant.
-/
namespace DisastrOS.Kernel

variable {s t u : Kernel} {r p x next : ℕ} {f : Fault} {rest : List ℕ}

section Creation

/-- The state behind `PCB_alloc`. -/
def withPcb (s : Kernel) (p : ℕ) (pool : Pool maxNumProcesses) : Kernel :=
  { s with
    pcbAllocator := pool
    pid := Function.update s.pid p s.lastPid
    lastPid := s.lastPid + 1
    returnValue := Function.update s.returnValue p 0
    status := Function.update s.status p .invalid
    signals := Function.update s.signals p 0#32
    signalsMask := Function.update s.signalsMask p (BitVec.allOnes 32)
    resources := s.resources.initProcess p
    messagequeues := s.messagequeues.initProcess p
    parent := Function.update s.parent p none
    timer := Function.update s.timer p none
    children := Function.update s.children p [] }

/-- The state in which `r` has got the child `p` through the entry `x`. -/
def withChild (s : Kernel) (r p : ℕ) (pool : Pool maxNumProcesses) (x : ℕ)
    (entries : Pool maxNumProcesses) : Kernel :=
  let s := s.withPcb p pool
  { s with
    status := Function.update s.status p .ready
    parent := Function.update s.parent p (some r)
    pcbPtrAllocator := entries
    childPcb := Function.update s.childPcb x p
    children := Function.update s.children r (listAppend (s.children r) x)
    readyList := listAppend s.readyList p }.setRetvalue r (s.pid p)

/-- The state behind a spawn. -/
def spawned (s : Kernel) (r p : ℕ) (pool : Pool maxNumProcesses) (x : ℕ)
    (entries : Pool maxNumProcesses) : Kernel :=
  { s.withChild r p pool x entries with
    cpuState := Function.update s.cpuState p
      (some ⟨s.lastPid,.entry (s.syscallArgs r 0) (s.syscallArgs r 1)⟩) }

/-- The first process of a start. -/
def withInit (s : Kernel) (p : ℕ) (pool : Pool maxNumProcesses) : Kernel :=
  let s := s.withPcb p pool
  { s with
    running := some p
    status := Function.update s.status p .running
    initPcb := some p
    cpuState := Function.update s.cpuState p
      (some ⟨s.pid p,.entry s.startFunction s.startArgs⟩) }

theorem pcbAlloc_ok (h : s.pcbAlloc = .ok (p,t)) :
    ∃ pool, s.pcbAllocator.getBlock = some (p,pool) ∧ t = s.withPcb p pool := by
  unfold pcbAlloc at h
  split at h
  · cases h
  · rename_i p' pool hb
    cases h
    exact ⟨pool,hb,rfl⟩

theorem pcbAlloc_error (h : s.pcbAlloc = .error f) : f = .nullPointer := by
  unfold pcbAlloc at h
  split at h
  · cases h
    rfl
  · cases h

theorem createChild_eq {pool entries : Pool maxNumProcesses}
    (hb : s.pcbAllocator.getBlock = some (p,pool))
    (hx : s.pcbPtrAllocator.getBlock = some (x,entries)) :
    s.createChild r = .ok (p,s.withChild r p pool x entries) := by
  simp only [createChild,pcbAlloc,hb,ok_bind,addChild,pcbPtrAlloc,hx]
  rfl

/-- Creation fails for want of a block. -/
theorem createChild_none
    (hnone : s.pcbAllocator.getBlock = none ∨ s.pcbPtrAllocator.getBlock = none) :
    s.createChild r = .error .nullPointer := by
  cases hb : s.pcbAllocator.getBlock with
  | none => simp only [createChild,pcbAlloc,hb,error_bind]
  | some b =>
    have hx := hnone.resolve_left (by simp [hb])
    simp only [createChild,pcbAlloc,hb,ok_bind,addChild,pcbPtrAlloc,hx,error_bind]

/-- Creation fails for no other reason. -/
theorem createChild_cases (s : Kernel) (r : ℕ) : s.createChild r = .error .nullPointer ∨
    ∃ p pool x entries, s.pcbAllocator.getBlock = some (p,pool) ∧
      s.pcbPtrAllocator.getBlock = some (x,entries) ∧
        s.createChild r = .ok (p,s.withChild r p pool x entries) := by
  cases hb : s.pcbAllocator.getBlock with
  | none => exact Or.inl (createChild_none (Or.inl hb))
  | some b =>
    cases hx : s.pcbPtrAllocator.getBlock with
    | none => exact Or.inl (createChild_none (Or.inr hx))
    | some e => exact Or.inr ⟨b.1,b.2,e.1,e.2,rfl,rfl,createChild_eq hb hx⟩

theorem internalSpawn_eq {pool entries : Pool maxNumProcesses}
    (hb : s.pcbAllocator.getBlock = some (p,pool))
    (hx : s.pcbPtrAllocator.getBlock = some (x,entries)) :
    s.internalSpawn r = .ok (s.spawned r p pool x entries) := by
  have hpid : (s.withChild r p pool x entries).pid p = s.lastPid := Function.update_self _ _ _
  simp only [internalSpawn,createChild_eq hb hx,ok_bind,hpid]
  rfl

theorem Inv.withChild (h : Inv s) (hr : s.running = some r) {pool entries : Pool maxNumProcesses}
    (hb : s.pcbAllocator.getBlock = some (p,pool))
    (hx : s.pcbPtrAllocator.getBlock = some (x,entries)) :
    Inv (s.withChild r p pool x entries) := by
  obtain ⟨hfree,_,hal⟩ := Pool.getBlock_eq_some hb
  obtain ⟨hxfree,_,hxal⟩ := Pool.getBlock_eq_some hx
  have hp := h.placement
  have hpZ : p ∉ s.zombieList := fun hz => hfree (hp.allocated_zombie hz)
  rw [hr] at hp
  have hplace := h.placement.create hfree hal
  have hlast := h.identity.last_positive hp.allocated_running
  refine ⟨⟨?_,?_,?_,h.timers,?_,?_,?_,h.mailboxes⟩,?_⟩
  · simpa only [Kernel.withChild,withPcb,Kernel.setRetvalue,Function.update_idem] using hplace
  · exact h.family.adopt hp.allocated_running hp.running_not_zombie hfree hal hxfree hxal hpZ
  · exact h.identity.create hfree hal (fun _ => hlast)
  · intro q
    by_cases hq : q = p
    · subst hq
      exact Function.update_self _ _ _
    · exact (Function.update_of_ne hq _ _).trans (h.noTimer q)
  · exact h.resources.initProcess hal
  · exact h.messagequeues.initProcess hal
  · exact h.hasInit.adopt hfree hal

/-- The first process of a start is a new init, whatever is left of an earlier one. -/
theorem Wellformed.withInit (h : Wellformed s) (hr : s.running = none)
    {pool : Pool maxNumProcesses} (hb : s.pcbAllocator.getBlock = some (p,pool)) :
    Inv (s.withInit p pool) := by
  obtain ⟨hfree,_,hal⟩ := Pool.getBlock_eq_some hb
  have hpZ : p ∉ s.zombieList := fun hz => hfree (h.placement.allocated_zombie hz)
  have hplace := h.placement
  rw [hr] at hplace
  refine ⟨⟨?_,?_,?_,h.timers,?_,?_,?_,h.mailboxes⟩,?_⟩
  · have hs := hplace.start hfree hal
    simpa only [Kernel.withInit,withPcb,Function.update_idem] using hs
  · exact h.family.start hfree hal hpZ
  · have hid := h.identity.create (o := none) hfree hal (fun hne => absurd rfl hne)
    simpa only [Kernel.withInit,withPcb,Function.update_idem] using hid
  · intro q
    by_cases hq : q = p
    · subst hq
      exact Function.update_self _ _ _
    · exact (Function.update_of_ne hq _ _).trans (h.noTimer q)
  · exact h.resources.initProcess hal
  · exact h.messagequeues.initProcess hal
  · exact ⟨p,rfl,(hal p).mpr (Or.inl rfl),Function.update_self _ _ _⟩

end Creation

section Waiting

/-- The entry on which the scan of `internal_wait` ends. -/
def awaitedEntry (s : Kernel) (r : ℕ) : Option ℕ :=
  s.scanChildren (s.syscallArgs r 0) none (s.children r)

/-- The state behind the reaping branch. -/
def reaped (s : Kernel) (r x : ℕ) : Kernel :=
  let c := s.childPcb x
  let v := ({ s with
    children := Function.update s.children r ((s.children r).erase x)
    pcbPtrAllocator := s.pcbPtrAllocator.releaseBlock x
    zombieList := s.zombieList.erase c }.setRetvalue r (s.pid c)).storeResult
      (s.syscallArgs r 1) (s.returnValue c)
  { v with pcbAllocator := s.pcbAllocator.releaseBlock c }.record
    (.reaped r c (s.pid c) (s.returnValue c))

/-- The process waits for a child, and nobody runs. -/
def blocked (s : Kernel) (r : ℕ) : Kernel := { s.moveToWaiting r with running := none }

theorem stopsScan_iff {pid : ℤ} : s.stopsScan pid x ↔
    (pid = 0 ∧ s.status (s.childPcb x) = .zombie) ∨ (pid ≠ 0 ∧ s.pid (s.childPcb x) = pid) := by
  simp [stopsScan]

theorem scanChildren_eq (k : ℤ) (cursor : Option ℕ) (l : List ℕ) :
    s.scanChildren k cursor l = ((l.find? (s.stopsScan k)).or l.getLast?).or cursor := by
  induction l generalizing cursor with
  | nil => rfl
  | cons y l ih =>
    rw [scanChildren]
    by_cases hy : s.stopsScan k y
    · rw [if_pos hy,List.find?_cons_of_pos hy]
      rfl
    · rw [if_neg hy,List.find?_cons_of_neg hy,ih]
      cases l with
      | nil => rfl
      | cons z l =>
        rw [List.getLast?_cons_cons,List.getLast?_eq_getLast_of_ne_nil (List.cons_ne_nil z l)]
        cases (z :: l).find? (s.stopsScan k) <;> rfl

/-- The scan ends on the first entry that stops it, or behind the last one. -/
theorem awaitedEntry_eq (s : Kernel) (r : ℕ) : s.awaitedEntry r =
    ((s.children r).find? (s.stopsScan (s.syscallArgs r 0))).or (s.children r).getLast? := by
  rw [awaitedEntry,scanChildren_eq,Option.or_none]

/-- The entry stopped the scan, or none did and it is the last one. -/
theorem awaitedEntry_cases (hx : s.awaitedEntry r = some x) :
    (x ∈ s.children r ∧ s.stopsScan (s.syscallArgs r 0) x) ∨
      (∀ y ∈ s.children r, ¬ s.stopsScan (s.syscallArgs r 0) y) ∧
        (s.children r).getLast? = some x := by
  rw [awaitedEntry_eq] at hx
  cases hf : (s.children r).find? (s.stopsScan (s.syscallArgs r 0)) with
  | none =>
    rw [hf,Option.none_or] at hx
    exact Or.inr ⟨List.find?_eq_none.mp hf,hx⟩
  | some y =>
    rw [hf,Option.some_or] at hx
    cases hx
    exact Or.inl ⟨List.mem_of_find?_eq_some hf,List.find?_some hf⟩

theorem awaitedEntry_mem (hx : s.awaitedEntry r = some x) : x ∈ s.children r := by
  rcases awaitedEntry_cases hx with ⟨hmem,_⟩ | ⟨_,hlast⟩
  · exact hmem
  · exact List.mem_of_getLast? hlast

/-- Only a process without children is not led to an entry. -/
theorem exists_awaitedEntry (hne : s.children r ≠ []) : ∃ x, s.awaitedEntry r = some x := by
  rw [awaitedEntry_eq,List.getLast?_eq_getLast_of_ne_nil hne]
  cases (s.children r).find? (s.stopsScan (s.syscallArgs r 0)) with
  | none => exact ⟨_,rfl⟩
  | some y => exact ⟨y,rfl⟩

theorem internalWait_nil (hnil : s.children r = []) :
    s.internalWait r = .ok (s.setRetvalue r dsosEWait) := by
  simp only [internalWait,hnil,if_true]

theorem internalWait_eq (hx : s.awaitedEntry r = some x) :
    s.internalWait r = if s.status (s.childPcb x) = .zombie
      then s.reap r x (s.syscallArgs r 1) else s.blockInWait r := by
  have hne : s.children r ≠ [] := List.ne_nil_of_mem (awaitedEntry_mem hx)
  unfold awaitedEntry at hx
  simp only [internalWait,if_neg hne,hx]

theorem reap_eq (h : Inv s) (hr : s.running = some r) (hx : x ∈ s.children r)
    (hz : s.status (s.childPcb x) = .zombie) :
    s.reap r x (s.syscallArgs r 1) = .ok (s.reaped r x) := by
  have hc := h.family.childAllocated r (h.running_allocated hr) x hx
  have hzl := (h.placement.mem_zombie_iff hc).mpr hz
  simp only [reap,pcbPtrFree,listDetach_mem hx,ok_bind,listDetach_mem hzl]
  rfl

theorem blockInWait_cons (hready : s.readyList = next :: rest) :
    s.blockInWait r = .ok ((s.blocked r).dispatched next rest) := by
  simp only [blockInWait,takeReady,moveToWaiting,hready,List.head?_cons,listDetach_cons,ok_bind]
  rfl

theorem blockInWait_nil (hready : s.readyList = []) :
    s.blockInWait r = .error .detachNull := by
  simp only [blockInWait,takeReady,moveToWaiting,hready,List.head?_nil,listDetach_none,error_bind]

theorem Inv.reaped (h : Inv s) (hr : s.running = some r) (hx : x ∈ s.children r)
    (hz : s.status (s.childPcb x) = .zombie) : Inv (s.reaped r x) := by
  have hrA := h.running_allocated hr
  have hc := h.family.childAllocated r hrA x hx
  have hzl := (h.placement.mem_zombie_iff hc).mpr hz
  have hal := Pool.allocated_releaseBlock hc
  have hxal := Pool.allocated_releaseBlock (h.family.entry r hrA x hx)
  have hsub : ∀ q, (s.pcbAllocator.releaseBlock (s.childPcb x)).Allocated q →
      s.pcbAllocator.Allocated q := fun q hq => ((hal q).mp hq).2
  refine ⟨⟨?_,?_,?_,h.timers,h.noTimer,?_,?_,h.mailboxes⟩,?_⟩
  · exact h.placement.free hzl hal
  · exact h.family.collect hrA hx rfl hzl hal (fun y hy hE => (hxal y).mpr ⟨hy,hE⟩)
  · exact h.identity.mono hsub
  · exact h.resources.mono hsub
  · exact h.messagequeues.mono hsub
  · exact h.hasInit.free (h.family.zombieParent _ hc hzl) hal

theorem Inv.blocked (h : Inv s) (hr : s.running = some r) (hnum : s.syscallNum r = dsosCallWait) :
    Inv (s.blocked r) := by
  have hp := h.placement
  rw [hr] at hp
  exact { h with placement := hp.park, timers := h.timers.block hnum }

end Waiting

end DisastrOS.Kernel
