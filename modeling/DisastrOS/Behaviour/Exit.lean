import DisastrOS.Behaviour.Processes

/-! # What exit does

The children go to init, the process becomes a zombie, and then either its parent
is woken and the process freed, or the first ready process runs.
-/
namespace DisastrOS.Kernel

variable {s t : Kernel} {r p i x next : ℕ} {value : ℤ} {rest : List ℕ}
variable {L M : DescriptorLayer}

/-- The state behind the reparenting loop. -/
def reparented (s : Kernel) (i r : ℕ) : Kernel :=
  { s with
    children := handedOver s.children i r
    signals := (s.children r).foldl (fun g x => Function.update g (s.childPcb x)
      (g (s.childPcb x) ||| (dsosSighup &&& s.signalsMask (s.childPcb x)))) s.signals }

/-- The exiting process `r` is a zombie, its children are init's and its parent `p`
has got the signal. -/
def exiting (s : Kernel) (i r p : ℕ) (value : ℤ) : Kernel :=
  let s := (s.setReturnValue r value).reparented i r
  ({ s with
    status := Function.update s.status r .zombie
    zombieList := listAppend s.zombieList r }.sendSignal p dsosSigchld).record
      (.exited r (s.pid r) value)

/-- The state behind the branch that wakes the parent. -/
def collected (s : Kernel) (r p x : ℕ) (L M : DescriptorLayer) : Kernel :=
  let v := ({ s with
    waitingList := s.waitingList.erase p
    status := Function.update s.status p .running
    children := Function.update s.children p ((s.children p).erase x) }.setRetvalue p
      (s.pid r)).storeResult (s.syscallArgs p 1) (s.returnValue r)
  { v with
    resources := L
    messagequeues := M
    zombieList := s.zombieList.erase r
    pcbAllocator := s.pcbAllocator.releaseBlock r
    running := some p }.record (.reaped p r (s.pid r) (s.returnValue r))

/-- The state behind the other branch. -/
def replaced (s : Kernel) (next : ℕ) (rest : List ℕ) : Kernel :=
  { s with
    readyList := rest
    status := Function.update s.status next .running
    running := some next }

theorem history_collected (s : Kernel) (i r p x : ℕ) (value : ℤ) (L M : DescriptorLayer) :
    ((s.exiting i r p value).collected r p x L M).history =
      .reaped p r (s.pid r) value :: .exited r (s.pid r) value :: s.history := by
  have hvalue : (s.exiting i r p value).returnValue r = value := Function.update_self _ _ _
  have hhist : ((s.exiting i r p value).collected r p x L M).history =
      .reaped p r (s.pid r) ((s.exiting i r p value).returnValue r) ::
        .exited r (s.pid r) value :: s.history := rfl
  rw [hhist,hvalue]

theorem reparent_eq (hir : i ≠ r ∨ s.children r = []) :
    reparent i r (s.children r).length s = .ok (s.reparented i r) := by
  induction hl : s.children r generalizing s with
  | nil =>
    have hs : s.reparented i r = s := by
      unfold reparented
      rw [handedOver_nil hl,hl]
      rfl
    rw [hs]
    simp only [List.length_nil,reparent,hl]
  | cons x rest ih =>
    have hne : i ≠ r := hir.resolve_right (by simp [hl])
    simp only [List.length_cons,reparent,hl]
    rw [ih (Or.inl hne) (by simp [sendSignal,hne.symm])]
    simp only [reparented,sendSignal,handedOver_cons hne hl,hl,List.foldl_cons]
    simp [hne.symm]

/-- An init with children of its own that exits never gets to the end of the loop. -/
theorem reparent_self (hne : s.children r ≠ []) (n : ℕ) :
    reparent r r n s = .error .diverges := by
  induction n generalizing s with
  | zero =>
    cases hl : s.children r with
    | nil => exact absurd hl hne
    | cons x rest => simp only [reparent,hl]
  | succ n ih =>
    cases hl : s.children r with
    | nil => exact absurd hl hne
    | cons x rest =>
      simp only [reparent,hl]
      apply ih
      simp [sendSignal,listAppend]

/-- The test on the parent is the same before and after the process is a zombie. -/
theorem wakesParent_exiting (hst : s.status r = .running ∨ s.status r = .ready) :
    (s.exiting i r p value).wakesParent r p = s.wakesParent r p := by
  have hwait : (s.exiting i r p value).status p = .waiting ↔ s.status p = .waiting := by
    by_cases hpr : p = r
    · subst hpr
      rcases hst with hst | hst <;> simp [exiting,setReturnValue,reparented,sendSignal,record,hst]
    · simp [exiting,setReturnValue,reparented,sendSignal,record,Function.update_of_ne hpr]
  simp only [wakesParent,hwait]
  rfl

theorem internalExit_some (hi : s.initPcb = some i) :
    s.internalExit r =
      reparent i r ((s.setReturnValue r (s.syscallArgs r 0)).children r).length
        (s.setReturnValue r (s.syscallArgs r 0)) >>=
          fun s' => s'.becomeZombie r (s.syscallArgs r 0) := by
  unfold internalExit
  dsimp only
  split
  · rename_i hnone
    exact absurd (hi.symm.trans hnone) (by simp)
  · rename_i i' hsome
    cases Option.some.inj (hsome.symm.trans hi)
    rfl

theorem internalExit_diverges (hi : s.initPcb = some r) (hne : s.children r ≠ []) :
    s.internalExit r = .error .diverges := by
  rw [internalExit_some hi,reparent_self (s := s.setReturnValue r _) hne,error_bind]

theorem internalExit_noParent (hi : s.initPcb = some i) (hir : i ≠ r ∨ s.children r = [])
    (hp : s.parent r = none) : s.internalExit r = .error .nullPointer := by
  have hok := reparent_eq (s := s.setReturnValue r (s.syscallArgs r 0)) hir
  rw [internalExit_some hi,hok,ok_bind]
  simp only [becomeZombie,reparented,setReturnValue,hp]

theorem internalExit_eq (hi : s.initPcb = some i) (hir : i ≠ r ∨ s.children r = [])
    (hp : s.parent r = some p) :
    s.internalExit r =
      if (s.exiting i r p (s.syscallArgs r 0)).wakesParent r p
      then (s.exiting i r p (s.syscallArgs r 0)).exitToParent r p
      else (s.exiting i r p (s.syscallArgs r 0)).exitToReady := by
  have hok := reparent_eq (s := s.setReturnValue r (s.syscallArgs r 0)) hir
  rw [internalExit_some hi,hok,ok_bind]
  simp only [becomeZombie,reparented,setReturnValue,hp]
  rfl

theorem exitToReady_cons (hready : s.readyList = next :: rest) :
    s.exitToReady = .ok (s.replaced next rest) := by
  simp only [exitToReady,takeReady,hready,List.head?_cons,listDetach_cons,ok_bind]
  rfl

theorem exitToReady_nil (hready : s.readyList = []) : s.exitToReady = .error .detachNull := by
  simp only [exitToReady,takeReady,hready,List.head?_nil,listDetach_none,error_bind]

/-- A process without a timer leaves the timer list as it is. -/
theorem releaseTimers_eq (h : ∀ t ∈ s.timerList, s.timerPcb t ≠ r) : s.releaseTimers r = s := by
  have hkeep : s.timerList.filter (fun t => s.timerPcb t ≠ r) = s.timerList := by
    rw [List.filter_eq_self]
    intro t ht
    exact decide_eq_true (h t ht)
  have hdrop : s.timerList.filter (fun t => s.timerPcb t = r) = [] := by
    rw [List.filter_eq_nil_iff]
    intro t ht
    simpa using h t ht
  unfold releaseTimers
  rw [hkeep,hdrop]
  rfl

/-- The entry of a process on a children list is found by its identifier. -/
theorem childByPid_eq_some (hid : ∀ y ∈ s.children p, s.pid (s.childPcb y) = s.pid r →
    s.childPcb y = r) (hx : s.childByPid p (s.pid r) = some x) :
    x ∈ s.children p ∧ s.childPcb x = r := by
  unfold childByPid at hx
  have hmem := List.mem_of_find?_eq_some hx
  exact ⟨hmem,hid x hmem (by simpa using List.find?_some hx)⟩

theorem childByPid_eq_none (hx : s.childByPid p (s.pid r) = none) {y : ℕ}
    (hy : y ∈ s.children p) : s.childPcb y ≠ r := by
  unfold childByPid at hx
  rintro rfl
  simpa using List.find?_eq_none.mp hx y hy

theorem exitToParent_eq (hw : p ∈ s.waitingList) (hx : s.childByPid p (s.pid r) = some x)
    (htimers : ∀ t ∈ s.timerList, s.timerPcb t ≠ r) (hz : r ∈ s.zombieList)
    (hL : s.resources.releaseAll r (s.resources.descriptors r).length = .ok L)
    (hM : s.messagequeues.releaseAll r (s.messagequeues.descriptors r).length = .ok M) :
    s.exitToParent r p = .ok (s.collected r p x L M) := by
  have hxm : x ∈ s.children p := List.mem_of_find?_eq_some hx
  have hx' : ({ s with
      waitingList := s.waitingList.erase p
      status := Function.update s.status p .running } : Kernel).childByPid p (s.pid r) = some x := hx
  simp only [exitToParent,listDetach_mem hw,ok_bind,hx',listDetach_mem hxm]
  rw [releaseTimers_eq (r := r) (by exact htimers)]
  simp only [setRetvalue,storeResult,DescriptorLayer.releaseResources_eq,
    DescriptorLayer.releaseMessagequeues_eq,hL,hM,ok_bind,listDetach_mem hz]
  rfl

theorem exitToParent_none (hw : p ∈ s.waitingList) (hx : s.childByPid p (s.pid r) = none) :
    s.exitToParent r p = .error .detachNull := by
  have hx' : ({ s with
      waitingList := s.waitingList.erase p
      status := Function.update s.status p .running } : Kernel).childByPid p (s.pid r) = none := hx
  simp only [exitToParent,listDetach_mem hw,ok_bind,hx',listDetach_none,error_bind]

/-- Behind the loop the process has no children, and the family is intact. -/
theorem Inv.family_handedOver (h : Inv s) (hr : s.running = some r) (hi : s.initPcb = some i)
    (hir : i ≠ r ∨ s.children r = []) :
    Family s.pcbAllocator.Allocated s.pcbPtrAllocator.Allocated (handedOver s.children i r)
      s.childPcb s.parent s.zombieList ∧ handedOver s.children i r r = [] := by
  by_cases hnil : s.children r = []
  · rw [handedOver_nil hnil]
    exact ⟨h.family,hnil⟩
  · have hne := hir.resolve_right hnil
    obtain ⟨j,hj,hjA,hjp⟩ := h.hasInit
    cases Option.some.inj (hj.symm.trans hi)
    have hiZ : i ∉ s.zombieList := fun hz => h.family.zombieParent i hjA hz hjp
    have hp := h.placement
    rw [hr] at hp
    refine ⟨h.family.handAllOver hp.allocated_running hjA hne hiZ hjp,?_⟩
    unfold handedOver
    rw [Function.update_of_ne hne.symm,Function.update_self]

theorem Inv.replaced (h : Inv s) (hr : s.running = some r) (hi : s.initPcb = some i)
    (hir : i ≠ r ∨ s.children r = []) (hp : s.parent r = some p)
    (hready : s.readyList = next :: rest) :
    Inv ((s.exiting i r p value).replaced next rest) := by
  obtain ⟨hfam,hnil⟩ := h.family_handedOver hr hi hir
  have hplace := h.placement
  rw [hr,hready] at hplace
  refine { h with placement := hplace.die.dispatch.markRunning, family := hfam.die hnil ?_ }
  rw [hp]
  exact Option.some_ne_none p

theorem Inv.collected (h : Inv s) (hr : s.running = some r) (hi : s.initPcb = some i)
    (hir : i ≠ r ∨ s.children r = []) (hp : s.parent r = some p) (hw : p ∈ s.waitingList)
    (hnum : s.syscallNum p = dsosCallWait) (hx : x ∈ handedOver s.children i r p)
    (hxr : s.childPcb x = r) (hL : L.Linked s.pcbAllocator.Allocated)
    (hM : M.Linked s.pcbAllocator.Allocated)
    (hobj : M.objectsList = s.messagequeues.objectsList) :
    Inv ((s.exiting i r p value).collected r p x L M) := by
  obtain ⟨hfam,hnil⟩ := h.family_handedOver hr hi hir
  have hplace := h.placement
  rw [hr] at hplace
  have hpar : s.parent r ≠ none := by
    rw [hp]
    exact Option.some_ne_none p
  have hrZ : r ∈ listAppend s.zombieList r := mem_listAppend.mpr (Or.inr rfl)
  have hal := Pool.allocated_releaseBlock hplace.allocated_running
  have hsub : ∀ q, (s.pcbAllocator.releaseBlock r).Allocated q → s.pcbAllocator.Allocated q :=
    fun q hq => ((hal q).mp hq).2
  -- the fields are read off the record once, and not in each of the parts
  unfold Kernel.collected exiting
  dsimp only [setReturnValue,reparented,sendSignal,record,setRetvalue,storeResult]
  refine ⟨⟨?_,?_,?_,?_,h.noTimer,?_,?_,?_⟩,?_⟩
  · exact (hplace.die.resume hw).free hrZ hal
  · exact (hfam.die hnil hpar).collect (h.placement.allocated_waiting hw) hx hxr hrZ hal
      (fun y _ hE => hE)
  · exact h.identity.mono hsub
  · exact h.timers.wakeWaiter h.placement.waitingNodup hnum
  · exact hL.mono hsub
  · exact hM.mono hsub
  · have hmail := h.mailboxes
    rw [← hobj] at hmail
    exact hmail
  · exact h.hasInit.free hpar hal

end DisastrOS.Kernel
