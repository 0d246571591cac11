import DisastrOS.Behaviour.Exit
import DisastrOS.Linked.ProcessLists

/-! # The process system calls on links do what the handlers do

The running process is on no list when its handler starts.
-/
namespace DisastrOS

/-- The state after one pass of the reparenting loop. -/
def Kernel.handedOn (s : Kernel) (i r x : ℕ) (rest : List ℕ) : Kernel :=
  let s := { s with children := Function.update s.children r rest }
  let s := { s with children := Function.update s.children i (listAppend (s.children i) x) }
  s.sendSignal (s.childPcb x) dsosSighup

/-- The state with other timers. -/
def Kernel.withTimers (s : Kernel) (timerList : List ℕ) (pool : Pool maxNumProcesses) : Kernel :=
  { s with
    timerList := timerList
    timerItemAllocator := pool }

namespace LinkedKernel
open Refinement

variable {L : LinkedKernel} {s : Kernel} {p r n : ℕ}

namespace Implements

theorem pcbAlloc (h : L.Implements s) : Refines Fault.Unchecked Taken L.pcbAlloc s.pcbAlloc := by
  unfold LinkedKernel.pcbAlloc Kernel.pcbAlloc
  rw [h.fields]
  cases hb : s.pcbAllocator.getBlock with
  | none =>
    simp only [Kernel.fields,hb]
    exact .error _
  | some b =>
    obtain ⟨p,pool⟩ := b
    simp only [Kernel.fields,hb]
    refine .ok ⟨⟨rfl,h.pcbs.clear hb,h.children.listInit p,h.timers,h.resources.initProcess p,
      h.messagequeues.initProcess p,h.messages⟩,?_,h.pcbs.free hb⟩
    exact ((Pool.getBlock_eq_some hb).2.2 p).mpr (Or.inl rfl)

theorem addChild (h : L.Implements s) (hp : s.Unlisted p) (running : ℕ) :
    Refines Fault.Unchecked (fun L' s' => L'.Implements s' ∧ s'.Unlisted p)
      (L.addChild running p) (s.addChild running p) := by
  unfold LinkedKernel.addChild Kernel.addChild Kernel.pcbPtrAlloc
  rw [h.fields]
  cases hb : s.pcbPtrAllocator.getBlock with
  | none =>
    simp only [Kernel.fields,hb]
    exact .error _
  | some b =>
    simp only [Kernel.fields,hb,ok_bind]
    exact .ok ⟨{ h with fields := rfl, children := h.children.append_new hb running },
      hp.allocated,hp.absent⟩

theorem createChild (h : L.Implements s) (running : ℕ) :
    Refines Fault.Unchecked ImplementsWith (L.createChild running) (s.createChild running) := by
  unfold LinkedKernel.createChild Kernel.createChild
  apply h.pcbAlloc.bind
  rintro _ _ @⟨p,L,s,h,hp⟩
  have hchild : ({ L with fields := { L.fields with
      status := Function.update L.fields.status p .ready
      parent := Function.update L.fields.parent p (some running) } } : LinkedKernel).Implements
      { s with
        status := Function.update s.status p .ready
        parent := Function.update s.parent p (some running) } := by
    rw [h.fields]
    exact { h with fields := rfl }
  apply (hchild.addChild ⟨hp.allocated,hp.absent⟩ running).bind
  rintro L s ⟨h,hp⟩
  have hready := h.appendReady hp
  have hpid : (L.appendPcb .ready p).fields.pid p = s.pid p := by
    rw [hready.fields]
    rfl
  refine .ok ?_
  rw [hpid]
  exact .intro (hready.setRetvalue running (s.pid p))

theorem internalFork (h : L.Implements s) (running : ℕ) :
    Refines Fault.Unchecked Implements (L.internalFork running) (s.internalFork running) := by
  unfold LinkedKernel.internalFork Kernel.internalFork
  apply (h.createChild running).bind
  rintro _ _ ⟨h'⟩
  exact .ok h'

theorem internalSpawn (h : L.Implements s) (running : ℕ) :
    Refines Fault.Unchecked Implements (L.internalSpawn running) (s.internalSpawn running) := by
  unfold LinkedKernel.internalSpawn Kernel.internalSpawn
  apply (h.createChild running).bind
  rintro _ _ ⟨h'⟩
  refine .ok ?_
  rw [h'.fields]
  exact { h' with fields := rfl }

theorem internalSleep (h : L.Implements s) (hn : maxNumProcesses ≤ n) (hr : s.Unlisted r) :
    Refines Fault.Unchecked Implements (L.internalSleep r n) (s.internalSleep r) := by
  obtain ⟨o,hgo,hrel⟩ := h.goToSleep hn hr (s.syscallArgs r 0)
  have hargs : L.fields.syscallArgs r 0 = s.syscallArgs r 0 := by
    rw [h.fields]
    rfl
  have htimer : (L.fields.timer r).isSome ↔ (s.timer r).isSome := by
    rw [h.fields]
    rfl
  unfold LinkedKernel.internalSleep Kernel.internalSleep
  refine Refines.ite htimer (.ok (h.setRetvalue r _)) ?_
  rw [hargs,hgo,ok_bind]
  cases hk : s.goToSleep r (s.syscallArgs r 0) with
  | none =>
    rw [hk] at hrel
    cases hrel
    exact .ok (h.setRetvalue r _)
  | some t =>
    rw [hk] at hrel
    cases hrel with
    | some h' => exact .ok h'

/-- The scan of the children ends, at the one at which it ends on the sequence. -/
theorem scanChildren_eq (h : L.Implements s) (pidToWait : ℤ) {l : List ℕ} (awaited : Option ℕ)
    (hl : Links.Chained L.children.next l none) (hn : l.length ≤ n) :
    L.scanChildren pidToWait n awaited l.head? = .ok (s.scanChildren pidToWait awaited l) := by
  induction l generalizing n awaited with
  | nil => cases n <;> rfl
  | cons x l ih =>
    obtain ⟨m,rfl⟩ : ∃ m, n = m + 1 := ⟨n - 1,by simp at hn; omega⟩
    have hnext := hl.1
    rw [Option.or_none] at hnext
    have hstops : L.fields.stopsScan pidToWait x = s.stopsScan pidToWait x := by
      rw [h.fields]
      rfl
    simp only [List.head?_cons,LinkedKernel.scanChildren,Kernel.scanChildren,hstops]
    by_cases hstop : s.stopsScan pidToWait x = true
    · rw [if_pos hstop,if_pos hstop]
    · rw [if_neg hstop,if_neg hstop,hnext]
      exact ih (some x) hl.2 (by simpa using hn)

theorem reap (h : L.Implements s) (running x : ℕ) (result : ℤ) :
    Refines Fault.Unchecked Implements (L.reap running x result) (s.reap running x result) := by
  unfold LinkedKernel.reap Kernel.reap
  apply (h.children.listDetach running (some x)).bind
  rintro _ _ @⟨x,children,hx,_,hdetach⟩
  have hchildren := (h.children.detaches hdetach).release hx hdetach.unlinked.absent
  have h' : ({ L with
      fields := { L.fields with pcbPtrAllocator := L.fields.pcbPtrAllocator.releaseBlock x }
      children := children } : LinkedKernel).Implements
      { s with
        children := Function.update s.children running ((s.children running).erase x)
        pcbPtrAllocator := s.pcbPtrAllocator.releaseBlock x } := by
    rw [h.fields]
    exact { h with fields := rfl, children := hchildren }
  rw [h.fields] at h' ⊢
  apply (h'.detachPcb .zombie (some (s.childPcb x))).bind
  rintro _ _ @⟨c,heap,hc,_,hpcbs,habsent⟩
  have hzombies := hpcbs.release hc habsent
  unfold Kernel.pcbs at hzombies
  rw [update_pcbLists_zombie] at hzombies
  exact .ok { h' with fields := rfl, pcbs := hzombies }

theorem blockInWait (h : L.Implements s) (hr : s.Unlisted r) :
    Refines Fault.Unchecked Implements (L.blockInWait r) (s.blockInWait r) := by
  unfold LinkedKernel.blockInWait Kernel.blockInWait
  apply (h.moveToWaiting hr).takeReady.bind
  rintro _ _ ⟨h',_⟩
  exact .ok (h'.setRunning _)

theorem internalWait (h : L.Implements s) (hn : maxNumProcesses ≤ n) (hr : s.Unlisted r) :
    Refines Fault.Unchecked Implements (L.internalWait r n) (s.internalWait r) := by
  have hnil : L.children.first r = none ↔ s.children r = [] := by
    rw [h.children.holds.first,List.head?_eq_none_iff]
  have hscan := h.scanChildren_eq (s.syscallArgs r 0) none (h.children.holds.linked r).forward
    ((h.children.length_le r).trans hn)
  unfold LinkedKernel.internalWait Kernel.internalWait
  refine Refines.ite hnil (.ok (h.setRetvalue r _)) ?_
  rw [h.fields,h.children.holds.first]
  simp only [Kernel.fields,hscan,ok_bind]
  cases s.scanChildren (s.syscallArgs r 0) none (s.children r) with
  | none => exact Refines.ite Iff.rfl (.ok (h.setRetvalue r _)) (h.blockInWait hr)
  | some x => exact Refines.ite Iff.rfl (h.reap r x _) (h.blockInWait hr)

/-- One pass of the reparenting loop. -/
theorem reparent_pass (h : L.Implements s) {x : ℕ} {rest : List ℕ} (hl : s.children r = x :: rest)
    (i : ℕ) : ∃ children, L.children.listDetach r (some x) = .ok (x,children) ∧
      ({ L with
        fields := L.fields.sendSignal (L.fields.childPcb x) dsosSighup
        children := children.append i x } : LinkedKernel).Implements (s.handedOn i r x rest) := by
  have hx : x ∈ s.children r := by
    rw [hl]
    exact List.mem_cons_self
  obtain ⟨children,hd⟩ := h.children.holds.detaches r hx
  have hstored := (h.children.detaches hd).append (h.children.allocated r x hx) hd.unlinked i
  rw [hl,List.erase_cons_head] at hstored
  refine ⟨children,hd.result,{ h with fields := ?_, children := hstored }⟩
  rw [h.fields]
  rfl

theorem reparent (h : L.Implements s) (hr : s.Unlisted r) {i : ℕ}
    (hir : i ≠ r ∨ s.children r = []) (hn : (s.children r).length ≤ n) :
    Refines Fault.Unchecked (fun L' s' => L'.Implements s' ∧ s'.Unlisted r)
      (LinkedKernel.reparent i r n L) (Kernel.reparent i r (s.children r).length s) := by
  have hfirst := h.children.holds.first r
  induction n generalizing L s with
  | zero =>
    have hnil : s.children r = [] := List.eq_nil_of_length_eq_zero (Nat.le_zero.mp hn)
    rw [hnil,List.head?_nil] at hfirst
    unfold LinkedKernel.reparent Kernel.reparent
    simp only [hnil,hfirst,List.length_nil]
    exact .ok ⟨h,hr⟩
  | succ n ih =>
    cases hl : s.children r with
    | nil =>
      rw [hl,List.head?_nil] at hfirst
      unfold LinkedKernel.reparent Kernel.reparent
      simp only [hl,hfirst,List.length_nil]
      exact .ok ⟨h,hr⟩
    | cons x rest =>
      have hne : i ≠ r := hir.resolve_right (by rw [hl]; exact List.cons_ne_nil x rest)
      obtain ⟨children,hdetach,h'⟩ := h.reparent_pass hl i
      have hrest : (s.handedOn i r x rest).children r = rest := by
        simp [Kernel.handedOn,Kernel.sendSignal,Function.update_of_ne (Ne.symm hne)]
      have hnext := ih h' ⟨hr.allocated,hr.absent⟩ (Or.inl hne) (by rw [hrest]; simpa [hl] using hn)
        (h'.children.holds.first r)
      rw [hrest] at hnext
      rw [hl,List.head?_cons] at hfirst
      unfold LinkedKernel.reparent Kernel.reparent
      simp only [hl,hfirst,List.length_cons,hdetach,ok_bind]
      exact hnext

/-- A process that hands its children to itself never ends. -/
theorem reparent_self (h : L.Implements s) (hne : s.children r ≠ []) (n : ℕ) :
    LinkedKernel.reparent r r n L = .error .diverges := by
  have hfirst := h.children.holds.first r
  obtain ⟨x,rest,hl⟩ := List.exists_cons_of_ne_nil hne
  rw [hl,List.head?_cons] at hfirst
  induction n generalizing L s x rest with
  | zero =>
    unfold LinkedKernel.reparent
    simp only [hfirst]
  | succ n ih =>
    obtain ⟨children,hdetach,h'⟩ := h.reparent_pass hl r
    have hchildren : (s.handedOn r r x rest).children r = rest ++ [x] := by
      simp [Kernel.handedOn,Kernel.sendSignal,listAppend]
    have hne' : (s.handedOn r r x rest).children r ≠ [] := by
      rw [hchildren]
      simp
    obtain ⟨y,rest',hl'⟩ := List.exists_cons_of_ne_nil hne'
    have hfirst' := h'.children.holds.first r
    rw [hl',List.head?_cons] at hfirst'
    unfold LinkedKernel.reparent
    simp only [hfirst,hdetach,ok_bind]
    exact ih h' hne' y rest' hfirst' hl'

/-- The loop over the timers goes on behind what it has passed, whether it has freed it or not. -/
theorem releaseTimers_from {front rest : List ℕ} {pool : Pool maxNumProcesses}
    (h : L.Implements (s.withTimers (front ++ rest) pool)) (hn : rest.length ≤ n) (r : ℕ) :
    ∃ L', LinkedKernel.releaseTimers r n rest.head? L = .ok L' ∧
      L'.Implements (s.withTimers (front ++ rest.filter fun t => s.timerPcb t ≠ r)
        ((rest.filter fun t => s.timerPcb t = r).foldl Pool.releaseBlock pool)) := by
  induction rest generalizing L front pool n with
  | nil => exact ⟨L,by cases n <;> rfl,h⟩
  | cons t rest ih =>
    obtain ⟨m,rfl⟩ : ∃ m, n = m + 1 := ⟨n - 1,by simp at hn; omega⟩
    have hm : rest.length ≤ m := by simpa using hn
    have hnext : L.timers.next t = rest.head? := (h.timers.holds.linked ()).next_eq
    have howner : L.fields.timerPcb t = s.timerPcb t := by
      rw [h.fields]
      rfl
    simp only [List.head?_cons,LinkedKernel.releaseTimers,hnext,howner]
    by_cases ht : s.timerPcb t = r
    · have hmem : t ∈ front ++ t :: rest := by simp
      obtain ⟨timers,hd⟩ := h.timers.holds.detaches () hmem
      have hstored := (h.timers.detaches hd).release (h.timers.allocated () t hmem)
        hd.unlinked.absent
      have hnot : t ∉ front := by
        have hnodup := (h.timers.holds.linked ()).nodup
        exact fun hf => (List.nodup_append.mp hnodup).2.2 t hf t List.mem_cons_self rfl
      have herase : (front ++ t :: rest).erase t = front ++ rest := by
        rw [List.erase_append_right _ hnot,List.erase_cons_head]
      rw [Function.update_eq_const_of_subsingleton] at hstored
      have h' : ({ L with
          fields := { L.fields with
            timerItemAllocator := L.fields.timerItemAllocator.releaseBlock t }
          timers := timers } : LinkedKernel).Implements
          (s.withTimers (front ++ rest) (pool.releaseBlock t)) := by
        rw [h.fields]
        exact { h with fields := rfl, timers := herase ▸ hstored }
      obtain ⟨L',hok,hL'⟩ := ih h' hm
      rw [if_pos ht,hd.result,ok_bind]
      refine ⟨L',hok,?_⟩
      simpa [ht] using hL'
    · have h' : L.Implements (s.withTimers ((front ++ [t]) ++ rest) pool) := by
        rwa [List.append_assoc,List.singleton_append]
      obtain ⟨L',hok,hL'⟩ := ih h' hm
      rw [if_neg ht]
      refine ⟨L',hok,?_⟩
      simpa [ht] using hL'

theorem releaseTimers (h : L.Implements s) (hn : maxNumProcesses ≤ n) (r : ℕ) :
    ∃ L', LinkedKernel.releaseTimers r n (L.timers.first ()) L = .ok L' ∧
      L'.Implements (s.releaseTimers r) := by
  have hall : L.Implements (s.withTimers ([] ++ s.timerList) s.timerItemAllocator) := h
  rw [h.timers.holds.first]
  exact hall.releaseTimers_from ((h.timers.length_le ()).trans hn) r

theorem childByPid_eq (h : L.Implements s) (hn : maxNumProcesses ≤ n) (p : ℕ) (pid : ℤ) :
    L.childByPid p pid n = .ok (s.childByPid p pid) := by
  have hchain := (h.children.holds.linked p).forward
  unfold LinkedKernel.childByPid ListHeap.pcbPtrByPID
  rw [h.children.holds.first,hchain.findFrom_eq ((h.children.length_le p).trans hn),h.fields]
  rfl

theorem exitToParent (h : L.Implements s) (hn : maxNumProcesses ≤ n) (r p : ℕ) :
    Refines Fault.Unchecked Implements (L.exitToParent r p n) (s.exitToParent r p) := by
  unfold LinkedKernel.exitToParent Kernel.exitToParent
  apply (h.detachPcb .waiting (some p)).bind
  rintro _ _ @⟨p,heap,_,_,hpcbs,_⟩
  unfold Kernel.pcbs at hpcbs
  rw [update_pcbLists_waiting] at hpcbs
  have hwoken : ({ L with pcbs := heap } : LinkedKernel).Implements
      { s with waitingList := s.waitingList.erase p } := { h with pcbs := hpcbs }
  dsimp -zeta only
  extract_lets L₁ s₁
  have h₁ : L₁.Implements s₁ := hwoken.setStatus p .running
  clear_value L₁ s₁
  have hself := h₁.childByPid_eq hn p (s₁.pid r)
  rw [h₁.fields]
  refine .ok_left hself ?_
  -- the entry of the process leaves its parent's children
  apply (h₁.children.listDetach p _).bind
  rintro _ _ @⟨x,children,_,_,hdetach⟩
  extract_lets L₂ s₂ s₃ s₄
  have h₂ : L₂.Implements s₃ := { h₁ with fields := rfl, children := h₁.children.detaches hdetach }
  obtain ⟨L₃,htimers,h₃⟩ := h₂.releaseTimers hn r
  refine .ok_left htimers ?_
  have h₄ : L₃.Implements s₄ := h₃
  clear_value s₄
  -- its descriptors are released
  rw [DescriptorLayer.releaseResources_eq]
  apply (h₄.resources.releaseAll r ((h₄.resources.descriptors.length_le r).trans hn)).bind
  intro resources R hresources
  dsimp only
  rw [DescriptorLayer.releaseMessagequeues_eq]
  apply (h₄.messagequeues.releaseAll r ((h₄.messagequeues.descriptors.length_le r).trans hn)).bind
  intro messagequeues M hmessagequeues
  apply (h₄.detachPcb .zombie (some r)).bind
  rintro _ _ @⟨r,heap,hr,_,hpcbs,habsent⟩
  have hzombies := hpcbs.release hr habsent
  unfold Kernel.pcbs at hzombies
  rw [update_pcbLists_zombie] at hzombies
  dsimp only
  rw [h₄.fields]
  exact .ok { h₄ with
    fields := rfl
    pcbs := hzombies
    resources := hresources
    messagequeues := hmessagequeues }

theorem exitToReady (h : L.Implements s) :
    Refines Fault.Unchecked Implements L.exitToReady s.exitToReady := by
  unfold LinkedKernel.exitToReady Kernel.exitToReady
  apply h.takeReady.bind
  rintro _ _ @⟨p,L,s,h',_⟩
  exact .ok ((h'.setStatus p .running).setRunning (some p))

theorem becomeZombie (h : L.Implements s) (hn : maxNumProcesses ≤ n) (hr : s.Unlisted r)
    (value : ℤ) :
    Refines Fault.Unchecked Implements (L.becomeZombie r value n) (s.becomeZombie r value) := by
  unfold LinkedKernel.becomeZombie Kernel.becomeZombie
  extract_lets L₁ s₁
  have h₁ : L₁.Implements s₁ := (h.setStatus r .zombie).appendZombie ⟨hr.allocated,hr.absent⟩
  clear_value L₁ s₁
  have hparent : L₁.fields.parent r = s₁.parent r := by
    rw [h₁.fields]
    rfl
  rw [hparent]
  cases s₁.parent r with
  | none => exact .error _
  | some p =>
    dsimp -zeta only
    extract_lets u L₂ s₂
    have h₂ : L₂.Implements s₂ := { h₁ with fields := by simp only [L₂,u,h₁.fields]; rfl }
    clear_value L₂ s₂
    have hwakes : L₂.fields.wakesParent r p = s₂.wakesParent r p := by
      rw [h₂.fields]
      rfl
    rw [hwakes]
    exact Refines.ite Iff.rfl (h₂.exitToParent hn r p) h₂.exitToReady

theorem internalExit (h : L.Implements s) (hn : maxNumProcesses ≤ n) (hr : s.Unlisted r) :
    Refines Fault.Unchecked Implements (L.internalExit r n) (s.internalExit r) := by
  unfold LinkedKernel.internalExit Kernel.internalExit
  rw [h.fields]
  extract_lets v L₁ w s₁
  have h₁ : L₁.Implements s₁ := { h with fields := rfl }
  have hr₁ : s₁.Unlisted r := ⟨hr.allocated,hr.absent⟩
  have hv : v = w := rfl
  clear_value L₁ s₁ v w
  subst hv
  have hinit : L₁.fields.initPcb = s₁.initPcb := by
    rw [h₁.fields]
    rfl
  rw [hinit]
  cases s₁.initPcb with
  | none => exact .error _
  | some i =>
    by_cases hir : i ≠ r ∨ s₁.children r = []
    · apply (h₁.reparent hr₁ hir ((h₁.children.length_le r).trans hn)).bind
      rintro L₂ s₂ ⟨h₂,hr₂⟩
      exact h₂.becomeZombie hn hr₂ v
    · obtain ⟨rfl,hne⟩ : i = r ∧ s₁.children r ≠ [] := by simpa using hir
      simp only [h₁.reparent_self hne,Kernel.reparent_self hne,error_bind]
      exact .error _

end Implements

end LinkedKernel

end DisastrOS
