import DisastrOS.Behaviour.Exit
import DisastrOS.Behaviour.Messages

/-! # What a handler can do

All states that a handler can lead to from a state that satisfies the invariant, and all
ways in which it can fail. What is shown about handlers is derived from the two lists.
-/
namespace DisastrOS

namespace Kernel

/-- The states in which the scheduler can end while `r` runs. -/
inductive Scheduled (s : Kernel) (r : ℕ) : Kernel → Prop
  | stay {u : Kernel} (hw : Woken s u) (hu : Inv u) (hready : u.readyList = []) : Scheduled s r u
  | rotate {u : Kernel} {next : ℕ} {rest : List ℕ} (hw : Woken s u) (hu : Inv u)
      (hready : u.readyList = next :: rest) : Scheduled s r (u.rotated r next rest)

/-- The states in which the handler of a system call of `r` can end. -/
inductive Effect (s : Kernel) (r : ℕ) : Syscall → Kernel → Prop
  | preempt {u : Kernel} (hs : Scheduled s r u) : Effect s r .preempt u
  | fork {p x : ℕ} {pool entries : Pool maxNumProcesses}
      (hb : s.pcbAllocator.getBlock = some (p,pool))
      (hx : s.pcbPtrAllocator.getBlock = some (x,entries)) :
      Effect s r .fork (s.withChild r p pool x entries)
  | spawn {p x : ℕ} {pool entries : Pool maxNumProcesses}
      (hb : s.pcbAllocator.getBlock = some (p,pool))
      (hx : s.pcbPtrAllocator.getBlock = some (x,entries)) (c : Context)
      (hc : c.point ≠ .syscall) :
      Effect s r .spawn { s.withChild r p pool x entries with
        cpuState := Function.update s.cpuState p (some c) }
  | noChild (hnil : s.children r = []) : Effect s r .wait (s.setRetvalue r dsosEWait)
  | reap {x : ℕ} (hx : s.awaitedEntry r = some x) (hz : s.status (s.childPcb x) = .zombie) :
      Effect s r .wait (s.reaped r x)
  | block {x next : ℕ} {rest : List ℕ} (hx : s.awaitedEntry r = some x)
      (hz : s.status (s.childPcb x) ≠ .zombie) (hready : s.readyList = next :: rest) :
      Effect s r .wait ((s.blocked r).dispatched next rest)
  | collect {i p x : ℕ} {L M : DescriptorLayer} (hi : s.initPcb = some i)
      (hir : i ≠ r ∨ s.children r = []) (hp : s.parent r = some p)
      (hwakes : s.wakesParent r p) (hx : x ∈ handedOver s.children i r p) (hxr : s.childPcb x = r)
      (hL : L.Linked s.pcbAllocator.Allocated) (hLr : s.resources.Released L r)
      (hM : M.Linked s.pcbAllocator.Allocated) (hMr : s.messagequeues.Released M r) :
      Effect s r .exit ((s.exiting i r p (s.syscallArgs r 0)).collected r p x L M)
  | replace {i p next : ℕ} {rest : List ℕ} (hi : s.initPcb = some i)
      (hir : i ≠ r ∨ s.children r = []) (hp : s.parent r = some p)
      (hwakes : ¬ s.wakesParent r p) (hready : s.readyList = next :: rest) :
      Effect s r .exit ((s.exiting i r p (s.syscallArgs r 0)).replaced next rest)
  | sleep {u : Kernel} (hslept : Slept s r u) (hu : Inv u) (hready : s.readyList = []) :
      Effect s r .sleep u
  | sleepNext {u : Kernel} {next : ℕ} {rest : List ℕ} (hslept : Slept s r u) (hu : Inv u)
      (hready : s.readyList = next :: rest) : Effect s r .sleep (u.dispatched next rest)
  | resource {c : Syscall} {L : DescriptorLayer} {v : ℤ}
      (hc : c = .openResource ∨ c = .closeResource ∨ c = .destroyResource)
      (hL : L.Linked s.pcbAllocator.Allocated) (hkeep : s.resources.Keeps L (· = r)) :
      Effect s r c ({ s with resources := L }.setRetvalue r v)
  | queue {c : Syscall} {L : DescriptorLayer} {v : ℤ} (hc : c = .mqOpen ∨ c = .mqClose)
      (hL : L.Linked s.pcbAllocator.Allocated)
      (hobj : L.objectsList = s.messagequeues.objectsList)
      (hkeep : s.messagequeues.Keeps L (· = r)) :
      Effect s r c ({ s with messagequeues := L }.setRetvalue r v)
  | createQueue {q : ℕ} {L : DescriptorLayer} {v : ℤ} (hL : L.Linked s.pcbAllocator.Allocated)
      (hq : q ∉ s.messagequeues.objectsList)
      (hobj : L.objectsList = listAppend s.messagequeues.objectsList q)
      (hkeep : s.messagequeues.Keeps L (· = r)) :
      Effect s r .mqOpen (({ s with messagequeues := L }.initQueue (s.syscallArgs r 2)
        (s.syscallArgs r 3) q).setRetvalue r v)
  | unlinkRefused {v : ℤ} : Effect s r .mqUnlink (s.setRetvalue r v)
  | unlink {q : ℕ} {pool : Pool maxNumMessages} (hq : q ∈ s.messagequeues.objectsList)
      (hnil : s.messagequeues.descriptorsPtrs q = [])
      (hpool : ∀ k, pool.Allocated k ↔ s.messageAllocator.Allocated k ∧ k ∉ s.messages q) :
      Effect s r .mqUnlink (({ s with
        messagequeues := s.messagequeues.destroyed q }.drained q pool).setRetvalue r 0)
  | sendRefused {v : ℤ} (hblocks : ¬ s.SendBlocks r) (hv : v < 0) :
      Effect s r .mqSend (s.setRetvalue r v)
  | sendBlocks {u : Kernel} {next : ℕ} {rest : List ℕ} (hblocks : s.SendBlocks r)
      (hslept : Slept s r u) (hu : Inv u) (hready : s.readyList = next :: rest) :
      Effect s r .mqSend
        (((u.dispatched next rest).record (.slept r)).setRetvalue next dsosEMessagequeueFull)
  | send {q m : ℕ} {pool : Pool maxNumMessages} {text : List UInt8} (hblocks : ¬ s.SendBlocks r)
      (hq : q ∈ s.queueOf r) (hb : s.messageAllocator.getBlock = some (m,pool))
      (hc : s.copyIn (s.syscallArgs r 1) = .ok text) :
      Effect s r .mqSend (s.appended r q m pool text)
  | receiveRefused {v : ℤ} (hblocks : ¬ s.ReceiveBlocks r) (hv : v < 0) :
      Effect s r .mqReceive (s.setRetvalue r v)
  | receiveBlocks {u : Kernel} {q next : ℕ} {rest : List ℕ} (hblocks : s.ReceiveBlocks r)
      (hq : q ∈ s.queueOf r) (hslept : Slept (s.sizeChecked r q) r u) (hu : Inv u)
      (hready : s.readyList = next :: rest) :
      Effect s r .mqReceive
        (((u.dispatched next rest).record (.slept r)).setRetvalue next dsosEMessagequeueEmpty)
  | receive {q m : ℕ} {rest : List ℕ} (hblocks : ¬ s.ReceiveBlocks r) (hq : q ∈ s.queueOf r)
      (hcons : s.messages q = m :: rest) :
      Effect s r .mqReceive (s.removed r q m rest (s.syscallArgs r 1))
  | shutdown : Effect s r .shutdown { s with shutdownNow := true }

/-- The ways in which the handler of a system call of `r` can fail. -/
inductive Fails (s : Kernel) (r : ℕ) : Syscall → Fault → Prop
  | noBlock {c : Syscall} (hc : c = .fork ∨ c = .spawn ∨ c = .openResource ∨ c = .mqOpen) :
      Fails s r c .nullPointer
  | waitIdle {x : ℕ} (hx : s.awaitedEntry r = some x) (hz : s.status (s.childPcb x) ≠ .zombie)
      (hready : s.readyList = []) : Fails s r .wait .detachNull
  | exitSelf (hi : s.initPcb = some r) (hne : s.children r ≠ []) : Fails s r .exit .diverges
  | exitOrphan (hp : s.parent r = none) : Fails s r .exit .nullPointer
  | exitUnlisted {i p : ℕ} (hi : s.initPcb = some i) (hir : i ≠ r ∨ s.children r = [])
      (hp : s.parent r = some p) (hwakes : s.wakesParent r p)
      (hx : ∀ x ∈ handedOver s.children i r p, s.childPcb x ≠ r) : Fails s r .exit .detachNull
  | exitIdle {i p : ℕ} (hi : s.initPcb = some i) (hir : i ≠ r ∨ s.children r = [])
      (hp : s.parent r = some p) (hwakes : ¬ s.wakesParent r p) (hready : s.readyList = []) :
      Fails s r .exit .detachNull
  | sendIdle (hblocks : s.SendBlocks r) (hready : s.readyList = []) : Fails s r .mqSend .nullRunning
  | sendText {f : Fault} (hblocks : ¬ s.SendBlocks r) (hf : f = .nullPointer ∨ f = .overrun) :
      Fails s r .mqSend f
  | receiveIdle (hblocks : s.ReceiveBlocks r) (hready : s.readyList = []) :
      Fails s r .mqReceive .nullRunning
  | receiveNull (hblocks : ¬ s.ReceiveBlocks r) : Fails s r .mqReceive .nullPointer

/-- The two together. -/
inductive Outcome (s : Kernel) (r : ℕ) (c : Syscall) : Except Fault Kernel → Prop
  | ok {t : Kernel} (he : Effect s r c t) : Outcome s r c (.ok t)
  | error {f : Fault} (hf : Fails s r c f) : Outcome s r c (.error f)

variable {s t u : Kernel} {r p : ℕ} {c : Syscall} {f : Fault}

/-- A number outside the range of the table has no handler. -/
theorem syscallVector_of_range {num : ℤ} (hnum : num < 0 ∨ dsosMaxSyscalls < num) :
    syscallVector num.toNat = none := by
  have hbig : num.toNat = 0 ∨ 32 < num.toNat := by
    unfold dsosMaxSyscalls at hnum
    omega
  unfold syscallVector
  split <;> first | rfl | omega

theorem syscallNum_wait (hc : syscallVector (s.syscallNum r).toNat = some .wait) :
    s.syscallNum r = dsosCallWait := syscallVector_eq_some hc

theorem sleepsOnTimer_of_syscall
    (hc : syscallVector (s.syscallNum r).toNat = some .sleep ∨
      syscallVector (s.syscallNum r).toNat = some .mqSend ∨
      syscallVector (s.syscallNum r).toNat = some .mqReceive) :
    SleepsOnTimer (s.syscallNum r) := by
  rcases hc with hc | hc | hc
  · exact Or.inl (syscallVector_eq_some hc)
  · exact Or.inr (Or.inl (syscallVector_eq_some hc))
  · exact Or.inr (Or.inr (syscallVector_eq_some hc))

theorem internalSchedule_scheduled (h : Inv s) (hr : s.running = some r)
    (hok : s.internalSchedule = .ok t) : Scheduled s r t := by
  obtain ⟨u,hu,hw,hcases⟩ := internalSchedule_spec h hr
  rcases hcases with ⟨hready,hs⟩ | ⟨next,rest,hready,hs⟩
  · cases hs.symm.trans hok
    exact .stay hw hu hready
  · cases hs.symm.trans hok
    exact .rotate hw hu hready

theorem internalPreempt_outcome (h : Inv s) (hr : s.running = some r) :
    Outcome s r .preempt (s.internalPreempt r) := by
  unfold internalPreempt
  obtain ⟨u,hu,hw,⟨hready,hok⟩ | ⟨next,rest,hready,hok⟩⟩ := internalSchedule_spec h hr
  · rw [hok]
    exact .ok (.preempt (.stay hw hu hready))
  · rw [hok]
    exact .ok (.preempt (.rotate hw hu hready))

theorem internalFork_outcome : Outcome s r .fork (s.internalFork r) := by
  unfold internalFork
  rcases createChild_cases s r with herr | ⟨p,pool,x,entries,hb,hx,hok⟩
  · rw [herr]
    exact .error (.noBlock (Or.inl rfl))
  · rw [hok]
    exact .ok (.fork hb hx)

theorem internalSpawn_outcome : Outcome s r .spawn (s.internalSpawn r) := by
  rcases createChild_cases s r with herr | ⟨p,pool,x,entries,hb,hx,_⟩
  · simp only [internalSpawn,herr,error_bind]
    exact .error (.noBlock (Or.inr (Or.inl rfl)))
  · rw [internalSpawn_eq hb hx]
    exact .ok (.spawn hb hx _ (by simp))

theorem internalWait_outcome (h : Inv s) (hr : s.running = some r) :
    Outcome s r .wait (s.internalWait r) := by
  by_cases hnil : s.children r = []
  · rw [internalWait_nil hnil]
    exact .ok (.noChild hnil)
  · obtain ⟨x,hx⟩ := exists_awaitedEntry hnil
    rw [internalWait_eq hx]
    by_cases hz : s.status (s.childPcb x) = .zombie
    · rw [if_pos hz,reap_eq h hr (awaitedEntry_mem hx) hz]
      exact .ok (.reap hx hz)
    · rw [if_neg hz]
      cases hready : s.readyList with
      | nil =>
        rw [blockInWait_nil hready]
        exact .error (.waitIdle hx hz hready)
      | cons next rest =>
        rw [blockInWait_cons hready]
        exact .ok (.block hx hz hready)

/-- The release loops of both layers on a process that is about to be freed. -/
theorem Inv.releaseAll (h : Inv s) (hr : s.pcbAllocator.Allocated r) :
    ∃ L M, s.resources.releaseAll r (s.resources.descriptors r).length = .ok L ∧
      s.messagequeues.releaseAll r (s.messagequeues.descriptors r).length = .ok M ∧
      (L.Linked s.pcbAllocator.Allocated ∧ s.resources.Released L r) ∧
      M.Linked s.pcbAllocator.Allocated ∧ s.messagequeues.Released M r := by
  obtain ⟨L,hL,hLl,hLr⟩ := h.resources.releaseAll hr rfl
  obtain ⟨M,hM,hMl,hMr⟩ := h.messagequeues.releaseAll hr rfl
  exact ⟨L,M,hL,hM,⟨hLl,hLr⟩,hMl,hMr⟩

/-- The branch that wakes the parent: it finds the entry of the process, or not. -/
theorem exitToParent_exiting (h : Inv s) (hr : s.running = some r) {i p : ℕ} (value : ℤ)
    (hi : s.initPcb = some i) (hir : i ≠ r ∨ s.children r = []) (hw : p ∈ s.waitingList) :
    (∃ x L M, x ∈ handedOver s.children i r p ∧ s.childPcb x = r ∧
      (L.Linked s.pcbAllocator.Allocated ∧ s.resources.Released L r) ∧
      (M.Linked s.pcbAllocator.Allocated ∧ s.messagequeues.Released M r) ∧
      (s.exiting i r p value).exitToParent r p =
        .ok ((s.exiting i r p value).collected r p x L M)) ∨
    (∀ x ∈ handedOver s.children i r p, s.childPcb x ≠ r) ∧
      (s.exiting i r p value).exitToParent r p = .error .detachNull := by
  have hrA := h.running_allocated hr
  have hpA := h.placement.allocated_waiting hw
  have hfam := (h.family_handedOver hr hi hir).1
  cases hx : (s.exiting i r p value).childByPid p (s.pid r) with
  | none => exact Or.inr ⟨fun x hxm => childByPid_eq_none hx hxm,exitToParent_none hw hx⟩
  | some x =>
    have hid : ∀ y ∈ handedOver s.children i r p, s.pid (s.childPcb y) = s.pid r →
        s.childPcb y = r := by
      intro y hy he
      exact h.identity.injective _ _ (hfam.childAllocated p hpA y hy) hrA he
    obtain ⟨hxm,hxr⟩ := childByPid_eq_some hid hx
    obtain ⟨L,M,hL,hM,hLs,hMs⟩ := h.releaseAll hrA
    have htimers := h.timers.no_timer (h.not_waiting_running hr)
    have hrZ : r ∈ listAppend s.zombieList r := mem_listAppend.mpr (Or.inr rfl)
    exact Or.inl ⟨x,L,M,hxm,hxr,hLs,hMs,exitToParent_eq hw hx htimers hrZ hL hM⟩

theorem mem_waiting_of_wakesParent (h : Inv s) {p : ℕ} (hwakes : s.wakesParent r p) :
    p ∈ s.waitingList ∧ s.syscallNum p = dsosCallWait ∧
      (s.syscallArgs p 0 = 0 ∨ s.syscallArgs p 0 = s.pid r) := by
  simp only [wakesParent,Bool.and_eq_true,Bool.or_eq_true,decide_eq_true_eq] at hwakes
  exact ⟨(h.placement.waitingStatus p).mpr hwakes.1.1,hwakes.1.2,hwakes.2⟩

/-- A process does not wake itself. -/
theorem ne_of_wakesParent (h : Inv s) (hr : s.running = some r) {p : ℕ}
    (hwakes : s.wakesParent r p) : p ≠ r := by
  rintro rfl
  exact h.not_waiting_running hr (mem_waiting_of_wakesParent h hwakes).1

theorem internalExit_outcome (h : Inv s) (hr : s.running = some r) :
    Outcome s r .exit (s.internalExit r) := by
  obtain ⟨i,hi,_,_⟩ := h.hasInit
  have hst := h.placement.runningStatus r hr
  by_cases hir : i ≠ r ∨ s.children r = []
  · cases hp : s.parent r with
    | none =>
      rw [internalExit_noParent hi hir hp]
      exact .error (.exitOrphan hp)
    | some p =>
      rw [internalExit_eq hi hir hp,wakesParent_exiting hst]
      by_cases hwakes : s.wakesParent r p
      · have hw := (mem_waiting_of_wakesParent h hwakes).1
        rw [if_pos hwakes]
        rcases exitToParent_exiting h hr (s.syscallArgs r 0) hi hir hw with
          ⟨x,L,M,hx,hxr,hL,hM,hex⟩ | ⟨hx,hex⟩
        · rw [hex]
          exact .ok (.collect hi hir hp hwakes hx hxr hL.1 hL.2 hM.1 hM.2)
        · rw [hex]
          exact .error (.exitUnlisted hi hir hp hwakes hx)
      · rw [if_neg hwakes]
        cases hready : s.readyList with
        | nil =>
          have hex := exitToReady_nil (s := s.exiting i r p (s.syscallArgs r 0)) hready
          rw [hex]
          exact .error (.exitIdle hi hir hp hwakes hready)
        | cons next rest =>
          have hex := exitToReady_cons (s := s.exiting i r p (s.syscallArgs r 0)) hready
          rw [hex]
          exact .ok (.replace hi hir hp hwakes hready)
  · obtain ⟨hir,hne⟩ := not_or.mp hir
    cases not_not.mp hir
    rw [internalExit_diverges hi hne]
    exact .error (.exitSelf hi hne)

theorem internalSleep_outcome (h : Inv s) (hr : s.running = some r)
    (hnum : SleepsOnTimer (s.syscallNum r)) : Outcome s r .sleep (s.internalSleep r) := by
  have hnot : ¬ (s.timer r).isSome := by simp [h.noTimer r]
  unfold internalSleep
  rw [if_neg hnot]
  obtain ⟨u,hslept,hu,⟨hready,hgo⟩ | ⟨next,rest,hready,hgo⟩⟩ :=
    goToSleep_spec h hr hnum (s.syscallArgs r 0)
  · rw [hgo]
    exact .ok (.sleep hslept hu hready)
  · rw [hgo]
    exact .ok (.sleepNext hslept hu hready)

theorem internalOpenResource_outcome (h : Inv s) (hr : s.pcbAllocator.Allocated r) :
    Outcome s r .openResource (s.internalOpenResource r) := by
  cases hok : s.internalOpenResource r with
  | error f =>
    cases internalOpenResource_error hok
    exact .error (.noBlock (by simp))
  | ok t =>
    obtain ⟨L,v,hL,hkeep,rfl⟩ := internalOpenResource_ok h hr hok
    exact .ok (.resource (Or.inl rfl) hL hkeep)

theorem internalMqOpen_outcome (h : Inv s) (hr : s.pcbAllocator.Allocated r) :
    Outcome s r .mqOpen (s.internalMqOpen r) := by
  cases hok : s.internalMqOpen r with
  | error f =>
    cases internalMqOpen_error hok
    exact .error (.noBlock (by simp))
  | ok t =>
    obtain ⟨L,v,hL,hkeep,⟨hobj,rfl⟩ | ⟨q,hq,hobj,rfl⟩⟩ := internalMqOpen_ok h hr hok
    · exact .ok (.queue (Or.inl rfl) hL hobj hkeep)
    · exact .ok (.createQueue hL hq hobj hkeep)

theorem internalMqUnlink_outcome (h : Inv s) : Outcome s r .mqUnlink (s.internalMqUnlink r) := by
  rcases internalMqUnlink_ok (r := r) h with ⟨v,heq⟩ | ⟨q,pool,hq,hnil,hpool,heq⟩
  · rw [heq]
    exact .ok .unlinkRefused
  · rw [heq]
    exact .ok (.unlink hq hnil hpool)

theorem internalMqSend_outcome (h : Inv s) (hr : s.running = some r)
    (hnum : SleepsOnTimer (s.syscallNum r)) : Outcome s r .mqSend (s.internalMqSend r) := by
  rcases internalMqSend_cases s r with ⟨hb,v,hv,heq⟩ | ⟨hb,heq⟩ | ⟨hb,q,hp,heq⟩
  · rw [heq]
    exact .ok (.sendRefused hb hv)
  · rw [heq]
    obtain ⟨u,hslept,hu,⟨hready,hbl⟩ | ⟨next,rest,hready,hbl⟩⟩ :=
      blockOnQueue_spec h hr hnum dsosEMessagequeueFull
    · rw [hbl]
      exact .error (.sendIdle hb hready)
    · rw [hbl]
      exact .ok (.sendBlocks hb hslept hu hready)
  · rw [heq]
    cases hok : s.appendMessage r q (s.syscallArgs r 1) with
    | error f => exact .error (.sendText hb (appendMessage_error hok))
    | ok t =>
      obtain ⟨m,pool,text,hm,hc,rfl⟩ := appendMessage_ok hok
      exact .ok (.send hb hp.1 hm hc)

theorem internalMqReceive_outcome (h : Inv s) (hr : s.running = some r)
    (hnum : SleepsOnTimer (s.syscallNum r)) : Outcome s r .mqReceive (s.internalMqReceive r) := by
  rcases internalMqReceive_cases s r with ⟨hb,v,hv,heq⟩ | ⟨hb,q,hq,heq⟩ | ⟨hb,q,hp,heq⟩
  · rw [heq]
    exact .ok (.receiveRefused hb hv)
  · rw [heq]
    obtain ⟨u,hslept,hu,⟨hready,hbl⟩ | ⟨next,rest,hready,hbl⟩⟩ :=
      blockOnQueue_spec (h.sizeChecked r q) hr hnum dsosEMessagequeueEmpty
    · rw [hbl]
      exact .error (.receiveIdle hb hready)
    · rw [hbl]
      exact .ok (.receiveBlocks hb hq hslept hu hready)
  · obtain ⟨m,rest,hcons,hrem⟩ := removeMessage_eq h
      (h.queueOf_mem (h.running_allocated hr) hp.1) hp.2.2 (s.syscallArgs r 1)
    rw [heq,hrem]
    split
    · exact .error (.receiveNull hb)
    · exact .ok (.receive hb hp.1 hcons)

/-- Every handler ends in one of the listed states or fails in one of the listed ways. -/
theorem handler_outcome (h : Inv s) (hr : s.running = some r)
    (hc : syscallVector (s.syscallNum r).toNat = some c) : Outcome s r c (handler c s r) := by
  have hrA := h.running_allocated hr
  cases c with
  | preempt => exact internalPreempt_outcome h hr
  | fork => exact internalFork_outcome
  | wait => exact internalWait_outcome h hr
  | exit => exact internalExit_outcome h hr
  | spawn => exact internalSpawn_outcome
  | sleep => exact internalSleep_outcome h hr (sleepsOnTimer_of_syscall (Or.inl hc))
  | openResource => exact internalOpenResource_outcome h hrA
  | closeResource =>
    obtain ⟨L,v,hL,hkeep,heq⟩ := internalCloseResource_ok h hrA
    rw [handler,heq]
    exact .ok (.resource (Or.inr (Or.inl rfl)) hL hkeep)
  | destroyResource =>
    obtain ⟨L,v,hL,hkeep,heq⟩ := internalDestroyResource_ok (r := r) h
    rw [handler,heq]
    exact .ok (.resource (Or.inr (Or.inr rfl)) hL hkeep)
  | mqOpen => exact internalMqOpen_outcome h hrA
  | mqClose =>
    obtain ⟨L,v,hL,hobj,hkeep,heq⟩ := internalMqClose_ok h hrA
    rw [handler,heq]
    exact .ok (.queue (Or.inr rfl) hL hobj hkeep)
  | mqUnlink => exact internalMqUnlink_outcome h
  | mqSend => exact internalMqSend_outcome h hr (sleepsOnTimer_of_syscall (Or.inr (Or.inl hc)))
  | mqReceive =>
    exact internalMqReceive_outcome h hr (sleepsOnTimer_of_syscall (Or.inr (Or.inr hc)))
  | shutdown => exact .ok .shutdown

theorem handler_effect (h : Inv s) (hr : s.running = some r)
    (hc : syscallVector (s.syscallNum r).toNat = some c) (hok : handler c s r = .ok t) :
    Effect s r c t := by
  have hout := handler_outcome h hr hc
  rw [hok] at hout
  cases hout with
  | ok he => exact he

theorem handler_fails (h : Inv s) (hr : s.running = some r)
    (hc : syscallVector (s.syscallNum r).toNat = some c) (herr : handler c s r = .error f) :
    Fails s r c f := by
  have hout := handler_outcome h hr hc
  rw [herr] at hout
  cases hout with
  | error hf => exact hf

/-- The scheduler never leaves the processor without a process. -/
theorem Scheduled.running_ne_none (hr : s.running = some r) (hs : Scheduled s r t) :
    t.running ≠ none := by
  cases hs with
  | stay hw hu hready =>
    rw [hw.running,hr]
    exact Option.some_ne_none r
  | rotate hw hu hready => exact Option.some_ne_none _

theorem Scheduled.inv (hr : s.running = some r) (hs : Scheduled s r t) : Inv t := by
  cases hs with
  | stay hw hu hready => exact hu
  | rotate hw hu hready => exact hu.rotated (hw.running.trans hr) hready

/-- Every handler keeps the invariant. -/
theorem Effect.inv (h : Inv s) (hr : s.running = some r)
    (hc : syscallVector (s.syscallNum r).toNat = some c) (he : Effect s r c t) : Inv t := by
  cases he with
  | preempt hs => exact hs.inv hr
  | fork hb hx => exact h.withChild hr hb hx
  | spawn hb hx c _ => exact { h.withChild hr hb hx with }
  | noChild => exact h.setRetvalue r _
  | reap hx hz => exact h.reaped hr (awaitedEntry_mem hx) hz
  | block hx hz hready => exact (h.blocked hr (syscallNum_wait hc)).dispatched rfl hready
  | collect hi hir hp hwakes hx hxr hL hLr hM hMr =>
    obtain ⟨hw,hnum,_⟩ := mem_waiting_of_wakesParent h hwakes
    exact h.collected hr hi hir hp hw hnum hx hxr hL hM hMr.objectsList
  | replace hi hir hp hwakes hready => exact h.replaced hr hi hir hp hready
  | sleep hslept hu hready => exact hu
  | sleepNext hslept hu hready =>
    obtain ⟨⟩ := hslept
    exact hu.dispatched rfl hready
  | resource hc hL => exact (h.withResources hL).setRetvalue r _
  | queue hc hL hobj => exact (h.withMessagequeues hL hobj).setRetvalue r _
  | createQueue hL hq hobj => exact (h.withQueue hL hq hobj _ _).setRetvalue r _
  | unlinkRefused => exact h.setRetvalue r _
  | unlink hq hnil hpool => exact (h.drained hq hnil hpool).setRetvalue r _
  | sendRefused => exact h.setRetvalue r _
  | sendBlocks _ hslept hu hready =>
    obtain ⟨⟩ := hslept
    exact ((hu.dispatched rfl hready).record _).setRetvalue _ _
  | send _ hq hb => exact h.appended (h.queueOf_mem (h.running_allocated hr) hq) hb _
  | receiveRefused => exact h.setRetvalue r _
  | receiveBlocks _ _ hslept hu hready =>
    obtain ⟨⟩ := hslept
    exact ((hu.dispatched rfl hready).record _).setRetvalue _ _
  | receive _ hq hcons => exact h.removed (h.queueOf_mem (h.running_allocated hr) hq) hcons _
  | shutdown => exact { h with }

end Kernel

end DisastrOS
