import DisastrOS.Foundation.Lockstep
import DisastrOS.Behaviour.Steps

/-! # The mirror image of a kernel

The image of a kernel has its two descriptor layers exchanged. It need not have the same
call of a process on record, since the calls of the two layers have other numbers and
other arguments behind the first two, nor the same sizes of queues; it has no messages.
Every handler that does not belong to a layer does the same to a kernel and to its image, and
each handler of the resources does to a kernel what that of the queues does to its image.
-/
namespace DisastrOS

open Lockstep

/-- The value that a call has returned, and to whom. -/
def Event.value : Event → Option (ℕ × ℤ)
  | .returned p v => some (p,v)
  | .refused p v => some (p,v)
  | _ => none

/-- The handlers that work on neither layer. -/
def Syscall.ofProcess : Syscall → Bool
  | .openResource | .closeResource | .destroyResource => false
  | .mqOpen | .mqClose | .mqUnlink | .mqSend | .mqReceive => false
  | _ => true

/-- A call of a layer. -/
def Action.onLayers : Action → Bool
  | .call num _ => 7 ≤ num && num ≤ 14
  | _ => false

namespace Kernel

/-- The values that all calls have returned so far, newest first. -/
def returns (s : Kernel) : List (ℕ × ℤ) := s.history.filterMap Event.value

/-- What a kernel and its image need not share. -/
structure Extras where
  msgSize : ℕ → ℤ
  maxMsg : ℕ → ℤ
  syscallNum : ℕ → ℤ
  syscallArgs : ℕ → ℕ → ℤ
  history : List Event

/-- The kernel with its descriptor layers exchanged, without messages. -/
def mirror (s : Kernel) (x : Extras) : Kernel :=
  { s with
    resources := s.messagequeues
    messagequeues := s.resources
    msgNum := fun _ => 0
    msgSize := x.msgSize
    maxMsg := x.maxMsg
    messages := fun _ => []
    syscallNum := x.syscallNum
    syscallArgs := fun p i => if i < 2 then s.syscallArgs p i else x.syscallArgs p i
    history := x.history }

/-- The same processes wait for a child, if they wait, and the calls have returned the
same values. -/
def Extras.Fits (x : Extras) (s : Kernel) : Prop :=
  (∀ p, x.syscallNum p = dsosCallWait ↔ s.syscallNum p = dsosCallWait) ∧
    x.history.filterMap Event.value = s.returns

/-- The second kernel is an image of the first one with extras that fit it. -/
def Mirrored (s t : Kernel) : Prop := ∃ x : Extras, x.Fits s ∧ t = s.mirror x

/-- The calls on record and the values they have returned stay the same. -/
def SameCalls (s t : Kernel) : Prop := t.syscallNum = s.syscallNum ∧ t.returns = s.returns

/-- The extras with one more event on record. -/
def Extras.log (x : Extras) (e : Event) : Extras := { x with history := e :: x.history }

/-- The extras behind a trap. -/
def Extras.enter (x : Extras) (r : ℕ) (num : ℤ) (args : List ℤ) : Extras :=
  { x with
    syscallNum := Function.update x.syscallNum r num
    syscallArgs := Function.update x.syscallArgs r
      (fun i => if i < syscallNumarg num.toNat then args.getD i 0 else x.syscallArgs r i)
    history := .trapped r num :: x.history }

/-- The same calls are on record, and they have returned the same values. -/
def Extras.Same (x y : Extras) : Prop := y.syscallNum = x.syscallNum ∧
  y.history.filterMap Event.value = x.history.filterMap Event.value

/-- The second kernel is the image of the first one, up to other events than returns. -/
def Image (x : Extras) (s t : Kernel) : Prop := ∃ y, x.Same y ∧ t = s.mirror y

variable {s t u v : Kernel} {x : Extras} {r p q i : ℕ} {value : ℤ} {e : Event}

theorem syscallArgs_mirror_zero : (s.mirror x).syscallArgs p 0 = s.syscallArgs p 0 := rfl

theorem syscallArgs_mirror_one : (s.mirror x).syscallArgs p 1 = s.syscallArgs p 1 := rfl

section Processes

theorem pcbAlloc_mirror :
    (s.mirror x).pcbAlloc = s.pcbAlloc.map (fun v => (v.1,v.2.mirror x)) := by
  have hpool : (s.mirror x).pcbAllocator = s.pcbAllocator := rfl
  unfold pcbAlloc
  rw [hpool]
  cases s.pcbAllocator.getBlock <;> rfl

theorem createChild_mirror :
    (s.mirror x).createChild r = (s.createChild r).map (fun v => (v.1,v.2.mirror x)) := by
  unfold createChild
  rw [pcbAlloc_mirror]
  cases s.pcbAlloc with
  | error f => rfl
  | ok v =>
    obtain ⟨p,v⟩ := v
    have hentries : (v.mirror x).pcbPtrAllocator = v.pcbPtrAllocator := rfl
    simp only [Except.map,ok_bind,addChild,pcbPtrAlloc,hentries]
    cases v.pcbPtrAllocator.getBlock <;> rfl

theorem internalFork_mirror :
    (s.mirror x).internalFork r = (s.internalFork r).map (fun v => v.mirror x) := by
  unfold internalFork
  rw [createChild_mirror]
  cases s.createChild r <;> rfl

theorem internalSpawn_mirror :
    (s.mirror x).internalSpawn r = (s.internalSpawn r).map (fun v => v.mirror x) := by
  unfold internalSpawn
  rw [createChild_mirror]
  cases s.createChild r <;> rfl

theorem setcontext_mirror :
    (s.mirror x).setcontext p = (s.setcontext p).map (fun v => v.mirror x) := by
  have hcontext : (s.mirror x).cpuState = s.cpuState := rfl
  unfold setcontext
  rw [hcontext]
  cases s.cpuState p <;> rfl

theorem leaveTrap_mirror :
    (s.mirror x).leaveTrap = s.leaveTrap.map (fun v => v.mirror x) := by
  have hdown : (s.mirror x).shutdownNow = s.shutdownNow := rfl
  have hrun : (s.mirror x).running = s.running := rfl
  have hlog : (s.mirror x).logFile = s.logFile := rfl
  unfold leaveTrap
  rw [hdown,hrun,hlog]
  split
  · rfl
  · cases s.running with
    | none =>
      dsimp only
      split <;> rfl
    | some p => exact setcontext_mirror

theorem startFirstProcess_mirror :
    (s.mirror x).startFirstProcess = s.startFirstProcess.map (fun v => v.mirror x) := by
  unfold startFirstProcess
  rw [pcbAlloc_mirror]
  cases s.pcbAlloc with
  | error f => rfl
  | ok v =>
    obtain ⟨p,v⟩ := v
    let started : Kernel := { v with
      running := some p
      status := Function.update v.status p .running
      initPcb := some p
      cpuState := Function.update v.cpuState p
        (some ⟨v.pid p,.entry v.startFunction v.startArgs⟩) }
    exact setcontext_mirror (s := started)

end Processes

section Scheduling

theorem timerListRemoveCurrent_mirror : (s.mirror x).timerListRemoveCurrent =
    s.timerListRemoveCurrent.map (fun v => v.mirror x) := by
  unfold timerListRemoveCurrent
  change (listDetach s.timerList s.timerList.head? >>= _) = _
  cases listDetach s.timerList s.timerList.head? <;> rfl

theorem wakeElapsed_mirror (n : ℕ) (previousPcb : Option ℕ) :
    wakeElapsed n previousPcb (s.mirror x) =
      (wakeElapsed n previousPcb s).map (fun v => v.mirror x) := by
  have hcur : (s.mirror x).timerListCurrent = s.timerListCurrent := rfl
  induction n generalizing s previousPcb with
  | zero =>
    simp only [wakeElapsed,hcur]
    cases s.timerListCurrent <;> rfl
  | succ n ih =>
    simp only [wakeElapsed,hcur]
    cases s.timerListCurrent with
    | none => rfl
    | some t =>
      have hpcb : listDetach (s.mirror x).waitingList (some ((s.mirror x).timerPcb t)) =
        listDetach s.waitingList (some (s.timerPcb t)) := rfl
      dsimp only
      rw [hpcb]
      cases listDetach s.waitingList (some (s.timerPcb t)) with
      | error f => rfl
      | ok v =>
        obtain ⟨p,waiting⟩ := v
        let woken : Kernel := { s with
          waitingList := waiting
          status := Function.update s.status p .ready
          timer := Function.update s.timer p none
          readyList := listInsert s.readyList previousPcb p }
        have hremove := timerListRemoveCurrent_mirror (s := woken) (x := x)
        change ((woken.mirror x).timerListRemoveCurrent >>= wakeElapsed n (some p)) =
          Except.map _ (woken.timerListRemoveCurrent >>= wakeElapsed n (some p))
        rw [hremove]
        cases woken.timerListRemoveCurrent with
        | error f => rfl
        | ok v => exact ih (some p) rfl

theorem internalSchedule_mirror :
    (s.mirror x).internalSchedule = s.internalSchedule.map (fun v => v.mirror x) := by
  unfold internalSchedule
  have htimers : (s.mirror x).timerList = s.timerList := rfl
  rw [wakeElapsed_mirror,htimers]
  cases wakeElapsed s.timerList.length none s with
  | error f => rfl
  | ok v =>
    have hready : (v.mirror x).readyList = v.readyList := rfl
    have hrun : (v.mirror x).running = v.running := rfl
    simp only [Except.map,ok_bind]
    rw [hready,hrun]
    cases v.readyList <;> cases v.running <;> rfl

theorem timerListAdd_mirror : (s.mirror x).timerListAdd value p =
    (s.timerListAdd value p).map (fun v => v.mirror x) := by
  have hpool : (s.mirror x).timerItemAllocator.getBlock = s.timerItemAllocator.getBlock := rfl
  cases hb : s.timerItemAllocator.getBlock with
  | none =>
    rw [timerListAdd_none hb,timerListAdd_none (hpool.trans hb)]
    rfl
  | some b =>
    obtain ⟨t,pool⟩ := b
    rw [timerListAdd_some hb,timerListAdd_some (hpool.trans hb)]
    rfl

theorem pickReady_mirror : (s.mirror x).pickReady = s.pickReady.mirror x := by
  have hready : (s.mirror x).readyList = s.readyList := rfl
  cases hs : s.readyList with
  | nil =>
    simp only [pickReady,hready,hs]
    rfl
  | cons next rest =>
    simp only [pickReady,hready,hs]
    rfl

theorem goToSleep_mirror : (s.mirror x).goToSleep r value =
    (s.goToSleep r value).map (fun v => v.mirror x) := by
  unfold goToSleep
  rw [timerListAdd_mirror]
  change Option.map _ (Option.map _ (s.timerListAdd (wrapInt (s.disastrOSTime + value)) r)) = _
  cases s.timerListAdd (wrapInt (s.disastrOSTime + value)) r with
  | none => rfl
  | some v => exact congrArg some (pickReady_mirror (s := v.moveToWaiting r))

theorem internalSleep_mirror :
    (s.mirror x).internalSleep r = (s.internalSleep r).map (fun v => v.mirror x) := by
  have htimer : (s.mirror x).timer = s.timer := rfl
  unfold internalSleep
  rw [goToSleep_mirror,syscallArgs_mirror_zero,htimer]
  split
  · rfl
  · cases s.goToSleep r (s.syscallArgs r 0) <;> rfl

end Scheduling

section WaitAndExit

theorem scanChildren_mirror (k : ℤ) (cursor : Option ℕ) (l : List ℕ) :
    (s.mirror x).scanChildren k cursor l = s.scanChildren k cursor l := by
  induction l generalizing cursor with
  | nil => rfl
  | cons y l ih =>
    have hstop : (s.mirror x).stopsScan k y = s.stopsScan k y := rfl
    rw [scanChildren,scanChildren,hstop,ih]

theorem reap_mirror : (s.mirror x).reap r i value =
    (s.reap r i value).map (fun v => v.mirror
      (x.log (.reaped r (s.childPcb i) (s.pid (s.childPcb i)) (s.returnValue (s.childPcb i))))) := by
  unfold reap
  change (listDetach (s.children r) (some i) >>= _) = _
  by_cases hi : i ∈ s.children r
  · rw [listDetach_mem hi]
    change (listDetach s.zombieList (some (s.childPcb i)) >>= _) =
      Except.map _ (listDetach s.zombieList (some (s.childPcb i)) >>= _)
    by_cases hc : s.childPcb i ∈ s.zombieList
    · rw [listDetach_mem hc]
      rfl
    · rw [listDetach,if_neg hc]
      rfl
  · rw [listDetach,if_neg hi]
    rfl

theorem takeReady_mirror :
    (s.mirror x).takeReady = s.takeReady.map (fun v => (v.1,v.2.mirror x)) := by
  unfold takeReady
  change (listDetach s.readyList s.readyList.head? >>= _) = _
  cases listDetach s.readyList s.readyList.head? <;> rfl

theorem blockInWait_mirror :
    (s.mirror x).blockInWait r = (s.blockInWait r).map (fun v => v.mirror x) := by
  unfold blockInWait
  have htake := takeReady_mirror (s := s.moveToWaiting r) (x := x)
  change (((s.moveToWaiting r).mirror x).takeReady >>= _) = _
  rw [htake]
  cases (s.moveToWaiting r).takeReady <;> rfl

theorem exitToReady_mirror :
    (s.mirror x).exitToReady = s.exitToReady.map (fun v => v.mirror x) := by
  unfold exitToReady
  rw [takeReady_mirror]
  cases s.takeReady <;> rfl

theorem exiting_mirror : (s.mirror x).exiting i r p value =
    (s.exiting i r p value).mirror (x.log (.exited r (s.pid r) value)) := rfl

/-- The release loops run in the other order, which does not show when none of them fails. -/
theorem exitToParent_mirror {L M : DescriptorLayer}
    (hL : s.resources.releaseAll r (s.resources.descriptors r).length = .ok L)
    (hM : s.messagequeues.releaseAll r (s.messagequeues.descriptors r).length = .ok M) :
    (s.mirror x).exitToParent r p = (s.exitToParent r p).map
      (fun v => v.mirror (x.log (.reaped p r (s.pid r) (s.returnValue r)))) := by
  have hchild (waiting : List ℕ) (status : ℕ → ProcessStatus) (u : Kernel) :
      ({ u with waitingList := waiting, status := status } : Kernel).childByPid p (u.pid r) =
        u.childByPid p (u.pid r) := rfl
  unfold exitToParent
  change (listDetach s.waitingList (some p) >>= _) = _
  by_cases hp : p ∈ s.waitingList
  · rw [listDetach_mem hp]
    simp only [ok_bind,hchild]
    change (listDetach (s.children p) (s.childByPid p (s.pid r)) >>= _) = _
    cases listDetach (s.children p) (s.childByPid p (s.pid r)) with
    | error f => rfl
    | ok v =>
      simp only [ok_bind,DescriptorLayer.releaseResources_eq,
        DescriptorLayer.releaseMessagequeues_eq]
      change ((s.messagequeues.releaseAll r (s.messagequeues.descriptors r).length) >>= _) =
        Except.map _ ((s.resources.releaseAll r (s.resources.descriptors r).length) >>= _)
      rw [hL,hM]
      change ((s.resources.releaseAll r (s.resources.descriptors r).length) >>= _) =
        Except.map _ ((s.messagequeues.releaseAll r (s.messagequeues.descriptors r).length) >>= _)
      rw [hL,hM]
      change (listDetach s.zombieList (some r) >>= _) =
        Except.map _ (listDetach s.zombieList (some r) >>= _)
      by_cases hr : r ∈ s.zombieList
      · rw [listDetach_mem hr]
        rfl
      · rw [listDetach,if_neg hr]
        rfl
  · rw [listDetach,if_neg hp]
    rfl

end WaitAndExit

section Handlers

theorem Extras.Same.refl (x : Extras) : x.Same x := ⟨rfl,rfl⟩

theorem Extras.Same.log {y : Extras} (h : x.Same y) (he : e.value = none) : x.Same (y.log e) := by
  have hcons : (y.log e).history.filterMap Event.value = y.history.filterMap Event.value :=
    List.filterMap_cons_none he
  exact ⟨h.1,hcons.trans h.2⟩

theorem agree_image {y : Extras} {a b : Except Fault Kernel} (h : b = a.map (fun v => v.mirror y))
    (hy : x.Same y) : Agree (Image x) a b := by
  rw [h]
  apply Agree.map
  intro v _
  exact ⟨y,hy,rfl⟩

theorem internalWait_mirror : Agree (Image x) (s.internalWait r) ((s.mirror x).internalWait r) := by
  by_cases hnil : s.children r = []
  · have hnil' : (s.mirror x).children r = [] := hnil
    rw [internalWait_nil hnil,internalWait_nil hnil']
    exact .ok ⟨x,.refl x,rfl⟩
  · obtain ⟨c,hc⟩ := exists_awaitedEntry hnil
    have hc' : (s.mirror x).awaitedEntry r = some c := (scanChildren_mirror _ _ _).trans hc
    have hstatus : (s.mirror x).status ((s.mirror x).childPcb c) = s.status (s.childPcb c) := rfl
    rw [internalWait_eq hc,internalWait_eq hc',hstatus]
    split
    · exact agree_image reap_mirror ((Extras.Same.refl x).log rfl)
    · exact agree_image blockInWait_mirror (.refl x)

theorem wakesParent_mirror (hx : x.syscallNum p = dsosCallWait ↔ s.syscallNum p = dsosCallWait) :
    (s.mirror x).wakesParent r p = s.wakesParent r p := by
  have hnum : decide ((s.mirror x).syscallNum p = dsosCallWait) =
    decide (s.syscallNum p = dsosCallWait) := decide_eq_decide.mpr hx
  unfold wakesParent
  rw [hnum]
  rfl

theorem internalExit_mirror (h : Inv s) (hr : s.running = some r)
    (hx : x.Fits s) : Agree (Image x) (s.internalExit r) ((s.mirror x).internalExit r) := by
  obtain ⟨i,hi,_,_⟩ := h.hasInit
  have hi' : (s.mirror x).initPcb = some i := hi
  by_cases hir : i ≠ r ∨ s.children r = []
  · cases hp : s.parent r with
    | none =>
      rw [internalExit_noParent hi hir hp,internalExit_noParent hi' hir hp]
      exact .error _
    | some p =>
      obtain ⟨L,M,hL,hM,_⟩ := h.releaseAll (h.running_allocated hr)
      let exit := Event.exited r (s.pid r) (s.syscallArgs r 0)
      have hsame : x.Same (x.log exit) := (Extras.Same.refl x).log rfl
      have hwakes : ((s.exiting i r p (s.syscallArgs r 0)).mirror (x.log exit)).wakesParent r p =
        (s.exiting i r p (s.syscallArgs r 0)).wakesParent r p := wakesParent_mirror (hx.1 p)
      rw [internalExit_eq hi hir hp,internalExit_eq hi' hir hp,syscallArgs_mirror_zero,
        exiting_mirror,hwakes]
      split
      · exact agree_image (exitToParent_mirror hL hM) (hsame.log rfl)
      · exact agree_image exitToReady_mirror hsame
  · obtain ⟨hir,hne⟩ := not_or.mp hir
    cases not_not.mp hir
    rw [internalExit_diverges hi hne,internalExit_diverges hi' hne]
    exact .error _

/-- A process handler does the same to a kernel and to its image. -/
theorem handler_mirror {c : Syscall} (h : Inv s) (hr : s.running = some r)
    (hx : x.Fits s) (hc : c.ofProcess = true) :
    Agree (Image x) (handler c s r) (handler c (s.mirror x) r) := by
  cases c with
  | preempt => exact agree_image internalSchedule_mirror (.refl x)
  | fork => exact agree_image internalFork_mirror (.refl x)
  | wait => exact internalWait_mirror
  | exit => exact internalExit_mirror h hr hx
  | spawn => exact agree_image internalSpawn_mirror (.refl x)
  | sleep => exact agree_image internalSleep_mirror (.refl x)
  | shutdown => exact .ok ⟨x,.refl x,rfl⟩
  | openResource => cases hc
  | closeResource => cases hc
  | destroyResource => cases hc
  | mqOpen => cases hc
  | mqClose => cases hc
  | mqUnlink => cases hc
  | mqSend => cases hc
  | mqReceive => cases hc

end Handlers

section Layers

theorem initQueue_mirror (msgSize maxMsg : ℤ) (q : ℕ) : (s.mirror x).initQueue msgSize maxMsg q =
    s.mirror { x with
      msgSize := Function.update x.msgSize q msgSize
      maxMsg := Function.update x.maxMsg q maxMsg
      history := .createdQueue q :: x.history } := by
  have hnum : Function.update (s.mirror x).msgNum q 0 = fun _ => 0 := Function.update_eq_self q _
  have hmessages : Function.update (s.mirror x).messages q [] = fun _ => [] :=
    Function.update_eq_self q _
  unfold initQueue
  rw [hnum,hmessages]
  rfl

/-- Opening in one layer is opening in the other one; the mode is another argument. -/
theorem openResource_mirror (hmode : x.syscallArgs r 4 = s.syscallArgs r 2) :
    Agree (Image x) (s.internalOpenResource r) ((s.mirror x).internalMqOpen r) := by
  have hmode' : (s.mirror x).syscallArgs r 4 = s.syscallArgs r 2 := hmode
  have hlayer : (s.mirror x).messagequeues = s.resources := rfl
  rw [internalOpenResource_layer,internalMqOpen_layer,hmode',hlayer,messagequeueErrors_eq,
    syscallArgs_mirror_zero,syscallArgs_mirror_one]
  cases s.resources.openObject resourceErrors r (s.syscallArgs r 0) (s.syscallArgs r 1)
      (s.syscallArgs r 2) with
  | error f => exact .error f
  | ok v =>
    obtain ⟨layer,retvalue,created⟩ := v
    cases created with
    | none => exact .ok ⟨x,.refl x,rfl⟩
    | some q =>
      let opened : Kernel := { s with resources := layer }
      have hcreated := initQueue_mirror (s := opened) (x := x) (x.syscallArgs r 2)
        (x.syscallArgs r 3) q
      have hsame : x.Same { x with
          msgSize := Function.update x.msgSize q (x.syscallArgs r 2)
          maxMsg := Function.update x.maxMsg q (x.syscallArgs r 3)
          history := .createdQueue q :: x.history } := ⟨rfl,rfl⟩
      exact .ok ⟨_,hsame,congrArg (fun v => v.setRetvalue r retvalue) hcreated⟩

theorem closeResource_mirror : (s.mirror x).internalMqClose r =
    (s.internalCloseResource r).map (fun v => v.mirror x) := by
  have hlayer : (s.mirror x).messagequeues = s.resources := rfl
  rw [internalMqClose_layer,internalCloseResource_layer,hlayer,messagequeueErrors_eq,
    syscallArgs_mirror_zero]
  cases s.resources.closeDescriptor resourceErrors r (s.syscallArgs r 0) <;> rfl

/-- A queue without messages has none to free. -/
theorem destroyResource_mirror : (s.mirror x).internalMqUnlink r =
    (s.internalDestroyResource r).map (fun v => v.mirror x) := by
  have hlayer : (s.mirror x).messagequeues = s.resources := rfl
  rw [internalMqUnlink_layer,internalDestroyResource_layer,hlayer,messagequeueErrors_eq,
    syscallArgs_mirror_zero]
  cases s.resources.destroyObject resourceErrors (s.syscallArgs r 0) with
  | error f => rfl
  | ok v =>
    obtain ⟨layer,retvalue,freed⟩ := v
    cases freed <;> rfl

end Layers

section Frames

theorem SameCalls.refl (s : Kernel) : SameCalls s s := ⟨rfl,rfl⟩

theorem SameCalls.trans (hst : SameCalls s t) (htu : SameCalls t u) : SameCalls s u :=
  ⟨htu.1.trans hst.1,htu.2.trans hst.2⟩

theorem Switched.sameCalls (hsw : Switched s t) : SameCalls s t := by
  cases hsw <;> exact ⟨rfl,rfl⟩

theorem Woken.sameCalls (hw : Woken s t) : SameCalls s t := by
  obtain ⟨⟩ := hw
  exact ⟨rfl,rfl⟩

theorem Scheduled.sameCalls (hs : Scheduled s r t) : SameCalls s t := by
  cases hs with
  | stay hw => exact hw.sameCalls
  | rotate hw => exact hw.sameCalls

theorem Slept.sameCalls (hslept : Slept s r t) : SameCalls s t := by
  obtain ⟨⟩ := hslept
  exact ⟨rfl,rfl⟩

/-- No handler returns from a call. -/
theorem Effect.sameCalls {c : Syscall} (he : Effect s r c t) : SameCalls s t := by
  cases he with
  | preempt hs => exact hs.sameCalls
  | sleep hslept => exact hslept.sameCalls
  | sleepNext hslept => exact hslept.sameCalls
  | sendBlocks _ hslept => exact hslept.sameCalls
  | receiveBlocks _ _ hslept => exact hslept.sameCalls
  | _ => exact ⟨rfl,rfl⟩

theorem Extras.Fits.keep {y : Extras} (h : x.Fits s) (hy : x.Same y) (hst : SameCalls s t) :
    y.Fits t := by
  unfold Extras.Fits
  rw [hy.1,hy.2,hst.1,hst.2]
  exact h

/-- Images fit as long as the computation returns from no call. -/
theorem Extras.Fits.agree {a b : Except Fault Kernel} (hx : x.Fits s) (h : Agree (Image x) a b)
    (ha : ∀ v, a = .ok v → SameCalls s v) : Agree Mirrored a b := by
  apply h.mono_of_eq
  rintro v _ hv _ ⟨y,hy,rfl⟩
  exact ⟨y,hx.keep hy (ha v hv),rfl⟩

theorem Mirrored.leaveTrap (h : Mirrored s t) : Agree Mirrored s.leaveTrap t.leaveTrap := by
  obtain ⟨x,hx,rfl⟩ := h
  apply hx.agree (agree_image leaveTrap_mirror (.refl x))
  intro v hv
  exact (leaveTrap_ok hv).sameCalls

end Frames

section Steps
variable {num num' : ℤ} {args args' : List ℤ}

theorem syscallArgs_trapped (s : Kernel) (r : ℕ) (num : ℤ) (args : List ℤ) (i : ℕ) :
    (s.enterTrap r num args).syscallArgs r i =
      if i < syscallNumarg num.toNat then args.getD i 0 else s.syscallArgs r i :=
  congrFun (Function.update_self r _ s.syscallArgs) i

theorem syscallArgs_enter (x : Extras) (r : ℕ) (num : ℤ) (args : List ℤ) (i : ℕ) :
    (x.enter r num args).syscallArgs r i =
      if i < syscallNumarg num.toNat then args.getD i 0 else x.syscallArgs r i :=
  congrFun (Function.update_self r _ x.syscallArgs) i

/-- The first two arguments are shared, the others go to the extras. -/
theorem enterTrap_mirror (hargs : ∀ i < 2,
    (if i < syscallNumarg num'.toNat then args'.getD i 0 else s.syscallArgs r i) =
      if i < syscallNumarg num.toNat then args.getD i 0 else s.syscallArgs r i) :
    (s.mirror x).enterTrap r num' args' =
      (s.enterTrap r num args).mirror (x.enter r num' args') := by
  have hfun : ((s.mirror x).enterTrap r num' args').syscallArgs =
      ((s.enterTrap r num args).mirror (x.enter r num' args')).syscallArgs := by
    funext p i
    by_cases hp : p = r
    · subst hp
      rw [syscallArgs_trapped]
      by_cases hi : i < 2
      · have hshared : ∀ (u : Kernel) (y : Extras), (u.mirror y).syscallArgs p i =
          u.syscallArgs p i := fun _ _ => if_pos hi
        rw [hshared,hshared,syscallArgs_trapped]
        exact hargs i hi
      · have hown : ∀ (u : Kernel) (y : Extras), (u.mirror y).syscallArgs p i =
          y.syscallArgs p i := fun _ _ => if_neg hi
        rw [hown,hown,syscallArgs_enter]
    · have himage : ((s.mirror x).enterTrap r num' args').syscallArgs p =
        (s.mirror x).syscallArgs p := Function.update_of_ne hp _ _
      have htrap : (s.enterTrap r num args).syscallArgs p = s.syscallArgs p :=
        Function.update_of_ne hp _ _
      have henter : (x.enter r num' args').syscallArgs p = x.syscallArgs p :=
        Function.update_of_ne hp _ _
      have hmirror : ∀ (u : Kernel) (y : Extras), (u.mirror y).syscallArgs p i =
        if i < 2 then u.syscallArgs p i else y.syscallArgs p i := fun _ _ => rfl
      rw [himage,hmirror,hmirror,htrap,henter]
  exact congrArg (fun f : ℕ → ℕ → ℤ =>
    ({ (s.mirror x).enterTrap r num' args' with syscallArgs := f } : Kernel)) hfun

theorem Extras.Fits.enter (hx : x.Fits s) (hwait : num' = dsosCallWait ↔ num = dsosCallWait) :
    (x.enter r num' args').Fits (s.enterTrap r num args) := by
  refine ⟨?_,hx.2⟩
  intro p
  by_cases hp : p = r
  · subst hp
    simpa [enterTrap,Extras.enter,record,saveContext] using hwait
  · simpa [enterTrap,Extras.enter,record,saveContext,hp] using hx.1 p

/-- A call agrees with another one when their handlers do behind the trap. -/
theorem handled_mirror {c d : Syscall} (h : Inv s) (hx : x.Fits s) (hr : s.running = some r)
    (hc : syscallVector num.toNat = some c) (hd : syscallVector num'.toNat = some d)
    (hargs : ∀ i < 2,
      (if i < syscallNumarg num'.toNat then args'.getD i 0 else s.syscallArgs r i) =
        if i < syscallNumarg num.toNat then args.getD i 0 else s.syscallArgs r i)
    (hwait : num' = dsosCallWait ↔ num = dsosCallWait)
    (hagree : (x.enter r num' args').Fits (s.enterTrap r num args) →
      Agree (Image (x.enter r num' args')) (handler c (s.enterTrap r num args) r)
        (handler d ((s.enterTrap r num args).mirror (x.enter r num' args')) r)) :
    Agree Mirrored (s.disastrOSSyscall num args) ((s.mirror x).disastrOSSyscall num' args') := by
  have hr' : (s.mirror x).running = some r := hr
  have hy : (x.enter r num' args').Fits (s.enterTrap r num args) := hx.enter hwait
  rw [disastrOSSyscall_handled hr hc,disastrOSSyscall_handled hr' hd,enterTrap_mirror hargs]
  apply Agree.bind (hy.agree (hagree hy) ?_)
  · intro v w hvw
    exact hvw.leaveTrap
  · intro v hv
    have hc' := syscallVector_enterTrap (r := r) s args hc
    exact (handler_effect (h.enterTrap hr num args) hr hc' hv).sameCalls

/-- A call that belongs to no layer agrees with itself. -/
theorem syscall_mirror (h : Inv s) (hx : x.Fits s) (hr : s.running = some r)
    (hnum : (Action.call num args).onLayers = false) :
    Agree Mirrored (s.disastrOSSyscall num args) ((s.mirror x).disastrOSSyscall num args) := by
  have hr' : (s.mirror x).running = some r := hr
  cases hc : syscallVector num.toNat with
  | some c =>
    have hprocess : c.ofProcess = true := by
      rw [syscallVector_eq_some hc] at hnum
      cases c <;> first | rfl | cases hnum
    apply handled_mirror h hx hr hc hc (fun _ _ => rfl) Iff.rfl
    intro hy
    exact handler_mirror (h.enterTrap hr num args) hr hy hprocess
  | none =>
    simp only [disastrOSSyscall,hr,hr']
    by_cases hrange : num < 0 ∨ dsosMaxSyscalls < num
    · rw [if_pos hrange,if_pos hrange]
      refine .ok ⟨x.log (.refused r dsosESyscallOutOfRange),⟨hx.1,?_⟩,rfl⟩
      exact congrArg ((r,dsosESyscallOutOfRange) :: ·) hx.2
    · rw [if_neg hrange,if_neg hrange]
      by_cases hmax : num = dsosMaxSyscalls
      · rw [if_pos hmax,if_pos hmax]
        exact .error _
      · rw [if_neg hmax,if_neg hmax]
        have hy : (x.enter r num args).Fits (s.enterTrap r num args) := hx.enter Iff.rfl
        have htrap : (s.mirror x).enterTrap r num args =
            (s.enterTrap r num args).mirror (x.enter r num args) :=
          enterTrap_mirror (fun _ _ => rfl)
        rw [htrap]
        simp only [disastrOSTrap,syscallNum_enterTrap,hc]
        have hmissing : Mirrored ((s.enterTrap r num args).setRetvalue r dsosESyscallNotImplemented)
            (((s.enterTrap r num args).mirror (x.enter r num args)).setRetvalue r
              dsosESyscallNotImplemented) := ⟨_,hy,rfl⟩
        have hnum' : ((s.enterTrap r num args).mirror (x.enter r num args)).syscallNum r = num :=
          Function.update_self _ _ _
        rw [hnum',hc]
        exact hmissing.leaveTrap

/-- The checks in front of a call are the same. -/
theorem call_mirror (hcall : ∀ r, s.running = some r →
    Agree Mirrored (s.disastrOSSyscall num args) ((s.mirror x).disastrOSSyscall num' args')) :
    Agree Mirrored (s.step (.call num args)) ((s.mirror x).step (.call num' args')) := by
  apply Agree.ite (.error _)
  apply Agree.ite (.error _)
  cases hr : s.running with
  | some r => exact hcall r hr
  | none =>
    have hr' : (s.mirror x).running = none := hr
    simp only [disastrOSSyscall,hr,hr']
    exact .error _

theorem timerInterrupt_mirror (h : Inv s) (hx : x.Fits s) :
    Agree Mirrored s.timerInterrupt (s.mirror x).timerInterrupt := by
  cases hr : s.running with
  | none =>
    have hr' : (s.mirror x).running = none := hr
    simp only [timerInterrupt,hr,hr']
    exact .error _
  | some r =>
    have hr' : (s.mirror x).running = some r := hr
    have hticked : (s.mirror x).ticked r = (s.ticked r).mirror x := rfl
    simp only [timerInterrupt,hr,hr',hticked,internalSchedule_mirror]
    cases hs : (s.ticked r).internalSchedule with
    | error f => exact .error f
    | ok v =>
      have hsame := (internalSchedule_scheduled (h.ticked r) hr hs).sameCalls
      have hy : x.Fits v := hx.keep (.refl x) hsame
      have hrun : (v.mirror x).running = v.running := rfl
      simp only [Except.map,ok_bind]
      rw [hrun]
      cases hv : v.running with
      | none => exact .error _
      | some p =>
        apply hy.agree (agree_image setcontext_mirror (.refl x))
        intro w hw
        exact (setcontext_ok hv hw).sameCalls

/-- A step that belongs to no layer agrees with itself. -/
theorem step_mirror {a : Action} (h : Inv s) (hst : Mirrored s t) (ha : a.onLayers = false) :
    Agree Mirrored (s.step a) (t.step a) := by
  obtain ⟨x,hx,rfl⟩ := hst
  cases a with
  | call num args =>
    apply call_mirror
    intro r hr
    exact syscall_mirror h hx hr ha
  | tick => exact .ite (.error _) (timerInterrupt_mirror h hx)
  | ret =>
    apply Agree.ite (.error _)
    apply Agree.ite _ (.error _)
    cases hr : s.running with
    | none =>
      have hr' : (s.mirror x).running = none := hr
      simp only [returnFromSyscall,hr,hr']
      exact .error _
    | some r =>
      have hr' : (s.mirror x).running = some r := hr
      simp only [returnFromSyscall,hr,hr']
      refine .ok ⟨x.log (.returned r (s.syscallRetvalue r)),⟨hx.1,?_⟩,rfl⟩
      exact congrArg ((r,s.syscallRetvalue r) :: ·) hx.2
  | store address c => exact .ite (.error _) (.ite (.error _) (.ok ⟨x,hx,rfl⟩))
  | resumeMain =>
    apply Agree.ite (.error _)
    apply Agree.ite _ (.error _)
    apply hx.agree (agree_image startFirstProcess_mirror (.refl x))
    intro v hv
    obtain ⟨p,pool,_,hsw⟩ := startFirstProcess_ok hv
    exact (SameCalls.refl s).trans (hsw.sameCalls)

end Steps

end Kernel

end DisastrOS
