import DisastrOS.Behaviour.Messages
import DisastrOS.Linked.Dispatch
import DisastrOS.Linked.ProcessLists

/-! # The descriptor and message system calls on links do what the handlers do -/
namespace DisastrOS.LinkedKernel
open Refinement

variable {L : LinkedKernel} {s : Kernel} {M : LinkedLayer} {K : DescriptorLayer} {q r n : ℕ}

namespace Implements

theorem withResources (h : L.Implements s) (hM : M.Implements K) :
    ({ L with fields := s.fields, resources := M } : LinkedKernel).Implements
      { s with resources := K } :=
  { h with fields := rfl, resources := hM }

theorem withMessagequeues (h : L.Implements s) (hM : M.Implements K) :
    ({ L with fields := s.fields, messagequeues := M } : LinkedKernel).Implements
      { s with messagequeues := K } :=
  { h with fields := rfl, messagequeues := hM }

theorem internalOpenResource (h : L.Implements s) (hn : maxNumResources ≤ n) (r : ℕ) :
    Refines Fault.Unchecked Implements (L.internalOpenResource r n) (s.internalOpenResource r) := by
  unfold LinkedKernel.internalOpenResource
  rw [Kernel.internalOpenResource_layer,h.fields]
  apply (h.resources.openObject hn r _ _ _).bind
  intro M K hM
  rw [hM.retvalue]
  exact .ok ((h.withResources hM.layer).setRetvalue r K.retvalue)

theorem internalCloseResource (h : L.Implements s) (hn : maxNumProcesses ≤ n) (r : ℕ) :
    Refines Fault.Unchecked Implements (L.internalCloseResource r n)
      (s.internalCloseResource r) := by
  unfold LinkedKernel.internalCloseResource
  rw [Kernel.internalCloseResource_layer,h.fields]
  apply (h.resources.closeDescriptor hn r _).bind
  rintro ⟨M,v⟩ ⟨K,_⟩ ⟨hM,rfl⟩
  exact .ok ((h.withResources hM).setRetvalue r v)

theorem internalDestroyResource (h : L.Implements s) (hn : maxNumResources ≤ n) (r : ℕ) :
    Refines Fault.Unchecked Implements (L.internalDestroyResource r n)
      (s.internalDestroyResource r) := by
  unfold LinkedKernel.internalDestroyResource
  rw [Kernel.internalDestroyResource_layer,h.fields]
  apply (h.resources.destroyObject hn _).bind
  rintro ⟨M,v,freed⟩ ⟨K,_⟩ ⟨hM,rfl⟩
  exact .ok ((h.withResources hM).setRetvalue r v)

theorem initQueue (h : L.Implements s) (msgSize maxMsg : ℤ) (q : ℕ) :
    (L.initQueue msgSize maxMsg q).Implements (s.initQueue msgSize maxMsg q) := by
  refine { h with fields := ?_, messages := h.messages.listInit q }
  unfold LinkedKernel.initQueue
  rw [h.fields]
  rfl

theorem internalMqOpen (h : L.Implements s) (hn : maxNumResources ≤ n) (r : ℕ) :
    Refines Fault.Unchecked Implements (L.internalMqOpen r n) (s.internalMqOpen r) := by
  unfold LinkedKernel.internalMqOpen
  rw [Kernel.internalMqOpen_layer,h.fields]
  apply (h.messagequeues.openObject hn r _ _ _).bind
  intro M K hM
  rw [hM.retvalue,hM.created]
  cases K.created with
  | none => exact .ok ((h.withMessagequeues hM.layer).setRetvalue r K.retvalue)
  | some q =>
    exact .ok (((h.withMessagequeues hM.layer).initQueue _ _ q).setRetvalue r K.retvalue)

theorem internalMqClose (h : L.Implements s) (hn : maxNumProcesses ≤ n) (r : ℕ) :
    Refines Fault.Unchecked Implements (L.internalMqClose r n) (s.internalMqClose r) := by
  unfold LinkedKernel.internalMqClose
  rw [Kernel.internalMqClose_layer,h.fields]
  apply (h.messagequeues.closeDescriptor hn r _).bind
  rintro ⟨M,v⟩ ⟨K,_⟩ ⟨hM,rfl⟩
  exact .ok ((h.withMessagequeues hM).setRetvalue r v)

/-- The state without a message, whose block is not yet freed. -/
inductive DetachedMessage (L : LinkedKernel) (s : Kernel) (q : ℕ) :
    ℕ × LinkedKernel → ℕ × List ℕ → Prop
  | intro {m : ℕ} {h : ListHeap ℕ}
      (hfree : h.Stored (Function.update s.messages q ((s.messages q).erase m))
        (s.messageAllocator.releaseBlock m)) :
      DetachedMessage L s q (m,{ L with messages := h }) (m,(s.messages q).erase m)

theorem detachMessage (h : L.Implements s) (q : ℕ) :
    Refines Fault.Unchecked (DetachedMessage L s q) (L.detachMessage q)
      (listDetach (s.messages q) (s.messages q).head?) := by
  unfold LinkedKernel.detachMessage
  rw [h.messages.holds.first]
  apply (h.messages.listDetach q (s.messages q).head?).bind_left
  rintro _ _ ⟨hm,_,hd⟩
  exact .ok ⟨(h.messages.detaches hd).release hm hd.unlinked.absent⟩

theorem freeMessages (h : L.Implements s) (q i : ℕ) :
    Refines Fault.Unchecked Implements (LinkedKernel.freeMessages q i L)
      (Kernel.freeMessages q i s) := by
  induction i generalizing L s with
  | zero => exact .ok h
  | succ i ih =>
    unfold LinkedKernel.freeMessages Kernel.freeMessages
    apply (h.detachMessage q).bind
    rintro _ _ @⟨m,messages,hfree⟩
    have h' : (LinkedKernel.messageFree { L with messages := messages } m).Implements
        { s with
          messages := Function.update s.messages q ((s.messages q).erase m)
          messageAllocator := s.messageAllocator.releaseBlock m } := by
      unfold LinkedKernel.messageFree
      rw [h.fields]
      exact { h with fields := rfl, messages := hfree }
    exact ih h'

theorem internalMqUnlink (h : L.Implements s) (hn : maxNumResources ≤ n) (r : ℕ) :
    Refines Fault.Unchecked Implements (L.internalMqUnlink r n) (s.internalMqUnlink r) := by
  unfold LinkedKernel.internalMqUnlink
  rw [Kernel.internalMqUnlink_layer,h.fields]
  apply (h.messagequeues.destroyObject hn _).bind
  rintro ⟨M,v,freed⟩ ⟨K,_⟩ ⟨hM,rfl⟩
  have h' := h.withMessagequeues hM
  cases freed with
  | none => exact .ok (h'.setRetvalue r v)
  | some q =>
    apply (h'.freeMessages q (s.msgNum q).toNat).bind
    exact fun _ _ hfreed => .ok (hfreed.setRetvalue r v)

theorem blockOnQueue (h : L.Implements s) (hn : maxNumProcesses ≤ n) (hr : s.Unlisted r)
    (code : ℤ) :
    Refines Fault.Unchecked Implements (L.blockOnQueue r code n) (s.blockOnQueue r code) := by
  obtain ⟨o,hgo,hrel⟩ := h.goToSleep hn hr 25
  have htimer : (L.fields.timer r).isSome ↔ (s.timer r).isSome := by
    rw [h.fields]
    rfl
  unfold LinkedKernel.blockOnQueue Kernel.blockOnQueue
  refine Refines.ite htimer (.ok (h.setRetvalue r _)) ?_
  refine .ok_left hgo ?_
  generalize s.goToSleep r 25 = sleeping at hrel ⊢
  cases hrel with
  | none => exact .ok (h.setRetvalue r _)
  | @some L' t h' =>
    have hrunning : L'.fields.running = t.running := by
      rw [h'.fields]
      rfl
    dsimp only
    rw [hrunning]
    cases t.running with
    | none => exact .error _
    | some next =>
      have hslept : ({ L' with fields := L'.fields.record (.slept r) } : LinkedKernel).Implements
          (t.record (.slept r)) := by
        rw [h'.fields]
        exact { h' with fields := rfl }
      exact .ok (hslept.setRetvalue next code)

theorem appendMessage (h : L.Implements s) (r q : ℕ) (msgPtr : ℤ) :
    Refines Fault.Unchecked Implements (L.appendMessage r q msgPtr)
      (s.appendMessage r q msgPtr) := by
  unfold LinkedKernel.appendMessage
  rw [h.fields]
  cases hb : s.messageAllocator.getBlock with
  | none =>
    rw [Kernel.appendMessage_none hb]
    simp only [Kernel.fields,hb]
    exact .error _
  | some b =>
    obtain ⟨m,pool⟩ := b
    rw [Kernel.appendMessage_some hb]
    simp only [Kernel.fields,hb]
    have hcopy : s.fields.copyIn msgPtr = s.copyIn msgPtr := rfl
    change Refines _ _ (s.fields.copyIn msgPtr >>= _) (s.copyIn msgPtr >>= _)
    rw [hcopy]
    cases s.copyIn msgPtr with
    | error f => exact .error f
    | ok text =>
      have hsent : ({ L with
          fields := Kernel.fields ({ s with
            messageAllocator := pool
            messageId := Function.update s.messageId m (s.msgNum q)
            message := Function.update s.message m text
            msgNum := Function.update s.msgNum q (s.msgNum q + 1) }.record (.sent r q text))
          messages := (L.messages.clear m).append q m } : LinkedKernel).Implements
          ({ s with
            messageAllocator := pool
            messageId := Function.update s.messageId m (s.msgNum q)
            messages := Function.update s.messages q (listAppend (s.messages q) m)
            message := Function.update s.message m text
            msgNum := Function.update s.msgNum q (s.msgNum q + 1) }.record (.sent r q text)) :=
        { h with fields := rfl, messages := h.messages.append_new hb q }
      exact .ok (hsent.setRetvalue r 0)

theorem removeMessage (h : L.Implements s) (r q : ℕ) (msgPtr : ℤ) :
    Refines Fault.Unchecked Implements (L.removeMessage r q msgPtr)
      (s.removeMessage r q msgPtr) := by
  unfold LinkedKernel.removeMessage Kernel.removeMessage
  apply (h.detachMessage q).bind
  rintro _ _ @⟨m,messages,hfree⟩
  refine Refines.ite Iff.rfl (.error _) (.ok ?_)
  unfold LinkedKernel.messageFree
  rw [h.fields]
  exact { h with fields := rfl, messages := hfree }

theorem internalMqSend (h : L.Implements s) (hn : maxNumProcesses ≤ n) (hr : s.Unlisted r) :
    Refines Fault.Unchecked Implements (L.internalMqSend r n) (s.internalMqSend r) := by
  unfold LinkedKernel.internalMqSend Kernel.internalMqSend
  rw [h.fields,h.messagequeues.fields]
  simp only [Kernel.fields,DescriptorLayer.fields,DescriptorLayer.descrittoreListByMqd_eq,
    h.messagequeues.byFd_eq hn,ok_bind]
  cases s.messagequeues.byFd r (s.syscallArgs r 0) with
  | none => exact .ok (h.setRetvalue r _)
  | some des =>
    refine Refines.ite Iff.rfl (.ok (h.setRetvalue r _)) ?_
    refine Refines.ite Iff.rfl (.ok (h.setRetvalue r _)) ?_
    exact Refines.ite Iff.rfl (h.blockOnQueue hn hr _) (h.appendMessage r _ _)

/-- A buffer that is too short is reported. -/
theorem reportShort (h : L.Implements s) (c : Prop) [Decidable c] (hr : s.Unlisted r) :
    (if c then L.setRetvalue r dsosEMessagesize else L).Implements
      (if c then s.setRetvalue r dsosEMessagesize else s) ∧
    (if c then s.setRetvalue r dsosEMessagesize else s).Unlisted r := by
  split
  · exact ⟨h.setRetvalue r _,hr.allocated,hr.absent⟩
  · exact ⟨h,hr⟩

/-- What a receive does once the length of its buffer has been looked at. -/
theorem receiveRest (h : L.Implements s) (hn : maxNumProcesses ≤ n) (hr : s.Unlisted r) (q : ℕ)
    (msgPtr : ℤ) :
    Refines Fault.Unchecked Implements
      (if L.fields.maxMsg q = 0 then .ok (L.setRetvalue r dsosEMessagesize)
        else if L.fields.msgNum q = 0 then L.blockOnQueue r dsosEMessagequeueEmpty n
        else L.removeMessage r q msgPtr)
      (if s.maxMsg q = 0 then .ok (s.setRetvalue r dsosEMessagesize)
        else if s.msgNum q = 0 then s.blockOnQueue r dsosEMessagequeueEmpty
        else s.removeMessage r q msgPtr) := by
  rw [h.fields]
  refine Refines.ite Iff.rfl (.ok (h.setRetvalue r _)) ?_
  exact Refines.ite Iff.rfl (h.blockOnQueue hn hr _) (h.removeMessage r q msgPtr)

theorem internalMqReceive (h : L.Implements s) (hn : maxNumProcesses ≤ n) (hr : s.Unlisted r) :
    Refines Fault.Unchecked Implements (L.internalMqReceive r n) (s.internalMqReceive r) := by
  unfold LinkedKernel.internalMqReceive Kernel.internalMqReceive
  rw [h.fields,h.messagequeues.fields]
  simp only [Kernel.fields,DescriptorLayer.fields,DescriptorLayer.descrittoreListByMqd_eq,
    h.messagequeues.byFd_eq hn,ok_bind]
  cases s.messagequeues.byFd r (s.syscallArgs r 0) with
  | none => exact .ok (h.setRetvalue r _)
  | some des =>
    have hshort := h.reportShort (s.syscallArgs r 2 < s.msgSize (s.messagequeues.object des)) hr
    exact hshort.1.receiveRest hn hshort.2 _ _

end Implements

end DisastrOS.LinkedKernel
