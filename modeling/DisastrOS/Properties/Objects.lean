import DisastrOS.Behaviour.Steps

/-! # What descriptors and queues refer to

An open descriptor names an object that exists, so that destroying an unused object
takes it from nobody. A message block is on one queue for as long as it is handed out,
and goes back to the pool with the queue.
-/
namespace DisastrOS

namespace DescriptorLayer
variable {L : DescriptorLayer} {A : ℕ → Prop} {e : LayerErrors} {p d o : ℕ} {id v : ℤ}

/-- Every descriptor of an existing process belongs to it, names an object that exists,
and is named by exactly one entry of that object. -/
def NoDangling (L : DescriptorLayer) (allocated : ℕ → Prop) : Prop :=
  ∀ p, allocated p → ∀ d ∈ L.descriptors p,
    L.object d ∈ L.objectsList ∧ L.objectAllocator.Allocated (L.object d) ∧ L.pcb d = p ∧
      (L.descriptorsPtrs (L.object d)).count (L.ptr d) = 1 ∧ L.descriptor (L.ptr d) = d

theorem Linked.noDangling (h : L.Linked A) : L.NoDangling A := by
  intro p hp d hd
  obtain ⟨hal,hpcb⟩ := h.owned p hp d hd
  obtain ⟨hobj,hptr,hback⟩ := h.linked d hal
  exact ⟨hobj,(h.objects _).mpr hobj,hpcb,
    List.count_eq_one_of_mem (h.ptrsNodup _ hobj) hptr,hback⟩

theorem Linked.object_ne (h : L.Linked A) (hp : A p) (hd : d ∈ L.descriptors p)
    (hnil : L.descriptorsPtrs o = []) : L.object d ≠ o := by
  rintro rfl
  have hptr := (h.linked d (h.owned p hp d hd).1).2.1
  rw [hnil] at hptr
  cases hptr

/-- The objects that are freed between two states of a layer were named by no descriptor
of an existing process. -/
def FreesUnused (L L' : DescriptorLayer) (allocated : ℕ → Prop) : Prop :=
  ∀ o, L.objectAllocator.Allocated o → ¬ L'.objectAllocator.Allocated o →
    ∀ p, allocated p → ∀ d ∈ L.descriptors p, L.object d ≠ o

theorem FreesUnused.refl (L : DescriptorLayer) (allocated : ℕ → Prop) :
    L.FreesUnused L allocated := fun _ ho hfree => absurd ho hfree

theorem Linked.freesUnused (h : L.Linked A) (ho : o ∈ L.objectsList)
    (hnil : L.descriptorsPtrs o = []) : L.FreesUnused (L.destroyed o) A := by
  intro o' ho' hfree p hp d hd
  have hal := Pool.allocated_releaseBlock ((h.objects o).mpr ho) o'
  have heq : o' = o := by
    by_contra hne
    exact hfree (hal.mpr ⟨hne,ho'⟩)
  rw [heq]
  exact h.object_ne hp hd hnil

end DescriptorLayer

namespace Kernel
variable {s t : Kernel} {r q m : ℕ}

theorem internalMqUnlink_freesUnused (h : Inv s) : ∃ t, s.internalMqUnlink r = .ok t ∧
    s.messagequeues.FreesUnused t.messagequeues s.pcbAllocator.Allocated := by
  rcases internalMqUnlink_ok (r := r) h with ⟨v,heq⟩ | ⟨q,pool,hq,hnil,_,heq⟩
  · exact ⟨_,heq,.refl _ _⟩
  · exact ⟨_,heq,h.messagequeues.freesUnused hq hnil⟩

theorem internalDestroyResource_freesUnused (h : Inv s) :
    ∃ t, s.internalDestroyResource r = .ok t ∧
      s.resources.FreesUnused t.resources s.pcbAllocator.Allocated := by
  rcases DescriptorLayer.destroyObject_cases resourceErrors s.resources (s.syscallArgs r 0) with
    ⟨v,hok⟩ | ⟨o,hid,hnil,hok⟩
  · refine ⟨s.setRetvalue r v,?_,.refl _ _⟩
    simp only [internalDestroyResource_layer,hok,ok_bind]
  · refine ⟨{ s with resources := s.resources.destroyed o }.setRetvalue r 0,?_,
      h.resources.freesUnused (DescriptorLayer.byId_eq_some hid).1 hnil⟩
    simp only [internalDestroyResource_layer,hok,ok_bind]

/-- Every queue counts its messages, every message that is handed out is on exactly one
queue, where it occurs once, and a free block is on none. -/
def MessagesAccounted (s : Kernel) : Prop :=
  (∀ q ∈ s.messagequeues.objectsList, s.msgNum q = (s.messages q).length) ∧
  (∀ m, s.messageAllocator.Allocated m →
    ∃ q ∈ s.messagequeues.objectsList, (s.messages q).count m = 1 ∧
      ∀ q' ∈ s.messagequeues.objectsList, m ∈ s.messages q' → q' = q) ∧
  ∀ m, ¬ s.messageAllocator.Allocated m → ∀ q ∈ s.messagequeues.objectsList, m ∉ s.messages q

theorem Inv.messagesAccounted (h : Inv s) : s.MessagesAccounted := by
  have hmail := h.mailboxes
  refine ⟨hmail.count,?_,fun m hm q hq => hmail.not_mem_of_free hm hq⟩
  intro m hm
  obtain ⟨q,hq,hmq⟩ := (hmail.stored m).mp hm
  refine ⟨q,hq,List.count_eq_one_of_mem (hmail.nodup q hq) hmq,?_⟩
  exact fun q' hq' hmq' => hmail.disjoint q' hq' q hq m hmq' hmq

/-- The message blocks handed out behind an unlink are those of before without the
messages of the queues that are gone. -/
theorem internalMqUnlink_messages (h : Inv s) (hok : s.internalMqUnlink r = .ok t) :
    ∀ m, t.messageAllocator.Allocated m ↔ s.messageAllocator.Allocated m ∧
      ∀ q ∈ s.messagequeues.objectsList, q ∉ t.messagequeues.objectsList → m ∉ s.messages q := by
  intro m
  rcases internalMqUnlink_ok (r := r) h with ⟨v,heq⟩ | ⟨q,pool,hq,hnil,hpool,heq⟩
  · cases heq.symm.trans hok
    exact (and_iff_left fun q hq hgone => absurd hq hgone).symm
  · cases heq.symm.trans hok
    have hgone : ∀ q' ∈ s.messagequeues.objectsList,
        q' ∉ s.messagequeues.objectsList.erase q ↔ q' = q := by
      intro q' hq'
      rw [h.messagequeues.objectsNodup.mem_erase_iff]
      simp [hq']
    refine (hpool m).trans (and_congr_right fun _ => ?_)
    constructor
    · intro hmq q' hq' hq'gone
      rwa [(hgone q' hq').mp hq'gone]
    · exact fun hall => hall q hq ((hgone q hq).mpr rfl)

/-- An unlink of a queue that nobody has open succeeds: the queue leaves the system list, and
each of its messages goes back to the pool. -/
def UnlinkReturnsMessages (s : Kernel) (r : ℕ) (id : ℤ) : Prop :=
  ∀ q, s.messagequeues.messageQueueListById id = some q → s.messagequeues.descriptorsPtrs q = [] →
    ∃ t, (s.enterTrap r dsosCallMqUnlink [id]).internalMqUnlink r = .ok t ∧
      t.syscallRetvalue r = 0 ∧
      t.messagequeues.objectsList = s.messagequeues.objectsList.erase q ∧
      (∀ m, t.messageAllocator.Allocated m ↔
        s.messageAllocator.Allocated m ∧ m ∉ s.messages q) ∧
      t.messageAllocator.allocator.size =
        s.messageAllocator.allocator.size + (s.messages q).length

theorem Inv.unlinkReturnsMessages (h : Inv s) (hr : s.running = some r) (id : ℤ) :
    s.UnlinkReturnsMessages r id := by
  intro q hid hnil
  have h' := h.enterTrap hr dsosCallMqUnlink [id]
  have harg : (s.enterTrap r dsosCallMqUnlink [id]).syscallArgs r 0 = id :=
    syscallArgs_enterTrap (by decide)
  rw [DescriptorLayer.messageQueueListById_eq] at hid
  have hq := (DescriptorLayer.byId_eq_some hid).1
  obtain ⟨pool,hpool,hok⟩ := internalMqUnlink_eq h' (harg ▸ hid) hnil
  refine ⟨_,hok,Function.update_self _ _ _,rfl,hpool,?_⟩
  have hused := card_used_drained h hq hpool
  have hbefore := s.messageAllocator.size_add_card_used
  have hafter := pool.size_add_card_used
  change pool.allocator.size = _
  omega

/-- A receive never detaches a null message. -/
theorem internalMqReceive_error {f : Fault} (h : Inv s) (hr : s.running = some r)
    (hnum : SleepsOnTimer (s.syscallNum r)) (herr : s.internalMqReceive r = .error f) :
    f = .nullRunning ∨ f = .nullPointer := by
  rcases internalMqReceive_cases s r with ⟨_,v,_,heq⟩ | ⟨_,q,hq,heq⟩ | ⟨_,q,hp,heq⟩
  · cases heq.symm.trans herr
  · obtain ⟨u,_,_,hcases⟩ := blockOnQueue_spec (h.sizeChecked r q) hr hnum dsosEMessagequeueEmpty
    rcases hcases with ⟨_,hb⟩ | ⟨next,rest,_,hb⟩
    · cases (heq.trans hb).symm.trans herr
      exact Or.inl rfl
    · cases (heq.trans hb).symm.trans herr
  · have hmem := h.queueOf_mem (h.running_allocated hr) hp.1
    obtain ⟨m,rest,_,hrem⟩ := removeMessage_eq h hmem hp.2.2 (s.syscallArgs r 1)
    rw [heq,hrem] at herr
    split at herr
    · cases herr
      exact Or.inr rfl
    · cases herr

/-- Without queues every message block is on the free chain. -/
theorem Inv.messages_free (h : Inv s) (hnil : s.messagequeues.objectsList = []) :
    s.messageAllocator.allocator.size = maxNumMessages := by
  have hsize := s.messageAllocator.size_add_card_used
  have hused : s.messageAllocator.used = ∅ := by
    refine Finset.eq_empty_of_forall_notMem ?_
    intro m hm
    obtain ⟨q,hq,_⟩ := (h.mailboxes.stored m).mp (Pool.mem_used.mp hm)
    rw [hnil] at hq
    cases hq
  rw [hused,Finset.card_empty] at hsize
  omega

end Kernel

/-- In every reachable state each descriptor of an existing process names an object of
its layer that exists and that names it back. So an unlink of a queue and a destruction
of a resource end without a failed assertion, and free only what no process has open. -/
theorem descriptors_have_objects {s : Kernel} (hs : Reachable s) :
    s.messagequeues.NoDangling s.pcbAllocator.Allocated ∧
    s.resources.NoDangling s.pcbAllocator.Allocated ∧
    ∀ r num args, s.running = some r →
      (∃ t, (s.enterTrap r num args).internalMqUnlink r = .ok t ∧
        s.messagequeues.FreesUnused t.messagequeues s.pcbAllocator.Allocated) ∧
      ∃ t, (s.enterTrap r num args).internalDestroyResource r = .ok t ∧
        s.resources.FreesUnused t.resources s.pcbAllocator.Allocated := by
  have h := hs.inv
  refine ⟨h.messagequeues.noDangling,h.resources.noDangling,?_⟩
  intro r num args hr
  have h' := h.enterTrap hr num args
  exact ⟨Kernel.internalMqUnlink_freesUnused h',Kernel.internalDestroyResource_freesUnused h'⟩

/-- The child has the queue open that the first process has closed. -/
theorem descriptors_have_objects_run : ∃ s : Kernel, (s.messagequeues.descriptors 0 = [] ∧
    s.messagequeues.descriptors 1 = [1] ∧ s.running = some 1) ∧
    s.messagequeues.NoDangling s.pcbAllocator.Allocated ∧
    ∀ num args, ∃ t, (s.enterTrap 1 num args).internalMqUnlink 1 = .ok t ∧
      s.messagequeues.FreesUnused t.messagequeues s.pcbAllocator.Allocated := by
  obtain ⟨s,hs,hcheck⟩ := exists_run Transitions.unguarded
    [.call 5 [1,0],.ret,.call 10 [3,0,20,2,1],.ret,.tick,.call 10 [3,0,20,2,0],.ret,.tick,
      .call 11 [0],.ret,.tick]
    (fun s => s.messagequeues.descriptors 0 = [] && s.messagequeues.descriptors 1 = [1] &&
      s.running = some 1) (by decide)
  have hall : s.messagequeues.descriptors 0 = [] ∧ s.messagequeues.descriptors 1 = [1] ∧
      s.running = some 1 := by
    simpa [and_assoc] using hcheck
  obtain ⟨hmq,_,hfree⟩ := descriptors_have_objects hs
  exact ⟨s,hall,hmq,fun num args => (hfree 1 num args hall.2.2).1⟩

/-- In every reachable state the messages are accounted for. So an unlink of a queue that nobody
has open returns all its messages, however many, and no unlink returns others; a receive never
detaches a null message, and once no queue is left the message pool is entirely free. -/
theorem messages_accounted {s : Kernel} (hs : Reachable s) :
    s.MessagesAccounted ∧
    (∀ r id, s.running = some r → s.UnlinkReturnsMessages r id) ∧
    (∀ r num args t, s.running = some r → (s.enterTrap r num args).internalMqUnlink r = .ok t →
      ∀ m, t.messageAllocator.Allocated m ↔ s.messageAllocator.Allocated m ∧
        ∀ q ∈ s.messagequeues.objectsList, q ∉ t.messagequeues.objectsList → m ∉ s.messages q) ∧
    (∀ r args f, s.running = some r →
      (s.enterTrap r dsosCallMqReceive args).internalMqReceive r = .error f →
        f = .nullRunning ∨ f = .nullPointer) ∧
    (s.messagequeues.objectsList = [] → s.messageAllocator.allocator.size = maxNumMessages) := by
  have h := hs.inv
  refine ⟨h.messagesAccounted,fun r id hr => h.unlinkReturnsMessages hr id,?_,?_,h.messages_free⟩
  · intro r num args t hr hok
    have hpool := Kernel.internalMqUnlink_messages (h.enterTrap hr num args) hok
    exact hpool
  · intro r args f hr herr
    refine Kernel.internalMqReceive_error (h.enterTrap hr _ args) hr (Or.inr (Or.inr ?_)) herr
    exact Kernel.syscallNum_enterTrap s r dsosCallMqReceive args

/-- A queue with two unread messages, which nobody has open any more. Its unlink gives both back,
and no queue is left. -/
theorem messages_accounted_run : ∃ s t : Kernel, s.messages 0 = [0,1] ∧ s.running = some 0 ∧
    s.MessagesAccounted ∧ (s.enterTrap 0 dsosCallMqUnlink [3]).internalMqUnlink 0 = .ok t ∧
    t.syscallRetvalue 0 = 0 ∧ t.messagequeues.objectsList = [] ∧
    (∀ m, t.messageAllocator.Allocated m ↔ s.messageAllocator.Allocated m ∧ m ≠ 0 ∧ m ≠ 1) ∧
    t.messageAllocator.allocator.size = s.messageAllocator.allocator.size + 2 := by
  obtain ⟨s,hs,hcheck⟩ := exists_run Transitions.unguarded
    [.call 10 [3,0,20,5,1],.ret,.call 13 [0,100,5],.ret,.call 13 [0,100,5],.ret,.call 11 [0],.ret]
    (fun s => s.messages 0 = [0,1] && s.running = some 0 &&
      s.messagequeues.objectsList = [0] && s.messagequeues.descriptorsPtrs 0 = [] &&
      s.messagequeues.messageQueueListById 3 = some 0) (by decide)
  have hall : s.messages 0 = [0,1] ∧ s.running = some 0 ∧ s.messagequeues.objectsList = [0] ∧
      s.messagequeues.descriptorsPtrs 0 = [] ∧
      s.messagequeues.messageQueueListById 3 = some 0 := by
    simpa [and_assoc] using hcheck
  obtain ⟨hmail,hr,hlist,hptrs,hid⟩ := hall
  obtain ⟨hacc,hunlink,_,_,_⟩ := messages_accounted hs
  obtain ⟨t,hok,hret,hqueues,hpool,hsize⟩ := hunlink 0 3 hr 0 hid hptrs
  rw [hlist] at hqueues
  rw [hmail] at hsize
  refine ⟨s,t,hmail,hr,hacc,hok,hret,hqueues,?_,hsize⟩
  intro m
  rw [hpool m,hmail]
  simp

end DisastrOS
