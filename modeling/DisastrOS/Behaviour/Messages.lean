import DisastrOS.Behaviour.Scheduling

/-! # What the descriptor and message handlers do

Opening and closing only move descriptors; unlinking frees the messages left on the
queue; a send or a receive is refused, or blocks, or moves one message.
-/
namespace DisastrOS.Kernel
open DescriptorLayer

variable {s t u : Kernel} {r q m : ℕ} {f : Fault} {code : ℤ} {L : DescriptorLayer}

section Descriptors

theorem Inv.withResources (h : Inv s) (hL : L.Linked s.pcbAllocator.Allocated) :
    Inv { s with resources := L } := { h with resources := hL }

theorem Inv.withMessagequeues (h : Inv s) (hL : L.Linked s.pcbAllocator.Allocated)
    (hobj : L.objectsList = s.messagequeues.objectsList) : Inv { s with messagequeues := L } := by
  have hmail := h.mailboxes
  rw [← hobj] at hmail
  exact { h with messagequeues := hL, mailboxes := hmail }

/-- A new queue starts empty. -/
theorem Inv.withQueue (h : Inv s) (hL : L.Linked s.pcbAllocator.Allocated)
    (hq : q ∉ s.messagequeues.objectsList)
    (hobj : L.objectsList = listAppend s.messagequeues.objectsList q) (msgSize maxMsg : ℤ) :
    Inv ({ s with messagequeues := L }.initQueue msgSize maxMsg q) := by
  have hmail := h.mailboxes.create hq
  rw [← hobj] at hmail
  exact { h with messagequeues := hL, mailboxes := hmail }

theorem internalOpenResource_ok (h : Inv s) (hr : s.pcbAllocator.Allocated r)
    (hok : s.internalOpenResource r = .ok t) :
    ∃ L v, L.Linked s.pcbAllocator.Allocated ∧ s.resources.Keeps L (· = r) ∧
      t = { s with resources := L }.setRetvalue r v := by
  rw [internalOpenResource_layer] at hok
  obtain ⟨res,ho,hok⟩ := exists_of_bind_eq_ok hok
  obtain ⟨hL,hkeep,_⟩ := h.resources.openObject hr ho
  cases hok
  exact ⟨res.layer,res.retvalue,hL,hkeep,rfl⟩

theorem internalOpenResource_error (herr : s.internalOpenResource r = .error f) :
    f = .nullPointer := by
  rw [internalOpenResource_layer] at herr
  cases ho : s.resources.openObject resourceErrors r (s.syscallArgs r 0) (s.syscallArgs r 1)
      (s.syscallArgs r 2) with
  | error e =>
    simp only [ho,error_bind,Except.error.injEq] at herr
    exact herr ▸ DescriptorLayer.openObject_error ho
  | ok res => simp only [ho,ok_bind,reduceCtorEq] at herr

theorem internalCloseResource_ok (h : Inv s) (hr : s.pcbAllocator.Allocated r) :
    ∃ L v, L.Linked s.pcbAllocator.Allocated ∧ s.resources.Keeps L (· = r) ∧
      s.internalCloseResource r = .ok ({ s with resources := L }.setRetvalue r v) := by
  obtain ⟨res,hok,hL,_,hkeep⟩ :=
    h.resources.closeDescriptor (e := resourceErrors) hr (s.syscallArgs r 0)
  refine ⟨res.1,res.2,hL,hkeep,?_⟩
  simp only [internalCloseResource_layer,hok,ok_bind]

theorem internalDestroyResource_ok (h : Inv s) :
    ∃ L v, L.Linked s.pcbAllocator.Allocated ∧ s.resources.Keeps L (· = r) ∧
      s.internalDestroyResource r = .ok ({ s with resources := L }.setRetvalue r v) := by
  rcases DescriptorLayer.destroyObject_cases resourceErrors s.resources (s.syscallArgs r 0) with
    ⟨v,hok⟩ | ⟨o,hid,hnil,hok⟩
  · refine ⟨s.resources,v,h.resources,DescriptorLayer.Keeps.refl _ _,?_⟩
    simp only [internalDestroyResource_layer,hok,ok_bind]
  · refine ⟨_,0,h.resources.destroyed (DescriptorLayer.byId_eq_some hid).1 hnil,
      DescriptorLayer.keeps_destroyed _ o _,?_⟩
    simp only [internalDestroyResource_layer,hok,ok_bind]

/-- An open either leaves the queues alone or has created one. -/
theorem internalMqOpen_ok (h : Inv s) (hr : s.pcbAllocator.Allocated r)
    (hok : s.internalMqOpen r = .ok t) :
    ∃ L v, L.Linked s.pcbAllocator.Allocated ∧ s.messagequeues.Keeps L (· = r) ∧
      (L.objectsList = s.messagequeues.objectsList ∧
          t = { s with messagequeues := L }.setRetvalue r v ∨
        ∃ q, q ∉ s.messagequeues.objectsList ∧
          L.objectsList = listAppend s.messagequeues.objectsList q ∧
          t = ({ s with messagequeues := L }.initQueue (s.syscallArgs r 2) (s.syscallArgs r 3)
            q).setRetvalue r v) := by
  rw [internalMqOpen_layer] at hok
  obtain ⟨res,ho,hok⟩ := exists_of_bind_eq_ok hok
  obtain ⟨hL,hkeep,hcases⟩ := h.messagequeues.openObject hr ho
  refine ⟨res.layer,res.retvalue,hL,hkeep,?_⟩
  rcases hcases with ⟨hcr,hobj⟩ | ⟨q,hcr,hq,hobj⟩
  · simp only [hcr,Except.ok.injEq] at hok
    exact Or.inl ⟨hobj,hok.symm⟩
  · simp only [hcr,Except.ok.injEq] at hok
    exact Or.inr ⟨q,hq,hobj,hok.symm⟩

theorem internalMqOpen_error (herr : s.internalMqOpen r = .error f) : f = .nullPointer := by
  rw [internalMqOpen_layer] at herr
  cases ho : s.messagequeues.openObject messagequeueErrors r (s.syscallArgs r 0)
      (s.syscallArgs r 1) (s.syscallArgs r 4) with
  | error e =>
    simp only [ho,error_bind,Except.error.injEq] at herr
    exact herr ▸ DescriptorLayer.openObject_error ho
  | ok res =>
    simp only [ho,ok_bind] at herr
    cases hcr : res.created <;> simp only [hcr,reduceCtorEq] at herr

theorem internalMqClose_ok (h : Inv s) (hr : s.pcbAllocator.Allocated r) :
    ∃ L v, L.Linked s.pcbAllocator.Allocated ∧ L.objectsList = s.messagequeues.objectsList ∧
      s.messagequeues.Keeps L (· = r) ∧
      s.internalMqClose r = .ok ({ s with messagequeues := L }.setRetvalue r v) := by
  obtain ⟨res,hok,hL,hobj,hkeep⟩ :=
    h.messagequeues.closeDescriptor (e := messagequeueErrors) hr (s.syscallArgs r 0)
  refine ⟨res.1,res.2,hL,hobj,hkeep,?_⟩
  simp only [internalMqClose_layer,hok,ok_bind]

/-- The state behind the loop that frees the messages of `q`. -/
def drained (s : Kernel) (q : ℕ) (pool : Pool maxNumMessages) : Kernel :=
  { s with
    messages := Function.update s.messages q []
    messageAllocator := pool }

theorem freeMessages_ok {n : ℕ} (hn : (s.messages q).length = n) (hnodup : (s.messages q).Nodup)
    (hal : ∀ k ∈ s.messages q, s.messageAllocator.Allocated k) :
    ∃ pool, freeMessages q n s = .ok (s.drained q pool) ∧
      ∀ k, pool.Allocated k ↔ s.messageAllocator.Allocated k ∧ k ∉ s.messages q := by
  induction n generalizing s with
  | zero =>
    have hnil := List.length_eq_zero_iff.mp hn
    refine ⟨s.messageAllocator,?_,fun k => by simp [hnil]⟩
    have hs : Function.update s.messages q [] = s.messages := by
      rw [← hnil,Function.update_eq_self]
    simp only [freeMessages,drained,hs]
  | succ n ih =>
    cases hl : s.messages q with
    | nil => simp [hl] at hn
    | cons m rest =>
      rw [hl] at hn hnodup hal
      obtain ⟨hm,hrest⟩ := List.nodup_cons.mp hnodup
      have hrel := Pool.allocated_releaseBlock (hal m List.mem_cons_self)
      let v : Kernel := { s with
        messages := Function.update s.messages q rest
        messageAllocator := s.messageAllocator.releaseBlock m }
      have hv : v.messages q = rest := Function.update_self _ _ _
      obtain ⟨pool,hok,hpool⟩ := ih (s := v) (by rw [hv]; simpa using hn) (by rwa [hv]) (by
        intro k hk
        rw [hv] at hk
        refine (hrel k).mpr ⟨?_,hal k (List.mem_cons_of_mem _ hk)⟩
        rintro rfl
        exact hm hk)
      refine ⟨pool,?_,?_⟩
      · simp only [freeMessages,hl,List.head?_cons,listDetach_cons,ok_bind]
        refine hok.trans ?_
        simp only [drained,v,Function.update_idem]
      · intro k
        have hvk : v.messageAllocator.Allocated k ↔ k ≠ m ∧ s.messageAllocator.Allocated k := hrel k
        rw [hpool k,hv,hvk,List.mem_cons]
        constructor
        · rintro ⟨⟨hkm,hk⟩,hkr⟩
          exact ⟨hk,fun hc => hc.elim hkm hkr⟩
        · rintro ⟨hk,hc⟩
          exact ⟨⟨fun hkm => hc (Or.inl hkm),hk⟩,fun hkr => hc (Or.inr hkr)⟩

/-- An unused queue is freed with all its messages. -/
theorem internalMqUnlink_eq (h : Inv s) (hid : s.messagequeues.byId (s.syscallArgs r 0) = some q)
    (hnil : s.messagequeues.descriptorsPtrs q = []) :
    ∃ pool, (∀ k, pool.Allocated k ↔ s.messageAllocator.Allocated k ∧ k ∉ s.messages q) ∧
      s.internalMqUnlink r = .ok (({ s with
        messagequeues := s.messagequeues.destroyed q }.drained q pool).setRetvalue r 0) := by
  have hq := (DescriptorLayer.byId_eq_some hid).1
  have hcount := h.mailboxes.count q hq
  have hok := DescriptorLayer.destroyObject_eq messagequeueErrors hid hnil
  obtain ⟨pool,hfree,hpool⟩ := freeMessages_ok
    (s := { s with messagequeues := s.messagequeues.destroyed q }) (q := q)
    (n := (s.msgNum q).toNat) (by rw [hcount]; rfl) (h.mailboxes.nodup q hq)
    (fun k hk => (h.mailboxes.stored k).mpr ⟨q,hq,hk⟩)
  refine ⟨pool,hpool,?_⟩
  simp only [internalMqUnlink_layer,hok,ok_bind,hfree]

/-- An unlink either reports an error or frees the queue with all its messages. -/
theorem internalMqUnlink_ok (h : Inv s) :
    (∃ v, s.internalMqUnlink r = .ok (s.setRetvalue r v)) ∨
    ∃ q pool, q ∈ s.messagequeues.objectsList ∧ s.messagequeues.descriptorsPtrs q = [] ∧
      (∀ k, pool.Allocated k ↔ s.messageAllocator.Allocated k ∧ k ∉ s.messages q) ∧
      s.internalMqUnlink r = .ok (({ s with
        messagequeues := s.messagequeues.destroyed q }.drained q pool).setRetvalue r 0) := by
  rcases DescriptorLayer.destroyObject_cases messagequeueErrors s.messagequeues
      (s.syscallArgs r 0) with ⟨v,hok⟩ | ⟨q,hid,hnil,_⟩
  · refine Or.inl ⟨v,?_⟩
    simp only [internalMqUnlink_layer,hok,ok_bind]
  · obtain ⟨pool,hpool,heq⟩ := internalMqUnlink_eq h hid hnil
    exact Or.inr ⟨q,pool,(DescriptorLayer.byId_eq_some hid).1,hnil,hpool,heq⟩

theorem Inv.drained (h : Inv s) (hq : q ∈ s.messagequeues.objectsList)
    (hnil : s.messagequeues.descriptorsPtrs q = []) {pool : Pool maxNumMessages}
    (hpool : ∀ k, pool.Allocated k ↔ s.messageAllocator.Allocated k ∧ k ∉ s.messages q) :
    Inv ({ s with messagequeues := s.messagequeues.destroyed q }.drained q pool) :=
  { h with
    messagequeues := h.messagequeues.destroyed hq hnil
    mailboxes := h.mailboxes.discard h.messagequeues.objectsNodup hq hpool }

theorem card_used_drained (h : Inv s) (hq : q ∈ s.messagequeues.objectsList)
    {pool : Pool maxNumMessages}
    (hpool : ∀ m, pool.Allocated m ↔ s.messageAllocator.Allocated m ∧ m ∉ s.messages q) :
    pool.used.card + (s.messages q).length = s.messageAllocator.used.card := by
  have hused : pool.used = s.messageAllocator.used \ (s.messages q).toFinset := by
    ext m
    rw [Finset.mem_sdiff,Pool.mem_used,Pool.mem_used,List.mem_toFinset,hpool]
  have hsub : (s.messages q).toFinset ⊆ s.messageAllocator.used := by
    intro m hm
    exact Pool.mem_used.mpr ((h.mailboxes.stored m).mpr ⟨q,hq,List.mem_toFinset.mp hm⟩)
  rw [hused,← List.toFinset_card_of_nodup (h.mailboxes.nodup q hq)]
  exact Finset.card_sdiff_add_card_eq_card hsub

end Descriptors

section Transfers

/-- The queue of the descriptor that a send or a receive names. -/
def queueOf (s : Kernel) (r : ℕ) : Option ℕ :=
  (s.messagequeues.byFd r (s.syscallArgs r 0)).map s.messagequeues.object

/-- A send passes its checks and finds the queue full. -/
def SendBlocks (s : Kernel) (r : ℕ) : Prop :=
  ∃ q ∈ s.queueOf r, s.syscallArgs r 2 ≤ s.msgSize q ∧ s.maxMsg q ≠ 0 ∧ s.msgNum q = s.maxMsg q

/-- A receive passes its checks and finds the queue empty. -/
def ReceiveBlocks (s : Kernel) (r : ℕ) : Prop :=
  ∃ q ∈ s.queueOf r, s.maxMsg q ≠ 0 ∧ s.msgNum q = 0

/-- A send of `r` passes all checks, with `q` as its queue. -/
def SendPasses (s : Kernel) (r q : ℕ) : Prop :=
  q ∈ s.queueOf r ∧ s.syscallArgs r 2 ≤ s.msgSize q ∧ s.maxMsg q ≠ 0 ∧ s.msgNum q ≠ s.maxMsg q

/-- A receive of `r` passes all checks, with `q` as its queue. -/
def ReceivePasses (s : Kernel) (r q : ℕ) : Prop :=
  q ∈ s.queueOf r ∧ s.maxMsg q ≠ 0 ∧ s.msgNum q ≠ 0

instance (s : Kernel) (r : ℕ) : Decidable (s.SendBlocks r) := inferInstanceAs
  (Decidable (∃ q ∈ s.queueOf r, _ ∧ _ ∧ _))

instance (s : Kernel) (r : ℕ) : Decidable (s.ReceiveBlocks r) := inferInstanceAs
  (Decidable (∃ q ∈ s.queueOf r, _ ∧ _))

instance (s : Kernel) (r q : ℕ) : Decidable (s.SendPasses r q) :=
  inferInstanceAs (Decidable (_ ∧ _ ∧ _ ∧ _))

instance (s : Kernel) (r q : ℕ) : Decidable (s.ReceivePasses r q) :=
  inferInstanceAs (Decidable (_ ∧ _ ∧ _))

/-- The state behind the check of a receive that does not return. -/
def sizeChecked (s : Kernel) (r q : ℕ) : Kernel :=
  { s with
    syscallRetvalue := if s.syscallArgs r 2 < s.msgSize q
      then Function.update s.syscallRetvalue r dsosEMessagesize else s.syscallRetvalue }

theorem queueOf_eq_some (hq : q ∈ s.queueOf r) :
    ∃ d, s.messagequeues.byFd r (s.syscallArgs r 0) = some d ∧ s.messagequeues.object d = q := by
  unfold queueOf at hq
  exact Option.map_eq_some_iff.mp hq

/-- The queue a descriptor names is on the system list. -/
theorem Inv.queueOf_mem (h : Inv s) (hr : s.pcbAllocator.Allocated r) (hq : q ∈ s.queueOf r) :
    q ∈ s.messagequeues.objectsList := by
  obtain ⟨d,hd,rfl⟩ := queueOf_eq_some hq
  have hown := (h.messagequeues.owned r hr d (DescriptorLayer.byFd_eq_some hd).1).1
  exact (h.messagequeues.linked d hown).1

theorem blockOnQueue_spec (h : Inv s) (hr : s.running = some r)
    (hnum : SleepsOnTimer (s.syscallNum r)) (code : ℤ) :
    ∃ u, Slept s r u ∧ Inv u ∧
      ((s.readyList = [] ∧ s.blockOnQueue r code = .error .nullRunning) ∨
        ∃ next rest, s.readyList = next :: rest ∧ s.blockOnQueue r code =
          .ok (((u.dispatched next rest).record (.slept r)).setRetvalue next code)) := by
  obtain ⟨u,hslept,hu,hcases⟩ := goToSleep_spec h hr hnum 25
  refine ⟨u,hslept,hu,?_⟩
  have hnot : ¬ (s.timer r).isSome := by simp [h.noTimer r]
  rcases hcases with ⟨hnil,hgo⟩ | ⟨next,rest,hready,hgo⟩
  · have hrun : u.running = none := by
      obtain ⟨⟩ := hslept
      rfl
    exact Or.inl ⟨hnil,by simp only [blockOnQueue,if_neg hnot,hgo,hrun]⟩
  · exact Or.inr ⟨next,rest,hready,by simp only [blockOnQueue,if_neg hnot,hgo]; rfl⟩

theorem internalMqSend_none (hq : s.queueOf r = none) :
    s.internalMqSend r = .ok (s.setRetvalue r dsosEMessagequeueClose) := by
  have hd := Option.map_eq_none_iff.mp hq
  simp only [internalMqSend,descrittoreListByMqd_eq,hd]

theorem internalMqSend_some (hq : q ∈ s.queueOf r) :
    s.internalMqSend r =
      if s.msgSize q < s.syscallArgs r 2 then .ok (s.setRetvalue r dsosEMessagesize)
      else if s.maxMsg q = 0 then .ok (s.setRetvalue r dsosEMessagesize)
      else if s.msgNum q = s.maxMsg q then s.blockOnQueue r dsosEMessagequeueFull
      else s.appendMessage r q (s.syscallArgs r 1) := by
  obtain ⟨d,hd,rfl⟩ := queueOf_eq_some hq
  simp only [internalMqSend,descrittoreListByMqd_eq,hd]

theorem internalMqReceive_none (hq : s.queueOf r = none) :
    s.internalMqReceive r = .ok (s.setRetvalue r dsosEMessagequeueClose) := by
  have hd := Option.map_eq_none_iff.mp hq
  simp only [internalMqReceive,descrittoreListByMqd_eq,hd]

theorem internalMqReceive_some (hq : q ∈ s.queueOf r) :
    s.internalMqReceive r =
      if s.maxMsg q = 0 then .ok ((s.sizeChecked r q).setRetvalue r dsosEMessagesize)
      else if s.msgNum q = 0 then (s.sizeChecked r q).blockOnQueue r dsosEMessagequeueEmpty
      else (s.sizeChecked r q).removeMessage r q (s.syscallArgs r 1) := by
  obtain ⟨d,hd,rfl⟩ := queueOf_eq_some hq
  have hchecked : (if s.syscallArgs r 2 < s.msgSize (s.messagequeues.object d)
      then s.setRetvalue r dsosEMessagesize else s) = s.sizeChecked r (s.messagequeues.object d) := by
    unfold sizeChecked setRetvalue
    split <;> rfl
  simp only [internalMqReceive,descrittoreListByMqd_eq,hd,hchecked]
  rfl

theorem internalMqSend_passes (hp : s.SendPasses r q) :
    s.internalMqSend r = s.appendMessage r q (s.syscallArgs r 1) := by
  obtain ⟨hq,hlen,hmax,hroom⟩ := hp
  rw [internalMqSend_some hq,if_neg (not_lt.mpr hlen),if_neg hmax,if_neg hroom]

/-- A send is refused with a negative code, or blocks, or goes on to append. -/
theorem internalMqSend_cases (s : Kernel) (r : ℕ) :
    (¬ s.SendBlocks r ∧ ∃ v < 0, s.internalMqSend r = .ok (s.setRetvalue r v)) ∨
    (s.SendBlocks r ∧ s.internalMqSend r = s.blockOnQueue r dsosEMessagequeueFull) ∨
    (¬ s.SendBlocks r ∧ ∃ q, s.SendPasses r q ∧
      s.internalMqSend r = s.appendMessage r q (s.syscallArgs r 1)) := by
  have hsize : dsosEMessagesize < 0 := by decide
  unfold SendBlocks
  cases hq : s.queueOf r with
  | none =>
    have hclose : dsosEMessagequeueClose < 0 := by decide
    exact Or.inl ⟨by simp,_,hclose,internalMqSend_none hq⟩
  | some q =>
    simp only [Option.mem_some_iff,exists_eq_left']
    rw [internalMqSend_some hq]
    by_cases hlen : s.msgSize q < s.syscallArgs r 2
    · exact Or.inl ⟨by omega,_,hsize,if_pos hlen⟩
    · rw [if_neg hlen]
      by_cases hmax : s.maxMsg q = 0
      · exact Or.inl ⟨by simp [hmax],_,hsize,if_pos hmax⟩
      · rw [if_neg hmax]
        by_cases hfull : s.msgNum q = s.maxMsg q
        · exact Or.inr (Or.inl ⟨⟨by omega,hmax,hfull⟩,if_pos hfull⟩)
        · exact Or.inr (Or.inr ⟨by simp [hfull],q,⟨hq,not_lt.mp hlen,hmax,hfull⟩,if_neg hfull⟩)

/-- The state behind a receive that removes the message `m`. -/
def removed (s : Kernel) (r q m : ℕ) (rest : List ℕ) (msgPtr : ℤ) : Kernel :=
  ({ s with
    messages := Function.update s.messages q rest
    chars := writeString s.chars msgPtr (s.message m)
    messageAllocator := s.messageAllocator.releaseBlock m
    msgNum := Function.update s.msgNum q (s.msgNum q - 1) }.record
      (.received r q (s.message m))).setRetvalue r 0

theorem removeMessage_removed (s : Kernel) (r q : ℕ) (msgPtr : ℤ) :
    s.removeMessage r q msgPtr = listDetach (s.messages q) (s.messages q).head? >>= fun v =>
      if msgPtr = 0 then .error .nullPointer else .ok (s.removed r q v.1 v.2 msgPtr) := rfl

/-- The code of a buffer that is too short is gone when the receive succeeds. -/
theorem removeMessage_sizeChecked (s : Kernel) (r q : ℕ) (msgPtr : ℤ) :
    (s.sizeChecked r q).removeMessage r q msgPtr = s.removeMessage r q msgPtr := by
  have hretvalue : Function.update (s.sizeChecked r q).syscallRetvalue r 0 =
      Function.update s.syscallRetvalue r 0 := by
    unfold sizeChecked
    split
    · exact Function.update_idem _ _ _
    · rfl
  have hremoved : ∀ m rest,
      (s.sizeChecked r q).removed r q m rest msgPtr = s.removed r q m rest msgPtr := by
    intro m rest
    simp only [removed,setRetvalue,record,hretvalue]
    rfl
  rw [removeMessage_removed,removeMessage_removed]
  simp only [hremoved]
  rfl

theorem setRetvalue_sizeChecked (s : Kernel) (r q : ℕ) (v : ℤ) :
    (s.sizeChecked r q).setRetvalue r v = s.setRetvalue r v := by
  unfold sizeChecked setRetvalue
  dsimp only
  split
  · rw [Function.update_idem]
  · rfl

theorem internalMqReceive_passes (hp : s.ReceivePasses r q) :
    s.internalMqReceive r = s.removeMessage r q (s.syscallArgs r 1) := by
  obtain ⟨hq,hmax,hne⟩ := hp
  rw [internalMqReceive_some hq,if_neg hmax,if_neg hne,removeMessage_sizeChecked]

/-- A receive is refused with a negative code, or blocks, or goes on to remove. -/
theorem internalMqReceive_cases (s : Kernel) (r : ℕ) :
    (¬ s.ReceiveBlocks r ∧ ∃ v < 0, s.internalMqReceive r = .ok (s.setRetvalue r v)) ∨
    (s.ReceiveBlocks r ∧ ∃ q ∈ s.queueOf r,
      s.internalMqReceive r = (s.sizeChecked r q).blockOnQueue r dsosEMessagequeueEmpty) ∨
    (¬ s.ReceiveBlocks r ∧ ∃ q, s.ReceivePasses r q ∧
      s.internalMqReceive r = s.removeMessage r q (s.syscallArgs r 1)) := by
  unfold ReceiveBlocks
  cases hq : s.queueOf r with
  | none =>
    have hclose : dsosEMessagequeueClose < 0 := by decide
    exact Or.inl ⟨by simp,_,hclose,internalMqReceive_none hq⟩
  | some q =>
    simp only [Option.mem_some_iff,exists_eq_left']
    rw [internalMqReceive_some hq,setRetvalue_sizeChecked,removeMessage_sizeChecked]
    by_cases hmax : s.maxMsg q = 0
    · have hsize : dsosEMessagesize < 0 := by decide
      exact Or.inl ⟨by simp [hmax],_,hsize,if_pos hmax⟩
    · rw [if_neg hmax]
      by_cases hempty : s.msgNum q = 0
      · exact Or.inr (Or.inl ⟨⟨hmax,hempty⟩,if_pos hempty⟩)
      · exact Or.inr (Or.inr ⟨by simp [hempty],q,⟨hq,hmax,hempty⟩,if_neg hempty⟩)

/-- The state behind a send that appends the message `m`. -/
def appended (s : Kernel) (r q m : ℕ) (pool : Pool maxNumMessages) (text : List UInt8) : Kernel :=
  ({ s with
    messageAllocator := pool
    messageId := Function.update s.messageId m (s.msgNum q)
    messages := Function.update s.messages q (listAppend (s.messages q) m)
    message := Function.update s.message m text
    msgNum := Function.update s.msgNum q (s.msgNum q + 1) }.record (.sent r q text)).setRetvalue r 0

@[simp] theorem running_appended (s : Kernel) (r q m : ℕ) (pool : Pool maxNumMessages)
    (text : List UInt8) : (s.appended r q m pool text).running = s.running := rfl

@[simp] theorem shutdownNow_appended (s : Kernel) (r q m : ℕ) (pool : Pool maxNumMessages)
    (text : List UInt8) : (s.appended r q m pool text).shutdownNow = s.shutdownNow := rfl

@[simp] theorem running_removed (s : Kernel) (r q m : ℕ) (rest : List ℕ) (msgPtr : ℤ) :
    (s.removed r q m rest msgPtr).running = s.running := rfl

@[simp] theorem shutdownNow_removed (s : Kernel) (r q m : ℕ) (rest : List ℕ) (msgPtr : ℤ) :
    (s.removed r q m rest msgPtr).shutdownNow = s.shutdownNow := rfl

theorem appendMessage_none (hb : s.messageAllocator.getBlock = none) (msgPtr : ℤ) :
    s.appendMessage r q msgPtr = .error .nullPointer := by
  simp only [appendMessage,messageAlloc,hb]

theorem appendMessage_some {pool : Pool maxNumMessages}
    (hb : s.messageAllocator.getBlock = some (m,pool)) (msgPtr : ℤ) :
    s.appendMessage r q msgPtr =
      s.copyIn msgPtr >>= fun text => .ok (s.appended r q m pool text) := by
  simp only [appendMessage,messageAlloc,hb]
  rfl

theorem appendMessage_ok {msgPtr : ℤ} (hok : s.appendMessage r q msgPtr = .ok t) :
    ∃ m pool text, s.messageAllocator.getBlock = some (m,pool) ∧ s.copyIn msgPtr = .ok text ∧
      t = s.appended r q m pool text := by
  cases hb : s.messageAllocator.getBlock with
  | none => cases (appendMessage_none hb msgPtr).symm.trans hok
  | some b =>
    obtain ⟨m,pool⟩ := b
    rw [appendMessage_some hb] at hok
    obtain ⟨text,hc,hok⟩ := exists_of_bind_eq_ok hok
    cases hok
    exact ⟨m,pool,text,rfl,hc,rfl⟩

/-- An append fails for want of a block, on a null pointer or on a long string. -/
theorem appendMessage_error {msgPtr : ℤ} (herr : s.appendMessage r q msgPtr = .error f) :
    f = .nullPointer ∨ f = .overrun := by
  cases hb : s.messageAllocator.getBlock with
  | none =>
    cases (appendMessage_none hb msgPtr).symm.trans herr
    exact Or.inl rfl
  | some b =>
    rw [appendMessage_some hb] at herr
    cases hc : s.copyIn msgPtr with
    | error e =>
      simp only [hc,error_bind,Except.error.injEq] at herr
      subst herr
      unfold copyIn at hc
      split at hc
      · cases hc
        exact Or.inl rfl
      · split at hc
        · cases hc
          exact Or.inr rfl
        · cases hc
    | ok text => simp only [hc,ok_bind,reduceCtorEq] at herr

/-- A queue whose count is not zero has a first message, so the detach finds it. -/
theorem removeMessage_eq (h : Inv s) (hq : q ∈ s.messagequeues.objectsList) (hnum : s.msgNum q ≠ 0)
    (msgPtr : ℤ) : ∃ m rest, s.messages q = m :: rest ∧ s.removeMessage r q msgPtr =
      if msgPtr = 0 then .error .nullPointer else .ok (s.removed r q m rest msgPtr) := by
  have hcount := h.mailboxes.count q hq
  cases hl : s.messages q with
  | nil =>
    rw [hl] at hcount
    exact absurd hcount hnum
  | cons m rest =>
    refine ⟨m,rest,rfl,?_⟩
    simp only [removeMessage_removed,hl,List.head?_cons,listDetach_cons,ok_bind]

theorem Inv.sizeChecked (h : Inv s) (r q : ℕ) : Inv (s.sizeChecked r q) := { h with }

theorem Inv.appended (h : Inv s) (hq : q ∈ s.messagequeues.objectsList)
    {pool : Pool maxNumMessages} (hb : s.messageAllocator.getBlock = some (m,pool))
    (text : List UInt8) : Inv (s.appended r q m pool text) := by
  obtain ⟨hfree,_,hal⟩ := Pool.getBlock_eq_some hb
  exact { h with mailboxes := h.mailboxes.append hq hfree hal }

theorem Inv.removed (h : Inv s) (hq : q ∈ s.messagequeues.objectsList) {rest : List ℕ}
    (hcons : s.messages q = m :: rest) (msgPtr : ℤ) : Inv (s.removed r q m rest msgPtr) := by
  have hm : s.messageAllocator.Allocated m := (h.mailboxes.stored m).mpr ⟨q,hq,by
    rw [hcons]
    exact List.mem_cons_self⟩
  exact { h with mailboxes := h.mailboxes.remove hq hcons (Pool.allocated_releaseBlock hm) }

end Transfers

end DisastrOS.Kernel
