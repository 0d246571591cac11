import DisastrOS.Properties.Lengths

/-! # The ids of the messages

A message gets the number of messages on its queue for an id. This number falls with every
receive, so that it can come back while the message that has got it is still on the queue.
-/
namespace DisastrOS

namespace Mail

/-- The ids on a queue, the oldest message first. -/
def ids (k : Mail) (q : ℕ) : List ℤ := (k.messages q).map k.messageId

variable {k : Mail} {q q' m : ℕ} {text : List UInt8}

/-- The block of a new message is on no queue, so no other message gets its id. -/
theorem ids_put (hm : ∀ q' ∈ k.queues, m ∉ k.messages q') (hq' : q' ∈ k.queues) :
    (k.put q m text).ids q' = Function.update k.ids q (k.ids q ++ [k.msgNum q]) q' := by
  have hsame : ∀ j ∈ k.messages q', (k.put q m text).messageId j = k.messageId j := by
    intro j hj
    apply Function.update_of_ne
    rintro rfl
    exact hm q' hq' hj
  have hold : (k.messages q').map (k.put q m text).messageId = k.ids q' :=
    List.map_congr_left hsame
  by_cases hqq : q' = q
  · subst hqq
    have hmsgs : (k.put q' m text).messages q' = k.messages q' ++ [m] := Function.update_self _ _ _
    have hid : (k.put q' m text).messageId m = k.msgNum q' := Function.update_self _ _ _
    rw [Function.update_self,ids,hmsgs,List.map_append,hold,List.map_singleton,hid]
  · have hmsgs : (k.put q m text).messages q' = k.messages q' := Function.update_of_ne hqq _ _
    rw [Function.update_of_ne hqq,ids,hmsgs,hold]

theorem ids_create {msgSize maxMsg : ℤ} :
    (k.create q msgSize maxMsg).ids = Function.update k.ids q [] := by
  funext q'
  by_cases hqq : q' = q
  · subst hqq
    have hmsgs : (k.create q' msgSize maxMsg).messages q' = [] := Function.update_self _ _ _
    rw [Function.update_self,ids,hmsgs,List.map_nil]
  · have hmsgs : (k.create q msgSize maxMsg).messages q' = k.messages q' :=
      Function.update_of_ne hqq _ _
    rw [Function.update_of_ne hqq,ids,hmsgs]
    rfl

/-- The ids on each queue of the system list are pairwise different. -/
def UniqueIds (k : Mail) : Prop := ∀ q ∈ k.queues, (k.ids q).Nodup

theorem UniqueIds.create (hk : k.UniqueIds) {msgSize maxMsg : ℤ} :
    (k.create q msgSize maxMsg).UniqueIds := by
  intro q' hq'
  rw [ids_create]
  by_cases hqq : q' = q
  · subst hqq
    rw [Function.update_self]
    exact List.nodup_nil
  · rw [Function.update_of_ne hqq]
    exact hk q' ((mem_listAppend.mp hq').resolve_right hqq)

theorem UniqueIds.unlink (hk : k.UniqueIds) (hnodup : k.queues.Nodup) :
    (k.unlink q).UniqueIds := by
  intro q' hq'
  obtain ⟨hqq,hq'⟩ := hnodup.mem_erase_iff.mp hq'
  have hmsgs : (k.unlink q).messages q' = k.messages q' := Function.update_of_ne hqq _ _
  rw [ids,hmsgs]
  exact hk q' hq'

theorem UniqueIds.take (hk : k.UniqueIds) {rest : List ℕ} (hcons : k.messages q = m :: rest) :
    (k.take q rest).UniqueIds := by
  intro q' hq'
  have hids := hk q' hq'
  by_cases hqq : q' = q
  · subst hqq
    have hmsgs : (k.take q' rest).messages q' = rest := Function.update_self _ _ _
    rw [ids,hcons,List.map_cons] at hids
    rw [ids,hmsgs]
    exact hids.of_cons
  · have hmsgs : (k.take q rest).messages q' = k.messages q' := Function.update_of_ne hqq _ _
    rw [ids,hmsgs]
    exact hids

theorem UniqueIds.put_iff (hk : k.UniqueIds) (hm : ∀ q' ∈ k.queues, m ∉ k.messages q')
    (hq : q ∈ k.queues) : (k.put q m text).UniqueIds ↔ k.msgNum q ∉ k.ids q := by
  constructor
  · intro hput
    have hnew := hput q hq
    rw [ids_put hm hq,Function.update_self] at hnew
    intro hmem
    exact List.disjoint_of_nodup_append hnew hmem List.mem_cons_self
  · intro hnot q' hq'
    rw [ids_put hm hq']
    by_cases hqq : q' = q
    · subst hqq
      rw [Function.update_self]
      exact (hk q' hq').append (List.nodup_singleton _) (List.disjoint_singleton.mpr hnot)
    · rw [Function.update_of_ne hqq]
      exact hk q' hq'

end Mail

namespace Kernel

/-- The ids of the messages on each queue are pairwise different. -/
def UniqueIds (s : Kernel) : Prop :=
  ∀ q ∈ s.messagequeues.objectsList, ((s.messages q).map s.messageId).Nodup

/-- A send that passes its checks goes to a queue none of whose messages has got the number of
messages that are on it now. -/
def KeepsIds (s : Kernel) : Action → Prop
  | .call num args => num = dsosCallMqSend → ∀ r ∈ s.running,
      ∀ q ∈ (s.enterTrap r num args).queueOf r, args.getD 2 0 ≤ s.msgSize q → s.maxMsg q ≠ 0 →
        s.msgNum q ≠ s.maxMsg q → ∀ m ∈ s.messages q, s.messageId m ≠ s.msgNum q
  | _ => True

instance (s : Kernel) : (a : Action) → Decidable (s.KeepsIds a)
  | .call num args => inferInstanceAs (Decidable (num = dsosCallMqSend → ∀ r ∈ s.running,
      ∀ q ∈ (s.enterTrap r num args).queueOf r, args.getD 2 0 ≤ s.msgSize q → s.maxMsg q ≠ 0 →
        s.msgNum q ≠ s.maxMsg q → ∀ m ∈ s.messages q, s.messageId m ≠ s.msgNum q))
  | .tick | .ret | .store _ _ | .resumeMain => instDecidableTrue

variable {s t : Kernel} {a : Action}

theorem uniqueIds_mail (s : Kernel) : s.mail.UniqueIds ↔ s.UniqueIds := Iff.rfl

theorem keepsIds_of_ne {num : ℤ} {args : List ℤ} (hnum : num ≠ dsosCallMqSend) :
    s.KeepsIds (.call num args) := fun hsend => absurd hsend hnum

theorem NoTransfer.keepsIds (ha : s.NoTransfer a) : s.KeepsIds a := by
  cases a with
  | call num args =>
    rintro rfl r hr q hq hlen hzero hroom
    have harg : (s.enterTrap r dsosCallMqSend args).syscallArgs r 2 = args.getD 2 0 :=
      syscallArgs_enterTrap (by decide)
    exact absurd ⟨hq,harg ▸ hlen,hzero,hroom⟩ (ha.send args r q rfl hr)
  | _ => trivial

/-- For a send that passes its checks, the guard is about the ids on its queue. -/
theorem keepsIds_send_iff {args : List ℤ} {r q : ℕ} (hr : s.running = some r)
    (hp : (s.enterTrap r dsosCallMqSend args).SendPasses r q) :
    s.KeepsIds (.call dsosCallMqSend args) ↔ s.mail.msgNum q ∉ s.mail.ids q := by
  have harg : (s.enterTrap r dsosCallMqSend args).syscallArgs r 2 = args.getD 2 0 :=
    syscallArgs_enterTrap (by decide)
  have hids : s.mail.msgNum q ∉ s.mail.ids q ↔ ∀ m ∈ s.messages q, s.messageId m ≠ s.msgNum q := by
    simp only [Mail.ids,List.mem_map,not_exists,not_and]
    exact Iff.rfl
  rw [hids]
  constructor
  · intro hkeeps
    exact hkeeps rfl r hr q hp.1 (harg ▸ hp.2.1) hp.2.2.1 hp.2.2.2
  · intro hnew _ r' hr' q' hq' _ _ _
    cases Option.some.inj (hr.symm.trans hr')
    cases Option.some.inj (hp.1.symm.trans hq')
    exact hnew

/-- A step between different ids leaves them different exactly if it is no send whose id is
taken. -/
theorem MailMove.uniqueIds (h : Inv s) (hs : s.UniqueIds) (hm : MailMove s a t) :
    t.UniqueIds ↔ s.KeepsIds a := by
  rw [← uniqueIds_mail] at hs ⊢
  cases hm with
  | other ha hm hn =>
    rw [hm]
    exact iff_of_true hs ha.keepsIds
  | created hr hnew hm hh =>
    rw [hm]
    exact iff_of_true hs.create (keepsIds_of_ne (by decide))
  | unlinked hq hm hn =>
    rw [hm]
    exact iff_of_true (hs.unlink h.messagequeues.objectsNodup) (keepsIds_of_ne (by decide))
  | received hr hp hptr hcons hm hchars hh =>
    rw [hm]
    exact iff_of_true (hs.take hcons) (keepsIds_of_ne (by decide))
  | sent hr hp hb hptr hread hm hh =>
    rw [hm,keepsIds_send_iff hr hp]
    exact hs.put_iff (h.fresh_message hb) (h.queueOf_enterTrap hr hp.1)

end Kernel

/-- Along every run in which no send finds the number of messages on its queue taken as an id
there, the ids on each queue are pairwise different, and the first such send ends that. -/
theorem message_ids_unique {s : Kernel} (hs : ReachableUnder Kernel.KeepsIds s) :
    s.UniqueIds ∧ ∀ a t, s.step a = .ok t → (t.UniqueIds ↔ s.KeepsIds a) := by
  apply ReachableUnder.holds_iff (I := Kernel.UniqueIds) _ _ _ hs
  · exact fun _ _ => Iff.rfl
  · intro function args logFile chars ints s hok q hq
    obtain ⟨p,pool,_,hsw⟩ := Kernel.startFirstProcess_ok hok
    have hnone : s.messagequeues.objectsList = [] := congrArg Mail.queues hsw.mail
    rw [hnone] at hq
    cases hq
  · intro s a t h hI hst
    exact (Kernel.step_mailMove h hst).uniqueIds h hI

/-- Two sends and a receive leave the second message, and the next send would get its id. -/
theorem message_ids_unique_run : ∃ s : Kernel,
    (s.messages 0).map s.messageId = [1] ∧ ¬ s.KeepsIds (.call dsosCallMqSend [0,100,5]) ∧
    s.UniqueIds ∧ ∀ a t, s.step a = .ok t → (t.UniqueIds ↔ s.KeepsIds a) := by
  obtain ⟨s,hs,hcheck⟩ := exists_run Kernel.KeepsIds
    [.call 10 [0,0,20,5,1],.ret,.call 13 [0,100,5],.ret,.call 13 [0,100,5],.ret,
      .call 14 [0,200,20],.ret]
    (fun s => (s.messages 0).map s.messageId = [1] &&
      !decide (s.KeepsIds (.call dsosCallMqSend [0,100,5]))) (by decide)
  simp only [Bool.and_eq_true,Bool.not_eq_true',decide_eq_true_eq,decide_eq_false_iff_not] at hcheck
  exact ⟨s,hcheck.1,hcheck.2,message_ids_unique hs⟩

/-- Two sends, a receive and a send put two messages with one id on the queue. -/
theorem message_id_taken : ¬ ∀ s : Kernel, Reachable s → s.UniqueIds := by
  intro hclaim
  obtain ⟨s,hs,hcheck⟩ := exists_run Transitions.unguarded
    [.call 10 [0,0,20,5,1],.ret,.call 13 [0,100,5],.ret,.call 13 [0,100,5],.ret,
      .call 14 [0,200,20],.ret]
    (fun s => s.running = some 0 && s.shutdownNow = false && s.cpu ≠ .syscall &&
      (s.enterTrap 0 dsosCallMqSend [0,100,5]).SendPasses 0 0 &&
      s.messageAllocator.getBlock.isSome &&
      ((s.enterTrap 0 dsosCallMqSend [0,100,5]).copyIn 100).isOk &&
      !decide (s.KeepsIds (.call dsosCallMqSend [0,100,5]))) (by decide)
  simp only [Bool.and_eq_true,Bool.not_eq_true',decide_eq_true_eq,decide_eq_false_iff_not] at hcheck
  obtain ⟨⟨⟨⟨⟨⟨hr,hdown⟩,hcpu⟩,hp⟩,hblock⟩,hok⟩,htaken⟩ := hcheck
  obtain ⟨⟨m,pool⟩,hb⟩ := Option.isSome_iff_exists.mp hblock
  cases hc : (s.enterTrap 0 dsosCallMqSend [0,100,5]).copyIn 100 with
  | error f =>
    rw [hc] at hok
    cases hok
  | ok text =>
    have hptr : s.msgPtr 0 dsosCallMqSend [0,100,5] = 100 := Kernel.msgPtr_eq (by decide)
    have hstep := Kernel.step_send hr hdown hcpu hp hb
    rw [hptr,hc,ok_bind] at hstep
    have hmove := Kernel.step_mailMove (Reachable.inv hs) hstep
    exact htaken ((hmove.uniqueIds (Reachable.inv hs) (hclaim s hs)).mp
      (hclaim _ (.step hs trivial hstep)))

end DisastrOS
