import DisastrOS.Behaviour.Traffic

/-! # How many messages a queue holds

A send compares the number of messages with the bound of the queue, and goes on when they
differ. A bound that is negative is never met, so that the queue takes messages until the
pool is empty.
-/
namespace DisastrOS

namespace Kernel

/-- No queue holds more messages than its bound allows. -/
def WithinCapacity (s : Kernel) : Prop :=
  ∀ q ∈ s.messagequeues.objectsList, ((s.messages q).length : ℤ) ≤ max (s.maxMsg q) 0

/-- A send of a message that is not too long goes to no queue with a negative bound. -/
def KeepsCapacity (s : Kernel) : Action → Prop
  | .call num args => num = dsosCallMqSend → ∀ r ∈ s.running,
      ∀ q ∈ (s.enterTrap r num args).queueOf r, args.getD 2 0 ≤ s.msgSize q → 0 ≤ s.maxMsg q
  | _ => True

instance (s : Kernel) : (a : Action) → Decidable (s.KeepsCapacity a)
  | .call num args => inferInstanceAs (Decidable (num = dsosCallMqSend → ∀ r ∈ s.running,
      ∀ q ∈ (s.enterTrap r num args).queueOf r, args.getD 2 0 ≤ s.msgSize q → 0 ≤ s.maxMsg q))
  | .tick | .ret | .store _ _ | .resumeMain => instDecidableTrue

variable {s t : Kernel} {a : Action}

theorem NoTransfer.keepsCapacity (h : Inv s) (ha : s.NoTransfer a) : s.KeepsCapacity a := by
  cases a with
  | call num args =>
    rintro rfl r hr q hq hlen
    by_contra hneg
    have hqL := h.queueOf_enterTrap hr hq
    have hcount : s.msgNum q = (s.messages q).length := h.mailboxes.count q hqL
    have harg : (s.enterTrap r dsosCallMqSend args).syscallArgs r 2 = args.getD 2 0 :=
      syscallArgs_enterTrap (by decide)
    refine ha.send args r q rfl hr ⟨hq,harg ▸ hlen,?_,?_⟩
    · change s.maxMsg q ≠ 0
      omega
    · change s.msgNum q ≠ s.maxMsg q
      omega
  | _ => trivial

theorem keepsCapacity_of_ne {num : ℤ} {args : List ℤ} (hnum : num ≠ dsosCallMqSend) :
    s.KeepsCapacity (.call num args) := fun hsend => absurd hsend hnum

/-- As many strings as the bound allows. -/
def Holdable (_ maxMsg : ℤ) (l : List (List UInt8)) : Prop := (l.length : ℤ) ≤ max maxMsg 0

theorem withinCapacity_iff (s : Kernel) : s.WithinCapacity ↔ s.mail.Each Holdable := by
  refine forall₂_congr fun q _ => ?_
  rw [Holdable,List.length_map]
  rfl

/-- A step from within the capacity ends there exactly if it is no such send. -/
theorem MailMove.withinCapacity (h : Inv s) (hs : s.WithinCapacity) (hm : MailMove s a t) :
    t.WithinCapacity ↔ s.KeepsCapacity a := by
  constructor
  · intro ht
    cases hm with
    | other ha hm hn => exact ha.keepsCapacity h
    | created hr hnew hm hh => exact keepsCapacity_of_ne (by decide)
    | unlinked hq hm hn => exact keepsCapacity_of_ne (by decide)
    | received hr hp hptr hcons hm hchars hh => exact keepsCapacity_of_ne (by decide)
    | @sent args r q m pool text t hr hp hb hptr hread hm hh =>
      rintro - r' hr' q' hq' -
      cases Option.some.inj (hr.symm.trans hr')
      cases Option.some.inj (Eq.trans (Eq.symm hp.1) hq')
      have hqL := h.queueOf_enterTrap hr hp.1
      have hqueues : t.messagequeues.objectsList = s.messagequeues.objectsList :=
        congrArg Mail.queues hm
      have hmsgs : t.messages q = listAppend (s.messages q) m :=
        (congrFun (congrArg Mail.messages hm) q).trans (Function.update_self _ _ _)
      have hmax : t.maxMsg q = s.maxMsg q := congrFun (congrArg Mail.maxMsg hm) q
      have hbound := ht q (hqueues ▸ hqL)
      rw [hmsgs,hmax,listAppend,List.length_append,List.length_singleton] at hbound
      by_contra hneg
      omega
  · intro hkeeps
    rw [withinCapacity_iff] at hs ⊢
    refine hm.each h (fun _ maxMsg => le_max_right maxMsg 0) ?_ ?_ hs
    · intro _ maxMsg text l hl
      rw [Holdable,List.length_cons] at hl
      unfold Holdable
      omega
    · intro args r q m pool text ha hr hp hb hptr hread
      subst ha
      have hqL := h.queueOf_enterTrap hr hp.1
      have hcount : s.msgNum q = (s.messages q).length := h.mailboxes.count q hqL
      obtain ⟨hq,hlen,hzero,hroom⟩ := hp
      have harg : (s.enterTrap r dsosCallMqSend args).syscallArgs r 2 = args.getD 2 0 :=
        syscallArgs_enterTrap (by decide)
      have hnonneg := hkeeps rfl r hr q hq (harg ▸ hlen)
      have hbound := hs q hqL
      have hroom' : ((s.messages q).length : ℤ) ≠ s.maxMsg q := hcount ▸ hroom
      change ((List.map s.message (s.messages q)).length : ℤ) ≤ max (s.maxMsg q) 0 at hbound
      rw [List.length_map] at hbound
      rw [Holdable,List.length_append,List.length_map,List.length_singleton]
      omega

end Kernel

/-- Along every run without a send to a queue with a negative bound no queue holds more
messages than its bound allows, and the first such send ends that. -/
theorem capacity_bounded {s : Kernel} (hs : ReachableUnder Kernel.KeepsCapacity s) :
    s.WithinCapacity ∧ ∀ a t, s.step a = .ok t → (t.WithinCapacity ↔ s.KeepsCapacity a) := by
  apply ReachableUnder.holds_iff (I := Kernel.WithinCapacity) _ _ _ hs
  · exact fun _ _ => Iff.rfl
  · intro function args logFile chars ints s hok q hq
    obtain ⟨p,pool,_,hsw⟩ := Kernel.startFirstProcess_ok hok
    have hnone : s.messagequeues.objectsList = [] := congrArg Mail.queues hsw.mail
    rw [hnone] at hq
    cases hq
  · intro s a t h hI hst
    exact (Kernel.step_mailMove h hst).withinCapacity h hI

/-- A queue for two messages gets one, and another one that can take none gets no message. -/
theorem capacity_bounded_run : ∃ s : Kernel, s.messages 0 = [0] ∧ s.WithinCapacity ∧
    ∀ a t, s.step a = .ok t → (t.WithinCapacity ↔ s.KeepsCapacity a) := by
  obtain ⟨s,hs,hcheck⟩ := exists_run Kernel.KeepsCapacity
    [.call 10 [0,0,20,2,1],.ret,.call 10 [1,0,20,0,1],.ret,.call 13 [0,100,5],.ret,
      .call 13 [1,100,5],.ret] (fun s => s.messages 0 = [0]) (by decide)
  exact ⟨s,of_decide_eq_true hcheck,capacity_bounded hs⟩

/-- A queue for minus one messages gets one. -/
theorem negative_capacity_exceeded : ¬ ∀ s : Kernel, Reachable s → s.WithinCapacity := by
  intro hclaim
  obtain ⟨s,hs,hcheck⟩ := exists_run Transitions.unguarded
    [.call 10 [0,0,20,-1,1],.ret,.call 13 [0,100,5],.ret]
    (fun s => s.messagequeues.objectsList = [0] && s.messages 0 = [0] && s.maxMsg 0 = -1)
    (by decide)
  simp only [Bool.and_eq_true,decide_eq_true_eq] at hcheck
  obtain ⟨⟨hqueue,hmsgs⟩,hmax⟩ := hcheck
  have hbound := hclaim s hs 0 (hqueue ▸ List.mem_cons_self)
  rw [hmsgs,hmax] at hbound
  exact absurd hbound (by decide)

end DisastrOS
