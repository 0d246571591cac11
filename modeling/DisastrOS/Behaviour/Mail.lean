import DisastrOS.Foundation.Channels
import DisastrOS.Behaviour.History

/-! # What a step does to the queues and their messages

The part of the state that the message calls work on, and the few ways in which a step
can change it. All results about what is on a queue start here.
-/
namespace DisastrOS

/-- The creation of a queue, and the transfers. -/
def Event.channelOp : Event → Option (Channels.Op ℕ (List UInt8))
  | .createdQueue q => some (.opened q)
  | .sent _ q text => some (.put q text)
  | .received _ q text => some (.got q text)
  | _ => none

def Event.ofChannel (e : Event) : Bool := e.channelOp.isSome

/-- The part of the state that tells which queues there are, with which bounds, and what
is on them. -/
structure Mail where
  queues : List ℕ
  msgSize : ℕ → ℤ
  maxMsg : ℕ → ℤ
  msgNum : ℕ → ℤ
  messages : ℕ → List ℕ
  messageId : ℕ → ℤ
  message : ℕ → List UInt8

namespace Mail

/-- The new queue `q` is empty. -/
def create (k : Mail) (q : ℕ) (msgSize maxMsg : ℤ) : Mail :=
  { k with
    queues := listAppend k.queues q
    msgSize := Function.update k.msgSize q msgSize
    maxMsg := Function.update k.maxMsg q maxMsg
    msgNum := Function.update k.msgNum q 0
    messages := Function.update k.messages q [] }

/-- The queue `q` is freed with its messages. -/
def unlink (k : Mail) (q : ℕ) : Mail :=
  { k with
    queues := k.queues.erase q
    messages := Function.update k.messages q [] }

/-- The message block `m` goes behind the others on `q`. -/
def put (k : Mail) (q m : ℕ) (text : List UInt8) : Mail :=
  { k with
    msgNum := Function.update k.msgNum q (k.msgNum q + 1)
    messages := Function.update k.messages q (listAppend (k.messages q) m)
    messageId := Function.update k.messageId m (k.msgNum q)
    message := Function.update k.message m text }

/-- The first message leaves `q`, on which `rest` is left. -/
def take (k : Mail) (q : ℕ) (rest : List ℕ) : Mail :=
  { k with
    msgNum := Function.update k.msgNum q (k.msgNum q - 1)
    messages := Function.update k.messages q rest }

theorem with_queues (k : Mail) {l : List ℕ} (hl : l = k.queues) : { k with queues := l } = k := by
  rw [hl]

end Mail

namespace Kernel

def mail (s : Kernel) : Mail :=
  ⟨s.messagequeues.objectsList,s.msgSize,s.maxMsg,s.msgNum,s.messages,s.messageId,s.message⟩

/-- The address of the message in the arguments of a send or a receive. -/
def msgPtr (s : Kernel) (r : ℕ) (num : ℤ) (args : List ℤ) : ℤ :=
  (s.enterTrap r num args).syscallArgs r 1

/-- The action is not a transfer that passes its checks. -/
structure NoTransfer (s : Kernel) (a : Action) : Prop where
  send : ∀ args r q, a = .call dsosCallMqSend args → s.running = some r →
    ¬ (s.enterTrap r dsosCallMqSend args).SendPasses r q
  receive : ∀ args r q, a = .call dsosCallMqReceive args → s.running = some r →
    ¬ (s.enterTrap r dsosCallMqReceive args).ReceivePasses r q

/-- What a step does to the queues. -/
inductive MailMove (s : Kernel) : Action → Kernel → Prop
  | other {a : Action} {t : Kernel} (ha : s.NoTransfer a) (hm : t.mail = s.mail)
      (hn : Quiet Event.ofChannel s t) : MailMove s a t
  | created {args : List ℤ} {r q : ℕ} {t : Kernel} (hr : s.running = some r)
      (hnew : q ∉ s.messagequeues.objectsList)
      (hm : t.mail = s.mail.create q
        ((s.enterTrap r Syscall.mqOpen.number args).syscallArgs r 2)
        ((s.enterTrap r Syscall.mqOpen.number args).syscallArgs r 3))
      (hh : t.history = .createdQueue q :: .trapped r Syscall.mqOpen.number :: s.history) :
      MailMove s (.call Syscall.mqOpen.number args) t
  | unlinked {args : List ℤ} {q : ℕ} {t : Kernel} (hq : q ∈ s.messagequeues.objectsList)
      (hm : t.mail = s.mail.unlink q) (hn : Quiet Event.ofChannel s t) :
      MailMove s (.call Syscall.mqUnlink.number args) t
  | sent {args : List ℤ} {r q m : ℕ} {pool : Pool maxNumMessages} {text : List UInt8} {t : Kernel}
      (hr : s.running = some r) (hp : (s.enterTrap r dsosCallMqSend args).SendPasses r q)
      (hb : s.messageAllocator.getBlock = some (m,pool))
      (hptr : s.msgPtr r dsosCallMqSend args ≠ 0)
      (hread : readString s.chars (s.msgPtr r dsosCallMqSend args) maxMessageLenght = some text)
      (hm : t.mail = s.mail.put q m text)
      (hh : t.history = .sent r q text :: .trapped r dsosCallMqSend :: s.history) :
      MailMove s (.call dsosCallMqSend args) t
  | received {args : List ℤ} {r q m : ℕ} {rest : List ℕ} {t : Kernel} (hr : s.running = some r)
      (hp : (s.enterTrap r dsosCallMqReceive args).ReceivePasses r q)
      (hptr : s.msgPtr r dsosCallMqReceive args ≠ 0) (hcons : s.messages q = m :: rest)
      (hm : t.mail = s.mail.take q rest)
      (hchars : t.chars =
        writeString s.chars (s.msgPtr r dsosCallMqReceive args) (s.message m))
      (hh : t.history = .received r q (s.message m) :: .trapped r dsosCallMqReceive :: s.history) :
      MailMove s (.call dsosCallMqReceive args) t

variable {s t u v : Kernel} {r p q m : ℕ} {c : Syscall} {a : Action} {num : ℤ} {args : List ℤ}

theorem noTransfer_of_call (hsend : num ≠ dsosCallMqSend) (hreceive : num ≠ dsosCallMqReceive) :
    s.NoTransfer (.call num args) where
  send as r q ha := by
    cases ha
    exact absurd rfl hsend
  receive as r q ha := by
    cases ha
    exact absurd rfl hreceive

theorem msgPtr_eq (hnum : 1 < syscallNumarg num.toNat) : s.msgPtr r num args = args.getD 1 0 :=
  syscallArgs_enterTrap hnum

/-- The queue that a call is for is on the system list. -/
theorem Inv.queueOf_enterTrap (h : Inv s) (hr : s.running = some r)
    (hq : q ∈ (s.enterTrap r num args).queueOf r) : q ∈ s.messagequeues.objectsList := by
  have h' := h.enterTrap hr num args
  exact h'.queueOf_mem (h'.running_allocated hr) hq

theorem Switched.mail (hsw : Switched v t) : t.mail = v.mail := by
  cases hsw <;> rfl

theorem Switched.chars (hsw : Switched v t) : t.chars = v.chars := by
  cases hsw <;> rfl

theorem Woken.mail (hw : Woken s t) : t.mail = s.mail := by
  obtain ⟨⟩ := hw
  rfl

theorem Scheduled.mail (hs : Scheduled s r t) : t.mail = s.mail := by
  cases hs with
  | stay hw => exact hw.mail
  | rotate hw => exact hw.mail

theorem Slept.mail (hslept : Slept s r u) : u.mail = s.mail := by
  obtain ⟨⟩ := hslept
  rfl

/-- Most calls leave the queues alone. -/
theorem Effect.mail (he : Effect s r c t) (hopen : c ≠ .mqOpen) (hunlink : c ≠ .mqUnlink)
    (hsend : c ≠ .mqSend) (hreceive : c ≠ .mqReceive) :
    t.mail = s.mail ∧ Quiet Event.ofChannel s t := by
  have hrefl := Quiet.refl Event.ofChannel s
  cases he with
  | preempt hs => exact ⟨hs.mail,hrefl.congr hs.history⟩
  | reap => exact ⟨rfl,hrefl.cons rfl rfl⟩
  | collect hi hir hp hwakes hx hxr hL hLr hM hMr =>
    refine ⟨s.mail.with_queues hMr.objectsList,?_⟩
    exact (hrefl.cons (u := s.record (.exited r _ _)) rfl rfl).cons rfl
      (history_collected _ _ _ _ _ _ _ _)
  | replace => exact ⟨rfl,hrefl.cons (e := .exited r _ _) rfl rfl⟩
  | sleep hslept => exact ⟨hslept.mail,hrefl.congr hslept.history⟩
  | sleepNext hslept => exact ⟨hslept.mail,hrefl.congr hslept.history⟩
  | queue hc hL hobj => exact ⟨s.mail.with_queues hobj,hrefl.congr rfl⟩
  | createQueue => exact absurd rfl hopen
  | unlinkRefused => exact absurd rfl hunlink
  | unlink => exact absurd rfl hunlink
  | sendRefused => exact absurd rfl hsend
  | sendBlocks => exact absurd rfl hsend
  | send => exact absurd rfl hsend
  | receiveRefused => exact absurd rfl hreceive
  | receiveBlocks => exact absurd rfl hreceive
  | receive => exact absurd rfl hreceive
  | _ => exact ⟨rfl,hrefl.congr rfl⟩

theorem blockOnQueue_mail (h : Inv s) (hr : s.running = some r)
    (hnum : SleepsOnTimer (s.syscallNum r)) {code : ℤ} (hok : s.blockOnQueue r code = .ok t) :
    t.mail = s.mail ∧ t.history = .slept r :: s.history := by
  obtain ⟨u,hslept,_,⟨_,hbl⟩ | ⟨next,rest,_,hbl⟩⟩ := blockOnQueue_spec h hr hnum code
  · cases hbl.symm.trans hok
  · cases hbl.symm.trans hok
    exact ⟨hslept.mail,congrArg (Event.slept r :: ·) hslept.history⟩

/-- A send that does not pass leaves the queues alone. -/
theorem internalMqSend_mail (h : Inv s) (hr : s.running = some r)
    (hnum : SleepsOnTimer (s.syscallNum r)) (hp : ∀ q, ¬ s.SendPasses r q)
    (hok : s.internalMqSend r = .ok t) : t.mail = s.mail ∧ Quiet Event.ofChannel s t := by
  have hrefl := Quiet.refl Event.ofChannel s
  rcases internalMqSend_cases s r with ⟨_,v,_,heq⟩ | ⟨_,heq⟩ | ⟨_,q,hpass,_⟩
  · cases heq.symm.trans hok
    exact ⟨rfl,hrefl.congr rfl⟩
  · obtain ⟨hm,hh⟩ := blockOnQueue_mail h hr hnum (heq.symm.trans hok)
    exact ⟨hm,hrefl.cons rfl hh⟩
  · exact absurd hpass (hp q)

/-- A receive that does not pass leaves the queues alone. -/
theorem internalMqReceive_mail (h : Inv s) (hr : s.running = some r)
    (hnum : SleepsOnTimer (s.syscallNum r)) (hp : ∀ q, ¬ s.ReceivePasses r q)
    (hok : s.internalMqReceive r = .ok t) : t.mail = s.mail ∧ Quiet Event.ofChannel s t := by
  have hrefl := Quiet.refl Event.ofChannel s
  rcases internalMqReceive_cases s r with ⟨_,v,_,heq⟩ | ⟨_,q,_,heq⟩ | ⟨_,q,hpass,_⟩
  · cases heq.symm.trans hok
    exact ⟨rfl,hrefl.congr rfl⟩
  · obtain ⟨hm,hh⟩ := blockOnQueue_mail (h.sizeChecked r q) hr hnum (heq.symm.trans hok)
    exact ⟨hm,hrefl.cons rfl hh⟩
  · exact absurd hpass (hp q)

theorem copyIn_ok {source : ℤ} {text : List UInt8} (hok : s.copyIn source = .ok text) :
    source ≠ 0 ∧ readString s.chars source maxMessageLenght = some text := by
  unfold copyIn at hok
  split at hok
  · cases hok
  · rename_i hsource
    split at hok
    · cases hok
    · rename_i hread
      cases hok
      exact ⟨hsource,hread⟩

theorem copyIn_of_read {source : ℤ} {text : List UInt8} (hsource : source ≠ 0)
    (hread : readString s.chars source maxMessageLenght = some text) :
    s.copyIn source = .ok text := by
  unfold copyIn
  rw [if_neg hsource,hread]

theorem copyIn_overrun {source : ℤ} (hsource : source ≠ 0)
    (hread : readString s.chars source maxMessageLenght = none) :
    s.copyIn source = .error .overrun := by
  unfold copyIn
  rw [if_neg hsource,hread]

theorem mqSend_mailMove (h : Inv s) (hr : s.running = some r)
    (hok : (s.enterTrap r dsosCallMqSend args).internalMqSend r = .ok v) (hsw : Switched v t) :
    MailMove s (.call dsosCallMqSend args) t := by
  have h' := h.enterTrap hr dsosCallMqSend args
  have htrap := quiet_enterTrap (f := Event.ofChannel) (fun _ _ => rfl) s r dsosCallMqSend args
  by_cases hp : ∃ q, (s.enterTrap r dsosCallMqSend args).SendPasses r q
  · obtain ⟨q,hp⟩ := hp
    rw [internalMqSend_passes hp] at hok
    obtain ⟨m,pool,text,hb,hc,rfl⟩ := appendMessage_ok hok
    obtain ⟨hptr,hread⟩ := copyIn_ok hc
    exact .sent hr hp hb hptr hread hsw.mail hsw.history
  · have hnum : SleepsOnTimer ((s.enterTrap r dsosCallMqSend args).syscallNum r) :=
      Or.inr (Or.inl (syscallNum_enterTrap _ _ _ _))
    obtain ⟨hm,hn⟩ := internalMqSend_mail h' hr hnum (not_exists.mp hp) hok
    refine .other ⟨?_,nofun⟩ (hsw.mail.trans hm) (htrap.trans (hn.congr hsw.history))
    intro as p q ha hr'
    cases ha
    cases Option.some.inj (hr.symm.trans hr')
    exact not_exists.mp hp q

theorem mqReceive_mailMove (h : Inv s) (hr : s.running = some r)
    (hok : (s.enterTrap r dsosCallMqReceive args).internalMqReceive r = .ok v)
    (hsw : Switched v t) : MailMove s (.call dsosCallMqReceive args) t := by
  have h' := h.enterTrap hr dsosCallMqReceive args
  have htrap := quiet_enterTrap (f := Event.ofChannel) (fun _ _ => rfl) s r dsosCallMqReceive args
  by_cases hp : ∃ q, (s.enterTrap r dsosCallMqReceive args).ReceivePasses r q
  · obtain ⟨q,hp⟩ := hp
    have hq := h'.queueOf_mem (h'.running_allocated hr) hp.1
    obtain ⟨m,rest,hcons,hrem⟩ := removeMessage_eq h' hq hp.2.2
      ((s.enterTrap r dsosCallMqReceive args).syscallArgs r 1)
    rw [internalMqReceive_passes hp,hrem] at hok
    split at hok
    · cases hok
    · rename_i hptr
      cases hok
      exact .received hr hp hptr hcons hsw.mail hsw.chars hsw.history
  · have hnum : SleepsOnTimer ((s.enterTrap r dsosCallMqReceive args).syscallNum r) :=
      Or.inr (Or.inr (syscallNum_enterTrap _ _ _ _))
    obtain ⟨hm,hn⟩ := internalMqReceive_mail h' hr hnum (not_exists.mp hp) hok
    refine .other ⟨nofun,?_⟩ (hsw.mail.trans hm) (htrap.trans (hn.congr hsw.history))
    intro as p q ha hr'
    cases ha
    cases Option.some.inj (hr.symm.trans hr')
    exact not_exists.mp hp q

theorem handled_mailMove (h : Inv s) (hr : s.running = some r)
    (hc : syscallVector num.toNat = some c) (hok : handler c (s.enterTrap r num args) r = .ok v)
    (hsw : Switched v t) : MailMove s (.call num args) t := by
  have h' := h.enterTrap hr num args
  have hnum := syscallVector_eq_some hc
  have he := handler_effect h' hr (syscallVector_enterTrap s args hc) hok
  have htrap := quiet_enterTrap (f := Event.ofChannel) (fun _ _ => rfl) s r num args
  have hquiet : v.history = (s.enterTrap r num args).history → Quiet Event.ofChannel s t :=
    fun hv => htrap.congr (hsw.history.trans hv)
  cases c with
  | mqSend =>
    obtain rfl : num = dsosCallMqSend := hnum
    exact mqSend_mailMove h hr hok hsw
  | mqReceive =>
    obtain rfl : num = dsosCallMqReceive := hnum
    exact mqReceive_mailMove h hr hok hsw
  | mqOpen =>
    obtain rfl : num = Syscall.mqOpen.number := hnum
    have hnone : s.NoTransfer (.call Syscall.mqOpen.number args) :=
      noTransfer_of_call (by decide) (by decide)
    cases he with
    | resource hc => simp at hc
    | queue _ hL hobj => exact .other hnone (hsw.mail.trans (s.mail.with_queues hobj)) (hquiet rfl)
    | @createQueue q L v hL hq hobj =>
      exact .created hr hq (hsw.mail.trans ((s.mail.create q _ _).with_queues hobj)) hsw.history
  | mqUnlink =>
    obtain rfl : num = Syscall.mqUnlink.number := hnum
    have hnone : s.NoTransfer (.call Syscall.mqUnlink.number args) :=
      noTransfer_of_call (by decide) (by decide)
    cases he with
    | resource hc => simp at hc
    | queue hc => simp at hc
    | unlinkRefused => exact .other hnone hsw.mail (hquiet rfl)
    | unlink hq => exact .unlinked hq hsw.mail (hquiet rfl)
  | _ =>
    obtain ⟨hm,hn⟩ := he.mail nofun nofun nofun nofun
    refine .other (noTransfer_of_call ?_ ?_) (hsw.mail.trans hm) (htrap.trans (hn.congr hsw.history))
    · rw [hnum]
      decide
    · rw [hnum]
      decide

/-- Every step is one of these moves. -/
theorem step_mailMove (h : Inv s) (hstep : s.step a = .ok t) : MailMove s a t := by
  have hrefl := Quiet.refl Event.ofChannel s
  cases a with
  | call num args =>
    obtain ⟨r,hr,_,_,hcalled⟩ := step_called hstep
    have hnone : syscallVector num.toNat = none → s.NoTransfer (.call num args) := by
      intro hc
      apply noTransfer_of_call
      · rintro rfl
        cases hc
      · rintro rfl
        cases hc
    cases hcalled with
    | refused hnum => exact .other (hnone (syscallVector_of_range hnum)) rfl (hrefl.cons rfl rfl)
    | missing hnum hc hsw => exact .other (hnone hc) hsw.mail (hrefl.cons rfl hsw.history)
    | handled hnum hc hok hsw => exact handled_mailMove h hr hc hok hsw
  | tick =>
    obtain ⟨r,v,hr,hok,hsw⟩ := step_ticked hstep
    have hs := internalSchedule_scheduled (h.ticked r) hr hok
    exact .other ⟨nofun,nofun⟩ (hsw.mail.trans hs.mail) (hrefl.congr (hsw.history.trans hs.history))
  | ret =>
    cases step_moves h hstep
    exact .other ⟨nofun,nofun⟩ rfl (hrefl.cons rfl rfl)
  | store address c =>
    cases step_moves h hstep
    exact .other ⟨nofun,nofun⟩ rfl hrefl
  | resumeMain =>
    cases step_moves h hstep with
    | resumeMain hr hdown hb hsw => exact .other ⟨nofun,nofun⟩ hsw.mail (hrefl.congr hsw.history)

end Kernel

end DisastrOS
