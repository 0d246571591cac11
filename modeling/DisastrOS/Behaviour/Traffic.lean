import DisastrOS.Behaviour.Mail

/-! # The queues as channels

The queues on the system list are channels of strings, and the history is their
log: the pool and the lists behind the queues are not seen from here on.
-/
namespace DisastrOS

def channelLog (history : List Event) : List (Channels.Op ℕ (List UInt8)) :=
  history.filterMap Event.channelOp

namespace Mail

/-- The strings on the queues of the system list. -/
def channels (k : Mail) (q : ℕ) : Option (List (List UInt8)) :=
  if q ∈ k.queues then some ((k.messages q).map k.message) else none

variable {k : Mail} {l : Option (List (List UInt8))} {q m : ℕ}

theorem channels_of_mem (hq : q ∈ k.queues) :
    k.channels q = some ((k.messages q).map k.message) := if_pos hq

theorem channels_of_not_mem (hq : q ∉ k.queues) : k.channels q = none := if_neg hq

/-- Channels that differ on the queue `q` only. -/
theorem channels_eq_update {k' : Mail} (hq : k'.channels q = l)
    (hother : ∀ q', q' ≠ q → k'.channels q' = k.channels q') :
    k'.channels = Function.update k.channels q l := by
  funext q'
  by_cases hqq : q' = q
  · subst hqq
    rw [Function.update_self,hq]
  · rw [Function.update_of_ne hqq]
    exact hother q' hqq

theorem channels_create (k : Mail) (q : ℕ) (msgSize maxMsg : ℤ) :
    (k.create q msgSize maxMsg).channels = Function.update k.channels q (some []) := by
  apply channels_eq_update
  · have hq : q ∈ (k.create q msgSize maxMsg).queues := mem_listAppend.mpr (Or.inr rfl)
    have hnil : (k.create q msgSize maxMsg).messages q = [] := Function.update_self _ _ _
    rw [channels_of_mem hq,hnil]
    rfl
  · intro q' hqq
    have hsame : (k.create q msgSize maxMsg).messages q' = k.messages q' :=
      Function.update_of_ne hqq _ _
    have hmem : q' ∈ (k.create q msgSize maxMsg).queues ↔ q' ∈ k.queues :=
      mem_listAppend.trans (or_iff_left hqq)
    by_cases hq' : q' ∈ k.queues
    · rw [channels_of_mem hq',channels_of_mem (hmem.mpr hq'),hsame]
      rfl
    · rw [channels_of_not_mem hq',channels_of_not_mem (fun hm => hq' (hmem.mp hm))]

theorem channels_unlink (hk : k.queues.Nodup) (q : ℕ) :
    (k.unlink q).channels = Function.update k.channels q none := by
  have hmem : ∀ q', q' ∈ (k.unlink q).queues ↔ q' ≠ q ∧ q' ∈ k.queues := fun _ => hk.mem_erase_iff
  apply channels_eq_update
  · exact channels_of_not_mem (fun hm => ((hmem q).mp hm).1 rfl)
  · intro q' hqq
    have hsame : (k.unlink q).messages q' = k.messages q' := Function.update_of_ne hqq _ _
    by_cases hq' : q' ∈ k.queues
    · rw [channels_of_mem hq',channels_of_mem ((hmem q').mpr ⟨hqq,hq'⟩),hsame]
      rfl
    · rw [channels_of_not_mem hq',channels_of_not_mem (fun hm => hq' ((hmem q').mp hm).2)]

/-- The block of a new message is on no queue, so no other string changes. -/
theorem channels_put {text : List UInt8} (hm : ∀ q' ∈ k.queues, m ∉ k.messages q')
    (hq : q ∈ k.queues) :
    (k.put q m text).channels =
      Function.update k.channels q (some ((k.messages q).map k.message ++ [text])) := by
  have hstrings : ∀ q' ∈ k.queues,
      (k.messages q').map (Function.update k.message m text) = (k.messages q').map k.message := by
    intro q' hq'
    apply List.map_congr_left
    intro j hj
    apply Function.update_of_ne
    rintro rfl
    exact hm q' hq' hj
  have hq' : ∀ q', q' ∈ (k.put q m text).queues ↔ q' ∈ k.queues := fun _ => Iff.rfl
  apply channels_eq_update
  · have hmsgs : (k.put q m text).messages q = k.messages q ++ [m] := Function.update_self _ _ _
    have hmsg : (k.put q m text).message = Function.update k.message m text := rfl
    rw [channels_of_mem ((hq' q).mpr hq),hmsgs,hmsg,List.map_append,hstrings q hq,
      List.map_singleton,Function.update_self]
  · intro q' hqq
    have hsame : (k.put q m text).messages q' = k.messages q' := Function.update_of_ne hqq _ _
    by_cases hmem : q' ∈ k.queues
    · rw [channels_of_mem hmem,channels_of_mem ((hq' q').mpr hmem),hsame,← hstrings q' hmem]
      rfl
    · rw [channels_of_not_mem hmem,channels_of_not_mem (fun hm => hmem ((hq' q').mp hm))]

theorem channels_take {rest : List ℕ} (hq : q ∈ k.queues) :
    (k.take q rest).channels = Function.update k.channels q (some (rest.map k.message)) := by
  have hq' : ∀ q', q' ∈ (k.take q rest).queues ↔ q' ∈ k.queues := fun _ => Iff.rfl
  apply channels_eq_update
  · have hrest : (k.take q rest).messages q = rest := Function.update_self _ _ _
    rw [channels_of_mem ((hq' q).mpr hq),hrest]
    rfl
  · intro q' hqq
    have hsame : (k.take q rest).messages q' = k.messages q' := Function.update_of_ne hqq _ _
    by_cases hmem : q' ∈ k.queues
    · rw [channels_of_mem hmem,channels_of_mem ((hq' q').mpr hmem),hsame]
      rfl
    · rw [channels_of_not_mem hmem,channels_of_not_mem (fun hm => hmem ((hq' q').mp hm))]

/-- The strings on every queue are related to its two bounds. -/
def Each (R : ℤ → ℤ → List (List UInt8) → Prop) (k : Mail) : Prop :=
  ∀ q ∈ k.queues, R (k.msgSize q) (k.maxMsg q) ((k.messages q).map k.message)

variable {R : ℤ → ℤ → List (List UInt8) → Prop}

/-- A change of one channel that is related to the bounds. -/
theorem Each.update (hk : k.Each R) {k' : Mail} (hc : k'.channels = Function.update k.channels q l)
    (hsize : ∀ q', q' ≠ q → k'.msgSize q' = k.msgSize q')
    (hmax : ∀ q', q' ≠ q → k'.maxMsg q' = k.maxMsg q')
    (hq : ∀ l', l = some l' → R (k'.msgSize q) (k'.maxMsg q) l') : k'.Each R := by
  intro q' hq'
  have hsome := channels_of_mem hq'
  rw [hc] at hsome
  by_cases hqq : q' = q
  · subst hqq
    rw [Function.update_self] at hsome
    exact hq _ hsome
  · rw [Function.update_of_ne hqq] at hsome
    have hold : q' ∈ k.queues := by
      by_contra hnot
      rw [channels_of_not_mem hnot] at hsome
      cases hsome
    rw [channels_of_mem hold] at hsome
    rw [hsize q' hqq,hmax q' hqq,← Option.some.inj hsome]
    exact hk q' hold

end Mail

namespace Kernel

/-- The strings on the queues of the system list. -/
def channels (s : Kernel) (q : ℕ) : Option (List (List UInt8)) :=
  if q ∈ s.messagequeues.objectsList then some ((s.messages q).map s.message) else none

/-- The running process `r` makes a call for the queue `q`. -/
structure Transfers (s : Kernel) (r q : ℕ) (num : ℤ) (args : List ℤ) : Prop where
  running : s.running = some r
  queue : (s.enterTrap r num args).queueOf r = some q

/-- What a step does to the channels. -/
inductive ChannelMove (s : Kernel) : Action → Kernel → Prop
  | other {a : Action} {t : Kernel} (hc : t.channels = s.channels)
      (hq : Quiet Event.ofChannel s t) : ChannelMove s a t
  | created {a : Action} {q r : ℕ} {num : ℤ} {t : Kernel}
      (hnew : q ∉ s.messagequeues.objectsList)
      (hc : t.channels = Function.update s.channels q (some []))
      (hh : t.history = .createdQueue q :: .trapped r num :: s.history) : ChannelMove s a t
  | unlinked {a : Action} {q : ℕ} {t : Kernel} (hc : t.channels = Function.update s.channels q none)
      (hq : Quiet Event.ofChannel s t) : ChannelMove s a t
  | sent {args : List ℤ} {r q : ℕ} {text : List UInt8} {t : Kernel}
      (hr : s.Transfers r q dsosCallMqSend args) (hq : q ∈ s.messagequeues.objectsList)
      (hread : readString s.chars (s.msgPtr r dsosCallMqSend args) maxMessageLenght = some text)
      (hc : t.channels = Function.update s.channels q
        (some ((s.messages q).map s.message ++ [text])))
      (hh : t.history = .sent r q text :: .trapped r dsosCallMqSend :: s.history) :
      ChannelMove s (.call dsosCallMqSend args) t
  | received {args : List ℤ} {r q m : ℕ} {rest : List ℕ} {t : Kernel}
      (hr : s.Transfers r q dsosCallMqReceive args) (hq : q ∈ s.messagequeues.objectsList)
      (hcons : s.messages q = m :: rest)
      (hc : t.channels = Function.update s.channels q (some (rest.map s.message)))
      (hchars : t.chars =
        writeString s.chars (s.msgPtr r dsosCallMqReceive args) (s.message m))
      (hh : t.history = .received r q (s.message m) :: .trapped r dsosCallMqReceive :: s.history) :
      ChannelMove s (.call dsosCallMqReceive args) t

variable {s t v : Kernel} {r q m : ℕ} {a : Action}

theorem channels_of_mem (hq : q ∈ s.messagequeues.objectsList) :
    s.channels q = some ((s.messages q).map s.message) := if_pos hq

theorem channels_of_not_mem (hq : q ∉ s.messagequeues.objectsList) : s.channels q = none := if_neg hq

theorem Switched.channels (hsw : Switched v t) : t.channels = v.channels :=
  congrArg Mail.channels hsw.mail

/-- The block of a new message is on no queue. -/
theorem Inv.fresh_message (h : Inv s) {pool : Pool maxNumMessages}
    (hb : s.messageAllocator.getBlock = some (m,pool)) : ∀ q ∈ s.mail.queues, m ∉ s.mail.messages q :=
  fun _ => h.mailboxes.not_mem_of_free (Pool.getBlock_eq_some hb).1

/-- A move of the queues is one of the channels. -/
theorem MailMove.channels (h : Inv s) (hm : MailMove s a t) : ChannelMove s a t := by
  cases hm with
  | other _ hm hn => exact .other (congrArg Mail.channels hm) hn
  | created hr hnew hm hh =>
    exact .created hnew ((congrArg Mail.channels hm).trans (Mail.channels_create _ _ _ _)) hh
  | unlinked hq hm hn =>
    have hnodup : s.mail.queues.Nodup := h.messagequeues.objectsNodup
    exact .unlinked ((congrArg Mail.channels hm).trans (Mail.channels_unlink hnodup _)) hn
  | sent hr hp hb hptr hread hm hh =>
    have hq := h.queueOf_enterTrap hr hp.1
    exact .sent ⟨hr,hp.1⟩ hq hread
      ((congrArg Mail.channels hm).trans (Mail.channels_put (h.fresh_message hb) hq)) hh
  | received hr hp hptr hcons hm hchars hh =>
    have hq := h.queueOf_enterTrap hr hp.1
    exact .received ⟨hr,hp.1⟩ hq hcons
      ((congrArg Mail.channels hm).trans (Mail.channels_take (k := s.mail) hq)) hchars hh

/-- A relation between the strings and the bounds of each queue is kept by every step, if
it holds for no string, does not need the oldest one, and is kept by every send. -/
theorem MailMove.each (h : Inv s) {R : ℤ → ℤ → List (List UInt8) → Prop}
    (hnil : ∀ msgSize maxMsg, R msgSize maxMsg [])
    (htail : ∀ msgSize maxMsg text l, R msgSize maxMsg (text :: l) → R msgSize maxMsg l)
    (hm : MailMove s a t)
    (hsend : ∀ args r q m pool text, a = .call dsosCallMqSend args → s.running = some r →
      (s.enterTrap r dsosCallMqSend args).SendPasses r q →
      s.messageAllocator.getBlock = some (m,pool) → s.msgPtr r dsosCallMqSend args ≠ 0 →
      readString s.chars (s.msgPtr r dsosCallMqSend args) maxMessageLenght = some text →
      R (s.msgSize q) (s.maxMsg q) ((s.messages q).map s.message ++ [text]))
    (hs : s.mail.Each R) : t.mail.Each R := by
  cases hm with
  | other ha hm hn =>
    rw [hm]
    exact hs
  | created hr hnew hm hh =>
    rw [hm]
    refine hs.update (Mail.channels_create _ _ _ _) (fun _ hqq => Function.update_of_ne hqq _ _)
      (fun _ hqq => Function.update_of_ne hqq _ _) ?_
    rintro l ⟨⟩
    exact hnil _ _
  | unlinked hq hm hn =>
    rw [hm]
    exact hs.update (Mail.channels_unlink h.messagequeues.objectsNodup _) (fun _ _ => rfl)
      (fun _ _ => rfl) nofun
  | sent hr hp hb hptr hread hm hh =>
    rw [hm]
    refine hs.update (Mail.channels_put (h.fresh_message hb) (h.queueOf_enterTrap hr hp.1))
      (fun _ _ => rfl) (fun _ _ => rfl) ?_
    rintro l ⟨⟩
    exact hsend _ _ _ _ _ _ rfl hr hp hb hptr hread
  | received hr hp hptr hcons hm hchars hh =>
    have hqL := h.queueOf_enterTrap hr hp.1
    have hq := hs _ hqL
    rw [hm]
    refine hs.update (Mail.channels_take (k := s.mail) hqL) (fun _ _ => rfl) (fun _ _ => rfl) ?_
    rintro l ⟨⟩
    rw [show s.mail.messages _ = _ from hcons] at hq
    exact htail _ _ _ _ hq

/-- Every step is a move of the channels. -/
theorem step_channels (h : Inv s) (hstep : s.step a = .ok t) : ChannelMove s a t :=
  (step_mailMove h hstep).channels h

end Kernel

end DisastrOS
