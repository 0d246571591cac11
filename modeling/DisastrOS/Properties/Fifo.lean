import DisastrOS.Behaviour.Strings
import DisastrOS.Behaviour.Traffic

/-! # Messages are delivered first-in first-out

The queues are channels: a run of the kernel is a run of the channels, with its
history as the log. What a send logs is the string in the memory of the sender, and
what a receive logs is the string that the receiver then finds in its buffer.
-/
namespace DisastrOS

/-- The strings sent to the queue in the block `q` since its creation, oldest first. -/
def sentTexts (q : ℕ) (history : List Event) : List (List UInt8) :=
  Channels.puts q (channelLog history)

/-- The strings received from the queue in the block `q` since its creation, oldest first. -/
def receivedTexts (q : ℕ) (history : List Event) : List (List UInt8) :=
  Channels.gots q (channelLog history)

/-- The characters are a string that fits in a message. -/
def Fits (text : List UInt8) : Prop := text.length < maxMessageLenght ∧ 0 ∉ text

variable {text : List UInt8}

namespace Kernel

/-- In the state `s` the process `r` hands the string to a send on the queue `q`. -/
def Sends (s : Kernel) (a : Action) (r q : ℕ) (text : List UInt8) : Prop :=
  ∃ args, a = .call dsosCallMqSend args ∧ s.Transfers r q dsosCallMqSend args ∧
    readString s.chars (s.msgPtr r dsosCallMqSend args) maxMessageLenght = some text

/-- In the state `t`, after a receive from the queue `q` in the state `s`, the process
`r` finds the string in its buffer. -/
def Receives (s : Kernel) (a : Action) (t : Kernel) (r q : ℕ) (text : List UInt8) : Prop :=
  ∃ args, a = .call dsosCallMqReceive args ∧ s.Transfers r q dsosCallMqReceive args ∧
    readString t.chars (s.msgPtr r dsosCallMqReceive args) maxMessageLenght = some text

variable {s t : Kernel} {a : Action} {es : List Event}

theorem channelOp_eq_none {e : Event} (he : e.ofChannel = false) : e.channelOp = none :=
  Option.not_isSome_iff_eq_none.mp (Bool.eq_false_iff.mp he)

theorem channelLog_quiet (hq : Quiet Event.ofChannel s t) :
    channelLog t.history = channelLog s.history := hq.filterMap (fun _ => channelOp_eq_none)

theorem ChannelMove.history (hm : ChannelMove s a t) :
    ∃ es, t.history = es ++ s.history ∧ (channelLog es).length ≤ 1 := by
  have hquiet : Quiet Event.ofChannel s t →
      ∃ es, t.history = es ++ s.history ∧ (channelLog es).length ≤ 1 := by
    rintro ⟨es,hes,hall⟩
    have hnil : channelLog es = [] := by
      apply List.filterMap_eq_nil_iff.mpr
      intro e he
      exact channelOp_eq_none (hall e he)
    refine ⟨es,hes,?_⟩
    rw [hnil]
    exact Nat.zero_le 1
  cases hm with
  | other _ hq => exact hquiet hq
  | unlinked _ hq => exact hquiet hq
  | created _ _ hh => exact ⟨[_,_],hh,Nat.le_refl 1⟩
  | sent _ _ _ _ hh => exact ⟨[_,_],hh,Nat.le_refl 1⟩
  | received _ _ _ _ _ hh => exact ⟨[_,_],hh,Nat.le_refl 1⟩

theorem ChannelMove.run (hs : Channels.Run (channelLog s.history) s.channels)
    (hm : ChannelMove s a t) : Channels.Run (channelLog t.history) t.channels := by
  cases hm with
  | other hc hq =>
    rw [hc,channelLog_quiet hq]
    exact hs
  | created hnew hc hh =>
    rw [hc,hh]
    exact hs.opened (channels_of_not_mem hnew)
  | unlinked hc hq =>
    rw [hc,channelLog_quiet hq]
    exact hs.closed _
  | sent hr hq hread hc hh =>
    rw [hc,hh]
    exact hs.put (channels_of_mem hq) _
  | received hr hq hcons hc hchars hh =>
    rw [hc,hh]
    apply hs.got
    rw [channels_of_mem hq,hcons]
    rfl

theorem ChannelMove.newest {e : Event} (hm : ChannelMove s a t) (hes : t.history = es ++ s.history)
    (hmem : e ∈ es) (he : e.ofChannel = true) : t.history.head? = some e := by
  have hpair : ∀ {e' : Event} {r : ℕ} {num : ℤ},
      t.history = e' :: .trapped r num :: s.history → t.history.head? = some e := by
    intro e' r num hh
    obtain rfl : es = [_,_] := List.append_cancel_right (hes.symm.trans hh)
    rw [hh]
    rcases List.mem_pair.mp hmem with rfl | rfl
    · rfl
    · cases he
  cases hm with
  | other _ hq => exact absurd hmem (hq.not_mem hes he)
  | unlinked _ hq => exact absurd hmem (hq.not_mem hes he)
  | created _ _ hh => exact hpair hh
  | sent _ _ _ _ hh => exact hpair hh
  | received _ _ _ _ _ hh => exact hpair hh

theorem ChannelMove.sends {r q : ℕ} (hm : ChannelMove s a t) (hes : t.history = es ++ s.history)
    (hmem : .sent r q text ∈ es) : s.Sends a r q text := by
  have hnew := hm.newest hes hmem rfl
  cases hm with
  | other _ hq => exact absurd hmem (hq.not_mem hes rfl)
  | unlinked _ hq => exact absurd hmem (hq.not_mem hes rfl)
  | created _ _ hh =>
    rw [hh] at hnew
    cases hnew
  | sent hr hq hread hc hh =>
    rw [hh] at hnew
    cases hnew
    exact ⟨_,rfl,hr,hread⟩
  | received _ _ _ _ _ hh =>
    rw [hh] at hnew
    cases hnew

theorem fits_of_mem {q m : ℕ} (hrun : Channels.Run (channelLog s.history) s.channels)
    (hfits : ∀ r q text, .sent r q text ∈ s.history → Fits text)
    (hq : q ∈ s.messagequeues.objectsList) (hm : m ∈ s.messages q) : Fits (s.message m) := by
  have hlog := hrun.put_mem (channels_of_mem hq) (List.mem_map_of_mem hm)
  obtain ⟨e,he,hop⟩ := List.mem_filterMap.mp hlog
  cases e with
  | sent r q' text' =>
    simp only [Event.channelOp,Option.some.injEq,Channels.Op.put.injEq] at hop
    exact hop.2 ▸ hfits r q' text' he
  | _ => simp [Event.channelOp] at hop

theorem ChannelMove.receives {r q : ℕ} (hrun : Channels.Run (channelLog s.history) s.channels)
    (hfits : ∀ r q text, .sent r q text ∈ s.history → Fits text) (hm : ChannelMove s a t)
    (hes : t.history = es ++ s.history) (hmem : .received r q text ∈ es) :
    s.Receives a t r q text := by
  have hnew := hm.newest hes hmem rfl
  cases hm with
  | other _ hq => exact absurd hmem (hq.not_mem hes rfl)
  | unlinked _ hq => exact absurd hmem (hq.not_mem hes rfl)
  | created _ _ hh =>
    rw [hh] at hnew
    cases hnew
  | sent _ _ _ _ hh =>
    rw [hh] at hnew
    cases hnew
  | @received args r' q' m rest t hr hq hcons hc hchars hh =>
    rw [hh] at hnew
    cases hnew
    have hm : m ∈ s.messages q := by
      rw [hcons]
      exact List.mem_cons_self
    obtain ⟨hlen,h0⟩ := fits_of_mem hrun hfits hq hm
    refine ⟨args,rfl,hr,?_⟩
    rw [hchars]
    exact readString_writeString hlen h0

theorem ChannelMove.fits (hfits : ∀ r q text, .sent r q text ∈ s.history → Fits text)
    (hm : ChannelMove s a t) {r q : ℕ} (hsent : .sent r q text ∈ t.history) : Fits text := by
  obtain ⟨es,hes,_⟩ := hm.history
  rw [hes] at hsent
  rcases List.mem_append.mp hsent with hnew | hold
  · obtain ⟨args,_,_,hread⟩ := hm.sends hes hnew
    exact ⟨readString_length hread,readString_nonzero hread⟩
  · exact hfits r q text hold

end Kernel

/-- What was sent to a queue since its creation is what was received from it, followed
by what it holds, in this order; a step sends or receives at most one message, and the
strings are those in the memories of the processes. -/
theorem delivered_in_order {s : Kernel} (hs : Reachable s) :
    (∀ q ∈ s.messagequeues.objectsList,
      sentTexts q s.history = receivedTexts q s.history ++ (s.messages q).map s.message) ∧
    ∀ a t es, s.step a = .ok t → t.history = es ++ s.history → (channelLog es).length ≤ 1 ∧
      (∀ r q text, .sent r q text ∈ es → s.Sends a r q text) ∧
        ∀ r q text, .received r q text ∈ es → s.Receives a t r q text := by
  have hrun : Channels.Run (channelLog s.history) s.channels ∧
      ∀ r q text, .sent r q text ∈ s.history → Fits text := by
    apply Reachable.induction (P := fun s => Channels.Run (channelLog s.history) s.channels ∧
      ∀ r q text, .sent r q text ∈ s.history → Fits text) _ _ hs
    · intro function args logFile chars ints s hok
      obtain ⟨p,pool,_,hsw⟩ := Kernel.startFirstProcess_ok hok
      have hnil : s.history = [] := hsw.history
      have hclosed : s.channels = fun _ => none := by
        funext q
        rw [hsw.channels]
        exact Kernel.channels_of_not_mem List.not_mem_nil
      rw [hnil,hclosed]
      exact ⟨.start,fun _ _ _ hm => absurd hm List.not_mem_nil⟩
    · intro s a t h hrun hstep
      have hmove := Kernel.step_channels h hstep
      exact ⟨hmove.run hrun.1,fun r q text hsent => hmove.fits hrun.2 hsent⟩
  constructor
  · intro q hq
    exact hrun.1.fifo (Kernel.channels_of_mem hq)
  · intro a t es hstep hes
    have hmove := Kernel.step_channels hs.inv hstep
    refine ⟨?_,fun r q text hm => hmove.sends hes hm,
      fun r q text hm => hmove.receives hrun.1 hrun.2 hes hm⟩
    obtain ⟨es',hes',hlen⟩ := hmove.history
    obtain rfl := List.append_cancel_right (hes.symm.trans hes')
    exact hlen

/-- Two messages are sent and the first one is received. -/
theorem delivered_in_order_run : ∃ s : Kernel, Reachable s ∧ s.messagequeues.objectsList = [0] ∧
    receivedTexts 0 s.history = [[72]] ∧ (s.messages 0).map s.message = [[73]] ∧
      sentTexts 0 s.history = [[72],[73]] := by
  obtain ⟨s,hs,hcheck⟩ := exists_run Transitions.unguarded
    [.store 100 72,.store 110 73,.call 10 [0,0,20,2,1],.ret,.call 13 [0,100,5],.ret,
      .call 13 [0,110,5],.ret,.call 14 [0,200,20],.ret]
    (fun s => s.messagequeues.objectsList = [0] && receivedTexts 0 s.history = [[72]] &&
      (s.messages 0).map s.message = [[73]]) (by decide)
  simp only [Bool.and_eq_true,decide_eq_true_eq] at hcheck
  obtain ⟨⟨hqueue,hreceived⟩,hleft⟩ := hcheck
  refine ⟨s,hs,hqueue,hreceived,hleft,?_⟩
  have hsent := (delivered_in_order hs).1 0 (by rw [hqueue]; exact List.mem_cons_self)
  rw [hreceived,hleft] at hsent
  exact hsent

end DisastrOS
