import DisastrOS.Behaviour.Strings
import DisastrOS.Behaviour.Traffic

/-! # How long the messages are

A send compares the length it is given with that of the queue, and then copies the string
up to its terminator, whatever its length. A receive copies it out in the same way.
-/
namespace DisastrOS

namespace Kernel

/-- Every message fits in its queue and, with its terminator, in its block. -/
def LengthsBounded (s : Kernel) : Prop :=
  ∀ q ∈ s.messagequeues.objectsList, ∀ m ∈ s.messages q,
    ((s.message m).length : ℤ) ≤ s.msgSize q ∧ (s.message m).length + 1 ≤ maxMessageLenght

/-- The step leaves no message block, stores no long message, and a receive that succeeds
writes no more than the given number of characters. -/
structure StaysWithin (s : Kernel) (a : Action) : Prop where
  block : s.step a ≠ .error .overrun
  lengths : ∀ t, s.step a = .ok t → t.LengthsBounded
  buffer : ∀ t args r q text es, a = .call dsosCallMqReceive args → s.step a = .ok t →
    t.history = es ++ s.history → .received r q text ∈ es →
      (text.length : ℤ) + 1 ≤ args.getD 2 0 ∧
        ∀ x, x < s.msgPtr r dsosCallMqReceive args ∨
          s.msgPtr r dsosCallMqReceive args + args.getD 2 0 ≤ x → t.chars x = s.chars x

/-- If a send of `r` gets to its `strcpy`, the string ends within a message block and is
not too long for the queue. -/
def SendsWithin (s : Kernel) (r : ℕ) (args : List ℤ) : Prop :=
  ∀ q ∈ (s.enterTrap r dsosCallMqSend args).queueOf r,
    (s.enterTrap r dsosCallMqSend args).SendPasses r q → s.messageAllocator.getBlock.isSome →
      s.msgPtr r dsosCallMqSend args ≠ 0 →
        ∃ text ∈ readString s.chars (s.msgPtr r dsosCallMqSend args) maxMessageLenght,
          (text.length : ℤ) ≤ s.msgSize q

/-- If a receive of `r` gets to its `strcpy`, the message is shorter than the buffer. -/
def ReceivesWithin (s : Kernel) (r : ℕ) (args : List ℤ) : Prop :=
  ∀ q ∈ (s.enterTrap r dsosCallMqReceive args).queueOf r,
    (s.enterTrap r dsosCallMqReceive args).ReceivePasses r q →
      s.msgPtr r dsosCallMqReceive args ≠ 0 → ∀ m ∈ (s.messages q).head?,
        ((s.message m).length : ℤ) < args.getD 2 0

instance (s : Kernel) (r : ℕ) (args : List ℤ) : Decidable (s.SendsWithin r args) :=
  inferInstanceAs (Decidable (∀ q ∈ (s.enterTrap r dsosCallMqSend args).queueOf r, _ → _ → _ →
    ∃ text ∈ readString s.chars (s.msgPtr r dsosCallMqSend args) maxMessageLenght, _))

instance (s : Kernel) (r : ℕ) (args : List ℤ) : Decidable (s.ReceivesWithin r args) :=
  inferInstanceAs (Decidable (∀ q ∈ (s.enterTrap r dsosCallMqReceive args).queueOf r, _ → _ →
    ∀ m ∈ (s.messages q).head?, _))

/-- The action copies no string to where it does not fit. -/
def KeepsLengths (s : Kernel) : Action → Prop
  | .call num args => ∀ r ∈ s.running, (num = dsosCallMqSend → s.SendsWithin r args) ∧
      (num = dsosCallMqReceive → s.ReceivesWithin r args)
  | _ => True

instance (s : Kernel) : (a : Action) → Decidable (s.KeepsLengths a)
  | .call num args => inferInstanceAs (Decidable (∀ r ∈ s.running,
      (num = dsosCallMqSend → s.SendsWithin r args) ∧
        (num = dsosCallMqReceive → s.ReceivesWithin r args)))
  | .tick | .ret | .store _ _ | .resumeMain => instDecidableTrue

variable {s t : Kernel} {a : Action} {r q m : ℕ} {args : List ℤ} {pool : Pool maxNumMessages}
variable {text : List UInt8}

/-- All strings are short enough. -/
def ShortEnough (msgSize _ : ℤ) (l : List (List UInt8)) : Prop :=
  ∀ text ∈ l, (text.length : ℤ) ≤ msgSize ∧ text.length + 1 ≤ maxMessageLenght

theorem lengthsBounded_iff (s : Kernel) : s.LengthsBounded ↔ s.mail.Each ShortEnough := by
  refine forall₂_congr fun q _ => ?_
  unfold ShortEnough
  rw [List.forall_mem_map]
  rfl

section Copies
variable (hr : s.running = some r) (hdown : s.shutdownNow = false) (hcpu : s.cpu ≠ .syscall)

include hr hdown hcpu

theorem step_send (hp : (s.enterTrap r dsosCallMqSend args).SendPasses r q)
    (hb : s.messageAllocator.getBlock = some (m,pool)) :
    s.step (.call dsosCallMqSend args) =
      (s.enterTrap r dsosCallMqSend args).copyIn (s.msgPtr r dsosCallMqSend args) >>=
        fun text => .ok { (s.enterTrap r dsosCallMqSend args).appended r q m pool text with
          cpu := .syscall } := by
  have hb' : (s.enterTrap r dsosCallMqSend args).messageAllocator.getBlock = some (m,pool) := hb
  have hh : handler .mqSend (s.enterTrap r dsosCallMqSend args) r =
      (s.enterTrap r dsosCallMqSend args).copyIn (s.msgPtr r dsosCallMqSend args) >>=
        fun text => .ok ((s.enterTrap r dsosCallMqSend args).appended r q m pool text) :=
    (internalMqSend_passes hp).trans (appendMessage_some hb' _)
  cases hc : (s.enterTrap r dsosCallMqSend args).copyIn (s.msgPtr r dsosCallMqSend args) with
  | error f =>
    rw [hc] at hh
    rw [step_call hr hdown hcpu (c := .mqSend) rfl,hh]
    rfl
  | ok text =>
    rw [hc] at hh
    exact step_resumes hr hdown hcpu (c := .mqSend) rfl hh ((running_appended ..).trans hr)
      ((shutdownNow_appended ..).trans hdown) rfl

theorem step_receive (h : Inv s) {rest : List ℕ}
    (hp : (s.enterTrap r dsosCallMqReceive args).ReceivePasses r q)
    (hptr : s.msgPtr r dsosCallMqReceive args ≠ 0) (hcons : s.messages q = m :: rest) :
    s.step (.call dsosCallMqReceive args) =
      .ok { (s.enterTrap r dsosCallMqReceive args).removed r q m rest
        (s.msgPtr r dsosCallMqReceive args) with cpu := .syscall } := by
  have h' := h.enterTrap hr dsosCallMqReceive args
  obtain ⟨m',rest',hcons',hrem⟩ := removeMessage_eq h' (h.queueOf_enterTrap hr hp.1) hp.2.2
    (s.msgPtr r dsosCallMqReceive args)
  cases hcons.symm.trans hcons'
  rw [if_neg hptr] at hrem
  have hh := (internalMqReceive_passes hp).trans hrem
  exact step_resumes hr hdown hcpu (c := .mqReceive) rfl hh ((running_removed ..).trans hr)
    ((shutdownNow_removed ..).trans hdown) rfl

end Copies

theorem step_overrun (h : Inv s) (hf : s.step a = .error .overrun) :
    ∃ args r q, a = .call dsosCallMqSend args ∧ s.running = some r ∧
      (s.enterTrap r dsosCallMqSend args).SendPasses r q ∧ s.messageAllocator.getBlock.isSome ∧
        s.msgPtr r dsosCallMqSend args ≠ 0 ∧
        readString s.chars (s.msgPtr r dsosCallMqSend args) maxMessageLenght = none := by
  obtain ⟨num,args,r,c,rfl,hr,hc,hh⟩ := step_error_handler h hf rfl
  have h' := h.enterTrap hr num args
  have hc' := syscallVector_enterTrap (r := r) s args hc
  have hfails := handler_fails h' hr hc' hh
  cases hfails with
  | sendText hblocks hfault =>
    obtain rfl : num = dsosCallMqSend := syscallVector_eq_some hc
    change (s.enterTrap r dsosCallMqSend args).internalMqSend r = .error .overrun at hh
    rcases internalMqSend_cases (s.enterTrap r dsosCallMqSend args) r with
      ⟨_,v,_,heq⟩ | ⟨hblocks',_⟩ | ⟨_,q,hp,heq⟩
    · cases heq.symm.trans hh
    · exact absurd hblocks' hblocks
    · rw [heq] at hh
      cases hb : (s.enterTrap r dsosCallMqSend args).messageAllocator.getBlock with
      | none => cases (appendMessage_none hb _).symm.trans hh
      | some b =>
        obtain ⟨m,pool⟩ := b
        rw [appendMessage_some hb] at hh
        cases hcopy : (s.enterTrap r dsosCallMqSend args).copyIn
            ((s.enterTrap r dsosCallMqSend args).syscallArgs r 1) with
        | ok text => simp only [hcopy,ok_bind,reduceCtorEq] at hh
        | error f =>
          have hb' : s.messageAllocator.getBlock = some (m,pool) := hb
          simp only [hcopy,error_bind,Except.error.injEq] at hh
          subst hh
          refine ⟨args,r,q,rfl,hr,hp,Option.isSome_of_eq_some hb',?_⟩
          unfold copyIn at hcopy
          split at hcopy
          · cases hcopy
          · rename_i hptr
            split at hcopy
            · rename_i hread
              exact ⟨hptr,hread⟩
            · cases hcopy

theorem StaysWithin.keepsLengths (h : Inv s) (henabled : s.step a ≠ .error .disabled)
    (hw : s.StaysWithin a) : s.KeepsLengths a := by
  cases a with
  | call num args =>
    intro r hr
    obtain ⟨hdown,hcpu⟩ := enabled_of_step henabled
    constructor
    · rintro rfl q hq hp hb hptr
      obtain ⟨⟨m,pool⟩,hb⟩ := Option.isSome_iff_exists.mp hb
      have hstep := step_send hr hdown hcpu hp hb
      cases hread : readString s.chars (s.msgPtr r dsosCallMqSend args) maxMessageLenght with
      | none =>
        have hcopy : (s.enterTrap r dsosCallMqSend args).copyIn _ = _ := copyIn_overrun hptr hread
        rw [hcopy] at hstep
        exact absurd hstep hw.block
      | some text =>
        have hcopy : (s.enterTrap r dsosCallMqSend args).copyIn _ = _ := copyIn_of_read hptr hread
        rw [hcopy] at hstep
        -- the message just stored is one of those that the step keeps short
        have hmem : m ∈ Function.update s.messages q (listAppend (s.messages q) m) q := by
          rw [Function.update_self]
          exact mem_listAppend.mpr (Or.inr rfl)
        have hlen := (hw.lengths _ hstep q (h.queueOf_enterTrap hr hq) m hmem).1
        have htext : Function.update s.message m text m = text := Function.update_self _ _ _
        change ((Function.update s.message m text m).length : ℤ) ≤ s.msgSize q at hlen
        rw [htext] at hlen
        exact ⟨text,rfl,hlen⟩
    · rintro rfl q hq hp hptr m hm
      obtain ⟨rest,hcons⟩ : ∃ rest, s.messages q = m :: rest := List.head?_eq_some_iff.mp hm
      have hstep := step_receive hr hdown hcpu h hp hptr hcons
      have hlen := (hw.buffer _ args r q (s.message m) [_,_] rfl hstep rfl List.mem_cons_self).1
      omega
  | _ => trivial

/-- What a receive logs as received is what it has copied. -/
theorem KeepsLengths.buffer {t : Kernel} {es : List Event} (h : Inv s)
    (hk : s.KeepsLengths (.call dsosCallMqReceive args))
    (hstep : s.step (.call dsosCallMqReceive args) = .ok t) (hes : t.history = es ++ s.history)
    (hmem : .received r q text ∈ es) :
    (text.length : ℤ) + 1 ≤ args.getD 2 0 ∧
      ∀ x, x < s.msgPtr r dsosCallMqReceive args ∨
        s.msgPtr r dsosCallMqReceive args + args.getD 2 0 ≤ x → t.chars x = s.chars x := by
  cases step_mailMove h hstep with
  | other _ _ hn => exact absurd hmem (hn.not_mem hes rfl)
  | received hr hp hptr hcons _ hchars hh =>
    obtain rfl : es = [_,_] := List.append_cancel_right (hes.symm.trans hh)
    simp only [List.mem_cons,List.not_mem_nil,or_false,reduceCtorEq,Event.received.injEq] at hmem
    obtain ⟨rfl,rfl,rfl⟩ := hmem
    have hlen := (hk _ hr).2 rfl _ hp.1 hp hptr _ (List.head?_eq_some_iff.mpr ⟨_,hcons⟩)
    refine ⟨hlen,?_⟩
    rintro x (hx | hx)
    · rw [hchars]
      exact writeString_below hx
    · rw [hchars]
      apply writeString_above
      omega

theorem staysWithin_iff (h : Inv s) (hs : s.LengthsBounded)
    (henabled : s.step a ≠ .error .disabled) : s.StaysWithin a ↔ s.KeepsLengths a := by
  refine ⟨fun hw => hw.keepsLengths h henabled,fun hk => ⟨?_,?_,?_⟩⟩
  · intro hf
    obtain ⟨args,r,q,rfl,hr,hp,hb,hptr,hread⟩ := step_overrun h hf
    obtain ⟨text,htext,_⟩ := (hk r hr).1 rfl q hp.1 hp hb hptr
    cases hread.symm.trans htext
  · intro t hstep
    rw [lengthsBounded_iff] at hs ⊢
    refine (step_mailMove h hstep).each h ?_ ?_ ?_ hs
    · exact fun _ _ text htext => absurd htext List.not_mem_nil
    · exact fun _ _ text l hl text' htext => hl text' (List.mem_cons_of_mem text htext)
    · intro args r q m pool text ha hr hp hb hptr hread text' htext
      subst ha
      rcases List.mem_append.mp htext with hold | hnew
      · exact hs q (h.queueOf_enterTrap hr hp.1) text' hold
      · obtain rfl := List.mem_singleton.mp hnew
        obtain ⟨text'',hread',hlen⟩ :=
          (hk r hr).1 rfl q hp.1 hp (Option.isSome_of_eq_some hb) hptr
        cases hread.symm.trans hread'
        exact ⟨hlen,readString_length hread⟩
  · rintro t args r q text es rfl hstep hes hmem
    exact hk.buffer h hstep hes hmem

end Kernel

/-- Along every run in which each string that is copied fits where it is copied to, all
messages are short enough, and a step stays within all bounds exactly if it is such a step. -/
theorem lengths_bounded {s : Kernel} (hs : ReachableUnder Kernel.KeepsLengths s) :
    s.LengthsBounded ∧
      ∀ a, s.step a ≠ .error .disabled → (s.StaysWithin a ↔ s.KeepsLengths a) := by
  have hbounded : s.LengthsBounded := by
    refine Transitions.Reach.invariant_within (I := Kernel.LengthsBounded)
      (fun _ => Reachable.inv) ?_ ?_ hs
    · rintro s ⟨function,args,logFile,chars,ints,hok⟩ q hq
      obtain ⟨p,pool,_,hsw⟩ := Kernel.startFirstProcess_ok hok
      have hnone : s.messagequeues.objectsList = [] := congrArg Mail.queues hsw.mail
      rw [hnone] at hq
      cases hq
    · intro s a t h hI hk hstep
      have henabled : s.step a ≠ .error .disabled := by
        rw [show s.step a = .ok t from hstep]
        exact nofun
      exact ((Kernel.staysWithin_iff h hI henabled).mpr hk).lengths t hstep
  exact ⟨hbounded,fun a henabled => Kernel.staysWithin_iff hs.reachable.inv hbounded henabled⟩

/-- A message of one character is sent and received. -/
theorem lengths_bounded_run : ∃ s : Kernel, s.message 0 = [72] ∧ s.LengthsBounded ∧
    ∀ a, s.step a ≠ .error .disabled → (s.StaysWithin a ↔ s.KeepsLengths a) := by
  obtain ⟨s,hs,hcheck⟩ := exists_run Kernel.KeepsLengths
    [.store 100 72,.call 10 [0,0,20,2,1],.ret,.call 13 [0,100,5],.ret,.call 14 [0,200,20],.ret]
    (fun s => s.message 0 = [72]) (by decide)
  exact ⟨s,of_decide_eq_true hcheck,lengths_bounded hs⟩

/-- A queue for messages of one character gets one of two. -/
theorem long_message_stored : ¬ ∀ s : Kernel, Reachable s → s.LengthsBounded := by
  intro hclaim
  obtain ⟨s,hs,hcheck⟩ := exists_run Transitions.unguarded
    [.store 100 72,.store 101 73,.call 10 [0,0,1,2,1],.ret,.call 13 [0,100,1],.ret]
    (fun s => s.messagequeues.objectsList = [0] && s.messages 0 = [0] && s.message 0 = [72,73] &&
      s.msgSize 0 = 1) (by decide)
  simp only [Bool.and_eq_true,decide_eq_true_eq] at hcheck
  obtain ⟨⟨⟨hqueue,hmsgs⟩,hmsg⟩,hsize⟩ := hcheck
  have hlen := (hclaim s hs 0 (hqueue ▸ List.mem_cons_self) 0 (hmsgs ▸ List.mem_cons_self)).1
  rw [hmsg,hsize] at hlen
  exact absurd hlen (by decide)

end DisastrOS
