import DisastrOS.Behaviour.Steps

/-! # Transfers that are refused

A send and a receive make the same checks in the same order. Each check of a send
returns; the length check of a receive only stores its code, and the call goes on as if
the buffer were long enough.
-/
namespace DisastrOS

namespace Kernel

/-- The length given in a transfer is out of the bounds of the queue. -/
def LengthOutOfBounds (s : Kernel) (r q : ℕ) : Syscall → Prop
  | .mqSend => s.msgSize q < s.syscallArgs r 2
  | .mqReceive => s.syscallArgs r 2 < s.msgSize q
  | _ => False

/-- The code with which a transfer is to be refused. -/
inductive Refusal (s : Kernel) (r : ℕ) (c : Syscall) : ℤ → Prop
  | closed (hq : s.queueOf r = none) : Refusal s r c dsosEMessagequeueClose
  | size {q : ℕ} (hq : q ∈ s.queueOf r) (hbad : s.maxMsg q = 0 ∨ s.LengthOutOfBounds r q c) :
      Refusal s r c dsosEMessagesize

/-- Queues, messages, memory, timers and the lists of the scheduler are as they were. -/
structure Untouched (s t : Kernel) : Prop where
  messages : t.messages = s.messages
  msgNum : t.msgNum = s.msgNum
  message : t.message = s.message
  messageAllocator : t.messageAllocator = s.messageAllocator
  chars : t.chars = s.chars
  timerList : t.timerList = s.timerList
  awakeningTime : t.awakeningTime = s.awakeningTime
  timerPcb : t.timerPcb = s.timerPcb
  timerItemAllocator : t.timerItemAllocator = s.timerItemAllocator
  readyList : t.readyList = s.readyList
  waitingList : t.waitingList = s.waitingList
  running : t.running = s.running

/-- A transfer that is to be refused returns the code and does nothing else. -/
def RefusesCleanly (s : Kernel) (r : ℕ) (c : Syscall) : Prop :=
  ∀ v, s.Refusal r c v → ∃ t, handler c s r = .ok t ∧ t.syscallRetvalue r = v ∧ Untouched s t

/-- A receive passes every check but that of its length. -/
def ReceivesTooShort (s : Kernel) (r : ℕ) : Prop :=
  ∃ q ∈ s.queueOf r, s.maxMsg q ≠ 0 ∧ s.syscallArgs r 2 < s.msgSize q

variable {s t : Kernel} {r : ℕ} {c : Syscall} {args : List ℤ}

theorem untouched_setRetvalue (s : Kernel) (r : ℕ) (v : ℤ) : Untouched s (s.setRetvalue r v) := by
  constructor <;> rfl

theorem refusesCleanly_of_eq (h : ∀ v, s.Refusal r c v → handler c s r = .ok (s.setRetvalue r v)) :
    s.RefusesCleanly r c :=
  fun v hv => ⟨_,h v hv,Function.update_self _ _ _,untouched_setRetvalue s r v⟩

theorem internalMqSend_refusal {v : ℤ} (hv : s.Refusal r .mqSend v) :
    s.internalMqSend r = .ok (s.setRetvalue r v) := by
  cases hv with
  | closed hq => exact internalMqSend_none hq
  | size hq hbad =>
    rw [internalMqSend_some hq]
    split
    · rfl
    · rename_i hlen
      exact if_pos (hbad.resolve_right hlen)

theorem internalMqReceive_refusal {v : ℤ} (hshort : ¬ s.ReceivesTooShort r)
    (hv : s.Refusal r .mqReceive v) : s.internalMqReceive r = .ok (s.setRetvalue r v) := by
  cases hv with
  | closed hq => exact internalMqReceive_none hq
  | @size q hq hbad =>
    have hmax : s.maxMsg q = 0 := by
      by_contra hmax
      exact hshort ⟨q,hq,hmax,hbad.resolve_left hmax⟩
    rw [internalMqReceive_some hq,if_pos hmax,setRetvalue_sizeChecked]

/-- The receive that should have returned blocks, or takes a message off its queue. -/
theorem not_untouched_of_tooShort (h : Inv s) (hr : s.running = some r)
    (hnum : SleepsOnTimer (s.syscallNum r)) (hshort : s.ReceivesTooShort r)
    (hok : s.internalMqReceive r = .ok t) : ¬ Untouched s t := by
  obtain ⟨q,hq,hmax,_⟩ := hshort
  intro hsame
  rw [internalMqReceive_some hq,if_neg hmax,removeMessage_sizeChecked] at hok
  split at hok
  · obtain ⟨u,hslept,_,⟨_,hbl⟩ | ⟨next,rest,_,hbl⟩⟩ :=
      blockOnQueue_spec (h.sizeChecked r q) hr hnum dsosEMessagequeueEmpty
    · cases hbl.symm.trans hok
    · cases hbl.symm.trans hok
      obtain ⟨⟩ := hslept
      have hwaiting : listAppend s.waitingList r = s.waitingList := hsame.waitingList
      have hmem : r ∈ listAppend s.waitingList r := mem_listAppend.mpr (Or.inr rfl)
      rw [hwaiting] at hmem
      exact h.not_waiting_running hr hmem
  · rename_i hne
    obtain ⟨m,rest,hcons,hrem⟩ := removeMessage_eq h
      (h.queueOf_mem (h.running_allocated hr) hq) hne (s.syscallArgs r 1)
    rw [hrem] at hok
    split at hok
    · cases hok
    · cases hok
      have hleft : (s.removed r q m rest (s.syscallArgs r 1)).messages q = rest :=
        Function.update_self _ _ _
      have hrest := hleft.symm.trans ((congrFun hsame.messages q).trans hcons)
      exact List.ne_cons_self hrest

theorem refusesCleanly_iff (h : Inv s) (hr : s.running = some r)
    (hnum : SleepsOnTimer (s.syscallNum r)) (hc : c = .mqSend ∨ c = .mqReceive) :
    s.RefusesCleanly r c ↔ ¬ (c = .mqReceive ∧ s.ReceivesTooShort r) := by
  rcases hc with rfl | rfl
  · exact iff_of_true (refusesCleanly_of_eq fun v => internalMqSend_refusal) nofun
  · by_cases hshort : s.ReceivesTooShort r
    · refine iff_of_false ?_ (not_not.mpr ⟨rfl,hshort⟩)
      intro hclean
      have ⟨q,hq,_,hlen⟩ := hshort
      obtain ⟨t,hok,_,hsame⟩ := hclean _ (.size hq (Or.inr hlen))
      exact not_untouched_of_tooShort h hr hnum hshort hok hsame
    · exact iff_of_true (refusesCleanly_of_eq fun v => internalMqReceive_refusal hshort)
        (fun hc => hshort hc.2)

end Kernel

/-- A transfer that is to be refused returns its code and has no effect exactly if it is
not a receive that passes every check but that of its length. -/
theorem refused_transfers_clean {s : Kernel} {r : ℕ} {c : Syscall} {args : List ℤ}
    (hs : Reachable s) (hr : s.running = some r) (hc : c = .mqSend ∨ c = .mqReceive) :
    (s.enterTrap r c.number args).RefusesCleanly r c ↔
      ¬ (c = .mqReceive ∧ (s.enterTrap r c.number args).ReceivesTooShort r) := by
  refine Kernel.refusesCleanly_iff (hs.inv.enterTrap hr _ args) hr ?_ hc
  rw [Kernel.syscallNum_enterTrap]
  rcases hc with rfl | rfl
  · exact Or.inr (Or.inl rfl)
  · exact Or.inr (Or.inr rfl)

/-- A message is on the queue, and a receive names a descriptor that is not open. -/
theorem refused_transfers_clean_run : ∃ s : Kernel, s.msgNum 0 = 1 ∧
    ((s.enterTrap 0 Syscall.mqReceive.number [3,200,20]).RefusesCleanly 0 .mqReceive ↔
      ¬ (Syscall.mqReceive = .mqReceive ∧
        (s.enterTrap 0 Syscall.mqReceive.number [3,200,20]).ReceivesTooShort 0)) := by
  obtain ⟨s,hs,hcheck⟩ := exists_run Transitions.unguarded
    [.store 100 72,.call 10 [0,0,20,2,1],.ret,.call 13 [0,100,5],.ret]
    (fun s => s.running = some 0 && s.msgNum 0 = 1) (by decide)
  simp only [Bool.and_eq_true,decide_eq_true_eq] at hcheck
  exact ⟨s,hcheck.2,refused_transfers_clean hs hcheck.1 (Or.inr rfl)⟩

/-- The message is taken off the queue by a receive into a buffer of one character. -/
theorem short_receive_takes_message : ¬ ∀ (s : Kernel) (r : ℕ) (c : Syscall) (args : List ℤ),
    Reachable s → s.running = some r → c = .mqSend ∨ c = .mqReceive →
      (s.enterTrap r c.number args).RefusesCleanly r c := by
  intro hclaim
  obtain ⟨s,hs,hcheck⟩ := exists_run Transitions.unguarded
    [.store 100 72,.call 10 [0,0,20,2,1],.ret,.call 13 [0,100,5],.ret]
    (fun s => s.running = some 0 && (s.enterTrap 0 14 [0,200,1]).queueOf 0 = some 0 &&
      s.maxMsg 0 = 2 && s.msgSize 0 = 20 && (s.enterTrap 0 14 [0,200,1]).syscallArgs 0 2 = 1)
    (by decide)
  simp only [Bool.and_eq_true,decide_eq_true_eq] at hcheck
  obtain ⟨⟨⟨⟨hr,hq⟩,hmax⟩,hsize⟩,hlen⟩ := hcheck
  have hinv := (Reachable.inv hs).enterTrap hr 14 [0,200,1]
  have hiff := Kernel.refusesCleanly_iff hinv hr (Or.inr (Or.inr (Kernel.syscallNum_enterTrap ..)))
    (Or.inr rfl)
  refine hiff.mp (hclaim s 0 .mqReceive [0,200,1] hs hr (Or.inr rfl)) ⟨rfl,0,hq,?_,?_⟩
  · exact fun hzero => absurd (hmax.symm.trans hzero) (by decide)
  · rw [hlen]
    exact hsize.symm ▸ (by decide : (1 : ℤ) < 20)

end DisastrOS
