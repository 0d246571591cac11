import DisastrOS.Behaviour.Steps

/-! # Reading the history of a run

The events are recorded newest first. What a process has done since its last trap
tells whether its call has transferred a message, and whether it has slept.
-/
namespace DisastrOS

namespace Event

/-- The number of the call, if the event is a trap of `p`. -/
def trapOf (p : ℕ) : Event → Option ℤ
  | .trapped q num => if q = p then some num else none
  | _ => none

/-- A message is sent by `p` in a send, or received by `p` in a receive. -/
def isTransfer (p : ℕ) (num : ℤ) : Event → Bool
  | .sent q _ _ => q = p && num = dsosCallMqSend
  | .received q _ _ => q = p && num = dsosCallMqReceive
  | _ => false

/-- The process a call event belongs to. -/
def caller : Event → Option ℕ
  | .trapped p _ | .returned p _ | .refused p _ | .slept p | .sent p _ _ | .received p _ _
  | .exited p _ _ => some p
  | .createdQueue _ | .reaped _ _ _ _ => none

end Event

/-- The events since the last trap of `p`. -/
def sinceTrap (p : ℕ) (history : List Event) : List Event :=
  history.takeWhile (fun e => (e.trapOf p).isNone)

/-- The number of the last call of `p`. -/
def lastCall (p : ℕ) (history : List Event) : Option ℤ := history.findSome? (Event.trapOf p)

/-- The number of messages that the last call of `p` has transferred. -/
def transfers (p : ℕ) (num : ℤ) (history : List Event) : ℕ :=
  (sinceTrap p history).countP (Event.isTransfer p num)

def SendsOrReceives (num : ℤ) : Prop := num = dsosCallMqSend ∨ num = dsosCallMqReceive

instance (num : ℤ) : Decidable (SendsOrReceives num) := inferInstanceAs (Decidable (_ ∨ _))

/-- What a send or receive that has slept and transferred nothing is to return. -/
def queueCode (num : ℤ) : ℤ :=
  if num = dsosCallMqSend then dsosEMessagequeueFull else dsosEMessagequeueEmpty

/-- The last call of `p` has slept on a queue and transferred nothing. -/
def SleptInVain (p : ℕ) (num : ℤ) (history : List Event) : Prop :=
  .slept p ∈ sinceTrap p history ∧ transfers p num history = 0

/-- The value `v` tells truly what the last call of `p`, a send or a receive, did. -/
def Reports (history : List Event) (p : ℕ) (num v : ℤ) : Prop :=
  (v = 0 ↔ transfers p num history = 1) ∧ (SleptInVain p num history → v = queueCode num)

/-- Every send and every receive of the history returned a true report. -/
def Truthful (history : List Event) : Prop :=
  ∀ later earlier p v num, history = later ++ .returned p v :: earlier →
    lastCall p earlier = some num → SendsOrReceives num → Reports earlier p num v

variable {h : List Event} {e : Event} {p : ℕ} {num v : ℤ}

theorem sinceTrap_trapped (p : ℕ) (num : ℤ) (h : List Event) :
    sinceTrap p (.trapped p num :: h) = [] := by
  simp [sinceTrap,Event.trapOf]

theorem sinceTrap_cons (he : e.trapOf p = none) : sinceTrap p (e :: h) = e :: sinceTrap p h := by
  simp [sinceTrap,he]

theorem sinceTrap_append (es : List Event) (hes : ∀ e ∈ es, e.trapOf p = none) :
    sinceTrap p (es ++ h) = es ++ sinceTrap p h := by
  induction es with
  | nil => rfl
  | cons e es ih =>
    rw [List.cons_append,sinceTrap_cons (hes e List.mem_cons_self),
      ih (fun e' he' => hes e' (List.mem_cons_of_mem _ he'))]
    rfl

theorem trapOf_of_caller_ne (he : e.caller ≠ some p) : e.trapOf p = none := by
  cases e <;> simp_all [Event.caller,Event.trapOf]

theorem isTransfer_of_caller_ne (he : e.caller ≠ some p) : e.isTransfer p num = false := by
  cases e <;> simp_all [Event.caller,Event.isTransfer]

/-- The calls of other processes do not matter for a report. -/
theorem reports_cons_of_caller_ne (he : e.caller ≠ some p) :
    Reports (e :: h) p num v ↔ Reports h p num v := by
  have hslept : Event.slept p ≠ e := by
    rintro rfl
    exact he rfl
  unfold Reports SleptInVain transfers
  rw [sinceTrap_cons (trapOf_of_caller_ne he),List.countP_cons_of_neg
    (by rw [isTransfer_of_caller_ne he]; simp),List.mem_cons]
  simp only [hslept,false_or]

theorem reports_append {es : List Event} (hes : ∀ e ∈ es, e.caller ≠ some p) :
    Reports (es ++ h) p num v ↔ Reports h p num v := by
  induction es with
  | nil => exact Iff.rfl
  | cons e es ih =>
    rw [List.cons_append,reports_cons_of_caller_ne (hes e List.mem_cons_self)]
    exact ih (fun e' he' => hes e' (List.mem_cons_of_mem _ he'))

theorem queueCode_ne_zero (num : ℤ) : queueCode num ≠ 0 := by
  unfold queueCode
  split <;> decide

theorem queueCode_inj {num' : ℤ} (hnum : SendsOrReceives num) (hnum' : SendsOrReceives num') :
    queueCode num = queueCode num' ↔ num = num' := by
  rcases hnum with rfl | rfl <;> rcases hnum' with rfl | rfl <;> decide

/-- Where `v` is a true report, the code of a queue is one too if nothing was
transferred and no call of the other kind has slept. -/
theorem reports_queueCode {num' : ℤ} (hv : Reports h p num v) (hnum : SendsOrReceives num)
    (hnum' : SendsOrReceives num') : Reports h p num (queueCode num') ↔
      v ≠ 0 ∧ (SleptInVain p num h → num = num') := by
  refine and_congr ?_ (imp_congr_right fun _ => (queueCode_inj hnum' hnum).trans eq_comm)
  rw [← hv.1]
  simp [queueCode_ne_zero]

theorem lastCall_append (es : List Event) (hes : ∀ e ∈ es, e.trapOf p = none) :
    lastCall p (es ++ h) = lastCall p h := by
  induction es with
  | nil => rfl
  | cons e es ih =>
    have htail := ih (fun e' he' => hes e' (List.mem_cons_of_mem _ he'))
    unfold lastCall at htail ⊢
    rw [List.cons_append,List.findSome?_cons,hes e List.mem_cons_self]
    exact htail

/-- Only a return can make a truthful history untruthful. -/
theorem truthful_cons (hh : Truthful h) (he : ∀ p v num, e = .returned p v →
    lastCall p h = some num → SendsOrReceives num → Reports h p num v) : Truthful (e :: h) := by
  intro later earlier p v num hsplit hlast hnum
  cases later with
  | nil =>
    obtain ⟨rfl,rfl⟩ := List.cons.inj hsplit
    exact he p v num rfl hlast hnum
  | cons e' later =>
    obtain ⟨_,rfl⟩ := List.cons.inj hsplit
    exact hh later earlier p v num rfl hlast hnum

theorem truthful_append (es : List Event) (hh : Truthful h)
    (hes : ∀ e ∈ es, ∀ p v, e ≠ .returned p v) : Truthful (es ++ h) := by
  induction es with
  | nil => exact hh
  | cons e es ih =>
    refine truthful_cons (ih (fun e' he' => hes e' (List.mem_cons_of_mem _ he'))) ?_
    intro p v num he
    exact absurd he (hes e List.mem_cons_self p v)

namespace Kernel

/-- The events recorded between the two states are not of the kind `f`. -/
def Quiet (f : Event → Bool) (s t : Kernel) : Prop :=
  ∃ es, t.history = es ++ s.history ∧ ∀ e ∈ es, f e = false

/-- The code that a blocking send or receive is to return. -/
def blockCode (s : Kernel) (r : ℕ) : Syscall → Option ℤ
  | .mqSend => if s.SendBlocks r then some dsosEMessagequeueFull else none
  | .mqReceive => if s.ReceiveBlocks r then some dsosEMessagequeueEmpty else none
  | _ => none

/-- The buffer of a receive is shorter than the messages of the queue may be. -/
def BufferTooShort (s : Kernel) (r : ℕ) : Prop :=
  ∃ q ∈ s.queueOf r, s.syscallArgs r 2 < s.msgSize q

instance (s : Kernel) (r : ℕ) : Decidable (s.BufferTooShort r) := inferInstanceAs
  (Decidable (∃ q ∈ s.queueOf r, _))

variable {s t u v : Kernel} {r q : ℕ} {c : Syscall} {code : ℤ} {f : Event → Bool}

theorem Quiet.refl (f : Event → Bool) (s : Kernel) : Quiet f s s := ⟨[],rfl,by simp⟩

theorem Quiet.congr (hq : Quiet f s t) (hu : u.history = t.history) : Quiet f s u := by
  obtain ⟨es,hes,hall⟩ := hq
  exact ⟨es,hu.trans hes,hall⟩

theorem Quiet.cons {e : Event} (hq : Quiet f s t) (he : f e = false)
    (hu : u.history = e :: t.history) : Quiet f s u := by
  obtain ⟨es,hes,hall⟩ := hq
  refine ⟨e :: es,by rw [hu,hes]; rfl,?_⟩
  intro e' he'
  rcases List.mem_cons.mp he' with rfl | he'
  · exact he
  · exact hall e' he'

theorem Quiet.trans (hst : Quiet f s t) (htu : Quiet f t u) : Quiet f s u := by
  obtain ⟨es,hes,hall⟩ := hst
  obtain ⟨es',hes',hall'⟩ := htu
  refine ⟨es' ++ es,by rw [hes',hes,List.append_assoc],?_⟩
  intro e he
  exact (List.mem_append.mp he).elim (hall' e) (hall e)

/-- A quiet step records no other event. -/
theorem Quiet.not_mem {e : Event} {es : List Event} (hq : Quiet f s t)
    (hes : t.history = es ++ s.history) (he : f e = true) : e ∉ es := by
  obtain ⟨es',hes',hall⟩ := hq
  obtain rfl := List.append_cancel_right (hes.symm.trans hes')
  intro hmem
  rw [hall e hmem] at he
  cases he

/-- A list that is read off the other events is the same after a quiet step. -/
theorem Quiet.filterMap {β : Type} {g : Event → Option β} (hq : Quiet f s t)
    (hg : ∀ e, f e = false → g e = none) : t.history.filterMap g = s.history.filterMap g := by
  obtain ⟨es,hes,hall⟩ := hq
  have hnil : es.filterMap g = [] := by
    apply List.filterMap_eq_nil_iff.mpr
    intro e he
    exact hg e (hall e he)
  rw [hes,List.filterMap_append,hnil,List.nil_append]

theorem quiet_enterTrap (hf : ∀ p num, f (.trapped p num) = false) (s : Kernel) (r : ℕ) (num : ℤ)
    (args : List ℤ) : Quiet f s (s.enterTrap r num args) := (Quiet.refl f s).cons (hf r num) rfl

theorem Switched.history (hsw : Switched v t) : t.history = v.history := by
  cases hsw <;> rfl

theorem Scheduled.history (hs : Scheduled s r t) : t.history = s.history := by
  cases hs with
  | stay hw => obtain ⟨⟩ := hw; rfl
  | rotate hw => obtain ⟨⟩ := hw; rfl

theorem Slept.history (hslept : Slept s r u) : u.history = s.history := by
  obtain ⟨⟩ := hslept
  rfl

/-- What a handler does for the processes that did not call it. -/
structure Bystander (s t : Kernel) (q : ℕ) : Prop where
  saved : ∀ c, t.cpuState q = some c → c.point = .syscall → s.cpuState q = some c
  syscallNum : t.syscallNum q = s.syscallNum q

theorem Woken.bystander (hw : Woken s t) (q : ℕ) : Bystander s t q := by
  obtain ⟨⟩ := hw
  exact ⟨fun _ hc _ => hc,rfl⟩

theorem Effect.bystander (he : Effect s r c t) (q : ℕ) : Bystander s t q := by
  cases he with
  | preempt hs => cases hs with
    | stay hw => exact hw.bystander q
    | rotate hw => exact ⟨(hw.bystander q).saved,(hw.bystander q).syscallNum⟩
  | @spawn p x pool entries _ _ c hc =>
    refine ⟨?_,rfl⟩
    intro c' hc' hpoint
    by_cases hqp : q = p
    · subst hqp
      have hsame : some c = some c' := (Function.update_self q (some c) s.cpuState).symm.trans hc'
      cases hsame
      exact absurd hpoint hc
    · exact (Function.update_of_ne hqp (some c) s.cpuState).symm.trans hc'
  | sleep hslept => obtain ⟨⟩ := hslept; exact ⟨fun _ hc _ => hc,rfl⟩
  | sleepNext hslept => obtain ⟨⟩ := hslept; exact ⟨fun _ hc _ => hc,rfl⟩
  | sendBlocks _ hslept => obtain ⟨⟩ := hslept; exact ⟨fun _ hc _ => hc,rfl⟩
  | receiveBlocks _ _ hslept => obtain ⟨⟩ := hslept; exact ⟨fun _ hc _ => hc,rfl⟩
  | _ => exact ⟨fun _ hc _ => hc,rfl⟩

/-- A handler records nothing about other processes, no trap and no return. -/
theorem Effect.history (he : Effect s r c t) :
    ∃ es, t.history = es ++ s.history ∧ ∀ e ∈ es, (∀ p, p ≠ r → e.caller ≠ some p) ∧
      (∀ p, e.trapOf p = none) ∧ ∀ p v, e ≠ .returned p v := by
  have hnil : ∃ es, s.history = es ++ s.history ∧ ∀ e ∈ es,
      (∀ p, p ≠ r → e.caller ≠ some p) ∧ (∀ p, e.trapOf p = none) ∧ ∀ p v, e ≠ .returned p v :=
    ⟨[],rfl,by simp⟩
  cases he with
  | preempt hs =>
    cases hs with
    | stay hw => obtain ⟨⟩ := hw; exact hnil
    | rotate hw => obtain ⟨⟩ := hw; exact hnil
  | reap => exact ⟨[_],rfl,by simp [Event.caller,Event.trapOf]⟩
  | collect => exact ⟨[_,_],rfl,by simp +contextual [Event.caller,Event.trapOf,eq_comm]⟩
  | replace => exact ⟨[_],rfl,by simp +contextual [Event.caller,Event.trapOf,eq_comm]⟩
  | sleep hslept => obtain ⟨⟩ := hslept; exact hnil
  | sleepNext hslept => obtain ⟨⟩ := hslept; exact hnil
  | createQueue => exact ⟨[_],rfl,by simp [Event.caller,Event.trapOf]⟩
  | sendBlocks _ hslept =>
    obtain ⟨⟩ := hslept
    exact ⟨[_],rfl,by simp +contextual [Event.caller,Event.trapOf,eq_comm]⟩
  | send => exact ⟨[_],rfl,by simp +contextual [Event.caller,Event.trapOf,eq_comm]⟩
  | receiveBlocks _ _ hslept =>
    obtain ⟨⟩ := hslept
    exact ⟨[_],rfl,by simp +contextual [Event.caller,Event.trapOf,eq_comm]⟩
  | receive => exact ⟨[_],rfl,by simp +contextual [Event.caller,Event.trapOf,eq_comm]⟩
  | _ => exact hnil

/-- A call with a handler records its trap first, and no other trap. -/
theorem step_trapped {num : ℤ} {args : List ℤ} (h : Inv s)
    (hstep : s.step (.call num args) = .ok t) (hr : s.running = some r)
    (hc : syscallVector num.toNat = some c) :
    ∃ es, t.history = es ++ .trapped r num :: s.history ∧ ∀ e ∈ es, ∀ p, e.trapOf p = none := by
  cases step_moves h hstep with
  | refused _ _ hnum => cases (syscallVector_of_range hnum).symm.trans hc
  | missing _ _ _ _ hc' => cases hc'.symm.trans hc
  | handled hr' _ _ _ _ he hsw =>
    cases hr.symm.trans hr'
    obtain ⟨es,hes,hall⟩ := he.history
    exact ⟨es,hsw.history.trans hes,fun e he' => (hall e he').2.1⟩

/-- A step only records traps of the running process. -/
theorem step_history {a : Action} (h : Inv s) (hstep : s.step a = .ok t) :
    ∃ es, t.history = es ++ s.history ∧
      ∀ p, s.running ≠ some p → ∀ e ∈ es, e.trapOf p = none := by
  have hnil : t.history = s.history → ∃ es, t.history = es ++ s.history ∧
      ∀ p, s.running ≠ some p → ∀ e ∈ es, e.trapOf p = none :=
    fun hh => ⟨[],hh,fun _ _ e he => absurd he List.not_mem_nil⟩
  have hone : ∀ e, t.history = e :: s.history → (∀ p, s.running ≠ some p → e.trapOf p = none) →
      ∃ es, t.history = es ++ s.history ∧ ∀ p, s.running ≠ some p → ∀ e ∈ es, e.trapOf p = none := by
    intro e hh he
    refine ⟨[e],hh,fun p hp e' he' => ?_⟩
    obtain rfl := List.mem_singleton.mp he'
    exact he p hp
  cases step_moves h hstep with
  | tick hr hdown hs hsw => exact hnil (hsw.history.trans hs.history)
  | refused => exact hone _ rfl (fun _ _ => rfl)
  | missing hr hdown hcpu hnum hc hsw =>
    refine hone _ hsw.history (fun p hp => if_neg ?_)
    rintro rfl
    exact hp hr
  | @handled r num args c v t hr hdown hcpu hnum hc he hsw =>
    obtain ⟨es,hes,hall⟩ := step_trapped h hstep hr hc
    refine ⟨es ++ [.trapped r num],by rw [hes,List.append_assoc]; rfl,?_⟩
    intro p hp e hmem
    rcases List.mem_append.mp hmem with hmem | hmem
    · exact hall e hmem p
    · obtain rfl := List.mem_singleton.mp hmem
      refine if_neg ?_
      rintro rfl
      exact hp hr
  | ret => exact hone _ rfl (fun _ _ => rfl)
  | store => exact hnil rfl
  | resumeMain hr hdown hb hsw => exact hnil hsw.history

end Kernel

end DisastrOS
