import DisastrOS.Properties.ReturnValues

/-! # The results of sends and receives

The value that a process is about to read after a send or a receive tells truly
whether its call has transferred a message, as long as no blocking call stores its
code in the wrong return value.
-/
namespace DisastrOS

namespace Kernel

/-- The saved context of `p` continues behind a trap. -/
def Saved (s : Kernel) (p : ℕ) : Prop := (s.cpuState p).map Context.point = some .syscall

/-- The process `p` is about to return from a system call. -/
def AtSyscall (s : Kernel) (p : ℕ) : Prop :=
  if s.running = some p then s.cpu = .syscall else s.Saved p

/-- Every process that is about to return from a send or a receive would return a
true report. -/
def Honest (s : Kernel) : Prop :=
  ∀ p, s.AtSyscall p → SendsOrReceives (s.syscallNum p) →
    Reports s.history p (s.syscallNum p) (s.syscallRetvalue p)

/-- A call that blocks on a queue does no harm: its caller holds the code already, and
the process that gets the processor, and with it the code, is not about to return from
a send or a receive that has transferred a message or has slept for the other kind. -/
def KeepsResults (s : Kernel) : Action → Prop
  | .call num args => ∀ r next code, s.running = some r → s.readyList.head? = some next →
      s.callBlocks r num args = some code →
      (s.syscallRetvalue r = code ∧
        ¬ (num = dsosCallMqReceive ∧ (s.enterTrap r num args).BufferTooShort r)) ∧
      (s.Saved next → SendsOrReceives (s.syscallNum next) →
        s.syscallRetvalue next ≠ 0 ∧
          (SleptInVain next (s.syscallNum next) s.history → s.syscallNum next = num))
  | _ => True

variable {s t v : Kernel} {r p : ℕ} {c : Syscall} {a : Action} {num : ℤ} {args : List ℤ}

theorem atSyscall_of_ne (hr : s.running = some r) (hp : p ≠ r) : s.AtSyscall p ↔ s.Saved p := by
  unfold AtSyscall
  rw [hr,if_neg (by simpa using hp.symm)]

theorem Switched.atSyscall (hsw : Switched v t) (hp : v.shutdownNow = true → v.running ≠ some p) :
    t.AtSyscall p ↔ v.Saved p := by
  cases hsw with
  | @resume q c hrun hc =>
    unfold AtSyscall
    by_cases hqp : q = p
    · subst hqp
      simp [hrun,Saved,hc]
    · simp [hrun,hqp,Saved]
  | stay hidle =>
    unfold AtSyscall
    rcases hidle with hnone | hdown
    · simp [hnone]
    · rw [if_neg (hp hdown)]

theorem Switched.frame (hsw : Switched v t) : t.history = v.history ∧
    t.syscallNum = v.syscallNum ∧ t.syscallRetvalue = v.syscallRetvalue := by
  cases hsw <;> exact ⟨rfl,rfl,rfl⟩

theorem Scheduled.frame (hs : Scheduled s r t) : t.history = s.history ∧
    t.syscallNum = s.syscallNum ∧ t.syscallRetvalue = s.syscallRetvalue ∧
    t.cpuState = s.cpuState ∧ t.shutdownNow = s.shutdownNow := by
  cases hs with
  | stay hw => obtain ⟨⟩ := hw; exact ⟨rfl,rfl,rfl,rfl,rfl⟩
  | rotate hw => obtain ⟨⟩ := hw; exact ⟨rfl,rfl,rfl,rfl,rfl⟩

theorem Effect.shutdownNow (he : Effect s r c t) (hr : s.running = some r)
    (hdown : s.shutdownNow = false) (hp : p ≠ r) :
    t.shutdownNow = true → t.running ≠ some p := by
  have hnot : s.shutdownNow ≠ true := by simp [hdown]
  cases he with
  | preempt hs => exact fun ht => absurd (hs.frame.2.2.2.2.symm.trans ht) hnot
  | sleep hslept => obtain ⟨⟩ := hslept; exact fun ht => absurd ht hnot
  | sleepNext hslept => obtain ⟨⟩ := hslept; exact fun ht => absurd ht hnot
  | sendBlocks _ hslept => obtain ⟨⟩ := hslept; exact fun ht => absurd ht hnot
  | receiveBlocks _ _ hslept => obtain ⟨⟩ := hslept; exact fun ht => absurd ht hnot
  | shutdown =>
    intro _ hrun
    cases hr.symm.trans hrun
    exact hp rfl
  | _ => exact fun ht => absurd ht hnot

/-- The codes that a send or a receive stores for its own caller are true reports. -/
theorem Effect.reports (he : Effect s r c t) (hh : ∃ h, s.history = .trapped r num :: h)
    (hc : syscallVector num.toNat = some c) (hnum : SendsOrReceives num)
    (hb : s.blockCode r c = none) : Reports t.history r num (t.syscallRetvalue r) := by
  obtain ⟨h,hh⟩ := hh
  have hrefused : ∀ {u : Kernel} {x : ℤ}, u.history = s.history → x < 0 →
      Reports u.history r num x := by
    intro u x hu hx
    rw [hu,hh]
    unfold Reports SleptInVain transfers
    rw [sinceTrap_trapped]
    simp
    omega
  have hcall : num = dsosCallMqSend ∧ c = .mqSend ∨ num = dsosCallMqReceive ∧ c = .mqReceive := by
    rcases hnum with rfl | rfl
    · exact Or.inl ⟨rfl,(Option.some.inj hc).symm⟩
    · exact Or.inr ⟨rfl,(Option.some.inj hc).symm⟩
  rcases hcall with ⟨rfl,rfl⟩ | ⟨rfl,rfl⟩
  · cases he with
    | sendRefused _ hv =>
      have hret := hrefused (u := s) rfl hv
      simpa [setRetvalue] using hret
    | sendBlocks hblocks => simp [blockCode,hblocks] at hb
    | send =>
      simp only [appended,setRetvalue,record,Function.update_self,hh]
      unfold Reports SleptInVain transfers
      rw [sinceTrap_cons rfl,sinceTrap_trapped]
      simp [Event.isTransfer]
    | resource hc => simp at hc
    | queue hc => simp at hc
  · cases he with
    | receiveRefused _ hv =>
      have hret := hrefused (u := s) rfl hv
      simpa [setRetvalue] using hret
    | receiveBlocks hblocks => simp [blockCode,hblocks] at hb
    | receive =>
      simp only [removed,setRetvalue,record,Function.update_self,hh]
      unfold Reports SleptInVain transfers
      rw [sinceTrap_cons rfl,sinceTrap_trapped]
      simp [Event.isTransfer]
    | resource hc => simp at hc
    | queue hc => simp at hc

theorem Bystander.of_saved (hby : Bystander s t p) (ht : t.Saved p) : s.Saved p := by
  unfold Saved at ht ⊢
  obtain ⟨c,hc,hpoint⟩ := Option.map_eq_some_iff.mp ht
  rw [hby.saved c hc hpoint]
  exact congrArg some hpoint

/-- What is to be shown of one process for `Honest`. -/
def HonestAt (s : Kernel) (p : ℕ) : Prop :=
  SendsOrReceives (s.syscallNum p) → Reports s.history p (s.syscallNum p) (s.syscallRetvalue p)

theorem Switched.honestAt (hsw : Switched v t) : t.HonestAt p ↔ v.HonestAt p := by
  unfold HonestAt
  rw [hsw.frame.1,hsw.frame.2.1,hsw.frame.2.2]

theorem Effect.honestAt (he : Effect s r c t) (hp : p ≠ r)
    (hret : t.syscallRetvalue p = s.syscallRetvalue p) : t.HonestAt p ↔ s.HonestAt p := by
  obtain ⟨es,hes,hneutral⟩ := he.history
  unfold HonestAt
  rw [(he.bystander p).syscallNum,hes,hret,reports_append (fun e he' => (hneutral e he').1 p hp)]

theorem honestAt_enterTrap (hp : p ≠ r) : (s.enterTrap r num args).HonestAt p ↔ s.HonestAt p := by
  have hnum : (s.enterTrap r num args).syscallNum p = s.syscallNum p := by
    simp [enterTrap,saveContext,record,hp]
  have hcaller : (Event.trapped r num).caller ≠ some p := by
    simpa [Event.caller] using hp.symm
  unfold HonestAt
  rw [hnum]
  exact imp_congr_right (fun _ => reports_cons_of_caller_ne hcaller)

theorem saved_enterTrap (hp : p ≠ r) : (s.enterTrap r num args).Saved p ↔ s.Saved p := by
  have hcpu : (s.enterTrap r num args).cpuState p = s.cpuState p :=
    Function.update_of_ne hp _ s.cpuState
  unfold Saved
  rw [hcpu]

theorem honest_of_not_blocked (h : Inv s) (hr : s.running = some r)
    (hdown : s.shutdownNow = false) (hon : Honest s) (hc : syscallVector num.toNat = some c)
    (he : Effect (s.enterTrap r num args) r c v) (hsw : Switched v t)
    (hb : (s.enterTrap r num args).blockCode r c = none) : Honest t := by
  have h' := h.enterTrap hr num args
  obtain ⟨hhist,hnum,hret⟩ := hsw.frame
  intro p hat
  rw [hhist,hnum,hret]
  by_cases hp : p = r
  · subst hp
    rw [(he.bystander p).syscallNum,syscallNum_enterTrap]
    exact fun hsor => he.reports ⟨_,rfl⟩ hc hsor hb
  · have hsaved := (hsw.atSyscall (he.shutdownNow (s := s.enterTrap r num args) hr hdown hp)).mp hat
    have hsavedS := (saved_enterTrap hp).mp ((he.bystander p).of_saved hsaved)
    have hbefore : s.HonestAt p := hon p ((atSyscall_of_ne hr hp).mpr hsavedS)
    rcases he.retvalue h' hb hp with hsame | ⟨_,_,hwakes,_⟩
    · exact (he.honestAt hp hsame).mpr ((honestAt_enterTrap hp).mpr hbefore)
    · rw [(he.bystander p).syscallNum,(mem_waiting_of_wakesParent h' hwakes).2.1]
      intro hsor
      exact absurd hsor (by decide)

theorem blockCode_eq_some (hc : syscallVector num.toNat = some c) {code : ℤ}
    (hb : s.blockCode r c = some code) : SendsOrReceives num ∧ code = queueCode num ∧ code ≠ 0 ∧
      (c = .mqReceive ↔ num = dsosCallMqReceive) := by
  have hnum := syscallVector_eq_some hc
  cases c with
  | mqSend =>
    subst hnum
    simp only [blockCode] at hb
    split at hb
    · cases hb
      decide
    · cases hb
  | mqReceive =>
    subst hnum
    simp only [blockCode] at hb
    split at hb
    · cases hb
      decide
    · cases hb
  | _ => cases hb

/-- A call that has gone to sleep on a queue is to return the code of the queue. -/
theorem reports_slept {code : ℤ} (hcode : code = queueCode num) (hne : code ≠ 0) (h : List Event)
    (x : ℤ) : Reports (.slept r :: .trapped r num :: h) r num x ↔ x = code := by
  subst hcode
  unfold Reports SleptInVain transfers
  rw [sinceTrap_cons rfl,sinceTrap_trapped]
  simp only [List.countP_cons,List.countP_nil,Event.isTransfer,List.mem_singleton]
  constructor
  · intro hrep
    exact hrep.2 ⟨trivial,by simp⟩
  · rintro rfl
    simpa using hne

section Blocking
variable {next : ℕ} {code : ℤ}

/-- The caller sleeps with the result it held. -/
theorem Blocked.honestAt_caller (hblk : Blocked (s.enterTrap r num args) r c code next v)
    (hc : syscallVector num.toNat = some c)
    (hb : (s.enterTrap r num args).blockCode r c = some code) :
    v.HonestAt r ↔ s.syscallRetvalue r = code ∧
      ¬ (num = dsosCallMqReceive ∧ (s.enterTrap r num args).BufferTooShort r) := by
  obtain ⟨hsor,hcode,hne,hrecv⟩ := blockCode_eq_some hc hb
  have hheld : (s.enterTrap r num args).syscallRetvalue r = s.syscallRetvalue r := rfl
  have hsize : dsosEMessagesize ≠ code := by
    rw [hcode]
    rcases hsor with rfl | rfl <;> decide
  unfold HonestAt
  rw [hblk.history,hblk.held,hblk.syscallNum,syscallNum_enterTrap,forall_prop_of_true hsor]
  refine (reports_slept hcode hne s.history _).trans ?_
  unfold heldResult
  by_cases hshort : num = dsosCallMqReceive ∧ (s.enterTrap r num args).BufferTooShort r
  · rw [if_pos ⟨hrecv.mpr hshort.1,hshort.2⟩]
    exact iff_of_false hsize (fun hsame => hsame.2 hshort)
  · rw [if_neg (fun hc' => hshort ⟨hrecv.mp hc'.1,hc'.2⟩),hheld]
    exact ⟨fun hsame => ⟨hsame,hshort⟩,And.left⟩

theorem Blocked.honestAt_next (hblk : Blocked (s.enterTrap r num args) r c code next v)
    (hc : syscallVector num.toNat = some c)
    (hb : (s.enterTrap r num args).blockCode r c = some code) (hbefore : s.HonestAt next) :
    v.HonestAt next ↔ (SendsOrReceives (s.syscallNum next) → s.syscallRetvalue next ≠ 0 ∧
      (SleptInVain next (s.syscallNum next) s.history → s.syscallNum next = num)) := by
  obtain ⟨hsor,hcode,_,_⟩ := blockCode_eq_some hc hb
  have hcallers : ∀ e ∈ [Event.slept r,Event.trapped r num], e.caller ≠ some next := by
    simp [Event.caller,hblk.ne.symm]
  have hsame : (s.enterTrap r num args).syscallNum next = s.syscallNum next := by
    simp [enterTrap,saveContext,record,hblk.ne]
  unfold HonestAt
  rw [hblk.history,hblk.syscallNum,hblk.misdirected,hsame,hcode]
  refine imp_congr_right fun hn => ?_
  exact (reports_append (h := s.history) hcallers).trans (reports_queueCode (hbefore hn) hn hsor)

theorem Blocked.honestAt_other (hblk : Blocked (s.enterTrap r num args) r c code next v)
    (he : Effect (s.enterTrap r num args) r c v) (hpr : p ≠ r) (hpn : p ≠ next) :
    v.HonestAt p ↔ s.HonestAt p :=
  (he.honestAt hpr (hblk.others p hpr hpn)).trans (honestAt_enterTrap hpr)

theorem Blocked.atSyscall_caller (hblk : Blocked (s.enterTrap r num args) r c code next v)
    (hsw : Switched v t) : t.AtSyscall r := by
  have hsaved : v.Saved r := by
    unfold Saved
    rw [hblk.cpuState]
    simp [enterTrap,saveContext,record]
  rw [atSyscall_of_ne (hsw.running.trans hblk.running) hblk.ne.symm]
  cases hsw <;> exact hsaved

theorem Blocked.atSyscall_other (hblk : Blocked (s.enterTrap r num args) r c code next v)
    (he : Effect (s.enterTrap r num args) r c v) (hsw : Switched v t) (hr : s.running = some r)
    (hdown : s.shutdownNow = false) (hp : p ≠ r) : t.AtSyscall p ↔ s.AtSyscall p := by
  have hsaved : v.Saved p ↔ (s.enterTrap r num args).Saved p := by
    unfold Saved
    rw [hblk.cpuState]
  rw [hsw.atSyscall (he.shutdownNow (s := s.enterTrap r num args) hr hdown hp),hsaved,
    saved_enterTrap hp,atSyscall_of_ne hr hp]

/-- A call that blocks leaves all pending results true exactly when it does no harm. -/
theorem honest_of_blocked (h : Inv s) (hr : s.running = some r) (hdown : s.shutdownNow = false)
    (hon : Honest s) (hc : syscallVector num.toNat = some c)
    (he : Effect (s.enterTrap r num args) r c v) (hsw : Switched v t)
    (hb : (s.enterTrap r num args).blockCode r c = some code) :
    Honest t ↔ KeepsResults s (.call num args) := by
  obtain ⟨next,rest,hready,hblk⟩ := he.blocked (h.enterTrap hr num args) hr hb
  have hhead : s.readyList.head? = some next := congrArg List.head? hready
  have hcalls : s.callBlocks r num args = some code := by
    simp only [callBlocks,hc,Option.bind_some]
    exact hb
  have hcaller := hblk.honestAt_caller hc hb
  constructor
  · intro hont r' next' code' hr' hnext' hcode'
    cases hr.symm.trans hr'
    cases hhead.symm.trans hnext'
    cases hcalls.symm.trans hcode'
    refine ⟨hcaller.mp (hsw.honestAt.mp (hont r (hblk.atSyscall_caller hsw))),?_⟩
    intro hsaved
    have hat : s.AtSyscall next := (atSyscall_of_ne hr hblk.ne).mpr hsaved
    refine (hblk.honestAt_next hc hb (hon next hat)).mp (hsw.honestAt.mp (hont next ?_))
    exact (hblk.atSyscall_other he hsw hr hdown hblk.ne).mpr hat
  · intro hkeeps p hat
    obtain ⟨hheld,hgood⟩ := hkeeps r next code hr hhead hcalls
    apply hsw.honestAt.mpr
    by_cases hpr : p = r
    · subst hpr
      exact hcaller.mpr hheld
    have hat' := (hblk.atSyscall_other he hsw hr hdown hpr).mp hat
    by_cases hpn : p = next
    · subst hpn
      exact (hblk.honestAt_next hc hb (hon p hat')).mpr (hgood ((atSyscall_of_ne hr hpr).mp hat'))
    · exact (hblk.honestAt_other he hpr hpn).mpr (hon p hat')

end Blocking

theorem keepsResults_of_callBlocks (hr : s.running = some r)
    (hb : s.callBlocks r num args = none) : KeepsResults s (.call num args) := by
  intro r' next code hr' _ hcode
  cases hr.symm.trans hr'
  cases hb.symm.trans hcode

theorem Scheduled.atSyscall (hr : s.running = some r) (hdown : s.shutdownNow = false)
    (hs : Scheduled (s.ticked r) r v) (hsw : Switched v t) : t.AtSyscall p ↔ s.AtSyscall p := by
  obtain ⟨_,_,_,hcpu,hsame⟩ := hs.frame
  have hup : v.shutdownNow = true → v.running ≠ some p := by
    intro hv
    have hfalse : v.shutdownNow = false := hsame.trans hdown
    exact absurd hv (by simp [hfalse])
  refine (hsw.atSyscall hup).trans ?_
  by_cases hp : p = r
  · subst hp
    unfold Saved AtSyscall
    rw [hcpu,if_pos hr]
    simp [ticked,saveContext]
  · rw [atSyscall_of_ne hr hp]
    have hother : v.cpuState p = s.cpuState p := by
      rw [hcpu]
      exact Function.update_of_ne hp _ _
    unfold Saved
    rw [hother]

theorem honest_tick (hon : Honest s) (hr : s.running = some r) (hdown : s.shutdownNow = false)
    (hs : Scheduled (s.ticked r) r v) (hsw : Switched v t) : Honest t := by
  obtain ⟨hhist,hnum,hret,_⟩ := hs.frame
  intro p hat
  have hsame : v.HonestAt p ↔ s.HonestAt p := by
    unfold HonestAt
    rw [hhist,hnum,hret]
    exact Iff.rfl
  exact hsw.honestAt.mpr (hsame.mpr (hon p ((hs.atSyscall hr hdown hsw).mp hat)))

theorem honest_refused (hon : Honest s) (hr : s.running = some r) (hcpu : s.cpu ≠ .syscall) :
    Honest (s.record (.refused r dsosESyscallOutOfRange)) := by
  intro p hat hsor
  have hne : (Event.refused r dsosESyscallOutOfRange).caller ≠ some p := by
    intro hrp
    cases Option.some.inj hrp
    have hat' : if s.running = some r then s.cpu = .syscall else s.Saved r := hat
    rw [if_pos hr] at hat'
    exact hcpu hat'
  exact (reports_cons_of_caller_ne hne).mpr (hon p hat hsor)

theorem honest_missing (hon : Honest s) (hr : s.running = some r) (hdown : s.shutdownNow = false)
    (hc : syscallVector num.toNat = none)
    (hsw : Switched ((s.enterTrap r num args).setRetvalue r dsosESyscallNotImplemented) t) :
    Honest t := by
  intro p hat
  apply hsw.honestAt.mpr
  by_cases hp : p = r
  · subst hp
    have hown : ((s.enterTrap p num args).setRetvalue p dsosESyscallNotImplemented).syscallNum p
        = num := syscallNum_enterTrap s p num args
    unfold HonestAt
    rw [hown]
    rintro (rfl | rfl) <;> cases hc
  · have hup : (s.enterTrap r num args).shutdownNow = true →
        (s.enterTrap r num args).running ≠ some p := by
      intro hv
      exact absurd hv (by simp [enterTrap,saveContext,record,hdown])
    have hsaved : (s.enterTrap r num args).Saved p := (hsw.atSyscall hup).mp hat
    have hother : ((s.enterTrap r num args).setRetvalue r
        dsosESyscallNotImplemented).syscallRetvalue p = s.syscallRetvalue p :=
      Function.update_of_ne hp _ _
    unfold HonestAt
    rw [hother]
    exact (honestAt_enterTrap hp).mpr
      (hon p ((atSyscall_of_ne hr hp).mpr ((saved_enterTrap hp).mp hsaved)))

theorem honest_ret (hon : Honest s) (hr : s.running = some r) :
    Honest ({ s with cpu := .user }.record (.returned r (s.syscallRetvalue r))) := by
  intro p hat
  have hat' : if s.running = some p then ResumePoint.user = .syscall else s.Saved p := hat
  by_cases hp : p = r
  · subst hp
    rw [if_pos hr] at hat'
    cases hat'
  · rw [if_neg (by simp [hr,Ne.symm hp])] at hat'
    have hne : (Event.returned r (s.syscallRetvalue r)).caller ≠ some p := by
      simpa [Event.caller] using Ne.symm hp
    intro hsor
    exact (reports_cons_of_caller_ne hne).mpr (hon p ((atSyscall_of_ne hr hp).mpr hat') hsor)

theorem honest_resumeMain {q : ℕ} {pool : Pool maxNumProcesses} (hon : Honest s)
    (hr : s.running = none) (hdown : s.shutdownNow = false)
    (hsw : Switched (s.withInit q pool) t) : Honest t := by
  intro p hat
  apply hsw.honestAt.mpr
  have hsv := (hsw.atSyscall (fun hv => absurd hv (by simp [withInit,withPcb,hdown]))).mp hat
  by_cases hp : p = q
  · subst hp
    simp [Saved,withInit] at hsv
  · have hother : (s.withInit q pool).cpuState p = s.cpuState p := Function.update_of_ne hp _ _
    unfold Saved at hsv
    rw [hother] at hsv
    refine hon p ?_
    unfold AtSyscall
    rw [hr,if_neg (by simp)]
    exact hsv

/-- The pending results are true after a step exactly if the step kept to the guard. -/
theorem honest_iff (h : Inv s) (hon : Honest s) (hm : Moves s a t) :
    Honest t ↔ KeepsResults s a := by
  cases hm with
  | tick hr hdown hs hsw => exact iff_of_true (honest_tick hon hr hdown hs hsw) trivial
  | @refused r num args hr hcpu hnum =>
    have hnone : s.callBlocks r num args = none := by
      simp [callBlocks,syscallVector_of_range hnum]
    exact iff_of_true (honest_refused hon hr hcpu) (keepsResults_of_callBlocks hr hnone)
  | @missing r num args t hr hdown hcpu hnum hc hsw =>
    have hnone : s.callBlocks r num args = none := by simp [callBlocks,hc]
    exact iff_of_true (honest_missing hon hr hdown hc hsw) (keepsResults_of_callBlocks hr hnone)
  | @handled r num args c v t hr hdown hcpu hnum hc he hsw =>
    cases hb : (s.enterTrap r num args).blockCode r c with
    | none =>
      have hnone : s.callBlocks r num args = none := by simp [callBlocks,hc,hb]
      exact iff_of_true (honest_of_not_blocked h hr hdown hon hc he hsw hb)
        (keepsResults_of_callBlocks hr hnone)
    | some code => exact honest_of_blocked h hr hdown hon hc he hsw hb
  | ret hr hcpu => exact iff_of_true (honest_ret hon hr) trivial
  | store => exact iff_of_true hon trivial
  | resumeMain hr hdown hb hsw => exact iff_of_true (honest_resumeMain hon hr hdown hsw) trivial

/-- The last call of every process in the history is the one its PCB holds. -/
def LastCalls (s : Kernel) : Prop :=
  ∀ p num, lastCall p s.history = some num → s.syscallNum p = num

theorem LastCalls.mono (hl : LastCalls s) (hnum : t.syscallNum = s.syscallNum)
    (hhist : ∀ p, lastCall p t.history = lastCall p s.history) : LastCalls t := by
  intro p num hp
  rw [hnum]
  exact hl p num ((hhist p).symm.trans hp)

theorem LastCalls.enterTrap (hl : LastCalls s) (r : ℕ) (num : ℤ) (args : List ℤ) :
    LastCalls (s.enterTrap r num args) := by
  intro p num' hp
  by_cases hpr : p = r
  · subst hpr
    have hlast : lastCall p (s.enterTrap p num args).history = some num := by
      simp [lastCall,Kernel.enterTrap,record,Event.trapOf]
    rw [syscallNum_enterTrap]
    exact Option.some.inj (hlast.symm.trans hp)
  · have hlast : lastCall p (s.enterTrap r num args).history = lastCall p s.history := by
      simp [lastCall,Kernel.enterTrap,saveContext,record,Event.trapOf,Ne.symm hpr]
    have hnum : (s.enterTrap r num args).syscallNum p = s.syscallNum p :=
      Function.update_of_ne hpr _ _
    rw [hnum]
    exact hl p num' (hlast.symm.trans hp)

theorem Effect.lastCalls (he : Effect s r c t) (hl : LastCalls s) : LastCalls t := by
  obtain ⟨es,hes,hneutral⟩ := he.history
  have hnum : t.syscallNum = s.syscallNum := by
    funext q
    exact (he.bystander q).syscallNum
  apply hl.mono hnum
  intro p
  rw [hes]
  exact lastCall_append es (fun e he' => (hneutral e he').2.1 p)

theorem Moves.lastCalls (hm : Moves s a t) (hl : LastCalls s) : LastCalls t := by
  cases hm with
  | tick hr hdown hs hsw =>
    obtain ⟨hhist,hnum,_⟩ := hsw.frame
    obtain ⟨hhist',hnum',_⟩ := hs.frame
    exact hl.mono (hnum.trans hnum') (fun p => congrArg (lastCall p) (hhist.trans hhist'))
  | refused => exact hl.mono rfl (fun p => lastCall_append [_] (by simp [Event.trapOf]))
  | missing hr hdown hcpu hnum hc hsw =>
    obtain ⟨hhist,hnum,_⟩ := hsw.frame
    exact (hl.enterTrap _ _ _).mono hnum (fun p => congrArg (lastCall p) hhist)
  | handled hr hdown hcpu hnum hc he hsw =>
    obtain ⟨hhist,hnum,_⟩ := hsw.frame
    exact (he.lastCalls (hl.enterTrap _ _ _)).mono hnum (fun p => congrArg (lastCall p) hhist)
  | ret => exact hl.mono rfl (fun p => lastCall_append [_] (by simp [Event.trapOf]))
  | store => exact hl
  | resumeMain hr hdown hb hsw =>
    obtain ⟨hhist,hnum,_⟩ := hsw.frame
    exact hl.mono hnum (fun p => congrArg (lastCall p) hhist)

/-- Where the pending results are true, a step returns a true report. -/
theorem Moves.truthful (hm : Moves s a t) (hon : Honest s) (hl : LastCalls s)
    (htrue : Truthful s.history) : Truthful t.history := by
  cases hm with
  | tick hr hdown hs hsw =>
    rw [hsw.frame.1,hs.frame.1]
    exact htrue
  | refused => exact truthful_append [_] htrue (by simp)
  | missing hr hdown hcpu hnum hc hsw =>
    rw [hsw.frame.1]
    exact truthful_append [_] htrue (by simp)
  | @handled r num args c v t hr hdown hcpu hnum hc he hsw =>
    obtain ⟨es,hes,hneutral⟩ := he.history
    rw [hsw.frame.1,hes]
    refine truthful_append es ?_ (fun e he' => (hneutral e he').2.2)
    exact truthful_append [.trapped r num] htrue (by simp)
  | @ret r hr hcpu =>
    refine truthful_cons htrue ?_
    intro p v num hev hlast hsor
    cases hev
    have hat : s.AtSyscall r := by
      unfold AtSyscall
      rwa [if_pos hr]
    have hnum := hl r num hlast
    subst hnum
    exact hon r hat hsor
  | store => exact htrue
  | resumeMain hr hdown hb hsw =>
    rw [hsw.frame.1]
    exact htrue

theorem disastrOSStart_honest {function args : ℤ} {logFile : Bool} {chars : ℤ → UInt8}
    {ints : ℤ → ℤ} (hok : disastrOSStart function args logFile chars ints = .ok s) :
    Honest s ∧ LastCalls s ∧ Truthful s.history := by
  obtain ⟨q,pool,_,hsw⟩ := startFirstProcess_ok hok
  obtain ⟨hhist,hnum,hret⟩ := hsw.frame
  have hnil : s.history = [] := hhist
  refine ⟨?_,?_,?_⟩
  · intro p hat
    have hsv := (hsw.atSyscall (fun hv => absurd hv (by simp [withInit,withPcb,cold]))).mp hat
    unfold Saved at hsv
    by_cases hp : p = q
    · subst hp
      simp [withInit] at hsv
    · have hother : ((cold function args logFile chars ints).withInit q pool).cpuState p = none :=
        Function.update_of_ne hp _ _
      rw [hother] at hsv
      cases hsv
  · intro p num hp
    rw [hnil] at hp
    cases hp
  · intro later earlier p v num hsplit
    rw [hnil] at hsplit
    simp at hsplit

end Kernel

/-- Along a run whose blocking calls do no harm, every send and every receive returns
a true report, and the first step that does harm is the first that leaves a process
about to return a false one. -/
theorem results_truthful {s : Kernel} (hs : ReachableUnder Kernel.KeepsResults s) :
    Truthful s.history ∧ s.Honest ∧
      ∀ a t, s.step a = .ok t → (t.Honest ↔ s.KeepsResults a) := by
  have hrun : s.Honest ∧ s.LastCalls ∧ Truthful s.history := by
    refine Transitions.Reach.invariant_within
      (I := fun s => s.Honest ∧ s.LastCalls ∧ Truthful s.history)
      (fun _ => Reachable.inv) ?_ ?_ hs
    · intro s hs
      obtain ⟨function,args,logFile,chars,ints,hok⟩ := hs
      exact Kernel.disastrOSStart_honest hok
    · intro s a t h hrun hkeeps hstep
      have hm := Kernel.step_moves h hstep
      obtain ⟨hon,hl,htrue⟩ := hrun
      exact ⟨(Kernel.honest_iff h hon hm).mpr hkeeps,hm.lastCalls hl,hm.truthful hon hl htrue⟩
  obtain ⟨hon,_,htrue⟩ := hrun
  refine ⟨htrue,hon,?_⟩
  intro a t hstep
  exact Kernel.honest_iff hs.reachable.inv hon (Kernel.step_moves hs.reachable.inv hstep)

/-- No call blocks on a queue. -/
def neverBlocks (s : Kernel) : Action → Bool
  | .call num args => s.running.all (fun r => (s.callBlocks r num args).isNone)
  | _ => true

theorem keepsResults_of_neverBlocks {s : Kernel} {a : Action} (ha : neverBlocks s a = true) :
    s.KeepsResults a := by
  cases a with
  | call num args =>
    intro r next code hr _ hcode
    simp [neverBlocks,hr,hcode] at ha
  | _ => trivial

/-- A message is sent and received. -/
theorem results_truthful_run : ∃ s : Kernel, transfers 0 dsosCallMqReceive s.history = 1 ∧
    s.syscallRetvalue 0 = 0 ∧ Truthful s.history ∧ s.Honest ∧
      ∀ a t, s.step a = .ok t → (t.Honest ↔ s.KeepsResults a) := by
  obtain ⟨s,hs,hcheck⟩ := exists_reachable Kernel.KeepsResults neverBlocks false (fun _ => 0)
      [.call 10 [0,0,20,1,1],.ret,.call 13 [0,100,5],.ret,.call 14 [0,200,20],.ret]
      (fun s => transfers 0 dsosCallMqReceive s.history = 1 && s.syscallRetvalue 0 = 0)
    (by decide) (fun _ _ ha => keepsResults_of_neverBlocks ha)
  simp only [Bool.and_eq_true,decide_eq_true_eq] at hcheck
  exact ⟨s,hcheck.1,hcheck.2,results_truthful hs⟩

/-- A send that slept on the full queue returns the zero of the send before it. -/
theorem blocked_send_returns_zero : ¬ ∀ s : Kernel, Reachable s → Truthful s.history := by
  intro hclaim
  obtain ⟨s,hs,hcheck⟩ := exists_run Transitions.unguarded
    ([.call 5 [1,0],.ret,.call 10 [0,0,20,1,1],.ret,.call 13 [0,100,5],.ret,
      .call 13 [0,100,5]] ++ List.replicate 25 .tick ++ [.ret])
    (fun s => match s.history with
      | .returned p v :: h => p = 0 && v = 0 && lastCall 0 h = some dsosCallMqSend &&
          transfers 0 dsosCallMqSend h = 0
      | _ => false)
    (by decide)
  split at hcheck
  · rename_i p v h hhist
    simp only [Bool.and_eq_true,decide_eq_true_eq] at hcheck
    obtain ⟨⟨⟨rfl,rfl⟩,hlast⟩,hnone⟩ := hcheck
    have hrep := hclaim s hs [] h 0 0 _ hhist hlast (Or.inl rfl)
    have hone := hrep.1.mp rfl
    omega
  · cases hcheck

end DisastrOS
