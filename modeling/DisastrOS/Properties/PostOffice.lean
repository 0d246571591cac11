import DisastrOS.Properties.Handles
import DisastrOS.Registry.Deliveries

/-! # The message queues are a post office

What processes get to see of the message queues is what an office of bounded boxes answers, from
opening a box to collecting a letter. Who finds a box full or empty goes to sleep.
-/
namespace DisastrOS
open Handles Postal Transitions

namespace Kernel

variable {s t u v : Kernel} {r q : ℕ} {num : ℤ} {args : List ℤ} {es : List (Kernel × Action × Kernel)}

/-- What a run is to the office. -/
def mailDealings (es : List (Kernel × Action × Kernel)) : List MailDealing :=
  es.filterMap fun e => mailDealing e.1 e.2.1 e.2.2

/-- The call comes back to `r` with this value, and then the office is this one. -/
def Answered (s : Kernel) (r : ℕ) (a : Action) (x : ℤ) (O : MailOffice) : Prop :=
  ∃ t, s.step a = .ok t ∧ t.running = some r ∧ t.syscallRetvalue r = x ∧ t.office = O

/-- The call puts `r` to sleep and the first ready process runs, if there is one with a context. The
office stays as it is. -/
def PutToSleep (s : Kernel) (r : ℕ) (a : Action) : Prop :=
  match s.readyList with
  | [] => s.step a = .error .nullRunning
  | next :: _ => s.cpuState next = none ∧ s.step a = .error .badContext ∨
      ∃ t, s.step a = .ok t ∧ t.running = some next ∧ r ∈ t.waitingList ∧ t.office = s.office

/-- A send ends as the posting of a letter does. -/
def SendAnswered (s : Kernel) (r : ℕ) (a : Action) : Ending Unit × MailOffice → Prop
  | (.denied d,_) => s.Answered r a (mailCodes.denied d) s.office
  | (.waits,_) => s.PutToSleep r a
  | (.fails,_) => ∃ f, (f = .nullPointer ∨ f = .overrun) ∧ s.step a = .error f
  | (.done _,O) => s.Answered r a 0 O

/-- A receive ends as the collecting of a letter does, which is in the buffer at this address then. -/
def ReceiveAnswered (s : Kernel) (r : ℕ) (a : Action) (msgPtr : ℤ) :
    Ending (List UInt8) × MailOffice → Prop
  | (.denied d,_) => s.Answered r a (mailCodes.denied d) s.office
  | (.waits,_) => s.PutToSleep r a
  | (.fails,_) => False
  | (.done text,O) =>
    if msgPtr = 0 then s.step a = .error .nullPointer
    else s.Answered r a 0 O ∧
      ∀ t, s.step a = .ok t → readString t.chars msgPtr maxMessageLenght = some text

theorem Reachable.legible (hs : Reachable s) : s.Legible := by
  refine Reachable.induction (P := Legible) ?_ (fun s a t h hl hstep => step_legible h hstep hl) hs
  intro function args logFile chars ints s hok
  obtain ⟨p,pool,_,hsw⟩ := startFirstProcess_ok hok
  have hnil : s.mail.queues = [] := congrArg Mail.queues hsw.mail
  intro q hq
  rw [hnil] at hq
  cases hq

/-- Behind a run the queues are what the office is behind the dealings of the run. -/
theorem trace_deals (hs : Reachable s) (htr : Trace system s es t) :
    s.office.replay mailBounds mailCodes (mailDealings es) = some t.office := by
  induction htr with
  | nil s => rfl
  | @cons s u t a es hstep _ ih =>
    have hdeals : Deals s (s.mailDealing a u) u :=
      step_deals (Reachable.inv hs) (hs.sound .messagequeues) (Reachable.legible hs) hstep
    have hrest := ih (.step hs trivial hstep)
    have hdealings : mailDealings ((s,a,u) :: es) =
        (s.mailDealing a u).toList ++ mailDealings es := by
      unfold mailDealings
      rw [List.filterMap_cons]
      cases s.mailDealing a u <;> rfl
    unfold Deals Office.replay at hdeals
    unfold Office.replay at hrest ⊢
    rw [hdealings,List.foldlM_append,hdeals]
    exact hrest

theorem office_start {function args : ℤ} {logFile : Bool} {chars : ℤ → UInt8} {ints : ℤ → ℤ}
    (hok : disastrOSStart function args logFile chars ints = .ok s) : s.office = Office.empty := by
  have hregistry : s.messagequeues.registry = Registry.empty := registry_start hok .messagequeues
  obtain ⟨p,pool,_,hsw⟩ := startFirstProcess_ok hok
  have hqueues : s.messagequeues = DescriptorLayer.initial.initProcess p :=
    congrFun hsw.layer .messagequeues
  have hboxes : s.messagequeues.boxes s.mail = fun _ => none := by
    rw [hqueues]
    rfl
  have hblocks : s.messageAllocator = Pool.full maxNumMessages maxNumMessages_pos := by
    cases hsw <;> rfl
  unfold office Office.empty
  rw [hregistry,hboxes,hblocks,Pool.card_used_full]

theorem Calling.answered (h : s.Calling r) {c : Syscall} (hc : syscallVector num.toNat = some c)
    (hh : handler c (s.enterTrap r num args) r = .ok v) (hrun : v.running = s.running)
    (hdown : v.shutdownNow = s.shutdownNow)
    (hcontext : v.cpuState = (s.enterTrap r num args).cpuState) :
    s.Answered r (.call num args) (v.syscallRetvalue r) v.office :=
  ⟨_,step_resumes h.running h.down h.cpu hc hh (hrun.trans h.running) (hdown.trans h.down)
    (congrFun hcontext r),hrun.trans h.running,rfl,rfl⟩

theorem Calling.putToSleep (h : s.Calling r) {c : Syscall} {code : ℤ}
    (hc : syscallVector num.toNat = some c) (hu : Inv u) (hru : u.running = some r)
    (hnum : SleepsOnTimer (u.syscallNum r)) (hready : u.readyList = s.readyList)
    (hdown : u.shutdownNow = s.shutdownNow) (hO : u.office = s.office)
    (hcontext : ∀ p, p ≠ r → u.cpuState p = s.cpuState p)
    (hh : handler c (s.enterTrap r num args) r = u.blockOnQueue r code) :
    s.PutToSleep r (.call num args) := by
  have hstep : s.step (.call num args) = _ := step_call h.running h.down h.cpu hc
  rw [hh] at hstep
  unfold PutToSleep
  rw [← hready]
  obtain ⟨w,hslept,_,⟨hnil,hbl⟩ | ⟨next,rest,hcons,hbl⟩⟩ := blockOnQueue_spec hu hru hnum code
  · rw [hnil]
    rw [hbl,error_bind] at hstep
    exact hstep
  · rw [hcons]
    rw [hbl,ok_bind] at hstep
    have hne : next ≠ r := by
      rintro rfl
      refine hu.placement.runningNotReady next hru ?_
      rw [hcons]
      exact List.mem_cons_self
    obtain ⟨⟩ := hslept
    have hw : ∀ p, p ≠ r → u.cpuState p = s.cpuState p := hcontext
    have hdown' : u.shutdownNow = false := hdown.trans h.down
    cases hcpu : s.cpuState next with
    | none =>
      refine Or.inl ⟨hcpu,hstep.trans ?_⟩
      have hcpu' : u.cpuState next = none := (hw next hne).trans hcpu
      simp only [leaveTrap,setcontext,dispatched,record,setRetvalue,hdown',hcpu',
        Bool.false_eq_true,if_false]
    | some d =>
      have hcpu' : u.cpuState next = some d := (hw next hne).trans hcpu
      refine Or.inr ⟨_,hstep.trans (leaveTrap_resumes hdown' rfl hcpu'),rfl,?_,?_⟩
      · exact mem_listAppend.mpr (Or.inr rfl)
      · exact hO

theorem Calling.send_answered (h : s.Calling r) (args : List ℤ) :
    s.SendAnswered r (.call dsosCallMqSend args) (s.office.post mailBounds.letters r
      (args.getD 0 0) (args.getD 2 0) (s.copyIn (args.getD 1 0)).toOption) := by
  have h' := (Reachable.inv h.reachable).enterTrap h.running dsosCallMqSend args
  have hc : syscallVector dsosCallMqSend.toNat = some .mqSend := rfl
  have harg : ∀ i, i < 3 → (s.enterTrap r dsosCallMqSend args).syscallArgs r i = args.getD i 0 :=
    fun i hi => syscallArgs_enterTrap hi
  have hposted := internalMqSend_posted h' (h.reachable.sound .messagequeues) r
  rw [harg 0 (by decide),harg 1 (by decide),harg 2 (by decide)] at hposted
  change (s.enterTrap r dsosCallMqSend args).Posted r (s.office.post mailBounds.letters r
    (args.getD 0 0) (args.getD 2 0) (s.copyIn (args.getD 1 0)).toOption) at hposted
  generalize s.office.post mailBounds.letters r (args.getD 0 0) (args.getD 2 0)
    (s.copyIn (args.getD 1 0)).toOption = res at hposted ⊢
  cases hposted with
  | @denied d hok =>
    have hanswered := h.answered hc hok rfl rfl rfl
    rw [show Kernel.syscallRetvalue _ r = mailCodes.denied d from Function.update_self _ _ _]
      at hanswered
    exact hanswered
  | waits hok =>
    have hnum : SleepsOnTimer ((s.enterTrap r dsosCallMqSend args).syscallNum r) :=
      Or.inr (Or.inl (syscallNum_enterTrap _ _ _ _))
    exact h.putToSleep hc h' h.running hnum rfl rfl rfl (fun p hp => Function.update_of_ne hp _ _) hok
  | @fails f hf herr =>
    refine ⟨f,hf,?_⟩
    rw [step_call h.running h.down h.cpu hc]
    exact congrArg (· >>= leaveTrap) herr
  | done hok hO =>
    have hanswered := h.answered hc hok rfl rfl rfl
    rw [show Kernel.syscallRetvalue _ r = 0 from Function.update_self _ _ _,hO] at hanswered
    exact hanswered

theorem Calling.receive_answered (h : s.Calling r) (args : List ℤ) :
    s.ReceiveAnswered r (.call dsosCallMqReceive args) (args.getD 1 0)
      (s.office.collect r (args.getD 0 0)) := by
  have hs := Reachable.inv h.reachable
  have h' := hs.enterTrap h.running dsosCallMqReceive args
  have hc : syscallVector dsosCallMqReceive.toNat = some .mqReceive := rfl
  have harg : ∀ i, i < 3 →
      (s.enterTrap r dsosCallMqReceive args).syscallArgs r i = args.getD i 0 :=
    fun i hi => syscallArgs_enterTrap hi
  have hcollected := internalMqReceive_collected h' (h.reachable.sound .messagequeues) r
  rw [harg 0 (by decide)] at hcollected
  change (s.enterTrap r dsosCallMqReceive args).Collected r
    (s.office.collect r (args.getD 0 0)) at hcollected
  generalize s.office.collect r (args.getD 0 0) = res at hcollected ⊢
  cases hcollected with
  | @denied d hok =>
    have hanswered := h.answered hc hok rfl rfl rfl
    rw [show Kernel.syscallRetvalue _ r = mailCodes.denied d from Function.update_self _ _ _]
      at hanswered
    exact hanswered
  | @waits q hq hok =>
    have hnum : SleepsOnTimer ((s.enterTrap r dsosCallMqReceive args).syscallNum r) :=
      Or.inr (Or.inr (syscallNum_enterTrap _ _ _ _))
    exact h.putToSleep hc (h'.sizeChecked r q) h.running hnum rfl rfl rfl
      (fun p hp => Function.update_of_ne hp _ _) hok
  | @done q m rest O hq hcons hok hO =>
    rw [harg 1 (by decide)] at hok hO
    unfold ReceiveAnswered
    dsimp only
    by_cases hptr : args.getD 1 0 = 0
    · rw [if_pos hptr] at hok ⊢
      rw [step_call h.running h.down h.cpu hc]
      exact congrArg (· >>= leaveTrap) hok
    rw [if_neg hptr] at hok ⊢
    have hanswered := h.answered hc hok rfl rfl rfl
    rw [show Kernel.syscallRetvalue _ r = 0 from Function.update_self _ _ _,hO] at hanswered
    refine ⟨hanswered,?_⟩
    intro t hstep
    have hcons' : s.messages q = m :: rest := hcons
    have hm : m ∈ s.messages q := by
      rw [hcons']
      exact List.mem_cons_self
    have hfits : Fits (s.message m) := Reachable.legible h.reachable q
      (hs.queueOf_enterTrap h.running hq) _ (List.mem_map_of_mem hm)
    have hresumes := step_resumes h.running h.down h.cpu hc hok h.running h.down rfl
    cases hresumes.symm.trans hstep
    exact readString_writeString hfits.1 hfits.2

end Kernel

open Kernel

/-- From the start on, whatever processes do: every message call ends as the office says that was
empty at first and went through the calls in their order. Values, waits and strings in the buffers
of receivers are all the office's; and the queues are what the office is then. -/
theorem queues_are_office {function args : ℤ} {logFile : Bool} {chars : ℤ → UInt8} {ints : ℤ → ℤ}
    {s t : Kernel} {es : List (Kernel × Action × Kernel)}
    (hok : disastrOSStart function args logFile chars ints = .ok s) (htr : Trace system s es t) :
    Office.empty.replay mailBounds mailCodes (mailDealings es) = some t.office := by
  have hs : Reachable s := .initial ⟨function,args,logFile,chars,ints,hok⟩
  rw [← office_start hok]
  exact trace_deals hs htr

/-- A queue for one message: the second send waits, and a child receives what the first one sent. -/
theorem queues_are_office_run : ∃ (s t : Kernel) (es : List (Kernel × Action × Kernel)),
    Trace system s es t ∧
    mailDealings es = [.request (.opened 0 7 0 true false 0) 16 1,.request (.entered 1) 0 0,
      .posted 0 0 2 (some [65]) (some 0),.posted 0 0 2 (some [65]) none,
      .request (.opened 1 7 0 false false 0) 16 2,.collected 1 0 (some [65]) (some 0)] ∧
    Office.empty.replay mailBounds mailCodes (mailDealings es) = some t.office := by
  obtain ⟨s,t,es,hok,htr,hdealings⟩ := exists_recorded
    [.call 10 [7,0,16,1,dsosCreate],.ret,.call 5 [1,0],.ret,.store 100 65,.call 13 [0,100,2],.ret,
      .call 13 [0,100,2],.call 10 [7,0,16,2,0],.ret,.call 14 [0,200,16]]
    (fun es => mailDealings es = [.request (.opened 0 7 0 true false 0) 16 1,
      .request (.entered 1) 0 0,.posted 0 0 2 (some [65]) (some 0),.posted 0 0 2 (some [65]) none,
      .request (.opened 1 7 0 false false 0) 16 2,.collected 1 0 (some [65]) (some 0)]) (by decide)
  exact ⟨s,t,es,htr,of_decide_eq_true hdealings,queues_are_office hok htr⟩

/-- A send and a receive of any process end as the office says. They fail for want of a block, for
a bad pointer, and if the office makes them wait where no other process can run. -/
theorem transfers_answered {s : Kernel} {r : ℕ} (h : s.Calling r) (args : List ℤ) :
    s.SendAnswered r (.call dsosCallMqSend args) (s.office.post mailBounds.letters r
      (args.getD 0 0) (args.getD 2 0) (s.copyIn (args.getD 1 0)).toOption) ∧
    s.ReceiveAnswered r (.call dsosCallMqReceive args) (args.getD 1 0)
      (s.office.collect r (args.getD 0 0)) :=
  ⟨h.send_answered args,h.receive_answered args⟩

/-- The only process has filled its queue: another send would leave nobody to run, and a receive
puts the message into the buffer. -/
theorem transfers_answered_run : ∃ (s : Kernel) (O : MailOffice),
    s.step (.call dsosCallMqSend [0,100,2]) = .error .nullRunning ∧
      s.Answered 0 (.call dsosCallMqReceive [0,200,16]) 0 O ∧
      ∀ t, s.step (.call dsosCallMqReceive [0,200,16]) = .ok t →
        readString t.chars 200 maxMessageLenght = some [65] := by
  obtain ⟨s,hs,hcheck⟩ := exists_run Transitions.unguarded
    [.call 10 [7,0,16,1,dsosCreate],.ret,.store 100 65,.call 13 [0,100,2],.ret]
    (fun s => s.running = some 0 && (s.shutdownNow = false && (s.cpu ≠ .syscall &&
      (s.readyList = [] &&
        ((s.office.post mailBounds.letters 0 0 2 (s.copyIn 100).toOption).1.value mailCodes =
            some none &&
          ((s.office.collect 0 0).1.value mailCodes = some (some 0) &&
            (s.office.collect 0 0).1.Hands (some [65]))))))) (by decide)
  simp only [Bool.and_eq_true,decide_eq_true_eq] at hcheck
  obtain ⟨hr,hdown,hcpu,hready,hpost,hcollect,hletter⟩ := hcheck
  have h : s.Calling 0 := ⟨hs,hr,hdown,hcpu⟩
  have hsend : s.SendAnswered 0 _ (s.office.post mailBounds.letters 0 0 2 (s.copyIn 100).toOption) :=
    (transfers_answered h [0,100,2]).1
  have hreceive : s.ReceiveAnswered 0 _ 200 (s.office.collect 0 0) :=
    (transfers_answered h [0,200,16]).2
  generalize s.office.post mailBounds.letters 0 0 2 (s.copyIn 100).toOption = res at hsend hpost
  generalize s.office.collect 0 0 = res' at hreceive hcollect hletter
  obtain ⟨e,O⟩ := res
  obtain ⟨e',O'⟩ := res'
  have hwaits : s.step (.call dsosCallMqSend [0,100,2]) = .error .nullRunning := by
    cases e with
    | waits =>
      unfold SendAnswered PutToSleep at hsend
      dsimp only at hsend
      rw [hready] at hsend
      exact hsend
    | done => cases hpost
    | fails => cases hpost
    | denied d => cases hpost
  cases e' with
  | done text =>
    obtain rfl : text = [65] := (Option.some.inj (of_decide_eq_true hletter)).symm
    exact ⟨s,O',hwaits,hreceive.1,hreceive.2⟩
  | waits => cases hcollect
  | fails => cases hcollect
  | denied d => cases d <;> cases hcollect

end DisastrOS
