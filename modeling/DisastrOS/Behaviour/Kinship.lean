import DisastrOS.Behaviour.History

/-! # What a step does to the families

The part of the state that creation, wait and exit work on, and the few ways in
which a step can change it. All results about parents and children start here.
-/
namespace DisastrOS

/-- The calls of `disastrOS_wait` and `disastrOS_exit`, and a restart. -/
def Action.ofKin : Action → Bool
  | .call num _ => num = dsosCallWait || num = dsosCallExit
  | .resumeMain => true
  | _ => false

/-- The records of exits and of completed waits. -/
def Event.ofKin : Event → Bool
  | .exited _ _ _ | .reaped _ _ _ _ => true
  | _ => false

/-- The part of the state that tells who exists, who is whose child and who has
exited with which value. -/
structure Kin where
  pcbs : Pool maxNumProcesses
  pid : ℕ → ℤ
  lastPid : ℤ
  returnValue : ℕ → ℤ
  children : ℕ → List ℕ
  childPcb : ℕ → ℕ
  parent : ℕ → Option ℕ
  zombies : List ℕ
  initPcb : Option ℕ

namespace Kin

/-- `r` gets the new child `p`, with the next identifier, through the entry `x`. -/
def create (k : Kin) (r p : ℕ) (pool : Pool maxNumProcesses) (x : ℕ) : Kin :=
  { k with
    pcbs := pool
    pid := Function.update k.pid p k.lastPid
    lastPid := k.lastPid + 1
    returnValue := Function.update k.returnValue p 0
    children := Function.update (Function.update k.children p []) r
      (listAppend (Function.update k.children p [] r) x)
    childPcb := Function.update k.childPcb x p
    parent := Function.update (Function.update k.parent p none) p (some r) }

/-- A new init without a parent. -/
def restart (k : Kin) (p : ℕ) (pool : Pool maxNumProcesses) : Kin :=
  { k with
    pcbs := pool
    pid := Function.update k.pid p k.lastPid
    lastPid := k.lastPid + 1
    returnValue := Function.update k.returnValue p 0
    children := Function.update k.children p []
    parent := Function.update k.parent p none
    initPcb := some p }

/-- `r` hands its children to `i` and becomes a zombie with a return value. -/
def exit (k : Kin) (i r : ℕ) (value : ℤ) : Kin :=
  { k with
    returnValue := Function.update k.returnValue r value
    children := handedOver k.children i r
    zombies := listAppend k.zombies r }

/-- The entry `x` leaves the children list of `q`, and the zombie `d` it names is freed. -/
def release (k : Kin) (q x d : ℕ) : Kin :=
  { k with
    pcbs := k.pcbs.releaseBlock d
    children := Function.update k.children q ((k.children q).erase x)
    zombies := k.zombies.erase d }

end Kin

namespace Kernel

def kin (s : Kernel) : Kin :=
  ⟨s.pcbAllocator,s.pid,s.lastPid,s.returnValue,s.children,s.childPcb,s.parent,s.zombieList,
    s.initPcb⟩

/-- The process is blocked in a wait. -/
def InWait (s : Kernel) (q : ℕ) : Prop := q ∈ s.waitingList ∧ s.syscallNum q = dsosCallWait

/-- The process `q` is blocked in a wait that a child with this identifier satisfies. -/
def WaitsFor (s : Kernel) (q : ℕ) (pid : ℤ) : Prop :=
  s.InWait q ∧ (s.syscallArgs q 0 = 0 ∨ s.syscallArgs q 0 = pid)

instance (s : Kernel) (q : ℕ) (pid : ℤ) : Decidable (s.WaitsFor q pid) :=
  inferInstanceAs (Decidable ((q ∈ s.waitingList ∧ s.syscallNum q = dsosCallWait) ∧ (_ ∨ _)))

/-- The same processes are blocked in a wait, each in the same one, apart from `o`. -/
structure SameWaits (s t : Kernel) (o : Option ℕ) : Prop where
  inWait : ∀ q, o ≠ some q → (t.InWait q ↔ s.InWait q)
  args : ∀ q, s.InWait q → t.syscallArgs q = s.syscallArgs q

/-- The process `w` runs and has got this identifier and value from its wait. -/
structure Told (t : Kernel) (w : ℕ) (pid v : ℤ) : Prop where
  running : t.running = some w
  retvalue : t.syscallRetvalue w = pid
  result : t.syscallArgs w 1 ≠ 0 → t.ints (t.syscallArgs w 1) = v

/-- What a step does to the families. -/
inductive KinMove (s : Kernel) : Action → Kernel → Prop
  | other {a : Action} {t : Kernel} (ha : a.ofKin = false) (hk : t.kin = s.kin)
      (hw : SameWaits s t none) (hn : Quiet Event.ofKin s t) : KinMove s a t
  | create {num : ℤ} {args : List ℤ} {r p x : ℕ} {pool entries : Pool maxNumProcesses} {t : Kernel}
      (ha : (Action.call num args).ofKin = false) (hr : s.running = some r)
      (hb : s.pcbAllocator.getBlock = some (p,pool))
      (hx : s.pcbPtrAllocator.getBlock = some (x,entries))
      (hk : t.kin = s.kin.create r p pool x) (hw : SameWaits s t none) (hn : Quiet Event.ofKin s t) :
      KinMove s (.call num args) t
  | noChild {args : List ℤ} {r : ℕ} {t : Kernel} (hr : s.running = some r)
      (hnil : s.children r = []) (hk : t.kin = s.kin) (hw : SameWaits s t none)
      (hn : Quiet Event.ofKin s t) : KinMove s (.call dsosCallWait args) t
  | reap {args : List ℤ} {r x : ℕ} {t : Kernel} (hr : s.running = some r)
      (hx : (s.enterTrap r dsosCallWait args).awaitedEntry r = some x)
      (hz : s.status (s.childPcb x) = .zombie)
      (hk : t.kin = s.kin.release r x (s.childPcb x)) (hw : SameWaits s t none)
      (hargs : t.syscallArgs r = (s.enterTrap r dsosCallWait args).syscallArgs r)
      (ht : t.Told r (s.pid (s.childPcb x)) (s.returnValue (s.childPcb x)))
      (hh : t.history = .reaped r (s.childPcb x) (s.pid (s.childPcb x))
        (s.returnValue (s.childPcb x)) :: .trapped r dsosCallWait :: s.history) :
      KinMove s (.call dsosCallWait args) t
  | block {args : List ℤ} {r x : ℕ} {t : Kernel} (hr : s.running = some r)
      (hx : (s.enterTrap r dsosCallWait args).awaitedEntry r = some x)
      (hz : s.status (s.childPcb x) ≠ .zombie) (hk : t.kin = s.kin)
      (hw : SameWaits s t (some r)) (hin : t.InWait r)
      (hargs : t.syscallArgs r = (s.enterTrap r dsosCallWait args).syscallArgs r)
      (hn : Quiet Event.ofKin s t) : KinMove s (.call dsosCallWait args) t
  | collect {args : List ℤ} {r i p x : ℕ} {v : ℤ} {t : Kernel} (hr : s.running = some r)
      (hi : s.initPcb = some i) (hir : i ≠ r ∨ s.children r = []) (hp : s.parent r = some p)
      (hv : v = (s.enterTrap r dsosCallExit args).syscallArgs r 0) (hin : s.InWait p)
      (hsat : s.syscallArgs p 0 = 0 ∨ s.syscallArgs p 0 = s.pid r)
      (hx : x ∈ handedOver s.children i r p) (hxr : s.childPcb x = r)
      (hk : t.kin = (s.kin.exit i r v).release p x r) (hw : SameWaits s t (some p))
      (hout : ¬ t.InWait p) (ht : t.Told p (s.pid r) v)
      (hh : t.history = .reaped p r (s.pid r) v :: .exited r (s.pid r) v ::
        .trapped r dsosCallExit :: s.history) : KinMove s (.call dsosCallExit args) t
  | replace {args : List ℤ} {r i p : ℕ} {v : ℤ} {t : Kernel} (hr : s.running = some r)
      (hi : s.initPcb = some i) (hir : i ≠ r ∨ s.children r = []) (hp : s.parent r = some p)
      (hv : v = (s.enterTrap r dsosCallExit args).syscallArgs r 0)
      (hsat : ¬ (s.InWait p ∧ (s.syscallArgs p 0 = 0 ∨ s.syscallArgs p 0 = s.pid r)))
      (hk : t.kin = s.kin.exit i r v) (hw : SameWaits s t none)
      (hh : t.history = .exited r (s.pid r) v :: .trapped r dsosCallExit :: s.history) :
      KinMove s (.call dsosCallExit args) t
  | restart {p : ℕ} {pool : Pool maxNumProcesses} {t : Kernel} (hr : s.running = none)
      (hb : s.pcbAllocator.getBlock = some (p,pool)) (hk : t.kin = s.kin.restart p pool)
      (hw : SameWaits s t none) (hn : Quiet Event.ofKin s t) : KinMove s .resumeMain t

variable {s t u v : Kernel} {r p q : ℕ} {c : Syscall} {a : Action} {num : ℤ} {args : List ℤ}
variable {o : Option ℕ}

theorem kin_enterTrap (s : Kernel) (r : ℕ) (num : ℤ) (args : List ℤ) :
    (s.enterTrap r num args).kin = s.kin := rfl

theorem kin_withChild (s : Kernel) (r p : ℕ) (pool : Pool maxNumProcesses) (x : ℕ)
    (entries : Pool maxNumProcesses) :
    (s.withChild r p pool x entries).kin = s.kin.create r p pool x := rfl

theorem kin_withInit (s : Kernel) (p : ℕ) (pool : Pool maxNumProcesses) :
    (s.withInit p pool).kin = s.kin.restart p pool := rfl

theorem kin_reaped (s : Kernel) (r x : ℕ) :
    (s.reaped r x).kin = s.kin.release r x (s.childPcb x) := rfl

theorem kin_exiting (s : Kernel) (i r p : ℕ) (value : ℤ) :
    (s.exiting i r p value).kin = s.kin.exit i r value := rfl

theorem kin_collected (s : Kernel) (r p x : ℕ) (L M : DescriptorLayer) :
    (s.collected r p x L M).kin = s.kin.release p x r := rfl

theorem kin_replaced (s : Kernel) (next : ℕ) (rest : List ℕ) :
    (s.replaced next rest).kin = s.kin := rfl

theorem kin_blocked (s : Kernel) (r : ℕ) : (s.blocked r).kin = s.kin := rfl

theorem kin_dispatched (s : Kernel) (next : ℕ) (rest : List ℕ) :
    (s.dispatched next rest).kin = s.kin := rfl

theorem SameWaits.refl (s : Kernel) : SameWaits s s none := ⟨fun _ _ => Iff.rfl,fun _ _ => rfl⟩

/-- Waits that a process blocked in `s` does not see change are the same waits. -/
theorem SameWaits.trans (hst : SameWaits s t none) (htu : SameWaits t u o) : SameWaits s u o where
  inWait q hq := (htu.inWait q hq).trans (hst.inWait q nofun)
  args q hq := (htu.args q ((hst.inWait q nofun).mpr hq)).trans (hst.args q hq)

theorem SameWaits.of_trans (hst : SameWaits s t o) (htu : SameWaits t u none)
    (ho : ∀ q, o = some q → s.InWait q → u.syscallArgs q = s.syscallArgs q) : SameWaits s u o where
  inWait q hq := (htu.inWait q nofun).trans (hst.inWait q hq)
  args q hq := by
    by_cases hoq : o = some q
    · exact ho q hoq hq
    · exact (htu.args q ((hst.inWait q hoq).mpr hq)).trans (hst.args q hq)

theorem Switched.kin (hsw : Switched v t) : t.kin = v.kin := by
  cases hsw <;> rfl

theorem Switched.sameWaits (hsw : Switched v t) : SameWaits v t none := by
  cases hsw <;> exact { SameWaits.refl _ with }

theorem Switched.syscallArgs (hsw : Switched v t) : t.syscallArgs = v.syscallArgs := by
  cases hsw <;> rfl

theorem Switched.told {w : ℕ} {pid x : ℤ} (hsw : Switched v t) (ht : v.Told w pid x) :
    t.Told w pid x := by
  cases hsw <;> exact ⟨ht.running,ht.retvalue,ht.result⟩

theorem told_reaped (hr : s.running = some r) (x : ℕ) :
    (s.reaped r x).Told r (s.pid (s.childPcb x)) (s.returnValue (s.childPcb x)) := by
  refine ⟨hr,Function.update_self _ _ _,?_⟩
  intro hne
  have hints : (s.reaped r x).ints = Function.update s.ints (s.syscallArgs r 1)
      (s.returnValue (s.childPcb x)) := if_pos hne
  rw [hints]
  exact Function.update_self _ _ _

theorem told_collected {i x : ℕ} {value : ℤ} {L M : DescriptorLayer} :
    ((s.exiting i r p value).collected r p x L M).Told p (s.pid r) value := by
  refine ⟨rfl,Function.update_self _ _ _,?_⟩
  intro hne
  have hints : ((s.exiting i r p value).collected r p x L M).ints =
      Function.update s.ints (s.syscallArgs p 1) ((s.exiting i r p value).returnValue r) :=
    if_pos hne
  rw [hints]
  exact (Function.update_self _ _ _).trans (Function.update_self _ _ _)

theorem not_inWait_running (h : Inv s) (hr : s.running = some r) : ¬ s.InWait r :=
  fun hw => h.not_waiting_running hr hw.1

theorem sameWaits_enterTrap (h : Inv s) (hr : s.running = some r) (num : ℤ) (args : List ℤ) :
    SameWaits s (s.enterTrap r num args) none := by
  have hnot := not_inWait_running h hr
  have hnum : ∀ q, q ≠ r → (s.enterTrap r num args).syscallNum q = s.syscallNum q :=
    fun q hq => Function.update_of_ne hq _ _
  have hne : ∀ q, s.InWait q → q ≠ r := by
    rintro q hq rfl
    exact hnot hq
  constructor
  · intro q _
    constructor
    · intro hq
      have hqr : q ≠ r := by
        rintro rfl
        exact h.not_waiting_running hr hq.1
      exact ⟨hq.1,(hnum q hqr).symm.trans hq.2⟩
    · intro hq
      exact ⟨hq.1,(hnum q (hne q hq)).trans hq.2⟩
  · intro q hq
    exact Function.update_of_ne (hne q hq) _ _

theorem Woken.sameWaits (hw : Woken s t) : SameWaits s t none := by
  obtain ⟨hwaiting,hkept,_⟩ := hw
  refine ⟨?_,fun _ _ => rfl⟩
  intro q _
  exact ⟨fun hq => ⟨hwaiting q hq.1,hq.2⟩,fun hq => ⟨hkept q hq.1 hq.2,hq.2⟩⟩

theorem Woken.kin (hw : Woken s t) : t.kin = s.kin := by
  obtain ⟨⟩ := hw
  rfl

theorem Scheduled.kin (hs : Scheduled s r t) : t.kin = s.kin := by
  cases hs with
  | stay hw => exact hw.kin
  | rotate hw => exact hw.kin

theorem Scheduled.sameWaits (hs : Scheduled s r t) : SameWaits s t none := by
  cases hs with
  | stay hw => exact hw.sameWaits
  | rotate hw => exact hw.sameWaits.trans { SameWaits.refl _ with }

/-- A sleep on a timer is not a wait. -/
theorem Slept.sameWaits (hslept : Slept s r t) (hnum : SleepsOnTimer (s.syscallNum r)) :
    SameWaits s t none := by
  have hr : s.syscallNum r ≠ dsosCallWait := by
    intro hw
    rw [hw] at hnum
    exact not_sleepsOnTimer_wait hnum
  obtain ⟨⟩ := hslept
  refine ⟨?_,fun _ _ => rfl⟩
  intro q _
  constructor
  · intro hq
    rcases mem_listAppend.mp hq.1 with hin | rfl
    · exact ⟨hin,hq.2⟩
    · exact absurd hq.2 hr
  · exact fun hq => ⟨mem_listAppend.mpr (Or.inl hq.1),hq.2⟩

theorem Slept.kin (hslept : Slept s r t) : t.kin = s.kin := by
  obtain ⟨⟩ := hslept
  rfl

/-- The calls that change nothing about the families. -/
theorem Effect.kin (he : Effect s r c t) (hfork : c ≠ .fork) (hspawn : c ≠ .spawn)
    (hwait : c ≠ .wait) (hexit : c ≠ .exit) : t.kin = s.kin := by
  cases he with
  | preempt hs => exact hs.kin
  | fork => exact absurd rfl hfork
  | spawn => exact absurd rfl hspawn
  | noChild => exact absurd rfl hwait
  | reap => exact absurd rfl hwait
  | block => exact absurd rfl hwait
  | collect => exact absurd rfl hexit
  | replace => exact absurd rfl hexit
  | sleep hslept => exact hslept.kin
  | sleepNext hslept => exact hslept.kin
  | sendBlocks _ hslept => exact hslept.kin
  | receiveBlocks _ _ hslept => exact hslept.kin
  | _ => rfl

/-- Only a wait and an exit report anything or change who is blocked in a wait. -/
theorem Effect.quiet_sameWaits (hc : syscallVector (s.syscallNum r).toNat = some c)
    (he : Effect s r c t) (hwait : c ≠ .wait) (hexit : c ≠ .exit) :
    Quiet Event.ofKin s t ∧ SameWaits s t none := by
  have hrefl := Quiet.refl Event.ofKin s
  cases he with
  | preempt hs => exact ⟨hrefl.congr hs.history,hs.sameWaits⟩
  | noChild => exact absurd rfl hwait
  | reap => exact absurd rfl hwait
  | block => exact absurd rfl hwait
  | collect => exact absurd rfl hexit
  | replace => exact absurd rfl hexit
  | sleep hslept =>
    have hw := hslept.sameWaits (sleepsOnTimer_of_syscall (Or.inl hc))
    exact ⟨hrefl.congr hslept.history,hw⟩
  | sleepNext hslept =>
    have hw := hslept.sameWaits (sleepsOnTimer_of_syscall (Or.inl hc))
    exact ⟨hrefl.congr hslept.history,hw.trans { SameWaits.refl _ with }⟩
  | createQueue => exact ⟨hrefl.cons rfl rfl,{ SameWaits.refl _ with }⟩
  | sendBlocks _ hslept =>
    have hw := hslept.sameWaits (sleepsOnTimer_of_syscall (Or.inr (Or.inl hc)))
    exact ⟨(hrefl.congr hslept.history).cons rfl rfl,hw.trans { SameWaits.refl _ with }⟩
  | send => exact ⟨hrefl.cons rfl rfl,{ SameWaits.refl _ with }⟩
  | @receiveBlocks u q next rest _ _ hslept =>
    have hnum : SleepsOnTimer ((s.sizeChecked r q).syscallNum r) :=
      sleepsOnTimer_of_syscall (s := s) (Or.inr (Or.inr hc))
    have hw := hslept.sameWaits hnum
    have hfirst : SameWaits s (s.sizeChecked r q) none := { SameWaits.refl _ with }
    exact ⟨(hrefl.congr hslept.history).cons rfl rfl,
      hfirst.trans (hw.trans { SameWaits.refl _ with })⟩
  | receive => exact ⟨hrefl.cons rfl rfl,{ SameWaits.refl _ with }⟩
  | _ => exact ⟨hrefl.congr rfl,{ SameWaits.refl _ with }⟩

/-- An exit wakes the parent exactly if the parent is in a wait that it satisfies. -/
theorem wakesParent_iff (h : Inv s) (hr : s.running = some r) :
    (s.enterTrap r num args).wakesParent r p ↔ s.WaitsFor p (s.pid r) := by
  have h' := h.enterTrap hr num args
  have hwaits := sameWaits_enterTrap h hr num args
  constructor
  · intro hwakes
    obtain ⟨hw,hnum,hsat⟩ := mem_waiting_of_wakesParent h' hwakes
    have hin := (hwaits.inWait p nofun).mp ⟨hw,hnum⟩
    rw [hwaits.args p hin] at hsat
    exact ⟨hin,hsat⟩
  · rintro ⟨hin,hsat⟩
    obtain ⟨hw,hnum⟩ := (hwaits.inWait p nofun).mpr hin
    have hst := (h'.placement.waitingStatus p).mp hw
    rw [← hwaits.args p hin] at hsat
    simp only [wakesParent,hst,hnum,decide_true,Bool.true_and,Bool.or_eq_true,decide_eq_true_eq]
    exact hsat

/-- The waits behind a wait that blocks: those of before, and that of the caller. -/
theorem sameWaits_blocked {next : ℕ} {rest : List ℕ} :
    SameWaits s ((s.blocked r).dispatched next rest) (some r) := by
  refine ⟨?_,fun _ _ => rfl⟩
  intro q hq
  have hqr : q ≠ r := fun he => hq (congrArg some he.symm)
  have hmem : q ∈ listAppend s.waitingList r ↔ q ∈ s.waitingList := by
    rw [mem_listAppend]
    exact or_iff_left hqr
  exact and_congr_left (fun _ => hmem)

/-- The waits behind an exit that wakes the parent: those of before without the parent's. -/
theorem sameWaits_collected {i x : ℕ} {value : ℤ} {L M : DescriptorLayer} :
    SameWaits s ((s.exiting i r p value).collected r p x L M) (some p) := by
  refine ⟨?_,fun _ _ => rfl⟩
  intro q hq
  have hqp : q ≠ p := fun he => hq (congrArg some he.symm)
  exact and_congr_left (fun _ => List.mem_erase_of_ne hqp)

/-- What the calls do that are neither waits nor exits: a fork and a spawn create a child, the
others leave the families as they are. -/
theorem kin_handled_other (h : Inv s) (hr : s.running = some r)
    (hc : syscallVector num.toNat = some c) (he : Effect (s.enterTrap r num args) r c v)
    (hsw : Switched v t) (hwait : c ≠ .wait) (hexit : c ≠ .exit) :
    KinMove s (.call num args) t := by
  have hc' := syscallVector_enterTrap (r := r) s args hc
  have htrap := quiet_enterTrap (f := Event.ofKin) (fun _ _ => rfl) s r num args
  have hkin : (Action.call num args).ofKin = false := by
    rw [syscallVector_eq_some hc]
    cases c <;> first | rfl | exact absurd rfl hwait | exact absurd rfl hexit
  obtain ⟨hquiet,hwaits⟩ := he.quiet_sameWaits hc' hwait hexit
  have hw : SameWaits s t none :=
    (sameWaits_enterTrap h hr num args).trans (hwaits.trans hsw.sameWaits)
  have hn : Quiet Event.ofKin s t := (htrap.trans hquiet).congr hsw.history
  by_cases hcreate : c = .fork ∨ c = .spawn
  · cases he with
    | fork hb hx => exact .create hkin hr hb hx (hsw.kin.trans (kin_withChild _ _ _ _ _ _)) hw hn
    | @spawn p x pool entries hb hx =>
      have hk := kin_withChild (s.enterTrap r num args) r p pool x entries
      exact .create hkin hr hb hx (hsw.kin.trans hk) hw hn
    | resource hc => rcases hc with rfl | rfl | rfl <;> simp at hcreate
    | queue hc => rcases hc with rfl | rfl <;> simp at hcreate
    | _ => simp at hcreate
  · obtain ⟨hfork,hspawn⟩ := not_or.mp hcreate
    exact .other hkin (hsw.kin.trans (he.kin hfork hspawn hwait hexit)) hw hn

theorem kin_handled (h : Inv s) (hr : s.running = some r)
    (hc : syscallVector num.toNat = some c) (he : Effect (s.enterTrap r num args) r c v)
    (hsw : Switched v t) : KinMove s (.call num args) t := by
  have hwaits := sameWaits_enterTrap h hr num args
  have htrap := quiet_enterTrap (f := Event.ofKin) (fun _ _ => rfl) s r num args
  have hnum := syscallVector_eq_some hc
  have hsame : SameWaits (s.enterTrap r num args) v none → SameWaits s t none :=
    fun hw => hwaits.trans (hw.trans hsw.sameWaits)
  by_cases hboring : c ≠ .wait ∧ c ≠ .exit
  · exact kin_handled_other h hr hc he hsw hboring.1 hboring.2
  cases he with
  | noChild hnil =>
    obtain rfl : num = dsosCallWait := hnum
    exact .noChild hr hnil hsw.kin (hsame { SameWaits.refl _ with }) (htrap.congr hsw.history)
  | @reap x hx hz =>
    obtain rfl : num = dsosCallWait := hnum
    refine .reap hr hx hz (hsw.kin.trans (kin_reaped _ _ _)) (hsame { SameWaits.refl _ with })
      (congrFun hsw.syscallArgs r) ?_ hsw.history
    exact hsw.told (told_reaped (s := s.enterTrap r dsosCallWait args) hr x)
  | @block x next rest hx hz hready =>
    obtain rfl : num = dsosCallWait := hnum
    have hv : SameWaits (s.enterTrap r dsosCallWait args)
        (((s.enterTrap r dsosCallWait args).blocked r).dispatched next rest) (some r) :=
      sameWaits_blocked
    have hin : (((s.enterTrap r dsosCallWait args).blocked r).dispatched next rest).InWait r :=
      ⟨mem_listAppend.mpr (Or.inr rfl),syscallNum_enterTrap s r dsosCallWait args⟩
    have hkin : t.kin = s.kin := by
      rw [hsw.kin,kin_dispatched,kin_blocked,kin_enterTrap]
    refine .block hr hx hz hkin ?_ ((hsw.sameWaits.inWait r nofun).mpr hin)
      (hsw.sameWaits.args r hin) (htrap.congr hsw.history)
    refine (hwaits.trans hv).of_trans hsw.sameWaits ?_
    rintro q hq hqin
    cases hq
    exact absurd hqin (not_inWait_running h hr)
  | @collect i p x L M hi hir hp hwakes hx hxr =>
    obtain rfl : num = dsosCallExit := hnum
    obtain ⟨hin,hsat⟩ := (wakesParent_iff h hr).mp hwakes
    have hkin : t.kin = (s.kin.exit i r
        ((s.enterTrap r dsosCallExit args).syscallArgs r 0)).release p x r := by
      rw [hsw.kin,kin_collected,kin_exiting,kin_enterTrap]
    have hhist := hsw.history
    rw [history_collected] at hhist
    have htold := hsw.told (told_collected (s := s.enterTrap r dsosCallExit args))
    refine .collect hr hi hir hp rfl hin hsat hx hxr hkin ?_ ?_ htold hhist
    · refine (hwaits.trans sameWaits_collected).of_trans hsw.sameWaits ?_
      rintro q hq hqin
      cases hq
      rw [hsw.syscallArgs]
      exact hwaits.args p hqin
    · intro ht
      have hw := ((hsw.sameWaits.inWait p nofun).mp ht).1
      exact (h.placement.waitingNodup.mem_erase_iff.mp hw).1 rfl
  | @replace i p next rest hi hir hp hwakes hready =>
    obtain rfl : num = dsosCallExit := hnum
    have hkin : t.kin = s.kin.exit i r ((s.enterTrap r dsosCallExit args).syscallArgs r 0) := by
      rw [hsw.kin,kin_replaced,kin_exiting,kin_enterTrap]
    exact .replace hr hi hir hp rfl (fun hsat => hwakes ((wakesParent_iff h hr).mpr hsat)) hkin
      (hsame { SameWaits.refl _ with }) hsw.history
  | resource hc => rcases hc with rfl | rfl | rfl <;> simp at hboring
  | queue hc => rcases hc with rfl | rfl <;> simp at hboring
  | _ => simp at hboring

/-- Every step is one of these moves. -/
theorem Moves.kin (h : Inv s) (hm : Moves s a t) : KinMove s a t := by
  have hrefl := Quiet.refl Event.ofKin s
  cases hm with
  | @tick r v t hr hdown hs hsw =>
    have hw : SameWaits s (s.ticked r) none := { SameWaits.refl s with }
    refine .other rfl (hsw.kin.trans hs.kin) (hw.trans (hs.sameWaits.trans hsw.sameWaits)) ?_
    exact hrefl.congr (hsw.history.trans hs.history)
  | @refused r num args hr hcpu hnum =>
    have hnot : ∀ c : Syscall, num ≠ c.number := by
      rintro c rfl
      revert hnum
      cases c <;> decide
    refine .other ?_ rfl { SameWaits.refl s with } (hrefl.cons rfl rfl)
    have hwait : num ≠ dsosCallWait := hnot .wait
    have hexit : num ≠ dsosCallExit := hnot .exit
    simp [Action.ofKin,hwait,hexit]
  | @missing r num args t hr hdown hcpu hnum hc hsw =>
    have hwait : num ≠ dsosCallWait := by
      rintro rfl
      cases hc
    have hexit : num ≠ dsosCallExit := by
      rintro rfl
      cases hc
    refine .other (by simp [Action.ofKin,hwait,hexit]) hsw.kin ?_
      ((quiet_enterTrap (f := Event.ofKin) (fun _ _ => rfl) s r num args).congr hsw.history)
    refine (sameWaits_enterTrap h hr num args).trans (SameWaits.trans ?_ hsw.sameWaits)
    exact { SameWaits.refl (s.enterTrap r num args) with }
  | handled hr hdown hcpu hnum hc he hsw => exact kin_handled h hr hc he hsw
  | ret => exact .other rfl rfl { SameWaits.refl s with } (hrefl.cons rfl rfl)
  | store => exact .other rfl rfl { SameWaits.refl s with } (hrefl.congr rfl)
  | resumeMain hr hdown hb hsw =>
    refine .restart hr hb (hsw.kin.trans (kin_withInit _ _ _)) (SameWaits.trans ?_ hsw.sameWaits)
      (hrefl.congr hsw.history)
    exact { SameWaits.refl s with }

end Kernel

end DisastrOS
