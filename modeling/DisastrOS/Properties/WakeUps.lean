import DisastrOS.Behaviour.Kinship

/-! # Whether a process waits for a child that is already a zombie

A wait blocks only when no child that satisfies it is a zombie. An exit decides by
the parent field whom it wakes, and it may give zombies to an init that waits, so
these are the two ways in which a wake-up can get lost.
-/
namespace DisastrOS

/-- Nobody on `W` has a zombie among its children that its awaited identifier `arg`
asks for, where zero asks for any child. -/
def Kin.NoLost (k : Kin) (W : ℕ → Prop) (arg : ℕ → ℤ) : Prop :=
  ∀ q, W q → ∀ x ∈ k.children q, k.childPcb x ∈ k.zombies →
    arg q ≠ 0 ∧ arg q ≠ k.pid (k.childPcb x)

namespace Kin
variable {k : Kin} {W W' : ℕ → Prop} {arg arg' : ℕ → ℤ} {i r p q x : ℕ} {value : ℤ}

theorem NoLost.mono (h : k.NoLost W arg) (hW : ∀ q, W' q → W q)
    (harg : ∀ q, W' q → arg' q = arg q) : k.NoLost W' arg' := by
  intro q hq x hx hz
  rw [harg q hq]
  exact h q (hW q hq) x hx hz

theorem noLost_congr (hW : ∀ q, W' q ↔ W q) (harg : ∀ q, W q → arg' q = arg q) :
    k.NoLost W' arg' ↔ k.NoLost W arg := by
  constructor
  · intro h
    exact h.mono (fun q hq => (hW q).mpr hq) (fun q hq => (harg q hq).symm)
  · intro h
    exact h.mono (fun q hq => (hW q).mp hq) (fun q hq => harg q ((hW q).mp hq))

theorem NoLost.create (h : k.NoLost W arg) {pool : Pool maxNumProcesses}
    (hW : ∀ q, W q → q ≠ r ∧ q ≠ p)
    (hold : ∀ q, W q → ∀ y ∈ k.children q, y ≠ x ∧ k.childPcb y ≠ p) :
    (k.create r p pool x).NoLost W arg := by
  intro q hq y hy hz
  obtain ⟨hqr,hqp⟩ := hW q hq
  have hch : (k.create r p pool x).children q = k.children q :=
    (Function.update_of_ne hqr _ _).trans (Function.update_of_ne hqp _ _)
  rw [hch] at hy
  obtain ⟨hyx,hyp⟩ := hold q hq y hy
  have hc : (k.create r p pool x).childPcb y = k.childPcb y := Function.update_of_ne hyx _ _
  have hpid : (k.create r p pool x).pid (k.childPcb y) = k.pid (k.childPcb y) :=
    Function.update_of_ne hyp _ _
  rw [hc] at hz ⊢
  rw [hpid]
  exact h q hq y hy hz

theorem NoLost.restart (h : k.NoLost W arg) {pool : Pool maxNumProcesses} (hp : ¬ W p)
    (hold : ∀ q, W q → ∀ y ∈ k.children q, k.childPcb y ≠ p) :
    (k.restart p pool).NoLost W arg := by
  intro q hq y hy hz
  have hqp : q ≠ p := by
    rintro rfl
    exact hp hq
  have hch : (k.restart p pool).children q = k.children q := Function.update_of_ne hqp _ _
  rw [hch] at hy
  have hpid : (k.restart p pool).pid (k.childPcb y) = k.pid (k.childPcb y) :=
    Function.update_of_ne (hold q hq y hy) _ _
  have hgood := h q hq y hy hz
  rwa [← hpid] at hgood

theorem NoLost.release (h : k.NoLost W arg) (hp : ¬ W p) : (k.release p x r).NoLost W arg := by
  intro q hq y hy hz
  have hqp : q ≠ p := by
    rintro rfl
    exact hp hq
  have hch : (k.release p x r).children q = k.children q := Function.update_of_ne hqp _ _
  rw [hch] at hy
  exact h q hq y hy (List.mem_of_mem_erase hz)

/-- What an exit must not do to those who wait. -/
theorem noLost_exit (hold : k.NoLost W arg) (hr : ¬ W r)
    (hself : ∀ x ∈ k.children r, k.childPcb x ≠ r) :
    (k.exit i r value).NoLost W arg ↔
      (∀ q, W q → ∀ x ∈ k.children q, k.childPcb x = r → arg q ≠ 0 ∧ arg q ≠ k.pid r) ∧
      (W i → ∀ x ∈ k.children r, k.childPcb x ∈ k.zombies →
        arg i ≠ 0 ∧ arg i ≠ k.pid (k.childPcb x)) := by
  have hne : ∀ q, W q → q ≠ r := by
    rintro q hq rfl
    exact hr hq
  constructor
  · intro hnew
    refine ⟨?_,?_⟩
    · intro q hq x hx hxr
      have hz : k.childPcb x ∈ listAppend k.zombies r := mem_listAppend.mpr (Or.inr hxr)
      have hgood := hnew q hq x ((mem_handedOver (hne q hq)).mpr (Or.inl hx)) hz
      exact hxr ▸ hgood
    · intro hi x hx hz
      exact hnew i hi x ((mem_handedOver (hne i hi)).mpr (Or.inr ⟨rfl,hx⟩))
        (mem_listAppend.mpr (Or.inl hz))
  · rintro ⟨hown,hinit⟩ q hq x hx hz
    rcases mem_listAppend.mp hz with hz | hxr
    · rcases (mem_handedOver (hne q hq)).mp hx with hx | ⟨rfl,hxr⟩
      · exact hold q hq x hx hz
      · exact hinit hq x hxr hz
    · have hxq : x ∈ k.children q := by
        rcases (mem_handedOver (hne q hq)).mp hx with hx | ⟨_,hx⟩
        · exact hx
        · exact absurd hxr (hself x hx)
      have hgood := hown q hq x hxq hxr
      exact ⟨hgood.1,hxr ▸ hgood.2⟩

theorem noLost_release (hp : ¬ W p) (hr : ∀ q, W q → ∀ x ∈ k.children q, k.childPcb x ≠ r) :
    (k.release p x r).NoLost W arg ↔ k.NoLost W arg := by
  refine forall_congr' fun q => imp_congr_right fun hq => ?_
  have hqp : q ≠ p := by
    rintro rfl
    exact hp hq
  have hch : (k.release p x r).children q = k.children q := Function.update_of_ne hqp _ _
  rw [hch]
  refine forall_congr' fun y => imp_congr_right fun hy => ?_
  have hz : k.childPcb y ∈ (k.release p x r).zombies ↔ k.childPcb y ∈ k.zombies :=
    List.mem_erase_of_ne (hr q hq y hy)
  exact imp_congr_left hz

end Kin

namespace Kernel

/-- The identifier that a blocked process waits for. -/
def awaited (s : Kernel) (q : ℕ) : ℤ := s.syscallArgs q 0

/-- Every process that is blocked in a wait has no zombie among its children that
satisfies the wait. -/
def NoLostWakeUp (s : Kernel) : Prop :=
  ∀ q, s.status q = .waiting → s.syscallNum q = dsosCallWait → ∀ x ∈ s.children q,
    s.status (s.childPcb x) = .zombie →
      ¬ (s.syscallArgs q 0 = 0 ∨ s.syscallArgs q 0 = s.pid (s.childPcb x))

/-- An exit wakes everybody it has to wake: whoever waits for the exiting process is
the one its parent field names, and an init that does not get woken does not wait for
a zombie that it gets. -/
def KeepsWakeUps (s : Kernel) : Action → Prop
  | .call num _ => num = dsosCallExit → ∀ r ∈ s.running, ∀ i ∈ s.initPcb, ∀ p ∈ s.parent r,
      (∀ q ∈ s.waitingList, s.WaitsFor q (s.pid r) → ∀ x ∈ s.children q, s.childPcb x = r → q = p) ∧
      (∀ x ∈ s.children r, s.status (s.childPcb x) = .zombie →
        s.WaitsFor i (s.pid (s.childPcb x)) → i = p ∧ s.WaitsFor i (s.pid r))
  | _ => True

instance (s : Kernel) : (a : Action) → Decidable (s.KeepsWakeUps a)
  | .call num _ => inferInstanceAs (Decidable (num = dsosCallExit → ∀ r ∈ s.running,
      ∀ i ∈ s.initPcb, ∀ p ∈ s.parent r, (_ ∧ _)))
  | .tick | .ret | .store _ _ | .resumeMain => instDecidableTrue

variable {s t : Kernel} {a : Action} {r i p q x : ℕ} {args : List ℤ}

theorem noLostWakeUp_iff (h : Inv s) :
    s.NoLostWakeUp ↔ s.kin.NoLost s.InWait s.awaited := by
  constructor
  · intro hno q hq x hx hz
    have hst := (h.placement.waitingStatus q).mp hq.1
    have hqA := h.placement.allocated_waiting hq.1
    have hxA := h.family.childAllocated q hqA x hx
    exact not_or.mp (hno q hst hq.2 x hx ((h.placement.mem_zombie_iff hxA).mp hz))
  · intro hno q hst hnum x hx hz
    have hq : s.InWait q := ⟨(h.placement.waitingStatus q).mpr hst,hnum⟩
    have hqA := h.placement.allocated_waiting hq.1
    have hxA := h.family.childAllocated q hqA x hx
    exact not_or.mpr (hno q hq x hx ((h.placement.mem_zombie_iff hxA).mpr hz))

theorem keepsWakeUps_exit (h : Inv s) (hr : s.running = some r) (hi : s.initPcb = some i)
    (hp : s.parent r = some p) : s.KeepsWakeUps (.call dsosCallExit args) ↔
      (∀ q, s.WaitsFor q (s.pid r) → ∀ x ∈ s.children q, s.childPcb x = r → q = p) ∧
      (∀ x ∈ s.children r, s.childPcb x ∈ s.zombieList →
        s.WaitsFor i (s.pid (s.childPcb x)) → i = p ∧ s.WaitsFor i (s.pid r)) := by
  have hz : ∀ x ∈ s.children r, s.childPcb x ∈ s.zombieList ↔ s.status (s.childPcb x) = .zombie :=
    fun x hx => h.placement.mem_zombie_iff (h.family.childAllocated r (h.running_allocated hr) x hx)
  simp only [KeepsWakeUps,hr,hi,hp,Option.mem_some_iff,forall_eq',true_implies]
  refine and_congr ?_ ?_
  · exact forall_congr' fun q => ⟨fun hall hq => hall hq.1.1 hq,fun hall _ hq => hall hq⟩
  · refine forall_congr' fun x => imp_congr_right fun hx => ?_
    rw [hz x hx]

/-- A wait that blocks finds no zombie that satisfies it. -/
theorem noLost_block (h : Inv s) (hr : s.running = some r) (hx : s.awaitedEntry r = some x)
    (hz : s.status (s.childPcb x) ≠ .zombie) {y : ℕ} (hy : y ∈ s.children r)
    (hyz : s.status (s.childPcb y) = .zombie) :
    s.syscallArgs r 0 ≠ 0 ∧ s.syscallArgs r 0 ≠ s.pid (s.childPcb y) := by
  have hrA := h.running_allocated hr
  rcases awaitedEntry_cases hx with ⟨hx',hstop⟩ | ⟨hnone,_⟩
  · rcases stopsScan_iff.mp hstop with ⟨_,hxz⟩ | ⟨hne,hpid⟩
    · exact absurd hxz hz
    · refine ⟨hne,?_⟩
      intro hsame
      have hxy : s.childPcb x = s.childPcb y := by
        apply h.identity.injective _ _ (h.family.childAllocated r hrA x hx')
          (h.family.childAllocated r hrA y hy)
        exact hpid.trans hsame
      exact hz (hxy ▸ hyz)
  · have hno := mt stopsScan_iff.mpr (hnone y hy)
    have hne : s.syscallArgs r 0 ≠ 0 := fun h0 => hno (Or.inl ⟨h0,hyz⟩)
    exact ⟨hne,fun hsame => hno (Or.inr ⟨hne,hsame.symm⟩)⟩

theorem not_waitsFor_iff (hq : s.InWait q) {pid : ℤ} :
    s.awaited q ≠ 0 ∧ s.awaited q ≠ pid ↔ ¬ s.WaitsFor q pid := by
  unfold WaitsFor awaited
  rw [not_and,not_or]
  exact ⟨fun hgood _ => hgood,fun hgood => hgood hq⟩

theorem SameWaits.noLost {k : Kin} (hw : SameWaits s t none) :
    k.NoLost t.InWait t.awaited ↔ k.NoLost s.InWait s.awaited :=
  Kin.noLost_congr (fun q => hw.inWait q nofun) (fun q hq => congrFun (hw.args q hq) 0)

/-- The condition on an exit that wakes nobody is the guard. -/
theorem noLost_replace (hsat : ¬ s.WaitsFor p (s.pid r)) :
    ((∀ q, s.InWait q → ∀ x ∈ s.children q, s.childPcb x = r →
        s.awaited q ≠ 0 ∧ s.awaited q ≠ s.pid r) ∧
      (s.InWait i → ∀ x ∈ s.children r, s.childPcb x ∈ s.zombieList →
        s.awaited i ≠ 0 ∧ s.awaited i ≠ s.pid (s.childPcb x))) ↔
    ((∀ q, s.WaitsFor q (s.pid r) → ∀ x ∈ s.children q, s.childPcb x = r → q = p) ∧
      (∀ x ∈ s.children r, s.childPcb x ∈ s.zombieList →
        s.WaitsFor i (s.pid (s.childPcb x)) → i = p ∧ s.WaitsFor i (s.pid r))) := by
  refine and_congr ?_ ?_
  · constructor
    · intro hown q hq x hx hxr
      exact absurd hq ((not_waitsFor_iff hq.1).mp (hown q hq.1 x hx hxr))
    · intro hown q hq x hx hxr
      refine (not_waitsFor_iff hq).mpr (fun hwaits => hsat ?_)
      rw [← hown q hwaits x hx hxr]
      exact hwaits
  · constructor
    · intro hinit x hx hz hwaits
      exact absurd hwaits ((not_waitsFor_iff hwaits.1).mp (hinit hwaits.1 x hx hz))
    · intro hinit hi x hx hz
      refine (not_waitsFor_iff hi).mpr (fun hwaits => hsat ?_)
      obtain ⟨rfl,hwaits'⟩ := hinit x hx hz hwaits
      exact hwaits'

/-- The condition on an exit that wakes `p`, on whose children list it is. -/
theorem noLost_collect (hsat : s.WaitsFor p (s.pid r))
    (honly : ∀ q, s.InWait q → ∀ x ∈ s.children q, s.childPcb x = r → q = p) :
    ((∀ q, q ≠ p ∧ s.InWait q → ∀ x ∈ s.children q, s.childPcb x = r →
        s.awaited q ≠ 0 ∧ s.awaited q ≠ s.pid r) ∧
      (i ≠ p ∧ s.InWait i → ∀ x ∈ s.children r, s.childPcb x ∈ s.zombieList →
        s.awaited i ≠ 0 ∧ s.awaited i ≠ s.pid (s.childPcb x))) ↔
    ((∀ q, s.WaitsFor q (s.pid r) → ∀ x ∈ s.children q, s.childPcb x = r → q = p) ∧
      (∀ x ∈ s.children r, s.childPcb x ∈ s.zombieList →
        s.WaitsFor i (s.pid (s.childPcb x)) → i = p ∧ s.WaitsFor i (s.pid r))) := by
  refine and_congr ?_ ?_
  · refine iff_of_true ?_ (fun q hq => honly q hq.1)
    intro q hq x hx hxr
    exact absurd (honly q hq.2 x hx hxr) hq.1
  · constructor
    · intro hinit x hx hz hwaits
      by_cases hip : i = p
      · exact ⟨hip,hip ▸ hsat⟩
      · exact absurd hwaits
          ((not_waitsFor_iff hwaits.1).mp (hinit ⟨hip,hwaits.1⟩ x hx hz))
    · intro hinit hi x hx hz
      exact (not_waitsFor_iff hi.2).mpr (fun hwaits => hi.1 (hinit x hx hz hwaits).1)

theorem keepsWakeUps_of_not_ofKin (ha : a.ofKin = false) : s.KeepsWakeUps a := by
  cases a with
  | call num args =>
    intro hnum
    simp [Action.ofKin,hnum] at ha
  | _ => trivial

theorem inWait_ne_running (h : Inv s) (hr : s.running = some r) (hq : s.InWait q) : q ≠ r := by
  rintro rfl
  exact not_inWait_running h hr hq

/-- An exit that wakes its parent up keeps to the guard exactly if it loses no wake-up. -/
theorem noLost_collected {v : ℤ} (h : Inv s) (hs : s.kin.NoLost s.InWait s.awaited)
    (hr : s.running = some r) (hi : s.initPcb = some i) (hir : i ≠ r ∨ s.children r = [])
    (hp : s.parent r = some p) (hwaits : s.WaitsFor p (s.pid r))
    (hx : x ∈ handedOver s.children i r p) (hxr : s.childPcb x = r)
    (hk : t.kin = (s.kin.exit i r v).release p x r) (hw : SameWaits s t (some p))
    (hout : ¬ t.InWait p) :
    t.kin.NoLost t.InWait t.awaited ↔ s.KeepsWakeUps (.call dsosCallExit args) := by
  obtain ⟨hfam,_⟩ := h.family_handedOver hr hi hir
  have hself := h.family.notSelf r (h.running_allocated hr)
  have honly : ∀ q, s.InWait q → ∀ y ∈ handedOver s.children i r q, s.childPcb y = r → q = p := by
    intro q hq y hy hyr
    exact (hfam.unique q p (h.placement.allocated_waiting hq.1)
      (h.placement.allocated_waiting hwaits.1.1) y hy x hx (hyr.trans hxr.symm)).1
  have hown : ∀ q, s.InWait q → ∀ y ∈ s.children q, s.childPcb y = r → q = p :=
    fun q hq y hy => honly q hq y ((mem_handedOver (inWait_ne_running h hr hq)).mpr (Or.inl hy))
  have hothers : ∀ q, t.InWait q ↔ q ≠ p ∧ s.InWait q := by
    intro q
    by_cases hqp : q = p
    · subst hqp
      exact iff_of_false hout (fun hq => hq.1 rfl)
    · rw [hw.inWait q (fun he => hqp (Option.some.inj he).symm)]
      exact (and_iff_right hqp).symm
  have hargs : ∀ q, q ≠ p ∧ s.InWait q → t.awaited q = s.awaited q :=
    fun q hq => congrFun (hw.args q hq.2) 0
  rw [hk,keepsWakeUps_exit h hr hi hp,← noLost_collect hwaits hown,
    Kin.noLost_congr hothers hargs,
    Kin.noLost_release (fun hq => hq.1 rfl)
      (fun q hq y hy hyr => hq.1 (honly q hq.2 y hy hyr)),
    Kin.noLost_exit (hs.mono (fun q hq => hq.2) (fun _ _ => rfl))
      (fun hq => not_inWait_running h hr hq.2) hself]
  exact Iff.rfl

/-- No wake-up is lost in a step exactly if it keeps to the guard. -/
theorem KinMove.noLost (h : Inv s) (hs : s.kin.NoLost s.InWait s.awaited)
    (hm : KinMove s a t) : t.kin.NoLost t.InWait t.awaited ↔ s.KeepsWakeUps a := by
  cases hm with
  | other ha hk hw =>
    rw [hk,hw.noLost]
    exact iff_of_true hs (keepsWakeUps_of_not_ofKin ha)
  | @create num args r p x pool entries t ha hr hb hx hk hw =>
    rw [hk,hw.noLost]
    refine iff_of_true ?_ (keepsWakeUps_of_not_ofKin ha)
    obtain ⟨hfree,_,_⟩ := Pool.getBlock_eq_some hb
    obtain ⟨hxfree,_,_⟩ := Pool.getBlock_eq_some hx
    refine hs.create ?_ ?_
    · intro q hq
      exact ⟨inWait_ne_running h hr hq,
        fun hqp => hfree (hqp ▸ h.placement.allocated_waiting hq.1)⟩
    · intro q hq y hy
      have hqA := h.placement.allocated_waiting hq.1
      exact ⟨fun hyx => hxfree (hyx ▸ h.family.entry q hqA y hy),
        fun hyp => hfree (hyp ▸ h.family.childAllocated q hqA y hy)⟩
  | noChild hr hnil hk hw =>
    rw [hk,hw.noLost]
    exact iff_of_true hs (fun hnum => absurd hnum (by decide))
  | @reap args r x t hr hx hz hk hw =>
    rw [hk,hw.noLost]
    exact iff_of_true (hs.release (not_inWait_running h hr)) (fun hnum => absurd hnum (by decide))
  | @block args r x t hr hx hz hk hw hin hargs =>
    rw [hk]
    refine iff_of_true ?_ (fun hnum => absurd hnum (by decide))
    intro q hq y hy hyz
    unfold awaited
    by_cases hqr : q = r
    · subst hqr
      have hyA := h.family.childAllocated q (h.running_allocated hr) y hy
      have hyz' := (h.placement.mem_zombie_iff hyA).mp hyz
      rw [hargs]
      exact noLost_block (h.enterTrap hr dsosCallWait args) hr hx hz hy hyz'
    · have hqin := (hw.inWait q (fun he => hqr (Option.some.inj he).symm)).mp hq
      rw [hw.args q hqin]
      exact hs q hqin y hy hyz
  | @collect args r i p x v t hr hi hir hp hv hin hsat hx hxr hk hw hout =>
    exact noLost_collected h hs hr hi hir hp ⟨hin,hsat⟩ hx hxr hk hw hout
  | @replace args r i p v t hr hi hir hp hv hsat hk hw =>
    have hself := h.family.notSelf r (h.running_allocated hr)
    rw [hk,hw.noLost,keepsWakeUps_exit h hr hi hp,← noLost_replace hsat,
      Kin.noLost_exit hs (not_inWait_running h hr) hself]
    exact Iff.rfl
  | @restart p pool t hr hb hk hw =>
    rw [hk,hw.noLost]
    refine iff_of_true ?_ trivial
    obtain ⟨hfree,_,_⟩ := Pool.getBlock_eq_some hb
    refine hs.restart ?_ ?_
    · exact fun hq => hfree (h.placement.allocated_waiting hq.1)
    · intro q hq y hy hyp
      have hqA := h.placement.allocated_waiting hq.1
      exact hfree (hyp ▸ h.family.childAllocated q hqA y hy)

end Kernel

/-- No process waits for a child that is already a zombie, along every run whose exits
keep to the guard, and an exit that does not is the end of it. -/
theorem no_lost_wake_up {s : Kernel} (hs : ReachableUnder Kernel.KeepsWakeUps s) :
    s.NoLostWakeUp ∧ ∀ a t, s.step a = .ok t → (t.NoLostWakeUp ↔ s.KeepsWakeUps a) := by
  apply ReachableUnder.holds_iff (I := fun s => s.kin.NoLost s.InWait s.awaited) _ _ _ hs
  · intro s hs
    exact Kernel.noLostWakeUp_iff hs.inv
  · intro function args logFile chars ints s hok q hq
    obtain ⟨p,pool,_,hsw⟩ := Kernel.startFirstProcess_ok hok
    have hq' := ((hsw.sameWaits.inWait q nofun).mp hq).1
    cases hq'
  · intro s a t h hnone hst
    exact ((Kernel.step_moves h hst).kin h).noLost h hnone

/-- The first child is a zombie while its parent waits for the second one. -/
theorem no_lost_wake_up_run : ∃ s : Kernel, (s.waitingList = [0] ∧ s.zombieList = [1] ∧
    s.syscallArgs 0 0 = 2) ∧ s.NoLostWakeUp ∧
      ∀ a t, s.step a = .ok t → (t.NoLostWakeUp ↔ s.KeepsWakeUps a) := by
  obtain ⟨s,hs,hcheck⟩ := exists_run Kernel.KeepsWakeUps
    [.call 5 [1,0],.ret,.call 5 [1,0],.ret,.tick,.call 4 [7],.tick,.call 3 [2,0]]
    (fun s => s.waitingList = [0] && s.zombieList = [1] && s.syscallArgs 0 0 = 2) (by decide)
  refine ⟨s,?_,no_lost_wake_up hs⟩
  simpa [and_assoc] using hcheck

/-- Init waits for a grandchild whose parent has exited, and sleeps on when it exits. -/
theorem exit_loses_wake_up : ¬ ∀ s : Kernel, Reachable s → s.NoLostWakeUp := by
  intro hclaim
  obtain ⟨s,hs,hcheck⟩ := exists_run Transitions.unguarded
    [.call 5 [1,0],.ret,.call 5 [1,0],.ret,.tick,.call 5 [1,0],.ret,.call 4 [7],.tick,
      .call 3 [3,0],.call 4 [8]]
    (fun s => s.status 0 = .waiting && s.syscallNum 0 = dsosCallWait && s.syscallArgs 0 0 = s.pid 3 &&
      (s.children 0).any (fun x => s.childPcb x = 3) && s.status 3 = .zombie) (by decide)
  simp only [Bool.and_eq_true,decide_eq_true_eq,List.any_eq_true] at hcheck
  obtain ⟨⟨⟨⟨hst,hnum⟩,hpid⟩,x,hx,hx3⟩,hz⟩ := hcheck
  rw [← hx3] at hpid hz
  exact hclaim s hs 0 hst hnum x hx hz (Or.inr hpid)

end DisastrOS
