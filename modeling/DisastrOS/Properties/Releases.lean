import DisastrOS.Behaviour.Holdings

/-! # What is left of a process that has exited

The release loops stand in one branch of the exit, and a wait that reaps a zombie has
none. So an exit releases everything just if that branch is taken or there is nothing
to release, and a queue stays in use for ever otherwise.
-/
namespace DisastrOS

namespace Kernel

/-- The process exists and has not exited. -/
def Alive (s : Kernel) (p : ℕ) : Prop := s.holdings.Alive p

/-- Of the timers and descriptors that `r` has in `s`, nothing is left in `t`. -/
structure ReleasedAll (s t : Kernel) (r : ℕ) : Prop where
  timers : ∀ i ∈ t.timerList, t.timerPcb i ≠ r
  timerItems : ∀ i, t.timerItemAllocator.Allocated i → t.timerPcb i ≠ r
  resources : s.resources.Gone t.resources r
  messagequeues : s.messagequeues.Gone t.messagequeues r

/-- Every timer and every descriptor belongs to a process that is alive. -/
structure NothingLeft (s : Kernel) : Prop where
  timers : ∀ i, s.timerItemAllocator.Allocated i → s.Alive (s.timerPcb i)
  resources : s.resources.Held s.Alive
  messagequeues : s.messagequeues.Held s.Alive

/-- The parent of `r` waits for it, or `r` has no descriptors. -/
def ExitReleases (s : Kernel) (r : ℕ) : Prop :=
  (∃ p ∈ s.parent r, s.WaitsFor p (s.pid r)) ∨
    (s.resources.descriptors r = [] ∧ s.messagequeues.descriptors r = [])

instance (s : Kernel) (r : ℕ) : Decidable (s.ExitReleases r) :=
  inferInstanceAs (Decidable ((∃ p ∈ s.parent r, s.WaitsFor p (s.pid r)) ∨ (_ ∧ _)))

/-- If the action is an exit, it releases what the process holds. -/
def ExitsRelease (s : Kernel) : Action → Prop
  | .call num _ => num = dsosCallExit → ∀ r ∈ s.running, s.ExitReleases r
  | _ => True

instance (s : Kernel) : (a : Action) → Decidable (s.ExitsRelease a)
  | .call num _ =>
    inferInstanceAs (Decidable (num = dsosCallExit → ∀ r ∈ s.running, s.ExitReleases r))
  | .tick | .ret | .store _ _ | .resumeMain => instDecidableTrue

/-- The process `r` runs and can make a call. -/
structure CanCall (s : Kernel) (r : ℕ) : Prop where
  running : s.running = some r
  user : s.cpu ≠ .syscall
  up : s.shutdownNow = false

variable {s t v : Kernel} {a : Action} {r p q o : ℕ} {id : ℤ} {args : List ℤ}

theorem exitsRelease_of_not_exit (ha : a.isExit = false) : s.ExitsRelease a := by
  cases a with
  | call num args =>
    intro hnum
    subst hnum
    cases ha
  | _ => trivial

theorem timers_alive (h : Inv s) (i : ℕ) (hi : s.timerItemAllocator.Allocated i) :
    s.Alive (s.timerPcb i) := by
  have hw := (h.timers.waits i ((h.timers.items i).mp hi)).1
  have hA := h.placement.allocated_waiting hw
  refine ⟨hA,?_⟩
  intro hz
  have hwaiting := (h.placement.waitingStatus _).mp hw
  rw [h.placement.zombieStatus _ hz] at hwaiting
  cases hwaiting

theorem nothingLeft_iff (h : Inv s) : s.NothingLeft ↔ s.holdings.Clean := by
  constructor
  · intro hs
    exact ⟨hs.resources,hs.messagequeues⟩
  · intro hs
    exact ⟨timers_alive h,hs.resources,hs.messagequeues⟩

theorem clean_exit_iff (h : Inv s) (hs : s.holdings.Clean) (hr : s.running = some r) :
    (s.holdings.exit r).Clean ↔
      s.resources.descriptors r = [] ∧ s.messagequeues.descriptors r = [] := by
  have hrA := h.running_allocated hr
  have hA : ∀ q, s.holdings.Alive q → s.pcbAllocator.Allocated q := fun q hq => hq.1
  have hR := DescriptorLayer.held_without hs.resources h.resources hrA hA Holdings.alive_exit
  have hM := DescriptorLayer.held_without hs.messagequeues h.messagequeues hrA hA
    Holdings.alive_exit
  constructor
  · intro hc
    exact ⟨hR.mp hc.resources,hM.mp hc.messagequeues⟩
  · intro hnil
    exact ⟨hR.mpr hnil.1,hM.mpr hnil.2⟩

theorem clean_collect (h : Inv s) (hs : s.holdings.Clean) (hr : s.running = some r)
    {L M : DescriptorLayer} (hL : s.resources.Released L r) (hM : s.messagequeues.Released M r) :
    (((s.holdings.withLayers L M).exit r).reap r).Clean := by
  have hZ : ((s.holdings.withLayers L M).exit r).zombies.Nodup :=
    nodup_listAppend h.placement.zombieNodup (h.not_zombie_running hr)
  have hrZ : r ∈ ((s.holdings.withLayers L M).exit r).zombies := mem_listAppend.mpr (Or.inr rfl)
  apply (Holdings.clean_reap hZ hrZ (h.running_allocated hr)).mpr
  have halive : ∀ q, ((s.holdings.withLayers L M).exit r).Alive q ↔ s.holdings.Alive q ∧ q ≠ r :=
    Holdings.alive_exit
  exact ⟨hs.resources.released hL halive,hs.messagequeues.released hM halive⟩

theorem HoldingMove.clean_iff (h : Inv s) (hs : s.holdings.Clean) (hm : HoldingMove s a t) :
    t.holdings.Clean ↔ s.ExitsRelease a := by
  cases hm with
  | other ha hL hM hk =>
    rw [hk]
    exact iff_of_true (hs.withLayers hL hM) (exitsRelease_of_not_exit ha)
  | create ha hb hk =>
    rw [hk]
    obtain ⟨hfree,_,hal⟩ := Pool.getBlock_eq_some hb
    have hz := fun hz => hfree (h.placement.allocated_zombie hz)
    exact iff_of_true (hs.create hfree hz hal) (exitsRelease_of_not_exit ha)
  | reap ha hc hk =>
    rw [hk]
    have hcA := h.placement.allocated_zombie hc
    exact iff_of_true ((Holdings.clean_reap h.placement.zombieNodup hc hcA).mpr hs)
      (exitsRelease_of_not_exit ha)
  | collect hr hp hw hL hM hk =>
    rw [hk]
    refine iff_of_true (clean_collect h hs hr hL hM) ?_
    rintro _ r' hr'
    cases hr.symm.trans hr'
    exact Or.inl ⟨_,hp,hw⟩
  | replace hr hp hw hk =>
    rw [hk,clean_exit_iff h hs hr]
    constructor
    · rintro hnil _ r' hr'
      cases hr.symm.trans hr'
      exact Or.inr hnil
    · intro hguard
      rcases hguard rfl _ hr with ⟨p',hp',hw'⟩ | hnil
      · cases hp.symm.trans hp'
        exact absurd hw' hw
      · exact hnil

theorem HoldingMove.releasedAll_iff (h : Inv s) (ht : Inv t) (hr : s.running = some r)
    (hm : HoldingMove s (.call dsosCallExit args) t) : s.ReleasedAll t r ↔ s.ExitReleases r := by
  have hrA := h.running_allocated hr
  have htimers : ¬ t.Alive r → ∀ i, t.timerItemAllocator.Allocated i → t.timerPcb i ≠ r := by
    rintro hdead i hi rfl
    exact hdead (timers_alive ht i hi)
  cases hm with
  | other ha => cases ha
  | create ha => cases ha
  | reap ha => cases ha
  | @collect _ r' p L M t hr' hp hw hL hM hk =>
    cases hr.symm.trans hr'
    have hdead : ¬ t.Alive r := by
      unfold Alive
      rw [hk]
      exact fun hal => absurd rfl ((Pool.allocated_releaseBlock hrA r).mp hal.1).1
    have hLt : t.resources = L := congrArg Holdings.resources hk
    have hMt : t.messagequeues = M := congrArg Holdings.messagequeues hk
    refine iff_of_true ⟨?_,htimers hdead,hLt ▸ hL.gone,hMt ▸ hM.gone⟩ (Or.inl ⟨p,hp,hw⟩)
    exact fun i hi => htimers hdead i ((ht.timers.items i).mpr hi)
  | @replace _ r' p t hr' hp hw hk =>
    cases hr.symm.trans hr'
    have hdead : ¬ t.Alive r := by
      unfold Alive
      rw [hk,Holdings.alive_exit]
      exact fun hal => hal.2 rfl
    have hLt : t.resources = s.resources := congrArg Holdings.resources hk
    have hMt : t.messagequeues = s.messagequeues := congrArg Holdings.messagequeues hk
    constructor
    · intro hall
      have hR := hall.resources
      have hM := hall.messagequeues
      rw [hLt,DescriptorLayer.gone_self_iff h.resources hrA] at hR
      rw [hMt,DescriptorLayer.gone_self_iff h.messagequeues hrA] at hM
      exact Or.inr ⟨hR,hM⟩
    · rintro (⟨p',hp',hw'⟩ | ⟨hR,hM⟩)
      · cases hp.symm.trans hp'
        exact absurd hw' hw
      · refine ⟨fun i hi => htimers hdead i ((ht.timers.items i).mpr hi),htimers hdead,?_,?_⟩
        · rw [hLt]
          exact (DescriptorLayer.gone_self_iff h.resources hrA).mpr hR
        · rw [hMt]
          exact (DescriptorLayer.gone_self_iff h.messagequeues hrA).mpr hM

theorem unlink_unused (h : Inv s) (hs : s.holdings.Clean) (hcan : s.CanCall r)
    (hid : s.messagequeues.byId id = some q) (hno : s.messagequeues.Unused s.Alive q) :
    ∃ t, s.step (.call Syscall.mqUnlink.number [id]) = .ok t ∧ t.syscallRetvalue r = 0 ∧
      q ∉ t.messagequeues.objectsList := by
  have h' := h.enterTrap hcan.running Syscall.mqUnlink.number [id]
  have hnil := hs.messagequeues.unused h.messagequeues (DescriptorLayer.byId_eq_some hid).1 hno
  have harg : (s.enterTrap r Syscall.mqUnlink.number [id]).syscallArgs r 0 = id :=
    syscallArgs_enterTrap (by decide)
  have hid' : (s.enterTrap r Syscall.mqUnlink.number [id]).messagequeues.byId
      ((s.enterTrap r Syscall.mqUnlink.number [id]).syscallArgs r 0) = some q := by
    rw [harg]
    exact hid
  obtain ⟨pool,_,hok⟩ := internalMqUnlink_eq h' hid' hnil
  refine ⟨_,step_resumes (c := .mqUnlink) hcan.running hcan.up hcan.user rfl hok hcan.running
    hcan.up rfl,Function.update_self _ _ _,?_⟩
  exact fun hm => absurd rfl (h.messagequeues.objectsNodup.mem_erase_iff.mp hm).1

theorem destroy_unused (h : Inv s) (hs : s.holdings.Clean) (hcan : s.CanCall r)
    (hid : s.resources.byId id = some o) (hno : s.resources.Unused s.Alive o) :
    ∃ t, s.step (.call Syscall.destroyResource.number [id]) = .ok t ∧ t.syscallRetvalue r = 0 ∧
      o ∉ t.resources.objectsList := by
  have hnil := hs.resources.unused h.resources (DescriptorLayer.byId_eq_some hid).1 hno
  have harg : (s.enterTrap r Syscall.destroyResource.number [id]).syscallArgs r 0 = id :=
    syscallArgs_enterTrap (by decide)
  have hid' : (s.enterTrap r Syscall.destroyResource.number [id]).resources.byId
      ((s.enterTrap r Syscall.destroyResource.number [id]).syscallArgs r 0) = some o := by
    rw [harg]
    exact hid
  have hdestroy := DescriptorLayer.destroyObject_eq resourceErrors hid' hnil
  have hok : (s.enterTrap r Syscall.destroyResource.number [id]).internalDestroyResource r =
      .ok ({ s.enterTrap r Syscall.destroyResource.number [id] with
        resources := s.resources.destroyed o }.setRetvalue r 0) := by
    simp only [internalDestroyResource_layer,hdestroy,ok_bind]
    rfl
  refine ⟨_,step_resumes (c := .destroyResource) hcan.running hcan.up hcan.user rfl hok
    hcan.running hcan.up rfl,Function.update_self _ _ _,?_⟩
  exact fun hm => absurd rfl (h.resources.objectsNodup.mem_erase_iff.mp hm).1

end Kernel

/-- An exit releases everything the process holds exactly if its parent waits for it or
it holds no descriptors. Along the runs in which every exit does, nothing is left of
those that have exited, so what nobody alive has open can be unlinked or destroyed. -/
theorem exit_releases {s : Kernel} (hs : Reachable s) :
    (∀ r args t, s.running = some r → s.step (.call dsosCallExit args) = .ok t →
      (s.ReleasedAll t r ↔ s.ExitReleases r)) ∧
    (ReachableUnder Kernel.ExitsRelease s → s.NothingLeft ∧
      (∀ a t, s.step a = .ok t → (t.NothingLeft ↔ s.ExitsRelease a)) ∧
      (∀ r id q, s.CanCall r → s.messagequeues.byId id = some q →
        s.messagequeues.Unused s.Alive q → ∃ t, s.step (.call Syscall.mqUnlink.number [id]) = .ok t ∧
          t.syscallRetvalue r = 0 ∧ q ∉ t.messagequeues.objectsList) ∧
      ∀ r id o, s.CanCall r → s.resources.byId id = some o →
        s.resources.Unused s.Alive o → ∃ t, s.step (.call Syscall.destroyResource.number [id]) = .ok t ∧
          t.syscallRetvalue r = 0 ∧ o ∉ t.resources.objectsList) := by
  have h := hs.inv
  constructor
  · intro r args t hr hstep
    have hm := Kernel.step_moves h hstep
    exact (hm.holdings h).releasedAll_iff h (hm.inv h) hr
  · intro hunder
    have hclean : s.holdings.Clean := by
      refine Transitions.Reach.invariant_within (I := fun s => s.holdings.Clean)
        (fun _ => Reachable.inv) ?_ ?_ hunder
      · rintro s ⟨function,args,logFile,chars,ints,hok⟩
        obtain ⟨p,pool,hb,hsw⟩ := Kernel.startFirstProcess_ok hok
        obtain ⟨hfree,_,hal⟩ := Pool.getBlock_eq_some hb
        rw [hsw.holdings,Kernel.holdings_withInit]
        have hcold : (Kernel.cold function args logFile chars ints).holdings.Clean :=
          ⟨DescriptorLayer.held_initial,DescriptorLayer.held_initial⟩
        exact hcold.create hfree List.not_mem_nil hal
      · intro s a t h hclean hguard hstep
        exact (((Kernel.step_moves h hstep).holdings h).clean_iff h hclean).mpr hguard
    refine ⟨(Kernel.nothingLeft_iff h).mpr hclean,?_,?_,?_⟩
    · intro a t hstep
      have hm := Kernel.step_moves h hstep
      rw [Kernel.nothingLeft_iff (hm.inv h)]
      exact (hm.holdings h).clean_iff h hclean
    · exact fun r id q hcan hid hno => Kernel.unlink_unused h hclean hcan hid hno
    · exact fun r id o hcan hid hno => Kernel.destroy_unused h hclean hcan hid hno

/-- Init waits for its child, which has a queue open and exits. -/
theorem exit_releases_run : ∃ s t : Kernel, s.messagequeues.descriptors 1 = [0] ∧
    s.step (.call dsosCallExit [7]) = .ok t ∧ s.ReleasedAll t 1 ∧ s.NothingLeft := by
  obtain ⟨s,hs,hcheck⟩ := exists_run Kernel.ExitsRelease
    [.call 5 [1,0],.ret,.call 3 [1,0],.call 10 [0,0,20,2,1],.ret]
    (fun s => s.running = some 1 && s.messagequeues.descriptors 1 = [0] && s.ExitReleases 1 &&
      s.after (.call dsosCallExit [7]) (fun _ => true)) (by decide)
  simp only [Bool.and_eq_true,decide_eq_true_eq] at hcheck
  obtain ⟨⟨⟨hr,hd⟩,hreleases⟩,hafter⟩ := hcheck
  obtain ⟨t,hexit,_⟩ := Kernel.after_eq_true hafter
  obtain ⟨hall,hunder⟩ := exit_releases hs.reachable
  exact ⟨s,t,hd,hexit,(hall 1 [7] t hr hexit).mpr hreleases,(hunder hs).1⟩

/-- The child exits with a queue open while init is ready, and its descriptor stays. -/
theorem exit_keeps_descriptors : ¬ ∀ (s : Kernel) (r : ℕ) (args : List ℤ) (t : Kernel), Reachable s →
    s.running = some r → s.step (.call dsosCallExit args) = .ok t → s.ReleasedAll t r := by
  intro hclaim
  obtain ⟨s,hs,hcheck⟩ := exists_run Transitions.unguarded
    [.call 5 [1,0],.ret,.tick,.call 10 [0,0,20,2,1],.ret]
    (fun s => s.running = some 1 && s.messagequeues.descriptors 1 = [0] &&
      s.after (.call dsosCallExit [7])
        (fun t => t.messagequeues.descriptorAllocator.Allocated 0)) (by decide)
  simp only [Bool.and_eq_true,decide_eq_true_eq] at hcheck
  obtain ⟨⟨hr,hd⟩,hafter⟩ := hcheck
  obtain ⟨t,hexit,hstill⟩ := Kernel.after_eq_true hafter
  rw [decide_eq_true_eq] at hstill
  have hgone := (hclaim s 1 [7] t hs hr hexit).messagequeues.blocks 0
  rw [hd] at hgone
  exact hgone List.mem_cons_self hstill

end DisastrOS
