import DisastrOS.Behaviour.Kinship

/-! # Following a process through a run

A block may hold one process after the other, so a process is named by its block and
its identifier. What is on record about a process and its child stays there until
one of the two is gone.
-/
namespace DisastrOS

namespace Kin

/-- The block `p` holds the process with this identifier. -/
def Lives (k : Kin) (p : ℕ) (pid : ℤ) : Prop := k.pcbs.Allocated p ∧ k.pid p = pid

/-- The block `p` holds the process with this identifier, which has not exited. -/
def Alive (k : Kin) (p : ℕ) (pid : ℤ) : Prop := k.Lives p pid ∧ p ∉ k.zombies

/-- The process `c` is on the children list of `p`, which its parent field names. -/
def HasChild (k : Kin) (p c : ℕ) : Prop :=
  (∃ x ∈ k.children p, k.childPcb x = c) ∧ k.parent c = some p

variable {k : Kin} {i r p q c x d : ℕ} {pid v : ℤ} {pool : Pool maxNumProcesses}

/-- A process that is not the newest one is not new. -/
theorem Lives.of_create (hal : ∀ j, pool.Allocated j ↔ j = p ∨ k.pcbs.Allocated j)
    (hlt : pid < k.lastPid) (hq : (k.create r p pool x).Lives q pid) : q ≠ p ∧ k.Lives q pid := by
  obtain ⟨hqA,hqpid⟩ := hq
  by_cases hqp : q = p
  · subst hqp
    have hnew : (k.create r q pool x).pid q = k.lastPid := Function.update_self _ _ _
    omega
  · have hsame : (k.create r p pool x).pid q = k.pid q := Function.update_of_ne hqp _ _
    exact ⟨hqp,((hal q).mp hqA).resolve_left hqp,hsame.symm.trans hqpid⟩

theorem Lives.of_restart (hal : ∀ j, pool.Allocated j ↔ j = p ∨ k.pcbs.Allocated j)
    (hlt : pid < k.lastPid) (hq : (k.restart p pool).Lives q pid) : q ≠ p ∧ k.Lives q pid :=
  Lives.of_create (r := 0) (x := 0) hal hlt hq

theorem Lives.of_release (hd : k.pcbs.Allocated d) (hp : (k.release q x d).Lives p pid) :
    p ≠ d ∧ k.Lives p pid := by
  obtain ⟨hpd,hpA⟩ := (Pool.allocated_releaseBlock hd p).mp hp.1
  exact ⟨hpd,hpA,hp.2⟩

theorem HasChild.create (h : k.HasChild p c) (hp : p ≠ d) (hc : c ≠ d)
    (hx : x ∉ k.children p) : (k.create r d pool x).HasChild p c := by
  obtain ⟨⟨y,hy,hyc⟩,hpar⟩ := h
  have hyx : y ≠ x := by
    rintro rfl
    exact hx hy
  refine ⟨⟨y,?_,(Function.update_of_ne hyx _ _).trans hyc⟩,?_⟩
  · by_cases hpr : p = r
    · subst hpr
      have hch : (k.create p d pool x).children p = listAppend (k.children p) x := by
        simp [Kin.create,hp]
      rw [hch]
      exact mem_listAppend.mpr (Or.inl hy)
    · have hch : (k.create r d pool x).children p = k.children p :=
        (Function.update_of_ne hpr _ _).trans (Function.update_of_ne hp _ _)
      rwa [hch]
  · exact ((Function.update_of_ne hc _ _).trans (Function.update_of_ne hc _ _)).trans hpar

theorem HasChild.restart (h : k.HasChild p c) (hp : p ≠ d) (hc : c ≠ d) :
    (k.restart d pool).HasChild p c := by
  obtain ⟨⟨y,hy,hyc⟩,hpar⟩ := h
  have hch : (k.restart d pool).children p = k.children p := Function.update_of_ne hp _ _
  exact ⟨⟨y,by rwa [hch],hyc⟩,(Function.update_of_ne hc _ _).trans hpar⟩

theorem HasChild.exit (h : k.HasChild p c) (hp : p ≠ r) : (k.exit i r v).HasChild p c := by
  obtain ⟨⟨y,hy,hyc⟩,hpar⟩ := h
  exact ⟨⟨y,(mem_handedOver hp).mpr (Or.inl hy),hyc⟩,hpar⟩

theorem HasChild.release (h : k.HasChild p c) (hc : c ≠ d) (hx : k.childPcb x = d) :
    (k.release q x d).HasChild p c := by
  obtain ⟨⟨y,hy,hyc⟩,hpar⟩ := h
  have hyx : y ≠ x := by
    rintro rfl
    exact hc (hyc.symm.trans hx)
  refine ⟨⟨y,?_,hyc⟩,hpar⟩
  by_cases hpq : p = q
  · subst hpq
    have hch : (k.release p x d).children p = (k.children p).erase x := Function.update_self _ _ _
    rw [hch]
    exact (List.mem_erase_of_ne hyx).mpr hy
  · have hch : (k.release q x d).children p = k.children p := Function.update_of_ne hpq _ _
    rwa [hch]

end Kin

namespace Kernel
variable {s t : Kernel} {a : Action} {p c : ℕ} {pid kp kc : ℤ}

theorem KinMove.lastPid_le (hm : KinMove s a t) : s.kin.lastPid ≤ t.kin.lastPid := by
  have hnew : s.kin.lastPid ≤ s.kin.lastPid + 1 := by omega
  have hold : ∀ k : Kin, t.kin = k → s.kin.lastPid ≤ k.lastPid → s.kin.lastPid ≤ t.kin.lastPid := by
    rintro k rfl hle
    exact hle
  have hle := Int.le_refl s.kin.lastPid
  cases hm with
  | other _ hk => exact hold _ hk hle
  | create _ _ _ _ hk => exact hold _ hk hnew
  | noChild _ _ hk => exact hold _ hk hle
  | reap _ _ _ hk => exact hold _ hk hle
  | block _ _ _ hk => exact hold _ hk hle
  | collect _ _ _ _ _ _ _ _ _ hk => exact hold _ hk hle
  | replace _ _ _ _ _ _ hk => exact hold _ hk hle
  | restart _ _ hk => exact hold _ hk hnew

/-- A process that is there after a step and is not the newest was there before, and
was not a zombie if it is none. -/
theorem KinMove.lives_back (h : Inv s) (hm : KinMove s a t) (hlt : pid < s.lastPid)
    (ht : t.kin.Lives p pid) :
    s.kin.Lives p pid ∧ (p ∈ s.kin.zombies → p ∈ t.kin.zombies) := by
  cases hm with
  | other _ hk => rw [hk] at ht ⊢; exact ⟨ht,id⟩
  | noChild _ _ hk => rw [hk] at ht ⊢; exact ⟨ht,id⟩
  | block _ _ _ hk => rw [hk] at ht ⊢; exact ⟨ht,id⟩
  | create _ _ hb _ hk =>
    rw [hk] at ht ⊢
    exact ⟨(Kin.Lives.of_create (Pool.getBlock_eq_some hb).2.2 hlt ht).2,id⟩
  | restart _ hb hk =>
    rw [hk] at ht ⊢
    exact ⟨(Kin.Lives.of_restart (Pool.getBlock_eq_some hb).2.2 hlt ht).2,id⟩
  | @reap args r x t hr hx hz hk =>
    have hxm := awaitedEntry_mem (s := s.enterTrap r dsosCallWait args) hx
    have hc := h.family.childAllocated r (h.running_allocated hr) x hxm
    rw [hk] at ht ⊢
    obtain ⟨hpd,hp⟩ := Kin.Lives.of_release hc ht
    exact ⟨hp,fun hz => (List.mem_erase_of_ne hpd).mpr hz⟩
  | @collect args r i p' x v t hr hi hir hp' hv hin hsat hx hxr hk =>
    rw [hk] at ht ⊢
    obtain ⟨hpd,hp⟩ := Kin.Lives.of_release (h.running_allocated hr) ht
    refine ⟨hp,fun hz => (List.mem_erase_of_ne hpd).mpr ?_⟩
    exact mem_listAppend.mpr (Or.inl hz)
  | replace hr hi hir hp' hv hsat hk =>
    rw [hk] at ht ⊢
    exact ⟨ht,fun hz => mem_listAppend.mpr (Or.inl hz)⟩

theorem KinMove.alive_back (h : Inv s) (hm : KinMove s a t) (hlt : pid < s.lastPid)
    (ht : t.kin.Alive p pid) : s.kin.Alive p pid := by
  obtain ⟨hlives,hzombie⟩ := hm.lives_back h hlt ht.1
  exact ⟨hlives,fun hz => ht.2 (hzombie hz)⟩

/-- As long as both are there, and the parent has not exited, a child stays a child. -/
theorem KinMove.hasChild (h : Inv s) (hm : KinMove s a t) (hkp : kp < s.lastPid)
    (hkc : kc < s.lastPid) (hp : t.kin.Alive p kp) (hc : t.kin.Lives c kc)
    (hs : s.kin.HasChild p c) : t.kin.HasChild p c := by
  have hpA := (hm.lives_back h hkp hp.1).1.1
  have hcA := (hm.lives_back h hkc hc).1.1
  cases hm with
  | other _ hk => exact hk ▸ hs
  | noChild _ _ hk => exact hk ▸ hs
  | block _ _ _ hk => exact hk ▸ hs
  | create _ _ hb hx hk =>
    rw [hk]
    refine hs.create (Pool.ne_of_getBlock hb hpA) (Pool.ne_of_getBlock hb hcA) ?_
    intro hm
    exact (Pool.getBlock_eq_some hx).1 (h.family.entry p hpA _ hm)
  | restart _ hb hk =>
    rw [hk]
    exact hs.restart (Pool.ne_of_getBlock hb hpA) (Pool.ne_of_getBlock hb hcA)
  | @reap args r x t hr hx hz hk =>
    have hxm := awaitedEntry_mem (s := s.enterTrap r dsosCallWait args) hx
    have hd := h.family.childAllocated r (h.running_allocated hr) x hxm
    rw [hk] at hc ⊢
    exact hs.release (Kin.Lives.of_release hd hc).1 rfl
  | @collect args r i q x v t hr hi hir hq hv hin hsat hx hxr hk =>
    have hrA := h.running_allocated hr
    rw [hk] at hc hp ⊢
    have hpr := (Kin.Lives.of_release (k := s.kin.exit i r v) hrA hp.1).1
    exact (hs.exit hpr).release (Kin.Lives.of_release (k := s.kin.exit i r v) hrA hc).1 hxr
  | @replace args r i q v t hr hi hir hq hv hsat hk =>
    rw [hk] at hp ⊢
    refine hs.exit ?_
    rintro rfl
    exact hp.2 (mem_listAppend.mpr (Or.inr rfl))

/-- A zombie that is still there has kept its value. -/
theorem KinMove.zombie (h : Inv s) (hm : KinMove s a t) (hlt : pid < s.lastPid)
    (hc : t.kin.Lives c pid) (hs : c ∈ s.kin.zombies) :
    c ∈ t.kin.zombies ∧ t.kin.returnValue c = s.kin.returnValue c := by
  refine ⟨(hm.lives_back h hlt hc).2 hs,?_⟩
  have hcA := (hm.lives_back h hlt hc).1.1
  have hrun : ∀ r, s.running = some r → c ≠ r := by
    rintro r hr rfl
    exact h.not_zombie_running hr hs
  cases hm with
  | other _ hk => rw [hk]
  | noChild _ _ hk => rw [hk]
  | block _ _ _ hk => rw [hk]
  | reap _ _ _ hk => rw [hk]; rfl
  | @create num args r d x pool entries t ha hr hb hx hk =>
    have hcd := Pool.ne_of_getBlock hb hcA
    rw [hk]
    exact Function.update_of_ne hcd _ _
  | @restart d pool t hr hb hk =>
    have hcd := Pool.ne_of_getBlock hb hcA
    rw [hk]
    exact Function.update_of_ne hcd _ _
  | collect hr _ _ _ _ _ _ _ _ hk =>
    rw [hk]
    exact Function.update_of_ne (hrun _ hr) _ _
  | replace hr _ _ _ _ _ hk =>
    rw [hk]
    exact Function.update_of_ne (hrun _ hr) _ _

/-- A process that waits for a child goes on waiting until that child is gone. -/
theorem KinMove.stillInWait (h : Inv s) (hm : KinMove s a t) (hlt : kc < s.lastPid)
    (hc : t.kin.Lives c kc) (hpos : kc ≠ 0) (hs : s.InWait p) (harg : s.syscallArgs p 0 = kc) :
    t.InWait p ∧ t.syscallArgs p = s.syscallArgs p := by
  have hcold := (hm.lives_back h hlt hc).1
  have hsame : SameWaits s t none → t.InWait p ∧ t.syscallArgs p = s.syscallArgs p :=
    fun hw => ⟨(hw.inWait p nofun).mpr hs,hw.args p hs⟩
  cases hm with
  | other _ _ hw => exact hsame hw
  | create _ _ _ _ _ hw => exact hsame hw
  | noChild _ _ _ hw => exact hsame hw
  | reap _ _ _ _ hw => exact hsame hw
  | replace _ _ _ _ _ _ _ hw => exact hsame hw
  | restart _ _ _ hw => exact hsame hw
  | @block args r x t hr hx hz hk hw hin hargs =>
    have hne : some r ≠ some p := by
      intro he
      cases he
      exact not_inWait_running h hr hs
    exact ⟨(hw.inWait p hne).mpr hs,hw.args p hs⟩
  | @collect args r i q x v t hr hi hir hq hv hin hsat hx hxr hk hw hout =>
    have hrA := h.running_allocated hr
    have hne : some q ≠ some p := by
      intro he
      cases he
      have hpid : s.pid r = kc := by
        rcases hsat with h0 | hpid
        · exact absurd (harg.symm.trans h0) hpos
        · exact hpid.symm.trans harg
      rw [hk] at hc
      have hcr := (Kin.Lives.of_release (k := s.kin.exit i r v) hrA hc).1
      exact hcr (h.identity.injective c r hcold.1 hrA (hcold.2.trans hpid.symm))
    exact ⟨(hw.inWait p hne).mpr hs,hw.args p hs⟩

/-- The parent field is written when the process is created. -/
theorem KinMove.parent (h : Inv s) (hm : KinMove s a t) (hlt : pid < s.lastPid)
    (hc : t.kin.Lives c pid) : t.kin.parent c = s.kin.parent c := by
  have hcA := (hm.lives_back h hlt hc).1.1
  cases hm with
  | @create num args r d x pool entries t ha hr hb hx hk =>
    have hcd := Pool.ne_of_getBlock hb hcA
    rw [hk]
    exact (Function.update_of_ne hcd _ _).trans (Function.update_of_ne hcd _ _)
  | @restart d pool t hr hb hk =>
    have hcd := Pool.ne_of_getBlock hb hcA
    rw [hk]
    exact Function.update_of_ne hcd _ _
  | other _ hk => rw [hk]
  | noChild _ _ hk => rw [hk]
  | block _ _ _ hk => rw [hk]
  | reap _ _ _ hk => rw [hk]; rfl
  | collect _ _ _ _ _ _ _ _ _ hk => rw [hk]; rfl
  | replace _ _ _ _ _ _ hk => rw [hk]; rfl

section Later

/-- The rule for what is on record about a process that is not the newest. -/
theorem record_later {I : Kernel → Prop} {pid : ℤ}
    (hstep : ∀ s a t, Inv s → KinMove s a t → pid < s.lastPid → I s → I t) {s t : Kernel}
    (hst : Transitions.Later system s t) (hs : Reachable s) (hlt : pid < s.lastPid) (hI : I s) :
    pid < t.lastPid ∧ I t := by
  refine Transitions.Later.preserves (I := fun u => pid < u.lastPid ∧ I u) ?_ hst hs ⟨hlt,hI⟩
  intro u a u' hu hIu hstep'
  have hinv := Reachable.inv hu
  have hm := (step_moves hinv hstep').kin hinv
  exact ⟨Int.lt_of_lt_of_le hIu.1 hm.lastPid_le,hstep u a u' hinv hm hIu.1 hIu.2⟩

variable (hst : Transitions.Later system s t) (hs : Reachable s)
include hst hs

theorem lastPid_later (hlt : pid < s.lastPid) : pid < t.lastPid :=
  (record_later (I := fun _ => True) (fun _ _ _ _ _ _ _ => trivial) hst hs hlt trivial).1

theorem lives_of_later (hlt : pid < s.lastPid) (ht : t.kin.Lives p pid) : s.kin.Lives p pid := by
  by_contra hnot
  refine (record_later (I := fun u => ¬ u.kin.Lives p pid) ?_ hst hs hlt hnot).2 ht
  intro u a u' hu hm hlt' hnone hlives
  exact hnone (hm.lives_back hu hlt' hlives).1

theorem alive_of_later (hlt : pid < s.lastPid) (ht : t.kin.Alive p pid) : s.kin.Alive p pid := by
  by_contra hnot
  refine (record_later (I := fun u => ¬ u.kin.Alive p pid) ?_ hst hs hlt hnot).2 ht
  intro u a u' hu hm hlt' hnone halive
  exact hnone (hm.alive_back hu hlt' halive)

theorem hasChild_later (hkp : kp < s.lastPid) (hkc : kc < s.lastPid) (hp : t.kin.Alive p kp)
    (hc : t.kin.Lives c kc) (hchild : s.kin.HasChild p c) : t.kin.HasChild p c := by
  refine (record_later (I := fun u => kc < u.lastPid ∧ (u.kin.Alive p kp → u.kin.Lives c kc →
    u.kin.HasChild p c)) ?_ hst hs hkp ⟨hkc,fun _ _ => hchild⟩).2.2 hp hc
  intro u a u' hu hm hlt hrec
  refine ⟨Int.lt_of_lt_of_le hrec.1 hm.lastPid_le,?_⟩
  intro hp' hc'
  exact hm.hasChild hu hlt hrec.1 hp' hc'
    (hrec.2 (hm.alive_back hu hlt hp') (hm.lives_back hu hrec.1 hc').1)

theorem zombie_later (hlt : pid < s.lastPid) (ht : t.kin.Lives c pid) (hz : c ∈ s.kin.zombies) :
    c ∈ t.kin.zombies ∧ t.kin.returnValue c = s.kin.returnValue c := by
  refine (record_later (I := fun u => u.kin.Lives c pid → c ∈ u.kin.zombies ∧
    u.kin.returnValue c = s.kin.returnValue c) ?_ hst hs hlt (fun _ => ⟨hz,rfl⟩)).2 ht
  intro u a u' hu hm hlt' hrec hlives
  obtain ⟨hzu,hval⟩ := hrec (hm.lives_back hu hlt' hlives).1
  obtain ⟨hz',hval'⟩ := hm.zombie hu hlt' hlives hzu
  exact ⟨hz',hval'.trans hval⟩

theorem parent_later (hlt : pid < s.lastPid) (ht : t.kin.Lives c pid) :
    t.kin.parent c = s.kin.parent c := by
  refine (record_later (I := fun u => u.kin.Lives c pid → u.kin.parent c = s.kin.parent c) ?_ hst
    hs hlt (fun _ => rfl)).2 ht
  intro u a u' hu hm hlt' hrec hlives
  exact (hm.parent hu hlt' hlives).trans (hrec (hm.lives_back hu hlt' hlives).1)

theorem inWait_later (hlt : pid < s.lastPid) (hpos : pid ≠ 0) (ht : t.kin.Lives c pid)
    (hp : s.InWait p) (harg : s.syscallArgs p 0 = pid) :
    t.InWait p ∧ t.syscallArgs p = s.syscallArgs p := by
  refine (record_later (I := fun u => u.kin.Lives c pid → u.InWait p ∧
    u.syscallArgs p = s.syscallArgs p) ?_ hst hs hlt (fun _ => ⟨hp,rfl⟩)).2 ht
  intro u a u' hu hm hlt' hrec hlives
  obtain ⟨hpu,hargs⟩ := hrec (hm.lives_back hu hlt' hlives).1
  have harg' : u.syscallArgs p 0 = pid := (congrFun hargs 0).trans harg
  obtain ⟨hpu',hargs'⟩ := hm.stillInWait hu hlt' hlives hpos hpu harg'
  exact ⟨hpu',hargs'.trans hargs⟩

end Later

end Kernel

end DisastrOS
