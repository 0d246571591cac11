import DisastrOS.Behaviour.Kinship

/-! # What a step does to the descriptors of the processes

The part of the state that says which processes are alive and which descriptors they
hold. Only the branch of an exit that wakes the parent releases descriptors that the
process has not closed itself.
-/
namespace DisastrOS

namespace DescriptorLayer
variable {L L' : DescriptorLayer} {A alive alive' : ℕ → Prop} {p o : ℕ}

/-- Every descriptor is on the list of such a process. -/
def Held (L : DescriptorLayer) (alive : ℕ → Prop) : Prop :=
  ∀ d, L.descriptorAllocator.Allocated d → ∃ p, alive p ∧ d ∈ L.descriptors p

/-- No such process has a descriptor of the object. -/
def Unused (L : DescriptorLayer) (alive : ℕ → Prop) (o : ℕ) : Prop :=
  ∀ p, alive p → ∀ d ∈ L.descriptors p, L.object d ≠ o

/-- Of the descriptors that `p` has in `L`, nothing is left in `L'`. -/
structure Gone (L L' : DescriptorLayer) (p : ℕ) : Prop where
  blocks : ∀ d ∈ L.descriptors p, ¬ L'.descriptorAllocator.Allocated d
  ptrBlocks : ∀ d ∈ L.descriptors p, ¬ L'.descriptorPtrAllocator.Allocated (L.ptr d)
  entries : ∀ d ∈ L.descriptors p, ∀ o ∈ L'.objectsList, L.ptr d ∉ L'.descriptorsPtrs o

theorem held_initial : initial.Held alive := by
  intro d hd
  simp [initial] at hd

theorem Held.keep (h : L.Held alive) (hk : L.Keeps L' alive) : L'.Held alive := by
  intro d hd
  rcases hk d hd with hnew | ⟨hold,hkept⟩
  · exact hnew
  · obtain ⟨p,hp,hdp⟩ := h d hold
    exact ⟨p,hp,hkept p hdp⟩

theorem held_congr (halive : ∀ q, alive' q ↔ alive q) : L.Held alive' ↔ L.Held alive := by
  have heq : alive' = alive := by
    funext q
    exact propext (halive q)
  rw [heq]

/-- The list that a new process starts with held no descriptor of a living one. -/
theorem Held.initProcess (h : L.Held alive) (hp : ¬ alive p)
    (halive : ∀ q, alive' q ↔ q = p ∨ alive q) : (L.initProcess p).Held alive' := by
  intro d hd
  obtain ⟨q,hq,hdq⟩ := h d hd
  have hqp : q ≠ p := by
    rintro rfl
    exact hp hq
  refine ⟨q,(halive q).mpr (Or.inr hq),?_⟩
  have hsame : (L.initProcess p).descriptors q = L.descriptors q := Function.update_of_ne hqp _ _
  rw [hsame]
  exact hdq

theorem Held.released (h : L.Held alive) (hr : L.Released L' p)
    (halive : ∀ q, alive' q ↔ alive q ∧ q ≠ p) : L'.Held alive' := by
  intro d hd
  obtain ⟨hold,hnot⟩ := (hr.allocated d).mp hd
  obtain ⟨q,hq,hdq⟩ := h d hold
  have hqp : q ≠ p := by
    rintro rfl
    exact hnot hdq
  refine ⟨q,(halive q).mpr ⟨hq,hqp⟩,?_⟩
  rw [hr.others q hqp]
  exact hdq

/-- A process that is not alive any more must not hold anything. -/
theorem held_without (h : L.Held alive) (hL : L.Linked A) (hp : A p) (hA : ∀ q, alive q → A q)
    (halive : ∀ q, alive' q ↔ alive q ∧ q ≠ p) : L.Held alive' ↔ L.descriptors p = [] := by
  constructor
  · intro h'
    apply List.eq_nil_iff_forall_not_mem.mpr
    intro d hd
    obtain ⟨hdA,hpcb⟩ := hL.owned p hp d hd
    obtain ⟨q,hq,hdq⟩ := h' d hdA
    obtain ⟨hqalive,hqp⟩ := (halive q).mp hq
    exact hqp ((hL.owned q (hA q hqalive) d hdq).2.symm.trans hpcb)
  · intro hnil d hd
    obtain ⟨q,hq,hdq⟩ := h d hd
    refine ⟨q,(halive q).mpr ⟨hq,?_⟩,hdq⟩
    rintro rfl
    rw [hnil] at hdq
    cases hdq

/-- An object that nobody alive uses has no entries. -/
theorem Held.unused (h : L.Held alive) (hL : L.Linked A) (ho : o ∈ L.objectsList)
    (hno : L.Unused alive o) : L.descriptorsPtrs o = [] := by
  apply List.eq_nil_iff_forall_not_mem.mpr
  intro x hx
  obtain ⟨_,hdA,_,hobj⟩ := hL.entry o ho x hx
  obtain ⟨p,hp,hdp⟩ := h _ hdA
  exact hno p hp _ hdp hobj

theorem Released.gone (hr : L.Released L' p) : L.Gone L' p where
  blocks d hd hal := ((hr.allocated d).mp hal).2 hd
  ptrBlocks d hd hal := ((hr.ptrAllocated _).mp hal).2 d hd rfl
  entries d hd o ho hx := by
    rw [hr.objectsList] at ho
    exact ((hr.ptrs o ho _).mp hx).2 d hd rfl

theorem gone_self_iff (hL : L.Linked A) (hp : A p) : L.Gone L p ↔ L.descriptors p = [] := by
  constructor
  · intro h
    apply List.eq_nil_iff_forall_not_mem.mpr
    intro d hd
    exact h.blocks d hd (hL.owned p hp d hd).1
  · intro hnil
    constructor <;> simp [hnil]

end DescriptorLayer

def Action.isExit : Action → Bool
  | .call num _ => num = dsosCallExit
  | _ => false

/-- The part of the state that says who is alive and who holds which descriptors. -/
structure Holdings where
  pcbs : Pool maxNumProcesses
  zombies : List ℕ
  resources : DescriptorLayer
  messagequeues : DescriptorLayer

namespace Holdings

/-- The process exists and has not exited. -/
def Alive (k : Holdings) (p : ℕ) : Prop := k.pcbs.Allocated p ∧ p ∉ k.zombies

/-- Only processes that are alive hold descriptors. -/
structure Clean (k : Holdings) : Prop where
  resources : k.resources.Held k.Alive
  messagequeues : k.messagequeues.Held k.Alive

def create (k : Holdings) (p : ℕ) (pool : Pool maxNumProcesses) : Holdings :=
  ⟨pool,k.zombies,k.resources.initProcess p,k.messagequeues.initProcess p⟩

def reap (k : Holdings) (c : ℕ) : Holdings :=
  { k with pcbs := k.pcbs.releaseBlock c, zombies := k.zombies.erase c }

def exit (k : Holdings) (r : ℕ) : Holdings := { k with zombies := listAppend k.zombies r }

def withLayers (k : Holdings) (L M : DescriptorLayer) : Holdings :=
  { k with resources := L, messagequeues := M }

variable {k : Holdings} {p c r : ℕ} {L M : DescriptorLayer}

theorem Clean.withLayers (h : k.Clean) (hL : k.resources.Keeps L k.Alive)
    (hM : k.messagequeues.Keeps M k.Alive) : (k.withLayers L M).Clean :=
  ⟨h.resources.keep hL,h.messagequeues.keep hM⟩

theorem Clean.create (h : k.Clean) {pool : Pool maxNumProcesses} (hp : ¬ k.pcbs.Allocated p)
    (hz : p ∉ k.zombies) (hal : ∀ j, pool.Allocated j ↔ j = p ∨ k.pcbs.Allocated j) :
    (k.create p pool).Clean := by
  have halive : ∀ q, (k.create p pool).Alive q ↔ q = p ∨ k.Alive q := by
    intro q
    constructor
    · rintro ⟨hq,hqz⟩
      exact ((hal q).mp hq).imp_right (fun hq => ⟨hq,hqz⟩)
    · rintro (rfl | ⟨hq,hqz⟩)
      · exact ⟨(hal q).mpr (Or.inl rfl),hz⟩
      · exact ⟨(hal q).mpr (Or.inr hq),hqz⟩
  have hdead : ¬ k.Alive p := fun hp' => hp hp'.1
  exact ⟨h.resources.initProcess hdead halive,h.messagequeues.initProcess hdead halive⟩

/-- A zombie that is reaped was not alive before. -/
theorem alive_reap (hZ : k.zombies.Nodup) (hc : c ∈ k.zombies) (hcA : k.pcbs.Allocated c) (q : ℕ) :
    (k.reap c).Alive q ↔ k.Alive q := by
  have hal := Pool.allocated_releaseBlock hcA q
  have hz : q ∈ (k.reap c).zombies ↔ q ≠ c ∧ q ∈ k.zombies := hZ.mem_erase_iff
  constructor
  · rintro ⟨hq,hqz⟩
    obtain ⟨hqc,hq⟩ := hal.mp hq
    exact ⟨hq,fun hm => hqz (hz.mpr ⟨hqc,hm⟩)⟩
  · rintro ⟨hq,hqz⟩
    have hqc : q ≠ c := by
      rintro rfl
      exact hqz hc
    exact ⟨hal.mpr ⟨hqc,hq⟩,fun hm => hqz (hz.mp hm).2⟩

theorem clean_reap (hZ : k.zombies.Nodup) (hc : c ∈ k.zombies) (hcA : k.pcbs.Allocated c) :
    (k.reap c).Clean ↔ k.Clean := by
  have halive := alive_reap hZ hc hcA
  constructor
  · intro h
    exact ⟨(DescriptorLayer.held_congr halive).mp h.resources,
      (DescriptorLayer.held_congr halive).mp h.messagequeues⟩
  · intro h
    exact ⟨(DescriptorLayer.held_congr halive).mpr h.resources,
      (DescriptorLayer.held_congr halive).mpr h.messagequeues⟩

theorem alive_exit (q : ℕ) : (k.exit r).Alive q ↔ k.Alive q ∧ q ≠ r := by
  unfold Alive exit
  rw [mem_listAppend,not_or,and_assoc]

end Holdings

namespace Kernel

def holdings (s : Kernel) : Holdings := ⟨s.pcbAllocator,s.zombieList,s.resources,s.messagequeues⟩

/-- What a step does to the holdings. -/
inductive HoldingMove (s : Kernel) : Action → Kernel → Prop
  | other {a : Action} {L M : DescriptorLayer} {t : Kernel} (ha : a.isExit = false)
      (hL : s.resources.Keeps L s.holdings.Alive) (hM : s.messagequeues.Keeps M s.holdings.Alive)
      (hk : t.holdings = s.holdings.withLayers L M) : HoldingMove s a t
  | create {a : Action} {p : ℕ} {pool : Pool maxNumProcesses} {t : Kernel} (ha : a.isExit = false)
      (hb : s.pcbAllocator.getBlock = some (p,pool)) (hk : t.holdings = s.holdings.create p pool) :
      HoldingMove s a t
  | reap {a : Action} {c : ℕ} {t : Kernel} (ha : a.isExit = false) (hc : c ∈ s.zombieList)
      (hk : t.holdings = s.holdings.reap c) : HoldingMove s a t
  | collect {args : List ℤ} {r p : ℕ} {L M : DescriptorLayer} {t : Kernel}
      (hr : s.running = some r) (hp : s.parent r = some p) (hw : s.WaitsFor p (s.pid r))
      (hL : s.resources.Released L r) (hM : s.messagequeues.Released M r)
      (hk : t.holdings = ((s.holdings.withLayers L M).exit r).reap r) :
      HoldingMove s (.call dsosCallExit args) t
  | replace {args : List ℤ} {r p : ℕ} {t : Kernel} (hr : s.running = some r)
      (hp : s.parent r = some p) (hw : ¬ s.WaitsFor p (s.pid r))
      (hk : t.holdings = s.holdings.exit r) : HoldingMove s (.call dsosCallExit args) t

variable {s t u v : Kernel} {r p q : ℕ} {c : Syscall} {a : Action} {num : ℤ} {args : List ℤ}

theorem holdings_reaped (s : Kernel) (r x : ℕ) :
    (s.reaped r x).holdings = s.holdings.reap (s.childPcb x) := rfl

theorem holdings_collected (s : Kernel) (i r p x : ℕ) (value : ℤ) (L M : DescriptorLayer) :
    ((s.exiting i r p value).collected r p x L M).holdings =
      ((s.holdings.withLayers L M).exit r).reap r := rfl

theorem holdings_replaced (s : Kernel) (i r p next : ℕ) (value : ℤ) (rest : List ℕ) :
    ((s.exiting i r p value).replaced next rest).holdings = s.holdings.exit r := rfl

theorem holdings_withChild (s : Kernel) (r p : ℕ) (pool : Pool maxNumProcesses) (x : ℕ)
    (entries : Pool maxNumProcesses) :
    (s.withChild r p pool x entries).holdings = s.holdings.create p pool := rfl

theorem holdings_withInit (s : Kernel) (p : ℕ) (pool : Pool maxNumProcesses) :
    (s.withInit p pool).holdings = s.holdings.create p pool := rfl

theorem holdings_created (s : Kernel) (L : DescriptorLayer) (msgSize maxMsg v : ℤ) (q r : ℕ) :
    (({ s with messagequeues := L }.initQueue msgSize maxMsg q).setRetvalue r v).holdings =
      s.holdings.withLayers s.resources L := rfl

theorem holdings_unlinked (s : Kernel) (q r : ℕ) (pool : Pool maxNumMessages) (v : ℤ) :
    (({ s with messagequeues := s.messagequeues.destroyed q }.drained q pool).setRetvalue r
      v).holdings = s.holdings.withLayers s.resources (s.messagequeues.destroyed q) := rfl

@[simp] theorem holdings_setRetvalue (s : Kernel) (p : ℕ) (v : ℤ) :
    (s.setRetvalue p v).holdings = s.holdings := rfl

@[simp] theorem holdings_record (s : Kernel) (e : Event) : (s.record e).holdings = s.holdings := rfl

@[simp] theorem holdings_dispatched (s : Kernel) (next : ℕ) (rest : List ℕ) :
    (s.dispatched next rest).holdings = s.holdings := rfl

@[simp] theorem holdings_blocked (s : Kernel) (r : ℕ) : (s.blocked r).holdings = s.holdings := rfl

@[simp] theorem holdings_appended (s : Kernel) (r q m : ℕ) (pool : Pool maxNumMessages)
    (text : List UInt8) : (s.appended r q m pool text).holdings = s.holdings := rfl

@[simp] theorem holdings_removed (s : Kernel) (r q m : ℕ) (rest : List ℕ) (msgPtr : ℤ) :
    (s.removed r q m rest msgPtr).holdings = s.holdings := rfl

@[simp] theorem holdings_sizeChecked (s : Kernel) (r q : ℕ) :
    (s.sizeChecked r q).holdings = s.holdings := rfl

@[simp] theorem holdings_enterTrap (s : Kernel) (r : ℕ) (num : ℤ) (args : List ℤ) :
    (s.enterTrap r num args).holdings = s.holdings := rfl

theorem Switched.holdings (hsw : Switched v t) : t.holdings = v.holdings := by
  cases hsw <;> rfl

theorem Scheduled.holdings (hs : Scheduled s r t) : t.holdings = s.holdings := by
  cases hs with
  | stay hw => obtain ⟨⟩ := hw; rfl
  | rotate hw => obtain ⟨⟩ := hw; rfl

theorem Slept.holdings (hslept : Slept s r u) : u.holdings = s.holdings := by
  obtain ⟨⟩ := hslept
  rfl

theorem alive_running (h : Inv s) (hr : s.running = some r) : s.holdings.Alive r :=
  ⟨h.running_allocated hr,h.not_zombie_running hr⟩

/-- A step that leaves the holdings alone. -/
theorem HoldingMove.same (ha : a.isExit = false) (hk : t.holdings = s.holdings) :
    HoldingMove s a t :=
  .other ha (DescriptorLayer.Keeps.refl _ _) (DescriptorLayer.Keeps.refl _ _) hk

theorem holdings_handled (h : Inv s) (hr : s.running = some r)
    (hc : syscallVector num.toNat = some c) (he : Effect (s.enterTrap r num args) r c v)
    (hsw : Switched v t) : HoldingMove s (.call num args) t := by
  have hnum := syscallVector_eq_some hc
  have hexit : c ≠ .exit → (Action.call num args).isExit = false := by
    intro hne
    rw [hnum]
    cases c <;> first | rfl | exact absurd rfl hne
  have hsame : c ≠ .exit → v.holdings = s.holdings → HoldingMove s (.call num args) t :=
    fun hne hv => .same (hexit hne) (hsw.holdings.trans hv)
  have hmine : ∀ q, q = r → s.holdings.Alive q := by
    rintro q rfl
    exact alive_running h hr
  have hrefl := DescriptorLayer.Keeps.refl
  cases he with
  | preempt hs => exact hsame nofun hs.holdings
  | fork hb hx =>
    exact .create (hexit nofun) hb (hsw.holdings.trans (holdings_withChild _ _ _ _ _ _))
  | @spawn p x pool entries hb hx =>
    have hk := holdings_withChild (s.enterTrap r num args) r p pool x entries
    exact .create (hexit nofun) hb (hsw.holdings.trans hk)
  | @reap x hx hz =>
    have hxm := awaitedEntry_mem (s := s.enterTrap r num args) hx
    have hxA := h.family.childAllocated r (h.running_allocated hr) x hxm
    exact .reap (hexit nofun) ((h.placement.mem_zombie_iff hxA).mpr hz)
      (hsw.holdings.trans (holdings_reaped _ _ _))
  | collect hi hir hp hwakes hx hxr hL hLr hM hMr =>
    obtain rfl : num = dsosCallExit := hnum
    exact .collect hr hp ((wakesParent_iff h hr).mp hwakes) hLr hMr
      (hsw.holdings.trans (holdings_collected _ _ _ _ _ _ _ _))
  | replace hi hir hp hwakes hready =>
    obtain rfl : num = dsosCallExit := hnum
    exact .replace hr hp (fun hw => hwakes ((wakesParent_iff h hr).mpr hw))
      (hsw.holdings.trans (holdings_replaced _ _ _ _ _ _ _))
  | sleep hslept => exact hsame nofun hslept.holdings
  | sleepNext hslept => exact hsame nofun hslept.holdings
  | resource hc hL hkeep =>
    have hne : c ≠ .exit := by
      rintro rfl
      simp at hc
    exact .other (hexit hne) (hkeep.mono hmine) (hrefl _ _) hsw.holdings
  | queue hc hL hobj hkeep =>
    have hne : c ≠ .exit := by
      rintro rfl
      simp at hc
    exact .other (hexit hne) (hrefl _ _) (hkeep.mono hmine) hsw.holdings
  | createQueue hL hq hobj hkeep =>
    exact .other (hexit nofun) (hrefl _ _) (hkeep.mono hmine)
      (hsw.holdings.trans (holdings_created _ _ _ _ _ _ _))
  | @unlink q =>
    exact .other (hexit nofun) (hrefl _ _) (DescriptorLayer.keeps_destroyed _ q _)
      (hsw.holdings.trans (holdings_unlinked _ _ _ _ _))
  | block => exact hsame nofun (by simp)
  | send => exact hsame nofun (by simp)
  | receive => exact hsame nofun (by simp)
  | sendBlocks _ hslept => exact hsame nofun (by simp [hslept.holdings])
  | receiveBlocks _ _ hslept => exact hsame nofun (by simp [hslept.holdings])
  | _ => exact hsame nofun rfl

/-- Every step is one of these moves. -/
theorem Moves.holdings (h : Inv s) (hm : Moves s a t) : HoldingMove s a t := by
  cases hm with
  | tick hr hdown hs hsw => exact .same rfl (hsw.holdings.trans hs.holdings)
  | @refused r num args hr hcpu hnum =>
    refine .same ?_ rfl
    have hexit : num ≠ dsosCallExit := by
      rintro rfl
      revert hnum
      decide
    simp [Action.isExit,hexit]
  | @missing r num args t hr hdown hcpu hnum hc hsw =>
    have hexit : num ≠ dsosCallExit := by
      rintro rfl
      cases hc
    exact .same (by simp [Action.isExit,hexit]) hsw.holdings
  | handled hr hdown hcpu hnum hc he hsw => exact holdings_handled h hr hc he hsw
  | ret => exact .same rfl rfl
  | store => exact .same rfl rfl
  | resumeMain hr hdown hb hsw => exact .create rfl hb (hsw.holdings.trans (holdings_withInit _ _ _))

end Kernel

end DisastrOS
