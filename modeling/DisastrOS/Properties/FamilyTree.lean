import DisastrOS.Foundation.Forest
import DisastrOS.Properties.ChildPointers

/-! # The processes are a forest

Who owns the entry of whom: whatever is spawned, reparented, waited for or restarted, the
children lists never form a cycle, and every process is reached from one that nobody created.
-/
namespace DisastrOS
open Relation

namespace Kin

variable {k : Kin} {E : ℕ → Prop} {Z : List ℕ} {i r p q x d c : ℕ} {v : ℤ}
variable {pool : Pool maxNumProcesses}

/-- The process `p` has an entry for `c` among its children. -/
def Owns (k : Kin) (p c : ℕ) : Prop :=
  k.pcbs.Allocated p ∧ ∃ x ∈ k.children p, k.childPcb x = c

def Tree (k : Kin) : Prop := Forest.Rooted k.pcbs.Allocated k.Owns

theorem owns_create (hfam : Family k.pcbs.Allocated E k.children k.childPcb k.parent Z)
    (hr : k.pcbs.Allocated r) (hp : ¬ k.pcbs.Allocated p)
    (hal : ∀ j, pool.Allocated j ↔ j = p ∨ k.pcbs.Allocated j) (hx : ¬ E x) :
    (k.create r p pool x).Owns q c ↔ k.Owns q c ∨ q = r ∧ c = p := by
  have hrp : r ≠ p := by
    rintro rfl
    exact hp hr
  have hold : ∀ q, k.pcbs.Allocated q → ∀ y ∈ k.children q,
      Function.update k.childPcb x p y = k.childPcb y := by
    intro q hq y hy
    refine Function.update_of_ne ?_ _ _
    rintro rfl
    exact hx (hfam.entry q hq y hy)
  unfold Owns create
  simp only [hal]
  by_cases hqr : q = r
  · subst hqr
    rw [Function.update_self,Function.update_of_ne hrp]
    constructor
    · rintro ⟨_,y,hy,rfl⟩
      rcases mem_listAppend.mp hy with hy | rfl
      · exact Or.inl ⟨hr,y,hy,(hold q hr y hy).symm⟩
      · exact Or.inr ⟨rfl,Function.update_self _ _ _⟩
    · rintro (⟨_,y,hy,rfl⟩ | ⟨_,rfl⟩)
      · exact ⟨Or.inr hr,y,mem_listAppend.mpr (Or.inl hy),hold q hr y hy⟩
      · exact ⟨Or.inr hr,x,mem_listAppend.mpr (Or.inr rfl),Function.update_self _ _ _⟩
  · rw [Function.update_of_ne hqr]
    by_cases hqp : q = p
    · subst hqp
      rw [Function.update_self]
      constructor
      · rintro ⟨_,y,hy,_⟩
        cases hy
      · rintro (⟨hq,_⟩ | ⟨rfl,_⟩)
        · exact absurd hq hp
        · exact absurd rfl hqr
    · rw [Function.update_of_ne hqp]
      constructor
      · rintro ⟨hq,y,hy,rfl⟩
        have hqA := hq.resolve_left hqp
        exact Or.inl ⟨hqA,y,hy,(hold q hqA y hy).symm⟩
      · rintro (⟨hq,y,hy,rfl⟩ | ⟨rfl,_⟩)
        · exact ⟨Or.inr hq,y,hy,hold q hq y hy⟩
        · exact absurd rfl hqr

theorem owns_restart (hp : ¬ k.pcbs.Allocated p)
    (hal : ∀ j, pool.Allocated j ↔ j = p ∨ k.pcbs.Allocated j) :
    (k.restart p pool).Owns q c ↔ k.Owns q c := by
  unfold Owns restart
  simp only [hal]
  by_cases hqp : q = p
  · subst hqp
    rw [Function.update_self]
    constructor
    · rintro ⟨_,y,hy,_⟩
      cases hy
    · rintro ⟨hq,_⟩
      exact absurd hq hp
  · rw [Function.update_of_ne hqp]
    simp only [hqp,false_or]

theorem owns_exit (hi : k.pcbs.Allocated i) (hr : k.pcbs.Allocated r)
    (hir : i ≠ r ∨ k.children r = []) :
    (k.exit i r v).Owns q c ↔ q ≠ r ∧ k.Owns q c ∨ q = i ∧ k.Owns r c := by
  by_cases hnil : k.children r = []
  · have hno : ∀ c, ¬ k.Owns r c := by
      rintro c ⟨_,y,hy,_⟩
      rw [hnil] at hy
      cases hy
    have hsame : (k.exit i r v).Owns q c ↔ k.Owns q c := by
      unfold Owns exit
      rw [handedOver_nil hnil]
    rw [hsame]
    constructor
    · intro hq
      refine Or.inl ⟨?_,hq⟩
      rintro rfl
      exact hno c hq
    · rintro (⟨_,hq⟩ | ⟨_,hq⟩)
      · exact hq
      · exact absurd hq (hno c)
  · have hne := hir.resolve_right hnil
    unfold Owns exit
    by_cases hqr : q = r
    · subst hqr
      have hgone : handedOver k.children i q q = [] := by
        unfold handedOver
        rw [Function.update_of_ne hne.symm,Function.update_self]
      simp only [hgone]
      constructor
      · rintro ⟨_,y,hy,_⟩
        cases hy
      · rintro (⟨hq,_⟩ | ⟨rfl,_⟩)
        · exact absurd rfl hq
        · exact absurd rfl hne
    · simp only [mem_handedOver hqr]
      constructor
      · rintro ⟨hq,y,hy | ⟨rfl,hy⟩,rfl⟩
        · exact Or.inl ⟨hqr,hq,y,hy,rfl⟩
        · exact Or.inr ⟨rfl,hr,y,hy,rfl⟩
      · rintro (⟨_,hq,y,hy,rfl⟩ | ⟨rfl,_,y,hy,rfl⟩)
        · exact ⟨hq,y,Or.inl hy,rfl⟩
        · exact ⟨hi,y,Or.inr ⟨rfl,hy⟩,rfl⟩

theorem owns_release (hfam : Family k.pcbs.Allocated E k.children k.childPcb k.parent Z)
    (hq : k.pcbs.Allocated q) (hx : x ∈ k.children q) (hxd : k.childPcb x = d)
    (hd : k.children d = []) : (k.release q x d).Owns p c ↔ k.Owns p c ∧ c ≠ d := by
  have hdA : k.pcbs.Allocated d := hxd ▸ hfam.childAllocated q hq x hx
  have hmem : ∀ p y, k.pcbs.Allocated p →
      (y ∈ Function.update k.children q ((k.children q).erase x) p ↔ y ∈ k.children p ∧ y ≠ x) := by
    intro p y hp
    by_cases hpq : p = q
    · subst hpq
      rw [Function.update_self,(hfam.nodup p hp).mem_erase_iff,and_comm]
    · rw [Function.update_of_ne hpq]
      refine ⟨fun hy => ⟨hy,?_⟩,fun hy => hy.1⟩
      rintro rfl
      exact hpq (hfam.unique p q hp hq y hy y hx rfl).1
  unfold Owns release
  simp only [Pool.allocated_releaseBlock hdA]
  constructor
  · rintro ⟨⟨_,hp⟩,y,hy,rfl⟩
    obtain ⟨hy,hyx⟩ := (hmem p y hp).mp hy
    exact ⟨⟨hp,y,hy,rfl⟩,fun heq => hyx (hfam.unique p q hp hq y hy x hx (heq.trans hxd.symm)).2⟩
  · rintro ⟨⟨hp,y,hy,rfl⟩,hc⟩
    refine ⟨⟨?_,hp⟩,y,(hmem p y hp).mpr ⟨hy,?_⟩,rfl⟩
    · rintro rfl
      rw [hd] at hy
      cases hy
    · rintro rfl
      exact hc hxd

theorem not_owns_of_nil (hd : k.children d = []) : ¬ k.Owns d c := by
  rintro ⟨_,y,hy,_⟩
  rw [hd] at hy
  cases hy

/-- A process without a parent has no owner, and only such a process has none. -/
theorem parent_eq_none_iff (hfam : Family k.pcbs.Allocated E k.children k.childPcb k.parent Z)
    (hp : k.pcbs.Allocated p) : k.parent p = none ↔ ∀ q, ¬ k.Owns q p := by
  constructor
  · rintro hnone q ⟨hq,x,hx,rfl⟩
    exact hfam.childParent q hq x hx hnone
  · intro hno
    by_contra hpar
    obtain ⟨q,hq,x,hx,hxp⟩ := hfam.owned p hp hpar
    exact hno q ⟨hq,x,hx,hxp⟩

end Kin

namespace Kernel

variable {s t : Kernel} {a : Action} {i r : ℕ}

theorem Tree.exit {v : ℤ} (h : Inv s) (hs : s.kin.Tree) (hr : s.running = some r)
    (hi : s.initPcb = some i) (hir : i ≠ r ∨ s.children r = []) : (s.kin.exit i r v).Tree := by
  obtain ⟨j,hj,hjA,hjp⟩ := h.hasInit
  cases Option.some.inj (hj.symm.trans hi)
  have hroot : ∀ q, ¬ s.kin.Owns q i := (Kin.parent_eq_none_iff h.family hjA).mp hjp
  exact Forest.Rooted.handOver hs hjA hroot
    (fun _ _ => Kin.owns_exit hjA (h.running_allocated hr) hir)

theorem KinMove.tree (h : Inv s) (hs : s.kin.Tree) (hm : KinMove s a t) : t.kin.Tree := by
  cases hm with
  | other _ hk => exact hk ▸ hs
  | noChild _ _ hk => exact hk ▸ hs
  | block _ _ _ hk => exact hk ▸ hs
  | @create num args r p x pool entries t ha hr hb hx hk =>
    obtain ⟨hfree,_,hal⟩ := Pool.getBlock_eq_some hb
    have hrA := h.running_allocated hr
    rw [hk]
    exact Forest.Rooted.adopt hs hrA hfree hal
      (fun _ _ => Kin.owns_create h.family hrA hfree hal (Pool.getBlock_eq_some hx).1)
  | restart hr hb hk =>
    obtain ⟨hfree,_,hal⟩ := Pool.getBlock_eq_some hb
    rw [hk]
    exact Forest.Rooted.enter hs hfree hal (fun _ _ => Kin.owns_restart hfree hal)
  | @reap args r x t hr hx hz hk =>
    have hrA := h.running_allocated hr
    have hxm := awaitedEntry_mem (s := s.enterTrap r dsosCallWait args) hx
    have hc := h.family.childAllocated r hrA x hxm
    have hnil := h.family.zombieChildren _ hc ((h.placement.mem_zombie_iff hc).mpr hz)
    rw [hk]
    exact Forest.Rooted.discard hs (fun _ => Kin.not_owns_of_nil hnil)
      (Pool.allocated_releaseBlock hc) (fun _ _ => Kin.owns_release h.family hrA hxm rfl hnil)
  | @collect args r i p x v t hr hi hir hp hv hin hsat hx hxr hk =>
    have hrA := h.running_allocated hr
    have hpA := h.placement.allocated_waiting hin.1
    obtain ⟨hfam,hnil⟩ := h.family_handedOver hr hi hir
    rw [hk]
    exact Forest.Rooted.discard (Tree.exit h hs hr hi hir) (fun _ => Kin.not_owns_of_nil hnil)
      (Pool.allocated_releaseBlock hrA)
      (fun _ _ => Kin.owns_release (k := s.kin.exit i r v) hfam hpA hx hxr hnil)
  | replace hr hi hir hp hv hsat hk =>
    rw [hk]
    exact Tree.exit h hs hr hi hir

theorem disastrOSStart_tree {function args : ℤ} {logFile : Bool} {chars : ℤ → UInt8}
    {ints : ℤ → ℤ} (hok : disastrOSStart function args logFile chars ints = .ok s) :
    s.kin.Tree := by
  obtain ⟨p,pool,hb,hsw⟩ := startFirstProcess_ok hok
  obtain ⟨hfree,_,hal⟩ := Pool.getBlock_eq_some hb
  have hnobody : ∀ q, ¬ (cold function args logFile chars ints).pcbAllocator.Allocated q :=
    Pool.not_allocated_full maxNumProcesses_pos
  have hcold : (cold function args logFile chars ints).kin.Tree :=
    ⟨fun q c hq => absurd hq.1 (hnobody q),fun q o c hq => absurd hq.1 (hnobody q),
      fun q hq => absurd hq (hnobody q)⟩
  rw [hsw.kin,kin_withInit]
  exact hcold.enter hfree hal (fun _ _ => Kin.owns_restart hfree hal)

end Kernel

theorem Reachable.tree {s : Kernel} (hs : Reachable s) : s.kin.Tree := by
  refine hs.induction (P := fun s => s.kin.Tree) ?_ ?_
  · intro function args logFile chars ints s hok
    exact Kernel.disastrOSStart_tree hok
  · intro s a t h htree hstep
    exact ((Kernel.step_moves h hstep).kin h).tree h htree

theorem ReachableUnder.oneInit {s : Kernel} (hs : ReachableUnder Kernel.KeepsInit s) :
    s.kin.OneInit := by
  refine Transitions.Reach.invariant_within (I := fun s => s.kin.OneInit)
    (fun _ => Reachable.inv) ?_ ?_ hs
  · rintro s ⟨function,args,logFile,chars,ints,hok⟩
    exact Kernel.disastrOSStart_oneInit hok
  · intro s a t h hone hG hst
    exact (((Kernel.step_moves h hst).kin h).oneInit h hone).mpr hG

/-- In every reachable state the children lists make the processes a forest: nobody is the child
of two processes, each process is reached from one without a parent, and none from itself. -/
theorem processes_form_forest {s : Kernel} (hs : Reachable s) :
    (∀ p q c, s.kin.Owns p c → s.kin.Owns q c → p = q) ∧
    (∀ p, s.pcbAllocator.Allocated p → ∃ i, s.pcbAllocator.Allocated i ∧ s.parent i = none ∧
      ReflTransGen s.kin.Owns i p) ∧ ∀ p, ¬ TransGen s.kin.Owns p p := by
  have htree := hs.tree
  refine ⟨htree.unique,fun p hp => ?_,htree.acyclic⟩
  obtain ⟨i,hi,hno,hreach⟩ := htree.rooted p hp
  exact ⟨i,hi,(Kin.parent_eq_none_iff hs.inv.family hi).mpr hno,hreach⟩

/-- Init has taken over the child of the zombie `1`, which has a child of its own. It is its only
owner, and its grandchild owns neither. -/
theorem processes_form_forest_run : ∃ s : Kernel, s.zombieList = [1] ∧
    s.kin.Owns 0 2 ∧ s.kin.Owns 2 3 ∧ (∀ p, s.kin.Owns p 2 → p = 0) ∧
    ¬ ReflTransGen s.kin.Owns 3 0 ∧ ¬ s.kin.Owns 3 2 ∧
    ∀ p, s.pcbAllocator.Allocated p → ∃ i, s.pcbAllocator.Allocated i ∧ s.parent i = none ∧
      ReflTransGen s.kin.Owns i p := by
  obtain ⟨s,hs,hcheck⟩ := exists_run Transitions.unguarded
    [.call 5 [1,0],.ret,.tick,.call 5 [1,0],.ret,.tick,.tick,.call 5 [1,0],.ret,.tick,
      .call 4 [7]]
    (fun s => s.zombieList = [1] && s.pcbAllocator.Allocated 0 && s.pcbAllocator.Allocated 2 &&
      s.children 0 = [0,1] && s.children 2 = [2] && s.childPcb 1 = 2 && s.childPcb 2 = 3)
    (by decide)
  simp only [Bool.and_eq_true,decide_eq_true_eq] at hcheck
  obtain ⟨⟨⟨⟨⟨⟨hz,hal0⟩,hal2⟩,hown0⟩,hown2⟩,hx⟩,hy⟩ := hcheck
  have hmem0 : 1 ∈ s.children 0 := by simp [hown0]
  have hmem2 : 2 ∈ s.children 2 := by simp [hown2]
  have h02 : s.kin.Owns 0 2 := ⟨hal0,1,hmem0,hx⟩
  have h23 : s.kin.Owns 2 3 := ⟨hal2,2,hmem2,hy⟩
  obtain ⟨honly,hroots,hacyclic⟩ := processes_form_forest hs
  refine ⟨s,hz,h02,h23,fun p hp => honly p 0 2 hp h02,?_,?_,hroots⟩
  · exact fun hback => hacyclic 3 (TransGen.tail' (hback.tail h02) h23)
  · exact fun hback => hacyclic 2 (TransGen.tail (.single h23) hback)

/-- While `main` does not resume, the forest is one tree under init, whoever exits and whoever
takes over whose children. -/
theorem processes_form_tree {s : Kernel} (hs : ReachableUnder Kernel.KeepsInit s) :
    ∃ i, s.initPcb = some i ∧ s.pcbAllocator.Allocated i ∧
      ∀ p, s.pcbAllocator.Allocated p → ReflTransGen s.kin.Owns i p := by
  have h := hs.reachable.inv
  obtain ⟨j,hj,hjA,_⟩ := h.hasInit
  refine ⟨j,hj,hjA,fun p hp => ?_⟩
  obtain ⟨i,hi,hno,hreach⟩ := hs.reachable.tree.rooted p hp
  have hroot := hs.oneInit i hi ((Kin.parent_eq_none_iff h.family hi).mpr hno)
  cases Option.some.inj (hj.symm.trans hroot)
  exact hreach

/-- Init has got the child of a process that has exited. -/
theorem processes_form_tree_run : ∃ s : Kernel, (s.zombieList = [1] ∧ s.children 0 = [0,1]) ∧
    ∃ i, s.initPcb = some i ∧ s.pcbAllocator.Allocated i ∧
      ∀ p, s.pcbAllocator.Allocated p → ReflTransGen s.kin.Owns i p := by
  obtain ⟨s,hs,hcheck⟩ := exists_run Kernel.KeepsInit
    [.call 5 [1,0],.ret,.tick,.call 5 [1,0],.ret,.call 4 [7]]
    (fun s => s.zombieList = [1] && s.children 0 = [0,1]) (by decide)
  simp only [Bool.and_eq_true,decide_eq_true_eq] at hcheck
  exact ⟨s,hcheck,processes_form_tree hs⟩

end DisastrOS
