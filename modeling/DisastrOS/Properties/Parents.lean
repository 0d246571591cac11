import DisastrOS.Behaviour.Kinship

/-! # Whether the parent field names the process that has the child

Creation makes the link in both directions. An exit hands the children to init
without updating their parent fields, and a restart replaces init, so that agreement
lasts as long as nobody exits who has children and `main` does not resume.
-/
namespace DisastrOS

/-- Every process but init is on the children list of the process its parent field
names, which is alive. -/
def Agreed (allocated : ℕ → Prop) (children : ℕ → List ℕ) (child : ℕ → ℕ)
    (parent : ℕ → Option ℕ) (zombie : List ℕ) (initPcb : Option ℕ) : Prop :=
  ∀ p, allocated p → initPcb ≠ some p →
    ∃ q, parent p = some q ∧ allocated q ∧ q ∉ zombie ∧ ∃ x ∈ children q, child x = p

namespace Agreed
variable {A A' E : ℕ → Prop} {ch : ℕ → List ℕ} {c : ℕ → ℕ} {par : ℕ → Option ℕ}
variable {Z Z' : List ℕ} {i : Option ℕ} {p q r x d : ℕ}

theorem adopt (h : Agreed A ch c par Z i) (hfam : Family A E ch c par Z) (hr : A r) (hrZ : r ∉ Z)
    (hp : ¬ A p) (hA : ∀ q, A' q ↔ q = p ∨ A q) (hx : ¬ E x) :
    Agreed A' (Function.update (Function.update ch p []) r
        (listAppend (Function.update ch p [] r) x))
      (Function.update c x p) (Function.update (Function.update par p none) p (some r)) Z i := by
  intro k hk hki
  by_cases hkp : k = p
  · subst hkp
    refine ⟨r,Function.update_self _ _ _,(hA r).mpr (Or.inr hr),hrZ,x,?_,Function.update_self _ _ _⟩
    rw [Function.update_self]
    exact mem_listAppend.mpr (Or.inr rfl)
  · obtain ⟨q,hq,hqA,hqZ,y,hy,hyk⟩ := h k (((hA k).mp hk).resolve_left hkp) hki
    have hqp : q ≠ p := by
      rintro rfl
      exact hp hqA
    have hyx : y ≠ x := by
      rintro rfl
      exact hx (hfam.entry q hqA y hy)
    refine ⟨q,?_,(hA q).mpr (Or.inr hqA),hqZ,y,?_,?_⟩
    · rw [Function.update_of_ne hkp,Function.update_of_ne hkp]
      exact hq
    · by_cases hqr : q = r
      · subst hqr
        rw [Function.update_self,Function.update_of_ne hqp]
        exact mem_listAppend.mpr (Or.inl hy)
      · rwa [Function.update_of_ne hqr,Function.update_of_ne hqp]
    · rw [Function.update_of_ne hyx]
      exact hyk

theorem die (h : Agreed A ch c par Z i) (hd : ch d = []) : Agreed A ch c par (listAppend Z d) i := by
  intro k hk hki
  obtain ⟨q,hq,hqA,hqZ,y,hy,hyk⟩ := h k hk hki
  refine ⟨q,hq,hqA,?_,y,hy,hyk⟩
  intro hqZ'
  rcases mem_listAppend.mp hqZ' with hqZ' | rfl
  · exact hqZ hqZ'
  · rw [hd] at hy
    cases hy

theorem free (h : Agreed A ch c par Z i) (hd : ch d = []) (hA : ∀ o, A' o ↔ o ≠ d ∧ A o)
    (hx : c x = d) (hZ : ∀ q ∈ Z', q ∈ Z) :
    Agreed A' (Function.update ch r ((ch r).erase x)) c par Z' i := by
  intro k hk hki
  obtain ⟨hkd,hkA⟩ := (hA k).mp hk
  obtain ⟨q,hq,hqA,hqZ,y,hy,hyk⟩ := h k hkA hki
  have hqd : q ≠ d := by
    rintro rfl
    rw [hd] at hy
    cases hy
  have hyx : y ≠ x := by
    rintro rfl
    exact hkd (hyk.symm.trans hx)
  refine ⟨q,hq,(hA q).mpr ⟨hqd,hqA⟩,fun hm => hqZ (hZ q hm),y,?_,hyk⟩
  by_cases hqr : q = r
  · subst hqr
    rw [Function.update_self]
    exact (List.mem_erase_of_ne hyx).mpr hy
  · rwa [Function.update_of_ne hqr]

/-- The parent field of a child names the process whose list it is on. -/
theorem parent_eq (h : Agreed A ch c par Z i) (hfam : Family A E ch c par Z)
    (hinit : HasInit A par i) (hr : A r) (hx : x ∈ ch r) : i ≠ some (c x) ∧ par (c x) = some r := by
  have hne : i ≠ some (c x) := by
    rintro hi
    obtain ⟨j,hj,_,hjp⟩ := hinit
    cases Option.some.inj (hj.symm.trans hi)
    exact hfam.childParent r hr x hx hjp
  obtain ⟨q,hq,hqA,_,y,hy,hyx⟩ := h (c x) (hfam.childAllocated r hr x hx) hne
  obtain ⟨rfl,_⟩ := hfam.unique q r hqA hr y hy x hx hyx
  exact ⟨hne,hq⟩

theorem not_of_parent (hk : A p) (hki : i ≠ some p) (hpar : par p = some q)
    (hdead : A q → q ∈ Z) : ¬ Agreed A ch c par Z i := by
  intro h
  obtain ⟨q',hq',hqA,hqZ,_⟩ := h p hk hki
  cases Option.some.inj (hpar.symm.trans hq')
  exact hqZ (hdead hqA)

end Agreed

namespace Kernel

/-- For every allocated process other than init the parent field names an allocated
process that is not a zombie and whose children list has exactly one entry for it. -/
def ParentsAgree (s : Kernel) : Prop :=
  ∀ p, s.pcbAllocator.Allocated p → s.initPcb ≠ some p →
    ∃ q, s.parent p = some q ∧ s.pcbAllocator.Allocated q ∧ s.status q ≠ .zombie ∧
      (s.children q).countP (fun x => s.childPcb x = p) = 1

/-- Nobody exits who has children, and `main` does not resume. -/
def KeepsParents (s : Kernel) : Action → Prop
  | .call num _ => num = dsosCallExit → ∀ r ∈ s.running, s.children r = []
  | .resumeMain => False
  | _ => True

instance (s : Kernel) : (a : Action) → Decidable (s.KeepsParents a)
  | .call num _ => inferInstanceAs
      (Decidable (num = dsosCallExit → ∀ r ∈ s.running, s.children r = []))
  | .resumeMain => instDecidableFalse
  | .tick | .ret | .store _ _ => instDecidableTrue

end Kernel

/-- `Agreed` of the family part of a state. -/
def Kin.Agreed (k : Kin) : Prop :=
  DisastrOS.Agreed k.pcbs.Allocated k.children k.childPcb k.parent k.zombies k.initPcb

namespace Kin
variable {k : Kin} {i r q x d : ℕ} {value : ℤ}

theorem Agreed.exit (h : k.Agreed) (hr : k.children r = []) : (k.exit i r value).Agreed := by
  have hdead := DisastrOS.Agreed.die h hr
  unfold Kin.Agreed Kin.exit
  rw [handedOver_nil hr]
  exact hdead

theorem Agreed.release (h : k.Agreed) (hd : k.children d = []) (hdA : k.pcbs.Allocated d)
    (hx : k.childPcb x = d) : (k.release q x d).Agreed :=
  DisastrOS.Agreed.free h hd (Pool.allocated_releaseBlock hdA) hx
    (fun _ hz => List.mem_of_mem_erase hz)

end Kin

namespace Kernel

variable {s t : Kernel} {a : Action} {r : ℕ} {args : List ℤ}

theorem parentsAgree_iff (h : Inv s) : s.ParentsAgree ↔ s.kin.Agreed := by
  refine forall_congr' fun p => imp_congr_right fun hp => imp_congr_right fun _ => ?_
  refine exists_congr fun q => and_congr_right fun hq => and_congr_right fun hqA => ?_
  refine and_congr (h.placement.mem_zombie_iff hqA).not.symm ?_
  constructor
  · intro hone
    have hpos : 0 < (s.children q).countP (fun x => s.childPcb x = p) := by omega
    obtain ⟨x,hx,hxp⟩ := List.countP_pos_iff.mp hpos
    exact ⟨x,hx,of_decide_eq_true hxp⟩
  · rintro ⟨x,hx,hxp⟩
    have hsame : ∀ y ∈ s.children q, s.childPcb y = p ↔ y = x := by
      intro y hy
      constructor
      · exact fun hyp => (h.family.unique q q hqA hqA y hy x hx (hyp.trans hxp.symm)).2
      · rintro rfl
        exact hxp
    have hcount : (s.children q).countP (fun y => s.childPcb y = p) = (s.children q).count x := by
      rw [List.count_eq_countP]
      refine List.countP_congr ?_
      intro y hy
      simpa using hsame y hy
    rw [hcount]
    exact List.count_eq_one_of_mem (h.family.nodup q hqA) hx

theorem keepsParents_exit (hr : s.running = some r) :
    s.KeepsParents (.call dsosCallExit args) ↔ s.children r = [] := by
  simp [KeepsParents,hr]

theorem keepsParents_of_not_ofKin (ha : a.ofKin = false) : s.KeepsParents a := by
  cases a with
  | call num args =>
    intro hnum
    simp [Action.ofKin,hnum] at ha
  | resumeMain => cases ha
  | _ => trivial

/-- Agreement outlasts a step exactly if it keeps to the guard. -/
theorem KinMove.agreed (h : Inv s) (hs : s.kin.Agreed) (hm : KinMove s a t) :
    t.kin.Agreed ↔ s.KeepsParents a := by
  cases hm with
  | other ha hk =>
    rw [hk]
    exact iff_of_true hs (keepsParents_of_not_ofKin ha)
  | @create num args r p x pool entries t ha hr hb hx hk =>
    rw [hk]
    refine iff_of_true ?_ (keepsParents_of_not_ofKin ha)
    obtain ⟨hfree,_,hal⟩ := Pool.getBlock_eq_some hb
    obtain ⟨hxfree,_,_⟩ := Pool.getBlock_eq_some hx
    exact Agreed.adopt hs h.family (h.running_allocated hr) (h.not_zombie_running hr) hfree hal
      hxfree
  | noChild hr hnil hk =>
    rw [hk]
    exact iff_of_true hs (fun hnum => absurd hnum (by decide))
  | @reap args r x t hr hx hz hk =>
    rw [hk]
    refine iff_of_true ?_ (fun hnum => absurd hnum (by decide))
    have hxm := awaitedEntry_mem (s := s.enterTrap r dsosCallWait args) hx
    have hc := h.family.childAllocated r (h.running_allocated hr) x hxm
    have hzl := (h.placement.mem_zombie_iff hc).mpr hz
    exact hs.release (h.family.zombieChildren _ hc hzl) hc rfl
  | block hr hx hz hk =>
    rw [hk]
    exact iff_of_true hs (fun hnum => absurd hnum (by decide))
  | @collect args r i p x v t hr hi hir hp hv hin hsat hx hxr hk =>
    have hrA := h.running_allocated hr
    have hal := Pool.allocated_releaseBlock hrA
    rw [hk,keepsParents_exit hr]
    by_cases hnil : s.children r = []
    · refine iff_of_true ?_ hnil
      have hnone := (h.family_handedOver hr hi hir).2
      exact (Kin.Agreed.exit hs hnil).release hnone hrA hxr
    · refine iff_of_false ?_ hnil
      obtain ⟨y,hy⟩ := List.exists_mem_of_ne_nil _ hnil
      obtain ⟨hne,hpar⟩ := Agreed.parent_eq hs h.family h.hasInit hrA hy
      refine Agreed.not_of_parent (p := s.childPcb y) (q := r) ?_ hne hpar ?_
      · exact (hal _).mpr ⟨h.family.notSelf r hrA y hy,h.family.childAllocated r hrA y hy⟩
      · exact fun hr' => absurd rfl ((hal r).mp hr').1
  | @replace args r i p v t hr hi hir hp hv hsat hk =>
    have hrA := h.running_allocated hr
    rw [hk,keepsParents_exit hr]
    by_cases hnil : s.children r = []
    · exact iff_of_true (Kin.Agreed.exit hs hnil) hnil
    · refine iff_of_false ?_ hnil
      obtain ⟨y,hy⟩ := List.exists_mem_of_ne_nil _ hnil
      obtain ⟨hne,hpar⟩ := Agreed.parent_eq hs h.family h.hasInit hrA hy
      refine Agreed.not_of_parent (p := s.childPcb y) (q := r) ?_ hne hpar ?_
      · exact h.family.childAllocated r hrA y hy
      · exact fun _ => mem_listAppend.mpr (Or.inr rfl)
  | @restart p pool t hr hb hk =>
    rw [hk]
    refine iff_of_false ?_ id
    obtain ⟨hfree,_,hal⟩ := Pool.getBlock_eq_some hb
    obtain ⟨i,hi,hiA,hip⟩ := h.hasInit
    have hne : i ≠ p := by
      rintro rfl
      exact hfree hiA
    intro hag
    obtain ⟨q,hq,_⟩ := hag i ((hal i).mpr (Or.inr hiA)) (fun he => hne (Option.some.inj he).symm)
    have hnone : Function.update s.parent p none i = none :=
      (Function.update_of_ne hne _ _).trans hip
    exact absurd (hnone.symm.trans hq) (by simp)

theorem disastrOSStart_agreed {function args : ℤ} {logFile : Bool} {chars : ℤ → UInt8}
    {ints : ℤ → ℤ} (hok : disastrOSStart function args logFile chars ints = .ok s) :
    s.kin.Agreed := by
  obtain ⟨p,pool,hb,hsw⟩ := startFirstProcess_ok hok
  obtain ⟨_,_,hal⟩ := Pool.getBlock_eq_some hb
  rw [hsw.kin,kin_withInit]
  intro q hq hqi
  rcases (hal q).mp hq with rfl | hcold
  · exact absurd rfl hqi
  · simp [cold] at hcold

end Kernel

/-- Parents and children agree along every run in which nobody exits who has children
and `main` does not resume, and a step that is neither keeps, one that is either ends
the agreement. -/
theorem parents_agree {s : Kernel} (hs : ReachableUnder Kernel.KeepsParents s) :
    s.ParentsAgree ∧ ∀ a t, s.step a = .ok t → (t.ParentsAgree ↔ s.KeepsParents a) := by
  apply ReachableUnder.holds_iff (I := fun s => s.kin.Agreed) _ _ _ hs
  · intro s hs
    exact Kernel.parentsAgree_iff hs.inv
  · intro function args logFile chars ints s hok
    exact Kernel.disastrOSStart_agreed hok
  · intro s a t h hagreed hst
    exact ((Kernel.step_moves h hst).kin h).agreed h hagreed

/-- A child and a grandchild, which has exited. -/
theorem parents_agree_run : ∃ s : Kernel, (s.parent 1 = some 0 ∧ s.parent 2 = some 1 ∧
    s.zombieList = [2]) ∧ s.ParentsAgree ∧
      ∀ a t, s.step a = .ok t → (t.ParentsAgree ↔ s.KeepsParents a) := by
  obtain ⟨s,hs,hcheck⟩ := exists_run Kernel.KeepsParents
    [.call 5 [1,0],.ret,.tick,.call 5 [1,0],.ret,.tick,.tick,.call 4 [7]]
    (fun s => s.parent 1 = some 0 && s.parent 2 = some 1 && s.zombieList = [2]) (by decide)
  refine ⟨s,?_,parents_agree hs⟩
  simpa [and_assoc] using hcheck

/-- The child exits, and the grandchild still has the zombie as its parent. -/
theorem exit_leaves_parent : ¬ ∀ s : Kernel, Reachable s → s.ParentsAgree := by
  intro hclaim
  obtain ⟨s,hs,hcheck⟩ := exists_run Transitions.unguarded
    [.call 5 [1,0],.ret,.tick,.call 5 [1,0],.ret,.call 4 [7]]
    (fun s => s.pcbAllocator.Allocated 2 && s.initPcb = some 0 && s.parent 2 = some 1 &&
      s.status 1 = .zombie) (by decide)
  simp only [Bool.and_eq_true,decide_eq_true_eq] at hcheck
  obtain ⟨⟨⟨h2,hi⟩,hp⟩,hz⟩ := hcheck
  obtain ⟨q,hq,_,hqz,_⟩ := hclaim s hs 2 h2 (by simp [hi])
  cases Option.some.inj (hp.symm.trans hq)
  exact hqz hz

end DisastrOS
