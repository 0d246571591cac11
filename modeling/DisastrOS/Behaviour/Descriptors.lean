import DisastrOS.Behaviour.Steps

/-! # What a step does to the descriptor layers

A step enters a new process in both layers, or it makes elementary changes to them, one
after the other: an object is created, a descriptor is published or unlinked, an unused
object is destroyed. What the layers keep in all runs is shown of these changes.
-/
namespace DisastrOS

namespace DescriptorLayer

/-- The elementary changes that the processes of `A` bring about. -/
inductive Op (A : ℕ → Prop) (L : DescriptorLayer) : DescriptorLayer → Prop
  | create {id type : ℤ} {o : ℕ} {L' : DescriptorLayer} (hid : L.byId id = none)
      (hok : L.allocObject id type = .ok (o,L')) : Op A L L'
  | publish {p o d x : ℕ} {dPool xPool : Pool maxNumProcesses} (hp : A p)
      (ho : o ∈ L.objectsList) (hd : L.descriptorAllocator.getBlock = some (d,dPool))
      (hx : L.descriptorPtrAllocator.getBlock = some (x,xPool)) :
      Op A L (L.publish p o d x dPool xPool)
  | unlink {p d : ℕ} (hp : A p) (hd : d ∈ L.descriptors p) : Op A L (L.unlinked p d)
  | destroy {o : ℕ} (ho : o ∈ L.objectsList) (hnil : L.descriptorsPtrs o = []) :
      Op A L (L.destroyed o)

/-- Any number of elementary changes. -/
def Ops (A : ℕ → Prop) : DescriptorLayer → DescriptorLayer → Prop := Relation.ReflTransGen (Op A)

variable {L L' : DescriptorLayer} {A : ℕ → Prop} {e : LayerErrors} {p o : ℕ} {id type openMode : ℤ}

theorem openDescriptor_ops {created : Option ℕ} {res : OpenResult} (hp : A p)
    (ho : o ∈ L.objectsList)
    (hok : openDescriptor e L p o type openMode created = .ok res) : Ops A L res.layer := by
  unfold openDescriptor at hok
  split at hok
  · cases hok
    exact .refl
  · split at hok
    · cases hok
      exact .refl
    · split at hok
      · cases hok
        exact .refl
      · rename_i d dPool hd
        split at hok
        · cases hok
        · rename_i x xPool hx
          cases hok
          exact .single (.publish hp ho hd hx)

theorem openObject_ops {res : OpenResult} (h : L.Linked A) (hp : A p)
    (hok : L.openObject e p id type openMode = .ok res) : Ops A L res.layer := by
  unfold openObject at hok
  split at hok
  · cases hok
    exact .refl
  · rename_i hid
    obtain ⟨⟨o,L'⟩,ha,hok⟩ := exists_of_bind_eq_ok hok
    obtain ⟨_,_,hlist,_,_⟩ := h.allocObject ha
    have ho : o ∈ L'.objectsList := by
      rw [hlist]
      exact mem_listAppend.mpr (Or.inr rfl)
    exact .head (.create hid ha) (openDescriptor_ops hp ho hok)
  · rename_i o hid
    exact openDescriptor_ops hp (byId_eq_some hid).1 hok
  · cases hok
    exact .refl

theorem closeDescriptor_ops {fd : ℤ} {r : DescriptorLayer × ℤ} (h : L.Linked A) (hp : A p)
    (hok : L.closeDescriptor e p fd = .ok r) : Ops A L r.1 := by
  unfold closeDescriptor at hok
  split at hok
  · cases hok
    exact .refl
  · rename_i d hfd
    have hd := (byFd_eq_some hfd).1
    simp only [h.unlink_eq hp hd,ok_bind,Except.ok.injEq] at hok
    subst hok
    exact .single (.unlink hp hd)

theorem destroyObject_ops {r : DescriptorLayer × ℤ × Option ℕ}
    (hok : L.destroyObject e id = .ok r) : Ops A L r.1 := by
  rcases destroyObject_cases e L id with ⟨v,heq⟩ | ⟨o,hid,hnil,heq⟩
  · cases heq.symm.trans hok
    exact .refl
  · cases heq.symm.trans hok
    exact .single (.destroy (byId_eq_some hid).1 hnil)

/-- The release loop unlinks one descriptor after the other. -/
theorem releaseAll_ops {n : ℕ} (h : L.Linked A) (hp : A p)
    (hok : L.releaseAll p n = .ok L') : Ops A L L' := by
  induction n generalizing L with
  | zero =>
    unfold releaseAll at hok
    split at hok
    · cases hok
      exact .refl
    · cases hok
  | succ n ih =>
    unfold releaseAll at hok
    split at hok
    · cases hok
      exact .refl
    · rename_i d ds hds
      have hd : d ∈ L.descriptors p := by
        rw [hds]
        exact List.mem_cons_self
      simp only [h.unlink_eq hp hd,ok_bind] at hok
      exact .head (.unlink hp hd) (ih (h.unlinked hp hd) hok)

/-- The number for the next descriptor never goes down. -/
theorem Op.lastFd_le (h : Op A L L') (p : ℕ) : L.lastFd p ≤ L'.lastFd p := by
  cases h with
  | @create id type o L' hid hok =>
    unfold allocObject at hok
    split at hok
    · cases hok
    · cases hok
      exact le_rfl
  | @publish q =>
    dsimp only [DescriptorLayer.publish]
    by_cases hpq : p = q
    · subst hpq
      rw [Function.update_self]
      omega
    · rw [Function.update_of_ne hpq]
  | unlink => exact le_rfl
  | destroy => exact le_rfl

theorem Op.linked (h : Op A L L') (hL : L.Linked A) : L'.Linked A := by
  cases h with
  | create _ hok => exact (hL.allocObject hok).1
  | publish hp ho hd hx => exact hL.publish hp ho hd hx
  | unlink hp hd => exact hL.unlinked hp hd
  | destroy ho hnil => exact hL.destroyed ho hnil

/-- What every change preserves in a linked layer holds behind any number of them. -/
theorem Ops.induction {P : DescriptorLayer → Prop} (h : Ops A L L') (hL : L.Linked A) (hP : P L)
    (hstep : ∀ L L', L.Linked A → P L → Op A L L' → P L') : P L' := by
  have hboth : L'.Linked A ∧ P L' := by
    induction h with
    | refl => exact ⟨hL,hP⟩
    | tail _ hop ih => exact ⟨hop.linked ih.1,hstep _ _ ih.1 ih.2 hop⟩
  exact hboth.2

theorem lastFd_initProcess_nonneg (h : ∀ q, 0 ≤ L.lastFd q) (q : ℕ) :
    0 ≤ (L.initProcess p).lastFd q := by
  dsimp only [initProcess]
  by_cases hqp : q = p
  · subst hqp
    rw [Function.update_self]
  · rw [Function.update_of_ne hqp]
    exact h q

end DescriptorLayer

open DescriptorLayer

/-- The two layers of a kernel. -/
inductive LayerKind
  | resources
  | messagequeues
  deriving DecidableEq

namespace LayerKind

/-- The system call that opens an object of the layer. -/
def openCall : LayerKind → Syscall
  | resources => .openResource
  | messagequeues => .mqOpen

/-- The system call that closes a descriptor of the layer. -/
def closeCall : LayerKind → Syscall
  | resources => .closeResource
  | messagequeues => .mqClose

/-- The place of the mode among the arguments of an open. -/
def modeArg : LayerKind → ℕ
  | resources => 2
  | messagequeues => 4

def errors : LayerKind → LayerErrors
  | resources => resourceErrors
  | messagequeues => messagequeueErrors

end LayerKind

namespace Kernel

def layer (s : Kernel) : LayerKind → DescriptorLayer
  | .resources => s.resources
  | .messagequeues => s.messagequeues

/-- What a step does to the layers. -/
inductive LayerMove (s t : Kernel) : Prop
  | create {p : ℕ} {pool : Pool maxNumProcesses} (hb : s.pcbAllocator.getBlock = some (p,pool))
      (hL : ∀ k, t.layer k = (s.layer k).initProcess p) : LayerMove s t
  | ops (hL : ∀ k, Ops s.pcbAllocator.Allocated (s.layer k) (t.layer k)) : LayerMove s t

variable {s t u v : Kernel} {r p : ℕ} {c : Syscall} {a : Action} {k : LayerKind} {num : ℤ}
variable {args : List ℤ}

theorem Inv.layer (h : Inv s) (k : LayerKind) : (s.layer k).Linked s.pcbAllocator.Allocated := by
  cases k with
  | resources => exact h.resources
  | messagequeues => exact h.messagequeues

theorem LayerMove.both (hL : Ops s.pcbAllocator.Allocated s.resources t.resources)
    (hM : Ops s.pcbAllocator.Allocated s.messagequeues t.messagequeues) : LayerMove s t := by
  refine .ops (fun k => ?_)
  cases k with
  | resources => exact hL
  | messagequeues => exact hM

/-- A step that leaves both layers alone. -/
theorem LayerMove.same (hL : t.layer = s.layer) : LayerMove s t :=
  .ops (fun _ => hL ▸ .refl)

theorem Switched.layer (hsw : Switched v t) : t.layer = v.layer := by
  cases hsw <;> rfl

theorem Scheduled.layer (hs : Scheduled s r t) : t.layer = s.layer := by
  cases hs with
  | stay hw => obtain ⟨⟩ := hw; rfl
  | rotate hw => obtain ⟨⟩ := hw; rfl

theorem Slept.layer (hslept : Slept s r u) : u.layer = s.layer := by
  obtain ⟨⟩ := hslept
  rfl

theorem LayerMove.congr (h : LayerMove s v) (ht : t.layer = v.layer) : LayerMove s t := by
  cases h with
  | create hb hL => exact .create hb (fun k => (congrFun ht k).trans (hL k))
  | ops hL => exact .ops (fun k => ht ▸ hL k)

/-- The branch that wakes the parent runs both release loops. -/
theorem internalExit_released (h : Inv s) (hr : s.running = some r)
    (hc : syscallVector (s.syscallNum r).toNat = some .exit) (hok : s.internalExit r = .ok t) :
    t.layer = s.layer ∨
      ∀ k, ∃ n, (s.layer k).releaseAll r n = .ok (t.layer k) := by
  have hrA := h.running_allocated hr
  have he := handler_effect h hr hc hok
  cases he with
  | resource hc => simp at hc
  | queue hc => simp at hc
  | replace => exact Or.inl rfl
  | @collect i p x L M hi hir hp hwakes =>
    obtain ⟨L',M',hL',hM',_,_⟩ := h.releaseAll hrA
    have hst := h.placement.runningStatus r hr
    rw [internalExit_eq hi hir hp,wakesParent_exiting hst,if_pos hwakes] at hok
    have hw := (mem_waiting_of_wakesParent h hwakes).1
    cases hx : (s.exiting i r p (s.syscallArgs r 0)).childByPid p (s.pid r) with
    | none =>
      cases (exitToParent_none (s := s.exiting i r p (s.syscallArgs r 0)) hw hx).symm.trans hok
    | some y =>
      have htimers := h.timers.no_timer (h.not_waiting_running hr)
      have hrZ : r ∈ listAppend s.zombieList r := mem_listAppend.mpr (Or.inr rfl)
      have heq := (exitToParent_eq (s := s.exiting i r p (s.syscallArgs r 0)) hw hx htimers hrZ
        hL' hM').symm.trans hok
      have hres : L' = L := congrArg resources (Except.ok.inj heq)
      have hmq : M' = M := congrArg messagequeues (Except.ok.inj heq)
      subst hres hmq
      refine Or.inr (fun k => ?_)
      cases k with
      | resources => exact ⟨_,hL'⟩
      | messagequeues => exact ⟨_,hM'⟩

theorem internalExit_layerMove (h : Inv s) (hr : s.running = some r)
    (hc : syscallVector (s.syscallNum r).toNat = some .exit) (hok : s.internalExit r = .ok t) :
    LayerMove s t := by
  rcases internalExit_released h hr hc hok with hsame | hrel
  · exact .same hsame
  · refine .ops (fun k => ?_)
    obtain ⟨n,hn⟩ := hrel k
    exact releaseAll_ops (h.layer k) (h.running_allocated hr) hn

/-- The calls that open or close descriptors, or destroy a resource. -/
def usesLayer : Syscall → Bool
  | .openResource | .closeResource | .destroyResource | .mqOpen | .mqClose => true
  | _ => false

theorem Effect.layerMove (he : Effect s r c t) (hc : usesLayer c = false) (hexit : c ≠ .exit) :
    LayerMove s t := by
  cases he with
  | preempt hs => exact .same hs.layer
  | fork hb => exact .create hb (fun k => by cases k <;> rfl)
  | spawn hb => exact .create hb (fun k => by cases k <;> rfl)
  | collect => exact absurd rfl hexit
  | replace => exact absurd rfl hexit
  | sleep hslept => exact .same hslept.layer
  | sleepNext hslept => exact .same hslept.layer
  | resource hc' => rcases hc' with rfl | rfl | rfl <;> cases hc
  | queue hc' => rcases hc' with rfl | rfl <;> cases hc
  | createQueue => cases hc
  | unlink hq hnil => exact .both .refl (.single (.destroy hq hnil))
  | sendBlocks _ hslept => exact .same hslept.layer
  | receiveBlocks _ _ hslept => exact .same hslept.layer
  | _ => exact .same rfl

theorem handler_layerMove (h : Inv s) (hr : s.running = some r)
    (hc : syscallVector (s.syscallNum r).toNat = some c) (hok : handler c s r = .ok t) :
    LayerMove s t := by
  have hrA := h.running_allocated hr
  cases c with
  | exit => exact internalExit_layerMove h hr hc hok
  | openResource =>
    obtain ⟨res,hres,hok⟩ := exists_of_bind_eq_ok ((internalOpenResource_layer s r).symm.trans hok)
    cases hok
    exact .both (openObject_ops h.resources hrA hres) .refl
  | closeResource =>
    obtain ⟨res,hres,hok⟩ := exists_of_bind_eq_ok ((internalCloseResource_layer s r).symm.trans hok)
    cases hok
    exact .both (closeDescriptor_ops h.resources hrA hres) .refl
  | destroyResource =>
    obtain ⟨res,hres,hok⟩ := exists_of_bind_eq_ok ((internalDestroyResource_layer s r).symm.trans hok)
    cases hok
    exact .both (destroyObject_ops hres) .refl
  | mqOpen =>
    obtain ⟨res,hres,hok⟩ := exists_of_bind_eq_ok ((internalMqOpen_layer s r).symm.trans hok)
    have hM := openObject_ops h.messagequeues hrA hres
    cases hok
    cases hcr : res.created with
    | none => exact .both .refl hM
    | some q => exact .both .refl hM
  | mqClose =>
    obtain ⟨res,hres,hok⟩ := exists_of_bind_eq_ok ((internalMqClose_layer s r).symm.trans hok)
    cases hok
    exact .both .refl (closeDescriptor_ops h.messagequeues hrA hres)
  | _ => exact (handler_effect h hr hc hok).layerMove rfl nofun

theorem call_layerMove (h : Inv s) (hstep : s.step (.call num args) = .ok t) : LayerMove s t := by
  obtain ⟨r,hr,_,_,hcalled⟩ := step_called hstep
  cases hcalled with
  | refused => exact .same rfl
  | missing _ _ hsw => exact .same hsw.layer
  | @handled c v t _ hc hok hsw =>
    have hmove : LayerMove (s.enterTrap r num args) v :=
      handler_layerMove (h.enterTrap hr num args) hr (syscallVector_enterTrap s args hc) hok
    cases hmove with
    | create hb hL => exact .congr (v := v) (.create hb hL) hsw.layer
    | ops hL => exact .congr (v := v) (.ops hL) hsw.layer

theorem step_layerMove (h : Inv s) (hstep : s.step a = .ok t) : LayerMove s t := by
  cases step_moves h hstep with
  | tick _ _ hs hsw => exact .same (hsw.layer.trans hs.layer)
  | refused => exact call_layerMove h hstep
  | missing => exact call_layerMove h hstep
  | handled => exact call_layerMove h hstep
  | ret => exact .same rfl
  | store => exact .same rfl
  | @resumeMain p pool _ _ _ hb hsw =>
    exact .congr (v := s.withInit p pool) (.create hb (fun k => by cases k <;> rfl)) hsw.layer

end Kernel

open Kernel

/-- The rule by which a property of a layer is shown of all runs. -/
theorem Reachable.layer_induction {P : DescriptorLayer → Prop} (hinit : P initial)
    (hstart : ∀ L p, P L → P (L.initProcess p))
    (hop : ∀ (A : ℕ → Prop) L L', L.Linked A → P L → Op A L L' → P L') {s : Kernel}
    (hs : Reachable s) (k : LayerKind) : P (s.layer k) := by
  refine hs.induction (P := fun s => P (s.layer k)) ?_ ?_
  · intro function args logFile chars ints s hok
    obtain ⟨p,pool,_,hsw⟩ := startFirstProcess_ok hok
    rw [hsw.layer]
    cases k <;> exact hstart _ p hinit
  · intro s a t h hP hstep
    cases step_layerMove h hstep with
    | create hb hL =>
      rw [hL k]
      exact hstart _ _ hP
    | ops hL =>
      exact (hL k).induction (h.layer k) hP (hop _)

/-- The number that the next descriptor of a process gets is not an error code. -/
theorem Reachable.lastFd_nonneg {s : Kernel} (hs : Reachable s) (k : LayerKind) (p : ℕ) :
    0 ≤ (s.layer k).lastFd p := by
  refine hs.layer_induction (P := fun L => ∀ p, 0 ≤ L.lastFd p) ?_ ?_ ?_ k p
  · exact fun _ => le_rfl
  · exact fun L p hL => lastFd_initProcess_nonneg hL
  · exact fun _ L L' _ hL hop p => (hL p).trans (hop.lastFd_le p)

end DisastrOS
