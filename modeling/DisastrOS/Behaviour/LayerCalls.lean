import DisastrOS.Behaviour.Opens

/-! # Which call changes a descriptor layer

A layer is changed by the open of an object, by the close of a descriptor, by the destruction
of an object, by the exit of a process and by the entry of a new one. Every other step leaves
it as it is.
-/
namespace DisastrOS

open DescriptorLayer

theorem DescriptorLayer.Linked.closeDescriptor_eq {L : DescriptorLayer} {A : ℕ → Prop} (h : L.Linked A)
    (e : LayerErrors) {p : ℕ} (hp : A p) (fd : ℤ) : L.closeDescriptor e p fd =
      match L.byFd p fd with
      | none => .ok (L,e.close)
      | some d => .ok (L.unlinked p d,0) := by
  unfold DescriptorLayer.closeDescriptor
  cases hfd : L.byFd p fd with
  | none => rfl
  | some d => simp only [h.unlink_eq hp (byFd_eq_some hfd).1,ok_bind]

namespace Kernel

/-- What a step does to one layer, with the call that does it. -/
inductive LayerCall (s : Kernel) (k : LayerKind) : Action → Kernel → Prop
  | same {a : Action} {t : Kernel} (hL : t.layer k = s.layer k) : LayerCall s k a t
  | enters {a : Action} {t : Kernel} {p : ℕ} {pool : Pool maxNumProcesses}
      (hb : s.pcbAllocator.getBlock = some (p,pool)) (hL : t.layer k = (s.layer k).initProcess p) :
      LayerCall s k a t
  | opens {args : List ℤ} {r : ℕ} {res : OpenResult} {t : Kernel} (hr : s.running = some r)
      (hok : s.openWith k r args = .ok res) (hL : t.layer k = res.layer) :
      LayerCall s k (.call k.openCall.number args) t
  | closes {args : List ℤ} {r d : ℕ} {t : Kernel} (hr : s.running = some r)
      (hd : (s.layer k).byFd r (args.getD 0 0) = some d)
      (hL : t.layer k = (s.layer k).unlinked r d) : LayerCall s k (.call k.closeCall.number args) t
  | destroys {a : Action} {o : ℕ} {t : Kernel} (ho : o ∈ (s.layer k).objectsList)
      (hnil : (s.layer k).descriptorsPtrs o = []) (hL : t.layer k = (s.layer k).destroyed o) :
      LayerCall s k a t
  | exits {args : List ℤ} {r n : ℕ} {t : Kernel} (hr : s.running = some r)
      (hL : (s.layer k).releaseAll r n = .ok (t.layer k)) :
      LayerCall s k (.call dsosCallExit args) t

variable {s t v : Kernel} {r : ℕ} {k : LayerKind} {a : Action} {c : Syscall} {num : ℤ}
variable {args : List ℤ}

theorem layer_enterTrap : (s.enterTrap r num args).layer k = s.layer k := by
  cases k <;> rfl

/-- The kernel with another state of a layer. -/
def withLayer (s : Kernel) (k : LayerKind) (L : DescriptorLayer) : Kernel :=
  match k with
  | .resources => { s with resources := L }
  | .messagequeues => { s with messagequeues := L }

@[simp] theorem layer_withLayer (L : DescriptorLayer) : (s.withLayer k L).layer k = L := by
  cases k <;> rfl

theorem layer_withLayer_of_ne {j : LayerKind} (hj : j ≠ k) (L : DescriptorLayer) :
    (s.withLayer k L).layer j = s.layer j := by
  cases k <;> cases j <;> first | rfl | exact absurd rfl hj

theorem running_withLayer (L : DescriptorLayer) : (s.withLayer k L).running = s.running := by
  cases k <;> rfl

theorem shutdownNow_withLayer (L : DescriptorLayer) :
    (s.withLayer k L).shutdownNow = s.shutdownNow := by
  cases k <;> rfl

theorem cpuState_withLayer (L : DescriptorLayer) : (s.withLayer k L).cpuState = s.cpuState := by
  cases k <;> rfl

theorem handler_close_eq (s : Kernel) (k : LayerKind) (r : ℕ) : handler k.closeCall s r =
    (s.layer k).closeDescriptor k.errors r (s.syscallArgs r 0) >>= fun res =>
      .ok ((s.withLayer k res.1).setRetvalue r res.2) := by
  cases k with
  | resources => exact internalCloseResource_layer s r
  | messagequeues => exact internalMqClose_layer s r

/-- The state behind a close of `r`. -/
def afterClose (s : Kernel) (k : LayerKind) (r : ℕ) (args : List ℤ) (res : DescriptorLayer × ℤ) :
    Kernel :=
  { ((s.enterTrap r k.closeCall.number args).withLayer k res.1).setRetvalue r res.2 with
    cpu := .syscall }

@[simp] theorem layer_afterClose (res : DescriptorLayer × ℤ) :
    (s.afterClose k r args res).layer k = res.1 :=
  layer_withLayer (s := s.enterTrap r k.closeCall.number args) res.1

theorem running_afterClose (res : DescriptorLayer × ℤ) :
    (s.afterClose k r args res).running = s.running :=
  running_withLayer (s := s.enterTrap r k.closeCall.number args) res.1

theorem shutdownNow_afterClose (res : DescriptorLayer × ℤ) :
    (s.afterClose k r args res).shutdownNow = s.shutdownNow :=
  shutdownNow_withLayer (s := s.enterTrap r k.closeCall.number args) res.1

theorem step_close_ok {res : DescriptorLayer × ℤ} (hr : s.running = some r)
    (hdown : s.shutdownNow = false) (hcpu : s.cpu ≠ .syscall)
    (hok : (s.layer k).closeDescriptor k.errors r (args.getD 0 0) = .ok res) :
    s.step (.call k.closeCall.number args) = .ok (s.afterClose k r args res) := by
  have hc : syscallVector (k.closeCall.number : ℤ).toNat = some k.closeCall := by cases k <;> rfl
  have harg : (s.enterTrap r k.closeCall.number args).syscallArgs r 0 = args.getD 0 0 :=
    syscallArgs_enterTrap (by cases k <;> decide)
  have hh : handler k.closeCall (s.enterTrap r k.closeCall.number args) r =
      .ok (((s.enterTrap r k.closeCall.number args).withLayer k res.1).setRetvalue r res.2) := by
    rw [handler_close_eq,harg,layer_enterTrap,hok,ok_bind]
  exact step_resumes hr hdown hcpu hc hh ((running_withLayer res.1).trans hr)
    ((shutdownNow_withLayer res.1).trans hdown) (congrFun (cpuState_withLayer res.1) r)

/-- A call that does not use the layers leaves them alone, or it enters a new process. -/
theorem Effect.layerCall (he : Effect s r c v) (hc : usesLayer c = false) (hexit : c ≠ .exit)
    (hunlink : c ≠ .mqUnlink) : v.layer = s.layer ∨ ∃ p pool,
      s.pcbAllocator.getBlock = some (p,pool) ∧ ∀ k, v.layer k = (s.layer k).initProcess p := by
  cases he with
  | preempt hs => exact Or.inl hs.layer
  | fork hb => exact Or.inr ⟨_,_,hb,fun k => by cases k <;> rfl⟩
  | spawn hb => exact Or.inr ⟨_,_,hb,fun k => by cases k <;> rfl⟩
  | collect => exact absurd rfl hexit
  | replace => exact absurd rfl hexit
  | sleep hslept => exact Or.inl hslept.layer
  | sleepNext hslept => exact Or.inl hslept.layer
  | resource hc' => rcases hc' with rfl | rfl | rfl <;> cases hc
  | queue hc' => rcases hc' with rfl | rfl <;> cases hc
  | createQueue => cases hc
  | unlinkRefused => exact absurd rfl hunlink
  | unlink => exact absurd rfl hunlink
  | sendBlocks _ hslept => exact Or.inl hslept.layer
  | receiveBlocks _ _ hslept => exact Or.inl hslept.layer
  | _ => exact Or.inl rfl

theorem LayerCall.congr (h : LayerCall s k a v) (ht : t.layer k = v.layer k) :
    LayerCall s k a t := by
  cases h with
  | same hL => exact .same (ht.trans hL)
  | enters hb hL => exact .enters hb (ht.trans hL)
  | opens hr hok hL => exact .opens hr hok (ht.trans hL)
  | closes hr hd hL => exact .closes hr hd (ht.trans hL)
  | destroys ho hnil hL => exact .destroys ho hnil (ht.trans hL)
  | exits hr hL => exact .exits hr (ht ▸ hL)

theorem handled_open (hr : s.running = some r)
    (hok : handler k.openCall (s.enterTrap r k.openCall.number args) r = .ok v) (j : LayerKind) :
    LayerCall s j (.call k.openCall.number args) v := by
  cases hres : s.openWith k r args with
  | error f =>
    cases (handler_open_error (openTrapped_enterTrap.trans hres)).symm.trans hok
  | ok res =>
    cases (handler_open_ok (openTrapped_enterTrap.trans hres)).symm.trans hok
    by_cases hj : j = k
    · subst hj
      exact .opens hr hres layer_opened
    · exact .same (layer_opened_of_ne hj)

theorem handled_close (h : Inv s) (hr : s.running = some r)
    (hok : handler k.closeCall (s.enterTrap r k.closeCall.number args) r = .ok v) (j : LayerKind) :
    LayerCall s j (.call k.closeCall.number args) v := by
  have harg : (s.enterTrap r k.closeCall.number args).syscallArgs r 0 = args.getD 0 0 :=
    syscallArgs_enterTrap (by cases k <;> decide)
  rw [handler_close_eq,harg,layer_enterTrap,
    (h.layer k).closeDescriptor_eq k.errors (h.running_allocated hr)] at hok
  cases hfd : (s.layer k).byFd r (args.getD 0 0) with
  | none =>
    simp only [hfd,ok_bind] at hok
    cases hok
    by_cases hj : j = k
    · subst hj
      exact .same (layer_withLayer _)
    · exact .same ((layer_withLayer_of_ne hj _).trans layer_enterTrap)
  | some d =>
    simp only [hfd,ok_bind] at hok
    cases hok
    by_cases hj : j = k
    · subst hj
      exact .closes hr hfd (layer_withLayer _)
    · exact .same ((layer_withLayer_of_ne hj _).trans layer_enterTrap)

theorem handled_layerCall (h : Inv s) (hr : s.running = some r)
    (hc : syscallVector num.toNat = some c) (hok : handler c (s.enterTrap r num args) r = .ok v)
    (k : LayerKind) : LayerCall s k (.call num args) v := by
  have hnum := syscallVector_eq_some hc
  have h' := h.enterTrap hr num args
  have hc' := syscallVector_enterTrap (r := r) s args hc
  have hother : usesLayer c = false → c ≠ .exit → c ≠ .mqUnlink →
      LayerCall s k (.call num args) v := by
    intro huses hexit hunlink
    rcases (handler_effect h' hr hc' hok).layerCall huses hexit hunlink with hsame | ⟨p,pool,hb,hL⟩
    · exact .same ((congrFun hsame k).trans layer_enterTrap)
    · exact .enters hb ((hL k).trans (congrArg (fun L => L.initProcess p) layer_enterTrap))
  cases c with
  | openResource =>
    subst hnum
    exact handled_open (k := .resources) hr hok k
  | mqOpen =>
    subst hnum
    exact handled_open (k := .messagequeues) hr hok k
  | closeResource =>
    subst hnum
    exact handled_close (k := .resources) h hr hok k
  | mqClose =>
    subst hnum
    exact handled_close (k := .messagequeues) h hr hok k
  | destroyResource =>
    obtain ⟨res,hres,hok⟩ :=
      exists_of_bind_eq_ok ((internalDestroyResource_layer _ r).symm.trans hok)
    cases hok
    cases k with
    | messagequeues => exact .same rfl
    | resources =>
      rcases destroyObject_cases resourceErrors s.resources
        ((s.enterTrap r num args).syscallArgs r 0) with ⟨x,heq⟩ | ⟨o,hid,hnil,heq⟩
      · cases heq.symm.trans hres
        exact .same rfl
      · cases heq.symm.trans hres
        exact .destroys (byId_eq_some hid).1 hnil rfl
  | mqUnlink =>
    cases handler_effect h' hr hc' hok with
    | resource hc' => simp at hc'
    | queue hc' => simp at hc'
    | unlinkRefused => exact .same (by cases k <;> rfl)
    | unlink hq hnil =>
      cases k with
      | resources => exact .same rfl
      | messagequeues => exact .destroys hq hnil rfl
  | exit =>
    subst hnum
    rcases internalExit_released h' hr hc' hok with hsame | hrel
    · exact .same ((congrFun hsame k).trans layer_enterTrap)
    · obtain ⟨n,hn⟩ := hrel k
      rw [layer_enterTrap] at hn
      exact .exits hr hn
  | _ => exact hother rfl nofun nofun

/-- Every step is one of these to each layer. -/
theorem step_layerCall (h : Inv s) (hstep : s.step a = .ok t) (k : LayerKind) :
    LayerCall s k a t := by
  have hcall : ∀ num args, a = .call num args → LayerCall s k a t := by
    rintro num args rfl
    obtain ⟨r,hr,_,_,hcalled⟩ := step_called hstep
    cases hcalled with
    | refused => exact .same (by cases k <;> rfl)
    | missing _ _ hsw => exact .same ((congrFun hsw.layer k).trans (by cases k <;> rfl))
    | handled _ hc hok hsw =>
      exact (handled_layerCall h hr hc hok k).congr (congrFun hsw.layer k)
  cases step_moves h hstep with
  | tick _ _ hs hsw => exact .same (congrFun (hsw.layer.trans hs.layer) k)
  | refused => exact hcall _ _ rfl
  | missing => exact hcall _ _ rfl
  | handled => exact hcall _ _ rfl
  | ret => exact .same (by cases k <;> rfl)
  | store => exact .same (by cases k <;> rfl)
  | resumeMain _ _ hb hsw =>
    exact .enters hb ((congrFun hsw.layer k).trans (by cases k <;> rfl))

end Kernel

end DisastrOS
