import DisastrOS.Registry.Calls

/-! # Runs as events of a registry

Each step is an event of the registry of a layer, or none. The event is read off the call, its
arguments and the value it returns: nothing of the layer but what its callers see.
-/
namespace DisastrOS
open Handles

/-- The system call that destroys an object of the layer. -/
def LayerKind.destroyCall : LayerKind → Syscall
  | resources => .destroyResource
  | messagequeues => .mqUnlink

/-- Owners are processes, and ids, types and return values are `int`s. -/
abbrev LayerEvent := Handles.Event ℕ ℤ ℤ ℤ

namespace Kernel

/-- A call that starts or ends a process. -/
def lifeEvent (s t : Kernel) (r : ℕ) : Syscall → Option LayerEvent
  | .fork | .spawn => s.pcbAllocator.getBlock.map fun b => .entered b.1
  | .exit => if t.pcbAllocator.Allocated r then none else some (.left r)
  | _ => none

/-- What a call is to the registry of a layer, with the value it returns in `t`. -/
def callEvent (k : LayerKind) (s t : Kernel) (r : ℕ) (c : Syscall) (args : List ℤ) :
    Option LayerEvent :=
  if c = k.openCall then some (.opened r (args.getD 0 0) (args.getD 1 0)
    (hasFlag (args.getD k.modeArg 0) dsosCreate) (hasFlag (args.getD k.modeArg 0) dsosExcl)
    (t.syscallRetvalue r))
  else if c = k.closeCall then some (.closed r (args.getD 0 0) (t.syscallRetvalue r))
  else if c = k.destroyCall then some (.destroyed (args.getD 0 0) (t.syscallRetvalue r))
  else lifeEvent s t r c

/-- What a step is to the registry of a layer. -/
def registryEvent (k : LayerKind) (s : Kernel) (a : Action) (t : Kernel) :
    Option LayerEvent :=
  match a with
  | .call num args =>
    match s.running, syscallVector num.toNat with
    | some r, some c => callEvent k s t r c args
    | _, _ => none
  | .resumeMain => s.pcbAllocator.getBlock.map fun b => .entered b.1
  | _ => none

/-- The registry of the layer goes through this event, if there is one, and every value that is
returned is the right one. -/
def Follows (k : LayerKind) (s : Kernel) (e : Option LayerEvent) (t : Kernel) : Prop :=
  (s.layer k).registry.replay layerLimits k.errors.code e.toList = some (t.layer k).registry

variable {s t v : Kernel} {k : LayerKind} {r p : ℕ} {c : Syscall} {args : List ℤ} {a : Action}

theorem follows_none (hL : t.layer k = s.layer k) : Follows k s none t :=
  congrArg (fun L : DescriptorLayer => some L.registry) hL.symm

theorem follows_some {e : LayerEvent}
    (he : (s.layer k).registry.apply layerLimits k.errors.code e = some (t.layer k).registry) :
    Follows k s (some e) t := by
  unfold Follows Registry.replay
  rw [Option.toList_some,List.foldlM_cons,he]
  rfl

theorem follows_opened (hL : (s.layer k).Sound) {res : DescriptorLayer.OpenResult}
    (hok : s.openWith k r args = .ok res) (ht : t.layer k = res.layer)
    (hret : t.syscallRetvalue r = res.retvalue) :
    Follows k s (callEvent k s t r k.openCall args) t := by
  have hanswers := hL.openObject_answers k.errors r (args.getD 0 0) (args.getD 1 0)
    (args.getD k.modeArg 0)
  unfold openWith at hok
  rw [hok] at hanswers
  unfold callEvent
  rw [if_pos rfl]
  apply follows_some
  dsimp only [Registry.apply]
  generalize (s.layer k).registry.openHandle layerLimits r (args.getD 0 0) (args.getD 1 0)
    (hasFlag (args.getD k.modeArg 0) dsosCreate) (hasFlag (args.getD k.modeArg 0) dsosExcl) =
      answer at hanswers ⊢
  cases hanswers with
  | some hvalue hlayer =>
    dsimp only
    rw [if_pos (hvalue.symm.trans hret.symm),← hlayer,ht]

theorem follows_closed (hL : (s.layer k).Sound) {res : DescriptorLayer × ℤ}
    (hok : (s.layer k).closeDescriptor k.errors r (args.getD 0 0) = .ok res)
    (ht : t.layer k = res.1) (hret : t.syscallRetvalue r = res.2) :
    Follows k s (callEvent k s t r k.closeCall args) t := by
  obtain ⟨res',hok',hvalue,hlayer⟩ := hL.closeDescriptor_answers k.errors r (args.getD 0 0)
  cases hok.symm.trans hok'
  have hne : k.closeCall ≠ k.openCall := by cases k <;> exact nofun
  unfold callEvent
  rw [if_neg hne,if_pos rfl]
  apply follows_some
  dsimp only [Registry.apply]
  rw [if_pos (hvalue.symm.trans hret.symm),← hlayer,ht]

theorem follows_destroyed (hL : (s.layer k).Sound) {res : DescriptorLayer × ℤ × Option ℕ}
    (hok : (s.layer k).destroyObject k.errors (args.getD 0 0) = .ok res)
    (ht : t.layer k = res.1) (hret : t.syscallRetvalue r = res.2.1) :
    Follows k s (callEvent k s t r k.destroyCall args) t := by
  obtain ⟨res',hok',hvalue,hlayer⟩ := hL.destroyObject_answers k.errors (args.getD 0 0)
  cases hok.symm.trans hok'
  have hne : k.destroyCall ≠ k.openCall ∧ k.destroyCall ≠ k.closeCall := by
    cases k <;> exact ⟨nofun,nofun⟩
  unfold callEvent
  rw [if_neg hne.1,if_neg hne.2,if_pos rfl]
  apply follows_some
  dsimp only [Registry.apply]
  rw [if_pos (hvalue.symm.trans hret.symm),← hlayer,ht]

theorem follows_entered (ht : t.layer k = (s.layer k).initProcess p) :
    Follows k s (some (.entered p)) t := by
  apply follows_some
  dsimp only [Registry.apply]
  rw [ht,DescriptorLayer.registry_initProcess]

/-- What the handler that destroys an object does besides. -/
structure Destroyed (k : LayerKind) (s : Kernel) (r : ℕ) (res : DescriptorLayer × ℤ × Option ℕ)
    (v : Kernel) : Prop where
  layer : v.layer k = res.1
  other : ∀ j, j ≠ k → v.layer j = s.layer j
  value : v.syscallRetvalue r = res.2.1
  running : v.running = s.running
  down : v.shutdownNow = s.shutdownNow
  contexts : v.cpuState = s.cpuState

theorem handler_destroyed (h : Inv s) (k : LayerKind) (r : ℕ) :
    ∃ res v, (s.layer k).destroyObject k.errors (s.syscallArgs r 0) = .ok res ∧
      handler k.destroyCall s r = .ok v ∧ Destroyed k s r res v := by
  cases k with
  | resources =>
    obtain ⟨res,hres⟩ : ∃ res,
        s.resources.destroyObject resourceErrors (s.syscallArgs r 0) = .ok res := by
      rcases DescriptorLayer.destroyObject_cases resourceErrors s.resources
          (s.syscallArgs r 0) with ⟨x,hres⟩ | ⟨o,_,_,hres⟩
      · exact ⟨_,hres⟩
      · exact ⟨_,hres⟩
    have heq : s.internalDestroyResource r =
        .ok ({ s with resources := res.1 }.setRetvalue r res.2.1) := by
      simp only [internalDestroyResource_layer,hres,ok_bind]
    refine ⟨res,_,hres,heq,rfl,?_,Function.update_self _ _ _,rfl,rfl,rfl⟩
    intro j hj
    cases j with
    | resources => exact absurd rfl hj
    | messagequeues => rfl
  | messagequeues =>
    have hother : ∀ {w : Kernel}, w.resources = s.resources →
        ∀ j, j ≠ LayerKind.messagequeues → w.layer j = s.layer j := by
      intro w hw j hj
      cases j with
      | resources => exact hw
      | messagequeues => exact absurd rfl hj
    rcases DescriptorLayer.destroyObject_cases messagequeueErrors s.messagequeues
        (s.syscallArgs r 0) with ⟨x,hres⟩ | ⟨q,hid,hnil,hres⟩
    · have heq : s.internalMqUnlink r = .ok (s.setRetvalue r x) := by
        simp only [internalMqUnlink_layer,hres,ok_bind]
      exact ⟨_,_,hres,heq,rfl,hother rfl,Function.update_self _ _ _,rfl,rfl,rfl⟩
    · obtain ⟨pool,_,heq⟩ := internalMqUnlink_eq h hid hnil
      exact ⟨_,_,hres,heq,rfl,hother rfl,Function.update_self _ _ _,rfl,rfl,rfl⟩

/-- The calls of one layer do not concern the other one. -/
theorem handler_otherLayer {j : LayerKind} (h : Inv s) (hj : k ≠ j)
    (hc : c = j.openCall ∨ c = j.closeCall ∨ c = j.destroyCall) (hok : handler c s r = .ok v) :
    v.layer k = s.layer k := by
  rcases hc with rfl | rfl | rfl
  · cases hres : s.openTrapped j r with
    | error f => cases (handler_open_error hres).symm.trans hok
    | ok res =>
      cases (handler_open_ok hres).symm.trans hok
      exact layer_opened_of_ne hj
  · rw [handler_close_eq] at hok
    obtain ⟨res,_,hok⟩ := exists_of_bind_eq_ok hok
    cases hok
    exact layer_withLayer_of_ne hj res.1
  · obtain ⟨_,_,_,hok',hdestroyed⟩ := handler_destroyed h j r
    cases hok.symm.trans hok'
    exact hdestroyed.other k hj

/-- The other calls leave the layers alone. -/
theorem Effect.layer_eq (he : Effect s r c v) (hc : usesLayer c = false) (hunlink : c ≠ .mqUnlink)
    (hfork : c ≠ .fork) (hspawn : c ≠ .spawn) (hexit : c ≠ .exit) : v.layer = s.layer := by
  cases he with
  | preempt hs => exact hs.layer
  | fork => exact absurd rfl hfork
  | spawn => exact absurd rfl hspawn
  | collect => exact absurd rfl hexit
  | replace => exact absurd rfl hexit
  | sleep hslept => exact hslept.layer
  | sleepNext hslept => exact hslept.layer
  | resource hc' => rcases hc' with rfl | rfl | rfl <;> cases hc
  | queue hc' => rcases hc' with rfl | rfl <;> cases hc
  | createQueue => cases hc
  | unlinkRefused => exact absurd rfl hunlink
  | unlink => exact absurd rfl hunlink
  | sendBlocks _ hslept => exact hslept.layer
  | receiveBlocks _ _ hslept => exact hslept.layer
  | _ => rfl

/-- An exit drops the handles of the process if it frees its PCB, and none otherwise. -/
theorem exit_follows (h : Inv s) (hL : (s.layer k).Sound) (hr : s.running = some r)
    (hc : syscallVector (s.syscallNum r).toNat = some .exit) (hok : s.internalExit r = .ok v)
    (hv : t.layer = v.layer) (hpcbs : t.pcbAllocator = v.pcbAllocator) :
    Follows k s (lifeEvent s t r .exit) t := by
  have hrA := h.running_allocated hr
  unfold lifeEvent
  cases handler_effect h hr hc hok with
  | resource hc => simp at hc
  | queue hc => simp at hc
  | replace =>
    have halloc : t.pcbAllocator.Allocated r := hpcbs ▸ hrA
    rw [if_pos halloc]
    exact follows_none (congrFun hv k)
  | @collect i p x L M hi hir hp hwakes hx hxr hLl hLr hMl hMr =>
    have hfree : ¬ t.pcbAllocator.Allocated r := by
      rw [hpcbs]
      intro halloc
      exact ((Pool.allocated_releaseBlock hrA r).mp halloc).1 rfl
    rw [if_neg hfree]
    apply follows_some
    dsimp only [Registry.apply]
    rcases internalExit_released h hr hc hok with hsame | hrel
    · have hnone : ((s.exiting i r p (s.syscallArgs r 0)).collected r p x L M).layer k =
          s.layer k → (s.layer k).registry.table r = [] := by
        intro heq
        have hnil : (s.layer k).descriptors r = [] := by
          rw [← heq]
          cases k with
          | resources => exact hLr.noneLeft
          | messagequeues => exact hMr.noneLeft
        dsimp only [DescriptorLayer.registry]
        rw [hnil,List.map_nil]
      have hstays : (s.layer k).registry.leave r = (s.layer k).registry := by
        unfold Registry.leave
        rw [hnone (congrFun hsame k)]
        rfl
      rw [hstays,hv,hsame]
    · obtain ⟨n,hn⟩ := hrel k
      rw [hv,hL.registry_releaseAll hn]

section Handled
variable {num : ℤ}

/-- An open is the event with the value it returns. -/
theorem open_follows (hL : (s.layer k).Sound)
    (hok : handler k.openCall (s.enterTrap r k.openCall.number args) r = .ok v)
    (hv : t.layer = v.layer) (hret : t.syscallRetvalue = v.syscallRetvalue) :
    Follows k s (callEvent k s t r k.openCall args) t := by
  cases hres : s.openWith k r args with
  | error f => cases (handler_open_error (openTrapped_enterTrap.trans hres)).symm.trans hok
  | ok res =>
    cases (handler_open_ok (openTrapped_enterTrap.trans hres)).symm.trans hok
    exact follows_opened hL hres ((congrFun hv k).trans layer_opened)
      ((congrFun hret r).trans syscallRetvalue_opened)

theorem close_follows (hL : (s.layer k).Sound)
    (hok : handler k.closeCall (s.enterTrap r k.closeCall.number args) r = .ok v)
    (hv : t.layer = v.layer) (hret : t.syscallRetvalue = v.syscallRetvalue) :
    Follows k s (callEvent k s t r k.closeCall args) t := by
  have harg : (s.enterTrap r k.closeCall.number args).syscallArgs r 0 = args.getD 0 0 :=
    syscallArgs_enterTrap (by cases k <;> decide)
  rw [handler_close_eq,harg,layer_enterTrap] at hok
  obtain ⟨res,hres,hok⟩ := exists_of_bind_eq_ok hok
  cases hok
  exact follows_closed hL hres ((congrFun hv k).trans (layer_withLayer _))
    ((congrFun hret r).trans (Function.update_self _ _ _))

theorem destroy_follows (h : Inv (s.enterTrap r k.destroyCall.number args))
    (hL : (s.layer k).Sound)
    (hok : handler k.destroyCall (s.enterTrap r k.destroyCall.number args) r = .ok v)
    (hv : t.layer = v.layer) (hret : t.syscallRetvalue = v.syscallRetvalue) :
    Follows k s (callEvent k s t r k.destroyCall args) t := by
  have harg : (s.enterTrap r k.destroyCall.number args).syscallArgs r 0 = args.getD 0 0 :=
    syscallArgs_enterTrap (by cases k <;> decide)
  obtain ⟨res,_,hres,hok',hdestroyed⟩ := handler_destroyed h k r
  cases hok.symm.trans hok'
  rw [harg,layer_enterTrap] at hres
  exact follows_destroyed hL hres ((congrFun hv k).trans hdestroyed.layer)
    ((congrFun hret r).trans hdestroyed.value)

/-- A call of the other layer is no event. -/
theorem otherLayer_follows {j : LayerKind} (h : Inv (s.enterTrap r num args)) (hj : k ≠ j)
    (hcall : c = j.openCall ∨ c = j.closeCall ∨ c = j.destroyCall)
    (hok : handler c (s.enterTrap r num args) r = .ok v) (hv : t.layer = v.layer) :
    Follows k s (lifeEvent s t r c) t := by
  have hnone : lifeEvent s t r c = none := by
    rcases hcall with rfl | rfl | rfl <;> cases j <;> rfl
  rw [hnone]
  exact follows_none ((congrFun hv k).trans
    ((handler_otherLayer h hj hcall hok).trans layer_enterTrap))

/-- A call of neither layer is an event if it starts a process or frees one. -/
theorem life_follows (h : Inv (s.enterTrap r num args)) (hL : (s.layer k).Sound)
    (hr : s.running = some r)
    (hc : syscallVector ((s.enterTrap r num args).syscallNum r).toNat = some c)
    (hcalls : ¬ ∃ j : LayerKind, c = j.openCall ∨ c = j.closeCall ∨ c = j.destroyCall)
    (hok : handler c (s.enterTrap r num args) r = .ok v) (hv : t.layer = v.layer)
    (hpcbs : t.pcbAllocator = v.pcbAllocator) : Follows k s (lifeEvent s t r c) t := by
  have hlayer : (s.enterTrap r num args).layer k = s.layer k := layer_enterTrap
  have heffect := handler_effect h hr hc hok
  cases c with
  | fork =>
    cases heffect with
    | @fork p x pool entries hb hx =>
      have hblock : s.pcbAllocator.getBlock = some (p,pool) := hb
      unfold lifeEvent
      rw [hblock,Option.map_some]
      exact follows_entered ((congrFun hv k).trans (by cases k <;> rfl))
    | resource hc => simp at hc
    | queue hc => simp at hc
  | spawn =>
    cases heffect with
    | @spawn p x pool entries hb hx =>
      have hblock : s.pcbAllocator.getBlock = some (p,pool) := hb
      unfold lifeEvent
      rw [hblock,Option.map_some]
      exact follows_entered ((congrFun hv k).trans (by cases k <;> rfl))
    | resource hc => simp at hc
    | queue hc => simp at hc
  | exit =>
    have hexit := exit_follows h (hlayer.symm ▸ hL) hr hc hok hv hpcbs
    unfold Follows at hexit ⊢
    rwa [hlayer] at hexit
  | openResource => exact absurd ⟨.resources,Or.inl rfl⟩ hcalls
  | closeResource => exact absurd ⟨.resources,Or.inr (Or.inl rfl)⟩ hcalls
  | destroyResource => exact absurd ⟨.resources,Or.inr (Or.inr rfl)⟩ hcalls
  | mqOpen => exact absurd ⟨.messagequeues,Or.inl rfl⟩ hcalls
  | mqClose => exact absurd ⟨.messagequeues,Or.inr (Or.inl rfl)⟩ hcalls
  | mqUnlink => exact absurd ⟨.messagequeues,Or.inr (Or.inr rfl)⟩ hcalls
  | _ =>
    have hsame := heffect.layer_eq rfl nofun nofun nofun nofun
    exact follows_none ((congrFun hv k).trans ((congrFun hsame k).trans hlayer))

theorem handled_follows (h : Inv s) (hL : (s.layer k).Sound) (hr : s.running = some r)
    (hc : syscallVector num.toNat = some c) (hok : handler c (s.enterTrap r num args) r = .ok v)
    (hv : t.layer = v.layer) (hret : t.syscallRetvalue = v.syscallRetvalue)
    (hpcbs : t.pcbAllocator = v.pcbAllocator) :
    Follows k s (callEvent k s t r c args) t := by
  have hnum := syscallVector_eq_some hc
  have h' := h.enterTrap hr num args
  by_cases hopen : c = k.openCall
  · subst hopen hnum
    exact open_follows hL hok hv hret
  by_cases hclose : c = k.closeCall
  · subst hclose hnum
    exact close_follows hL hok hv hret
  by_cases hdestroy : c = k.destroyCall
  · subst hdestroy hnum
    exact destroy_follows h' hL hok hv hret
  unfold callEvent
  rw [if_neg hopen,if_neg hclose,if_neg hdestroy]
  by_cases hcalls : ∃ j : LayerKind, c = j.openCall ∨ c = j.closeCall ∨ c = j.destroyCall
  · obtain ⟨j,hcall⟩ := hcalls
    refine otherLayer_follows h' ?_ hcall hok hv
    rintro rfl
    exact hcall.elim hopen (fun hcall => hcall.elim hclose hdestroy)
  · exact life_follows h' hL hr (syscallVector_enterTrap s args hc) hcalls hok hv hpcbs

end Handled

theorem Switched.syscallRetvalue (hsw : Switched v t) : t.syscallRetvalue = v.syscallRetvalue := by
  cases hsw <;> rfl

theorem Switched.pcbAllocator (hsw : Switched v t) : t.pcbAllocator = v.pcbAllocator := by
  cases hsw <;> rfl

/-- Every step is the event that its call is, or none, and returns the right value. -/
theorem step_follows (h : Inv s) (hL : (s.layer k).Sound) (hstep : s.step a = .ok t) :
    Follows k s (registryEvent k s a t) t := by
  have hcall : ∀ num args, a = .call num args → Follows k s (registryEvent k s a t) t := by
    rintro num args rfl
    obtain ⟨r,hr,_,_,hcalled⟩ := step_called hstep
    unfold registryEvent
    simp only [hr]
    cases hcalled with
    | refused hnum =>
      simp only [syscallVector_of_range hnum]
      exact follows_none (by cases k <;> rfl)
    | missing hnum hc hsw =>
      simp only [hc]
      exact follows_none ((congrFun hsw.layer k).trans (by cases k <;> rfl))
    | handled hnum hc hok hsw =>
      simp only [hc]
      exact handled_follows h hL hr hc hok hsw.layer hsw.syscallRetvalue hsw.pcbAllocator
  cases step_moves h hstep with
  | tick _ _ hs hsw => exact follows_none (congrFun (hsw.layer.trans hs.layer) k)
  | refused => exact hcall _ _ rfl
  | missing => exact hcall _ _ rfl
  | handled => exact hcall _ _ rfl
  | ret => exact follows_none (by cases k <;> rfl)
  | store => exact follows_none (by cases k <;> rfl)
  | @resumeMain p pool t hr hdown hb hsw =>
    unfold registryEvent
    simp only [hb,Option.map_some]
    exact follows_entered ((congrFun hsw.layer k).trans (by cases k <;> rfl))

end Kernel

end DisastrOS
