import DisastrOS.Behaviour.Descriptors
import Mathlib.Data.Finset.Card

/-! # How an open can end

An open is refused by its checks, or it takes a descriptor and a pointer, for an object that
is there or that it creates. There are as many descriptors as pointers at any time, so that
only the descriptor can be missing, and then the object that was created stays.
-/
namespace DisastrOS

namespace DescriptorLayer
variable {L L' : DescriptorLayer} {A : ℕ → Prop} {e : LayerErrors} {p o : ℕ} {id type openMode : ℤ}

/-- Every pointer handed out belongs to a descriptor, and the other way round. -/
theorem Linked.card_used (h : L.Linked A) :
    L.descriptorPtrAllocator.used.card = L.descriptorAllocator.used.card := by
  apply Finset.card_nbij L.descriptor
  · intro x hx
    obtain ⟨o,ho,hxo⟩ := h.covered x (Pool.mem_used.mp hx)
    exact Pool.mem_used.mpr (h.entry o ho x hxo).2.1
  · intro x hx y hy hxy
    obtain ⟨o,ho,hxo⟩ := h.covered x (Pool.mem_used.mp hx)
    obtain ⟨o',ho',hyo⟩ := h.covered y (Pool.mem_used.mp hy)
    rw [← (h.entry o ho x hxo).2.2.1,hxy,(h.entry o' ho' y hyo).2.2.1]
  · intro d hd
    obtain ⟨ho,hptr,hback⟩ := h.linked d (Pool.mem_used.mp hd)
    exact ⟨L.ptr d,Pool.mem_used.mpr (h.entry _ ho _ hptr).1,hback⟩

theorem Linked.getBlock_none_iff (h : L.Linked A) :
    L.descriptorPtrAllocator.getBlock = none ↔ L.descriptorAllocator.getBlock = none := by
  rw [Pool.getBlock_eq_none_iff,Pool.getBlock_eq_none_iff,h.card_used]

/-- There is a pointer for every descriptor that is to be had. -/
theorem Linked.exists_ptr (h : L.Linked A) {d : ℕ} {dPool : Pool maxNumProcesses}
    (hd : L.descriptorAllocator.getBlock = some (d,dPool)) :
    ∃ x xPool, L.descriptorPtrAllocator.getBlock = some (x,xPool) := by
  have hne : L.descriptorPtrAllocator.getBlock ≠ none := by
    intro hnone
    cases hd.symm.trans (h.getBlock_none_iff.mp hnone)
  obtain ⟨⟨x,xPool⟩,hx⟩ := Option.ne_none_iff_exists'.mp hne
  exact ⟨x,xPool,hx⟩

/-- The open creates its object, and then there is no descriptor to be had. -/
def FailsLate (L : DescriptorLayer) (id openMode : ℤ) : Prop :=
  hasFlag openMode dsosCreate = true ∧ L.byId id = none ∧ L.objectAllocator.getBlock ≠ none ∧
    L.descriptorAllocator.getBlock = none

/-- The ends of an open by `p`. The descriptor is entered in the layer as it was, or in the
one with the new object. -/
inductive Opened (e : LayerErrors) (L : DescriptorLayer) (p : ℕ) (id type openMode : ℤ) :
    Except Fault OpenResult → Prop
  | noObject (hnone : L.objectAllocator.getBlock = none) :
      Opened e L p id type openMode (.error .nullPointer)
  | refused {v : ℤ} : Opened e L p id type openMode (.ok ⟨L,v,none⟩)
  | late {o : ℕ} {L' : DescriptorLayer} (hlate : L.FailsLate id openMode)
      (ha : L.allocObject id type = .ok (o,L')) :
      Opened e L p id type openMode (.ok ⟨L',e.noFd,some o⟩)
  | opened {o d x : ℕ} {dPool xPool : Pool maxNumProcesses} (hid : L.byId id = some o)
      (hd : L.descriptorAllocator.getBlock = some (d,dPool)) :
      Opened e L p id type openMode (.ok ⟨L.publish p o d x dPool xPool,L.lastFd p,none⟩)
  | created {o d x : ℕ} {dPool xPool : Pool maxNumProcesses} {L' : DescriptorLayer}
      (ha : L.allocObject id type = .ok (o,L'))
      (hd : L.descriptorAllocator.getBlock = some (d,dPool)) :
      Opened e L p id type openMode (.ok ⟨L'.publish p o d x dPool xPool,L.lastFd p,some o⟩)

theorem openDescriptor_none (hb : L.descriptorAllocator.getBlock = none) (htype : L.type o = type)
    (hexcl : ¬ (hasFlag openMode dsosExcl ∧ (L.descriptorsPtrs o).length ≠ 0))
    {created : Option ℕ} :
    L.openDescriptor e p o type openMode created = .ok ⟨L,e.noFd,created⟩ := by
  unfold openDescriptor
  rw [if_neg (not_not.mpr htype),if_neg hexcl,hb]

theorem openDescriptor_some {d x : ℕ} {dPool xPool : Pool maxNumProcesses}
    (hd : L.descriptorAllocator.getBlock = some (d,dPool))
    (hx : L.descriptorPtrAllocator.getBlock = some (x,xPool)) (htype : L.type o = type)
    (hexcl : ¬ (hasFlag openMode dsosExcl ∧ (L.descriptorsPtrs o).length ≠ 0))
    {created : Option ℕ} : L.openDescriptor e p o type openMode created =
      .ok ⟨L.publish p o d x dPool xPool,L.lastFd p,created⟩ := by
  unfold openDescriptor
  rw [if_neg (not_not.mpr htype),if_neg hexcl,hd]
  simp only [hx]

/-- A new object passes the checks of the open that creates it. -/
theorem Linked.openDescriptor_new (h : L.Linked A) (openMode : ℤ)
    (ha : L.allocObject id type = .ok (o,L')) :
    L'.type o = type ∧
      ¬ (hasFlag openMode dsosExcl ∧ (L'.descriptorsPtrs o).length ≠ 0) ∧
      L'.descriptorAllocator = L.descriptorAllocator ∧
      L'.descriptorPtrAllocator = L.descriptorPtrAllocator ∧ L'.lastFd = L.lastFd := by
  obtain ⟨_,_,_,hnil,htype⟩ := h.allocObject ha
  have hexcl : ¬ (hasFlag openMode dsosExcl ∧ (L'.descriptorsPtrs o).length ≠ 0) := by
    rw [hnil]
    simp
  unfold DescriptorLayer.allocObject at ha
  split at ha
  · cases ha
  · cases ha
    exact ⟨htype,hexcl,rfl,rfl,rfl⟩

theorem allocObject_of_ne_none (id type : ℤ) (hne : L.objectAllocator.getBlock ≠ none) :
    ∃ o L', L.allocObject id type = .ok (o,L') := by
  obtain ⟨⟨o,pool⟩,ho⟩ := Option.ne_none_iff_exists'.mp hne
  unfold allocObject
  rw [ho]
  exact ⟨_,_,rfl⟩

theorem id_allocObject (ha : L.allocObject id type = .ok (o,L')) : L'.id o = id := by
  unfold allocObject at ha
  split at ha
  · cases ha
  · cases ha
    exact Function.update_self _ _ _

theorem allocObject_none (id type : ℤ) (hnone : L.objectAllocator.getBlock = none) :
    L.allocObject id type = .error .nullPointer := by
  unfold allocObject
  rw [hnone]

/-- An open ends in one of these ways, the pointer being checked nowhere. -/
theorem Linked.openObject_opened (h : L.Linked A) (e : LayerErrors) (p : ℕ)
    (id type openMode : ℤ) :
    Opened e L p id type openMode (L.openObject e p id type openMode) := by
  unfold DescriptorLayer.openObject
  split
  · exact .refused
  · rename_i hflag hid
    by_cases hnone : L.objectAllocator.getBlock = none
    · rw [allocObject_none id type hnone]
      exact .noObject hnone
    · obtain ⟨o,L',ha⟩ := allocObject_of_ne_none id type hnone
      simp only [ha,ok_bind]
      obtain ⟨htype,hexcl,hdPool,hxPool,hfd⟩ := h.openDescriptor_new openMode ha
      cases hd : L.descriptorAllocator.getBlock with
      | none =>
        have hok : L'.openDescriptor e p o type openMode (some o) = .ok ⟨L',e.noFd,some o⟩ :=
          openDescriptor_none (hdPool ▸ hd) htype hexcl
        rw [hok]
        exact .late ⟨hflag,hid,hnone,hd⟩ ha
      | some b =>
        obtain ⟨d,dPool⟩ := b
        obtain ⟨x,xPool,hx⟩ := h.exists_ptr hd
        have hok : L'.openDescriptor e p o type openMode (some o) =
            .ok ⟨L'.publish p o d x dPool xPool,L'.lastFd p,some o⟩ :=
          openDescriptor_some (hdPool ▸ hd) (hxPool ▸ hx) htype hexcl
        rw [hok,hfd]
        exact .created ha hd
  · rename_i o hflag hid
    unfold DescriptorLayer.openDescriptor
    split
    · exact .refused
    · split
      · exact .refused
      · split
        · exact .refused
        · rename_i d dPool hd
          obtain ⟨x,xPool,hx⟩ := h.exists_ptr hd
          rw [hx]
          exact .opened hid hd
  · exact .refused

/-- What an open does that fails late. -/
theorem Linked.openObject_late (h : L.Linked A) (e : LayerErrors) (p : ℕ) (type : ℤ)
    (hlate : L.FailsLate id openMode) : ∃ o L', L.allocObject id type = .ok (o,L') ∧
      L.openObject e p id type openMode = .ok ⟨L',e.noFd,some o⟩ := by
  obtain ⟨hflag,hid,hne,hd⟩ := hlate
  obtain ⟨o,L',ha⟩ := allocObject_of_ne_none id type hne
  obtain ⟨htype,hexcl,hdPool,_,_⟩ := h.openDescriptor_new openMode ha
  refine ⟨o,L',ha,?_⟩
  unfold DescriptorLayer.openObject
  rw [hflag,hid]
  simp only [ha,ok_bind]
  exact openDescriptor_none (hdPool ▸ hd) htype hexcl

end DescriptorLayer

open DescriptorLayer

namespace Kernel
variable {s t u v : Kernel} {r : ℕ} {k : LayerKind} {args : List ℤ} {res : OpenResult} {f : Fault}

/-- The open that the call on record asks for. -/
def openTrapped (s : Kernel) (k : LayerKind) (r : ℕ) : Except Fault OpenResult :=
  (s.layer k).openObject k.errors r (s.syscallArgs r 0) (s.syscallArgs r 1)
    (s.syscallArgs r k.modeArg)

/-- The kernel with the result of an open of `r`. -/
def opened (s : Kernel) (k : LayerKind) (r : ℕ) (res : OpenResult) : Kernel :=
  match k, res.created with
  | .resources, _ => { s with resources := res.layer }.setRetvalue r res.retvalue
  | .messagequeues, none => { s with messagequeues := res.layer }.setRetvalue r res.retvalue
  | .messagequeues, some q => ({ s with messagequeues := res.layer }.initQueue
      (s.syscallArgs r 2) (s.syscallArgs r 3) q).setRetvalue r res.retvalue

theorem handler_open_ok (hok : s.openTrapped k r = .ok res) :
    handler k.openCall s r = .ok (s.opened k r res) := by
  cases k with
  | resources =>
    have hopen : s.resources.openObject resourceErrors r (s.syscallArgs r 0) (s.syscallArgs r 1)
      (s.syscallArgs r 2) = .ok res := hok
    simp only [LayerKind.openCall,handler,internalOpenResource_layer,hopen,ok_bind]
    rfl
  | messagequeues =>
    have hopen : s.messagequeues.openObject messagequeueErrors r (s.syscallArgs r 0)
      (s.syscallArgs r 1) (s.syscallArgs r 4) = .ok res := hok
    simp only [LayerKind.openCall,handler,internalMqOpen_layer,hopen,ok_bind]
    unfold opened
    cases res.created <;> rfl

theorem handler_open_error (herr : s.openTrapped k r = .error f) :
    handler k.openCall s r = .error f := by
  cases k with
  | resources =>
    have hopen : s.resources.openObject resourceErrors r (s.syscallArgs r 0) (s.syscallArgs r 1)
      (s.syscallArgs r 2) = .error f := herr
    simp only [LayerKind.openCall,handler,internalOpenResource_layer,hopen,error_bind]
  | messagequeues =>
    have hopen : s.messagequeues.openObject messagequeueErrors r (s.syscallArgs r 0)
      (s.syscallArgs r 1) (s.syscallArgs r 4) = .error f := herr
    simp only [LayerKind.openCall,handler,internalMqOpen_layer,hopen,error_bind]

theorem layer_opened : (s.opened k r res).layer k = res.layer := by
  unfold opened
  cases k <;> cases res.created <;> rfl

theorem layer_opened_of_ne {j : LayerKind} (hj : j ≠ k) :
    (s.opened k r res).layer j = s.layer j := by
  unfold opened
  cases k <;> cases res.created <;> cases j <;> first | rfl | exact absurd rfl hj

theorem syscallRetvalue_opened : (s.opened k r res).syscallRetvalue r = res.retvalue := by
  unfold opened
  cases k <;> cases res.created <;> exact Function.update_self _ _ _

theorem cpuState_opened : (s.opened k r res).cpuState = s.cpuState := by
  unfold opened
  cases k <;> cases res.created <;> rfl

/-- The open of the layer that a call with these arguments asks for. -/
def openWith (s : Kernel) (k : LayerKind) (r : ℕ) (args : List ℤ) : Except Fault OpenResult :=
  (s.layer k).openObject k.errors r (args.getD 0 0) (args.getD 1 0) (args.getD k.modeArg 0)

theorem openTrapped_enterTrap :
    (s.enterTrap r k.openCall.number args).openTrapped k r = s.openWith k r args := by
  have harg : ∀ i, i < syscallNumarg (k.openCall.number : ℤ).toNat →
      (s.enterTrap r k.openCall.number args).syscallArgs r i = args.getD i 0 :=
    fun i hi => syscallArgs_enterTrap hi
  unfold openTrapped openWith
  rw [harg 0 (by cases k <;> decide),harg 1 (by cases k <;> decide),
    harg k.modeArg (by cases k <;> decide)]
  rfl

theorem noFd_neg (k : LayerKind) : k.errors.noFd < 0 := by
  cases k <;> decide

/-- What an open changes besides the layer is seen by its caller alone, or in a new queue. -/
structure Unmoved (s t : Kernel) (r : ℕ) : Prop where
  running : t.running = s.running
  down : t.shutdownNow = s.shutdownNow
  pcbs : t.pcbAllocator = s.pcbAllocator
  pcbPtrs : t.pcbPtrAllocator = s.pcbPtrAllocator
  timerItems : t.timerItemAllocator = s.timerItemAllocator
  messageBlocks : t.messageAllocator = s.messageAllocator
  readyList : t.readyList = s.readyList
  timerList : t.timerList = s.timerList
  contexts : ∀ p, p ≠ r → t.cpuState p = s.cpuState p

theorem Unmoved.trans (h : Unmoved s t r) (h' : Unmoved t u r) : Unmoved s u r where
  running := h'.running.trans h.running
  down := h'.down.trans h.down
  pcbs := h'.pcbs.trans h.pcbs
  pcbPtrs := h'.pcbPtrs.trans h.pcbPtrs
  timerItems := h'.timerItems.trans h.timerItems
  messageBlocks := h'.messageBlocks.trans h.messageBlocks
  readyList := h'.readyList.trans h.readyList
  timerList := h'.timerList.trans h.timerList
  contexts p hp := (h'.contexts p hp).trans (h.contexts p hp)

theorem unmoved_enterTrap (s : Kernel) (r : ℕ) (num : ℤ) (args : List ℤ) :
    Unmoved s (s.enterTrap r num args) r :=
  ⟨rfl,rfl,rfl,rfl,rfl,rfl,rfl,rfl,fun _ hp => Function.update_of_ne hp _ _⟩

theorem unmoved_opened (s : Kernel) (k : LayerKind) (r : ℕ) (res : OpenResult) :
    Unmoved s (s.opened k r res) r := by
  unfold opened
  cases k <;> cases res.created <;> exact ⟨rfl,rfl,rfl,rfl,rfl,rfl,rfl,rfl,fun _ _ => rfl⟩

/-- The state behind an open of `r`. -/
def afterOpen (s : Kernel) (k : LayerKind) (r : ℕ) (args : List ℤ) (res : OpenResult) : Kernel :=
  { (s.enterTrap r k.openCall.number args).opened k r res with cpu := .syscall }

theorem step_open_ok (hr : s.running = some r) (hdown : s.shutdownNow = false)
    (hcpu : s.cpu ≠ .syscall) (hok : s.openWith k r args = .ok res) :
    s.step (.call k.openCall.number args) = .ok (s.afterOpen k r args res) := by
  have hh := handler_open_ok (openTrapped_enterTrap.trans hok)
  have hun := (unmoved_enterTrap s r k.openCall.number args).trans (unmoved_opened _ k r res)
  have hc : syscallVector (k.openCall.number : ℤ).toNat = some k.openCall := by cases k <;> rfl
  exact step_resumes hr hdown hcpu hc hh (hun.running.trans hr) (hun.down.trans hdown)
    (congrFun cpuState_opened r)

theorem step_open_error (hr : s.running = some r) (hdown : s.shutdownNow = false)
    (hcpu : s.cpu ≠ .syscall) (herr : s.openWith k r args = .error f) :
    s.step (.call k.openCall.number args) = .error f := by
  have hc : syscallVector (k.openCall.number : ℤ).toNat = some k.openCall := by cases k <;> rfl
  rw [step_call hr hdown hcpu hc,handler_open_error (openTrapped_enterTrap.trans herr),error_bind]

@[simp] theorem layer_afterOpen : (s.afterOpen k r args res).layer k = res.layer := layer_opened

theorem layer_afterOpen_of_ne {j : LayerKind} (hj : j ≠ k) :
    (s.afterOpen k r args res).layer j = s.layer j :=
  layer_opened_of_ne (s := s.enterTrap r k.openCall.number args) hj

@[simp] theorem syscallRetvalue_afterOpen :
    (s.afterOpen k r args res).syscallRetvalue r = res.retvalue := syscallRetvalue_opened

theorem unmoved_afterOpen (s : Kernel) (k : LayerKind) (r : ℕ) (args : List ℤ)
    (res : OpenResult) : Unmoved s (s.afterOpen k r args res) r :=
  { (unmoved_enterTrap s r k.openCall.number args).trans (unmoved_opened _ k r res) with }

end Kernel

end DisastrOS
