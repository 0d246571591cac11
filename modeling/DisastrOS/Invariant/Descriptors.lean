import DisastrOS.Invariant.LayerMachine

/-! # The cross references of a descriptor layer

A descriptor names its object and its entry in the object's list, and the entry
names the descriptor. Blocks handed out and blocks on a list are the same, except
that a descriptor may have lost its process: the list of a recycled PCB starts
empty, and the descriptors of its previous owner stay linked to their objects.
-/
namespace DisastrOS

structure DescriptorLayer.Linked (L : DescriptorLayer) (allocated : ℕ → Prop) : Prop where
  objectsNodup : L.objectsList.Nodup
  objects : ∀ o, L.objectAllocator.Allocated o ↔ o ∈ L.objectsList
  ptrsNodup : ∀ o ∈ L.objectsList, (L.descriptorsPtrs o).Nodup
  entry : ∀ o ∈ L.objectsList, ∀ x ∈ L.descriptorsPtrs o,
    L.descriptorPtrAllocator.Allocated x ∧ L.descriptorAllocator.Allocated (L.descriptor x) ∧
      L.ptr (L.descriptor x) = x ∧ L.object (L.descriptor x) = o
  linked : ∀ d, L.descriptorAllocator.Allocated d → L.object d ∈ L.objectsList ∧
    L.ptr d ∈ L.descriptorsPtrs (L.object d) ∧ L.descriptor (L.ptr d) = d
  covered : ∀ x, L.descriptorPtrAllocator.Allocated x →
    ∃ o ∈ L.objectsList, x ∈ L.descriptorsPtrs o
  descriptorsNodup : ∀ p, allocated p → (L.descriptors p).Nodup
  owned : ∀ p, allocated p → ∀ d ∈ L.descriptors p,
    L.descriptorAllocator.Allocated d ∧ L.pcb d = p

namespace DescriptorLayer
variable {L L' L'' : DescriptorLayer} {A A' : ℕ → Prop} {p d o : ℕ} {e : LayerErrors}
variable {owner owner' : ℕ → Prop}

/-- A descriptor of `L'` is on the list of an owner, or it was there in `L` already and
has left no list. -/
def Keeps (L L' : DescriptorLayer) (owner : ℕ → Prop) : Prop :=
  ∀ d, L'.descriptorAllocator.Allocated d → (∃ p, owner p ∧ d ∈ L'.descriptors p) ∨
    L.descriptorAllocator.Allocated d ∧ ∀ p, d ∈ L.descriptors p → d ∈ L'.descriptors p

theorem Keeps.refl (L : DescriptorLayer) (owner : ℕ → Prop) : L.Keeps L owner :=
  fun _ hd => Or.inr ⟨hd,fun _ hp => hp⟩

theorem Keeps.trans (h : L.Keeps L' owner) (h' : L'.Keeps L'' owner) : L.Keeps L'' owner := by
  intro d hd
  rcases h' d hd with hnew | ⟨hd',hkept'⟩
  · exact Or.inl hnew
  · rcases h d hd' with ⟨p,hp,hdp⟩ | ⟨hold,hkept⟩
    · exact Or.inl ⟨p,hp,hkept' p hdp⟩
    · exact Or.inr ⟨hold,fun p hdp => hkept' p (hkept p hdp)⟩

theorem Keeps.mono (h : L.Keeps L' owner) (ho : ∀ p, owner p → owner' p) : L.Keeps L' owner' := by
  intro d hd
  rcases h d hd with ⟨p,hp,hdp⟩ | hold
  · exact Or.inl ⟨p,ho p hp,hdp⟩
  · exact Or.inr hold

namespace Linked

theorem initial : DescriptorLayer.initial.Linked A := by
  constructor <;> simp [DescriptorLayer.initial]

theorem mono (h : L.Linked A) (hA : ∀ q, A' q → A q) : L.Linked A' :=
  { h with
    descriptorsNodup := fun q hq => h.descriptorsNodup q (hA q hq)
    owned := fun q hq => h.owned q (hA q hq) }

/-- A new process starts without descriptors. -/
theorem initProcess (h : L.Linked A) (hA : ∀ q, A' q ↔ q = p ∨ A q) :
    (L.initProcess p).Linked A' := by
  have hlist : ∀ q, A' q → (L.initProcess p).descriptors q = [] ∨
      (A q ∧ (L.initProcess p).descriptors q = L.descriptors q) := by
    intro q hq
    by_cases hqp : q = p
    · subst hqp
      exact Or.inl (Function.update_self _ _ _)
    · exact Or.inr ⟨((hA q).mp hq).resolve_left hqp,Function.update_of_ne hqp _ _⟩
  refine ⟨h.objectsNodup,h.objects,h.ptrsNodup,h.entry,h.linked,h.covered,?_,?_⟩
  · intro q hq
    rcases hlist q hq with hnil | ⟨hqA,heq⟩
    · rw [hnil]
      exact List.nodup_nil
    · rw [heq]
      exact h.descriptorsNodup q hqA
  · intro q hq d hd
    rcases hlist q hq with hnil | ⟨hqA,heq⟩
    · rw [hnil] at hd
      cases hd
    · rw [heq] at hd
      exact h.owned q hqA d hd

/-- Distinct descriptors have distinct entries. -/
theorem ptr_injective (h : L.Linked A) {d d' : ℕ} (hd : L.descriptorAllocator.Allocated d)
    (hd' : L.descriptorAllocator.Allocated d') (he : L.ptr d = L.ptr d') : d = d' := by
  have h1 := (h.linked d hd).2.2
  have h2 := (h.linked d' hd').2.2
  rw [← h1,he,h2]

/-- An entry is on the list of one object. -/
theorem entry_unique (h : L.Linked A) {o o' x : ℕ} (ho : o ∈ L.objectsList)
    (ho' : o' ∈ L.objectsList) (hx : x ∈ L.descriptorsPtrs o) (hx' : x ∈ L.descriptorsPtrs o') :
    o = o' := by
  rw [← (h.entry o ho x hx).2.2.2,(h.entry o' ho' x hx').2.2.2]

end Linked

/-- The layer after a descriptor has been unlinked. -/
def unlinked (L : DescriptorLayer) (p d : ℕ) : DescriptorLayer :=
  { L with
    descriptors := Function.update L.descriptors p ((L.descriptors p).erase d)
    descriptorsPtrs := Function.update L.descriptorsPtrs (L.object d)
      ((L.descriptorsPtrs (L.object d)).erase (L.ptr d))
    descriptorAllocator := L.descriptorAllocator.releaseBlock d
    descriptorPtrAllocator := L.descriptorPtrAllocator.releaseBlock (L.ptr d) }

namespace Linked

/-- Both detaches of an unlink find their item. -/
theorem unlink_eq (h : L.Linked A) (hp : A p) (hd : d ∈ L.descriptors p) :
    L.unlink p d = .ok (L.unlinked p d) := by
  have hlink := h.linked d (h.owned p hp d hd).1
  simp only [unlink,listDetach_mem hd,ok_bind,listDetach_mem hlink.2.1]
  rfl

theorem mem_ptrs_unlinked (h : L.Linked A) (hp : A p) (hd : d ∈ L.descriptors p) {x : ℕ}
    (ho : o ∈ L.objectsList) :
    x ∈ (L.unlinked p d).descriptorsPtrs o ↔ x ∈ L.descriptorsPtrs o ∧ x ≠ L.ptr d := by
  have hlink := h.linked d (h.owned p hp d hd).1
  refine (mem_update_erase (h.ptrsNodup _ hlink.1)).trans (and_congr_right fun hx => ?_)
  refine ⟨?_,fun hne _ => hne⟩
  rintro hne rfl
  exact hne (h.entry_unique ho hlink.1 hx hlink.2.1) rfl

theorem allocated_unlinked (h : L.Linked A) (hp : A p) (hd : d ∈ L.descriptors p) (d' : ℕ) :
    (L.unlinked p d).descriptorAllocator.Allocated d' ↔
      d' ≠ d ∧ L.descriptorAllocator.Allocated d' :=
  Pool.allocated_releaseBlock (h.owned p hp d hd).1 d'

theorem ptrAllocated_unlinked (h : L.Linked A) (hp : A p) (hd : d ∈ L.descriptors p) (x : ℕ) :
    (L.unlinked p d).descriptorPtrAllocator.Allocated x ↔
      x ≠ L.ptr d ∧ L.descriptorPtrAllocator.Allocated x := by
  have hlink := h.linked d (h.owned p hp d hd).1
  exact Pool.allocated_releaseBlock (h.entry _ hlink.1 _ hlink.2.1).1 x

theorem mem_descriptors_unlinked (h : L.Linked A) (hp : A p) {q d' : ℕ} (hq : A q)
    (hd : d ∈ L.descriptors p) :
    d' ∈ (L.unlinked p d).descriptors q ↔ d' ∈ L.descriptors q ∧ d' ≠ d := by
  refine (mem_update_erase (h.descriptorsNodup p hp)).trans (and_congr_right fun hd' => ?_)
  refine ⟨?_,fun hne _ => hne⟩
  rintro hne rfl
  exact hne ((h.owned q hq d' hd').2.symm.trans (h.owned p hp d' hd).2) rfl

theorem keeps_unlinked (h : L.Linked A) (hp : A p) (hd : d ∈ L.descriptors p) :
    L.Keeps (L.unlinked p d) owner := by
  intro d' hd'
  obtain ⟨hne,hd'⟩ := (h.allocated_unlinked hp hd d').mp hd'
  refine Or.inr ⟨hd',?_⟩
  intro q hq
  exact (mem_update_erase (h.descriptorsNodup p hp)).mpr ⟨hq,fun _ => hne⟩

theorem unlinked (h : L.Linked A) (hp : A p) (hd : d ∈ L.descriptors p) :
    (L.unlinked p d).Linked A := by
  have hlink := h.linked d (h.owned p hp d hd).1
  have hptrs := fun {o x} (ho : o ∈ L.objectsList) => h.mem_ptrs_unlinked (x := x) hp hd ho
  constructor
  case objectsNodup => exact h.objectsNodup
  case objects => exact h.objects
  case ptrsNodup => exact fun o ho => nodup_update_erase (h.ptrsNodup o ho)
  case entry =>
    intro o ho x hx
    obtain ⟨hxo,hxd⟩ := (hptrs ho).mp hx
    obtain ⟨hx1,hx2,hx3,hx4⟩ := h.entry o ho x hxo
    refine ⟨(h.ptrAllocated_unlinked hp hd x).mpr ⟨hxd,hx1⟩,
      (h.allocated_unlinked hp hd _).mpr ⟨?_,hx2⟩,hx3,hx4⟩
    rintro hde
    exact hxd (hx3.symm.trans (congrArg L.ptr hde))
  case linked =>
    intro d' hd'
    obtain ⟨hne,hal⟩ := (h.allocated_unlinked hp hd d').mp hd'
    obtain ⟨h1,h2,h3⟩ := h.linked d' hal
    refine ⟨h1,(hptrs h1).mpr ⟨h2,?_⟩,h3⟩
    intro he
    exact hne (h.ptr_injective hal (h.owned p hp d hd).1 he)
  case covered =>
    intro x hx
    obtain ⟨hne,hal⟩ := (h.ptrAllocated_unlinked hp hd x).mp hx
    obtain ⟨o,ho,hxo⟩ := h.covered x hal
    exact ⟨o,ho,(hptrs ho).mpr ⟨hxo,hne⟩⟩
  case descriptorsNodup => exact fun q hq => nodup_update_erase (h.descriptorsNodup q hq)
  case owned =>
    intro q hq d' hd'
    obtain ⟨hmem,hne⟩ := (h.mem_descriptors_unlinked hp hq hd).mp hd'
    obtain ⟨hal,hpcb⟩ := h.owned q hq d' hmem
    exact ⟨(h.allocated_unlinked hp hd d').mpr ⟨hne,hal⟩,hpcb⟩

end Linked

/-- What the release loop of an exit does: every descriptor of the process is gone
from its object and both blocks are free, and nothing else has changed. -/
structure Released (L L' : DescriptorLayer) (p : ℕ) : Prop where
  objectsList : L'.objectsList = L.objectsList
  objectAllocator : L'.objectAllocator = L.objectAllocator
  id : L'.id = L.id
  noneLeft : L'.descriptors p = []
  others : ∀ q, q ≠ p → L'.descriptors q = L.descriptors q
  ptrs : ∀ o ∈ L.objectsList, ∀ x, x ∈ L'.descriptorsPtrs o ↔
    x ∈ L.descriptorsPtrs o ∧ ∀ d ∈ L.descriptors p, x ≠ L.ptr d
  allocated : ∀ d, L'.descriptorAllocator.Allocated d ↔
    L.descriptorAllocator.Allocated d ∧ d ∉ L.descriptors p
  ptrAllocated : ∀ x, L'.descriptorPtrAllocator.Allocated x ↔
    L.descriptorPtrAllocator.Allocated x ∧ ∀ d ∈ L.descriptors p, x ≠ L.ptr d

/-- One pass of the loop in front of the remaining ones. -/
theorem Released.unlinked {L' : DescriptorLayer} (h : L.Linked A) (hp : A p)
    (hd : d ∈ L.descriptors p) (hr : (L.unlinked p d).Released L' p) : L.Released L' p := by
  have hall : ∀ (P : ℕ → Prop), P d ∧ (∀ d' ∈ (L.unlinked p d).descriptors p, P d') ↔
      ∀ d' ∈ L.descriptors p, P d' := by
    intro P
    constructor
    · rintro ⟨hPd,hP⟩ d' hd'
      by_cases hdd : d' = d
      · exact hdd ▸ hPd
      · exact hP d' ((h.mem_descriptors_unlinked hp hp hd).mpr ⟨hd',hdd⟩)
    · intro hP
      exact ⟨hP d hd,fun d' hd' => hP d' ((h.mem_descriptors_unlinked hp hp hd).mp hd').1⟩
  constructor
  case objectsList => exact hr.objectsList
  case objectAllocator => exact hr.objectAllocator
  case id => exact hr.id
  case noneLeft => exact hr.noneLeft
  case others =>
    intro q hq
    rw [hr.others q hq]
    exact Function.update_of_ne hq _ _
  case ptrs =>
    intro o ho x
    rw [hr.ptrs o ho x,h.mem_ptrs_unlinked hp hd ho,and_assoc]
    exact and_congr_right (fun _ => hall (fun d' => x ≠ L.ptr d'))
  case allocated =>
    intro d'
    rw [hr.allocated d',h.allocated_unlinked hp hd,h.mem_descriptors_unlinked hp hp hd]
    by_cases hdd : d' = d
    · subst hdd
      simp [hd]
    · simp [hdd]
  case ptrAllocated =>
    intro x
    rw [hr.ptrAllocated x,h.ptrAllocated_unlinked hp hd]
    rw [← hall (fun d' => x ≠ L.ptr d'),and_comm (a := x ≠ L.ptr d),and_assoc]
    rfl

theorem Linked.releaseAll (h : L.Linked A) (hp : A p) {n : ℕ} (hn : (L.descriptors p).length = n) :
    ∃ L', L.releaseAll p n = .ok L' ∧ L'.Linked A ∧ L.Released L' p := by
  induction n generalizing L with
  | zero =>
    have hnil := List.length_eq_zero_iff.mp hn
    refine ⟨L,?_,h,?_⟩
    · simp only [DescriptorLayer.releaseAll,hnil]
    · constructor <;> simp [hnil]
  | succ n ih =>
    cases hds : L.descriptors p with
    | nil => simp [hds] at hn
    | cons d ds =>
      have hd : d ∈ L.descriptors p := by
        rw [hds]
        exact List.mem_cons_self
      have hlen : ((L.unlinked p d).descriptors p).length = n := by
        simp only [DescriptorLayer.unlinked,Function.update_self,List.length_erase_of_mem hd]
        omega
      obtain ⟨L',hok,hL',hrel⟩ := ih (h.unlinked hp hd) hlen
      refine ⟨L',?_,hL',hrel.unlinked h hp hd⟩
      simp only [DescriptorLayer.releaseAll,hds,h.unlink_eq hp hd,ok_bind]
      exact hok

theorem byFd_eq_some {fd : ℤ} (h : L.byFd p fd = some d) : d ∈ L.descriptors p ∧ L.fd d = fd := by
  unfold byFd at h
  exact ⟨List.mem_of_find?_eq_some h,by simpa using List.find?_some h⟩

theorem byId_eq_some {id : ℤ} (h : L.byId id = some o) : o ∈ L.objectsList ∧ L.id o = id := by
  unfold byId at h
  exact ⟨List.mem_of_find?_eq_some h,by simpa using List.find?_some h⟩

/-- A close never detaches from the wrong list. -/
theorem Linked.closeDescriptor (h : L.Linked A) (hp : A p) (fd : ℤ) :
    ∃ r, L.closeDescriptor e p fd = .ok r ∧ r.1.Linked A ∧
      r.1.objectsList = L.objectsList ∧ L.Keeps r.1 (· = p) := by
  unfold DescriptorLayer.closeDescriptor
  cases hfd : L.byFd p fd with
  | none => exact ⟨(L,e.close),rfl,h,rfl,Keeps.refl L _⟩
  | some d =>
    have hd := (byFd_eq_some hfd).1
    refine ⟨(L.unlinked p d,0),?_,h.unlinked hp hd,rfl,h.keeps_unlinked hp hd⟩
    simp only [h.unlink_eq hp hd,ok_bind]

/-- The layer after an unused object has been destroyed. -/
def destroyed (L : DescriptorLayer) (o : ℕ) : DescriptorLayer :=
  { L with
    objectsList := L.objectsList.erase o
    objectAllocator := L.objectAllocator.releaseBlock o }

theorem keeps_destroyed (L : DescriptorLayer) (o : ℕ) (owner : ℕ → Prop) :
    L.Keeps (L.destroyed o) owner := fun _ hd => Or.inr ⟨hd,fun _ hp => hp⟩

theorem Linked.destroyed (h : L.Linked A) (ho : o ∈ L.objectsList)
    (hnil : L.descriptorsPtrs o = []) : (L.destroyed o).Linked A := by
  have hmem : ∀ o', o' ∈ (L.destroyed o).objectsList ↔ o' ≠ o ∧ o' ∈ L.objectsList :=
    fun o' => h.objectsNodup.mem_erase_iff
  have hne : ∀ o' x, x ∈ L.descriptorsPtrs o' → o' ≠ o := by
    rintro o' x hx rfl
    rw [hnil] at hx
    cases hx
  constructor
  case objectsNodup => exact h.objectsNodup.erase o
  case objects =>
    intro o'
    rw [hmem o',← h.objects o']
    exact Pool.allocated_releaseBlock ((h.objects o).mpr ho) o'
  case ptrsNodup => exact fun o' ho' => h.ptrsNodup o' ((hmem o').mp ho').2
  case entry => exact fun o' ho' => h.entry o' ((hmem o').mp ho').2
  case linked =>
    intro d hd
    obtain ⟨h1,h2,h3⟩ := h.linked d hd
    exact ⟨(hmem _).mpr ⟨hne _ _ h2,h1⟩,h2,h3⟩
  case covered =>
    intro x hx
    obtain ⟨o',ho',hxo⟩ := h.covered x hx
    exact ⟨o',(hmem o').mpr ⟨hne o' x hxo,ho'⟩,hxo⟩
  case descriptorsNodup => exact h.descriptorsNodup
  case owned => exact h.owned

/-- An object without descriptors is destroyed. -/
theorem destroyObject_eq (e : LayerErrors) {id : ℤ} (hid : L.byId id = some o)
    (hnil : L.descriptorsPtrs o = []) : L.destroyObject e id = .ok (L.destroyed o,0,some o) := by
  have ho := (byId_eq_some hid).1
  unfold DescriptorLayer.destroyObject
  simp only [hid,hnil,List.length_nil,ne_eq,not_true_eq_false,if_false,listDetach_mem ho,ok_bind]
  rfl

/-- A destruction either reports an error and changes nothing, or removes an
object that no descriptor refers to. -/
theorem destroyObject_cases (e : LayerErrors) (L : DescriptorLayer) (id : ℤ) :
    (∃ v, L.destroyObject e id = .ok (L,v,none)) ∨
    ∃ o, L.byId id = some o ∧ L.descriptorsPtrs o = [] ∧
      L.destroyObject e id = .ok (L.destroyed o,0,some o) := by
  cases hid : L.byId id with
  | none =>
    refine Or.inl ⟨e.close,?_⟩
    unfold DescriptorLayer.destroyObject
    rw [hid]
  | some o =>
    by_cases hlen : (L.descriptorsPtrs o).length ≠ 0
    · refine Or.inl ⟨e.inUse,?_⟩
      unfold DescriptorLayer.destroyObject
      simp only [hid,if_pos hlen]
    · have hnil := List.length_eq_zero_iff.mp (not_not.mp hlen)
      exact Or.inr ⟨o,rfl,hnil,destroyObject_eq e hid hnil⟩

/-- The layer after an object has been created. -/
theorem Linked.allocObject (h : L.Linked A) {id type : ℤ} {L' : DescriptorLayer}
    (hok : L.allocObject id type = .ok (o,L')) :
    L'.Linked A ∧ o ∉ L.objectsList ∧ L'.objectsList = listAppend L.objectsList o ∧
      L'.descriptorsPtrs o = [] ∧ L'.type o = type := by
  unfold DescriptorLayer.allocObject at hok
  cases hb : L.objectAllocator.getBlock with
  | none => simp [hb] at hok
  | some b =>
    obtain ⟨o',pool⟩ := b
    simp only [hb,Except.ok.injEq,Prod.mk.injEq] at hok
    obtain ⟨rfl,rfl⟩ := hok
    obtain ⟨hfree,_,hal⟩ := Pool.getBlock_eq_some hb
    have hnew : o' ∉ L.objectsList := fun hm => hfree ((h.objects o').mpr hm)
    have hold : ∀ q, q ∈ L.objectsList →
        Function.update L.descriptorsPtrs o' [] q = L.descriptorsPtrs q :=
      fun q hq => update_of_not_mem hnew hq _ _
    refine ⟨?_,hnew,rfl,Function.update_self _ _ _,Function.update_self _ _ _⟩
    constructor
    case objectsNodup => exact nodup_listAppend h.objectsNodup hnew
    case objects =>
      intro q
      rw [hal q,h.objects q,mem_listAppend,or_comm]
    case ptrsNodup =>
      intro q hq
      rcases mem_listAppend.mp hq with hq | rfl
      · dsimp only
        rw [hold q hq]
        exact h.ptrsNodup q hq
      · simp
    case entry =>
      intro q hq x hx
      rcases mem_listAppend.mp hq with hq | rfl
      · dsimp only at hx
        rw [hold q hq] at hx
        exact h.entry q hq x hx
      · simp at hx
    case linked =>
      intro d hd
      obtain ⟨h1,h2,h3⟩ := h.linked d hd
      refine ⟨mem_listAppend.mpr (Or.inl h1),?_,h3⟩
      dsimp only
      rwa [hold _ h1]
    case covered =>
      intro x hx
      obtain ⟨q,hq,hxq⟩ := h.covered x hx
      refine ⟨q,mem_listAppend.mpr (Or.inl hq),?_⟩
      dsimp only
      rwa [hold q hq]
    case descriptorsNodup => exact h.descriptorsNodup
    case owned => exact h.owned

theorem keeps_allocObject {id type : ℤ} (hok : L.allocObject id type = .ok (o,L')) :
    L.Keeps L' owner := by
  unfold DescriptorLayer.allocObject at hok
  cases hb : L.objectAllocator.getBlock with
  | none => simp [hb] at hok
  | some b =>
    simp only [hb,Except.ok.injEq,Prod.mk.injEq] at hok
    obtain ⟨_,rfl⟩ := hok
    exact fun _ hd => Or.inr ⟨hd,fun _ hp => hp⟩

section Publish
variable {x : ℕ} {dPool xPool : Pool maxNumProcesses}

theorem keeps_publish (hd : L.descriptorAllocator.getBlock = some (d,dPool)) :
    L.Keeps (L.publish p o d x dPool xPool) (· = p) := by
  obtain ⟨_,_,hal⟩ := Pool.getBlock_eq_some hd
  intro d' hd'
  rcases (hal d').mp hd' with rfl | hd'
  · exact Or.inl ⟨p,rfl,mem_update_listAppend.mpr (Or.inr ⟨rfl,rfl⟩)⟩
  · exact Or.inr ⟨hd',fun q hq => mem_update_listAppend.mpr (Or.inl hq)⟩

/-- An entry of the new layer is an old one, which names what it named, or the new one. -/
theorem Linked.entry_publish (h : L.Linked A)
    (hd : L.descriptorAllocator.getBlock = some (d,dPool))
    (hx : L.descriptorPtrAllocator.getBlock = some (x,xPool)) {q y : ℕ} (hq : q ∈ L.objectsList)
    (hy : y ∈ (L.publish p o d x dPool xPool).descriptorsPtrs q) :
    xPool.Allocated y ∧ dPool.Allocated ((L.publish p o d x dPool xPool).descriptor y) ∧
      (L.publish p o d x dPool xPool).ptr ((L.publish p o d x dPool xPool).descriptor y) = y ∧
      (L.publish p o d x dPool xPool).object ((L.publish p o d x dPool xPool).descriptor y) = q := by
  obtain ⟨_,_,hdal⟩ := Pool.getBlock_eq_some hd
  obtain ⟨_,_,hxal⟩ := Pool.getBlock_eq_some hx
  dsimp only [DescriptorLayer.publish] at hy ⊢
  rcases mem_update_listAppend.mp hy with hy | ⟨rfl,rfl⟩
  · obtain ⟨hyal,hdyal,hptr,hobj⟩ := h.entry q hq y hy
    have hyd := Pool.ne_of_getBlock hd hdyal
    rw [Function.update_of_ne (Pool.ne_of_getBlock hx hyal),Function.update_of_ne hyd,
      Function.update_of_ne hyd]
    exact ⟨(hxal y).mpr (Or.inr hyal),(hdal _).mpr (Or.inr hdyal),hptr,hobj⟩
  · simp only [Function.update_self]
    exact ⟨(hxal y).mpr (Or.inl rfl),(hdal d).mpr (Or.inl rfl),trivial,trivial⟩

/-- A descriptor of the new layer is an old one, with its object and entry, or the new one. -/
theorem Linked.linked_publish (h : L.Linked A) (ho : o ∈ L.objectsList)
    (hd : L.descriptorAllocator.getBlock = some (d,dPool))
    (hx : L.descriptorPtrAllocator.getBlock = some (x,xPool)) {d' : ℕ} (hd' : dPool.Allocated d') :
    (L.publish p o d x dPool xPool).object d' ∈ L.objectsList ∧
      (L.publish p o d x dPool xPool).ptr d' ∈ (L.publish p o d x dPool xPool).descriptorsPtrs
        ((L.publish p o d x dPool xPool).object d') ∧
      (L.publish p o d x dPool xPool).descriptor ((L.publish p o d x dPool xPool).ptr d') = d' := by
  obtain ⟨_,_,hdal⟩ := Pool.getBlock_eq_some hd
  dsimp only [DescriptorLayer.publish]
  rcases (hdal d').mp hd' with rfl | hold
  · rw [Function.update_self,Function.update_self,Function.update_self]
    exact ⟨ho,mem_listAppend.mpr (Or.inr rfl),Function.update_self _ _ _⟩
  · obtain ⟨hobj,hptr,hback⟩ := h.linked d' hold
    have hdd := Pool.ne_of_getBlock hd hold
    have hxx := Pool.ne_of_getBlock hx (h.entry _ hobj _ hptr).1
    rw [Function.update_of_ne hdd,Function.update_of_ne hdd,Function.update_of_ne hxx]
    exact ⟨hobj,mem_update_listAppend.mpr (Or.inl hptr),hback⟩

/-- A new descriptor and its entry are linked to each other and to their object. -/
theorem Linked.publish (h : L.Linked A) (hp : A p) (ho : o ∈ L.objectsList)
    (hd : L.descriptorAllocator.getBlock = some (d,dPool))
    (hx : L.descriptorPtrAllocator.getBlock = some (x,xPool)) :
    (L.publish p o d x dPool xPool).Linked A := by
  obtain ⟨hdfree,_,hdal⟩ := Pool.getBlock_eq_some hd
  obtain ⟨hxfree,_,hxal⟩ := Pool.getBlock_eq_some hx
  constructor
  case objectsNodup => exact h.objectsNodup
  case objects => exact h.objects
  case ptrsNodup =>
    intro q hq
    exact nodup_update_listAppend (h.ptrsNodup q hq) (fun _ hm => hxfree (h.entry q hq x hm).1)
  case entry => exact fun q hq y hy => h.entry_publish hd hx hq hy
  case linked => exact fun d' hd' => h.linked_publish ho hd hx hd'
  case covered =>
    intro y hy
    rcases (hxal y).mp hy with rfl | hold
    · exact ⟨o,ho,mem_update_listAppend.mpr (Or.inr ⟨rfl,rfl⟩)⟩
    · obtain ⟨q,hq,hyq⟩ := h.covered y hold
      exact ⟨q,hq,mem_update_listAppend.mpr (Or.inl hyq)⟩
  case descriptorsNodup =>
    intro q hq
    exact nodup_update_listAppend (h.descriptorsNodup q hq)
      (fun _ hm => hdfree (h.owned q hq d hm).1)
  case owned =>
    intro q hq d' hd'
    rcases mem_update_listAppend.mp hd' with hd' | ⟨rfl,rfl⟩
    · obtain ⟨hal,hpcb⟩ := h.owned q hq d' hd'
      exact ⟨(hdal d').mpr (Or.inr hal),
        (Function.update_of_ne (Pool.ne_of_getBlock hd hal) _ _).trans hpcb⟩
    · exact ⟨(hdal d').mpr (Or.inl rfl),Function.update_self _ _ _⟩

end Publish

/-- The only fault of an open is the null block of an exhausted pool. -/
theorem openObject_error {id type openMode : ℤ} {f : Fault}
    (h : L.openObject e p id type openMode = .error f) : f = .nullPointer := by
  have hdesc : ∀ {L : DescriptorLayer} {o : ℕ} {created : Option ℕ},
      openDescriptor e L p o type openMode created = .error f → f = .nullPointer := by
    intro L o created ho
    unfold openDescriptor at ho
    split at ho
    · cases ho
    · split at ho
      · cases ho
      · split at ho
        · cases ho
        · split at ho
          · cases ho
            rfl
          · cases ho
  unfold openObject at h
  split at h
  · cases h
  · cases ha : L.allocObject id type with
    | error f' =>
      simp only [ha,error_bind,Except.error.injEq] at h
      subst h
      unfold allocObject at ha
      split at ha
      · cases ha
        rfl
      · cases ha
    | ok r =>
      simp only [ha,ok_bind] at h
      exact hdesc h
  · exact hdesc h
  · cases h

theorem Linked.openDescriptor (h : L.Linked A) (hp : A p) (ho : o ∈ L.objectsList)
    {type openMode : ℤ} {created : Option ℕ} {r : OpenResult}
    (hok : DescriptorLayer.openDescriptor e L p o type openMode created = .ok r) :
    r.layer.Linked A ∧ r.layer.objectsList = L.objectsList ∧ r.created = created ∧
      L.Keeps r.layer (· = p) := by
  unfold DescriptorLayer.openDescriptor at hok
  split at hok
  · cases hok
    exact ⟨h,rfl,rfl,Keeps.refl L _⟩
  · split at hok
    · cases hok
      exact ⟨h,rfl,rfl,Keeps.refl L _⟩
    · split at hok
      · cases hok
        exact ⟨h,rfl,rfl,Keeps.refl L _⟩
      · rename_i d dPool hd
        split at hok
        · cases hok
        · rename_i x xPool hx
          cases hok
          exact ⟨h.publish hp ho hd hx,rfl,rfl,keeps_publish hd⟩

/-- An open keeps the layer linked and adds at most the object it created. -/
theorem Linked.openObject (h : L.Linked A) (hp : A p) {id type openMode : ℤ} {r : OpenResult}
    (hok : L.openObject e p id type openMode = .ok r) :
    r.layer.Linked A ∧ L.Keeps r.layer (· = p) ∧
      (r.created = none ∧ r.layer.objectsList = L.objectsList ∨
        ∃ o, r.created = some o ∧ o ∉ L.objectsList ∧
          r.layer.objectsList = listAppend L.objectsList o) := by
  unfold DescriptorLayer.openObject at hok
  split at hok
  · cases hok
    exact ⟨h,Keeps.refl L _,Or.inl ⟨rfl,rfl⟩⟩
  · obtain ⟨⟨o,L'⟩,ha,hok⟩ := exists_of_bind_eq_ok hok
    obtain ⟨hL',hnew,hlist,_,_⟩ := h.allocObject ha
    have ho : o ∈ L'.objectsList := by
      rw [hlist]
      exact mem_listAppend.mpr (Or.inr rfl)
    obtain ⟨hr,hobj,hcr,hkeep⟩ := hL'.openDescriptor hp ho hok
    exact ⟨hr,(keeps_allocObject ha).trans hkeep,Or.inr ⟨o,hcr,hnew,hobj.trans hlist⟩⟩
  · rename_i o hid
    obtain ⟨hr,hobj,hcr,hkeep⟩ := h.openDescriptor hp (byId_eq_some hid).1 hok
    exact ⟨hr,hkeep,Or.inl ⟨hcr,hobj⟩⟩
  · cases hok
    exact ⟨h,Keeps.refl L _,Or.inl ⟨rfl,rfl⟩⟩

end DescriptorLayer

end DisastrOS
