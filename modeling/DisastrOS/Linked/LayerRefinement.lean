import DisastrOS.Linked.Stored

/-! # The layers on links do what the layers do

Each operation of a layer on links, whose loops may take as many steps as a pool has blocks, does
what the operation of the layer does.
-/
namespace DisastrOS
open Refinement

namespace LinkedLayer

/-- The layer on links has the fields of the layer, and its heads hold the sequences. -/
structure Implements (M : LinkedLayer) (L : DescriptorLayer) : Prop where
  fields : M.fields = L.fields
  objects : M.objects.Stored (fun _ => L.objectsList) L.objectAllocator
  descriptors : M.descriptors.Stored L.descriptors L.descriptorAllocator
  descriptorsPtrs : M.descriptorsPtrs.Stored L.descriptorsPtrs L.descriptorPtrAllocator

/-- The results of an open are the same, up to the layer. -/
structure OpenResult.Implements (r : OpenResult) (q : DescriptorLayer.OpenResult) : Prop where
  layer : r.layer.Implements q.layer
  retvalue : r.retvalue = q.retvalue
  created : r.created = q.created

variable {M : LinkedLayer} {L : DescriptorLayer} {e : LayerErrors} {p d o n : ℕ}

namespace Implements

theorem initProcess (h : M.Implements L) (p : ℕ) : (M.initProcess p).Implements (L.initProcess p) where
  fields := by
    unfold LinkedLayer.initProcess DescriptorLayer.initProcess
    rw [h.fields]
    rfl
  objects := h.objects
  descriptors := h.descriptors.listInit p
  descriptorsPtrs := h.descriptorsPtrs

theorem byId_eq (h : M.Implements L) (hn : maxNumResources ≤ n) (id : ℤ) :
    M.byId id n = .ok (L.byId id) := by
  have hchain := (h.objects.holds.linked ()).forward
  unfold LinkedLayer.byId ListHeap.resourceListById
  rw [h.objects.holds.first,hchain.findFrom_eq ((h.objects.length_le ()).trans hn),h.fields]
  rfl

theorem byFd_eq (h : M.Implements L) (hn : maxNumProcesses ≤ n) (p : ℕ) (fd : ℤ) :
    M.byFd p fd n = .ok (L.byFd p fd) := by
  have hchain := (h.descriptors.holds.linked p).forward
  unfold LinkedLayer.byFd ListHeap.descriptorListByFd
  rw [h.descriptors.holds.first,hchain.findFrom_eq ((h.descriptors.length_le p).trans hn),h.fields]
  rfl

theorem allocObject (h : M.Implements L) (id type : ℤ) :
    Refines Fault.Unchecked (fun r q => r.1 = q.1 ∧ r.2.Implements q.2)
      (M.allocObject id type) (L.allocObject id type) := by
  unfold LinkedLayer.allocObject DescriptorLayer.allocObject
  rw [h.fields]
  cases hb : L.objectAllocator.getBlock with
  | none =>
    simp only [DescriptorLayer.fields,hb]
    exact .error _
  | some b =>
    obtain ⟨o,pool⟩ := b
    simp only [DescriptorLayer.fields,hb]
    refine .ok ⟨rfl,rfl,?_,h.descriptors,h.descriptorsPtrs.listInit o⟩
    have hnew := h.objects.append_new hb ()
    rwa [Function.update_eq_const_of_subsingleton] at hnew

theorem publish (h : M.Implements L) {x : ℕ} {dPool xPool : Pool maxNumProcesses}
    (hd : L.descriptorAllocator.getBlock = some (d,dPool))
    (hx : L.descriptorPtrAllocator.getBlock = some (x,xPool)) (running o : ℕ) :
    (M.publish running o d x dPool xPool).Implements (L.publish running o d x dPool xPool) where
  fields := by
    unfold LinkedLayer.publish DescriptorLayer.publish
    rw [h.fields]
    rfl
  objects := h.objects
  descriptors := h.descriptors.append_new hd running
  descriptorsPtrs := h.descriptorsPtrs.append_new hx o

theorem openDescriptor (h : M.Implements L) (running o : ℕ) (type openMode : ℤ)
    (created : Option ℕ) :
    Refines Fault.Unchecked OpenResult.Implements
      (M.openDescriptor e running o type openMode created)
      (L.openDescriptor e running o type openMode created) := by
  have hsize := h.descriptorsPtrs.size_eq (by decide) o
  unfold LinkedLayer.openDescriptor DescriptorLayer.openDescriptor
  rw [h.fields]
  refine Refines.ite Iff.rfl (.ok ⟨h,rfl,rfl⟩) (Refines.ite ?_ (.ok ⟨h,rfl,rfl⟩) ?_)
  · rw [hsize]
    exact and_congr_right fun _ => by omega
  · cases hd : L.descriptorAllocator.getBlock with
    | none =>
      simp only [DescriptorLayer.fields,hd]
      exact .ok ⟨h,rfl,rfl⟩
    | some b =>
      obtain ⟨d,dPool⟩ := b
      simp only [DescriptorLayer.fields,hd]
      cases hx : L.descriptorPtrAllocator.getBlock with
      | none => exact .error _
      | some c => exact .ok ⟨h.publish hd hx running o,rfl,rfl⟩

theorem openObject (h : M.Implements L) (hn : maxNumResources ≤ n) (running : ℕ)
    (id type openMode : ℤ) :
    Refines Fault.Unchecked OpenResult.Implements (M.openObject e running id type openMode n)
      (L.openObject e running id type openMode) := by
  unfold LinkedLayer.openObject DescriptorLayer.openObject
  rw [h.byId_eq hn,ok_bind]
  cases hasFlag openMode dsosCreate with
  | true =>
    cases L.byId id with
    | some o => exact .ok ⟨h,rfl,rfl⟩
    | none =>
      apply (h.allocObject id type).bind
      rintro ⟨o,M'⟩ ⟨_,L'⟩ ⟨rfl,h'⟩
      exact h'.openDescriptor running o type openMode (some o)
  | false =>
    cases L.byId id with
    | some o => exact h.openDescriptor running o type openMode none
    | none => exact .ok ⟨h,rfl,rfl⟩

/-- A descriptor is unlinked, and one less is left. -/
theorem unlink (h : M.Implements L) (p d : ℕ) :
    Refines Fault.Unchecked (fun M' L' => M'.Implements L' ∧
      (L.descriptors p).length = (L'.descriptors p).length + 1) (M.unlink p d) (L.unlink p d) := by
  unfold LinkedLayer.unlink DescriptorLayer.unlink
  apply (h.descriptors.listDetach p (some d)).bind
  rintro _ _ @⟨d,descriptors,hd,hmem,hdetach⟩
  rw [h.fields]
  apply (h.descriptorsPtrs.listDetach (L.object d) (some (L.ptr d))).bind
  rintro _ _ @⟨x,ptrs,hx,_,hdetach'⟩
  refine .ok ⟨⟨rfl,h.objects,?_,?_⟩,?_⟩
  · exact (h.descriptors.detaches hdetach).release hd hdetach.unlinked.absent
  · exact (h.descriptorsPtrs.detaches hdetach').release hx hdetach'.unlinked.absent
  · have hpos := List.length_pos_of_mem hmem
    simp only [Function.update_self,List.length_erase_of_mem hmem]
    omega

theorem closeDescriptor (h : M.Implements L) (hn : maxNumProcesses ≤ n) (running : ℕ) (fd : ℤ) :
    Refines Fault.Unchecked (fun r q => r.1.Implements q.1 ∧ r.2 = q.2)
      (M.closeDescriptor e running fd n) (L.closeDescriptor e running fd) := by
  unfold LinkedLayer.closeDescriptor DescriptorLayer.closeDescriptor
  rw [h.byFd_eq hn,ok_bind]
  cases L.byFd running fd with
  | none => exact .ok ⟨h,rfl⟩
  | some d =>
    apply (h.unlink running d).bind
    rintro M' L' ⟨h',_⟩
    exact .ok ⟨h',rfl⟩

theorem destroyObject (h : M.Implements L) (hn : maxNumResources ≤ n) (id : ℤ) :
    Refines Fault.Unchecked (fun r q => r.1.Implements q.1 ∧ r.2 = q.2)
      (M.destroyObject e id n) (L.destroyObject e id) := by
  unfold LinkedLayer.destroyObject DescriptorLayer.destroyObject
  rw [h.byId_eq hn,ok_bind]
  cases L.byId id with
  | none => exact .ok ⟨h,rfl⟩
  | some o =>
    have hsize := h.descriptorsPtrs.size_eq (by decide) o
    refine Refines.ite ?_ (.ok ⟨h,rfl⟩) ?_
    · rw [hsize]
      omega
    · apply (h.objects.listDetach () (some o)).bind
      rintro _ _ @⟨o,objects,ho,_,hdetach⟩
      have hempty : M.descriptorsPtrs.first o ≠ none ∨ M.descriptorsPtrs.last o ≠ none ↔
          L.descriptorsPtrs o ≠ [] := by
        rw [h.descriptorsPtrs.holds.first,h.descriptorsPtrs.holds.last]
        simp
      refine Refines.ite hempty (.error _) (.ok ⟨⟨?_,?_,h.descriptors,h.descriptorsPtrs⟩,rfl⟩)
      · rw [h.fields]
        rfl
      · have hrest := (h.objects.detaches hdetach).release ho hdetach.unlinked.absent
        rw [Function.update_eq_const_of_subsingleton] at hrest
        rwa [h.fields]

/-- The loop ends when no descriptor is left. -/
theorem releaseAll (h : M.Implements L) (p : ℕ) (hn : (L.descriptors p).length ≤ n) :
    Refines Fault.Unchecked Implements (M.releaseAll p n)
      (L.releaseAll p (L.descriptors p).length) := by
  have hfirst := h.descriptors.holds.first p
  induction n generalizing M L with
  | zero =>
    have hnil : L.descriptors p = [] := List.eq_nil_of_length_eq_zero (Nat.le_zero.mp hn)
    rw [hnil,List.head?_nil] at hfirst
    unfold LinkedLayer.releaseAll DescriptorLayer.releaseAll
    simp only [hnil,hfirst,List.length_nil]
    exact .ok h
  | succ n ih =>
    cases hl : L.descriptors p with
    | nil =>
      rw [hl,List.head?_nil] at hfirst
      unfold LinkedLayer.releaseAll DescriptorLayer.releaseAll
      simp only [hl,hfirst,List.length_nil]
      exact .ok h
    | cons d rest =>
      rw [hl,List.head?_cons] at hfirst
      unfold LinkedLayer.releaseAll DescriptorLayer.releaseAll
      simp only [hl,hfirst,List.length_cons]
      apply (h.unlink p d).bind
      rintro M' L' ⟨h',hlen⟩
      rw [hl,List.length_cons] at hlen hn
      have hrest : rest.length = (L'.descriptors p).length := by omega
      rw [hrest]
      exact ih h' (by omega) (h'.descriptors.holds.first p)

end Implements

end LinkedLayer

end DisastrOS
