import DisastrOS.Registry.Layers

/-! # Calls as requests to a registry

The open, the close and the destruction of a layer answer what the registry answers, in the codes of
the layer. An open that finds no block for its object does not answer at all.
-/
namespace DisastrOS
open Handles

/-- How many blocks there are for objects and for descriptors. -/
def layerLimits : Limits := ⟨maxNumResources,maxNumProcesses⟩

/-- The value that a call returns. -/
def LayerErrors.code (e : LayerErrors) : Except Refusal ℤ → ℤ
  | .ok v => v
  | .error .taken => e.create
  | .error .absent => e.openFailed
  | .error .mismatch => e.openFailed
  | .error .shared => e.noExcl
  | .error .exhausted => e.noFd
  | .error .unopened => e.close
  | .error .unknown => e.close
  | .error .busy => e.inUse

namespace DescriptorLayer

/-- An open with what the registry makes of it. -/
inductive Answers (e : LayerErrors) :
    Except Fault OpenResult → Option (Except Refusal ℤ × Registry ℕ ℤ ℤ) → Prop
  | none : Answers e (.error .nullPointer) none
  | some {q : OpenResult} {res : Except Refusal ℤ × Registry ℕ ℤ ℤ}
      (hvalue : q.retvalue = e.code res.1) (hlayer : q.layer.registry = res.2) :
      Answers e (.ok q) (some res)

variable {L : DescriptorLayer} {p o : ℕ} {id fd : ℤ}

namespace Sound

theorem type_eq (h : L.Sound) (ho : o ∈ L.objectsList) :
    L.registry.type (L.id o) = some (L.type o) := by
  have hid : L.byId (L.id o) = some o := h.byId_iff.mpr ⟨ho,rfl⟩
  dsimp only [registry]
  rw [hid,Option.map_some]

theorem holders_eq_zero_iff (h : L.Sound) (ho : o ∈ L.objectsList) :
    L.registry.holders (L.id o) = 0 ↔ (L.descriptorsPtrs o).length = 0 := by
  have hid : L.byId (L.id o) = some o := h.byId_iff.mpr ⟨ho,rfl⟩
  dsimp only [registry]
  rw [holders_some hid,Multiset.map_eq_zero,Multiset.coe_eq_zero,List.length_eq_zero_iff]

theorem exhausted_iff (L : DescriptorLayer) :
    layerLimits.handles ≤ L.registry.handles ↔ L.descriptorAllocator.getBlock = none := by
  dsimp only [layerLimits,registry]
  rw [Pool.getBlock_eq_none_iff]
  exact ⟨fun hle => Nat.le_antisymm (Pool.card_used_le _) hle,fun heq => heq.ge⟩

theorem full_iff (L : DescriptorLayer) :
    layerLimits.objects ≤ L.registry.objects ↔ L.objectAllocator.getBlock = none := by
  dsimp only [layerLimits,registry]
  rw [Pool.getBlock_eq_none_iff]
  exact ⟨fun hle => Nat.le_antisymm (Pool.card_used_le _) hle,fun heq => heq.ge⟩

/-- The part of an open behind the search for its object. -/
theorem openDescriptor_answers (h : L.Sound) (e : LayerErrors) (p : ℕ) (ho : o ∈ L.objectsList)
    (type openMode : ℤ) (created : Option ℕ) :
    Answers e (L.openDescriptor e p o type openMode created)
      (some (if L.type o ≠ type then (.error .mismatch,L.registry)
        else if hasFlag openMode dsosExcl = true ∧ L.registry.holders (L.id o) ≠ 0 then
          (.error .shared,L.registry)
        else L.registry.grantWithin layerLimits p (L.id o))) := by
  have hshared : hasFlag openMode dsosExcl = true ∧ L.registry.holders (L.id o) ≠ 0 ↔
      hasFlag openMode dsosExcl = true ∧ (L.descriptorsPtrs o).length ≠ 0 :=
    and_congr_right fun _ => not_congr (h.holders_eq_zero_iff ho)
  unfold openDescriptor
  by_cases htype : L.type o ≠ type
  · rw [if_pos htype,if_pos htype]
    exact .some rfl rfl
  · rw [if_neg htype,if_neg htype]
    by_cases hexcl : hasFlag openMode dsosExcl = true ∧ (L.descriptorsPtrs o).length ≠ 0
    · rw [if_pos hexcl,if_pos (hshared.mpr hexcl)]
      exact .some rfl rfl
    · rw [if_neg hexcl,if_neg (mt hshared.mp hexcl)]
      unfold Registry.grantWithin
      cases hd : L.descriptorAllocator.getBlock with
      | none =>
        rw [if_pos ((exhausted_iff L).mpr hd)]
        exact .some rfl rfl
      | some b =>
        obtain ⟨d,dPool⟩ := b
        obtain ⟨x,xPool,hx⟩ := h.linked.exists_ptr hd
        have hleft : ¬ layerLimits.handles ≤ L.registry.handles := by
          rw [exhausted_iff,hd]
          exact nofun
        simp only [hx]
        rw [if_neg hleft]
        exact .some rfl (h.registry_publish ho hd hx)

/-- The open of a layer answers what the registry answers. -/
theorem openObject_answers (h : L.Sound) (e : LayerErrors) (p : ℕ) (id type openMode : ℤ) :
    Answers e (L.openObject e p id type openMode)
      (L.registry.openHandle layerLimits p id type (hasFlag openMode dsosCreate)
        (hasFlag openMode dsosExcl)) := by
  unfold openObject Registry.openHandle
  cases hasFlag openMode dsosCreate with
  | true =>
    cases hid : L.byId id with
    | some o =>
      obtain ⟨ho,rfl⟩ := byId_eq_some hid
      simp only [h.type_eq ho]
      exact .some rfl rfl
    | none =>
      have htype : L.registry.type id = none := by
        dsimp only [registry]
        rw [hid,Option.map_none]
      simp only [htype]
      by_cases hfull : L.objectAllocator.getBlock = none
      · rw [if_pos ((full_iff L).mpr hfull),allocObject_none id type hfull]
        exact .none
      · obtain ⟨o,L',ha⟩ := allocObject_of_ne_none id type hfull
        obtain ⟨_,_,hlist,hnil,hnew⟩ := h.linked.allocObject ha
        have hsound := h.op (A := fun _ => True) (.create hid ha)
        have ho : o ∈ L'.objectsList := by
          rw [hlist]
          exact mem_listAppend.mpr (Or.inr rfl)
        have hzero : L'.registry.holders (L'.id o) = 0 := by
          rw [hsound.holders_eq_zero_iff ho,hnil,List.length_nil]
        have hanswers := hsound.openDescriptor_answers e p ho type openMode (some o)
        rw [if_neg (not_not.mpr hnew),if_neg (fun hexcl => hexcl.2 hzero),
          h.registry_created hid ha,id_allocObject ha] at hanswers
        rw [if_neg (mt (full_iff L).mp hfull),ha,ok_bind]
        exact hanswers
  | false =>
    cases hid : L.byId id with
    | none =>
      have htype : L.registry.type id = none := by
        dsimp only [registry]
        rw [hid,Option.map_none]
      simp only [htype]
      exact .some rfl rfl
    | some o =>
      obtain ⟨ho,rfl⟩ := byId_eq_some hid
      simp only [h.type_eq ho]
      have hanswers := h.openDescriptor_answers e p ho type openMode none
      rw [apply_ite some,apply_ite some] at hanswers
      exact hanswers

theorem closeDescriptor_answers (h : L.Sound) (e : LayerErrors) (p : ℕ) (fd : ℤ) :
    ∃ res, L.closeDescriptor e p fd = .ok res ∧
      res.2 = e.code (L.registry.closeHandle p fd).1 ∧
      res.1.registry = (L.registry.closeHandle p fd).2 := by
  have hfind : (L.registry.table p).find? (fun h => h.1 = fd) = (L.byFd p fd).map L.handle := by
    dsimp only [registry,byFd]
    rw [List.find?_map]
    rfl
  rw [h.linked.closeDescriptor_eq e trivial fd]
  unfold Registry.closeHandle
  rw [hfind]
  cases hfd : L.byFd p fd with
  | none => exact ⟨_,rfl,rfl,rfl⟩
  | some d => exact ⟨_,rfl,rfl,h.registry_unlinked (byFd_eq_some hfd).1⟩

theorem destroyObject_answers (h : L.Sound) (e : LayerErrors) (id : ℤ) :
    ∃ res, L.destroyObject e id = .ok res ∧
      res.2.1 = e.code (L.registry.destroy id).1 ∧
      res.1.registry = (L.registry.destroy id).2 := by
  cases hid : L.byId id with
  | none =>
    have htype : L.registry.type id = none := by
      dsimp only [registry]
      rw [hid,Option.map_none]
    unfold destroyObject Registry.destroy
    simp only [hid,htype]
    exact ⟨_,rfl,rfl,rfl⟩
  | some o =>
    obtain ⟨ho,rfl⟩ := byId_eq_some hid
    have hzero := h.holders_eq_zero_iff ho
    by_cases hnil : L.descriptorsPtrs o = []
    · rw [destroyObject_eq e hid hnil]
      unfold Registry.destroy
      simp only [h.type_eq ho]
      rw [if_neg (not_not.mpr (hzero.mpr (by rw [hnil,List.length_nil])))]
      exact ⟨_,rfl,rfl,h.registry_destroyed ho hnil⟩
    · have hlen : (L.descriptorsPtrs o).length ≠ 0 := mt List.length_eq_zero_iff.mp hnil
      unfold destroyObject Registry.destroy
      simp only [hid,h.type_eq ho]
      rw [if_pos hlen,if_pos (mt hzero.mp hlen)]
      exact ⟨_,rfl,rfl,rfl⟩

end Sound

end DescriptorLayer

end DisastrOS
