import DisastrOS.Invariant.LayerMachine
import DisastrOS.Kernel.Dispatch

/-! # Both layers are the machine

The handlers of the two layers are translated from code that was written twice. Each one computes
what the machine computes, so what is shown of the machine holds of both.
-/
namespace DisastrOS

namespace DescriptorLayer
variable {L : DescriptorLayer} {p o n : ℕ} {type openMode : ℤ} {created : Option ℕ}

theorem resourceListById_eq (L : DescriptorLayer) (id : ℤ) :
    L.resourceListById id = L.byId id := rfl

theorem descriptorListByFd_eq (L : DescriptorLayer) (p : ℕ) (fd : ℤ) :
    L.descriptorListByFd p fd = L.byFd p fd := rfl

theorem messageQueueListById_eq (L : DescriptorLayer) (id : ℤ) :
    L.messageQueueListById id = L.byId id := rfl

theorem descrittoreListByMqd_eq (L : DescriptorLayer) (p : ℕ) (mqd : ℤ) :
    L.descrittoreListByMqd p mqd = L.byFd p mqd := rfl

/-- The release of the resources is that of the machine. -/
theorem releaseResources_eq (L : DescriptorLayer) (p n : ℕ) :
    L.releaseResources p n = L.releaseAll p n := by
  induction n generalizing L with
  | zero => rfl
  | succ n ih =>
    unfold releaseResources releaseAll unlink
    cases L.descriptors p with
    | nil => rfl
    | cons d rest =>
      simp only [listDetach_cons,ok_bind]
      by_cases hx : L.ptr d ∈ L.descriptorsPtrs (L.object d)
      · simp only [listDetach_mem hx,ok_bind]
        exact ih _
      · rw [listDetach,if_neg hx]
        rfl

/-- The release of the message queues is that of the machine. -/
theorem releaseMessagequeues_eq (L : DescriptorLayer) (p n : ℕ) :
    L.releaseMessagequeues p n = L.releaseAll p n := by
  induction n generalizing L with
  | zero => rfl
  | succ n ih =>
    unfold releaseMessagequeues releaseAll unlink
    cases L.descriptors p with
    | nil => rfl
    | cons d rest =>
      simp only [listDetach_cons,ok_bind]
      by_cases hx : L.ptr d ∈ L.descriptorsPtrs (L.object d)
      · simp only [listDetach_mem hx,ok_bind]
        exact ih _
      · rw [listDetach,if_neg hx]
        rfl

theorem bind_congr_created {α : Type} {e : LayerErrors} {f g : OpenResult → Except Fault α}
    (h : ∀ res, res.created = created → f res = g res) :
    L.openDescriptor e p o type openMode created >>= f =
      L.openDescriptor e p o type openMode created >>= g := by
  unfold openDescriptor
  split
  · exact h _ rfl
  · split
    · exact h _ rfl
    · split
      · exact h _ rfl
      · split
        · rfl
        · exact h _ rfl

end DescriptorLayer

namespace Kernel
open DescriptorLayer

/-- The fields of `MessageQueue` that `Resource` does not have, as
`MessageQueue_alloc` sets them. -/
def initQueue (s : Kernel) (msgSize maxMsg : ℤ) (q : ℕ) : Kernel :=
  { s with
    msgNum := Function.update s.msgNum q 0
    msgSize := Function.update s.msgSize q msgSize
    maxMsg := Function.update s.maxMsg q maxMsg
    messages := Function.update s.messages q [] }.record (.createdQueue q)

variable {s : Kernel}

section Resources

theorem openFoundResource_layer (s : Kernel) (r o : ℕ) (type openMode : ℤ) (created : Option ℕ) :
    s.openFoundResource r (some o) type openMode =
      s.resources.openDescriptor resourceErrors r o type openMode created >>= fun res =>
        .ok ({ s with resources := res.layer }.setRetvalue r res.retvalue) := by
  unfold openFoundResource DescriptorLayer.openDescriptor
  dsimp only
  by_cases htype : s.resources.type o ≠ type
  · rw [if_pos htype,if_pos htype]
    rfl
  rw [if_neg htype,if_neg htype]
  by_cases hexcl : hasFlag openMode dsosExcl = true ∧ (s.resources.descriptorsPtrs o).length ≠ 0
  · rw [if_pos hexcl,if_pos hexcl]
    rfl
  rw [if_neg hexcl,if_neg hexcl]
  unfold DescriptorLayer.descriptorAlloc DescriptorLayer.descriptorPtrAlloc
  cases hd : s.resources.descriptorAllocator.getBlock with
  | none => rfl
  | some b =>
    obtain ⟨d,dPool⟩ := b
    dsimp only
    cases hx : s.resources.descriptorPtrAllocator.getBlock with
    | none => rfl
    | some b =>
      obtain ⟨x,xPool⟩ := b
      dsimp only
      rw [Function.update_self]
      rfl

/-- The open of a resource is that of the machine. -/
theorem internalOpenResource_layer (s : Kernel) (r : ℕ) : s.internalOpenResource r =
    s.resources.openObject resourceErrors r (s.syscallArgs r 0) (s.syscallArgs r 1)
      (s.syscallArgs r 2) >>= fun res =>
        .ok ({ s with resources := res.layer }.setRetvalue r res.retvalue) := by
  unfold internalOpenResource DescriptorLayer.openObject
  dsimp only
  rw [resourceListById_eq]
  cases hasFlag (s.syscallArgs r 2) dsosCreate with
  | true =>
    rw [if_pos rfl]
    cases s.resources.byId (s.syscallArgs r 0) with
    | some o => rfl
    | none =>
      unfold DescriptorLayer.resourceAlloc DescriptorLayer.allocObject
      cases s.resources.objectAllocator.getBlock with
      | none => rfl
      | some b =>
        obtain ⟨o,pool⟩ := b
        exact openFoundResource_layer _ r o _ _ (some o)
  | false =>
    rw [if_neg Bool.false_ne_true]
    cases s.resources.byId (s.syscallArgs r 0) with
    | some o => exact openFoundResource_layer s r o _ _ none
    | none => rfl

/-- The close of a resource is that of the machine. -/
theorem internalCloseResource_layer (s : Kernel) (r : ℕ) : s.internalCloseResource r =
    s.resources.closeDescriptor resourceErrors r (s.syscallArgs r 0) >>= fun res =>
      .ok ({ s with resources := res.1 }.setRetvalue r res.2) := by
  unfold internalCloseResource DescriptorLayer.closeDescriptor
  dsimp only
  rw [descriptorListByFd_eq]
  cases s.resources.byFd r (s.syscallArgs r 0) with
  | none => rfl
  | some d =>
    unfold DescriptorLayer.unlink
    dsimp only
    cases listDetach (s.resources.descriptors r) (some d) with
    | error f => rfl
    | ok res =>
      obtain ⟨d,own⟩ := res
      simp only [ok_bind]
      cases listDetach (s.resources.descriptorsPtrs (s.resources.object d))
          (some (s.resources.ptr d)) <;> rfl

/-- The destruction of a resource is that of the machine. -/
theorem internalDestroyResource_layer (s : Kernel) (r : ℕ) : s.internalDestroyResource r =
    s.resources.destroyObject resourceErrors (s.syscallArgs r 0) >>= fun res =>
      .ok ({ s with resources := res.1 }.setRetvalue r res.2.1) := by
  unfold internalDestroyResource DescriptorLayer.destroyObject
  dsimp only
  rw [resourceListById_eq]
  cases s.resources.byId (s.syscallArgs r 0) with
  | none => rfl
  | some o =>
    dsimp only
    by_cases huse : (s.resources.descriptorsPtrs o).length ≠ 0
    · rw [if_pos huse,if_pos huse]
      rfl
    rw [if_neg huse,if_neg huse]
    cases listDetach s.resources.objectsList (some o) with
    | error f => rfl
    | ok res =>
      obtain ⟨o,rest⟩ := res
      unfold DescriptorLayer.resourceFree
      simp only [ok_bind]
      by_cases hptrs : s.resources.descriptorsPtrs o ≠ []
      · rw [if_pos hptrs,if_pos hptrs]
        rfl
      · rw [if_neg hptrs,if_neg hptrs]
        rfl

end Resources

section MessageQueues

theorem openFoundMessagequeue_layer (s : Kernel) (r q : ℕ) (type openMode : ℤ)
    (created : Option ℕ) : s.openFoundMessagequeue r (some q) type openMode =
      s.messagequeues.openDescriptor messagequeueErrors r q type openMode created >>= fun res =>
        .ok ({ s with messagequeues := res.layer }.setRetvalue r res.retvalue) := by
  unfold openFoundMessagequeue DescriptorLayer.openDescriptor
  dsimp only
  by_cases htype : s.messagequeues.type q ≠ type
  · rw [if_pos htype,if_pos htype]
    rfl
  rw [if_neg htype,if_neg htype]
  by_cases hexcl : hasFlag openMode dsosExcl = true ∧
      (s.messagequeues.descriptorsPtrs q).length ≠ 0
  · rw [if_pos hexcl,if_pos hexcl]
    rfl
  rw [if_neg hexcl,if_neg hexcl]
  unfold DescriptorLayer.descrittoreAlloc DescriptorLayer.descrittorePtrAlloc
  cases hd : s.messagequeues.descriptorAllocator.getBlock with
  | none => rfl
  | some b =>
    obtain ⟨d,dPool⟩ := b
    dsimp only
    cases hx : s.messagequeues.descriptorPtrAllocator.getBlock with
    | none => rfl
    | some b =>
      obtain ⟨x,xPool⟩ := b
      dsimp only
      rw [Function.update_self]
      rfl

/-- The open of a queue is that of the machine, which says nothing of the messages. -/
theorem internalMqOpen_layer (s : Kernel) (r : ℕ) : s.internalMqOpen r =
    s.messagequeues.openObject messagequeueErrors r (s.syscallArgs r 0) (s.syscallArgs r 1)
      (s.syscallArgs r 4) >>= fun res =>
        .ok ((match res.created with
          | none => { s with messagequeues := res.layer }
          | some q => { s with messagequeues := res.layer }.initQueue (s.syscallArgs r 2)
              (s.syscallArgs r 3) q).setRetvalue r res.retvalue) := by
  unfold internalMqOpen DescriptorLayer.openObject
  dsimp only
  rw [messageQueueListById_eq]
  cases hasFlag (s.syscallArgs r 4) dsosCreate with
  | true =>
    rw [if_pos rfl]
    cases s.messagequeues.byId (s.syscallArgs r 0) with
    | some q => rfl
    | none =>
      unfold messageQueueAlloc DescriptorLayer.allocObject
      cases s.messagequeues.objectAllocator.getBlock with
      | none => rfl
      | some b =>
        obtain ⟨q,pool⟩ := b
        dsimp only
        rw [openFoundMessagequeue_layer _ r q _ _ (some q)]
        apply bind_congr_created
        intro res hres
        rw [hres]
        rfl
  | false =>
    rw [if_neg Bool.false_ne_true]
    cases s.messagequeues.byId (s.syscallArgs r 0) with
    | none => rfl
    | some q =>
      dsimp only
      rw [openFoundMessagequeue_layer s r q _ _ none]
      apply bind_congr_created
      intro res hres
      rw [hres]

/-- The close of a queue is that of the machine. -/
theorem internalMqClose_layer (s : Kernel) (r : ℕ) : s.internalMqClose r =
    s.messagequeues.closeDescriptor messagequeueErrors r (s.syscallArgs r 0) >>= fun res =>
      .ok ({ s with messagequeues := res.1 }.setRetvalue r res.2) := by
  unfold internalMqClose DescriptorLayer.closeDescriptor
  dsimp only
  rw [descrittoreListByMqd_eq]
  cases s.messagequeues.byFd r (s.syscallArgs r 0) with
  | none => rfl
  | some d =>
    unfold DescriptorLayer.unlink
    dsimp only
    cases listDetach (s.messagequeues.descriptors r) (some d) with
    | error f => rfl
    | ok res =>
      obtain ⟨d,own⟩ := res
      simp only [ok_bind]
      cases listDetach (s.messagequeues.descriptorsPtrs (s.messagequeues.object d))
          (some (s.messagequeues.ptr d)) <;> rfl

/-- The messages of a queue are freed whatever the layer is. -/
theorem freeMessages_withMessagequeues (q n : ℕ) (L : DescriptorLayer) :
    freeMessages q n { s with messagequeues := L } =
      (freeMessages q n s).map (fun t => { t with messagequeues := L }) := by
  induction n generalizing s with
  | zero => rfl
  | succ n ih =>
    unfold freeMessages
    dsimp only
    cases listDetach (s.messages q) (s.messages q).head? with
    | error f => rfl
    | ok res =>
      obtain ⟨m,rest⟩ := res
      exact ih (s := { s with
        messages := Function.update s.messages q rest
        messageAllocator := s.messageAllocator.releaseBlock m })

/-- The unlinking of a queue is the destruction of the machine, with the messages freed. -/
theorem internalMqUnlink_layer (s : Kernel) (r : ℕ) : s.internalMqUnlink r =
    s.messagequeues.destroyObject messagequeueErrors (s.syscallArgs r 0) >>= fun res =>
      (match res.2.2 with
        | none => .ok { s with messagequeues := res.1 }
        | some q => freeMessages q (s.msgNum q).toNat { s with messagequeues := res.1 }) >>=
          fun t => .ok (t.setRetvalue r res.2.1) := by
  unfold internalMqUnlink DescriptorLayer.destroyObject
  dsimp only
  rw [messageQueueListById_eq]
  cases s.messagequeues.byId (s.syscallArgs r 0) with
  | none => rfl
  | some q =>
    dsimp only
    by_cases huse : (s.messagequeues.descriptorsPtrs q).length ≠ 0
    · rw [if_pos huse,if_pos huse]
      rfl
    rw [if_neg huse,if_neg huse]
    cases listDetach s.messagequeues.objectsList (some q) with
    | error f => rfl
    | ok res =>
      obtain ⟨q,rest⟩ := res
      unfold messageQueueFree
      simp only [ok_bind]
      by_cases hptrs : s.messagequeues.descriptorsPtrs q ≠ []
      · rw [if_pos hptrs,if_pos hptrs]
        rfl
      · rw [if_neg hptrs,if_neg hptrs]
        simp only [ok_bind,freeMessages_withMessagequeues]
        cases freeMessages q (s.msgNum q).toNat s <;> rfl

end MessageQueues

end Kernel

end DisastrOS
