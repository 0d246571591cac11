import DisastrOS.Behaviour.Mirror

/-! # The two descriptor layers are one machine

The queues of a kernel whose processes open, close and unlink message queues, without
sending, go through the same states as the resources of a kernel whose processes open,
close and destroy resources instead, and the same values are returned.
-/
namespace DisastrOS

open Lockstep

/-- An operation on a descriptor layer, whichever it is, or another action. -/
inductive Operation
  | openObject (id type mode msgSize maxMsg : ℤ)
  | closeDescriptor (fd : ℤ)
  | destroyObject (id : ℤ)
  | other (a : Action) (ha : a.onLayers = false)

namespace Operation

/-- The operation on the resources, which have no sizes. -/
def onResources : Operation → Action
  | openObject id type mode _ _ => .call 7 [id,type,mode]
  | closeDescriptor fd => .call 8 [fd]
  | destroyObject id => .call 9 [id]
  | other a _ => a

/-- The operation on the message queues. -/
def onMessagequeues : Operation → Action
  | openObject id type mode msgSize maxMsg => .call 10 [id,type,msgSize,maxMsg,mode]
  | closeDescriptor fd => .call 11 [fd]
  | destroyObject id => .call 12 [id]
  | other a _ => a

end Operation

namespace Kernel

/-- The queues of the second kernel are the resources of the first one, list by list and
block by block, the rest is the same up to the calls on record and the sizes of queues,
and the same values were returned. -/
structure Corresponding (s t : Kernel) : Prop where
  layer : t.messagequeues = s.resources
  unused : t.resources = s.messagequeues
  image : ∃ x : Extras, t = s.mirror x
  retvalues : t.syscallRetvalue = s.syscallRetvalue
  returns : t.returns = s.returns

variable {s t : Kernel} {x : Extras}

theorem Mirrored.corresponding (h : Mirrored s t) : Corresponding s t := by
  obtain ⟨x,hx,rfl⟩ := h
  exact ⟨rfl,rfl,⟨x,rfl⟩,rfl,hx.2⟩

/-- An operation does the same to the resources of a kernel and to the queues of its image. -/
theorem operation_mirror (h : Inv s) (hst : Mirrored s t) (o : Operation) :
    Agree Mirrored (s.step o.onResources) (t.step o.onMessagequeues) := by
  cases o with
  | other a ha => exact step_mirror h hst ha
  | openObject id type mode msgSize maxMsg =>
    obtain ⟨x,hx,rfl⟩ := hst
    apply call_mirror
    intro r hr
    apply handled_mirror (c := .openResource) (d := .mqOpen) h hx hr rfl rfl _ (by decide)
    · intro _
      apply openResource_mirror
      simp [Extras.enter,enterTrap,record,saveContext,syscallNumarg]
    · intro i hi
      rcases Nat.le_one_iff_eq_zero_or_eq_one.mp (Nat.le_of_lt_succ hi) with rfl | rfl <;> rfl
  | closeDescriptor fd =>
    obtain ⟨x,hx,rfl⟩ := hst
    apply call_mirror
    intro r hr
    apply handled_mirror (c := .closeResource) (d := .mqClose) h hx hr rfl rfl _ (by decide)
    · exact fun _ => agree_image closeResource_mirror (.refl _)
    · exact fun _ _ => rfl
  | destroyObject id =>
    obtain ⟨x,hx,rfl⟩ := hst
    apply call_mirror
    intro r hr
    apply handled_mirror (c := .destroyResource) (d := .mqUnlink) h hx hr rfl rfl _ (by decide)
    · exact fun _ => agree_image destroyResource_mirror (.refl _)
    · exact fun _ _ => rfl

theorem disastrOSStart_mirror (function args : ℤ) (logFile : Bool) (chars : ℤ → UInt8)
    (ints : ℤ → ℤ) : Agree Mirrored (disastrOSStart function args logFile chars ints)
      (disastrOSStart function args logFile chars ints) := by
  let x : Extras := ⟨fun _ => 0,fun _ => 0,fun _ => 0,fun _ _ => 0,[]⟩
  let s := cold function args logFile chars ints
  have hargs : (s.mirror x).syscallArgs = s.syscallArgs := by
    funext p i
    exact ite_self 0
  have hs : s.mirror x = s :=
    congrArg (fun f : ℕ → ℕ → ℤ => ({ s with syscallArgs := f } : Kernel)) hargs
  have hx : x.Fits s := ⟨fun _ => Iff.rfl,rfl⟩
  have himage := agree_image (startFirstProcess_mirror (s := s)) (.refl x)
  rw [hs] at himage
  apply hx.agree himage
  intro v hv
  obtain ⟨p,pool,_,hsw⟩ := startFirstProcess_ok hv
  exact (SameCalls.refl s).trans hsw.sameCalls

/-- Every sequence of operations has the same outcome on the two layers: the same fault,
or corresponding states. -/
theorem layers_same_machine (function args : ℤ) (logFile : Bool) (chars : ℤ → UInt8)
    (ints : ℤ → ℤ) (operations : List Operation) : Agree Corresponding
      (disastrOSStart function args logFile chars ints >>= fun s =>
        (operations.map Operation.onResources).foldlM step s)
      (disastrOSStart function args logFile chars ints >>= fun s =>
        (operations.map Operation.onMessagequeues).foldlM step s) := by
  have hstart : Agree (fun s t => Inv s ∧ Mirrored s t)
      (disastrOSStart function args logFile chars ints)
      (disastrOSStart function args logFile chars ints) := by
    apply (disastrOSStart_mirror function args logFile chars ints).mono_of_eq
    intro s t hs _ hst
    exact ⟨disastrOSStart_inv hs,hst⟩
  apply hstart.bind
  intro s t hst
  have hstep : ∀ s t o, Inv s ∧ Mirrored s t → Agree (fun s t => Inv s ∧ Mirrored s t)
      (s.step (Operation.onResources o)) (t.step (Operation.onMessagequeues o)) := by
    intro s t o hst
    apply (operation_mirror hst.1 hst.2 o).mono_of_eq
    intro s' t' hs' _ hst'
    exact ⟨(step_moves hst.1 hs').inv hst.1,hst'⟩
  apply (agree_foldlM hstep operations hst).mono
  intro s' t' hst'
  exact hst'.2.corresponding

/-- The second creation of a queue is refused, as that of a resource is. -/
example : (match disastrOSStart 0 0 false (fun _ => 0) (fun _ => 0) >>= fun s =>
      ([.openObject 5 0 dsosCreate 16 2,.other .ret rfl,.openObject 5 0 dsosCreate 16 2,
        .other .ret rfl].map Operation.onMessagequeues).foldlM step s with
    | .ok s => s.returns
    | .error _ => []) = [(0,messagequeueErrors.create),(0,0)] := by
  decide +kernel

end Kernel

end DisastrOS
