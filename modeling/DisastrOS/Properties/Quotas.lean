import DisastrOS.Properties.Exhaustion

/-! # The pools of descriptors

A descriptor and its pointer are handed out and freed together, so that the pointer, which
no open checks, is never missing. Both pools have as many blocks as there can be processes,
and not as many for every process, so that one process can take the descriptors of all.
-/
namespace DisastrOS

namespace DescriptorLayer

/-- The objects are the same, and so are the descriptors of all processes but `r`, which
has closed none. -/
structure SameObjects (L L' : DescriptorLayer) (r : ℕ) : Prop where
  objectAllocator : L'.objectAllocator = L.objectAllocator
  objectsList : L'.objectsList = L.objectsList
  id : L'.id = L.id
  type : L'.type = L.type
  others : ∀ p, p ≠ r → L'.descriptors p = L.descriptors p
  kept : ∀ d ∈ L.descriptors r, d ∈ L'.descriptors r

variable {L L' L'' : DescriptorLayer} {A : ℕ → Prop} {r o : ℕ}

theorem SameObjects.refl (L : DescriptorLayer) (r : ℕ) : L.SameObjects L r :=
  ⟨rfl,rfl,rfl,rfl,fun _ _ => rfl,fun _ hd => hd⟩

theorem SameObjects.trans (h : L.SameObjects L' r) (h' : L'.SameObjects L'' r) :
    L.SameObjects L'' r where
  objectAllocator := h'.objectAllocator.trans h.objectAllocator
  objectsList := h'.objectsList.trans h.objectsList
  id := h'.id.trans h.id
  type := h'.type.trans h.type
  others p hp := (h'.others p hp).trans (h.others p hp)
  kept d hd := h'.kept d (h.kept d hd)

theorem SameObjects.byId (h : L.SameObjects L' r) (id : ℤ) : L'.byId id = L.byId id := by
  unfold DescriptorLayer.byId
  rw [h.objectsList,h.id]

theorem sameObjects_publish (L : DescriptorLayer) (r o d x : ℕ)
    (dPool xPool : Pool maxNumProcesses) : L.SameObjects (L.publish r o d x dPool xPool) r where
  objectAllocator := rfl
  objectsList := rfl
  id := rfl
  type := rfl
  others p hp := Function.update_of_ne hp _ _
  kept d' hd' := by
    dsimp only [publish]
    rw [Function.update_self]
    exact mem_listAppend.mpr (Or.inl hd')

end DescriptorLayer

open DescriptorLayer

/-- How many descriptors a process may have by the constants. -/
def LayerKind.quota : LayerKind → ℕ
  | resources => maxNumDescriptorsPerProcess
  | messagequeues => maxNumDescrittoriPerProcess

namespace Kernel
variable {s t u v : Kernel} {r p o next : ℕ} {k : LayerKind} {args : List ℤ}

/-- The open is one of an existing object with its type, without the two flags. -/
structure OpensExisting (s : Kernel) (k : LayerKind) (args : List ℤ) (o : ℕ) : Prop where
  found : (s.layer k).byId (args.getD 0 0) = some o
  type : (s.layer k).type o = args.getD 1 0
  noCreate : hasFlag (args.getD k.modeArg 0) dsosCreate = false
  noExcl : hasFlag (args.getD k.modeArg 0) dsosExcl = false

/-- The process that asks for it keeps to its quota. -/
structure WithinQuota (s : Kernel) (k : LayerKind) (r : ℕ) (args : List ℤ) (o : ℕ) : Prop
    extends s.OpensExisting k args o where
  quota : ((s.layer k).descriptors r).length < k.quota

/-- The open returns the number of a new descriptor of its caller for the object. -/
def OpenSucceeds (s : Kernel) (k : LayerKind) (r : ℕ) (args : List ℤ) (o : ℕ) : Prop :=
  ∃ t d, s.step (.call k.openCall.number args) = .ok t ∧ t.running = some r ∧
    0 ≤ t.syscallRetvalue r ∧ (t.layer k).fd d = t.syscallRetvalue r ∧ (t.layer k).object d = o ∧
    (t.layer k).descriptors r = listAppend ((s.layer k).descriptors r) d

theorem OpensExisting.openWith_eq (ho : s.OpensExisting k args o) : s.openWith k r args =
    (s.layer k).openDescriptor k.errors r o (args.getD 1 0) (args.getD k.modeArg 0) none := by
  unfold openWith openObject
  rw [ho.noCreate,ho.found]

theorem OpensExisting.not_excl (ho : s.OpensExisting k args o) :
    ¬ (hasFlag (args.getD k.modeArg 0) dsosExcl ∧ ((s.layer k).descriptorsPtrs o).length ≠ 0) := by
  rw [ho.noExcl]
  simp

theorem OpensExisting.openWith_none (ho : s.OpensExisting k args o)
    (hd : (s.layer k).descriptorAllocator.getBlock = none) :
    s.openWith k r args = .ok ⟨s.layer k,k.errors.noFd,none⟩ := by
  rw [ho.openWith_eq]
  exact openDescriptor_none hd ho.type ho.not_excl

theorem OpensExisting.openWith_some (h : Inv s) (ho : s.OpensExisting k args o) {d : ℕ}
    {dPool : Pool maxNumProcesses}
    (hd : (s.layer k).descriptorAllocator.getBlock = some (d,dPool)) :
    ∃ x xPool, s.openWith k r args =
      .ok ⟨(s.layer k).publish r o d x dPool xPool,(s.layer k).lastFd r,none⟩ := by
  obtain ⟨x,xPool,hx⟩ := (h.layer k).exists_ptr hd
  refine ⟨x,xPool,?_⟩
  rw [ho.openWith_eq]
  exact openDescriptor_some hd hx ho.type ho.not_excl

theorem OpensExisting.congr (ho : s.OpensExisting k args o)
    (hsame : (s.layer k).SameObjects (t.layer k) r) : t.OpensExisting k args o where
  found := (hsame.byId _).trans ho.found
  type := (congrFun hsame.type o).trans ho.type
  noCreate := ho.noCreate
  noExcl := ho.noExcl

theorem Unmoved.refl (s : Kernel) (r : ℕ) : Unmoved s s r :=
  ⟨rfl,rfl,rfl,rfl,rfl,rfl,rfl,rfl,fun _ _ => rfl⟩

theorem Unmoved.resumed (h : Unmoved s t r) : Unmoved s (t.resumed r) r := { h with }

theorem Calling.opens (h : s.Calling r) (ho : s.OpensExisting k args o) {d : ℕ}
    {dPool : Pool maxNumProcesses}
    (hd : (s.layer k).descriptorAllocator.getBlock = some (d,dPool)) :
    ∃ u : Kernel, u.Calling r ∧ Unmoved s u r ∧ (s.layer k).SameObjects (u.layer k) r ∧
      (u.layer k).descriptorAllocator = dPool := by
  obtain ⟨x,xPool,hok⟩ := ho.openWith_some (Reachable.inv h.reachable) hd
  have hstep := step_open_ok h.running h.down h.cpu hok
  have hun := unmoved_afterOpen s k r args
    ⟨(s.layer k).publish r o d x dPool xPool,(s.layer k).lastFd r,none⟩
  refine ⟨_,h.resumed hstep (hun.running.trans h.running) (hun.down.trans h.down) rfl,
    hun.resumed,?_,?_⟩
  · change (s.layer k).SameObjects ((s.afterOpen k r args _).layer k) r
    rw [layer_afterOpen]
    exact sameObjects_publish _ r o d x dPool xPool
  · change ((s.afterOpen k r args _).layer k).descriptorAllocator = dPool
    rw [layer_afterOpen]
    rfl

/-- A process that goes on opening an object takes all descriptors in the end. -/
theorem Calling.takesAll {n : ℕ} (h : s.Calling r) (ho : s.OpensExisting k args o)
    (hn : maxNumProcesses ≤ (s.layer k).descriptorAllocator.used.card + n) :
    ∃ u : Kernel, u.Calling r ∧ Unmoved s u r ∧ (s.layer k).SameObjects (u.layer k) r ∧
      (u.layer k).descriptorAllocator.getBlock = none := by
  induction n generalizing s with
  | zero =>
    have hle := (s.layer k).descriptorAllocator.card_used_le
    refine ⟨s,h,.refl s r,.refl _ r,?_⟩
    rw [Pool.getBlock_eq_none_iff]
    omega
  | succ n ih =>
    cases hd : (s.layer k).descriptorAllocator.getBlock with
    | none => exact ⟨s,h,.refl s r,.refl _ r,hd⟩
    | some b =>
      obtain ⟨d,dPool⟩ := b
      obtain ⟨u,hu,hun,hsame,hpool⟩ := h.opens ho hd
      have hcard := Pool.card_used_getBlock hd
      rw [← hpool] at hcard
      obtain ⟨v,hv,hun',hsame',hnone⟩ := ih hu (ho.congr hsame) (by omega)
      exact ⟨v,hv,hun.trans hun',hsame.trans hsame',hnone⟩

theorem internalSchedule_cons (htimers : s.timerList = []) (hr : s.running = some r)
    {rest : List ℕ} (hready : s.readyList = next :: rest) :
    s.internalSchedule = .ok (s.rotated r next rest) := by
  have hwoken : wakeElapsed s.timerList.length none s = .ok s := by
    simp only [htimers,List.length_nil,wakeElapsed,timerListCurrent]
  unfold internalSchedule
  rw [hwoken,ok_bind,hready,hr]
  rfl

theorem Calling.preempts (h : s.Calling r) (htimers : s.timerList = []) {rest : List ℕ}
    (hready : s.readyList = next :: rest) (hne : next ≠ r) {c : Context}
    (hc : s.cpuState next = some c) (hpoint : c.point ≠ .syscall) :
    ∃ u : Kernel, u.Calling next ∧ u.layer = s.layer := by
  have hsched : handler .preempt (s.enterTrap r 1 []) r =
      .ok ((s.enterTrap r 1 []).rotated r next rest) :=
    internalSchedule_cons (s := s.enterTrap r 1 []) htimers h.running hready
  have hcontext : ((s.enterTrap r 1 []).rotated r next rest).cpuState next = some c :=
    (Function.update_of_ne hne _ _).trans hc
  have hstep : s.step (.call 1 []) = .ok { (s.enterTrap r 1 []).rotated r next rest with
      cpu := c.point } := by
    rw [step_call (c := .preempt) h.running h.down h.cpu rfl,hsched,ok_bind]
    exact leaveTrap_resumes h.down rfl hcontext
  exact ⟨_,⟨.step h.reachable trivial hstep,rfl,h.down,hpoint⟩,rfl⟩

/-- The first process has taken all descriptors of message queues, and its child none. -/
structure Filled (s : Kernel) : Prop extends s.Calling 0 where
  timerList : s.timerList = []
  readyList : s.readyList = [1]
  context : ∃ c, s.cpuState 1 = some c ∧ c.point ≠ .syscall
  existing : s.OpensExisting .messagequeues [0,0,16,2,0] 0
  absent : s.messagequeues.byId 5 = none
  block : s.messagequeues.objectAllocator.getBlock ≠ none
  taken : s.messagequeues.descriptorAllocator.getBlock = none
  own : s.messagequeues.descriptors 0 ≠ []
  child : s.messagequeues.descriptors 1 = []

theorem exists_filled : ∃ s : Kernel, s.Filled := by
  obtain ⟨s,hs,hcheck⟩ := exists_run Transitions.unguarded
    [.call 5 [0,0],.ret,.call 10 [0,0,16,2,dsosCreate],.ret]
    (fun s => s.running = some 0 && s.shutdownNow = false && s.cpu ≠ .syscall &&
      s.timerList = [] && s.readyList = [1] && (s.cpuState 1).any (fun c => c.point ≠ .syscall) &&
      s.messagequeues.byId 0 = some 0 && s.messagequeues.type 0 = 0 &&
      s.messagequeues.byId 5 = none && s.messagequeues.objectAllocator.getBlock.isSome &&
      0 ∈ s.messagequeues.descriptors 0 && s.messagequeues.descriptors 1 = []) (by decide)
  simp only [Bool.and_eq_true,decide_eq_true_eq] at hcheck
  obtain ⟨⟨⟨⟨⟨⟨⟨⟨⟨⟨⟨hr,hdown⟩,hcpu⟩,htimers⟩,hready⟩,hcontext⟩,hid⟩,htype⟩,habsent⟩,hblock⟩,hown⟩,
    hchild⟩ := hcheck
  obtain ⟨c,hc,hpoint⟩ := (Option.any_eq_true _ _).mp hcontext
  have ho : s.OpensExisting .messagequeues [0,0,16,2,0] 0 := ⟨hid,htype,by decide,by decide⟩
  obtain ⟨u,hu,hun,hsame,hnone⟩ :=
    Calling.takesAll (k := .messagequeues) ⟨hs,hr,hdown,hcpu⟩ ho (Nat.le_add_left _ _)
  refine ⟨u,{ hu with
    timerList := hun.timerList.trans htimers
    readyList := hun.readyList.trans hready
    context := ⟨c,(hun.contexts 1 (by decide)).trans hc,of_decide_eq_true hpoint⟩
    existing := ho.congr hsame
    absent := (hsame.byId 5).trans habsent
    block := ?_
    taken := hnone
    own := List.ne_nil_of_mem (hsame.kept 0 hown)
    child := (hsame.others 1 (by decide)).trans hchild }⟩
  intro hfull
  have heq : s.messagequeues.objectAllocator.getBlock = none := hsame.objectAllocator ▸ hfull
  rw [heq] at hblock
  cases hblock

theorem Calling.openSucceeds (h : s.Calling r) {d x : ℕ} {dPool xPool : Pool maxNumProcesses}
    (hok : s.openWith k r args =
      .ok ⟨(s.layer k).publish r o d x dPool xPool,(s.layer k).lastFd r,none⟩) :
    s.OpenSucceeds k r args o := by
  refine ⟨_,d,step_open_ok h.running h.down h.cpu hok,?_,?_,?_,?_,?_⟩
  · exact (unmoved_afterOpen s k r args _).running.trans h.running
  · rw [syscallRetvalue_afterOpen]
    exact Reachable.lastFd_nonneg h.reachable k r
  · rw [syscallRetvalue_afterOpen,layer_afterOpen]
    exact Function.update_self _ _ _
  · rw [layer_afterOpen]
    exact Function.update_self _ _ _
  · rw [layer_afterOpen]
    exact Function.update_self _ _ _

theorem exists_starved : ∃ s : Kernel, s.Calling 1 ∧
    s.WithinQuota .messagequeues 1 [0,0,16,2,0] 0 ∧
    ¬ (s.layer .messagequeues).descriptorAllocator.used.card < maxNumProcesses := by
  obtain ⟨s,h⟩ := exists_filled
  obtain ⟨c,hc,hpoint⟩ := h.context
  obtain ⟨u,hu,hlayer⟩ := h.preempts h.timerList h.readyList (by decide) hc hpoint
  have hsame : u.layer .messagequeues = s.messagequeues := congrFun hlayer .messagequeues
  have hquota : ((u.layer .messagequeues).descriptors 1).length < LayerKind.messagequeues.quota := by
    rw [hsame,h.child]
    decide
  have ho : u.OpensExisting .messagequeues [0,0,16,2,0] 0 :=
    h.existing.congr (r := 0) (hsame ▸ .refl _ 0)
  refine ⟨u,hu,{ ho with quota := hquota },?_⟩
  rw [hsame,Pool.getBlock_eq_none_iff.mp h.taken]
  exact lt_irrefl _

end Kernel

open Kernel

/-- An open without the two flags of an object that exists, by a process that keeps to its
quota, succeeds exactly if not all descriptors of the one pool are taken. -/
theorem quota_granted {s : Kernel} {k : LayerKind} {r o : ℕ} {args : List ℤ} (h : s.Calling r)
    (ho : s.WithinQuota k r args o) :
    s.OpenSucceeds k r args o ↔ (s.layer k).descriptorAllocator.used.card < maxNumProcesses := by
  have hinv := Reachable.inv h.reachable
  cases hd : (s.layer k).descriptorAllocator.getBlock with
  | none =>
    have hcard := Pool.getBlock_eq_none_iff.mp hd
    refine iff_of_false ?_ (by omega)
    rintro ⟨t,d,hstep,_,hret,_⟩
    have hlate := step_open_ok h.running h.down h.cpu (ho.toOpensExisting.openWith_none hd)
    cases hlate.symm.trans hstep
    rw [syscallRetvalue_afterOpen] at hret
    exact absurd hret (not_le.mpr (noFd_neg k))
  | some b =>
    obtain ⟨d,dPool⟩ := b
    obtain ⟨x,xPool,hok⟩ := ho.toOpensExisting.openWith_some hinv hd
    have hne : (s.layer k).descriptorAllocator.used.card ≠ maxNumProcesses := by
      intro hcard
      cases hd.symm.trans (Pool.getBlock_eq_none_iff.mpr hcard)
    have hle := (s.layer k).descriptorAllocator.card_used_le
    exact iff_of_true (h.openSucceeds hok) (by omega)

/-- The first process has created a queue, and opens it again. -/
theorem quota_granted_run : ∃ s : Kernel, s.WithinQuota .messagequeues 0 [0,0,16,2,0] 0 ∧
    (s.OpenSucceeds .messagequeues 0 [0,0,16,2,0] 0 ↔
      (s.layer .messagequeues).descriptorAllocator.used.card < maxNumProcesses) := by
  obtain ⟨s,hs,hcheck⟩ := exists_run Transitions.unguarded [.call 10 [0,0,16,2,dsosCreate],.ret]
    (fun s => s.running = some 0 && s.shutdownNow = false && s.cpu ≠ .syscall &&
      s.messagequeues.byId 0 = some 0 && s.messagequeues.type 0 = 0 &&
      s.messagequeues.descriptors 0 = [0]) (by decide)
  simp only [Bool.and_eq_true,decide_eq_true_eq] at hcheck
  obtain ⟨⟨⟨⟨⟨hr,hdown⟩,hcpu⟩,hid⟩,htype⟩,hown⟩ := hcheck
  have hquota : (s.messagequeues.descriptors 0).length < maxNumDescrittoriPerProcess := by
    rw [hown]
    decide
  have ho : s.WithinQuota .messagequeues 0 [0,0,16,2,0] 0 :=
    ⟨⟨hid,htype,by decide,by decide⟩,hquota⟩
  exact ⟨s,ho,quota_granted ⟨hs,hr,hdown,hcpu⟩ ho⟩

/-- One process has taken the descriptors of all, and another one that has none gets none. -/
theorem quota_refused : ¬ ∀ (s : Kernel) (k : LayerKind) (r o : ℕ) (args : List ℤ),
    s.Calling r → s.WithinQuota k r args o → s.OpenSucceeds k r args o := by
  intro hclaim
  obtain ⟨s,h,ho,hfull⟩ := exists_starved
  obtain ⟨t,d,hstep,_,hret,_⟩ := hclaim s .messagequeues 1 0 [0,0,16,2,0] h ho
  have hcard := (s.layer .messagequeues).descriptorAllocator.card_used_le
  have hnone : (s.layer .messagequeues).descriptorAllocator.getBlock = none := by
    rw [Pool.getBlock_eq_none_iff]
    omega
  have hfail := step_open_ok h.running h.down h.cpu (ho.toOpensExisting.openWith_none hnone)
  cases hfail.symm.trans hstep
  rw [syscallRetvalue_afterOpen] at hret
  exact absurd hret (not_le.mpr (noFd_neg .messagequeues))

end DisastrOS
