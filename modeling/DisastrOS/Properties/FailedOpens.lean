import DisastrOS.Behaviour.LayerCalls
import DisastrOS.Behaviour.Mail
import DisastrOS.Properties.Quotas

/-! # Opens that fail

An open that is refused by its checks leaves no trace. One that has created its object and
then finds no descriptor leaves the object behind, on the system list and without any
descriptor, and the next attempt to create it is refused for that reason.
-/
namespace DisastrOS

open DescriptorLayer

namespace DescriptorLayer
variable {L : DescriptorLayer} {A : ℕ → Prop} {e : LayerErrors} {p : ℕ} {id type openMode : ℤ}

theorem Linked.closeDescriptor_byId (h : L.Linked A) (e : LayerErrors) (hp : A p) (fd : ℤ) :
    ∃ res, L.closeDescriptor e p fd = .ok res ∧ ∀ id, res.1.byId id = L.byId id := by
  rw [h.closeDescriptor_eq e hp]
  cases L.byFd p fd with
  | none => exact ⟨_,rfl,fun _ => rfl⟩
  | some d => exact ⟨_,rfl,fun _ => rfl⟩

theorem openObject_exists (hflag : hasFlag openMode dsosCreate = true) (hid : L.byId id ≠ none) :
    L.openObject e p id type openMode = .ok ⟨L,e.create,none⟩ := by
  obtain ⟨o,ho⟩ := Option.ne_none_iff_exists'.mp hid
  unfold openObject
  rw [hflag,ho]

theorem byId_ne_none {o : ℕ} (ho : o ∈ L.objectsList) (hid : L.id o = id) : L.byId id ≠ none := by
  unfold byId
  intro hnone
  simpa [hid] using List.find?_eq_none.mp hnone o ho

end DescriptorLayer

namespace Kernel

/-- The system lists, the queues, all descriptors and all pools are the same. -/
structure SameStores (s t : Kernel) : Prop where
  layers : t.layer = s.layer
  mail : t.mail = s.mail
  pcbs : t.pcbAllocator = s.pcbAllocator
  pcbPtrs : t.pcbPtrAllocator = s.pcbPtrAllocator
  timerItems : t.timerItemAllocator = s.timerItemAllocator
  messageBlocks : t.messageAllocator = s.messageAllocator

variable {s t : Kernel} {r : ℕ} {k : LayerKind} {args : List ℤ}

theorem sameStores_refused (s : Kernel) (k : LayerKind) (r : ℕ) (args : List ℤ) (v : ℤ) :
    s.SameStores (s.afterOpen k r args ⟨s.layer k,v,none⟩) := by
  have hun := unmoved_afterOpen s k r args ⟨s.layer k,v,none⟩
  refine ⟨?_,?_,hun.pcbs,hun.pcbPtrs,hun.timerItems,hun.messageBlocks⟩
  · funext j
    by_cases hj : j = k
    · subst hj
      exact layer_afterOpen
    · exact layer_afterOpen_of_ne hj
  · cases k <;> rfl

theorem Calling.failsLate (h : s.Calling r) (k : LayerKind) (args : List ℤ)
    (hlate : (s.layer k).FailsLate (args.getD 0 0) (args.getD k.modeArg 0)) :
    ∃ o t, s.step (.call k.openCall.number args) = .ok t ∧ t.running = some r ∧
      t.shutdownNow = false ∧ t.cpu = .syscall ∧ t.syscallRetvalue r = k.errors.noFd ∧
      (t.layer k).objectsList = listAppend (s.layer k).objectsList o ∧
      (t.layer k).id o = args.getD 0 0 := by
  have hinv := (Reachable.inv h.reachable).layer k
  obtain ⟨o,L,ha,hok⟩ := hinv.openObject_late k.errors r (args.getD 1 0) hlate
  have hun := unmoved_afterOpen s k r args ⟨L,k.errors.noFd,some o⟩
  refine ⟨o,_,step_open_ok h.running h.down h.cpu hok,hun.running.trans h.running,
    hun.down.trans h.down,rfl,syscallRetvalue_afterOpen,?_,?_⟩
  · rw [layer_afterOpen]
    exact (hinv.allocObject ha).2.2.1
  · rw [layer_afterOpen]
    exact id_allocObject ha

theorem Calling.closes (h : s.Calling r) (k : LayerKind) (fd : ℤ) :
    ∃ t, s.step (.call k.closeCall.number [fd]) = .ok t ∧ t.running = some r ∧
      t.shutdownNow = false ∧ t.cpu = .syscall ∧
      ∀ id, (t.layer k).byId id = (s.layer k).byId id := by
  have hinv := Reachable.inv h.reachable
  obtain ⟨res,hok,hid⟩ :=
    (hinv.layer k).closeDescriptor_byId k.errors (hinv.running_allocated h.running) fd
  refine ⟨s.afterClose k r [fd] res,step_close_ok h.running h.down h.cpu hok,
    (running_afterClose res).trans h.running,(shutdownNow_afterClose res).trans h.down,rfl,?_⟩
  rw [layer_afterClose]
  exact hid

end Kernel

open Kernel

/-- An open that returns an error has changed nothing, unless it created its object before
it found no descriptor. -/
theorem failed_open_changes_nothing {s : Kernel} {r : ℕ} (h : s.Calling r) (k : LayerKind)
    (args : List ℤ) :
    (∀ t, s.step (.call k.openCall.number args) = .ok t → t.syscallRetvalue r < 0 →
      s.SameStores t) ↔
    ¬ (s.layer k).FailsLate (args.getD 0 0) (args.getD k.modeArg 0) := by
  constructor
  · intro hsame hlate
    obtain ⟨o,t,hstep,_,_,_,hret,hlist,_⟩ := h.failsLate k args hlate
    have hneg : t.syscallRetvalue r < 0 := by
      rw [hret]
      exact noFd_neg k
    rw [(hsame t hstep hneg).layers] at hlist
    have hlen := congrArg List.length hlist
    simp [listAppend] at hlen
  · intro hlate t hstep hneg
    have hinv := (Reachable.inv h.reachable).layer k
    have hopened := hinv.openObject_opened k.errors r (args.getD 0 0) (args.getD 1 0)
      (args.getD k.modeArg 0)
    have hfd := Reachable.lastFd_nonneg h.reachable k r
    cases hres : s.openWith k r args with
    | error f => cases (step_open_error h.running h.down h.cpu hres).symm.trans hstep
    | ok res =>
      cases (step_open_ok h.running h.down h.cpu hres).symm.trans hstep
      rw [syscallRetvalue_afterOpen] at hneg
      change Opened k.errors (s.layer k) r _ _ _ (s.openWith k r args) at hopened
      rw [hres] at hopened
      cases hopened with
      | refused => exact sameStores_refused s k r args _
      | late hlate' => exact absurd hlate' hlate
      | opened => exact absurd hneg (not_lt.mpr hfd)
      | created => exact absurd hneg (not_lt.mpr hfd)

/-- All descriptors are taken, and the first process creates another queue. -/
theorem failed_open_changes_nothing_run : ∃ s : Kernel,
    (s.layer .messagequeues).FailsLate 5 dsosCreate ∧
    ((∀ t, s.step (.call 10 [5,0,16,2,dsosCreate]) = .ok t → t.syscallRetvalue 0 < 0 →
        s.SameStores t) ↔
      ¬ (s.layer .messagequeues).FailsLate 5 dsosCreate) := by
  obtain ⟨s,h⟩ := exists_filled
  have hlate : (s.layer .messagequeues).FailsLate 5 dsosCreate :=
    ⟨by decide,h.absent,h.block,h.taken⟩
  exact ⟨s,hlate,failed_open_changes_nothing h.toCalling .messagequeues [5,0,16,2,dsosCreate]⟩

/-- That queue is on the system list, although its creation has failed. -/
theorem failed_open_leaves_queue : ¬ ∀ (s t : Kernel) (r : ℕ) (k : LayerKind) (args : List ℤ),
    s.Calling r → s.step (.call k.openCall.number args) = .ok t → t.syscallRetvalue r < 0 →
      s.SameStores t := by
  intro hclaim
  obtain ⟨s,h⟩ := exists_filled
  obtain ⟨o,t,hstep,_,_,_,hret,hlist,_⟩ := h.toCalling.failsLate .messagequeues
    [5,0,16,2,dsosCreate] ⟨by decide,h.absent,h.block,h.taken⟩
  have hneg : t.syscallRetvalue 0 < 0 := by
    rw [hret]
    decide
  have hsame := hclaim s t 0 .messagequeues _ h.toCalling hstep hneg
  rw [hsame.layers] at hlist
  have hlen := congrArg List.length hlist
  simp [listAppend] at hlen

/-- Once an open has failed late, its caller may close what it wants: the next attempt is
told that the object exists. -/
theorem retry_refused {s : Kernel} {r : ℕ} {k : LayerKind} {args : List ℤ} (h : s.Calling r)
    (hlate : (s.layer k).FailsLate (args.getD 0 0) (args.getD k.modeArg 0)) (fd : ℤ) :
    ∃ t u v, s.step (.call k.openCall.number args) = .ok t ∧
      t.syscallRetvalue r = k.errors.noFd ∧
      (t.resumed r).step (.call k.closeCall.number [fd]) = .ok u ∧
      (u.resumed r).step (.call k.openCall.number args) = .ok v ∧
      v.syscallRetvalue r = k.errors.create := by
  obtain ⟨o,t,hopen,hrun,hdown,hcpu,hret,hlist,hid⟩ := h.failsLate k args hlate
  obtain ⟨u,hclose,hrun',hdown',hcpu',hbyId⟩ := (h.resumed hopen hrun hdown hcpu).closes k fd
  have hu := (h.resumed hopen hrun hdown hcpu).resumed hclose hrun' hdown' hcpu'
  have hmem : o ∈ (t.layer k).objectsList := by
    rw [hlist]
    exact mem_listAppend.mpr (Or.inr rfl)
  have hexists : (u.layer k).byId (args.getD 0 0) ≠ none := by
    rw [hbyId]
    exact byId_ne_none hmem hid
  have hok : (u.resumed r).openWith k r args = .ok ⟨u.layer k,k.errors.create,none⟩ :=
    openObject_exists hlate.1 hexists
  exact ⟨t,u,_,hopen,hret,hclose,step_open_ok hu.running hu.down hu.cpu hok,
    syscallRetvalue_afterOpen⟩

end DisastrOS
