import DisastrOS.Properties.FailedOpens

/-! # What the mode of an open asks for

The value of the flag for writing is that of the flag for reading with the bit for the
creation in it. An open for writing is therefore taken for a creation, and one without it
creates nothing.
-/
namespace DisastrOS

open DescriptorLayer

/-- The mode that is put together from some flags. -/
def orFlags (flags : List ℤ) : ℤ :=
  (flags.foldr (fun flag mode => BitVec.ofInt 32 flag ||| mode) 0#32).toInt

theorem hasFlag_or (mode mode' : BitVec 32) (flag : ℤ) :
    hasFlag (mode ||| mode').toInt flag = (hasFlag mode.toInt flag || hasFlag mode'.toInt flag) := by
  unfold hasFlag
  simp only [BitVec.ofInt_toInt,BitVec.and_or_distrib_right]
  rw [Bool.eq_iff_iff]
  simp only [bne_iff_ne,ne_eq,Bool.or_eq_true,BitVec.or_eq_zero_iff,not_and_or]

theorem hasFlag_orFlags (flags : List ℤ) (flag : ℤ) :
    hasFlag (orFlags flags) flag = flags.any (fun f => hasFlag f flag) := by
  induction flags with
  | nil => simp [orFlags,hasFlag]
  | cons f flags ih =>
    unfold orFlags at ih ⊢
    rw [List.foldr_cons,hasFlag_or,ih,List.any_cons]
    unfold hasFlag
    rw [BitVec.ofInt_toInt]

/-- The flags that do not ask for a creation. -/
def WithoutCreate (flags : List ℤ) : Prop :=
  ∀ f ∈ flags, f = dsosRead ∨ f = dsosWrite ∨ f = dsosExcl

/-- Of these only the flag for writing has the bit for the creation. -/
theorem hasFlag_dsosCreate {flags : List ℤ} (h : WithoutCreate flags) :
    hasFlag (orFlags flags) dsosCreate = true ↔ dsosWrite ∈ flags := by
  rw [hasFlag_orFlags,List.any_eq_true]
  constructor
  · rintro ⟨f,hf,hflag⟩
    rcases h f hf with rfl | rfl | rfl
    · exact absurd hflag (by decide)
    · exact hf
    · exact absurd hflag (by decide)
  · exact fun hw => ⟨dsosWrite,hw,by decide⟩

/-- No error of an open is the number of a descriptor. -/
structure LayerErrors.Negative (e : LayerErrors) : Prop where
  create : e.create < 0
  openFailed : e.openFailed < 0
  noExcl : e.noExcl < 0
  noFd : e.noFd < 0

theorem LayerKind.errors_negative (k : LayerKind) : k.errors.Negative := by
  cases k <;> constructor <;> decide

theorem DescriptorLayer.openDescriptor_objectsList {L : DescriptorLayer} {e : LayerErrors} {p o : ℕ}
    {type openMode : ℤ} {created : Option ℕ} {res : OpenResult}
    (hok : L.openDescriptor e p o type openMode created = .ok res) :
    res.layer.objectsList = L.objectsList := by
  unfold openDescriptor at hok
  split at hok
  · cases hok
    rfl
  · split at hok
    · cases hok
      rfl
    · split at hok
      · cases hok
        rfl
      · split at hok <;> cases hok
        rfl

namespace Kernel

/-- The open returns this value to its caller. -/
def OpenReturns (s : Kernel) (k : LayerKind) (r : ℕ) (args : List ℤ) (v : ℤ) : Prop :=
  ∃ t, s.step (.call k.openCall.number args) = .ok t ∧ t.running = some r ∧ t.syscallRetvalue r = v

/-- An open in exclusive mode of an object that is in use. -/
def OpenInUse (s : Kernel) (k : LayerKind) (args : List ℤ) (o : ℕ) : Prop :=
  hasFlag (args.getD k.modeArg 0) dsosExcl = true ∧ (s.layer k).descriptorsPtrs o ≠ []

/-- The open does what is to be done without a request for a creation: the system list stays
as it is, an object that does not exist is reported, and an existing one of the given type is
opened, subject to exclusivity and to a free descriptor. -/
structure OpensOnly (s : Kernel) (k : LayerKind) (r : ℕ) (args : List ℤ) : Prop where
  addsNone : ∀ t, s.step (.call k.openCall.number args) = .ok t →
    (t.layer k).objectsList = (s.layer k).objectsList
  absent : (s.layer k).byId (args.getD 0 0) = none → s.OpenReturns k r args k.errors.openFailed
  inUse : ∀ o, (s.layer k).byId (args.getD 0 0) = some o → (s.layer k).type o = args.getD 1 0 →
    s.OpenInUse k args o → s.OpenReturns k r args k.errors.noExcl
  full : ∀ o, (s.layer k).byId (args.getD 0 0) = some o → (s.layer k).type o = args.getD 1 0 →
    ¬ s.OpenInUse k args o → (s.layer k).descriptorAllocator.getBlock = none →
      s.OpenReturns k r args k.errors.noFd
  opened : ∀ o, (s.layer k).byId (args.getD 0 0) = some o → (s.layer k).type o = args.getD 1 0 →
    ¬ s.OpenInUse k args o → (s.layer k).descriptorAllocator.getBlock ≠ none →
      s.OpenSucceeds k r args o

variable {s t : Kernel} {k : LayerKind} {r o : ℕ} {args : List ℤ} {res : OpenResult} {v : ℤ}

theorem Calling.openReturns (h : s.Calling r) (hok : s.openWith k r args = .ok res) :
    s.OpenReturns k r args res.retvalue :=
  ⟨_,step_open_ok h.running h.down h.cpu hok,
    (unmoved_afterOpen s k r args res).running.trans h.running,syscallRetvalue_afterOpen⟩

theorem Calling.openReturns_eq (h : s.Calling r) (hok : s.openWith k r args = .ok res)
    (hret : s.OpenReturns k r args v) : v = res.retvalue := by
  obtain ⟨t,hstep,_,hv⟩ := hret
  cases (step_open_ok h.running h.down h.cpu hok).symm.trans hstep
  rw [← hv,syscallRetvalue_afterOpen]

theorem openWith_noCreate (hflag : hasFlag (args.getD k.modeArg 0) dsosCreate = false)
    (hid : (s.layer k).byId (args.getD 0 0) = some o) : s.openWith k r args =
      (s.layer k).openDescriptor k.errors r o (args.getD 1 0) (args.getD k.modeArg 0) none := by
  unfold openWith openObject
  rw [hflag,hid]

theorem openWith_absent (hflag : hasFlag (args.getD k.modeArg 0) dsosCreate = false)
    (hid : (s.layer k).byId (args.getD 0 0) = none) :
    s.openWith k r args = .ok ⟨s.layer k,k.errors.openFailed,none⟩ := by
  unfold openWith openObject
  rw [hflag,hid]

theorem not_openInUse_iff : ¬ s.OpenInUse k args o ↔
    ¬ (hasFlag (args.getD k.modeArg 0) dsosExcl ∧ ((s.layer k).descriptorsPtrs o).length ≠ 0) := by
  unfold OpenInUse
  rw [ne_eq,ne_eq,List.length_eq_zero_iff]

/-- Without the bit for the creation the open does what it is to do. -/
theorem Calling.opensOnly (h : s.Calling r)
    (hflag : hasFlag (args.getD k.modeArg 0) dsosCreate = false) : s.OpensOnly k r args := by
  constructor
  · intro t hstep
    cases hres : s.openWith k r args with
    | error f => cases (step_open_error h.running h.down h.cpu hres).symm.trans hstep
    | ok res =>
      cases (step_open_ok h.running h.down h.cpu hres).symm.trans hstep
      rw [layer_afterOpen]
      cases hid : (s.layer k).byId (args.getD 0 0) with
      | none =>
        cases (openWith_absent hflag hid).symm.trans hres
        rfl
      | some o =>
        rw [openWith_noCreate hflag hid] at hres
        exact openDescriptor_objectsList hres
  · exact fun hid => h.openReturns (openWith_absent hflag hid)
  · intro o hid htype huse
    have hok : s.openWith k r args = .ok ⟨s.layer k,k.errors.noExcl,none⟩ := by
      rw [openWith_noCreate hflag hid]
      unfold openDescriptor
      have hcheck : hasFlag (args.getD k.modeArg 0) dsosExcl ∧
          ((s.layer k).descriptorsPtrs o).length ≠ 0 := by
        by_contra hnot
        exact not_openInUse_iff.mpr hnot huse
      rw [if_neg (not_not.mpr htype),if_pos hcheck]
    exact h.openReturns hok
  · intro o hid htype huse hnone
    have hok : s.openWith k r args = .ok ⟨s.layer k,k.errors.noFd,none⟩ := by
      rw [openWith_noCreate hflag hid]
      exact openDescriptor_none hnone htype (not_openInUse_iff.mp huse)
    exact h.openReturns hok
  · intro o hid htype huse hne
    obtain ⟨⟨d,dPool⟩,hd⟩ := Option.ne_none_iff_exists'.mp hne
    obtain ⟨x,xPool,hx⟩ := ((Reachable.inv h.reachable).layer k).exists_ptr hd
    have hok : s.openWith k r args =
        .ok ⟨(s.layer k).publish r o d x dPool xPool,(s.layer k).lastFd r,none⟩ := by
      rw [openWith_noCreate hflag hid]
      exact openDescriptor_some hd hx htype (not_openInUse_iff.mp huse)
    exact h.openSucceeds hok

/-- With it the open creates the object that is absent, uses the block that it did not get,
or reports the object that is there. -/
theorem Calling.not_opensOnly (h : s.Calling r)
    (hflag : hasFlag (args.getD k.modeArg 0) dsosCreate = true)
    (htypes : ∀ o, (s.layer k).byId (args.getD 0 0) = some o → (s.layer k).type o = args.getD 1 0) :
    ¬ s.OpensOnly k r args := by
  intro honly
  cases hid : (s.layer k).byId (args.getD 0 0) with
  | none =>
    have hinv := (Reachable.inv h.reachable).layer k
    have hopened := hinv.openObject_opened k.errors r (args.getD 0 0) (args.getD 1 0)
      (args.getD k.modeArg 0)
    obtain ⟨t,hstep,_,_⟩ := honly.absent hid
    have hlist := honly.addsNone t hstep
    by_cases hnone : (s.layer k).objectAllocator.getBlock = none
    · have herr : s.openWith k r args = .error .nullPointer := by
        unfold openWith openObject
        rw [hflag,hid]
        simp only [allocObject_none _ _ hnone,error_bind]
      cases (step_open_error h.running h.down h.cpu herr).symm.trans hstep
    · obtain ⟨o,L,ha⟩ := allocObject_of_ne_none (args.getD 0 0) (args.getD 1 0) hnone
      have hcreate : s.openWith k r args = L.openDescriptor k.errors r o (args.getD 1 0)
          (args.getD k.modeArg 0) (some o) := by
        unfold openWith openObject
        rw [hflag,hid]
        simp only [ha,ok_bind]
      cases hres : s.openWith k r args with
      | error f => cases (step_open_error h.running h.down h.cpu hres).symm.trans hstep
      | ok res =>
        cases (step_open_ok h.running h.down h.cpu hres).symm.trans hstep
        rw [layer_afterOpen,openDescriptor_objectsList (hcreate.symm.trans hres),
          (hinv.allocObject ha).2.2.1] at hlist
        have hlen := congrArg List.length hlist
        simp [listAppend] at hlen
  | some o =>
    have hok : s.openWith k r args = .ok ⟨s.layer k,k.errors.create,none⟩ :=
      openObject_exists hflag (hid.trans_ne (Option.some_ne_none o))
    have hnoExcl : k.errors.noExcl ≠ k.errors.create := by cases k <;> decide
    have hnoFd : k.errors.noFd ≠ k.errors.create := by cases k <;> decide
    by_cases huse : s.OpenInUse k args o
    · exact hnoExcl (h.openReturns_eq hok (honly.inUse o hid (htypes o hid) huse))
    · by_cases hnone : (s.layer k).descriptorAllocator.getBlock = none
      · exact hnoFd (h.openReturns_eq hok (honly.full o hid (htypes o hid) huse hnone))
      · obtain ⟨t,d,hstep,hrun,hret,_⟩ := honly.opened o hid (htypes o hid) huse hnone
        have heq := h.openReturns_eq hok ⟨t,hstep,hrun,rfl⟩
        have hneg : ¬ 0 ≤ k.errors.create := by cases k <;> decide
        rw [heq] at hret
        exact hneg hret

/-- The report of an object that is there leaves the list alone, and nothing is asked of the
open if that object has another type. -/
theorem Calling.opensOnly_of_type (h : s.Calling r)
    (hflag : hasFlag (args.getD k.modeArg 0) dsosCreate = true)
    (hid : (s.layer k).byId (args.getD 0 0) = some o) (htype : (s.layer k).type o ≠ args.getD 1 0) :
    s.OpensOnly k r args := by
  have hok : s.openWith k r args = .ok ⟨s.layer k,k.errors.create,none⟩ :=
    openObject_exists hflag (by rw [hid]; exact nofun)
  have hother : ∀ o', (s.layer k).byId (args.getD 0 0) = some o' →
      (s.layer k).type o' ≠ args.getD 1 0 := by
    intro o' ho'
    cases hid.symm.trans ho'
    exact htype
  constructor
  · intro t hstep
    cases (step_open_ok h.running h.down h.cpu hok).symm.trans hstep
    rw [layer_afterOpen]
  · exact fun hnone => absurd (hid.symm.trans hnone) nofun
  · exact fun o' ho' htype' => absurd htype' (hother o' ho')
  · exact fun o' ho' htype' => absurd htype' (hother o' ho')
  · exact fun o' ho' htype' => absurd htype' (hother o' ho')

end Kernel

open Kernel

/-- An open with some of the flags for reading, for writing and for exclusive use creates
nothing, and opens what there is, exactly if the one for writing is not among them or the id
is that of an object of another type. -/
theorem open_creates_on_request {s : Kernel} {k : LayerKind} {r : ℕ} {args flags : List ℤ}
    (h : s.Calling r) (hflags : WithoutCreate flags)
    (hmode : args.getD k.modeArg 0 = orFlags flags) :
    s.OpensOnly k r args ↔ dsosWrite ∉ flags ∨
      ∃ o, (s.layer k).byId (args.getD 0 0) = some o ∧ (s.layer k).type o ≠ args.getD 1 0 := by
  have hcreate := hasFlag_dsosCreate hflags
  rw [← hmode] at hcreate
  by_cases hflag : hasFlag (args.getD k.modeArg 0) dsosCreate = true
  · constructor
    · intro honly
      by_contra hnot
      push Not at hnot
      exact h.not_opensOnly hflag hnot.2 honly
    · rintro (hw | ⟨o,hid,htype⟩)
      · exact absurd (hcreate.mp hflag) hw
      · exact h.opensOnly_of_type hflag hid htype
  · exact iff_of_true (h.opensOnly (by simpa using hflag)) (Or.inl fun hw => hflag (hcreate.mpr hw))

/-- The first process has created a queue, and opens it for reading and for exclusive use. -/
theorem open_creates_on_request_run : ∃ s : Kernel, s.messagequeues.byId 5 = some 0 ∧
    (s.OpensOnly .messagequeues 0 [5,0,16,2,orFlags [dsosRead,dsosExcl]] ↔
      dsosWrite ∉ [dsosRead,dsosExcl] ∨
        ∃ o, (s.layer .messagequeues).byId 5 = some o ∧ (s.layer .messagequeues).type o ≠ 0) := by
  obtain ⟨s,hs,hcheck⟩ := exists_run Transitions.unguarded [.call 10 [5,0,16,2,dsosCreate],.ret]
    (fun s => s.running = some 0 && s.shutdownNow = false && s.cpu ≠ .syscall &&
      s.messagequeues.byId 5 = some 0) (by decide)
  simp only [Bool.and_eq_true,decide_eq_true_eq] at hcheck
  obtain ⟨⟨⟨hr,hdown⟩,hcpu⟩,hid⟩ := hcheck
  have hflags : WithoutCreate [dsosRead,dsosExcl] := by
    unfold WithoutCreate
    decide
  exact ⟨s,hid,open_creates_on_request ⟨hs,hr,hdown,hcpu⟩ hflags rfl⟩

/-- The first process opens a queue for writing that does not exist, and it is created. -/
theorem open_for_writing_creates : ¬ ∀ (s : Kernel) (k : LayerKind) (r : ℕ) (args flags : List ℤ),
    s.Calling r → WithoutCreate flags → args.getD k.modeArg 0 = orFlags flags →
      s.OpensOnly k r args := by
  intro hclaim
  obtain ⟨s,hs,hcheck⟩ := exists_run Transitions.unguarded []
    (fun s => s.running = some 0 && s.shutdownNow = false && s.cpu ≠ .syscall &&
      s.messagequeues.byId 5 = none) (by decide)
  simp only [Bool.and_eq_true,decide_eq_true_eq] at hcheck
  obtain ⟨⟨⟨hr,hdown⟩,hcpu⟩,hid⟩ := hcheck
  have hflags : WithoutCreate [dsosWrite] := by
    unfold WithoutCreate
    decide
  have h : s.Calling 0 := ⟨hs,hr,hdown,hcpu⟩
  have honly := hclaim s .messagequeues 0 [5,0,16,2,orFlags [dsosWrite]] [dsosWrite] h hflags rfl
  refine h.not_opensOnly (by decide) ?_ honly
  exact fun o ho => absurd (hid.symm.trans ho) nofun

end DisastrOS
