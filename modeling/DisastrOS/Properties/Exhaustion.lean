import DisastrOS.Behaviour.Opens

/-! # Calls that find a pool empty

Which allocation of a call is the first to get no block, and what the call makes of it.
Only the want of a descriptor is reported to the caller; the block that was not to be had
is used as if it were there in every other case. There are as many descriptors as
descriptor pointers at any time, so that the latter never run out first.
-/
namespace DisastrOS

/-- What the blocks of the pools hold. -/
inductive BlockKind
  | pcb
  | pcbPtr
  | object
  | descriptor
  | descriptorPtr
  | message
  deriving DecidableEq

namespace DescriptorLayer

/-- The block that is not to be had for a descriptor and its pointer. -/
def lacksDescriptor (L : DescriptorLayer) : Option BlockKind :=
  if L.descriptorAllocator.getBlock.isNone then some .descriptor
  else if L.descriptorPtrAllocator.getBlock.isNone then some .descriptorPtr
  else none

/-- The first block that an open asks for and does not get. -/
def lacks (L : DescriptorLayer) (id type openMode : ℤ) : Option BlockKind :=
  match hasFlag openMode dsosCreate, L.byId id with
  | true, some _ => none
  | true, none => if L.objectAllocator.getBlock.isNone then some .object else L.lacksDescriptor
  | false, some o =>
    if L.type o ≠ type ∨ hasFlag openMode dsosExcl ∧ (L.descriptorsPtrs o).length ≠ 0 then none
    else L.lacksDescriptor
  | false, none => none

variable {L : DescriptorLayer} {A : ℕ → Prop} {e : LayerErrors} {p o : ℕ} {id type openMode : ℤ}
variable {b : BlockKind} {created : Option ℕ}

/-- The pointers do not run out before the descriptors. -/
theorem Linked.lacksDescriptor (h : L.Linked A) (hb : L.lacksDescriptor = some b) :
    b = .descriptor ∧ L.descriptorAllocator.getBlock = none := by
  unfold DescriptorLayer.lacksDescriptor at hb
  simp only [Option.isNone_iff_eq_none] at hb
  split at hb
  · rename_i hnone
    cases hb
    exact ⟨rfl,hnone⟩
  · rename_i hsome
    rw [if_neg (fun hnone => hsome (h.getBlock_none_iff.mp hnone))] at hb
    cases hb

theorem Linked.openObject_lacks (h : L.Linked A) (e : LayerErrors) (p : ℕ)
    (hb : L.lacks id type openMode = some b) :
    b = .descriptor ∧ (∃ r, L.openObject e p id type openMode = .ok r ∧ r.retvalue = e.noFd) ∨
      b ≠ .descriptor ∧ L.openObject e p id type openMode = .error .nullPointer := by
  unfold DescriptorLayer.lacks at hb
  simp only [Option.isNone_iff_eq_none] at hb
  split at hb
  · cases hb
  · rename_i hflag hid
    split at hb
    · rename_i hnone
      cases hb
      refine Or.inr ⟨nofun,?_⟩
      unfold DescriptorLayer.openObject
      rw [hflag,hid]
      simp only [allocObject_none id type hnone,error_bind]
    · rename_i hne
      obtain ⟨hbd,hd⟩ := h.lacksDescriptor hb
      obtain ⟨o,L',_,hok⟩ := h.openObject_late e p type ⟨hflag,hid,hne,hd⟩
      exact Or.inl ⟨hbd,_,hok,rfl⟩
  · rename_i o hflag hid
    unfold DescriptorLayer.openObject
    rw [hflag,hid]
    split at hb
    · cases hb
    · rename_i hchecks
      obtain ⟨htype,hexcl⟩ := not_or.mp hchecks
      obtain ⟨hbd,hd⟩ := h.lacksDescriptor hb
      exact Or.inl ⟨hbd,_,openDescriptor_none hd (not_not.mp htype) hexcl,rfl⟩
  · cases hb

end DescriptorLayer

namespace Kernel

/-- The first block that a call asks for and does not get. -/
def lacks (s : Kernel) (r : ℕ) : Syscall → Option BlockKind
  | .fork | .spawn =>
    if s.pcbAllocator.getBlock.isNone then some .pcb
    else if s.pcbPtrAllocator.getBlock.isNone then some .pcbPtr
    else none
  | .openResource =>
    s.resources.lacks (s.syscallArgs r 0) (s.syscallArgs r 1) (s.syscallArgs r 2)
  | .mqOpen =>
    s.messagequeues.lacks (s.syscallArgs r 0) (s.syscallArgs r 1) (s.syscallArgs r 4)
  | .mqSend => match s.queueOf r with
    | none => none
    | some q =>
      if s.msgSize q < s.syscallArgs r 2 ∨ s.maxMsg q = 0 ∨ s.msgNum q = s.maxMsg q then none
      else if s.messageAllocator.getBlock.isNone then some .message
      else none
  | _ => none

/-- The call returns a negative code to its caller and leaves the kernel well formed. -/
def Refuses (s : Kernel) (r : ℕ) (num : ℤ) (args : List ℤ) : Prop :=
  ∃ t, s.step (.call num args) = .ok t ∧ t.running = some r ∧ t.syscallRetvalue r < 0 ∧ t.Inv

variable {s t u v : Kernel} {r p q : ℕ} {c : Syscall} {b : BlockKind} {num : ℤ} {args : List ℤ}

theorem createChild_lacks (hb : s.lacks r .spawn = some b) :
    b ≠ .descriptor ∧ s.createChild r = .error .nullPointer := by
  unfold lacks at hb
  simp only [Option.isNone_iff_eq_none] at hb
  split at hb
  · rename_i hpcb
    cases hb
    exact ⟨nofun,createChild_none (Or.inl hpcb)⟩
  · split at hb
    · rename_i hptr
      cases hb
      exact ⟨nofun,createChild_none (Or.inr hptr)⟩
    · cases hb

theorem internalMqSend_lacks (hb : s.lacks r .mqSend = some b) :
    b ≠ .descriptor ∧ s.internalMqSend r = .error .nullPointer := by
  unfold lacks at hb
  simp only [Option.isNone_iff_eq_none] at hb
  split at hb
  · cases hb
  · rename_i q hq
    split at hb
    · cases hb
    · rename_i hchecks
      obtain ⟨hlen,hchecks⟩ := not_or.mp hchecks
      obtain ⟨hmax,hfull⟩ := not_or.mp hchecks
      split at hb
      · rename_i hnone
        cases hb
        refine ⟨nofun,?_⟩
        rw [internalMqSend_some hq,if_neg hlen,if_neg hmax,if_neg hfull,appendMessage_none hnone]
      · cases hb

theorem open_lacks (h : Inv s) (hr : s.running = some r) (k : LayerKind)
    (hb : (s.layer k).lacks (s.syscallArgs r 0) (s.syscallArgs r 1) (s.syscallArgs r k.modeArg) =
      some b) :
    b = .descriptor ∧ (∃ v, handler k.openCall s r = .ok v ∧ v.running = some r ∧
        v.syscallRetvalue r < 0 ∧ v.cpuState = s.cpuState ∧ v.shutdownNow = s.shutdownNow) ∨
      b ≠ .descriptor ∧ handler k.openCall s r = .error .nullPointer := by
  rcases (h.layer k).openObject_lacks k.errors r hb with ⟨hbd,res,hok,hv⟩ | ⟨hne,herr⟩
  · have hun := unmoved_opened s k r res
    refine Or.inl ⟨hbd,_,handler_open_ok hok,hun.running.trans hr,?_,cpuState_opened,hun.down⟩
    rw [syscallRetvalue_opened,hv]
    exact noFd_neg k
  · exact Or.inr ⟨hne,handler_open_error herr⟩

/-- Of the calls that do not get a block one for want of a descriptor returns, with a
negative code, and every other one faults. -/
theorem handler_lacks (h : Inv s) (hr : s.running = some r) (hb : s.lacks r c = some b) :
    b = .descriptor ∧ (∃ v, handler c s r = .ok v ∧ v.running = some r ∧
        v.syscallRetvalue r < 0 ∧ v.cpuState = s.cpuState ∧ v.shutdownNow = s.shutdownNow) ∨
      b ≠ .descriptor ∧ handler c s r = .error .nullPointer := by
  cases c with
  | fork =>
    obtain ⟨hne,herr⟩ := createChild_lacks (r := r) (s := s) hb
    refine Or.inr ⟨hne,?_⟩
    simp only [handler,internalFork,herr,error_bind]
  | spawn =>
    obtain ⟨hne,herr⟩ := createChild_lacks hb
    refine Or.inr ⟨hne,?_⟩
    simp only [handler,internalSpawn,herr,error_bind]
  | openResource => exact open_lacks h hr .resources hb
  | mqOpen => exact open_lacks h hr .messagequeues hb
  | mqSend => exact Or.inr (internalMqSend_lacks hb)
  | _ => cases hb

theorem refuses_iff (h : Inv s) (hr : s.running = some r) (hdown : s.shutdownNow = false)
    (hcpu : s.cpu ≠ .syscall) (hc : syscallVector num.toNat = some c)
    (hb : (s.enterTrap r num args).lacks r c = some b) :
    (s.Refuses r num args ↔ b = .descriptor) ∧
      (b ≠ .descriptor → s.step (.call num args) = .error .nullPointer) := by
  rcases handler_lacks (h.enterTrap hr num args) hr hb with
    ⟨hbd,v,hok,hrun,hret,hcpuState,hdown'⟩ | ⟨hne,herr⟩
  · refine ⟨iff_of_true ?_ hbd,fun hne => absurd hbd hne⟩
    have hstep := step_resumes hr hdown hcpu hc hok hrun (hdown'.trans hdown) (congrFun hcpuState r)
    exact ⟨_,hstep,hrun,hret,(step_moves h hstep).inv h⟩
  · have hstep : s.step (.call num args) = .error .nullPointer := by
      rw [step_call hr hdown hcpu hc,herr,error_bind]
    refine ⟨iff_of_false ?_ hne,fun _ => hstep⟩
    rintro ⟨t,hok,_⟩
    cases hstep.symm.trans hok

section Spawning

theorem exists_internalSpawn (h : Inv s) (hr : s.running = some r) {x : ℕ}
    {pool entries : Pool maxNumProcesses} (hb : s.pcbAllocator.getBlock = some (p,pool))
    (hx : s.pcbPtrAllocator.getBlock = some (x,entries)) :
    ∃ v, s.internalSpawn r = .ok v ∧ v.running = some r ∧ v.shutdownNow = s.shutdownNow ∧
      v.cpuState r = s.cpuState r ∧ v.pcbAllocator = pool := by
  obtain ⟨hfree,_,_⟩ := Pool.getBlock_eq_some hb
  have hrp : r ≠ p := by
    rintro rfl
    exact hfree (h.running_allocated hr)
  exact ⟨_,internalSpawn_eq hb hx,hr,rfl,Function.update_of_ne hrp _ _,rfl⟩

/-- A process runs that can make a call. -/
structure Calling (s : Kernel) (r : ℕ) : Prop where
  reachable : Reachable s
  running : s.running = some r
  down : s.shutdownNow = false
  cpu : s.cpu ≠ .syscall

/-- The state in which `r` has read the result of its call. -/
def resumed (s : Kernel) (r : ℕ) : Kernel :=
  { s with cpu := .user }.record (.returned r (s.syscallRetvalue r))

theorem step_ret (hrun : t.running = some r) (hdown : t.shutdownNow = false)
    (hcpu : t.cpu = .syscall) : t.step .ret = .ok (t.resumed r) := by
  have hread : t.step .ret = t.returnFromSyscall := by
    unfold step
    rw [if_neg (by simp [hdown])]
    exact if_pos hcpu
  rw [hread]
  unfold returnFromSyscall
  split
  · rename_i hnone
    cases hnone.symm.trans hrun
  · rename_i p hp
    cases hp.symm.trans hrun
    rfl

theorem Calling.resumed (h : s.Calling r) {a : Action} (hstep : s.step a = .ok t)
    (hrun : t.running = some r) (hdown : t.shutdownNow = false) (hcpu : t.cpu = .syscall) :
    (t.resumed r).Calling r := by
  have ht : Reachable t := .step h.reachable trivial hstep
  exact ⟨.step ht trivial (step_ret hrun hdown hcpu),hrun,hdown,nofun⟩

theorem Calling.spawn (h : s.Calling r) (hb : s.lacks r .spawn = none) :
    ∃ u : Kernel, u.Calling r ∧ u.pcbAllocator.used.card = s.pcbAllocator.used.card + 1 := by
  have hinv := Reachable.inv h.reachable
  unfold lacks at hb
  simp only [Option.isNone_iff_eq_none] at hb
  obtain ⟨hpcb,hptr⟩ : s.pcbAllocator.getBlock ≠ none ∧ s.pcbPtrAllocator.getBlock ≠ none := by
    split at hb
    · cases hb
    · rename_i hpcb
      split at hb
      · cases hb
      · rename_i hptr
        exact ⟨hpcb,hptr⟩
  obtain ⟨⟨p,pool⟩,hp⟩ := Option.ne_none_iff_exists'.mp hpcb
  obtain ⟨⟨x,entries⟩,hx⟩ := Option.ne_none_iff_exists'.mp hptr
  obtain ⟨v,hok,hrun,hdown,hcpuState,hpool⟩ :=
    exists_internalSpawn (hinv.enterTrap h.running 5 []) h.running hp hx
  have hdown' : v.shutdownNow = false := hdown.trans h.down
  have hstep : s.step (.call 5 []) = .ok { v with cpu := .syscall } :=
    step_resumes (c := .spawn) h.running h.down h.cpu rfl hok hrun hdown' hcpuState
  refine ⟨_,h.resumed hstep hrun hdown' rfl,?_⟩
  change v.pcbAllocator.used.card = _
  rw [hpool,Pool.card_used_getBlock hp]

/-- A process that goes on spawning does not get a block in the end. -/
theorem Calling.exhausts {n : ℕ} (h : s.Calling r)
    (hn : maxNumProcesses ≤ s.pcbAllocator.used.card + n) :
    ∃ u : Kernel, u.Calling r ∧ ∃ b, u.lacks r .spawn = some b := by
  induction n generalizing s with
  | zero =>
    have hle := s.pcbAllocator.card_used_le
    have hnone : s.pcbAllocator.getBlock = none := by
      rw [Pool.getBlock_eq_none_iff]
      omega
    refine ⟨s,h,.pcb,?_⟩
    unfold lacks
    rw [hnone]
    rfl
  | succ n ih =>
    cases hb : s.lacks r .spawn with
    | some b => exact ⟨s,h,b,hb⟩
    | none =>
      obtain ⟨u,hu,hcard⟩ := h.spawn hb
      apply ih hu
      omega

theorem exists_exhausted : ∃ s : Kernel, s.Calling 0 ∧ ∃ b, s.lacks 0 .spawn = some b := by
  obtain ⟨s,hs,hcheck⟩ := exists_run Transitions.unguarded []
    (fun s => s.running = some 0 && s.shutdownNow = false && s.cpu ≠ .syscall) (by decide)
  simp only [Bool.and_eq_true,decide_eq_true_eq] at hcheck
  obtain ⟨⟨hr,hdown⟩,hcpu⟩ := hcheck
  exact Calling.exhausts ⟨hs,hr,hdown,hcpu⟩ (Nat.le_add_left _ _)

end Spawning

end Kernel

/-- A call that does not get a block is refused with a negative code exactly if the first
one it does not get is a descriptor; for want of any other block it faults. -/
theorem exhaustion_refused {s : Kernel} {r : ℕ} {num : ℤ} {args : List ℤ} {c : Syscall}
    (hs : Reachable s) (hr : s.running = some r) (hdown : s.shutdownNow = false)
    (hcpu : s.cpu ≠ .syscall) (hc : syscallVector num.toNat = some c) :
    ((∀ b, (s.enterTrap r num args).lacks r c = some b → s.Refuses r num args) ↔
      ∀ b, (s.enterTrap r num args).lacks r c = some b → b = .descriptor) ∧
    ∀ b, (s.enterTrap r num args).lacks r c = some b → b ≠ .descriptor →
      s.step (.call num args) = .error .nullPointer := by
  refine ⟨⟨?_,?_⟩,?_⟩
  · intro hrefuses b hb
    exact (Kernel.refuses_iff hs.inv hr hdown hcpu hc hb).1.mp (hrefuses b hb)
  · intro hdescriptor b hb
    exact (Kernel.refuses_iff hs.inv hr hdown hcpu hc hb).1.mpr (hdescriptor b hb)
  · intro b hb hne
    exact (Kernel.refuses_iff hs.inv hr hdown hcpu hc hb).2 hne

/-- The first process has spawned until a pool was empty, and spawns again. -/
theorem exhaustion_refused_run : ∃ (s : Kernel) (b : BlockKind),
    (s.enterTrap 0 5 []).lacks 0 .spawn = some b ∧
    ((∀ b, (s.enterTrap 0 5 []).lacks 0 .spawn = some b → s.Refuses 0 5 []) ↔
      ∀ b, (s.enterTrap 0 5 []).lacks 0 .spawn = some b → b = .descriptor) ∧
    ∀ b, (s.enterTrap 0 5 []).lacks 0 .spawn = some b → b ≠ .descriptor →
      s.step (.call 5 []) = .error .nullPointer := by
  obtain ⟨s,h,b,hb⟩ := Kernel.exists_exhausted
  have hlacks : (s.enterTrap 0 5 []).lacks 0 .spawn = some b := hb
  exact ⟨s,b,hlacks,exhaustion_refused h.reachable h.running h.down h.cpu rfl⟩

/-- The spawn that finds a pool empty does not return. -/
theorem spawn_uses_null : ¬ ∀ (s : Kernel) (r : ℕ) (num : ℤ) (args : List ℤ) (c : Syscall)
    (b : BlockKind), Reachable s → s.running = some r → s.shutdownNow = false →
      s.cpu ≠ .syscall → syscallVector num.toNat = some c →
        (s.enterTrap r num args).lacks r c = some b → s.Refuses r num args := by
  intro hclaim
  obtain ⟨s,h,b,hb⟩ := Kernel.exists_exhausted
  have hlacks : (s.enterTrap 0 5 []).lacks 0 .spawn = some b := hb
  have hrefuses := hclaim s 0 5 [] .spawn b h.reachable h.running h.down h.cpu rfl hlacks
  have hiff := Kernel.refuses_iff (Reachable.inv h.reachable) h.running h.down h.cpu rfl hlacks
  exact (Kernel.createChild_lacks hlacks).1 (hiff.1.mp hrefuses)

end DisastrOS
