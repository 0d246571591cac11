import DisastrOS.Linked.Abstraction

/-! # The kernel runs on links

The lists of the kernel are links in the blocks. Nothing is lost by speaking of sequences: from the
start on the kernel on links goes through the states of the kernel on sequences, its links stay
those of doubly linked lists, and its loops end, with one exception.
-/
namespace DisastrOS
open Lockstep

namespace Kernel

/-- Init calls the exit while it has a child. -/
def InitExits (s : Kernel) : Action → Prop
  | .call num _ => s.shutdownNow = false ∧ s.cpu ≠ .syscall ∧ num = dsosCallExit ∧
      ∃ p, s.running = some p ∧ s.initPcb = some p ∧ s.children p ≠ []
  | _ => False

/-- Only the loop of this call never ends. -/
theorem step_diverges_iff {s : Kernel} {a : Action} (h : Inv s) :
    s.step a = .error .diverges ↔ s.InitExits a := by
  constructor
  · intro hstep
    obtain ⟨num,args,r,c,rfl,hr,hc,herr⟩ := step_error_handler h hstep rfl
    have henabled : s.step (.call num args) ≠ .error .disabled := by
      rw [hstep]
      exact nofun
    obtain ⟨hdown,hcpu⟩ := enabled_of_step henabled
    have hfails :=
      handler_fails (h.enterTrap hr num args) hr (syscallVector_enterTrap s args hc) herr
    cases hfails with
    | exitSelf hi hne => exact ⟨hdown,hcpu,syscallVector_eq_some hc,r,hr,hi,hne⟩
    | sendText _ hf => rcases hf with hf | hf <;> cases hf
  · intro hexits
    cases a with
    | call num args =>
      obtain ⟨hdown,hcpu,rfl,p,hr,hi,hne⟩ := hexits
      have hdiverges : (s.enterTrap p dsosCallExit args).internalExit p = .error .diverges :=
        internalExit_diverges hi hne
      rw [step_call (c := .exit) hr hdown hcpu rfl,handler,hdiverges,error_bind]
    | _ => exact hexits.elim

end Kernel

namespace LinkedKernel

/-- The heads hold doubly linked lists of blocks that have been handed out: no block is on two
lists of a kind, the heads count their items, and a PCB that is on no list has no links. -/
structure WellFormed (L : LinkedKernel) : Prop where
  pcbs : L.pcbs.Settled (L.pcbs.items maxNumProcesses) L.fields.pcbAllocator
  children : L.children.Stored (L.children.items maxNumProcesses) L.fields.pcbPtrAllocator
  timers : L.timers.Stored (L.timers.items maxNumProcesses) L.fields.timerItemAllocator
  messages : L.messages.Stored (L.messages.items maxNumMessages) L.fields.messageAllocator
  layers : ∀ M : LinkedLayer, M = L.resources ∨ M = L.messagequeues →
    M.objects.Stored (M.objects.items maxNumResources) M.fields.objectAllocator ∧
    M.descriptors.Stored (M.descriptors.items maxNumProcesses) M.fields.descriptorAllocator ∧
    M.descriptorsPtrs.Stored (M.descriptorsPtrs.items maxNumProcesses)
      M.fields.descriptorPtrAllocator

/-- Init calls the exit while a child is on its list. -/
def InitExits (L : LinkedKernel) : Action → Prop
  | .call num _ => L.fields.shutdownNow = false ∧ L.fields.cpu ≠ .syscall ∧ num = dsosCallExit ∧
      ∃ p, L.fields.running = some p ∧ L.fields.initPcb = some p ∧ L.children.first p ≠ none
  | _ => False

variable {L : LinkedKernel} {s : Kernel} {a : Action} {n m : ℕ}

theorem Implements.initExits_iff (h : L.Implements s) : L.InitExits a ↔ s.InitExits a := by
  have hfirst : ∀ p, L.children.first p ≠ none ↔ s.children p ≠ [] := by
    intro p
    rw [h.children.holds.first,ne_eq,List.head?_eq_none_iff]
  cases a with
  | call num args =>
    unfold InitExits Kernel.InitExits
    simp only [h.fields,hfirst]
    rfl
  | _ => exact Iff.rfl

theorem Implements.wellFormed (h : L.Implements s) : L.WellFormed := by
  have hlayer : ∀ {M : LinkedLayer} {D : DescriptorLayer}, M.Implements D →
      M.objects.Stored (M.objects.items maxNumResources) M.fields.objectAllocator ∧
      M.descriptors.Stored (M.descriptors.items maxNumProcesses) M.fields.descriptorAllocator ∧
      M.descriptorsPtrs.Stored (M.descriptorsPtrs.items maxNumProcesses)
        M.fields.descriptorPtrAllocator := by
    intro M D hM
    rw [hM.objects.items_eq,hM.descriptors.items_eq,hM.descriptorsPtrs.items_eq,hM.fields]
    exact ⟨hM.objects,hM.descriptors,hM.descriptorsPtrs⟩
  constructor
  · rw [h.pcbs.items_eq,h.fields]
    exact h.pcbs
  · rw [h.children.items_eq,h.fields]
    exact h.children
  · rw [h.timers.items_eq,h.fields]
    exact h.timers
  · rw [h.messages.items_eq,h.fields]
    exact h.messages
  · rintro M (rfl | rfl)
    · exact hlayer h.resources
    · exact hlayer h.messagequeues

/-- From the same start the same actions have outcomes of which the first one implements the
second one. -/
theorem run_agree (hn : maxNumProcesses ≤ n) (function args : ℤ) (logFile : Bool)
    (chars : ℤ → UInt8) (ints : ℤ → ℤ) (actions : List Action) : Agree Implements
      (disastrOSStart function args logFile chars ints >>= fun L =>
        actions.foldlM (LinkedKernel.step n) L)
      (Kernel.disastrOSStart function args logFile chars ints >>= fun s =>
        actions.foldlM Kernel.step s) := by
  have hstart : Agree (fun L s => s.Inv ∧ Implements L s)
      (disastrOSStart function args logFile chars ints)
      (Kernel.disastrOSStart function args logFile chars ints) := by
    apply (disastrOSStart_implements function args logFile chars ints).mono_of_eq
    intro L s _ hs h
    exact ⟨Kernel.disastrOSStart_inv hs,h⟩
  apply hstart.bind
  intro L s h
  have hstep : ∀ (L : LinkedKernel) (s : Kernel) (a : Action), s.Inv ∧ L.Implements s →
      Agree (fun L s => s.Inv ∧ Implements L s) (LinkedKernel.step n L (id a))
        (s.step (id a)) := by
    intro L s a h
    apply (h.2.step h.1 hn a).mono_of_eq
    intro L' t _ ht h'
    exact ⟨(Kernel.step_moves h.1 ht).inv h.1,h'⟩
  have hrun := agree_foldlM hstep actions h
  rw [List.map_id] at hrun
  apply hrun.mono
  intro L' t h'
  exact h'.2

end LinkedKernel

/-- Whatever number of steps above the size of the pools the loops may take: from every start
every list of actions ends in the same fault on links as on sequences, or in a state whose links
hold the sequences. -/
theorem links_refine_sequences {n : ℕ} (hn : maxNumProcesses ≤ n) (function args : ℤ)
    (logFile : Bool) (chars : ℤ → UInt8) (ints : ℤ → ℤ) (actions : List Action) :
    (LinkedKernel.disastrOSStart function args logFile chars ints >>= fun L =>
      actions.foldlM (LinkedKernel.step n) L).map LinkedKernel.abstraction =
    (Kernel.disastrOSStart function args logFile chars ints >>= fun s =>
      actions.foldlM Kernel.step s) :=
  (LinkedKernel.run_agree hn function args logFile chars ints actions).map_eq
    fun _ _ h => h.abstraction_eq

/-- Two children wait for the processor, and one of them is preempted. -/
theorem links_refine_sequences_run : ∃ L : LinkedKernel,
    (LinkedKernel.disastrOSStart 0 0 false (fun _ => 0) (fun _ => 0) >>= fun L =>
      [Action.call 5 [1,0],.ret,.call 5 [2,0],.ret,.tick,.tick].foldlM (LinkedKernel.step 1024) L) =
      .ok L ∧ L.pcbs.items maxNumProcesses .ready = [0,1] := by
  have hrefines := links_refine_sequences (n := 1024) le_rfl 0 0 false (fun _ => 0) (fun _ => 0)
    [.call 5 [1,0],.ret,.call 5 [2,0],.ret,.tick,.tick]
  have hready : ((Kernel.disastrOSStart 0 0 false (fun _ => 0) (fun _ => 0) >>= fun s =>
      [Action.call 5 [1,0],.ret,.call 5 [2,0],.ret,.tick,.tick].foldlM Kernel.step s).map
        Kernel.readyList).toOption = some [0,1] := by
    decide +kernel
  rw [← hrefines] at hready
  generalize (LinkedKernel.disastrOSStart 0 0 false (fun _ => 0) (fun _ => 0) >>= fun L =>
    [Action.call 5 [1,0],.ret,.call 5 [2,0],.ret,.tick,.tick].foldlM (LinkedKernel.step 1024) L) =
      outcome at hready ⊢
  cases outcome with
  | error f => cases hready
  | ok L => exact ⟨L,rfl,Option.some.inj hready⟩

/-- In every state on links the heads hold doubly linked lists of allocated blocks, and the links
of the PCBs are inverse to each other, over all PCBs there are. -/
theorem links_well_formed {L : LinkedKernel} {n : ℕ} (hL : LinkedReachable n L)
    (hn : maxNumProcesses ≤ n) :
    L.WellFormed ∧ ∀ x y, L.pcbs.next x = some y ↔ L.pcbs.prev y = some x := by
  obtain ⟨_,h⟩ := hL.implements hn
  exact ⟨h.wellFormed,fun x y => h.pcbs.next_iff⟩

/-- A process sleeps, another one runs and a third one is ready. -/
theorem links_well_formed_run : ∃ L : LinkedKernel,
    ((L.abstraction.readyList = [2] ∧ L.abstraction.waitingList = [0]) ∧
      L.abstraction.timerList = [0]) ∧
    L.WellFormed ∧ ∀ x y, L.pcbs.next x = some y ↔ L.pcbs.prev y = some x := by
  obtain ⟨s,hs,hcheck⟩ := exists_run Transitions.unguarded
    [.call 5 [1,0],.ret,.call 5 [2,0],.ret,.call 6 [9]]
    (fun s => s.readyList = [2] && s.waitingList = [0] && s.timerList = [0]) (by decide +kernel)
  simp only [Bool.and_eq_true,decide_eq_true_eq] at hcheck
  obtain ⟨L,hL,rfl⟩ := Reachable.exists_linked (n := 1024) hs le_rfl
  exact ⟨L,hcheck,links_well_formed hL le_rfl⟩

/-- With any number of steps above the size of the pools the loops of a step end, except for one:
the exit of init never ends while it has a child. -/
theorem loops_end {L : LinkedKernel} {m n : ℕ} (hL : LinkedReachable m L)
    (hm : maxNumProcesses ≤ m) (hn : maxNumProcesses ≤ n) (a : Action) :
    LinkedKernel.step n L a = .error .diverges ↔ L.InitExits a := by
  obtain ⟨hs,h⟩ := hL.implements hm
  have hinv := Reachable.inv hs
  rw [(h.step hinv hn a).error_iff,Kernel.step_diverges_iff hinv,h.initExits_iff]

/-- Init has a child and calls the exit, and its loop does not end in a million steps. -/
theorem loops_end_run : ∃ L : LinkedKernel, L.InitExits (.call dsosCallExit [0]) ∧
    LinkedKernel.step 1000000 L (.call dsosCallExit [0]) = .error .diverges := by
  obtain ⟨s,hs,hcheck⟩ := exists_run Transitions.unguarded [.call 5 [1,0],.ret]
    (fun s => (!s.shutdownNow && s.cpu ≠ .syscall) &&
      (s.running = some 0 && s.initPcb = some 0 && s.children 0 ≠ [])) (by decide +kernel)
  simp only [Bool.and_eq_true,decide_eq_true_eq,Bool.not_eq_true'] at hcheck
  obtain ⟨L,hL,rfl⟩ := Reachable.exists_linked (n := 1024) hs le_rfl
  have hexits : L.InitExits (.call dsosCallExit [0]) := by
    have himplements := (hL.implements le_rfl).2
    exact himplements.initExits_iff.mpr
      ⟨hcheck.1.1,hcheck.1.2,rfl,0,hcheck.2.1.1,hcheck.2.1.2,hcheck.2.2⟩
  exact ⟨L,hexits,(loops_end hL le_rfl (by decide) _).mpr hexits⟩

end DisastrOS
