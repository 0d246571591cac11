import DisastrOS.Linked.KernelRefinement

/-! # The sequences behind the links

The sequences of a kernel on links are what is found by following its links from the heads. With
them in place of the links, what the kernel on links reaches is a reachable state.
-/
namespace DisastrOS
open Lockstep

namespace ListHeap

variable {ι : Type} {n : ℕ} {h : ListHeap ι} {contents : ι → List ℕ} {pool : Pool n} {x y : ℕ}

/-- What is found from the head, in a number of steps. -/
def items (h : ListHeap ι) (n : ℕ) (head : ι) : List ℕ := Links.nodes h.next n (h.first head)

/-- No list is longer than the pool, so that all of it is found. -/
theorem Stored.items_eq (hs : h.Stored contents pool) : h.items n = contents := by
  funext j
  unfold items
  rw [hs.holds.first]
  exact (hs.holds.linked j).forward.nodes_eq (hs.length_le j)

/-- A block with a link is on a list. -/
theorem Settled.exists_mem (hs : h.Settled contents pool)
    (hx : h.prev x ≠ none ∨ h.next x ≠ none) : ∃ j, x ∈ contents j := by
  by_contra hnot
  obtain ⟨hprev,hnext⟩ := hs.unlisted x (not_exists.mp hnot)
  rcases hx with hx | hx
  · exact hx hprev
  · exact hx hnext

/-- Where no block off the lists has links, the two links are inverse to each other. -/
theorem Settled.next_iff (hs : h.Settled contents pool) :
    h.next x = some y ↔ h.prev y = some x := by
  constructor
  · intro hnext
    have hlink : h.next x ≠ none := by simp [hnext]
    obtain ⟨j,hj⟩ := hs.exists_mem (Or.inr hlink)
    have hlinked := hs.holds.linked j
    obtain ⟨l₁,l₂,hl⟩ := List.append_of_mem hj
    rw [hl] at hlinked
    rw [hlinked.next_eq,List.head?_eq_some_iff] at hnext
    obtain ⟨l₃,rfl⟩ := hnext
    have hsplit : l₁ ++ x :: y :: l₃ = (l₁ ++ [x]) ++ y :: l₃ := by simp
    rw [hsplit] at hlinked
    rw [hlinked.prev_eq,List.getLast?_concat]
  · intro hprev
    have hlink : h.prev y ≠ none := by simp [hprev]
    obtain ⟨j,hj⟩ := hs.exists_mem (Or.inl hlink)
    have hlinked := hs.holds.linked j
    obtain ⟨l₁,l₂,hl⟩ := List.append_of_mem hj
    rw [hl] at hlinked
    rw [hlinked.prev_eq,List.getLast?_eq_some_iff] at hprev
    obtain ⟨l₃,rfl⟩ := hprev
    have hsplit : l₃ ++ [x] ++ y :: l₂ = l₃ ++ x :: y :: l₂ := by simp
    rw [hsplit] at hlinked
    rw [hlinked.next_eq,List.head?_cons]

end ListHeap

namespace LinkedLayer

/-- The layer with the sequences that its heads hold. -/
def abstraction (M : LinkedLayer) : DescriptorLayer :=
  { M.fields with
    descriptorsPtrs := M.descriptorsPtrs.items maxNumProcesses
    objectsList := M.objects.items maxNumResources ()
    descriptors := M.descriptors.items maxNumProcesses }

theorem Implements.abstraction_eq {M : LinkedLayer} {L : DescriptorLayer} (h : M.Implements L) :
    M.abstraction = L := by
  unfold abstraction
  rw [h.objects.items_eq,h.descriptors.items_eq,h.descriptorsPtrs.items_eq,h.fields]
  rfl

end LinkedLayer

namespace LinkedKernel

variable {L : LinkedKernel} {s : Kernel} {n : ℕ}

/-- The kernel with the sequences that its heads hold. -/
def abstraction (L : LinkedKernel) : Kernel :=
  { L.fields with
    children := L.children.items maxNumProcesses
    resources := L.resources.abstraction
    messagequeues := L.messagequeues.abstraction
    messages := L.messages.items maxNumMessages
    readyList := L.pcbs.items maxNumProcesses .ready
    waitingList := L.pcbs.items maxNumProcesses .waiting
    zombieList := L.pcbs.items maxNumProcesses .zombie
    timerList := L.timers.items maxNumProcesses () }

theorem Implements.abstraction_eq (h : L.Implements s) : L.abstraction = s := by
  unfold abstraction
  rw [h.pcbs.items_eq,h.children.items_eq,h.timers.items_eq,h.messages.items_eq,
    h.resources.abstraction_eq,h.messagequeues.abstraction_eq,h.fields]
  rfl

end LinkedKernel

/-- The kernel on links, whose loops may take `n` steps each, as a transition system. -/
def linkedSystem (n : ℕ) : Transitions.System LinkedKernel Action where
  Initial L := ∃ function args logFile chars ints,
    LinkedKernel.disastrOSStart function args logFile chars ints = .ok L
  Step L a L' := LinkedKernel.step n L a = .ok L'

/-- The states on links of all runs. -/
def LinkedReachable (n : ℕ) (L : LinkedKernel) : Prop :=
  Transitions.Reach (linkedSystem n) Transitions.unguarded L

/-- What is reached on links implements the state with its sequences, which is reachable. -/
theorem LinkedReachable.implements {L : LinkedKernel} {n : ℕ} (hL : LinkedReachable n L)
    (hn : maxNumProcesses ≤ n) : Reachable L.abstraction ∧ L.Implements L.abstraction := by
  have hsim : ∃ s, Reachable s ∧ L.Implements s := by
    refine Transitions.Reach.simulated (M := linkedSystem n) ?_ ?_ hL
    · rintro M ⟨function,args,logFile,chars,ints,hM⟩
      have hagree := LinkedKernel.disastrOSStart_implements function args logFile chars ints
      rw [hM] at hagree
      obtain ⟨s,hs,h⟩ := hagree.exists_right
      exact ⟨s,⟨function,args,logFile,chars,ints,hs⟩,h⟩
    · intro M s a M' hs h hstep
      have hagree := h.step (Reachable.inv hs) hn a
      rw [hstep] at hagree
      exact hagree.exists_right
  obtain ⟨s,hs,h⟩ := hsim
  rw [h.abstraction_eq]
  exact ⟨hs,h⟩

/-- Every reachable state is implemented by one that is reached on links. -/
theorem Reachable.exists_linked {s : Kernel} {n : ℕ} (hs : Reachable s)
    (hn : maxNumProcesses ≤ n) : ∃ L, LinkedReachable n L ∧ L.abstraction = s := by
  have hsim : ∃ L, LinkedReachable n L ∧ s.Inv ∧ L.Implements s := by
    refine Transitions.Reach.simulated (M := system) (N := linkedSystem n)
      (R := fun s L => s.Inv ∧ L.Implements s) ?_ ?_ hs
    · rintro s ⟨function,args,logFile,chars,ints,hok⟩
      have hagree := LinkedKernel.disastrOSStart_implements function args logFile chars ints
      rw [hok] at hagree
      obtain ⟨L,hL,h⟩ := hagree.exists_left
      exact ⟨L,⟨function,args,logFile,chars,ints,hL⟩,Kernel.disastrOSStart_inv hok,h⟩
    · rintro s L a t _ ⟨hinv,h⟩ hstep
      have hagree := h.step hinv hn a
      have hok : s.step a = .ok t := hstep
      rw [hok] at hagree
      obtain ⟨L',hL',h'⟩ := hagree.exists_left
      exact ⟨L',hL',(Kernel.step_moves hinv hok).inv hinv,h'⟩
  obtain ⟨L,hL,_,h⟩ := hsim
  exact ⟨L,hL,h.abstraction_eq⟩

end DisastrOS
