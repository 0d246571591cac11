import DisastrOS.Behaviour.Scheduling
import DisastrOS.Linked.LayerRefinement
import DisastrOS.Linked.Processes
import DisastrOS.Properties.TimerQueue

/-! # The lists of processes and timers on links

What it is to implement a state on links, and the operations that the handlers have in common: a
process that is on no list is put on one, and one that is taken off a list is on none.
-/
namespace DisastrOS
open Refinement

/-- The three lists of PCBs. -/
def pcbLists (ready waiting zombie : List ℕ) : PcbList → List ℕ
  | .ready => ready
  | .waiting => waiting
  | .zombie => zombie

section Lists
variable (ready waiting zombie l : List ℕ)

theorem update_pcbLists_ready : Function.update (pcbLists ready waiting zombie) .ready l =
    pcbLists l waiting zombie := by
  funext j
  cases j <;> rfl

theorem update_pcbLists_waiting : Function.update (pcbLists ready waiting zombie) .waiting l =
    pcbLists ready l zombie := by
  funext j
  cases j <;> rfl

theorem update_pcbLists_zombie : Function.update (pcbLists ready waiting zombie) .zombie l =
    pcbLists ready waiting l := by
  funext j
  cases j <;> rfl

end Lists

namespace Kernel

def pcbs (s : Kernel) : PcbList → List ℕ := pcbLists s.readyList s.waitingList s.zombieList

/-- The process has a block that is on no list. -/
structure Unlisted (s : Kernel) (p : ℕ) : Prop where
  allocated : s.pcbAllocator.Allocated p
  absent : ∀ list, p ∉ s.pcbs list

/-- The two branches of the guarded hand-over. -/
theorem pickReady_cases (s : Kernel) :
    (s.readyList = [] ∧ s.pickReady = { s with running := none }) ∨
    ∃ p rest, s.readyList = p :: rest ∧
      s.pickReady = { s with running := some p, readyList := rest } := by
  unfold pickReady
  split
  · exact Or.inl ⟨by assumption,rfl⟩
  · exact Or.inr ⟨_,_,by assumption,rfl⟩

end Kernel

namespace LinkedKernel

/-- The kernel on links has the fields of the state, and its heads hold the sequences. -/
structure Implements (L : LinkedKernel) (s : Kernel) : Prop where
  fields : L.fields = s.fields
  pcbs : L.pcbs.Settled s.pcbs s.pcbAllocator
  children : L.children.Stored s.children s.pcbPtrAllocator
  timers : L.timers.Stored (fun _ => s.timerList) s.timerItemAllocator
  resources : L.resources.Implements s.resources
  messagequeues : L.messagequeues.Implements s.messagequeues
  messages : L.messages.Stored s.messages s.messageAllocator

/-- The same process, and states of which the first one implements the second one. -/
inductive ImplementsWith : ℕ × LinkedKernel → ℕ × Kernel → Prop
  | intro {p : ℕ} {L : LinkedKernel} {s : Kernel} (h : L.Implements s) :
      ImplementsWith (p,L) (p,s)

/-- Besides, the process is on no list. -/
inductive Taken : ℕ × LinkedKernel → ℕ × Kernel → Prop
  | intro {p : ℕ} {L : LinkedKernel} {s : Kernel} (h : L.Implements s) (hp : s.Unlisted p) :
      Taken (p,L) (p,s)

/-- A process has left a list. -/
inductive DetachedPcb (L : LinkedKernel) (s : Kernel) (list : PcbList) :
    ℕ × LinkedKernel → ℕ × List ℕ → Prop
  | intro {p : ℕ} {h : ListHeap PcbList} (ha : s.pcbAllocator.Allocated p)
      (hmem : p ∈ s.pcbs list)
      (hs : h.Settled (Function.update s.pcbs list ((s.pcbs list).erase p)) s.pcbAllocator)
      (hp : ∀ j, p ∉ Function.update s.pcbs list ((s.pcbs list).erase p) j) :
      DetachedPcb L s list (p,{ L with pcbs := h }) (p,(s.pcbs list).erase p)

variable {L : LinkedKernel} {s : Kernel} {p n : ℕ}

namespace Implements

theorem setRetvalue (h : L.Implements s) (p : ℕ) (v : ℤ) :
    (L.setRetvalue p v).Implements (s.setRetvalue p v) :=
  { h with
    fields := by
      unfold LinkedKernel.setRetvalue
      rw [h.fields]
      rfl }

theorem detachPcb (h : L.Implements s) (list : PcbList) (p : Option ℕ) :
    Refines Fault.Unchecked (DetachedPcb L s list) (L.detachPcb list p)
      (listDetach (s.pcbs list) p) := by
  apply (h.pcbs.listDetach list p).bind_left
  rintro _ _ ⟨ha,hmem,hd⟩
  exact .ok (.intro ha hmem (h.pcbs.detaches hd) hd.unlinked.absent)

theorem setStatus (h : L.Implements s) (p : ℕ) (v : ProcessStatus) :
    (L.setStatus p v).Implements { s with status := Function.update s.status p v } :=
  { h with
    fields := by
      unfold LinkedKernel.setStatus
      rw [h.fields]
      rfl }

theorem setRunning (h : L.Implements s) (p : Option ℕ) :
    (L.setRunning p).Implements { s with running := p } :=
  { h with
    fields := by
      unfold LinkedKernel.setRunning
      rw [h.fields]
      rfl }

theorem appendReady (h : L.Implements s) (hp : s.Unlisted p) :
    (L.appendPcb .ready p).Implements { s with readyList := listAppend s.readyList p } := by
  have hpcbs := h.pcbs.append hp.allocated hp.absent .ready
  unfold Kernel.pcbs at hpcbs
  rw [update_pcbLists_ready] at hpcbs
  exact { h with pcbs := hpcbs }

theorem appendWaiting (h : L.Implements s) (hp : s.Unlisted p) :
    (L.appendPcb .waiting p).Implements { s with waitingList := listAppend s.waitingList p } := by
  have hpcbs := h.pcbs.append hp.allocated hp.absent .waiting
  unfold Kernel.pcbs at hpcbs
  rw [update_pcbLists_waiting] at hpcbs
  exact { h with pcbs := hpcbs }

theorem appendZombie (h : L.Implements s) (hp : s.Unlisted p) :
    (L.appendPcb .zombie p).Implements { s with zombieList := listAppend s.zombieList p } := by
  have hpcbs := h.pcbs.append hp.allocated hp.absent .zombie
  unfold Kernel.pcbs at hpcbs
  rw [update_pcbLists_zombie] at hpcbs
  exact { h with pcbs := hpcbs }

theorem moveToWaiting (h : L.Implements s) (hp : s.Unlisted p) :
    (L.moveToWaiting p).Implements (s.moveToWaiting p) :=
  (h.setStatus p .waiting).appendWaiting ⟨hp.allocated,hp.absent⟩

theorem takeReady (h : L.Implements s) :
    Refines Fault.Unchecked Taken L.takeReady s.takeReady := by
  unfold LinkedKernel.takeReady Kernel.takeReady
  rw [h.pcbs.holds.first]
  apply (h.detachPcb .ready s.readyList.head?).bind_right
  rintro _ _ ⟨ha,_,hpcbs,hp⟩
  unfold Kernel.pcbs at hpcbs hp
  rw [update_pcbLists_ready] at hpcbs hp
  exact .ok ⟨{ h with pcbs := hpcbs },ha,hp⟩

/-- The first ready process is taken off its list. -/
theorem takeReady_cons (h : L.Implements s) {rest : List ℕ} (hl : s.readyList = p :: rest) :
    ∃ L', L.takeReady = .ok (p,L') ∧ L'.Implements { s with readyList := rest } := by
  have htake : s.takeReady = .ok (p,{ s with readyList := rest }) := by
    unfold Kernel.takeReady
    rw [hl,List.head?_cons,listDetach_cons,ok_bind]
  have hrefines := h.takeReady
  rw [htake] at hrefines
  obtain ⟨_,hok,⟨h',_⟩⟩ := hrefines.exists_ok
  exact ⟨_,hok,h'⟩

/-- The guarded hand-over cannot fail. -/
theorem pickReady (h : L.Implements s) : ∃ L', L.pickReady = .ok L' ∧ L'.Implements s.pickReady := by
  have hfirst := h.pcbs.holds.first .ready
  unfold LinkedKernel.pickReady
  rcases s.pickReady_cases with ⟨hl,hpick⟩ | ⟨p,rest,hl,hpick⟩
  · have hnone : L.pcbs.first .ready = none := hfirst.trans (congrArg List.head? hl)
    rw [hnone,hpick]
    exact ⟨_,rfl,h.setRunning none⟩
  · have hsome : L.pcbs.first .ready = some p := hfirst.trans (congrArg List.head? hl)
    obtain ⟨L',hok,h'⟩ := h.takeReady_cons hl
    rw [hsome,hpick]
    simp only [hok,ok_bind]
    exact ⟨_,rfl,h'.setRunning (some p)⟩

/-- The timer list on links with all that belongs to it. -/
theorem timerList (h : L.Implements s) : L.timerList.Implements s := by
  unfold LinkedKernel.timerList
  rw [h.fields]
  exact ⟨⟨h.timers.holds,fun i hi => h.timers.allocated () i hi⟩,rfl,rfl,rfl⟩

/-- What implements the timers of a state is put in place. -/
theorem setTimerList {t : Kernel} {T : Timers} (h : L.Implements s) (hT : T.Implements t)
    (ht : t = { s with
      awakeningTime := t.awakeningTime
      timerPcb := t.timerPcb
      timerItemAllocator := t.timerItemAllocator
      timerList := t.timerList }) : (L.setTimerList T).Implements t := by
  rw [ht]
  refine { h with fields := ?_, timers := ⟨hT.holds.list,?_⟩ }
  · unfold LinkedKernel.setTimerList
    rw [h.fields,hT.awakeningTime,hT.pcb,hT.allocator]
    rfl
  · intro _ x hx
    exact hT.allocator ▸ hT.holds.allocated x hx

/-- A process goes to sleep, or there is no block for its timer. -/
theorem goToSleep (h : L.Implements s) (hn : maxNumProcesses ≤ n) (hp : s.Unlisted p) (cycles : ℤ) :
    ∃ o, L.goToSleep p cycles n = .ok o ∧
      Option.Rel LinkedKernel.Implements o (s.goToSleep p cycles) := by
  have htime : L.fields.disastrOSTime = s.disastrOSTime := by
    rw [h.fields]
    rfl
  have hadd := @Timers.Implements.timerListAdd _ (wrapInt (s.disastrOSTime + cycles)) p n s
    h.timerList ((h.timers.length_le ()).trans hn)
  unfold LinkedKernel.goToSleep Kernel.goToSleep
  rw [htime]
  cases hk : s.timerListAdd (wrapInt (s.disastrOSTime + cycles)) p with
  | none =>
    simp only [hk] at hadd
    simp only [hadd,finished,ok_bind]
    exact ⟨none,rfl,.none⟩
  | some t =>
    simp only [hk] at hadd
    obtain ⟨i,T,hok,hT⟩ := hadd
    have hframe : t = { s with
        awakeningTime := t.awakeningTime
        timerPcb := t.timerPcb
        timerItemAllocator := t.timerItemAllocator
        timerList := t.timerList } := by
      obtain ⟨x,pool,T,_,_,rfl⟩ := Kernel.timerListAdd_eq_some hk
      rfl
    have ht := h.setTimerList hT hframe
    have hpt : t.Unlisted p := by
      rw [hframe]
      exact ⟨hp.allocated,hp.absent⟩
    obtain ⟨L',hpick,h'⟩ := (ht.moveToWaiting hpt).pickReady
    simp only [hok,finished,ok_bind,hpick]
    exact ⟨some L',rfl,.some h'⟩

end Implements

end LinkedKernel

end DisastrOS
