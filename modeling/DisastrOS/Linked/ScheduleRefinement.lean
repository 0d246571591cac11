import DisastrOS.Behaviour.Scheduling
import DisastrOS.Linked.ProcessRefinement

/-! # The schedule on links does what `internal_schedule` does

The scheduler wakes the processes whose timers have elapsed one by one. In a state that keeps the
invariant they are on the waiting list, and the running process is on no list, so that it can be
put behind the ready ones.
-/
namespace DisastrOS
open Refinement

variable {s : Kernel} {r n : ℕ} {previousPcb : Option ℕ}

namespace Kernel

/-- The running process is on no list. -/
theorem Inv.unlisted (h : Inv s) (hr : s.running = some r) : s.Unlisted r := by
  refine ⟨h.running_allocated hr,?_⟩
  rintro (_ | _ | _)
  · exact h.placement.runningNotReady r hr
  · exact h.not_waiting_running hr
  · exact h.not_zombie_running hr

end Kernel

namespace LinkedKernel

variable {L : LinkedKernel}

theorem wakeElapsed_done (n : ℕ)
    (hcur : L.timerList.timerListCurrent L.fields.disastrOSTime = none) :
    LinkedKernel.wakeElapsed n previousPcb L = .ok L := by
  cases n <;> simp only [LinkedKernel.wakeElapsed,hcur]

namespace Implements

theorem timerListCurrent (h : L.Implements s) :
    L.timerList.timerListCurrent L.fields.disastrOSTime = s.timerListCurrent := by
  rw [h.fields]
  exact h.timerList.timerListCurrent

/-- One pass of the wake-up loop. -/
theorem fired (h : L.Implements s) (hs : Kernel.Inv s) {i : ℕ} {rest : List ℕ}
    (hcur : s.timerListCurrent = some i) (hT : s.timerList = i :: rest)
    (hprev : ∀ q ∈ previousPcb, q ∈ s.readyList) :
    ∃ L', (∀ n, LinkedKernel.wakeElapsed (n + 1) previousPcb L =
        LinkedKernel.wakeElapsed n (some (s.timerPcb i)) L') ∧
      L'.Implements (s.fired previousPcb i rest) := by
  have hi : i ∈ s.timerList := by
    rw [hT]
    exact List.mem_cons_self
  have hw : s.timerPcb i ∈ s.pcbs .waiting := (hs.timers.waits i hi).1
  have hpcb : L.fields.timerPcb i = s.timerPcb i := by
    rw [h.fields]
    rfl
  -- the process is detached from the waiting list and put on the ready list
  obtain ⟨heap,hd⟩ := h.pcbs.holds.detaches .waiting hw
  have hsettled := h.pcbs.detaches hd
  have habsent := hd.unlinked.absent
  unfold Kernel.pcbs at hsettled habsent
  rw [update_pcbLists_waiting] at hsettled habsent
  have hpcbs := hsettled.listInsert (h.pcbs.allocated .waiting _ hw)
    (show ∀ q ∈ previousPcb, q ∈ pcbLists _ _ _ .ready from hprev) habsent
  rw [update_pcbLists_ready] at hpcbs
  let p := s.timerPcb i
  let L₁ : LinkedKernel := { L with
    fields := { L.fields with
      status := Function.update L.fields.status p .ready
      timer := Function.update L.fields.timer p none }
    pcbs := (heap.listInsert .ready previousPcb p).2 }
  let s₁ : Kernel := { s with
    waitingList := s.waitingList.erase p
    status := Function.update s.status p .ready
    timer := Function.update s.timer p none
    readyList := listInsert s.readyList previousPcb p }
  have h₁ : L₁.Implements s₁ := { h with
    fields := by
      unfold L₁
      rw [h.fields]
      rfl
    pcbs := hpcbs }
  -- and its timer is removed
  have hremove : s₁.timerListRemoveCurrent = .ok (s.fired previousPcb i rest) := by
    unfold Kernel.timerListRemoveCurrent
    rw [show s₁.timerList = i :: rest from hT,List.head?_cons,listDetach_cons,ok_bind]
    rfl
  obtain ⟨T,hok,hT⟩ := h₁.timerList.timerListRemoveCurrent hremove
  refine ⟨L₁.setTimerList T,?_,h₁.setTimerList hT rfl⟩
  intro n
  have hdetach : L.detachPcb .waiting (some p) = .ok (p,{ L with pcbs := heap }) := by
    unfold LinkedKernel.detachPcb
    rw [hd.result,ok_bind]
  simp only [LinkedKernel.wakeElapsed,h.timerListCurrent,hcur,hpcb]
  rw [hdetach,ok_bind]
  dsimp only
  rw [hok,ok_bind]

/-- The loop ends when no timer has elapsed. -/
theorem wakeElapsed (h : L.Implements s) (hs : Kernel.Inv s) {m : ℕ}
    (hprev : ∀ q ∈ previousPcb, q ∈ s.readyList) (hm : s.timerList.length ≤ m) (hmn : m ≤ n) :
    ∃ L' u, LinkedKernel.wakeElapsed n previousPcb L = .ok L' ∧
      Kernel.wakeElapsed m previousPcb s = .ok u ∧ L'.Implements u ∧ Kernel.Inv u := by
  induction m generalizing L s n previousPcb with
  | zero =>
    have hnil := List.length_eq_zero_iff.mp (Nat.le_zero.mp hm)
    have hcur : s.timerListCurrent = none := by simp only [Kernel.timerListCurrent,hnil]
    exact ⟨L,s,wakeElapsed_done n (h.timerListCurrent.trans hcur),Kernel.wakeElapsed_done 0 hcur,h,hs⟩
  | succ m ih =>
    cases hcur : s.timerListCurrent with
    | none =>
      exact ⟨L,s,wakeElapsed_done n (h.timerListCurrent.trans hcur),
        Kernel.wakeElapsed_done (m + 1) hcur,h,hs⟩
    | some i =>
      obtain ⟨rest,hT⟩ := Kernel.timerListCurrent_eq_some hcur
      obtain ⟨n,rfl⟩ : ∃ k, n = k + 1 := ⟨n - 1,by omega⟩
      obtain ⟨L',hpass,h'⟩ := h.fired hs hcur hT hprev
      rw [hpass n,Kernel.wakeElapsed_succ hs hcur hT]
      refine ih h' (hs.fired hT hprev) ?_ ?_ (by omega)
      · rintro _ ⟨⟩
        exact (Kernel.mem_ready_fired hprev).mpr (Or.inl rfl)
      · rw [hT] at hm
        exact Nat.le_of_succ_le_succ hm

theorem internalSchedule (h : L.Implements s) (hs : Kernel.Inv s) (hn : maxNumProcesses ≤ n) :
    Refines Fault.Unchecked Implements (L.internalSchedule n) s.internalSchedule := by
  have hnone : ∀ q ∈ (none : Option ℕ), q ∈ s.readyList := nofun
  obtain ⟨L',u,hL',hu,h',hs'⟩ := h.wakeElapsed hs hnone le_rfl ((h.timers.length_le ()).trans hn)
  have hfirst := h'.pcbs.holds.first .ready
  unfold LinkedKernel.internalSchedule Kernel.internalSchedule
  rw [hL',hu,ok_bind,ok_bind]
  cases hl : u.readyList with
  | nil =>
    have hidle : L'.pcbs.first .ready = none := hfirst.trans (congrArg List.head? hl)
    rw [hidle]
    exact .ok h'
  | cons next rest =>
    have hsome : L'.pcbs.first .ready = some next := hfirst.trans (congrArg List.head? hl)
    obtain ⟨L₂,hok,h₂⟩ := h'.takeReady_cons hl
    rw [hsome]
    refine .ok_left hok ?_
    dsimp only
    rw [h₂.fields]
    cases hr : u.running with
    | none =>
      simp only [Kernel.fields]
      exact .error _
    | some r =>
      simp only [Kernel.fields]
      obtain ⟨ha,habsent⟩ := hs'.unlisted hr
      have hunlisted : ({ u with readyList := rest } : Kernel).Unlisted r := by
        refine ⟨ha,?_⟩
        rintro (_ | _ | _) hmem
        · have hready : r ∈ u.readyList := by
            rw [hl]
            exact List.mem_cons_of_mem next hmem
          exact habsent .ready hready
        · exact habsent .waiting hmem
        · exact habsent .zombie hmem
      have hback := (h₂.setStatus r .ready).appendReady ⟨hunlisted.allocated,hunlisted.absent⟩
      exact .ok ((hback.setStatus next .running).setRunning (some next))

end Implements

end LinkedKernel

end DisastrOS
