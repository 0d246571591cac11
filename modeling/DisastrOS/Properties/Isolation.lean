import DisastrOS.Properties.Handles
import DisastrOS.Properties.Results

/-! # What others cannot do to a process

A process that does not run is left as it is: others may send it signals, hand it children and wake
it, and nothing else. When it runs again it goes on where it was stopped.
-/
namespace DisastrOS
open Handles Transitions

namespace Kernel

/-- What belongs to a process and is the same behind the steps of others. -/
structure Intact (s t : Kernel) (p : ℕ) : Prop where
  allocated : t.pcbAllocator.Allocated p
  alive : p ∉ t.zombieList
  pid : t.pid p = s.pid p
  parent : t.parent p = s.parent p
  context : t.cpuState p = s.cpuState p
  syscallNum : t.syscallNum p = s.syscallNum p
  syscallArgs : t.syscallArgs p = s.syscallArgs p
  returnValue : t.returnValue p = s.returnValue p
  mask : t.signalsMask p = s.signalsMask p
  signals : ∃ sig, t.signals p = s.signals p ||| (sig &&& s.signalsMask p)

/-- What is also the same as long as the process does not get the processor; only the end of
its list of children may grow. -/
structure Pending (s t : Kernel) (p : ℕ) : Prop where
  retvalue : t.syscallRetvalue p = s.syscallRetvalue p
  children : s.children p <+: t.children p

variable {s t u v : Kernel} {p r : ℕ} {c : Syscall} {a : Action} {k : LayerKind}

namespace Intact

theorem refl (hp : s.pcbAllocator.Allocated p) (hz : p ∉ s.zombieList) : Intact s s p :=
  ⟨hp,hz,rfl,rfl,rfl,rfl,rfl,rfl,rfl,0#32,by simp⟩

theorem trans (h : Intact s t p) (h' : Intact t u p) : Intact s u p where
  allocated := h'.allocated
  alive := h'.alive
  pid := h'.pid.trans h.pid
  parent := h'.parent.trans h.parent
  context := h'.context.trans h.context
  syscallNum := h'.syscallNum.trans h.syscallNum
  syscallArgs := h'.syscallArgs.trans h.syscallArgs
  returnValue := h'.returnValue.trans h.returnValue
  mask := h'.mask.trans h.mask
  signals := by
    obtain ⟨sig,hsig⟩ := h.signals
    obtain ⟨sig',hsig'⟩ := h'.signals
    refine ⟨sig ||| sig',?_⟩
    rw [hsig',hsig,h.mask,BitVec.and_or_distrib_right,BitVec.or_assoc]

end Intact

theorem Pending.refl (s : Kernel) (p : ℕ) : Pending s s p := ⟨rfl,List.prefix_rfl⟩

theorem Pending.trans (h : Pending s t p) (h' : Pending t u p) : Pending s u p :=
  ⟨h'.retvalue.trans h.retvalue,h.children.trans h'.children⟩

theorem signals_foldl (s : Kernel) (l : List ℕ) (g : ℕ → BitVec 32) (p : ℕ) :
    ∃ sig, l.foldl (fun g x => Function.update g (s.childPcb x)
      (g (s.childPcb x) ||| (dsosSighup &&& s.signalsMask (s.childPcb x)))) g p =
        g p ||| (sig &&& s.signalsMask p) := by
  induction l generalizing g with
  | nil => exact ⟨0#32,by simp⟩
  | cons x l ih =>
    obtain ⟨sig,hsig⟩ := ih (Function.update g (s.childPcb x)
      (g (s.childPcb x) ||| (dsosSighup &&& s.signalsMask (s.childPcb x))))
    rw [List.foldl_cons,hsig]
    by_cases hxp : p = s.childPcb x
    · subst hxp
      refine ⟨dsosSighup ||| sig,?_⟩
      rw [Function.update_self,BitVec.or_assoc,← BitVec.and_or_distrib_right]
    · exact ⟨sig,by rw [Function.update_of_ne hxp]⟩

theorem intact_sendSignal (hp : s.pcbAllocator.Allocated p) (hz : p ∉ s.zombieList) (q : ℕ)
    (sig : BitVec 32) : Intact s (s.sendSignal q sig) p := by
  refine { Intact.refl hp hz with signals := ?_ }
  dsimp only [sendSignal]
  by_cases hqp : p = q
  · subst hqp
    exact ⟨sig,Function.update_self _ _ _⟩
  · exact ⟨0#32,by rw [Function.update_of_ne hqp]; simp⟩

theorem intact_withPcb (hp : s.pcbAllocator.Allocated p) (hz : p ∉ s.zombieList) {q : ℕ}
    {pool : Pool maxNumProcesses} (hb : s.pcbAllocator.getBlock = some (q,pool)) :
    Intact s (s.withPcb q pool) p := by
  have hpq := Pool.ne_of_getBlock hb hp
  refine ⟨?_,hz,?_,?_,rfl,rfl,rfl,?_,?_,0#32,?_⟩
  · exact ((Pool.getBlock_eq_some hb).2.2 p).mpr (Or.inr hp)
  · exact Function.update_of_ne hpq _ _
  · exact Function.update_of_ne hpq _ _
  · exact Function.update_of_ne hpq _ _
  · exact Function.update_of_ne hpq _ _
  · dsimp only [withPcb]
    rw [Function.update_of_ne hpq]
    simp

theorem intact_withChild (hp : s.pcbAllocator.Allocated p) (hz : p ∉ s.zombieList) {q : ℕ}
    {pool : Pool maxNumProcesses} (hb : s.pcbAllocator.getBlock = some (q,pool)) (x : ℕ)
    (entries : Pool maxNumProcesses) :
    Intact s (s.withChild r q pool x entries) p := by
  have hcreated := intact_withPcb hp hz hb
  refine { hcreated with parent := ?_ }
  exact (Function.update_of_ne (Pool.ne_of_getBlock hb hp) _ _).trans hcreated.parent

theorem intact_exiting (hp : s.pcbAllocator.Allocated p) (hz : p ∉ s.zombieList) (hpr : p ≠ r)
    (i q : ℕ) (value : ℤ) : Intact s (s.exiting i r q value) p := by
  have hreparented : Intact s { (s.setReturnValue r value).reparented i r with
      status := Function.update s.status r .zombie
      zombieList := listAppend s.zombieList r } p := by
    refine { Intact.refl hp hz with alive := ?_, returnValue := ?_, signals := ?_ }
    · intro hmem
      exact (mem_listAppend.mp hmem).elim hz hpr
    · exact Function.update_of_ne hpr _ _
    · exact signals_foldl s (s.children r) s.signals p
  have hsent := intact_sendSignal hreparented.allocated hreparented.alive q dsosSigchld
  exact { hreparented.trans hsent with }

/-- A handler leaves every process alone that does not call it. -/
theorem Effect.intact (h : Inv s) (hr : s.running = some r) (he : Effect s r c t)
    (hp : s.pcbAllocator.Allocated p) (hz : p ∉ s.zombieList) (hpr : p ≠ r) :
    Intact s t p := by
  have hrA := h.running_allocated hr
  have hsame := Intact.refl hp hz
  cases he with
  | preempt hs =>
    cases hs with
    | stay hw =>
      obtain ⟨⟩ := hw
      exact { hsame with }
    | rotate hw =>
      obtain ⟨⟩ := hw
      exact { hsame with }
  | @fork q x pool entries hb hx => exact intact_withChild hp hz hb x entries
  | @spawn q x pool entries hb hx c hc =>
    have hpq : p ≠ q := Pool.ne_of_getBlock hb hp
    refine { intact_withChild hp hz hb x entries with context := ?_ }
    exact Function.update_of_ne hpq _ _
  | @reap x hx hstatus =>
    have hx := h.family.childAllocated r hrA x (awaitedEntry_mem hx)
    have hpx : p ≠ s.childPcb x := by
      rintro rfl
      exact hz ((h.placement.mem_zombie_iff hx).mpr hstatus)
    refine { hsame with allocated := ?_, alive := ?_ }
    · exact (Pool.allocated_releaseBlock hx p).mpr ⟨hpx,hp⟩
    · exact fun hmem => hz (List.mem_of_mem_erase hmem)
  | @collect i q x L M =>
    have hexiting := intact_exiting hp hz hpr i q (s.syscallArgs r 0)
    refine { hexiting with allocated := ?_, alive := ?_ }
    · exact (Pool.allocated_releaseBlock hrA p).mpr ⟨hpr,hp⟩
    · exact fun hmem => hexiting.alive (List.mem_of_mem_erase hmem)
  | replace => exact { intact_exiting hp hz hpr _ _ _ with }
  | sleep hslept =>
    obtain ⟨⟩ := hslept
    exact { hsame with }
  | sleepNext hslept =>
    obtain ⟨⟩ := hslept
    exact { hsame with }
  | sendBlocks _ hslept =>
    obtain ⟨⟩ := hslept
    exact { hsame with }
  | receiveBlocks _ _ hslept =>
    obtain ⟨⟩ := hslept
    exact { hsame with }
  | _ => exact { hsame with }

theorem pending_setRetvalue {q : ℕ} (hpq : p ≠ q) (x : ℤ) : Pending s (s.setRetvalue q x) p :=
  ⟨Function.update_of_ne hpq _ _,List.prefix_rfl⟩

theorem pending_withChild (hp : s.pcbAllocator.Allocated p) (hpr : p ≠ r) {q x : ℕ}
    {pool entries : Pool maxNumProcesses} (hb : s.pcbAllocator.getBlock = some (q,pool)) :
    Pending s (s.withChild r q pool x entries) p := by
  refine ⟨Function.update_of_ne hpr _ _,?_⟩
  have hchildren : (s.withChild r q pool x entries).children p = s.children p :=
    (Function.update_of_ne hpr _ _).trans (Function.update_of_ne (Pool.ne_of_getBlock hb hp) _ _)
  rw [hchildren]

theorem prefix_handedOver (hpr : p ≠ r) (children : ℕ → List ℕ) (i : ℕ) :
    children p <+: handedOver children i r p := by
  unfold handedOver
  by_cases hpi : p = i
  · subst hpi
    rw [Function.update_self]
    exact List.prefix_append _ _
  · rw [Function.update_of_ne hpi,Function.update_of_ne hpr]

/-- A handler leaves what a process waits for, unless the process gets the processor. -/
theorem Effect.pending (he : Effect s r c t) (hp : s.pcbAllocator.Allocated p) (hpr : p ≠ r)
    (hrun : t.running ≠ some p) : Pending s t p := by
  have hsame := Pending.refl s p
  have hother : ∀ {q : ℕ}, t.running = some q → p ≠ q := by
    rintro q hq rfl
    exact hrun hq
  cases he with
  | preempt hs =>
    cases hs with
    | stay hw =>
      obtain ⟨⟩ := hw
      exact { hsame with }
    | rotate hw =>
      obtain ⟨⟩ := hw
      exact { hsame with }
  | fork hb => exact pending_withChild hp hpr hb
  | spawn hb => exact { pending_withChild hp hpr hb with }
  | @reap x =>
    have hchildren : (s.reaped r x).children p = s.children p := Function.update_of_ne hpr _ _
    refine ⟨Function.update_of_ne hpr _ _,?_⟩
    rw [hchildren]
  | block => exact { hsame with }
  | @collect i q x L M =>
    have hpq := hother rfl
    refine ⟨Function.update_of_ne hpq _ _,?_⟩
    have hchildren : ((s.exiting i r q (s.syscallArgs r 0)).collected r q x L M).children p =
        handedOver s.children i r p := Function.update_of_ne hpq _ _
    rw [hchildren]
    exact prefix_handedOver hpr _ _
  | replace => exact ⟨rfl,prefix_handedOver hpr _ _⟩
  | sleep hslept =>
    obtain ⟨⟩ := hslept
    exact { hsame with }
  | sleepNext hslept =>
    obtain ⟨⟩ := hslept
    exact { hsame with }
  | sendBlocks _ hslept =>
    obtain ⟨⟩ := hslept
    exact { pending_setRetvalue (hother rfl) _ with }
  | @receiveBlocks u q next rest _ _ hslept =>
    obtain ⟨⟩ := hslept
    have hchecked : (s.sizeChecked r q).syscallRetvalue p = s.syscallRetvalue p := by
      dsimp only [sizeChecked]
      split
      · exact Function.update_of_ne hpr _ _
      · rfl
    exact ⟨(Function.update_of_ne (hother rfl) _ _).trans hchecked,List.prefix_rfl⟩
  | shutdown => exact { hsame with }
  | _ => exact { pending_setRetvalue hpr _ with }

theorem Switched.intact (hsw : Switched v t) (h : Intact s v p) : Intact s t p := by
  cases hsw with
  | resume => exact { h with }
  | stay => exact h

theorem Switched.pending (hsw : Switched v t) (h : Pending s v p) : Pending s t p := by
  cases hsw with
  | resume => exact { h with }
  | stay => exact h

theorem Switched.goesOn (hsw : Switched v t) (hrun : t.running = some p)
    (hdown : v.shutdownNow = true → v.running ≠ some p) :
    ∃ c, v.cpuState p = some c ∧ t.cpu = c.point := by
  have hv : v.running = some p := hsw.running.symm.trans hrun
  cases hsw with
  | @resume q c hq hc =>
    cases hq.symm.trans hv
    exact ⟨c,hc,rfl⟩
  | stay hidle =>
    rcases hidle with hnone | hdown'
    · cases hnone.symm.trans hv
    · exact absurd hv (hdown hdown')

theorem intact_ticked (hp : s.pcbAllocator.Allocated p) (hz : p ∉ s.zombieList) (hpr : p ≠ r) :
    Intact s (s.ticked r) p :=
  { Intact.refl hp hz with context := Function.update_of_ne hpr _ _ }

theorem intact_enterTrap (hp : s.pcbAllocator.Allocated p) (hz : p ∉ s.zombieList)
    (hpr : p ≠ r) (num : ℤ) (args : List ℤ) : Intact s (s.enterTrap r num args) p :=
  { Intact.refl hp hz with
    context := Function.update_of_ne hpr _ _
    syscallNum := Function.update_of_ne hpr _ _
    syscallArgs := Function.update_of_ne hpr _ _ }

/-- What a step leaves of a process that does not run, and where it goes on if it does then. -/
structure Bystands (s t : Kernel) (p : ℕ) : Prop where
  intact : Intact s t p
  pending : t.running ≠ some p → Pending s t p
  goesOn : t.running = some p → ∃ c, s.cpuState p = some c ∧ t.cpu = c.point

theorem Switched.bystands (hsw : Switched v t) (h : Intact s v p)
    (hpending : v.running ≠ some p → Pending s v p)
    (hdown : v.shutdownNow = true → v.running ≠ some p) : Bystands s t p := by
  refine ⟨hsw.intact h,?_,?_⟩
  · intro hrun
    rw [hsw.running] at hrun
    exact hsw.pending (hpending hrun)
  · intro hrun
    rw [← h.context]
    exact hsw.goesOn hrun hdown

theorem Moves.bystands (h : Inv s) (hm : Moves s a t) (hp : s.pcbAllocator.Allocated p)
    (hz : p ∉ s.zombieList) (hrun : s.running ≠ some p) : Bystands s t p := by
  have hsame := Intact.refl hp hz
  have hother : ∀ {q : ℕ}, s.running = some q → p ≠ q := by
    rintro q hq rfl
    exact hrun hq
  have hstays : ∀ {w : Kernel}, w.running = s.running →
      w.running = some p → ∃ c, s.cpuState p = some c ∧ w.cpu = c.point := by
    intro w hw hwp
    exact absurd (hw.symm.trans hwp) hrun
  cases hm with
  | @tick r v t hr hdown hs hsw =>
    have hpr := hother hr
    have htick := intact_ticked hp hz hpr
    have he : Effect (s.ticked r) r .preempt v := .preempt hs
    refine hsw.bystands (htick.trans (he.intact (h.ticked r) hr hp hz hpr)) ?_ ?_
    · intro hv
      exact { he.pending hp hpr hv with }
    · exact he.shutdownNow hr hdown hpr
  | refused => exact ⟨{ hsame with },fun _ => { Pending.refl s p with },hstays rfl⟩
  | @missing r num args t hr hdown hcpu hnum hc hsw =>
    have hpr := hother hr
    have htrap := intact_enterTrap hp hz hpr num args
    refine hsw.bystands { htrap with } (fun _ => { pending_setRetvalue hpr _ with }) ?_
    intro hv
    cases hdown.symm.trans hv
  | @handled r num args c v t hr hdown hcpu hnum hc he hsw =>
    have hpr := hother hr
    have htrap := intact_enterTrap hp hz hpr num args
    have h' := h.enterTrap hr num args
    refine hsw.bystands (htrap.trans (he.intact h' hr htrap.allocated htrap.alive hpr)) ?_ ?_
    · intro hv
      exact { he.pending hp hpr hv with }
    · exact he.shutdownNow hr hdown hpr
  | ret => exact ⟨{ hsame with },fun _ => { Pending.refl s p with },hstays rfl⟩
  | store => exact ⟨{ hsame with },fun _ => { Pending.refl s p with },hstays rfl⟩
  | @resumeMain q pool t hr hdown hb hsw =>
    have hpq := Pool.ne_of_getBlock hb hp
    have hcreated := intact_withPcb hp hz hb
    refine hsw.bystands { hcreated with context := Function.update_of_ne hpq _ _ } ?_ ?_
    · intro _
      have hchildren : (s.withInit q pool).children p = s.children p :=
        Function.update_of_ne hpq _ _
      refine ⟨rfl,?_⟩
      rw [hchildren]
    · intro hv
      cases hdown.symm.trans hv

/-- The events of the registries that are not a process's own do not concern its descriptors. -/
theorem registryEvent_owner {e : LayerEvent} (hp : s.pcbAllocator.Allocated p)
    (hrun : s.running ≠ some p) (he : registryEvent k s a t = some e) : e.owner ≠ some p := by
  have hother : ∀ {q : ℕ}, s.running = some q → some q ≠ some p := by
    rintro q hq heq
    exact hrun (hq.trans heq)
  have hentered : ∀ {e : LayerEvent},
      (s.pcbAllocator.getBlock.map fun b => Handles.Event.entered b.1) = some e →
        e.owner ≠ some p := by
    intro e he
    obtain ⟨⟨q,pool⟩,hb,rfl⟩ := Option.map_eq_some_iff.mp he
    intro heq
    exact Pool.ne_of_getBlock hb hp (Option.some.inj heq).symm
  unfold registryEvent at he
  cases a with
  | call num args =>
    dsimp only at he
    split at he
    · rename_i r c hr hc
      unfold callEvent at he
      split at he
      · cases he
        exact hother hr
      · split at he
        · cases he
          exact hother hr
        · split at he
          · cases he
            exact nofun
          · unfold lifeEvent at he
            split at he
            · exact hentered he
            · exact hentered he
            · split at he
              · cases he
              · cases he
                exact hother hr
            · cases he
    · cases he
  | resumeMain => exact hentered he
  | tick => cases he
  | ret => cases he
  | store => cases he

/-- The descriptors of a process, and the number that its next one gets, are the same. -/
def SameHandles (s t : Kernel) (p : ℕ) : Prop :=
  ∀ k, (t.layer k).registry.table p = (s.layer k).registry.table p ∧
    (t.layer k).registry.counter p = (s.layer k).registry.counter p

theorem step_sameHandles (h : Inv s) (hL : ∀ k, (s.layer k).Sound) (hstep : s.step a = .ok t)
    (hp : s.pcbAllocator.Allocated p) (hrun : s.running ≠ some p) : SameHandles s t p := by
  intro k
  have hfollows := step_follows (k := k) h (hL k) hstep
  cases he : registryEvent k s a t with
  | none =>
    rw [he] at hfollows
    have heq : (t.layer k).registry = (s.layer k).registry := (Option.some.inj hfollows).symm
    rw [heq]
    exact ⟨rfl,rfl⟩
  | some e =>
    rw [he] at hfollows
    unfold Follows Registry.replay at hfollows
    rw [Option.toList_some,List.foldlM_cons] at hfollows
    obtain ⟨R,hR,hrest⟩ := Option.bind_eq_some_iff.mp hfollows
    cases hrest
    exact Registry.apply_frame hR (registryEvent_owner hp hrun he)

end Kernel

open Kernel

/-- Whatever others do: a process that does not run keeps its PCB, except that it may get signals,
and its descriptors in both layers; until it gets the processor, the value that is stored for it
and its children stay, where children may be added. When it gets the processor it goes on where it
was stopped. -/
theorem process_untouched {s t : Kernel} {es : List (Kernel × Action × Kernel)} {p : ℕ}
    (hs : Reachable s) (htr : Trace system s es t) (hp : s.pcbAllocator.Allocated p)
    (hz : p ∉ s.zombieList) (hrun : s.running ≠ some p)
    (hes : ∀ e ∈ es, e.1.running ≠ some p) :
    Intact s t p ∧ SameHandles s t p ∧ (t.running ≠ some p → Pending s t p) ∧
      (t.running = some p → ∃ c, s.cpuState p = some c ∧ t.cpu = c.point) := by
  have hJ := htr.preserves_under (Q := fun u => u.running ≠ some p)
    (J := fun u => Reachable u ∧ Bystands s u p ∧ SameHandles s u p) ?_ ?_ hes
  · exact ⟨hJ.2.1.intact,hJ.2.2,hJ.2.1.pending,hJ.2.1.goesOn⟩
  · rintro u a v ⟨hu,hby,hsame⟩ hru hstep
    have hL := fun k => hu.sound k
    have hnext := (step_moves hu.inv hstep).bystands hu.inv hby.intact.allocated
      hby.intact.alive hru
    have hsame' := step_sameHandles hu.inv hL hstep hby.intact.allocated hru
    refine ⟨.step hu trivial hstep,⟨hby.intact.trans hnext.intact,?_,?_⟩,?_⟩
    · exact fun hv => (hby.pending hru).trans (hnext.pending hv)
    · intro hv
      rw [← hby.intact.context]
      exact hnext.goesOn hv
    · intro k
      exact ⟨(hsame' k).1.trans (hsame k).1,(hsame' k).2.trans (hsame k).2⟩
  · exact ⟨hs,⟨.refl hp hz,fun _ => .refl s p,fun h => absurd h hrun⟩,fun _ => ⟨rfl,rfl⟩⟩

/-- The first process has been preempted by its child, which opens its queue, sends and yields. -/
theorem process_untouched_run : ∃ s t : Kernel, s.running = some 1 ∧ s.messages 0 = [] ∧
    t.running = some 0 ∧ t.messages 0 ≠ [] ∧ Intact s t 0 ∧ SameHandles s t 0 ∧
      ∃ c, s.cpuState 0 = some c ∧ t.cpu = c.point := by
  obtain ⟨s,hs,hcheck⟩ := exists_run Transitions.unguarded
    [.call 10 [7,0,16,2,dsosCreate],.ret,.call 5 [1,0],.ret,.tick]
    (fun s => s.running = some 1 && (s.messages 0 = [] && (s.pcbAllocator.Allocated 0 &&
      (0 ∉ s.zombieList &&
        (recorded step s [.call 10 [7,0,16,2,0],.ret,.call 13 [0,100,5],.ret,.call 1 []]).any
          fun r => r.1.all (fun e => e.1.running ≠ some 0) &&
            (r.2.running = some 0 && r.2.messages 0 ≠ []))))) (by decide)
  simp only [Bool.and_eq_true,decide_eq_true_eq] at hcheck
  obtain ⟨hr,hnone,hp,hz,hrun⟩ := hcheck
  obtain ⟨⟨es,t⟩,hrec,hends⟩ := (Option.any_eq_true _ _).mp hrun
  simp only [Bool.and_eq_true,List.all_eq_true,decide_eq_true_eq] at hends
  obtain ⟨hes,ht,hsome⟩ := hends
  have htr := recorded_trace step (M := system) (fun _ _ _ hst => hst) hrec
  have hrun : s.running ≠ some 0 := by simp [hr]
  obtain ⟨hintact,hsame,_,hgoesOn⟩ := process_untouched hs htr hp hz hrun hes
  exact ⟨s,t,hr,hnone,ht,hsome,hintact,hsame,hgoesOn ht⟩

end DisastrOS
