import DisastrOS.Foundation.Transitions
import DisastrOS.Registry.Runs

/-! # The layers are registries of handles

What processes get to see of resources and of message queues, by opening, closing and destroying
them, is what a registry of numbered handles on named objects answers. Handles stay until they are
given up.
-/
namespace DisastrOS
open Handles Transitions

namespace DescriptorLayer.Sound

variable {L : DescriptorLayer}

theorem consistent (h : L.Sound) : L.registry.Consistent := by
  refine ⟨?_,?_,?_,?_⟩
  · intro p g hg
    obtain ⟨d,hd,rfl⟩ := List.mem_map.mp hg
    obtain ⟨_,hpcb,ho,hptr,hback⟩ := h.entry hd
    have hid : L.byId (L.handle d).2 = some (L.object d) := h.byId_iff.mpr ⟨ho,rfl⟩
    have hholder : L.holder (L.ptr d) = (p,(L.handle d).1) := by
      dsimp only [holder,handle]
      rw [hback,hpcb]
    dsimp only [registry]
    rw [holders_some hid,← hholder]
    exact Multiset.mem_map_of_mem _ hptr
  · intro i hi
    dsimp only [registry] at hi ⊢
    cases hid : L.byId i with
    | none => exact absurd (holders_none hid) hi
    | some o =>
      rw [Option.map_some]
      exact nofun
  · intro p
    dsimp only [registry]
    rw [List.map_map]
    refine (List.nodup_map_iff_inj_on (h.linked.descriptorsNodup p trivial)).mpr ?_
    intro d hd d' hd' heq
    exact h.numbered.distinct p d d' ((h.linked.has_iff trivial).mpr hd)
      ((h.linked.has_iff trivial).mpr hd') heq
  · intro p g hg
    obtain ⟨d,hd,rfl⟩ := List.mem_map.mp hg
    exact (h.numbered.range p d ((h.linked.has_iff trivial).mpr hd)).2

end DescriptorLayer.Sound

theorem Reachable.sound {s : Kernel} (hs : Reachable s) (k : LayerKind) : (s.layer k).Sound :=
  hs.layer_induction .initial (fun _ p h => h.initProcess p) (fun _ _ _ _ h hop => h.op hop) k

namespace Kernel

variable {s t : Kernel} {k : LayerKind} {es : List (Kernel × Action × Kernel)}

/-- What a run is to the registry of a layer. -/
def registryEvents (k : LayerKind) (es : List (Kernel × Action × Kernel)) : List LayerEvent :=
  es.filterMap fun e => registryEvent k e.1 e.2.1 e.2.2

theorem step_sound {a : Action} (h : Inv s) (hL : (s.layer k).Sound) (hstep : s.step a = .ok t) :
    (t.layer k).Sound := by
  cases step_layerMove h hstep with
  | create hb hL' =>
    rw [hL' k]
    exact hL.initProcess _
  | ops hL' => exact (hL' k).induction (h.layer k) hL fun _ _ _ hL hop => hL.op hop

/-- Behind a run the layer is what its registry is behind the events of the run. -/
theorem trace_follows (h : Inv s) (hL : (s.layer k).Sound) (htr : Trace system s es t) :
    (s.layer k).registry.replay layerLimits k.errors.code (registryEvents k es) =
      some (t.layer k).registry := by
  induction htr with
  | nil s => rfl
  | @cons s u t a es hstep _ ih =>
    have hfollows : Follows k s (registryEvent k s a u) u := step_follows h hL hstep
    have hrest := ih ((step_moves h hstep).inv h) (step_sound h hL hstep)
    have hevents : registryEvents k ((s,a,u) :: es) =
        (registryEvent k s a u).toList ++ registryEvents k es := by
      unfold registryEvents
      rw [List.filterMap_cons]
      cases registryEvent k s a u <;> rfl
    unfold Follows Registry.replay at hfollows
    unfold Registry.replay at hrest ⊢
    rw [hevents,List.foldlM_append,hfollows]
    exact hrest

theorem registry_start {function args : ℤ} {logFile : Bool} {chars : ℤ → UInt8} {ints : ℤ → ℤ}
    (hok : disastrOSStart function args logFile chars ints = .ok s) (k : LayerKind) :
    (s.layer k).registry = Registry.empty := by
  obtain ⟨p,pool,_,hsw⟩ := startFirstProcess_ok hok
  have hlayer : s.layer k = DescriptorLayer.initial.initProcess p := by
    rw [hsw.layer]
    cases k <;> rfl
  rw [hlayer,DescriptorLayer.registry_initProcess]
  unfold Registry.enter DescriptorLayer.registry Registry.empty
  refine Registry.ext rfl rfl ?_ ?_ ?_ ?_
  · exact Function.update_eq_self_iff.mpr rfl
  · exact Function.update_eq_self_iff.mpr rfl
  · dsimp only [DescriptorLayer.initial]
    rw [Pool.card_used_full]
  · dsimp only [DescriptorLayer.initial]
    rw [Pool.card_used_full]

theorem Calling.open_answered {r : ℕ} (h : s.Calling r) (k : LayerKind) (args : List ℤ) :
    match (s.layer k).registry.openHandle layerLimits r (args.getD 0 0) (args.getD 1 0)
        (hasFlag (args.getD k.modeArg 0) dsosCreate) (hasFlag (args.getD k.modeArg 0) dsosExcl) with
    | none => s.step (.call k.openCall.number args) = .error .nullPointer
    | some res => ∃ t, s.step (.call k.openCall.number args) = .ok t ∧
        t.syscallRetvalue r = k.errors.code res.1 ∧ (t.layer k).registry = res.2 := by
  have hanswers := (h.reachable.sound k).openObject_answers k.errors r (args.getD 0 0)
    (args.getD 1 0) (args.getD k.modeArg 0)
  generalize (s.layer k).registry.openHandle layerLimits r (args.getD 0 0) (args.getD 1 0)
    (hasFlag (args.getD k.modeArg 0) dsosCreate) (hasFlag (args.getD k.modeArg 0) dsosExcl) =
      answer at hanswers ⊢
  cases hopen : s.openWith k r args with
  | error f =>
    have hstep := step_open_error h.running h.down h.cpu hopen
    unfold openWith at hopen
    rw [hopen] at hanswers
    cases hanswers with
    | none => exact hstep
  | ok res =>
    have hstep := step_open_ok h.running h.down h.cpu hopen
    unfold openWith at hopen
    rw [hopen] at hanswers
    cases hanswers with
    | some hvalue hlayer =>
      refine ⟨_,hstep,syscallRetvalue_afterOpen.trans hvalue,?_⟩
      rw [layer_afterOpen]
      exact hlayer

theorem Calling.close_answered {r : ℕ} (h : s.Calling r) (k : LayerKind) (args : List ℤ) :
    ∃ t, s.step (.call k.closeCall.number args) = .ok t ∧
      t.syscallRetvalue r =
        k.errors.code ((s.layer k).registry.closeHandle r (args.getD 0 0)).1 ∧
      (t.layer k).registry = ((s.layer k).registry.closeHandle r (args.getD 0 0)).2 := by
  obtain ⟨res,hok,hvalue,hlayer⟩ :=
    (h.reachable.sound k).closeDescriptor_answers k.errors r (args.getD 0 0)
  have hret : (s.afterClose k r args res).syscallRetvalue r = res.2 := Function.update_self _ _ _
  refine ⟨_,step_close_ok h.running h.down h.cpu hok,hret.trans hvalue,?_⟩
  rw [layer_afterClose]
  exact hlayer

theorem Calling.destroy_answered {r : ℕ} (h : s.Calling r) (k : LayerKind) (args : List ℤ) :
    ∃ t, s.step (.call k.destroyCall.number args) = .ok t ∧
      t.syscallRetvalue r = k.errors.code ((s.layer k).registry.destroy (args.getD 0 0)).1 ∧
      (t.layer k).registry = ((s.layer k).registry.destroy (args.getD 0 0)).2 := by
  have hc : syscallVector (k.destroyCall.number : ℤ).toNat = some k.destroyCall := by
    cases k <;> rfl
  have harg : (s.enterTrap r k.destroyCall.number args).syscallArgs r 0 = args.getD 0 0 :=
    syscallArgs_enterTrap (by cases k <;> decide)
  obtain ⟨res,v,hres,hok,hdestroyed⟩ := handler_destroyed
    ((Reachable.inv h.reachable).enterTrap h.running k.destroyCall.number args) k r
  rw [harg,layer_enterTrap] at hres
  obtain ⟨res',hres',hvalue,hlayer⟩ :=
    (h.reachable.sound k).destroyObject_answers k.errors (args.getD 0 0)
  cases hres.symm.trans hres'
  refine ⟨_,step_resumes h.running h.down h.cpu hc hok (hdestroyed.running.trans h.running)
    (hdestroyed.down.trans h.down) (congrFun hdestroyed.contexts r),hdestroyed.value.trans hvalue,?_⟩
  have hv : Kernel.layer { v with cpu := .syscall } k = v.layer k := by cases k <;> rfl
  rw [hv,hdestroyed.layer,hlayer]

end Kernel

open Kernel

/-- From the start on, whatever processes do: the values that the calls of a layer return are those
of a registry that was empty at first and went through the calls in their order, together with the
beginnings and ends of processes; and the layer is what the registry is then. -/
theorem layers_are_registries {function args : ℤ} {logFile : Bool} {chars : ℤ → UInt8}
    {ints : ℤ → ℤ} {s t : Kernel} {es : List (Kernel × Action × Kernel)}
    (hok : disastrOSStart function args logFile chars ints = .ok s) (htr : Trace system s es t)
    (k : LayerKind) :
    Registry.empty.replay layerLimits k.errors.code (registryEvents k es) =
      some (t.layer k).registry := by
  have hs : Reachable s := .initial ⟨function,args,logFile,chars,ints,hok⟩
  rw [← registry_start hok k]
  exact trace_follows (Reachable.inv hs) (hs.sound k) htr

/-- A queue is created, a child opens it as well, and it cannot be unlinked. -/
theorem layers_are_registries_run : ∃ (s t : Kernel) (es : List (Kernel × Action × Kernel)),
    Trace system s es t ∧
    registryEvents .messagequeues es = [.opened 0 7 0 true false 0,.entered 1,
      .opened 1 7 0 false false 0,.destroyed 7 messagequeueErrors.inUse] ∧
    Registry.empty.replay layerLimits messagequeueErrors.code (registryEvents .messagequeues es) =
      some (t.layer .messagequeues).registry := by
  obtain ⟨s,t,es,hok,htr,hevents⟩ := exists_recorded
    [.call 10 [7,0,16,2,dsosCreate],.ret,.call 5 [1,0],.ret,.tick,.call 10 [7,0,16,2,0],.ret,
      .call 12 [7]]
    (fun es => registryEvents .messagequeues es = [.opened 0 7 0 true false 0,.entered 1,
      .opened 1 7 0 false false 0,.destroyed 7 messagequeueErrors.inUse]) (by decide)
  exact ⟨s,t,es,htr,of_decide_eq_true hevents,layers_are_registries hok htr .messagequeues⟩

/-- A call of a layer fails exactly if a new object is one too many. Otherwise it returns what the
registry answers, and the layer is what the registry is then. -/
theorem calls_answered {s : Kernel} {r : ℕ} (h : s.Calling r) (k : LayerKind) (args : List ℤ) :
    (match (s.layer k).registry.openHandle layerLimits r (args.getD 0 0) (args.getD 1 0)
        (hasFlag (args.getD k.modeArg 0) dsosCreate) (hasFlag (args.getD k.modeArg 0) dsosExcl) with
      | none => s.step (.call k.openCall.number args) = .error .nullPointer
      | some res => ∃ t, s.step (.call k.openCall.number args) = .ok t ∧
          t.syscallRetvalue r = k.errors.code res.1 ∧ (t.layer k).registry = res.2) ∧
    (∃ t, s.step (.call k.closeCall.number args) = .ok t ∧
      t.syscallRetvalue r =
        k.errors.code ((s.layer k).registry.closeHandle r (args.getD 0 0)).1 ∧
      (t.layer k).registry = ((s.layer k).registry.closeHandle r (args.getD 0 0)).2) ∧
    ∃ t, s.step (.call k.destroyCall.number args) = .ok t ∧
      t.syscallRetvalue r = k.errors.code ((s.layer k).registry.destroy (args.getD 0 0)).1 ∧
      (t.layer k).registry = ((s.layer k).registry.destroy (args.getD 0 0)).2 :=
  ⟨h.open_answered k args,h.close_answered k args,h.destroy_answered k args⟩

/-- A queue is open that its creator asks for alone, closes and unlinks. -/
theorem calls_answered_run : ∃ s t u v : Kernel,
    s.step (.call 10 [7,0,16,2,dsosExcl]) = .ok t ∧
      t.syscallRetvalue 0 = messagequeueErrors.noExcl ∧
    s.step (.call 11 [0]) = .ok u ∧ u.syscallRetvalue 0 = 0 ∧
    s.step (.call 12 [7]) = .ok v ∧ v.syscallRetvalue 0 = messagequeueErrors.inUse ∧
      (v.layer .messagequeues).registry = ((s.layer .messagequeues).registry.destroy 7).2 := by
  obtain ⟨s,hs,hcheck⟩ := exists_run Transitions.unguarded [.call 10 [7,0,16,2,dsosCreate],.ret]
    (fun s => s.running = some 0 && (s.shutdownNow = false && (s.cpu ≠ .syscall &&
      (((s.layer .messagequeues).registry.openHandle layerLimits 0 7 0
          (hasFlag dsosExcl dsosCreate) (hasFlag dsosExcl dsosExcl)).map
            (fun res => messagequeueErrors.code res.1) = some messagequeueErrors.noExcl &&
        (messagequeueErrors.code ((s.layer .messagequeues).registry.closeHandle 0 0).1 = 0 &&
          messagequeueErrors.code ((s.layer .messagequeues).registry.destroy 7).1 =
            messagequeueErrors.inUse))))) (by decide)
  simp only [Bool.and_eq_true,decide_eq_true_eq] at hcheck
  obtain ⟨hr,hdown,hcpu,hopen,hclose,hdestroy⟩ := hcheck
  have h : s.Calling 0 := ⟨hs,hr,hdown,hcpu⟩
  obtain ⟨res,hres,hcode⟩ := Option.map_eq_some_iff.mp hopen
  have hopened := (calls_answered h .messagequeues [7,0,16,2,dsosExcl]).1
  change match (s.layer .messagequeues).registry.openHandle layerLimits 0 7 0
    (hasFlag dsosExcl dsosCreate) (hasFlag dsosExcl dsosExcl) with | none => _ | some res => _
    at hopened
  rw [hres] at hopened
  obtain ⟨t,ht,hvalue,_⟩ := hopened
  obtain ⟨u,hu,hvalue',_⟩ := (calls_answered h .messagequeues [0]).2.1
  obtain ⟨v,hv,hvalue'',hlayer⟩ := (calls_answered h .messagequeues [7]).2.2
  exact ⟨s,t,u,v,ht,hvalue.trans hcode,hu,hvalue'.trans hclose,hv,hvalue''.trans hdestroy,hlayer⟩

/-- An open handle names the same object, of the same type, as long as its process does not close
it, whatever all other processes do. -/
theorem handles_stay {s t : Kernel} {es : List (Kernel × Action × Kernel)} {p : ℕ} {fd id : ℤ}
    (hs : Reachable s) (htr : Trace system s es t) (k : LayerKind)
    (hfd : (fd,id) ∈ (s.layer k).registry.table p)
    (hes : ∀ e ∈ registryEvents k es, e.ends p fd = false) :
    (fd,id) ∈ (t.layer k).registry.table p ∧
      (t.layer k).registry.type id = (s.layer k).registry.type id := by
  have hL := hs.sound k
  exact hL.consistent.replay_keeps (trace_follows (Reachable.inv hs) hL htr) hfd hes

/-- The first process keeps its queue while a child opens it, closes it and exits. -/
theorem handles_stay_run : ∃ (s t : Kernel) (es : List (Kernel × Action × Kernel)),
    registryEvents .messagequeues es = [.opened 1 7 0 false false 0,.closed 1 0 0,.left 1] ∧
    (0,7) ∈ (t.layer .messagequeues).registry.table 0 ∧
      (t.layer .messagequeues).registry.type 7 = (s.layer .messagequeues).registry.type 7 := by
  obtain ⟨s,hs,hcheck⟩ := exists_run Transitions.unguarded
    [.call 10 [7,0,16,2,dsosCreate],.ret,.call 5 [1,0],.ret,.call 3 [0,0]]
    (fun s => (0,7) ∈ (s.layer .messagequeues).registry.table 0 &&
      (recorded step s [.call 10 [7,0,16,2,0],.ret,.call 11 [0],.ret,.call 4 [3]]).any fun r =>
        registryEvents .messagequeues r.1 =
          [.opened 1 7 0 false false 0,.closed 1 0 0,.left 1]) (by decide)
  obtain ⟨hfd,hrun⟩ := Bool.and_eq_true_iff.mp hcheck
  obtain ⟨⟨es,t⟩,hrun,hevents⟩ := (Option.any_eq_true _ _).mp hrun
  have htr := recorded_trace step (M := system) (fun _ _ _ hst => hst) hrun
  have hes : registryEvents .messagequeues es =
      [.opened 1 7 0 false false 0,.closed 1 0 0,.left 1] := of_decide_eq_true hevents
  refine ⟨s,t,es,hes,handles_stay hs htr .messagequeues (of_decide_eq_true hfd) ?_⟩
  rw [hes]
  decide

/-- A number that a process has closed is not given to it again: no later open returns it, and every
later close of it is refused, whatever the process and all others do. -/
theorem closed_fds_stay_closed {s u t : Kernel} {a : Action}
    {es : List (Kernel × Action × Kernel)} {p : ℕ} {fd : ℤ} (hs : Reachable s) (k : LayerKind)
    (hstep : s.step a = .ok u) (hclosed : registryEvent k s a u = some (.closed p fd 0))
    (htr : Trace system u es t) (hlife : .entered p ∉ registryEvents k es) :
    (∀ id, (fd,id) ∉ (t.layer k).registry.table p) ∧
    (∀ id ty create exclusive v,
      .opened p id ty create exclusive v ∈ registryEvents k es → v ≠ fd) ∧
    ∀ v, .closed p fd v ∈ registryEvents k es → v = k.errors.close := by
  have hL := hs.sound k
  have hfollows := step_follows hs.inv hL hstep
  rw [hclosed] at hfollows
  unfold Follows Registry.replay at hfollows
  rw [Option.toList_some,List.foldlM_cons] at hfollows
  obtain ⟨R,hR,hrest⟩ := Option.bind_eq_some_iff.mp hfollows
  cases hrest
  have hne : (0 : ℤ) ≠ k.errors.code (.error .unopened) := by cases k <;> decide
  have hfd : 0 ≤ fd := by
    obtain ⟨id,hmem,_⟩ := Registry.exists_dropped hR hne
    obtain ⟨d,hd,heq⟩ := List.mem_map.mp hmem
    have hrange := hL.numbered.range p d ((hL.linked.has_iff trivial).mpr hd)
    cases heq
    exact hrange.1
  have hcode : ∀ res, k.errors.code res = k.errors.code (.ok fd) → res = .ok fd := by
    rintro (e | v) hres
    · have hneg : k.errors.code (.error e) < 0 := by cases k <;> cases e <;> decide
      exact absurd (hres.symm.trans_lt hneg) (not_lt.mpr hfd)
    · exact congrArg Except.ok hres
  have hu : Reachable u := .step hs trivial hstep
  have hstale := hL.consistent.stale_closed hR hne
  obtain ⟨hlast,hopened,hrefused⟩ :=
    hstale.replay (trace_follows hu.inv (hu.sound k) htr) hlife hcode
  exact ⟨hlast.2,hopened,hrefused⟩

/-- A process opens its queue again and closes the old number once more. -/
theorem closed_fds_stay_closed_run : ∃ (s u t : Kernel) (a : Action)
    (es : List (Kernel × Action × Kernel)), registryEvent .messagequeues s a u = some (.closed 0 0 0) ∧
    registryEvents .messagequeues es =
      [.opened 0 7 0 false false 1,.closed 0 0 messagequeueErrors.close] ∧
    (∀ id, (0,id) ∉ (t.layer .messagequeues).registry.table 0) ∧
    (∀ v, .closed 0 0 v ∈ registryEvents .messagequeues es → v = messagequeueErrors.close) := by
  obtain ⟨s,hs,hcheck⟩ := exists_run Transitions.unguarded [.call 10 [7,0,16,2,dsosCreate],.ret]
    (fun s => s.after (.call 11 [0]) fun u =>
      registryEvent .messagequeues s (.call 11 [0]) u = some (.closed 0 0 0) &&
        (recorded step u [.ret,.call 10 [7,0,16,2,0],.ret,.call 11 [0]]).any fun r =>
          registryEvents .messagequeues r.1 =
            [.opened 0 7 0 false false 1,.closed 0 0 messagequeueErrors.close]) (by decide)
  obtain ⟨u,hu,hcheck⟩ := after_eq_true hcheck
  obtain ⟨hclosed,hrun⟩ := Bool.and_eq_true_iff.mp hcheck
  obtain ⟨⟨es,t⟩,hrun,hevents⟩ := (Option.any_eq_true _ _).mp hrun
  have htr := recorded_trace step (M := system) (fun _ _ _ hst => hst) hrun
  have hclosed := of_decide_eq_true hclosed
  have hes : registryEvents .messagequeues es =
      [.opened 0 7 0 false false 1,.closed 0 0 messagequeueErrors.close] := of_decide_eq_true hevents
  have hlife : .entered 0 ∉ registryEvents .messagequeues es := by
    rw [hes]
    decide
  obtain ⟨hnone,_,hrefused⟩ := closed_fds_stay_closed hs .messagequeues hu hclosed htr hlife
  exact ⟨s,u,t,_,es,hclosed,hes,hnone,hrefused⟩

end DisastrOS
