import DisastrOS.Behaviour.Holdings
import DisastrOS.Behaviour.LayerCalls
import DisastrOS.Properties.Modes

/-! # Opens for exclusive use

Whether an object is in use is looked at by the open that asks for exclusive use, and by no
later one that does not. As long as everybody asks for it, the descriptor of the first one is
the only one.
-/
namespace DisastrOS

namespace DescriptorLayer

/-- The descriptor `d` of `p` is open, and no other one is open for the object `o`. -/
structure OnlyOpen (L : DescriptorLayer) (p d o : ℕ) : Prop where
  isOpen : d ∈ L.descriptors p
  stored : o ∈ L.objectsList
  only : ∀ d', L.descriptorAllocator.Allocated d' → (L.object d' = o ↔ d' = d)

/-- The descriptor `d` of `p` has this number, and the only entry of the object `o`. -/
structure SoleEntry (L : DescriptorLayer) (p d o : ℕ) (fd : ℤ) : Prop where
  isOpen : d ∈ L.descriptors p
  object : L.object d = o
  number : L.fd d = fd
  entries : L.descriptorsPtrs o = [L.ptr d]

variable {L L' : DescriptorLayer} {A : ℕ → Prop} {e : LayerErrors} {p q d d' o o' x n : ℕ}
variable {fd id type openMode : ℤ} {res : OpenResult} {dPool xPool : Pool maxNumProcesses}

theorem SoleEntry.onlyOpen (hs : L.SoleEntry p d o fd) (h : L.Linked A) (hp : A p) :
    L.OnlyOpen p d o := by
  have hd := (h.owned p hp d hs.isOpen).1
  refine ⟨hs.isOpen,hs.object ▸ (h.linked d hd).1,?_⟩
  intro d' hd'
  constructor
  · intro hobj
    have hptr := (h.linked d' hd').2.1
    rw [hobj,hs.entries,List.mem_singleton] at hptr
    exact h.ptr_injective hd' hd hptr
  · rintro rfl
    exact hs.object

theorem SoleEntry.unlinked (hs : L.SoleEntry p d o fd) (h : L.Linked A) (hp : A p) (hq : A q)
    (hd' : d' ∈ L.descriptors q) (hne : d' ≠ d) : (L.unlinked q d').SoleEntry p d o fd := by
  have hobj : o ≠ L.object d' := by
    intro heq
    exact hne (((hs.onlyOpen h hp).only d' (h.owned q hq d' hd').1).mp heq.symm)
  refine ⟨(h.mem_descriptors_unlinked hq hp hd').mpr ⟨hs.isOpen,hne.symm⟩,hs.object,hs.number,?_⟩
  exact (Function.update_of_ne hobj _ _).trans hs.entries

theorem SoleEntry.releaseAll (hs : L.SoleEntry p d o fd) (h : L.Linked A) (hp : A p) (hq : A q)
    (hpq : q ≠ p) (hok : L.releaseAll q n = .ok L') : L'.SoleEntry p d o fd := by
  induction n generalizing L with
  | zero =>
    unfold DescriptorLayer.releaseAll at hok
    split at hok
    · cases hok
      exact hs
    · cases hok
  | succ n ih =>
    unfold DescriptorLayer.releaseAll at hok
    split at hok
    · cases hok
      exact hs
    · rename_i d' ds hds
      have hd' : d' ∈ L.descriptors q := by
        rw [hds]
        exact List.mem_cons_self
      have hne : d' ≠ d := by
        rintro rfl
        exact hpq ((h.owned q hq d' hd').2.symm.trans (h.owned p hp d' hs.isOpen).2)
      simp only [h.unlink_eq hq hd',ok_bind] at hok
      exact ih (hs.unlinked h hp hq hd' hne) (h.unlinked hq hd') hok

theorem SoleEntry.publish (hs : L.SoleEntry p d o fd) (h : L.Linked A) (hp : A p)
    (hd' : L.descriptorAllocator.getBlock = some (d',dPool)) (ho : o' ≠ o) :
    (L.publish q o' d' x dPool xPool).SoleEntry p d o fd := by
  have hne : d ≠ d' := by
    rintro rfl
    exact (Pool.getBlock_eq_some hd').1 (h.owned p hp d hs.isOpen).1
  refine ⟨?_,(Function.update_of_ne hne _ _).trans hs.object,
    (Function.update_of_ne hne _ _).trans hs.number,?_⟩
  · dsimp only [DescriptorLayer.publish]
    by_cases hpq : p = q
    · subst hpq
      rw [Function.update_self]
      exact mem_listAppend.mpr (Or.inl hs.isOpen)
    · rw [Function.update_of_ne hpq]
      exact hs.isOpen
  · have hptr : (L.publish q o' d' x dPool xPool).ptr d = L.ptr d := Function.update_of_ne hne _ _
    rw [hptr]
    exact (Function.update_of_ne (Ne.symm ho) _ _).trans hs.entries

theorem SoleEntry.allocObject (hs : L.SoleEntry p d o fd) (ho : o ∈ L.objectsList)
    (h : L.Linked A) (ha : L.allocObject id type = .ok (o',L')) :
    o' ≠ o ∧ L'.SoleEntry p d o fd := by
  unfold DescriptorLayer.allocObject at ha
  split at ha
  · cases ha
  · rename_i b pool hb
    cases ha
    have hne : o' ≠ o := by
      rintro rfl
      exact (Pool.getBlock_eq_some hb).1 ((h.objects o').mpr ho)
    exact ⟨hne,hs.isOpen,hs.object,hs.number,(Function.update_of_ne hne.symm _ _).trans hs.entries⟩

/-- An open of an object that fails one of the three checks changes nothing. -/
theorem openDescriptor_refused {created : Option ℕ}
    (hfails : L.type o ≠ type ∨ hasFlag openMode dsosExcl ∧ (L.descriptorsPtrs o).length ≠ 0 ∨
      L.descriptorAllocator.getBlock = none)
    (hok : L.openDescriptor e p o type openMode created = .ok res) : res.layer = L := by
  unfold openDescriptor at hok
  by_cases htype : L.type o ≠ type
  · rw [if_pos htype] at hok
    cases hok
    rfl
  rw [if_neg htype] at hok
  by_cases hinUse : hasFlag openMode dsosExcl = true ∧ (L.descriptorsPtrs o).length ≠ 0
  · rw [if_pos hinUse] at hok
    cases hok
    rfl
  rw [if_neg hinUse,(hfails.resolve_left htype).resolve_left hinUse] at hok
  cases hok
  rfl

/-- An open that does not find the object, or is refused for its sake. -/
theorem SoleEntry.openObject (hs : L.SoleEntry p d o fd) (h : L.Linked A) (hp : A p)
    (hok : L.openObject e q id type openMode = .ok res)
    (hnot : L.byId id = some o → hasFlag openMode dsosCreate = true ∨ L.type o ≠ type ∨
      hasFlag openMode dsosExcl = true ∨ L.descriptorAllocator.getBlock = none) :
    res.layer.SoleEntry p d o fd := by
  have ho := (hs.onlyOpen h hp).stored
  by_cases hid : L.byId id = some o
  · cases hflag : hasFlag openMode dsosCreate with
    | true =>
      unfold DescriptorLayer.openObject at hok
      rw [hflag,hid] at hok
      cases hok
      exact hs
    | false =>
      have hinUse : (L.descriptorsPtrs o).length ≠ 0 := by
        rw [hs.entries]
        exact nofun
      have hrefused := (hnot hid).resolve_left (by rw [hflag]; exact Bool.false_ne_true)
      unfold DescriptorLayer.openObject at hok
      rw [hflag,hid] at hok
      rw [openDescriptor_refused (hrefused.imp_right (Or.imp_left fun hexcl => ⟨hexcl,hinUse⟩)) hok]
      exact hs
  · have hopened := h.openObject_opened e q id type openMode
    rw [hok] at hopened
    cases hopened with
    | refused => exact hs
    | late _ ha => exact (hs.allocObject ho h ha).2
    | opened hid' hd' =>
      refine hs.publish h hp hd' ?_
      rintro rfl
      exact hid hid'
    | @created o' d' x dPool xPool L' ha hd' =>
      obtain ⟨hne,hs'⟩ := hs.allocObject ho h ha
      have hpool := (h.openDescriptor_new openMode ha).2.2.1
      exact hs'.publish (h.allocObject ha).1 hp (hpool ▸ hd') hne

/-- An open for exclusive use that gets its descriptor has the only entry of the object. -/
theorem openDescriptor_soleEntry {created : Option ℕ} (hexcl : hasFlag openMode dsosExcl = true)
    (hok : L.openDescriptor e p o type openMode created = .ok res) (hneg : e.Negative)
    (hret : 0 ≤ res.retvalue) :
    (∃ d, res.layer.SoleEntry p d o res.retvalue) ∧ res.layer.id = L.id := by
  unfold openDescriptor at hok
  split at hok
  · cases hok
    exact absurd hret (not_le.mpr hneg.openFailed)
  · split at hok
    · cases hok
      exact absurd hret (not_le.mpr hneg.noExcl)
    · rename_i hunused
      have hnil : L.descriptorsPtrs o = [] := by
        by_contra hne
        exact hunused ⟨hexcl,fun hlen => hne (List.length_eq_zero_iff.mp hlen)⟩
      split at hok
      · cases hok
        exact absurd hret (not_le.mpr hneg.noFd)
      · rename_i d dPool hd
        split at hok
        · cases hok
        · rename_i x xPool hx
          cases hok
          refine ⟨⟨d,?_,Function.update_self _ _ _,Function.update_self _ _ _,?_⟩,rfl⟩
          · dsimp only [DescriptorLayer.publish]
            rw [Function.update_self]
            exact mem_listAppend.mpr (Or.inr rfl)
          · dsimp only [DescriptorLayer.publish]
            rw [Function.update_self,Function.update_self,hnil]
            rfl

theorem openObject_soleEntry (hexcl : hasFlag openMode dsosExcl = true)
    (hok : L.openObject e p id type openMode = .ok res) (hneg : e.Negative)
    (hret : 0 ≤ res.retvalue) :
    ∃ d o, res.layer.SoleEntry p d o res.retvalue ∧ res.layer.id o = id := by
  unfold DescriptorLayer.openObject at hok
  split at hok
  · cases hok
    exact absurd hret (not_le.mpr hneg.create)
  · obtain ⟨⟨o,L'⟩,ha,hok⟩ := exists_of_bind_eq_ok hok
    obtain ⟨⟨d,hs⟩,hids⟩ := openDescriptor_soleEntry hexcl hok hneg hret
    exact ⟨d,o,hs,by rw [hids]; exact id_allocObject ha⟩
  · rename_i o _ hid
    obtain ⟨⟨d,hs⟩,hids⟩ := openDescriptor_soleEntry hexcl hok hneg hret
    exact ⟨d,o,hs,by rw [hids]; exact (byId_eq_some hid).2⟩
  · cases hok
    exact absurd hret (not_le.mpr hneg.openFailed)

end DescriptorLayer

open DescriptorLayer

namespace Kernel

/-- The action is the close of this descriptor by its owner, or the exit of the owner. -/
def EndsOpen (s : Kernel) (k : LayerKind) (r : ℕ) (fd : ℤ) : Action → Prop
  | .call num args => s.running = some r ∧
      (num = k.closeCall.number ∧ args.getD 0 0 = fd ∨ num = dsosCallExit)
  | _ => False

/-- The action is an open of the object that asks neither for a creation nor for exclusive use, and
gets a descriptor: the type is that of the object, and a descriptor is free. -/
def Shares (s : Kernel) (k : LayerKind) (o : ℕ) : Action → Prop
  | .call num args => num = k.openCall.number ∧ (s.layer k).byId (args.getD 0 0) = some o ∧
      (s.layer k).type o = args.getD 1 0 ∧ (s.layer k).descriptorAllocator.getBlock ≠ none ∧
      hasFlag (args.getD k.modeArg 0) dsosCreate = false ∧
      hasFlag (args.getD k.modeArg 0) dsosExcl = false
  | _ => False

/-- The action neither ends the open nor shares its object. -/
def KeepsExclusive (k : LayerKind) (r o : ℕ) (fd : ℤ) (s : Kernel) (a : Action) : Prop :=
  ¬ s.EndsOpen k r fd a ∧ ¬ s.Shares k o a

variable {s t u : Kernel} {k : LayerKind} {a : Action} {r p d o : ℕ} {fd : ℤ} {args : List ℤ}

theorem HoldingMove.alive (h : Inv s) (hm : HoldingMove s a t) (hp : s.holdings.Alive p)
    (hexit : ∀ args, a = .call dsosCallExit args → s.running ≠ some p) : t.holdings.Alive p := by
  cases hm with
  | other _ _ _ hk =>
    rw [hk]
    exact hp
  | create _ hb hk =>
    rw [hk]
    exact ⟨((Pool.getBlock_eq_some hb).2.2 p).mpr (Or.inr hp.1),hp.2⟩
  | reap _ hc hk =>
    rw [hk]
    exact (Holdings.alive_reap h.placement.zombieNodup hc (h.placement.allocated_zombie hc) p).mpr hp
  | @collect args r q L M t hr _ _ _ _ hk =>
    have hpr : p ≠ r := by
      rintro rfl
      exact hexit args rfl hr
    have hr' : s.pcbAllocator.Allocated r := h.running_allocated hr
    have hal := (Holdings.alive_exit (k := s.holdings) p).mpr ⟨hp,hpr⟩
    rw [hk]
    refine ⟨(Pool.allocated_releaseBlock hr' p).mpr ⟨hpr,hp.1⟩,?_⟩
    exact fun hz => hal.2 (List.mem_of_mem_erase hz)
  | @replace args r q t hr _ _ hk =>
    have hpr : p ≠ r := by
      rintro rfl
      exact hexit args rfl hr
    rw [hk]
    exact Holdings.alive_exit p |>.mpr ⟨hp,hpr⟩

theorem step_soleEntry (h : Inv s) (hp : s.holdings.Alive p)
    (hs : (s.layer k).SoleEntry p d o fd) (hguard : KeepsExclusive k p o fd s a)
    (hstep : s.step a = .ok t) : (t.layer k).SoleEntry p d o fd := by
  have hL := h.layer k
  cases step_layerCall h hstep k with
  | same hsame => exact hsame ▸ hs
  | @enters _ _ q pool hb hnew =>
    have hpq : p ≠ q := by
      rintro rfl
      exact (Pool.getBlock_eq_some hb).1 hp.1
    have hlist : (t.layer k).descriptors p = (s.layer k).descriptors p := by
      rw [hnew]
      exact Function.update_of_ne hpq _ _
    exact ⟨hlist ▸ hs.isOpen,hnew ▸ hs.object,hnew ▸ hs.number,hnew ▸ hs.entries⟩
  | @opens args q res _ hr hok hnew =>
    rw [hnew]
    refine hs.openObject hL hp.1 hok ?_
    intro hid
    by_contra hpasses
    simp only [not_or,Bool.not_eq_true,not_not] at hpasses
    obtain ⟨hcreate,htype,hexcl,hfree⟩ := hpasses
    exact hguard.2 ⟨rfl,hid,htype,hfree,hcreate,hexcl⟩
  | @closes args q d' _ hr hd hnew =>
    obtain ⟨hmem,hnum⟩ := byFd_eq_some hd
    rw [hnew]
    refine hs.unlinked hL hp.1 (h.running_allocated hr) hmem ?_
    rintro rfl
    have hqp : q = p :=
      (hL.owned q (h.running_allocated hr) d' hmem).2.symm.trans (hL.owned p hp.1 d' hs.isOpen).2
    exact hguard.1 ⟨hqp ▸ hr,Or.inl ⟨rfl,hnum.symm.trans hs.number⟩⟩
  | destroys _ _ hnew =>
    rw [hnew]
    exact ⟨hs.isOpen,hs.object,hs.number,hs.entries⟩
  | @exits args q n _ hr hrel =>
    refine hs.releaseAll hL hp.1 (h.running_allocated hr) ?_ hrel
    rintro rfl
    exact hguard.1 ⟨hr,Or.inr rfl⟩

theorem Calling.soleEntry (h : s.Calling r)
    (hexcl : hasFlag (args.getD k.modeArg 0) dsosExcl = true)
    (hstep : s.step (.call k.openCall.number args) = .ok t) (hret : 0 ≤ t.syscallRetvalue r) :
    ∃ d o, (t.layer k).SoleEntry r d o (t.syscallRetvalue r) ∧ (t.layer k).id o = args.getD 0 0 := by
  cases hres : s.openWith k r args with
  | error f => cases (step_open_error h.running h.down h.cpu hres).symm.trans hstep
  | ok res =>
    cases (step_open_ok h.running h.down h.cpu hres).symm.trans hstep
    rw [syscallRetvalue_afterOpen] at hret ⊢
    rw [layer_afterOpen]
    exact openObject_soleEntry hexcl hres k.errors_negative hret

theorem Calling.alive_of_open (h : s.Calling r)
    (hstep : s.step (.call k.openCall.number args) = .ok t) : t.holdings.Alive r := by
  have hinv := Reachable.inv h.reachable
  refine ((step_moves hinv hstep).holdings hinv).alive hinv (alive_running hinv h.running) ?_
  intro args' heq
  cases k <;> cases heq

theorem soleEntry_later (hs : (s.layer k).SoleEntry p d o fd) (hp : s.holdings.Alive p)
    (hr : Reachable s) (hst : Transitions.LaterUnder system (KeepsExclusive k p o fd) s t) :
    Reachable t ∧ t.holdings.Alive p ∧ (t.layer k).SoleEntry p d o fd := by
  refine Transitions.LaterUnder.preserves
    (I := fun u => u.holdings.Alive p ∧ (u.layer k).SoleEntry p d o fd) ?_ hst hr ⟨hp,hs⟩
  rintro u a v hu ⟨halive,hsole⟩ hguard hstep
  have hinv := Reachable.inv hu
  refine ⟨((step_moves hinv hstep).holdings hinv).alive hinv halive ?_,
    step_soleEntry hinv halive hsole hguard hstep⟩
  rintro args rfl hrun
  exact hguard.1 ⟨hrun,Or.inr rfl⟩

end Kernel

open Kernel

/-- From the open for exclusive use that has got a descriptor until this is closed or its owner
exits, it is the only one that is open for its object, as long as nobody is given another
descriptor of the object without asking for exclusive use; and whoever asks for it is refused. -/
theorem exclusive_open {s t : Kernel} {k : LayerKind} {r : ℕ} {args : List ℤ} (h : s.Calling r)
    (hexcl : hasFlag (args.getD k.modeArg 0) dsosExcl = true)
    (hstep : s.step (.call k.openCall.number args) = .ok t) (hret : 0 ≤ t.syscallRetvalue r) :
    ∃ d o, (t.layer k).fd d = t.syscallRetvalue r ∧ (t.layer k).id o = args.getD 0 0 ∧
      ∀ u, Transitions.LaterUnder system (KeepsExclusive k r o (t.syscallRetvalue r)) t u →
        (u.layer k).OnlyOpen r d o ∧
        ∀ q args', u.Calling q → (u.layer k).byId (args'.getD 0 0) = some o →
          (u.layer k).type o = args'.getD 1 0 →
          hasFlag (args'.getD k.modeArg 0) dsosCreate = false →
          hasFlag (args'.getD k.modeArg 0) dsosExcl = true →
            u.OpenReturns k q args' k.errors.noExcl := by
  obtain ⟨d,o,hsole,hid⟩ := h.soleEntry hexcl hstep hret
  refine ⟨d,o,hsole.number,hid,?_⟩
  intro u hst
  have ht : Reachable t := .step h.reachable trivial hstep
  obtain ⟨hu,halive,hs⟩ := soleEntry_later hsole (h.alive_of_open hstep) ht hst
  refine ⟨hs.onlyOpen ((Reachable.inv hu).layer k) halive.1,?_⟩
  intro q args' hq hid' htype hcreate hexcl'
  refine (hq.opensOnly hcreate).inUse o hid' htype ⟨hexcl',?_⟩
  rw [hs.entries]
  exact nofun

/-- The first process has created a queue for exclusive use. Its child asks for exclusive use and
is refused, and then asks for a queue of another type and is refused. -/
theorem exclusive_open_run : ∃ s t v x : Kernel,
    s.step (.call 10 [0,0,16,2,orFlags [dsosCreate,dsosExcl]]) = .ok t ∧
    [Action.tick,.call 10 [0,0,16,2,dsosExcl]].foldlM step t = .ok v ∧
    v.syscallRetvalue 1 = dsosEMessagequeueNoExcl ∧
    [Action.ret,.call 10 [0,1,16,2,0]].foldlM step v = .ok x ∧
    x.syscallRetvalue 1 = dsosEMessagequeueOpen ∧
    ∃ d o, (x.layer .messagequeues).OnlyOpen 0 d o := by
  obtain ⟨s,hs,hcheck⟩ := exists_run Transitions.unguarded [.call 5 [0,0],.ret]
    (fun s => s.running = some 0 && s.shutdownNow = false && s.cpu ≠ .syscall &&
      s.after (.call 10 [0,0,16,2,orFlags [dsosCreate,dsosExcl]]) (fun t =>
        0 ≤ t.syscallRetvalue 0 && t.after .tick (fun u => u.running = some 1 &&
          u.after (.call 10 [0,0,16,2,dsosExcl]) (fun v =>
            v.syscallRetvalue 1 = dsosEMessagequeueNoExcl && v.after .ret (fun w =>
              w.running = some 1 && w.messagequeues.byId 0 = some 0 &&
              w.messagequeues.type 0 = 0 && w.after (.call 10 [0,1,16,2,0]) (fun x =>
                x.syscallRetvalue 1 = dsosEMessagequeueOpen)))))) (by decide)
  simp only [Bool.and_eq_true,decide_eq_true_eq] at hcheck
  obtain ⟨⟨⟨hr,hdown⟩,hcpu⟩,hafter⟩ := hcheck
  obtain ⟨t,hopen,hafter⟩ := after_eq_true hafter
  simp only [Bool.and_eq_true,decide_eq_true_eq] at hafter
  obtain ⟨hret,hafter⟩ := hafter
  obtain ⟨u,htick,hafter⟩ := after_eq_true hafter
  simp only [Bool.and_eq_true,decide_eq_true_eq] at hafter
  obtain ⟨hu,hafter⟩ := hafter
  obtain ⟨v,hexcl,hafter⟩ := after_eq_true hafter
  simp only [Bool.and_eq_true,decide_eq_true_eq] at hafter
  obtain ⟨hnoExcl,hafter⟩ := hafter
  obtain ⟨w,hw,hafter⟩ := after_eq_true hafter
  simp only [Bool.and_eq_true,decide_eq_true_eq] at hafter
  obtain ⟨⟨⟨hwr,hid⟩,htype⟩,hafter⟩ := hafter
  obtain ⟨x,hother,hx⟩ := after_eq_true hafter
  have h : s.Calling 0 := ⟨hs,hr,hdown,hcpu⟩
  obtain ⟨d,o,_,_,hall⟩ := exclusive_open (k := .messagequeues) h (by decide) hopen hret
  have hchild : ∀ {s : Kernel}, s.running = some 1 → ∀ args,
      ¬ s.EndsOpen .messagequeues 0 (t.syscallRetvalue 0) (.call 10 args) :=
    fun hrun _ hends => absurd (hrun.symm.trans hends.1) (by decide)
  have hguard : KeepsExclusive .messagequeues 0 o (t.syscallRetvalue 0) u
      (.call 10 [0,0,16,2,dsosExcl]) :=
    ⟨hchild hu _,fun hshares => absurd hshares.2.2.2.2.2 (by decide)⟩
  have hguard' : KeepsExclusive .messagequeues 0 o (t.syscallRetvalue 0) w
      (.call 10 [0,1,16,2,0]) := by
    refine ⟨hchild hwr _,?_⟩
    rintro ⟨_,hid',htype',_⟩
    obtain rfl := Option.some.inj (hid.symm.trans hid')
    exact absurd (htype.symm.trans htype') (by decide)
  refine ⟨s,t,v,x,hopen,?_,hnoExcl,?_,of_decide_eq_true hx,d,o,?_⟩
  · simp only [List.foldlM_cons,List.foldlM_nil,htick,ok_bind,hexcl]
    rfl
  · simp only [List.foldlM_cons,List.foldlM_nil,hw,ok_bind,hother]
    rfl
  · have hpath : Transitions.LaterUnder system
        (KeepsExclusive .messagequeues 0 o (t.syscallRetvalue 0)) t x :=
      (((Relation.ReflTransGen.single ⟨.tick,⟨id,id⟩,htick⟩).tail ⟨_,hguard,hexcl⟩).tail
        ⟨.ret,⟨id,id⟩,hw⟩).tail ⟨_,hguard',hother⟩
    exact (hall x hpath).1

/-- The child opens the queue that the first process has created for exclusive use. -/
theorem exclusive_open_shared : ¬ ∀ (s t u : Kernel) (k : LayerKind) (r : ℕ) (args : List ℤ),
    s.Calling r → hasFlag (args.getD k.modeArg 0) dsosExcl = true →
      s.step (.call k.openCall.number args) = .ok t → 0 ≤ t.syscallRetvalue r →
        Transitions.LaterUnder system (fun v a => ¬ v.EndsOpen k r (t.syscallRetvalue r) a) t u →
          ∃ d o, (t.layer k).fd d = t.syscallRetvalue r ∧ (u.layer k).OnlyOpen r d o := by
  intro hclaim
  obtain ⟨s,hs,hcheck⟩ := exists_run Transitions.unguarded [.call 5 [0,0],.ret]
    (fun s => s.running = some 0 && s.shutdownNow = false && s.cpu ≠ .syscall &&
      s.after (.call 10 [0,0,16,2,orFlags [dsosCreate,dsosExcl]]) (fun t =>
        0 ≤ t.syscallRetvalue 0 && t.after .tick (fun u => u.running = some 1 &&
          u.after (.call 10 [0,0,16,2,0]) (fun v => v.messagequeues.descriptors 0 = [0] &&
            v.messagequeues.descriptorAllocator.Allocated 0 &&
            v.messagequeues.descriptorAllocator.Allocated 1 && v.messagequeues.object 0 = 0 &&
            v.messagequeues.object 1 = 0)))) (by decide)
  simp only [Bool.and_eq_true,decide_eq_true_eq] at hcheck
  obtain ⟨⟨⟨hr,hdown⟩,hcpu⟩,hafter⟩ := hcheck
  obtain ⟨t,hopen,hafter⟩ := after_eq_true hafter
  simp only [Bool.and_eq_true,decide_eq_true_eq] at hafter
  obtain ⟨hret,hafter⟩ := hafter
  obtain ⟨u,htick,hafter⟩ := after_eq_true hafter
  simp only [Bool.and_eq_true,decide_eq_true_eq] at hafter
  obtain ⟨hrun,hafter⟩ := hafter
  obtain ⟨v,hshare,hv⟩ := after_eq_true hafter
  simp only [Bool.and_eq_true,decide_eq_true_eq] at hv
  obtain ⟨⟨⟨⟨hlist,hal0⟩,hal1⟩,h0⟩,h1⟩ := hv
  have hnot : ¬ u.EndsOpen .messagequeues 0 (t.syscallRetvalue 0) (.call 10 [0,0,16,2,0]) := by
    rintro ⟨hrun',_⟩
    cases hrun.symm.trans hrun'
  have hpath : Transitions.LaterUnder system
      (fun v a => ¬ v.EndsOpen .messagequeues 0 (t.syscallRetvalue 0) a) t v :=
    .tail (.single ⟨.tick,id,htick⟩) ⟨_,hnot,hshare⟩
  obtain ⟨d,o,_,honly⟩ := hclaim s t v .messagequeues 0 _ ⟨hs,hr,hdown,hcpu⟩ (by decide) hopen hret
    hpath
  have hd : d = 0 := by
    have hmem := honly.isOpen
    change d ∈ v.messagequeues.descriptors 0 at hmem
    rw [hlist] at hmem
    simpa using hmem
  subst hd
  have hobj : v.messagequeues.object 0 = o := (honly.only 0 hal0).mpr rfl
  have heq := (honly.only 1 hal1).mp (h1.trans (h0.symm.trans hobj))
  cases heq

end DisastrOS
