import DisastrOS.Properties.Fifo
import DisastrOS.Registry.Boxes

/-! # Runs as dealings of a post office

Each step is a dealing of the office, or none. A dealing is read off the call, its arguments, the
memory of the process that makes it, and the value it returns, if it returns one.
-/
namespace DisastrOS
open Handles Postal

abbrev MailDealing := Dealing ℕ ℤ ℤ (List UInt8) ℤ

namespace Kernel

/-- The value that the call of `r` returns, if it goes back to `r`. -/
def returned (t : Kernel) (r : ℕ) : Option ℤ :=
  if t.running = some r then some (t.syscallRetvalue r) else none

/-- What a step is to the office. -/
def mailDealing (s : Kernel) (a : Action) (t : Kernel) : Option MailDealing :=
  match a with
  | .call num args =>
    match s.running, syscallVector num.toNat with
    | some r, some .mqSend => some (.posted r (args.getD 0 0) (args.getD 2 0)
        (s.copyIn (args.getD 1 0)).toOption (t.returned r))
    | some r, some .mqReceive => some (.collected r (args.getD 0 0)
        (readString t.chars (args.getD 1 0) maxMessageLenght) (t.returned r))
    | some r, some c => (callEvent .messagequeues s t r c args).map fun e =>
        .request e (args.getD 2 0) (args.getD 3 0)
    | _, _ => none
  | _ => (registryEvent .messagequeues s a t).map fun e => .request e 0 0

/-- The office does this dealing, if there is one, and it ends as it should. -/
def Deals (s : Kernel) (d : Option MailDealing) (t : Kernel) : Prop :=
  s.office.replay mailBounds mailCodes d.toList = some t.office

/-- All messages on the queues are strings that fit in their blocks. -/
def Legible (s : Kernel) : Prop := s.mail.Each fun _ _ l => ∀ text ∈ l, Fits text

variable {s t u v : Kernel} {r p q : ℕ} {c : Syscall} {num : ℤ} {args : List ℤ} {a : Action}

theorem deals_none (hO : t.office = s.office) : Deals s none t := congrArg some hO.symm

theorem deals_some {d : MailDealing} (hd : s.office.apply mailBounds mailCodes d = some t.office) :
    Deals s (some d) t := by
  unfold Deals Office.replay
  rw [Option.toList_some,List.foldlM_cons,hd]
  rfl

theorem Follows.apply {k : LayerKind} {e : LayerEvent} (hf : Follows k s (some e) t) :
    (s.layer k).registry.apply layerLimits k.errors.code e = some (t.layer k).registry := by
  unfold Follows Registry.replay at hf
  rw [Option.toList_some,List.foldlM_cons] at hf
  obtain ⟨R,hR,hrest⟩ := Option.bind_eq_some_iff.mp hf
  cases hrest
  exact hR

/-- A request to the registry is one to the office. -/
theorem deals_request {e : LayerEvent} {size capacity : ℤ}
    (hf : Follows .messagequeues s (some e) t)
    (hO : s.office.changed t.messagequeues.registry size capacity e = t.office) :
    Deals s (some (.request e size capacity)) t := by
  apply deals_some
  have hR : s.office.registry.apply layerLimits mailCodes.answer e = some t.messagequeues.registry :=
    hf.apply
  dsimp only [Office.apply]
  change Option.map _ (s.office.registry.apply layerLimits mailCodes.answer e) = _
  rw [hR,Option.map_some,hO]

/-- A step that leaves objects and messages alone is a request about handles, or none. -/
theorem deals_handles {e : Option LayerEvent} {size capacity : ℤ}
    (hf : Follows .messagequeues s e t) (he : ∀ e' ∈ e, Office.aboutObjects e' = false)
    (hid : t.messagequeues.byId = s.messagequeues.byId) (hm : t.mail = s.mail)
    (hb : t.messageAllocator = s.messageAllocator) :
    Deals s (e.map fun e => .request e size capacity) t := by
  have hboxes : t.messagequeues.boxes t.mail = s.messagequeues.boxes s.mail := by
    unfold DescriptorLayer.boxes
    rw [hid,hm]
  have hO : t.office = { s.office with registry := t.messagequeues.registry } := by
    unfold office
    rw [hboxes,hb]
  cases e with
  | none =>
    have hR : some s.messagequeues.registry = some t.messagequeues.registry := hf
    refine deals_none (hO.trans ?_)
    rw [← Option.some.inj hR]
    dsimp only [office]
  | some e =>
    refine deals_request hf ?_
    rw [Office.changed_of_not (he e rfl),hO]

theorem aboutObjects_callEvent {k : LayerKind} {e : LayerEvent} (hopen : c ≠ k.openCall)
    (hdestroy : c ≠ k.destroyCall) (he : e ∈ callEvent k s t r c args) :
    Office.aboutObjects e = false := by
  unfold callEvent at he
  rw [if_neg hopen] at he
  split at he
  · cases he
    rfl
  · unfold lifeEvent at he
    split at he
    · obtain ⟨b,_,rfl⟩ := Option.map_eq_some_iff.mp he
      rfl
    · obtain ⟨b,_,rfl⟩ := Option.map_eq_some_iff.mp he
      rfl
    · split at he <;> cases he
      rfl
    · cases he

/-- The calls that are not about queues leave all queues and their messages alone. -/
theorem Effect.queues (he : Effect s r c v) (hopen : c ≠ .mqOpen) (hclose : c ≠ .mqClose)
    (hunlink : c ≠ .mqUnlink) (hsend : c ≠ .mqSend) (hreceive : c ≠ .mqReceive) :
    v.messagequeues.byId = s.messagequeues.byId ∧ v.mail = s.mail ∧
      v.messageAllocator = s.messageAllocator := by
  refine ⟨?_,(he.mail hopen hunlink hsend hreceive).1,?_⟩
  · cases he with
    | preempt hs => rw [show v.messagequeues = s.messagequeues from congrFun hs.layer .messagequeues]
    | collect hi hir hp hwakes hx hxr hL hLr hM hMr =>
      exact DescriptorLayer.byId_congr hMr.objectsList hMr.id
    | sleep hslept =>
      obtain ⟨⟩ := hslept
      rfl
    | sleepNext hslept =>
      obtain ⟨⟩ := hslept
      rfl
    | queue hc => rcases hc with rfl | rfl <;> contradiction
    | createQueue => contradiction
    | unlinkRefused => contradiction
    | unlink => contradiction
    | sendRefused => contradiction
    | sendBlocks => contradiction
    | send => contradiction
    | receiveRefused => contradiction
    | receiveBlocks => contradiction
    | receive => contradiction
    | _ => rfl
  · cases he with
    | preempt hs =>
      cases hs with
      | stay hw =>
        obtain ⟨⟩ := hw
        rfl
      | rotate hw =>
        obtain ⟨⟩ := hw
        rfl
    | sleep hslept =>
      obtain ⟨⟩ := hslept
      rfl
    | sleepNext hslept =>
      obtain ⟨⟩ := hslept
      rfl
    | unlink => contradiction
    | sendBlocks => contradiction
    | send => contradiction
    | receiveBlocks => contradiction
    | receive => contradiction
    | _ => rfl

theorem close_queues (h : Inv s) (hr : s.running = some r) (hok : handler .mqClose s r = .ok v) :
    v.messagequeues.byId = s.messagequeues.byId ∧ v.mail = s.mail ∧
      v.messageAllocator = s.messageAllocator := by
  change handler LayerKind.messagequeues.closeCall s r = .ok v at hok
  rw [handler_close_eq,(h.layer .messagequeues).closeDescriptor_eq _ (h.running_allocated hr)] at hok
  cases hfd : (s.layer .messagequeues).byFd r (s.syscallArgs r 0) with
  | none =>
    simp only [hfd,ok_bind] at hok
    cases hok
    exact ⟨rfl,rfl,rfl⟩
  | some d =>
    simp only [hfd,ok_bind] at hok
    cases hok
    exact ⟨rfl,rfl,rfl⟩

end Kernel

namespace DescriptorLayer

variable {L : DescriptorLayer} {e : LayerErrors} {p o : ℕ} {id type openMode : ℤ} {res : OpenResult}

/-- Only an id that is not taken is created. -/
theorem byId_of_created (hok : L.openObject e p id type openMode = .ok res)
    (hcreated : res.created = some o) : L.byId id = none := by
  unfold openObject at hok
  split at hok
  · cases hok
    cases hcreated
  · assumption
  · unfold openDescriptor at hok
    split at hok
    · cases hok
      cases hcreated
    · split at hok
      · cases hok
        cases hcreated
      · split at hok
        · cases hok
          cases hcreated
        · split at hok <;> cases hok
          cases hcreated
  · assumption

/-- What an open does to the ids. -/
theorem Sound.openObject_byId (h : L.Sound) (hok : L.openObject e p id type openMode = .ok res) :
    res.created = none ∧ res.layer.byId = L.byId ∨
      ∃ o, res.created = some o ∧ o ∉ L.objectsList ∧ L.byId id = none ∧
        res.layer.byId = Function.update L.byId id (some o) := by
  have hopened := h.linked.openObject_opened e p id type openMode
  rw [hok] at hopened
  cases hopened with
  | refused => exact Or.inl ⟨rfl,rfl⟩
  | opened => exact Or.inl ⟨rfl,rfl⟩
  | late _ ha =>
    have hid := byId_of_created hok rfl
    exact Or.inr ⟨_,rfl,(h.linked.allocObject ha).2.1,hid,h.byId_created hid ha⟩
  | created ha =>
    have hid := byId_of_created hok rfl
    have hbyId := h.byId_created hid ha
    exact Or.inr ⟨_,rfl,(h.linked.allocObject ha).2.1,hid,hbyId⟩

end DescriptorLayer

namespace Kernel

variable {s t u v : Kernel} {r p q : ℕ} {c : Syscall} {num : ℤ} {args : List ℤ} {a : Action}

/-- A queue that an open creates is an empty box. -/
theorem opened_changed (hL : s.messagequeues.Sound) {res : DescriptorLayer.OpenResult}
    (hres : s.openTrapped .messagequeues r = .ok res) (ty x : ℤ) (create exclusive : Bool) :
    s.office.changed res.layer.registry (s.syscallArgs r 2) (s.syscallArgs r 3)
      (.opened r (s.syscallArgs r 0) ty create exclusive x : LayerEvent) =
        (s.opened .messagequeues r res).office := by
  have hlayer : (s.opened .messagequeues r res).messagequeues = res.layer :=
    layer_opened (k := .messagequeues)
  have hstored : (s.opened .messagequeues r res).messageAllocator = s.messageAllocator :=
    (unmoved_opened s .messagequeues r res).messageBlocks
  unfold Office.changed office
  rw [hlayer,hstored]
  refine Office.ext rfl ?_ (by dsimp only)
  dsimp only
  rcases hL.openObject_byId hres with ⟨hcreated,hid⟩ | ⟨o,hcreated,ho,hnone,hid⟩
  · have hmail : (s.opened .messagequeues r res).mail.box = s.mail.box := by
      unfold opened
      rw [hcreated]
      rfl
    have hsame : ¬ ((s.messagequeues.registry.type (s.syscallArgs r 0)).isNone = true ∧
        (res.layer.registry.type (s.syscallArgs r 0)).isSome = true) := by
      dsimp only [DescriptorLayer.registry]
      rw [hid]
      simp
    rw [if_neg hsame]
    unfold DescriptorLayer.boxes
    rw [hid,hmail]
  · have hmail : (s.opened .messagequeues r res).mail.box =
        (s.mail.create o (s.syscallArgs r 2) (s.syscallArgs r 3)).box := by
      unfold opened
      rw [hcreated]
      rfl
    have hnew : (s.opened .messagequeues r res).mail.box o =
        ⟨s.syscallArgs r 2,s.syscallArgs r 3,[]⟩ := by
      rw [hmail]
      dsimp only [Mail.box,Mail.create]
      rw [Function.update_self,Function.update_self,Function.update_self,List.map_nil]
    have hold : ∀ q, q ≠ o → (s.opened .messagequeues r res).mail.box q = s.mail.box q := by
      intro q hq
      rw [hmail]
      dsimp only [Mail.box,Mail.create]
      rw [Function.update_of_ne hq,Function.update_of_ne hq,Function.update_of_ne hq]
    have hcreates : (s.messagequeues.registry.type (s.syscallArgs r 0)).isNone = true ∧
        (res.layer.registry.type (s.syscallArgs r 0)).isSome = true := by
      dsimp only [DescriptorLayer.registry]
      rw [hnone,hid,Function.update_self]
      exact ⟨rfl,rfl⟩
    rw [if_pos hcreates,DescriptorLayer.boxes_update (x := some o) hid,Option.map_some,hnew]
    intro j _ q hq
    refine hold q ?_
    rintro rfl
    exact ho (DescriptorLayer.byId_eq_some hq).1

/-- A queue that is unlinked takes its letters along. -/
theorem unlinked_changed (h : Inv s) (hL : s.messagequeues.Sound)
    (hok : s.internalMqUnlink r = .ok v) (size capacity x : ℤ) :
    s.office.changed v.messagequeues.registry size capacity
      (.destroyed (s.syscallArgs r 0) x : LayerEvent) = v.office := by
  rcases DescriptorLayer.destroyObject_cases messagequeueErrors s.messagequeues
      (s.syscallArgs r 0) with ⟨y,hres⟩ | ⟨q,hid,hnil,hres⟩
  · have heq : s.internalMqUnlink r = .ok (s.setRetvalue r y) := by
      simp only [internalMqUnlink_layer,hres,ok_bind]
    cases heq.symm.trans hok
    change s.office.changed s.messagequeues.registry _ _ _ = s.office
    unfold Office.changed
    dsimp only
    split
    · rename_i hnone
      have hbox : s.office.box (s.syscallArgs r 0) = none := by
        dsimp only [DescriptorLayer.registry] at hnone
        rw [Option.isNone_map,Option.isNone_iff_eq_none] at hnone
        dsimp only [office,DescriptorLayer.boxes]
        rw [hnone,Option.map_none]
      refine Office.ext rfl ?_ ?_
      · exact Function.update_eq_self_iff.mpr hbox.symm
      · rw [hbox]
        exact Nat.sub_zero _
    · dsimp only [office]
  · obtain ⟨hq,hidq⟩ := DescriptorLayer.byId_eq_some hid
    obtain ⟨pool,hpool,heq⟩ := internalMqUnlink_eq h hid hnil
    cases heq.symm.trans hok
    have hbyId := hL.byId_destroyed hq hnil
    rw [hidq] at hbyId
    have hgone : ((s.messagequeues.destroyed q).registry.type (s.syscallArgs r 0)).isNone = true := by
      dsimp only [DescriptorLayer.registry]
      rw [hbyId,Function.update_self]
      rfl
    have hbox : s.office.box (s.syscallArgs r 0) = some (s.mail.box q) := by
      dsimp only [office,DescriptorLayer.boxes]
      rw [hid,Option.map_some]
    unfold Office.changed
    refine (if_pos hgone).trans (Office.ext rfl ?_ ?_)
    · dsimp only [office]
      refine (DescriptorLayer.boxes_update (x := none) hbyId ?_).symm
      intro j hj q' hq'
      have hqq : q' ≠ q := by
        rintro rfl
        exact hj ((DescriptorLayer.byId_eq_some hq').2.symm.trans hidq)
      have hold : (s.mail.unlink q).box q' = s.mail.box q' := by
        dsimp only [Mail.box,Mail.unlink]
        rw [Function.update_of_ne hqq]
      exact hold
    · rw [hbox,Option.map_some,Option.getD_some]
      dsimp only [office,Mail.box]
      rw [List.length_map]
      exact (Nat.eq_sub_of_add_eq (card_used_drained h hq hpool)).symm

theorem returned_of_running (hrun : t.running = some r) :
    t.returned r = some (t.syscallRetvalue r) := if_pos hrun

theorem returned_switched (hsw : Switched v t) (hr : v.running = some r) {x : ℤ}
    (hx : v.syscallRetvalue r = x) : t.returned r = some x := by
  rw [returned_of_running (hsw.running.trans hr),hsw.syscallRetvalue,hx]

/-- Who goes to sleep in a message call gets no value, and the queues stay as they are. -/
theorem blockOnQueue_deals (h : Inv s) (hr : s.running = some r)
    (hnum : SleepsOnTimer (s.syscallNum r)) {code : ℤ} (hok : s.blockOnQueue r code = .ok v)
    (hsw : Switched v t) : t.returned r = none ∧ t.office = s.office := by
  obtain ⟨u,hslept,_,⟨_,hbl⟩ | ⟨next,rest,hready,hbl⟩⟩ := blockOnQueue_spec h hr hnum code
  · cases hbl.symm.trans hok
  · cases hbl.symm.trans hok
    have hne : next ≠ r := by
      rintro rfl
      refine h.placement.runningNotReady next hr ?_
      rw [hready]
      exact List.mem_cons_self
    refine ⟨if_neg ?_,hsw.office.trans hslept.office⟩
    rw [hsw.running]
    exact fun hrun => hne (Option.some.inj hrun)

theorem send_deals (h : Inv s) (hL : s.messagequeues.Sound) (hr : s.running = some r)
    (hok : (s.enterTrap r dsosCallMqSend args).internalMqSend r = .ok v) (hsw : Switched v t) :
    Deals s (some (.posted r (args.getD 0 0) (args.getD 2 0) (s.copyIn (args.getD 1 0)).toOption
      (t.returned r))) t := by
  have h' := h.enterTrap hr dsosCallMqSend args
  have harg : ∀ i, i < 3 → (s.enterTrap r dsosCallMqSend args).syscallArgs r i = args.getD i 0 :=
    fun i hi => syscallArgs_enterTrap hi
  have hposted := internalMqSend_posted h' hL r
  rw [harg 0 (by decide),harg 1 (by decide),harg 2 (by decide)] at hposted
  apply deals_some
  dsimp only [Office.apply]
  change (s.enterTrap r dsosCallMqSend args).Posted r (s.office.post mailBounds.letters r
    (args.getD 0 0) (args.getD 2 0) (s.copyIn (args.getD 1 0)).toOption) at hposted
  generalize s.office.post mailBounds.letters r (args.getD 0 0) (args.getD 2 0)
    (s.copyIn (args.getD 1 0)).toOption = res at hposted ⊢
  cases hposted with
  | denied hok' =>
    cases hok'.symm.trans hok
    rw [returned_switched hsw hr (Function.update_self _ _ _),hsw.office]
    exact if_pos rfl
  | waits hok' =>
    have hnum : SleepsOnTimer ((s.enterTrap r dsosCallMqSend args).syscallNum r) :=
      Or.inr (Or.inl (syscallNum_enterTrap _ _ _ _))
    obtain ⟨hret,hO⟩ := blockOnQueue_deals h' hr hnum (hok'.symm.trans hok) hsw
    rw [hret,hO]
    exact if_pos rfl
  | fails _ herr => cases herr.symm.trans hok
  | done hok' hO =>
    cases hok'.symm.trans hok
    rw [returned_switched hsw hr (Function.update_self _ _ _),hsw.office,hO]
    exact if_pos rfl

theorem receive_deals (h : Inv s) (hL : s.messagequeues.Sound) (hlegible : s.Legible)
    (hr : s.running = some r)
    (hok : (s.enterTrap r dsosCallMqReceive args).internalMqReceive r = .ok v)
    (hsw : Switched v t) :
    Deals s (some (.collected r (args.getD 0 0)
      (readString t.chars (args.getD 1 0) maxMessageLenght) (t.returned r))) t := by
  have h' := h.enterTrap hr dsosCallMqReceive args
  have harg : ∀ i, i < 3 →
      (s.enterTrap r dsosCallMqReceive args).syscallArgs r i = args.getD i 0 :=
    fun i hi => syscallArgs_enterTrap hi
  have hcollected := internalMqReceive_collected h' hL r
  rw [harg 0 (by decide)] at hcollected
  apply deals_some
  dsimp only [Office.apply]
  change (s.enterTrap r dsosCallMqReceive args).Collected r
    (s.office.collect r (args.getD 0 0)) at hcollected
  generalize s.office.collect r (args.getD 0 0) = res at hcollected ⊢
  cases hcollected with
  | denied hok' =>
    cases hok'.symm.trans hok
    rw [returned_switched hsw hr (Function.update_self _ _ _),hsw.office]
    exact if_pos ⟨rfl,rfl⟩
  | @waits q hq hok' =>
    have hnum : SleepsOnTimer ((s.enterTrap r dsosCallMqReceive args).syscallNum r) :=
      Or.inr (Or.inr (syscallNum_enterTrap _ _ _ _))
    obtain ⟨hret,hO⟩ :=
      blockOnQueue_deals (h'.sizeChecked r q) hr hnum (hok'.symm.trans hok) hsw
    rw [hret,hO]
    exact if_pos ⟨rfl,rfl⟩
  | @done q m rest O hq hcons hok' hO =>
    rw [harg 1 (by decide)] at hok' hO
    rw [hok'] at hok
    split at hok
    · cases hok
    cases hok
    have hfits : Fits (s.message m) := by
      have hm : m ∈ s.messages q := by
        rw [show s.messages q = m :: rest from hcons]
        exact List.mem_cons_self
      exact hlegible q (h.queueOf_enterTrap hr hq) _ (List.mem_map_of_mem hm)
    have hread : readString t.chars (args.getD 1 0) maxMessageLenght = some (s.message m) := by
      rw [hsw.chars]
      exact readString_writeString hfits.1 hfits.2
    rw [returned_switched hsw hr (Function.update_self _ _ _),hsw.office,hO,hread]
    exact if_pos ⟨rfl,decide_eq_true rfl⟩

/-- The other calls are requests about handles and queues. -/
theorem handled_deals (h : Inv s) (hL : s.messagequeues.Sound) (hr : s.running = some r)
    (hc : syscallVector num.toNat = some c) (hsend : c ≠ .mqSend) (hreceive : c ≠ .mqReceive)
    (hok : handler c (s.enterTrap r num args) r = .ok v) (hsw : Switched v t) :
    Deals s ((callEvent .messagequeues s t r c args).map fun e =>
      .request e (args.getD 2 0) (args.getD 3 0)) t := by
  have h' := h.enterTrap hr num args
  have hc' := syscallVector_enterTrap (r := r) s args hc
  have hnum := syscallVector_eq_some hc
  have hfollows : Follows .messagequeues s (callEvent .messagequeues s t r c args) t :=
    handled_follows h hL hr hc hok hsw.layer hsw.syscallRetvalue hsw.pcbAllocator
  have hqueues : t.messagequeues = v.messagequeues := congrFun hsw.layer .messagequeues
  by_cases hopen : c = .mqOpen
  · subst hopen hnum
    have harg : ∀ i, i < 5 → (s.enterTrap r Syscall.mqOpen.number args).syscallArgs r i =
        args.getD i 0 := fun i hi => syscallArgs_enterTrap hi
    obtain ⟨res,hres,rfl⟩ : ∃ res,
        (s.enterTrap r Syscall.mqOpen.number args).openTrapped .messagequeues r = .ok res ∧
          v = (s.enterTrap r Syscall.mqOpen.number args).opened .messagequeues r res := by
      cases hres : (s.enterTrap r Syscall.mqOpen.number args).openTrapped .messagequeues r with
      | error f => cases (handler_open_error hres).symm.trans hok
      | ok res =>
        cases (handler_open_ok hres).symm.trans hok
        exact ⟨res,rfl,rfl⟩
    refine deals_request hfollows ?_
    have hlayer : ((s.enterTrap r Syscall.mqOpen.number args).opened .messagequeues r
        res).messagequeues = res.layer := layer_opened (k := .messagequeues)
    have hchanged := opened_changed (s := s.enterTrap r Syscall.mqOpen.number args) hL hres
      (args.getD 1 0) (t.syscallRetvalue r) (hasFlag (args.getD 4 0) dsosCreate)
      (hasFlag (args.getD 4 0) dsosExcl)
    rw [hqueues,hsw.office,hlayer]
    rw [harg 0 (by decide),harg 2 (by decide),harg 3 (by decide)] at hchanged
    exact hchanged
  by_cases hunlink : c = .mqUnlink
  · subst hunlink hnum
    have harg : (s.enterTrap r Syscall.mqUnlink.number args).syscallArgs r 0 = args.getD 0 0 :=
      syscallArgs_enterTrap (by decide)
    refine deals_request hfollows ?_
    have hchanged := unlinked_changed h' hL hok (args.getD 2 0) (args.getD 3 0)
      (t.syscallRetvalue r)
    rw [harg] at hchanged
    rw [hqueues,hsw.office]
    exact hchanged
  have hother : v.messagequeues.byId = s.messagequeues.byId ∧ v.mail = s.mail ∧
      v.messageAllocator = s.messageAllocator := by
    by_cases hclose : c = .mqClose
    · subst hclose
      exact close_queues (s := s.enterTrap r num args) h' hr hok
    · exact (handler_effect h' hr hc' hok).queues hopen hclose hunlink hsend hreceive
  obtain ⟨hid,hm,hb⟩ := hother
  have hblocks : t.messageAllocator = v.messageAllocator := by cases hsw <;> rfl
  exact deals_handles hfollows (fun e he => aboutObjects_callEvent hopen hunlink he)
    (by rw [hqueues,hid]) (hsw.mail.trans hm) (hblocks.trans hb)

/-- Every step is the dealing that is read off it, or none, and ends as it should. -/
theorem step_deals (h : Inv s) (hL : s.messagequeues.Sound) (hlegible : s.Legible)
    (hstep : s.step a = .ok t) : Deals s (s.mailDealing a t) t := by
  cases a with
  | call num args =>
    obtain ⟨r,hr,_,_,hcalled⟩ := step_called hstep
    unfold mailDealing
    simp only [hr]
    cases hcalled with
    | refused hnum =>
      simp only [syscallVector_of_range hnum]
      exact deals_none rfl
    | missing hnum hc hsw =>
      simp only [hc]
      exact deals_none hsw.office
    | @handled c v t hnum hc hok hsw =>
      simp only [hc]
      by_cases hsend : c = .mqSend
      · subst hsend
        obtain rfl : num = dsosCallMqSend := syscallVector_eq_some hc
        exact send_deals h hL hr hok hsw
      by_cases hreceive : c = .mqReceive
      · subst hreceive
        obtain rfl : num = dsosCallMqReceive := syscallVector_eq_some hc
        exact receive_deals h hL hlegible hr hok hsw
      have hdeals := handled_deals h hL hr hc hsend hreceive hok hsw
      cases c <;> first | exact hdeals | contradiction
  | tick =>
    obtain ⟨r,v,hr,hok,hsw⟩ := step_ticked hstep
    have hs := internalSchedule_scheduled (h.ticked r) hr hok
    exact deals_none (hsw.office.trans hs.office)
  | ret =>
    cases step_moves h hstep
    exact deals_none rfl
  | store address c =>
    cases step_moves h hstep
    exact deals_none rfl
  | resumeMain =>
    have hfollows : Follows .messagequeues s _ t := step_follows h hL hstep
    cases step_moves h hstep with
    | @resumeMain p pool t hr hdown hb hsw =>
      unfold registryEvent at hfollows
      have hqueues : t.messagequeues = _ := congrFun hsw.layer .messagequeues
      have hblocks : t.messageAllocator = s.messageAllocator := by cases hsw <;> rfl
      unfold mailDealing registryEvent
      refine deals_handles hfollows ?_ (by rw [hqueues]; rfl) hsw.mail hblocks
      intro e he
      obtain ⟨b,_,rfl⟩ := Option.map_eq_some_iff.mp he
      rfl

theorem step_legible (h : Inv s) (hstep : s.step a = .ok t) (hs : s.Legible) : t.Legible := by
  refine (step_mailMove h hstep).each h ?_ ?_ ?_ hs
  · exact fun _ _ _ htext => absurd htext List.not_mem_nil
  · exact fun _ _ _ _ hl text htext => hl text (List.mem_cons_of_mem _ htext)
  · intro args r q m pool text _ hr hp _ _ hread text' htext
    rcases List.mem_append.mp htext with hold | hnew
    · exact hs q (h.queueOf_enterTrap hr hp.1) text' hold
    · obtain rfl := List.mem_singleton.mp hnew
      exact ⟨readString_length hread,readString_nonzero hread⟩

end Kernel

end DisastrOS
