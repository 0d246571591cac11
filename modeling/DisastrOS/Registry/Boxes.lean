import DisastrOS.Behaviour.Traffic
import DisastrOS.Foundation.Postal
import DisastrOS.Registry.Runs

/-! # The message queues as a post office

Seen from outside a message queue is a bounded box of strings that is known by its id. Blocks and
counters do not show. Sends and receives end as the posting and the collecting of letters do.
-/
namespace DisastrOS
open Handles Postal

def Mail.box (k : Mail) (q : ℕ) : Box (List UInt8) :=
  ⟨k.msgSize q,k.maxMsg q,(k.messages q).map k.message⟩

/-- The boxes by the ids of the queues. -/
def DescriptorLayer.boxes (L : DescriptorLayer) (k : Mail) (id : ℤ) : Option (Box (List UInt8)) :=
  (L.byId id).map k.box

/-- Ids, types and return values are `int`s, and letters are strings. -/
abbrev MailOffice := Office ℕ ℤ ℤ (List UInt8)

/-- The queues seen from outside. -/
def Kernel.office (s : Kernel) : MailOffice :=
  ⟨s.messagequeues.registry,s.messagequeues.boxes s.mail,s.messageAllocator.used.card⟩

/-- The codes of the message calls. -/
def mailCodes : Codes ℤ where
  answer := messagequeueErrors.code
  denied
    | .unopened => dsosEMessagequeueClose
    | .size => dsosEMessagesize
  done := 0

def mailBounds : Bounds := ⟨layerLimits,maxNumMessages⟩

namespace DescriptorLayer

variable {L L' : DescriptorLayer} {k k' : Mail} {id fd : ℤ} {x : Option ℕ} {p : ℕ}

/-- The boxes if one id is given to another object, or to none. -/
theorem boxes_update (hid : L'.byId = Function.update L.byId id x)
    (hk : ∀ j, j ≠ id → ∀ q, L.byId j = some q → k'.box q = k.box q) :
    L'.boxes k' = Function.update (L.boxes k) id (x.map k'.box) := by
  funext j
  unfold boxes
  rw [hid]
  by_cases hj : j = id
  · subst hj
    rw [Function.update_self,Function.update_self]
  · rw [Function.update_of_ne hj,Function.update_of_ne hj]
    cases hq : L.byId j with
    | none => rfl
    | some q => exact congrArg some (hk j hj q hq)

theorem byId_congr (hobj : L'.objectsList = L.objectsList) (hid : L'.id = L.id) :
    L'.byId = L.byId := by
  funext j
  unfold byId
  rw [hobj,hid]

theorem find_table (L : DescriptorLayer) (p : ℕ) (fd : ℤ) :
    (L.registry.table p).find? (fun h => h.1 = fd) = (L.byFd p fd).map L.handle := by
  dsimp only [registry,byFd]
  rw [List.find?_map]
  rfl

end DescriptorLayer

namespace Kernel

variable {s t u v : Kernel} {r q : ℕ}

theorem Slept.office (hslept : Slept s r u) : u.office = s.office := by
  obtain ⟨⟩ := hslept
  rfl

theorem Switched.office (hsw : Switched v t) : t.office = v.office := by
  cases hsw <;> rfl

theorem Scheduled.office (hs : Scheduled s r t) : t.office = s.office := by
  cases hs with
  | stay hw =>
    obtain ⟨⟩ := hw
    rfl
  | rotate hw =>
    obtain ⟨⟩ := hw
    rfl

/-- The queue of a descriptor has the id that the descriptor is for. -/
theorem byId_queueOf (hL : s.messagequeues.Sound) (hq : q ∈ s.queueOf r) :
    s.messagequeues.byId (s.messagequeues.id q) = some q := by
  obtain ⟨d,hd,rfl⟩ := queueOf_eq_some hq
  exact hL.byId_iff.mpr ⟨(hL.entry (DescriptorLayer.byFd_eq_some hd).1).2.2.1,rfl⟩

/-- Where a call for a queue arrives. -/
theorem reached_office (hL : s.messagequeues.Sound) (r : ℕ) :
    s.office.reached r (s.syscallArgs r 0) =
      (s.queueOf r).map fun q => (s.messagequeues.id q,s.mail.box q) := by
  unfold Office.reached queueOf
  dsimp only [office]
  rw [DescriptorLayer.find_table]
  cases hfd : s.messagequeues.byFd r (s.syscallArgs r 0) with
  | none => rfl
  | some d =>
    have hid : s.messagequeues.byId (s.messagequeues.handle d).2 = some (s.messagequeues.object d) :=
      hL.byId_iff.mpr ⟨(hL.entry (DescriptorLayer.byFd_eq_some hfd).1).2.2.1,rfl⟩
    dsimp only [Option.map_some,DescriptorLayer.boxes]
    rw [hid]
    rfl

/-- A send with what the office makes of it. -/
inductive Posted (s : Kernel) (r : ℕ) : Ending Unit × MailOffice → Prop
  | denied {d : Denial} (hok : s.internalMqSend r = .ok (s.setRetvalue r (mailCodes.denied d))) :
      Posted s r (.denied d,s.office)
  | waits (hok : s.internalMqSend r = s.blockOnQueue r dsosEMessagequeueFull) :
      Posted s r (.waits,s.office)
  | fails {f : Fault} (hf : f = .nullPointer ∨ f = .overrun) (herr : s.internalMqSend r = .error f) :
      Posted s r (.fails,s.office)
  | done {q m : ℕ} {pool : Pool maxNumMessages} {text : List UInt8} {O : MailOffice}
      (hok : s.internalMqSend r = .ok (s.appended r q m pool text))
      (hO : (s.appended r q m pool text).office = O) : Posted s r (.done (),O)

/-- A receive with what the office makes of it. -/
inductive Collected (s : Kernel) (r : ℕ) : Ending (List UInt8) × MailOffice → Prop
  | denied {d : Denial}
      (hok : s.internalMqReceive r = .ok (s.setRetvalue r (mailCodes.denied d))) :
      Collected s r (.denied d,s.office)
  | waits {q : ℕ} (hq : q ∈ s.queueOf r)
      (hok : s.internalMqReceive r = (s.sizeChecked r q).blockOnQueue r dsosEMessagequeueEmpty) :
      Collected s r (.waits,s.office)
  | done {q m : ℕ} {rest : List ℕ} {O : MailOffice} (hq : q ∈ s.queueOf r)
      (hcons : s.messages q = m :: rest) (hok : s.internalMqReceive r =
        if s.syscallArgs r 1 = 0 then .error .nullPointer
        else .ok (s.removed r q m rest (s.syscallArgs r 1)))
      (hO : (s.removed r q m rest (s.syscallArgs r 1)).office = O) :
      Collected s r (.done (s.message m),O)

/-- The boxes if the letters of one channel change. -/
theorem boxes_channels {L : DescriptorLayer} {k k' : Mail} {l : List (List UInt8)}
    (hid : L.byId (L.id q) = some q) (hk : k.queues = L.objectsList)
    (hk' : k'.queues = L.objectsList) (hsize : k'.msgSize = k.msgSize)
    (hmax : k'.maxMsg = k.maxMsg) (hc : k'.channels = Function.update k.channels q (some l)) :
    L.boxes k' = Function.update (L.boxes k) (L.id q) (some { k.box q with letters := l }) := by
  have hletters : ∀ q' ∈ L.objectsList, ∀ l',
      Function.update k.channels q (some l) q' = some l' →
        k'.box q' = { k.box q' with letters := l' } := by
    intro q' hq' l' hl
    have hsome := Mail.channels_of_mem (k := k') (hk' ▸ hq')
    rw [hc,hl] at hsome
    unfold Mail.box
    rw [hsize,hmax,← Option.some.inj hsome]
  have hboxes : L.boxes k' = Function.update (L.boxes k) (L.id q) (some (k'.box q)) := by
    refine DescriptorLayer.boxes_update (x := some q) ?_ ?_
    · rw [← hid,Function.update_eq_self]
    · intro j hj q' hq'
      obtain ⟨hmem,hjq⟩ := DescriptorLayer.byId_eq_some hq'
      have hqq : q' ≠ q := by
        rintro rfl
        exact hj hjq.symm
      refine hletters q' hmem _ ?_
      rw [Function.update_of_ne hqq]
      exact Mail.channels_of_mem (hk ▸ hmem)
  rw [hboxes,hletters q (DescriptorLayer.byId_eq_some hid).1 l (Function.update_self _ _ _)]

theorem office_appended (h : Inv s) (hL : s.messagequeues.Sound) (hq : q ∈ s.queueOf r) {m : ℕ}
    {pool : Pool maxNumMessages} (hb : s.messageAllocator.getBlock = some (m,pool))
    (text : List UInt8) : (s.appended r q m pool text).office =
      s.office.put (s.messagequeues.id q) (s.mail.box q) text := by
  have hid := byId_queueOf hL hq
  have hchannels : (s.mail.put q m text).channels = _ :=
    Mail.channels_put (h.fresh_message hb) (DescriptorLayer.byId_eq_some hid).1
  refine Office.ext rfl (boxes_channels hid rfl rfl rfl rfl hchannels) ?_
  dsimp only [office,appended,setRetvalue,record,Office.put]
  rw [Pool.card_used_getBlock hb]

theorem office_removed (h : Inv s) (hL : s.messagequeues.Sound) (hq : q ∈ s.queueOf r) {m : ℕ}
    {rest : List ℕ} (hcons : s.messages q = m :: rest) (msgPtr : ℤ) :
    (s.removed r q m rest msgPtr).office =
      s.office.take (s.messagequeues.id q) (s.mail.box q) (rest.map s.message) := by
  have hid := byId_queueOf hL hq
  have hqL := (DescriptorLayer.byId_eq_some hid).1
  have hm : s.messageAllocator.Allocated m := by
    refine (h.mailboxes.stored m).mpr ⟨q,hqL,?_⟩
    rw [hcons]
    exact List.mem_cons_self
  have hchannels : (s.mail.take q rest).channels = _ := Mail.channels_take hqL
  refine Office.ext rfl (boxes_channels hid rfl rfl rfl rfl hchannels) ?_
  dsimp only [office,removed,setRetvalue,record,Office.take]
  rw [Pool.card_used_releaseBlock hm]

/-- There is no block for a message exactly if the office is full. -/
theorem stored_iff (s : Kernel) :
    mailBounds.letters ≤ s.office.stored ↔ s.messageAllocator.getBlock = none := by
  dsimp only [mailBounds,office]
  rw [Pool.getBlock_eq_none_iff]
  exact ⟨fun hle => Nat.le_antisymm (Pool.card_used_le _) hle,fun heq => heq.ge⟩

/-- The counter of a queue is the number of the letters in its box. -/
theorem length_box (h : Inv s) (hq : q ∈ s.messagequeues.objectsList) :
    ((s.mail.box q).letters.length : ℤ) = s.msgNum q := by
  rw [h.mailboxes.count q hq]
  exact congrArg Nat.cast (List.length_map _)

/-- A send ends as the office says. -/
theorem internalMqSend_posted (h : Inv s) (hL : s.messagequeues.Sound) (r : ℕ) :
    s.Posted r (s.office.post mailBounds.letters r (s.syscallArgs r 0) (s.syscallArgs r 2)
      (s.copyIn (s.syscallArgs r 1)).toOption) := by
  unfold Office.post
  rw [reached_office hL]
  cases hq : s.queueOf r with
  | none => exact .denied (internalMqSend_none hq)
  | some q =>
    have hqL := (DescriptorLayer.byId_eq_some (byId_queueOf hL hq)).1
    have heq := internalMqSend_some hq
    have hsize : (s.mail.box q).size = s.msgSize q := rfl
    have hcapacity : (s.mail.box q).capacity = s.maxMsg q := rfl
    dsimp only [Option.map_some]
    rw [hsize,hcapacity,length_box h hqL]
    by_cases hlen : s.msgSize q < s.syscallArgs r 2
    · rw [if_pos hlen] at heq ⊢
      exact .denied heq
    rw [if_neg hlen] at heq ⊢
    by_cases hmax : s.maxMsg q = 0
    · rw [if_pos hmax] at heq ⊢
      exact .denied heq
    rw [if_neg hmax] at heq ⊢
    by_cases hfull : s.msgNum q = s.maxMsg q
    · rw [if_pos hfull] at heq ⊢
      exact .waits heq
    rw [if_neg hfull] at heq ⊢
    cases hb : s.messageAllocator.getBlock with
    | none =>
      rw [if_pos ((stored_iff s).mpr hb)]
      have herr : s.appendMessage r q (s.syscallArgs r 1) = .error .nullPointer :=
        appendMessage_none hb _
      exact .fails (appendMessage_error herr) (heq.trans herr)
    | some b =>
      obtain ⟨m,pool⟩ := b
      have hroom : ¬ mailBounds.letters ≤ s.office.stored := by
        rw [stored_iff,hb]
        exact nofun
      rw [if_neg hroom]
      cases hc : s.copyIn (s.syscallArgs r 1) with
      | error f =>
        have herr : s.appendMessage r q (s.syscallArgs r 1) = .error f := by
          rw [appendMessage_some hb,hc]
          rfl
        exact .fails (appendMessage_error herr) (heq.trans herr)
      | ok text =>
        have hok : s.appendMessage r q (s.syscallArgs r 1) = .ok (s.appended r q m pool text) := by
          rw [appendMessage_some hb,hc]
          rfl
        exact .done (heq.trans hok) (office_appended h hL hq hb text)

/-- A receive ends as the office says, unless there is no buffer for the letter. -/
theorem internalMqReceive_collected (h : Inv s) (hL : s.messagequeues.Sound) (r : ℕ) :
    s.Collected r (s.office.collect r (s.syscallArgs r 0)) := by
  unfold Office.collect
  rw [reached_office hL]
  cases hq : s.queueOf r with
  | none => exact .denied (internalMqReceive_none hq)
  | some q =>
    have hqL := (DescriptorLayer.byId_eq_some (byId_queueOf hL hq)).1
    have heq := internalMqReceive_some hq
    have hcapacity : (s.mail.box q).capacity = s.maxMsg q := rfl
    have hcount := length_box h hqL
    rw [setRetvalue_sizeChecked,removeMessage_sizeChecked] at heq
    dsimp only [Option.map_some]
    rw [hcapacity]
    by_cases hmax : s.maxMsg q = 0
    · rw [if_pos hmax] at heq ⊢
      exact .denied heq
    rw [if_neg hmax] at heq ⊢
    cases hl : s.messages q with
    | nil =>
      have hletters : (s.mail.box q).letters = [] := congrArg (List.map s.message) hl
      have hempty : s.msgNum q = 0 := by
        rw [← hcount,hletters]
        rfl
      rw [if_pos hempty] at heq
      rw [hletters]
      exact .waits hq heq
    | cons m rest =>
      have hletters : (s.mail.box q).letters = s.message m :: rest.map s.message :=
        congrArg (List.map s.message) hl
      have hne : s.msgNum q ≠ 0 := by
        rw [← hcount,hletters,List.length_cons]
        omega
      obtain ⟨m',rest',hcons,hrem⟩ := removeMessage_eq h hqL hne (s.syscallArgs r 1) (r := r)
      cases hcons.symm.trans hl
      rw [if_neg hne,hrem] at heq
      rw [hletters]
      exact .done hq hl heq (office_removed h hL hq hl _)

end Kernel

end DisastrOS
