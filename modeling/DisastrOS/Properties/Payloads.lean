import DisastrOS.Behaviour.Strings
import DisastrOS.Behaviour.Traffic
import Mathlib.Data.List.GetD

/-! # What of a payload arrives

The two copies of a message end at the first zero, so that a payload arrives whole unless
it has a zero before its last character. The block of the message is not written while
the message is on a queue.
-/
namespace DisastrOS

namespace Kernel

/-- The characters `b` are in memory from the address on. -/
def BytesAt (s : Kernel) (address : ℤ) (b : List UInt8) : Prop :=
  ∀ i < b.length, s.chars (address + i) = b.getD i 0

instance (s : Kernel) (address : ℤ) (b : List UInt8) : Decidable (s.BytesAt address b) :=
  inferInstanceAs (Decidable (∀ i < b.length, _))

/-- The step is a send of the characters `b`, which puts the message `m` on `q`. -/
structure SendsBytes (s t : Kernel) (args : List ℤ) (q m : ℕ) (b : List UInt8) : Prop where
  step : s.step (.call dsosCallMqSend args) = .ok t
  length : args.getD 2 0 = b.length
  bytes : s.BytesAt (args.getD 1 0) b
  appended : t.messages q = s.messages q ++ [m]

/-- The step is a receive which takes `m` off `q`. -/
structure TakesMessage (u v : Kernel) (args : List ℤ) (q m : ℕ) : Prop where
  step : u.step (.call dsosCallMqReceive args) = .ok v
  taken : m ∉ v.messages q

/-- The message `m` is on `q` behind the action. -/
def StaysOn (q m : ℕ) (s : Kernel) (a : Action) : Prop := ∀ t, s.step a = .ok t → m ∈ t.messages q

variable {s t u v : Kernel} {a : Action} {q m : ℕ} {args : List ℤ} {b text : List UInt8}

/-- The text of a message that stays on a queue is not written. -/
theorem MailMove.keepsText (h : Inv s) (hm : MailMove s a t) (hq : q ∈ s.messagequeues.objectsList)
    (hmem : m ∈ s.messages q) (hstay : m ∈ t.messages q) :
    q ∈ t.messagequeues.objectsList ∧ t.message m = s.message m := by
  cases hm with
  | other ha hm hn =>
    have hqueues : t.messagequeues.objectsList = s.messagequeues.objectsList :=
      congrArg Mail.queues hm
    exact ⟨hqueues ▸ hq,congrFun (congrArg Mail.message hm) m⟩
  | created hr hnew hm hh =>
    have hqueues : t.messagequeues.objectsList = listAppend _ _ := congrArg Mail.queues hm
    rw [hqueues]
    exact ⟨mem_listAppend.mpr (Or.inl hq),congrFun (congrArg Mail.message hm) m⟩
  | @unlinked args q' t hq' hm hn =>
    have hqueues : t.messagequeues.objectsList = s.messagequeues.objectsList.erase q' :=
      congrArg Mail.queues hm
    have hmsgs : t.messages = Function.update s.messages q' [] := congrArg Mail.messages hm
    have hqq : q ≠ q' := by
      rintro rfl
      rw [hmsgs,Function.update_self] at hstay
      cases hstay
    rw [hqueues]
    exact ⟨(List.mem_erase_of_ne hqq).mpr hq,congrFun (congrArg Mail.message hm) m⟩
  | @sent args r q' m' pool text t hr hp hb hptr hread hm hh =>
    have hqueues : t.messagequeues.objectsList = s.messagequeues.objectsList :=
      congrArg Mail.queues hm
    have hmsg : t.message = Function.update s.message m' text := congrArg Mail.message hm
    refine ⟨hqueues ▸ hq,?_⟩
    rw [hmsg]
    apply Function.update_of_ne
    rintro rfl
    exact h.fresh_message hb q hq hmem
  | received hr hp hptr hcons hm hchars hh =>
    have hqueues : t.messagequeues.objectsList = s.messagequeues.objectsList :=
      congrArg Mail.queues hm
    exact ⟨hqueues ▸ hq,congrFun (congrArg Mail.message hm) m⟩

theorem SendsBytes.stored (h : Inv s) (hs : SendsBytes s t args q m b) :
    q ∈ t.messagequeues.objectsList ∧
      readString s.chars (args.getD 1 0) maxMessageLenght = some (t.message m) := by
  have happ := hs.appended
  cases step_mailMove h hs.step with
  | other ha hm hn =>
    have hsame : t.messages q = s.messages q := congrFun (congrArg Mail.messages hm) q
    exact absurd (hsame.symm.trans happ) (by simp)
  | @sent args r q' m' pool text t hr hp hb hptr hread hm hh =>
    have hmsgs : t.messages = Function.update s.messages q' (listAppend (s.messages q') m') :=
      congrArg Mail.messages hm
    have hmsg : t.message = Function.update s.message m' text := congrArg Mail.message hm
    rw [hmsgs] at happ
    by_cases hqq : q = q'
    · subst hqq
      rw [Function.update_self] at happ
      obtain rfl := List.singleton_inj.mp (List.append_cancel_left happ)
      have hqueues : t.messagequeues.objectsList = s.messagequeues.objectsList :=
        congrArg Mail.queues hm
      rw [hmsg,Function.update_self,← hread,msgPtr_eq (by decide),hqueues]
      exact ⟨h.queueOf_enterTrap hr hp.1,rfl⟩
    · rw [Function.update_of_ne hqq] at happ
      exact absurd happ (by simp)

theorem TakesMessage.copied (h : Inv u) (ht : TakesMessage u v args q m)
    (hmem : m ∈ u.messages q) :
    v.chars = writeString u.chars (args.getD 1 0) (u.message m) := by
  have htaken := ht.taken
  cases step_mailMove h ht.step with
  | other ha hm hn =>
    have hsame : v.messages q = u.messages q := congrFun (congrArg Mail.messages hm) q
    exact absurd (hsame.symm ▸ hmem) htaken
  | @received args r q' m' rest v hr hp hptr hcons hm hchars hh =>
    have hmsgs : v.messages = Function.update u.messages q' rest := congrArg Mail.messages hm
    rw [hmsgs] at htaken
    by_cases hqq : q = q'
    · subst hqq
      rw [Function.update_self] at htaken
      rw [hcons] at hmem
      obtain rfl := (List.mem_cons.mp hmem).resolve_right htaken
      rw [hchars,msgPtr_eq (by decide)]
    · rw [Function.update_of_ne hqq] at htaken
      exact absurd hmem htaken

theorem BytesAt.length_le {address : ℤ} (hb : s.BytesAt address b) (hzero : 0 ∉ b.dropLast)
    (hread : readString s.chars address maxMessageLenght = some text) :
    b.length ≤ text.length + 1 := by
  by_contra hlong
  have hlt : text.length < b.dropLast.length := by
    rw [List.length_dropLast]
    omega
  have hend : s.chars (address + text.length) = 0 := by
    rw [readString_getD hread _ (Nat.le_refl _),List.getD_eq_default _ _ (Nat.le_refl _)]
  have hchar := hb text.length (by omega)
  rw [hend,List.getD_eq_getElem _ _ (by omega),← List.getElem_dropLast hlt] at hchar
  exact hzero (hchar ▸ List.getElem_mem hlt)

end Kernel

/-- A payload without a zero before its last character is found in the buffer of the
receive that takes its message, whatever follows it in the memory of the sender. -/
theorem payload_delivered {s t u v : Kernel} {args args' : List ℤ} {q m : ℕ} {b : List UInt8}
    (hs : Reachable s) (hsend : Kernel.SendsBytes s t args q m b)
    (hstays : Transitions.LaterUnder system (Kernel.StaysOn q m) t u)
    (htake : Kernel.TakesMessage u v args' q m) (hzero : 0 ∉ b.dropLast) :
    v.BytesAt (args'.getD 1 0) b := by
  have ht : Reachable t := .step hs trivial hsend.step
  obtain ⟨hqueue,hread⟩ := hsend.stored hs.inv
  have hmem : m ∈ t.messages q := by
    rw [hsend.appended]
    exact List.mem_append_right _ List.mem_cons_self
  obtain ⟨hu,hqu,hmemu,htext⟩ := hstays.preserves
    (I := fun u => q ∈ u.messagequeues.objectsList ∧ m ∈ u.messages q ∧ u.message m = t.message m)
    (fun u a v hu hI hstay hstep => by
      obtain ⟨hq,hm,hmsg⟩ := hI
      have hmv := hstay v hstep
      have hui := Reachable.inv hu
      obtain ⟨hqv,hmsgv⟩ := (Kernel.step_mailMove hui hstep).keepsText hui hq hm hmv
      exact ⟨hqv,hmv,hmsgv.trans hmsg⟩) ht ⟨hqueue,hmem,rfl⟩
  have hcopied := htake.copied (Reachable.inv hu) hmemu
  intro i hi
  have hle : i ≤ (t.message m).length := by
    have hlength := hsend.bytes.length_le hzero hread
    omega
  rw [hcopied,htext,Kernel.writeString_getD i hle,← Kernel.readString_getD hread i hle]
  exact hsend.bytes i hi

/-- A send, the reading of its result, and a receive, checked by evaluation. -/
theorem Kernel.exists_transfer {s : Kernel} (args args' : List ℤ) (q m : ℕ) (b : List UInt8)
    (check : Kernel → Bool) (hlength : args.getD 2 0 = b.length)
    (hbytes : s.BytesAt (args.getD 1 0) b)
    (h : s.after (.call dsosCallMqSend args) (fun t => t.messages q = s.messages q ++ [m] &&
      t.after .ret (fun u => m ∈ u.messages q && u.msgSize q ≤ args'.getD 2 0 &&
        u.after (.call dsosCallMqReceive args') (fun v => m ∉ v.messages q && check v)))) :
    ∃ t u v, SendsBytes s t args q m b ∧ Transitions.LaterUnder system (StaysOn q m) t u ∧
      u.msgSize q ≤ args'.getD 2 0 ∧ TakesMessage u v args' q m ∧ check v = true := by
  obtain ⟨t,hsend,h⟩ := after_eq_true h
  simp only [Bool.and_eq_true,decide_eq_true_eq] at h
  obtain ⟨happ,h⟩ := h
  obtain ⟨u,hret,h⟩ := after_eq_true h
  simp only [Bool.and_eq_true,decide_eq_true_eq] at h
  obtain ⟨⟨hstay,hbuffer⟩,h⟩ := h
  obtain ⟨v,hreceive,h⟩ := after_eq_true h
  simp only [Bool.and_eq_true,decide_eq_true_eq] at h
  refine ⟨t,u,v,⟨hsend,hlength,hbytes,happ⟩,.single ⟨.ret,?_,hret⟩,hbuffer,⟨hreceive,h.1⟩,h.2⟩
  intro u' hret'
  cases hret.symm.trans hret'
  exact hstay

/-- Two characters are sent with a third one behind them. -/
theorem payload_delivered_run : ∃ s v : Kernel, s.chars 102 = 74 ∧ v.BytesAt 200 [72,73] := by
  obtain ⟨s,hs,hcheck⟩ := exists_run Transitions.unguarded
    [.store 100 72,.store 101 73,.store 102 74,.call 10 [0,0,20,2,1],.ret]
    (fun s => s.chars 102 = 74 && s.BytesAt 100 [72,73] &&
      s.after (.call dsosCallMqSend [0,100,2]) (fun t => t.messages 0 = s.messages 0 ++ [0] &&
        t.after .ret (fun u => 0 ∈ u.messages 0 && u.msgSize 0 ≤ 20 &&
          u.after (.call dsosCallMqReceive [0,200,20]) (fun v => 0 ∉ v.messages 0 && true))))
    (by decide)
  simp only [Bool.and_eq_true,decide_eq_true_eq] at hcheck
  obtain ⟨⟨hnext,hbytes⟩,hafter⟩ := hcheck
  obtain ⟨t,u,v,hsend,hstays,_,htake,_⟩ :=
    Kernel.exists_transfer [0,100,2] [0,200,20] 0 0 [72,73] (fun _ => true) rfl hbytes hafter
  exact ⟨s,v,hnext,payload_delivered hs hsend hstays htake (by decide)⟩

/-- The character behind a zero does not arrive, though the buffer is long enough for any message
of the queue. -/
theorem payload_cut : ¬ ∀ (s t u v : Kernel) (args args' : List ℤ) (q m : ℕ) (b : List UInt8),
    Reachable s → (b.length : ℤ) ≤ s.msgSize q → s.msgSize q ≤ maxMessageLenght →
      Kernel.SendsBytes s t args q m b → Transitions.LaterUnder system (Kernel.StaysOn q m) t u →
        u.msgSize q ≤ args'.getD 2 0 → Kernel.TakesMessage u v args' q m →
          v.BytesAt (args'.getD 1 0) b := by
  intro hclaim
  obtain ⟨s,hs,hcheck⟩ := exists_run Transitions.unguarded
    [.store 100 1,.store 102 2,.call 10 [0,0,20,2,1],.ret]
    (fun s => s.msgSize 0 = 20 && s.BytesAt 100 [1,0,2] &&
      s.after (.call dsosCallMqSend [0,100,3]) (fun t => t.messages 0 = s.messages 0 ++ [0] &&
        t.after .ret (fun u => 0 ∈ u.messages 0 && u.msgSize 0 ≤ 20 &&
          u.after (.call dsosCallMqReceive [0,200,20])
            (fun v => 0 ∉ v.messages 0 && v.chars 202 = 0)))) (by decide)
  simp only [Bool.and_eq_true,decide_eq_true_eq] at hcheck
  obtain ⟨⟨hsize,hbytes⟩,hafter⟩ := hcheck
  obtain ⟨t,u,v,hsend,hstays,hbuffer,htake,hcut⟩ := Kernel.exists_transfer [0,100,3] [0,200,20] 0 0
    [1,0,2] (fun v => v.chars 202 = 0) rfl hbytes hafter
  have hdelivered := hclaim s t u v _ _ 0 0 [1,0,2] hs (by rw [hsize]; decide)
    (by rw [hsize]; decide) hsend hstays hbuffer htake 2 (by decide)
  have hlast : v.chars 202 = 2 := hdelivered
  rw [of_decide_eq_true hcut] at hlast
  exact absurd hlast (by decide)

end DisastrOS
