import DisastrOS.Behaviour.Lifetimes

/-! # What a completed wait reports

A wait is completed by the call itself, if the child is a zombie already, or by the
exit of the child. Both report the identifier and the argument of the exit of one
process, which is gone afterwards and reported by no other wait.
-/
namespace DisastrOS

/-- The identifier a completed wait reports. -/
def Event.reapedPid : Event → Option ℤ
  | .reaped _ _ pid _ => some pid
  | _ => none

/-- The identifiers that the waits of a history have reported. -/
def reapedPids (history : List Event) : List ℤ := history.filterMap Event.reapedPid

/-- The value of every zombie is the argument of its exit. -/
def Kin.ValuesExited (k : Kin) (history : List Event) : Prop :=
  ∀ c ∈ k.zombies, .exited c (k.pid c) (k.returnValue c) ∈ history

/-- The reported identifiers are distinct, and nobody has or will get one of them. -/
structure Kin.ReapedOnce (k : Kin) (history : List Event) : Prop where
  nodup : (reapedPids history).Nodup
  old : ∀ pid ∈ reapedPids history, pid < k.lastPid
  gone : ∀ pid ∈ reapedPids history, ∀ p, k.pcbs.Allocated p → k.pid p ≠ pid

namespace Kin
variable {k : Kin} {h h' : List Event} {i r p q x d : ℕ} {v : ℤ} {pool : Pool maxNumProcesses}

theorem ValuesExited.create (hk : k.ValuesExited h) (hp : p ∉ k.zombies) :
    (k.create r p pool x).ValuesExited h := by
  intro d hd
  have hdp : d ≠ p := by
    rintro rfl
    exact hp hd
  have hpid : (k.create r p pool x).pid d = k.pid d := Function.update_of_ne hdp _ _
  have hval : (k.create r p pool x).returnValue d = k.returnValue d := Function.update_of_ne hdp _ _
  rw [hpid,hval]
  exact hk d hd

theorem ValuesExited.restart (hk : k.ValuesExited h) (hp : p ∉ k.zombies) :
    (k.restart p pool).ValuesExited h := by
  have hnew : (k.create p p pool 0).ValuesExited h := hk.create hp
  exact hnew

theorem ValuesExited.exit (hk : k.ValuesExited h) (hr : r ∉ k.zombies)
    (hev : .exited r (k.pid r) v ∈ h) : (k.exit i r v).ValuesExited h := by
  intro d hd
  by_cases hdr : d = r
  · subst hdr
    have hval : (k.exit i d v).returnValue d = v := Function.update_self _ _ _
    rw [hval]
    exact hev
  · have hval : (k.exit i r v).returnValue d = k.returnValue d := Function.update_of_ne hdr _ _
    rw [hval]
    exact hk d ((mem_listAppend.mp hd).resolve_right hdr)

theorem ValuesExited.release (hk : k.ValuesExited h) : (k.release q x d).ValuesExited h :=
  fun c hc => hk c (List.mem_of_mem_erase hc)

theorem ReapedOnce.create (hk : k.ReapedOnce h)
    (hal : ∀ j, pool.Allocated j ↔ j = p ∨ k.pcbs.Allocated j) :
    (k.create r p pool x).ReapedOnce h := by
  refine ⟨hk.nodup,?_,?_⟩
  · intro pid hpid
    have hlt := hk.old pid hpid
    change pid < k.lastPid + 1
    omega
  · intro pid hpid j hj
    by_cases hjp : j = p
    · subst hjp
      have hnew : (k.create r j pool x).pid j = k.lastPid := Function.update_self _ _ _
      have hlt := hk.old pid hpid
      omega
    · have hsame : (k.create r p pool x).pid j = k.pid j := Function.update_of_ne hjp _ _
      rw [hsame]
      exact hk.gone pid hpid j (((hal j).mp hj).resolve_left hjp)

theorem ReapedOnce.restart (hk : k.ReapedOnce h)
    (hal : ∀ j, pool.Allocated j ↔ j = p ∨ k.pcbs.Allocated j) :
    (k.restart p pool).ReapedOnce h := by
  have hnew := hk.create (r := p) (x := 0) hal
  exact ⟨hnew.nodup,hnew.old,hnew.gone⟩

theorem ReapedOnce.release (hk : k.ReapedOnce h) (hd : k.pcbs.Allocated d)
    (hlast : k.pid d < k.lastPid)
    (hinj : ∀ j, k.pcbs.Allocated j → k.pid j = k.pid d → j = d)
    (hh : reapedPids h' = k.pid d :: reapedPids h) : (k.release q x d).ReapedOnce h' := by
  have hal := Pool.allocated_releaseBlock hd
  refine ⟨?_,?_,?_⟩
  · rw [hh]
    refine List.nodup_cons.mpr ⟨?_,hk.nodup⟩
    exact fun hm => hk.gone _ hm d hd rfl
  · intro pid hpid
    rw [hh] at hpid
    rcases List.mem_cons.mp hpid with rfl | hpid
    · exact hlast
    · exact hk.old pid hpid
  · intro pid hpid j hj
    obtain ⟨hjd,hjA⟩ := (hal j).mp hj
    rw [hh] at hpid
    rcases List.mem_cons.mp hpid with rfl | hpid
    · exact fun hsame => hjd (hinj j hjA hsame)
    · exact hk.gone pid hpid j hjA

theorem release_gone {E : ℕ → Prop} {Z : List ℕ}
    (hfam : Family k.pcbs.Allocated E k.children k.childPcb k.parent Z) (hq : k.pcbs.Allocated q)
    (hx : x ∈ k.children q) (hxd : k.childPcb x = d) (hZ : k.zombies.Nodup) :
    (∀ y ∈ (k.release q x d).children q, k.childPcb y ≠ d) ∧ d ∉ (k.release q x d).zombies ∧
      ¬ (k.release q x d).pcbs.Allocated d := by
  have hd : k.pcbs.Allocated d := hxd ▸ hfam.childAllocated q hq x hx
  refine ⟨?_,?_,?_⟩
  · intro y hy hyd
    have hch : (k.release q x d).children q = (k.children q).erase x := Function.update_self _ _ _
    rw [hch,(hfam.nodup q hq).mem_erase_iff] at hy
    exact hy.1 (hfam.unique q q hq hq y hy.2 x hx (hyd.trans hxd.symm)).2
  · exact fun hm => (hZ.mem_erase_iff.mp hm).1 rfl
  · exact fun hm => absurd rfl ((Pool.allocated_releaseBlock hd d).mp hm).1

end Kin

namespace Kernel

/-- The wait of `w` is completed in the step from `s` to `t` with what `c` has left. -/
structure Completion (s t : Kernel) (w c : ℕ) (pid v : ℤ) : Prop where
  told : t.Told w pid v
  identifier : s.pid c = pid
  exited : .exited c pid v ∈ t.history
  wasChild : ∃ x ∈ s.children w, s.childPcb x = c
  offList : ∀ x ∈ t.children w, t.childPcb x ≠ c
  offZombies : c ∉ t.zombieList
  freed : ¬ t.pcbAllocator.Allocated c

variable {s t : Kernel} {a : Action} {r p w c : ℕ} {pid v : ℤ} {es : List Event}

theorem KinMove.history (hm : KinMove s a t) : ∃ es, t.history = es ++ s.history := by
  cases hm with
  | reap _ _ _ _ _ _ _ hh => exact ⟨[_,_],hh⟩
  | collect _ _ _ _ _ _ _ _ _ _ _ _ _ hh => exact ⟨[_,_,_],hh⟩
  | replace _ _ _ _ _ _ _ _ hh => exact ⟨[_,_],hh⟩
  | other _ _ _ hn => exact hn.imp (fun _ hes => hes.1)
  | create _ _ _ _ _ _ hn => exact hn.imp (fun _ hes => hes.1)
  | noChild _ _ _ _ hn => exact hn.imp (fun _ hes => hes.1)
  | block _ _ _ _ _ _ _ hn => exact hn.imp (fun _ hes => hes.1)
  | restart _ _ _ _ hn => exact hn.imp (fun _ hes => hes.1)

/-- Zombies keep their values, and a new one has got the argument of its exit. -/
theorem KinMove.valuesExited (h : Inv s) (hs : s.kin.ValuesExited s.history) (hm : KinMove s a t) :
    t.kin.ValuesExited t.history := by
  obtain ⟨es,hes⟩ := hm.history
  have hold : s.kin.ValuesExited t.history := by
    intro d hd
    rw [hes]
    exact List.mem_append_right _ (hs d hd)
  cases hm with
  | other _ hk => exact hk ▸ hold
  | noChild _ _ hk => exact hk ▸ hold
  | block _ _ _ hk => exact hk ▸ hold
  | create ha hr hb hx hk =>
    rw [hk]
    exact hold.create (fun hz => (Pool.getBlock_eq_some hb).1 (h.placement.allocated_zombie hz))
  | restart hr hb hk =>
    rw [hk]
    exact hold.restart (fun hz => (Pool.getBlock_eq_some hb).1 (h.placement.allocated_zombie hz))
  | reap hr hx hz hk =>
    rw [hk]
    exact hold.release
  | collect hr hi hir hp hv hin hsat hx hxr hk hw hout ht hh =>
    rw [hk]
    exact (hold.exit (h.not_zombie_running hr) (by rw [hh]; simp [kin])).release
  | replace hr hi hir hp hv hsat hk hw hh =>
    rw [hk]
    exact hold.exit (h.not_zombie_running hr) (by rw [hh]; simp [kin])

theorem reapedPids_of_quiet (hn : Quiet Event.ofKin s t) :
    reapedPids t.history = reapedPids s.history := by
  apply hn.filterMap
  intro e he
  cases e with
  | reaped => cases he
  | _ => rfl

/-- No identifier is reported twice. -/
theorem KinMove.reapedOnce (h : Inv s) (hs : s.kin.ReapedOnce s.history) (hm : KinMove s a t) :
    t.kin.ReapedOnce t.history := by
  have hsame : Quiet Event.ofKin s t → s.kin.ReapedOnce t.history := by
    intro hn
    have hpids := reapedPids_of_quiet hn
    refine ⟨?_,?_,?_⟩ <;> rw [hpids]
    · exact hs.nodup
    · exact hs.old
    · exact hs.gone
  have hinj : ∀ d, s.pcbAllocator.Allocated d → ∀ j, s.pcbAllocator.Allocated j →
      s.pid j = s.pid d → j = d := fun d hd j hj hsame => h.identity.injective j d hj hd hsame
  cases hm with
  | other _ hk _ hn => exact hk ▸ hsame hn
  | noChild _ _ hk _ hn => exact hk ▸ hsame hn
  | block _ _ _ hk _ _ _ hn => exact hk ▸ hsame hn
  | create ha hr hb hx hk hw hn =>
    rw [hk]
    exact (hsame hn).create (Pool.getBlock_eq_some hb).2.2
  | restart hr hb hk hw hn =>
    rw [hk]
    exact (hsame hn).restart (Pool.getBlock_eq_some hb).2.2
  | @reap args r x t hr hx hz hk hw hargs ht hh =>
    have hxm := awaitedEntry_mem (s := s.enterTrap r dsosCallWait args) hx
    have hc := h.family.childAllocated r (h.running_allocated hr) x hxm
    rw [hk]
    exact hs.release hc (h.identity.below _ hc) (hinj _ hc) (by rw [hh]; rfl)
  | @collect args r i p x v t hr hi hir hp hv hin hsat hx hxr hk hw hout ht hh =>
    have hrA := h.running_allocated hr
    have hexit : (s.kin.exit i r v).ReapedOnce s.history := ⟨hs.nodup,hs.old,hs.gone⟩
    rw [hk]
    exact hexit.release hrA (h.identity.below r hrA) (hinj r hrA) (by rw [hh]; rfl)
  | @replace args r i p v t hr hi hir hp hv hsat hk hw hh =>
    have hpids : reapedPids t.history = reapedPids s.history := by
      rw [hh]
      rfl
    rw [hk]
    refine ⟨?_,?_,?_⟩ <;> rw [hpids]
    · exact hs.nodup
    · exact hs.old
    · exact hs.gone

theorem gone_of_release {k : Kin} {E : ℕ → Prop} {Z : List ℕ} {x : ℕ}
    (hk : t.kin = k.release w x c)
    (hfam : Family k.pcbs.Allocated E k.children k.childPcb k.parent Z) (hw : k.pcbs.Allocated w)
    (hx : x ∈ k.children w) (hxc : k.childPcb x = c) (hZ : k.zombies.Nodup) :
    (∀ y ∈ t.children w, t.childPcb y ≠ c) ∧ c ∉ t.zombieList ∧ ¬ t.pcbAllocator.Allocated c := by
  have hch : t.children = (k.release w x c).children := congrArg Kin.children hk
  have hcp : t.childPcb = k.childPcb := congrArg Kin.childPcb hk
  have hzl : t.zombieList = (k.release w x c).zombies := congrArg Kin.zombies hk
  have hal : t.pcbAllocator = (k.release w x c).pcbs := congrArg Kin.pcbs hk
  rw [hch,hcp,hzl,hal]
  exact Kin.release_gone hfam hw hx hxc hZ

/-- Whatever a step reports is a completed wait. -/
theorem KinMove.completion (h : Inv s) (hs : s.kin.ValuesExited s.history) (hm : KinMove s a t)
    (hes : t.history = es ++ s.history) (hmem : .reaped w c pid v ∈ es) :
    Completion s t w c pid v := by
  have hquiet : ¬ Quiet Event.ofKin s t := fun hn => hn.not_mem hes rfl hmem
  cases hm with
  | other _ _ _ hn => exact absurd hn hquiet
  | create _ _ _ _ _ _ hn => exact absurd hn hquiet
  | noChild _ _ _ _ hn => exact absurd hn hquiet
  | block _ _ _ _ _ _ _ hn => exact absurd hn hquiet
  | restart _ _ _ _ hn => exact absurd hn hquiet
  | @reap args r x t hr hx hz hk hw hargs ht hh =>
    have hrA := h.running_allocated hr
    have hxm := awaitedEntry_mem (s := s.enterTrap r dsosCallWait args) hx
    have hc := h.family.childAllocated r hrA x hxm
    obtain rfl : es = [_,_] := List.append_cancel_right (hes.symm.trans hh)
    simp only [List.mem_cons,List.not_mem_nil,or_false,reduceCtorEq,Event.reaped.injEq] at hmem
    obtain ⟨rfl,rfl,rfl,rfl⟩ := hmem
    obtain ⟨hoff,hoffZ,hfree⟩ := gone_of_release hk h.family hrA hxm rfl h.placement.zombieNodup
    refine ⟨ht,rfl,?_,⟨x,hxm,rfl⟩,hoff,hoffZ,hfree⟩
    rw [hh]
    have hev := hs _ ((h.placement.mem_zombie_iff hc).mpr hz)
    exact List.mem_cons_of_mem _ (List.mem_cons_of_mem _ hev)
  | @collect args r i p x v' t hr hi hir hp hv hin hsat hx hxr hk hw hout ht hh =>
    obtain ⟨hfam,_⟩ := h.family_handedOver hr hi hir
    have hpA := h.placement.allocated_waiting hin.1
    have hpr : p ≠ r := by
      rintro rfl
      exact not_inWait_running h hr hin
    have hZ : (s.kin.exit i r v').zombies.Nodup :=
      nodup_listAppend h.placement.zombieNodup (h.not_zombie_running hr)
    obtain rfl : es = [_,_,_] := List.append_cancel_right (hes.symm.trans hh)
    simp only [List.mem_cons,List.not_mem_nil,or_false,reduceCtorEq,Event.reaped.injEq] at hmem
    obtain ⟨rfl,rfl,rfl,rfl⟩ := hmem
    obtain ⟨hoff,hoffZ,hfree⟩ := gone_of_release hk hfam hpA hx hxr hZ
    refine ⟨ht,rfl,?_,?_,hoff,hoffZ,hfree⟩
    · rw [hh]
      exact List.mem_cons_of_mem _ List.mem_cons_self
    · exact (h.family.exists_mem_handedOver (h.running_allocated hr) hpr).mp ⟨x,hx,hxr⟩
  | @replace args r i p v' t hr hi hir hp hv hsat hk hw hh =>
    obtain rfl : es = [_,_] := List.append_cancel_right (hes.symm.trans hh)
    simp at hmem

/-- The process `p` with the identifier `pid` makes a call. -/
structure Calls (s : Kernel) (p : ℕ) (pid num : ℤ) (args : List ℤ) (t : Kernel) : Prop where
  running : s.running = some p
  samePid : s.pid p = pid
  step : s.step (.call num args) = .ok t

/-- From `s` on, `p` waits for its child `c`, and later `c` exits with `v`. -/
def WaitThenExit (s t : Kernel) (p c : ℕ) (v result : ℤ) : Prop :=
  ∃ s₁ t₁ s₂, Transitions.Later system s s₁ ∧
    Calls s₁ p (s.pid p) dsosCallWait [s.pid c,result] t₁ ∧ Transitions.Later system t₁ s₂ ∧
    Calls s₂ c (s.pid c) dsosCallExit [v] t

/-- From `s` on, `c` exits with `v`, and later `p` waits for `c`, which is still there. -/
def ExitThenWait (s t : Kernel) (p c : ℕ) (v result : ℤ) : Prop :=
  ∃ s₁ t₁ s₂, Transitions.Later system s s₁ ∧ Calls s₁ c (s.pid c) dsosCallExit [v] t₁ ∧
    Transitions.Later system t₁ s₂ ∧ s₂.kin.Lives c (s.pid c) ∧
    Calls s₂ p (s.pid p) dsosCallWait [s.pid c,result] t

theorem awaitedEntry_child (h : Inv s) (hr : s.running = some r) {x : ℕ}
    (hx : s.awaitedEntry r = some x) (harg : s.syscallArgs r 0 = pid) (hpos : pid ≠ 0)
    (hc : s.kin.HasChild r c) (hpid : s.pid c = pid) : s.childPcb x = c := by
  have hrA := h.running_allocated hr
  obtain ⟨⟨y,hy,rfl⟩,_⟩ := hc
  have hcases := awaitedEntry_cases hx
  rw [harg] at hcases
  rcases hcases with ⟨hx',hstop⟩ | ⟨hnone,_⟩
  · rcases stopsScan_iff.mp hstop with ⟨h0,_⟩ | ⟨_,hsame⟩
    · exact absurd h0 hpos
    · exact h.identity.injective _ _ (h.family.childAllocated r hrA x hx')
        (h.family.childAllocated r hrA y hy) (hsame.trans hpid.symm)
  · exact absurd (stopsScan_iff.mpr (Or.inr ⟨hpos,hpid⟩)) (hnone y hy)

theorem Calls.kin {num : ℤ} {args : List ℤ} (hs : Reachable s) (hc : Calls s p pid num args t) :
    KinMove s (.call num args) t := (step_moves hs.inv hc.step).kin hs.inv

theorem Calls.reachable {num : ℤ} {args : List ℤ} (hs : Reachable s)
    (hc : Calls s p pid num args t) : Reachable t := hs.step trivial hc.step

theorem Calls.alive {num : ℤ} {args : List ℤ} (hs : Reachable s)
    (hc : Calls s p pid num args t) : s.kin.Alive p pid :=
  ⟨⟨hs.inv.running_allocated hc.running,hc.samePid⟩,hs.inv.not_zombie_running hc.running⟩

section Wait
variable {k kp result : ℤ} (hs : Reachable s) (hcall : Calls s p kp dsosCallWait [k,result] t)
  (hpos : k ≠ 0) (hc : s.kin.HasChild p c) (hpid : s.pid c = k)
include hs hcall hpos hc hpid

/-- The three ways in which a wait for a child can go are two. -/
theorem wait_cases :
    (c ∈ s.zombieList ∧ t.Told p k (s.returnValue c) ∧ t.syscallArgs p 1 = result) ∨
      c ∉ s.zombieList ∧ t.InWait p ∧ t.syscallArgs p 0 = k ∧ t.syscallArgs p 1 = result := by
  have h := hs.inv
  have hr := hcall.running
  have harg0 : (s.enterTrap p dsosCallWait [k,result]).syscallArgs p 0 = k :=
    syscallArgs_enterTrap (by decide)
  have harg1 : (s.enterTrap p dsosCallWait [k,result]).syscallArgs p 1 = result :=
    syscallArgs_enterTrap (by decide)
  obtain ⟨⟨y,hy,hyc⟩,hpar⟩ := hc
  have hcA : s.pcbAllocator.Allocated c :=
    hyc ▸ h.family.childAllocated p (h.running_allocated hr) y hy
  have hentry : ∀ x, (s.enterTrap p dsosCallWait [k,result]).awaitedEntry p = some x →
      s.childPcb x = c := by
    intro x hx
    exact awaitedEntry_child (h.enterTrap hr dsosCallWait [k,result]) hr hx harg0 hpos
      ⟨⟨y,hy,hyc⟩,hpar⟩ hpid
  cases hcall.kin hs with
  | other ha => cases ha
  | create ha => cases ha
  | noChild hr' hnil =>
    cases hr.symm.trans hr'
    have hy' : y ∈ s.children p := hy
    rw [hnil] at hy'
    cases hy'
  | @reap _ r x _ hr' hx hz hk hw hargs ht =>
    cases hr.symm.trans hr'
    have hxc := hentry x hx
    rw [hxc] at hz ht
    rw [hpid] at ht
    exact Or.inl ⟨(h.placement.mem_zombie_iff hcA).mpr hz,ht,(congrFun hargs 1).trans harg1⟩
  | @block _ r x _ hr' hx hz hk hw hin hargs =>
    cases hr.symm.trans hr'
    rw [hentry x hx] at hz
    exact Or.inr ⟨fun hcz => hz ((h.placement.mem_zombie_iff hcA).mp hcz),hin,
      (congrFun hargs 0).trans harg0,(congrFun hargs 1).trans harg1⟩

end Wait

theorem exit_cases {k : ℤ} (hs : Reachable s) (hcall : Calls s c k dsosCallExit [v] t)
    (hpar : s.parent c = some p) :
    (s.InWait p ∧ t.Told p k v ∧ t.syscallArgs p = s.syscallArgs p ∧
        ¬ t.pcbAllocator.Allocated c) ∨
      ¬ (s.InWait p ∧ (s.syscallArgs p 0 = 0 ∨ s.syscallArgs p 0 = k)) ∧ c ∈ t.kin.zombies ∧
        t.kin.returnValue c = v := by
  have h := hs.inv
  have hr := hcall.running
  have hvalue : (s.enterTrap c dsosCallExit [v]).syscallArgs c 0 = v :=
    syscallArgs_enterTrap (by decide)
  cases hcall.kin hs with
  | other ha => cases ha
  | create ha => cases ha
  | @collect _ r i q x v' t hr' hi hir hq hv hin hsat hx hxr hk hw hout ht hh =>
    cases hr.symm.trans hr'
    cases Option.some.inj (hpar.symm.trans hq)
    rw [hvalue] at hv
    subst hv
    rw [hcall.samePid] at ht
    refine Or.inl ⟨hin,ht,hw.args p hin,?_⟩
    have hal : t.pcbAllocator = s.pcbAllocator.releaseBlock c := congrArg Kin.pcbs hk
    rw [hal]
    exact fun hm => absurd rfl ((Pool.allocated_releaseBlock (h.running_allocated hr) c).mp hm).1
  | @replace _ r i q v' t hr' hi hir hq hv hsat hk =>
    cases hr.symm.trans hr'
    cases Option.some.inj (hpar.symm.trans hq)
    rw [hvalue] at hv
    subst hv
    rw [hcall.samePid] at hsat
    rw [hk]
    exact Or.inr ⟨hsat,mem_listAppend.mpr (Or.inr rfl),Function.update_self _ _ _⟩

section Order
variable {result : ℤ} (hs : Reachable s) (hp : s.pcbAllocator.Allocated p) (hc : s.kin.HasChild p c)
include hs hp hc

theorem hasChild_pids : s.pid p < s.lastPid ∧ s.pid c < s.lastPid ∧ s.pid c ≠ 0 := by
  have h := hs.inv
  obtain ⟨⟨x,hx,rfl⟩,hpar⟩ := hc
  have hcA := h.family.childAllocated p hp x hx
  have hpos := h.identity.childPositive _ hcA (by
    have hpar' : s.parent (s.childPcb x) = some p := hpar
    rw [hpar']
    exact Option.some_ne_none p)
  exact ⟨h.identity.below p hp,h.identity.below _ hcA,Int.ne_of_gt hpos⟩

theorem waitThenExit_reports (hrun : WaitThenExit s t p c v result) :
    t.Told p (s.pid c) v ∧ t.syscallArgs p 1 = result := by
  obtain ⟨s₁,t₁,s₂,hl₁,hw,hl₂,he⟩ := hrun
  obtain ⟨hkp,hkc,hpos⟩ := hasChild_pids hs hp hc
  have hs₁ : Reachable s₁ := hl₁.reach hs
  have ht₁ := hw.reachable hs₁
  have hs₂ : Reachable s₂ := hl₂.reach ht₁
  have hkc₁ := lastPid_later hl₁ hs hkc
  have hkct := Int.lt_of_lt_of_le hkc₁ (hw.kin hs₁).lastPid_le
  -- the child runs when it exits, so it was alive all the time
  have hc₂ := he.alive hs₂
  have hct := alive_of_later hl₂ ht₁ hkct hc₂
  have hc₁ := (hw.kin hs₁).alive_back hs₁.inv hkc₁ hct
  have hchild₁ := hasChild_later hl₁ hs hkp hkc (hw.alive hs₁) hc₁.1 hc
  rcases wait_cases hs₁ hw hpos hchild₁ hc₁.1.2 with ⟨hz,_⟩ | ⟨_,hin,harg0,harg1⟩
  · exact absurd hz hc₁.2
  · obtain ⟨hin₂,hargs₂⟩ := inWait_later hl₂ ht₁ hkct hpos hc₂.1 hin harg0
    have hpar₂ : s₂.parent c = some p := (parent_later hl₂ ht₁ hkct hc₂.1).trans
      (((hw.kin hs₁).parent hs₁.inv hkc₁ hct.1).trans hchild₁.2)
    have harg₂ : s₂.syscallArgs p 0 = s.pid c := (congrFun hargs₂ 0).trans harg0
    rcases exit_cases hs₂ he hpar₂ with ⟨_,htold,hargs,_⟩ | ⟨hsat,_⟩
    · exact ⟨htold,(congrFun hargs 1).trans ((congrFun hargs₂ 1).trans harg1)⟩
    · exact absurd ⟨hin₂,Or.inr harg₂⟩ hsat

theorem exitThenWait_reports (hrun : ExitThenWait s t p c v result) :
    t.Told p (s.pid c) v ∧ t.syscallArgs p 1 = result := by
  obtain ⟨s₁,t₁,s₂,hl₁,he,hl₂,hc₂,hw⟩ := hrun
  obtain ⟨hkp,hkc,hpos⟩ := hasChild_pids hs hp hc
  have hs₁ : Reachable s₁ := hl₁.reach hs
  have ht₁ := he.reachable hs₁
  have hs₂ : Reachable s₂ := hl₂.reach ht₁
  have hm₁ := he.kin hs₁
  have hkc₁ := lastPid_later hl₁ hs hkc
  have hkp₁ := lastPid_later hl₁ hs hkp
  have hkct := Int.lt_of_lt_of_le hkc₁ hm₁.lastPid_le
  have hkpt := Int.lt_of_lt_of_le hkp₁ hm₁.lastPid_le
  -- the parent runs when it waits, so it was alive all the time
  have hp₂ := hw.alive hs₂
  have hpt := alive_of_later hl₂ ht₁ hkpt hp₂
  have hp₁ := hm₁.alive_back hs₁.inv hkp₁ hpt
  have hct := lives_of_later hl₂ ht₁ hkct hc₂
  have hchild₁ := hasChild_later hl₁ hs hkp hkc hp₁ (he.alive hs₁).1 hc
  have hchildt := hm₁.hasChild hs₁.inv hkp₁ hkc₁ hpt hct hchild₁
  have hchild₂ := hasChild_later hl₂ ht₁ hkpt hkct hp₂ hc₂ hchildt
  rcases exit_cases hs₁ he hchild₁.2 with ⟨_,_,_,hfree⟩ | ⟨_,hz,hval⟩
  · exact absurd hct.1 hfree
  · obtain ⟨hz₂,hval₂⟩ := zombie_later hl₂ ht₁ hkct hc₂ hz
    rcases wait_cases hs₂ hw hpos hchild₂ hc₂.2 with ⟨_,htold,harg⟩ | ⟨hnot,_⟩
    · have hv : s₂.returnValue c = v := hval₂.trans hval
      rw [hv] at htold
      exact ⟨htold,harg⟩
    · exact absurd hz₂ hnot

end Order

end Kernel

/-- Every completed wait reports the identifier and the exit argument of one process,
which was a child of the waiter and is gone afterwards; no process is reported twice;
and whether a parent waits for a child before or after the child exits, it gets the
same identifier and value. -/
theorem exit_status_once {s : Kernel} (hs : Reachable s) :
    (∀ a t es w c pid v, s.step a = .ok t → t.history = es ++ s.history →
      .reaped w c pid v ∈ es → Kernel.Completion s t w c pid v) ∧
    (reapedPids s.history).Nodup ∧
    ∀ t p c v result, s.pcbAllocator.Allocated p → s.kin.HasChild p c → result ≠ 0 →
      Kernel.WaitThenExit s t p c v result ∨ Kernel.ExitThenWait s t p c v result →
        (t.syscallRetvalue p,t.ints result) = (s.pid c,v) := by
  have hrun : s.kin.ValuesExited s.history ∧ s.kin.ReapedOnce s.history := by
    apply Reachable.induction (P := fun s => s.kin.ValuesExited s.history ∧
      s.kin.ReapedOnce s.history) _ _ hs
    · intro function args logFile chars ints s hok
      obtain ⟨p,pool,_,hsw⟩ := Kernel.startFirstProcess_ok hok
      have hnil : s.history = [] := hsw.history
      rw [hnil,hsw.kin,Kernel.kin_withInit]
      refine ⟨fun d hd => (by cases hd),?_,?_,?_⟩
      · exact List.nodup_nil
      · exact fun pid hpid => (by cases hpid)
      · exact fun pid hpid => (by cases hpid)
    · intro s a t h hrun hstep
      have hm := (Kernel.step_moves h hstep).kin h
      exact ⟨hm.valuesExited h hrun.1,hm.reapedOnce h hrun.2⟩
  refine ⟨?_,hrun.2.nodup,?_⟩
  · intro a t es w c pid v hstep hes hmem
    exact ((Kernel.step_moves hs.inv hstep).kin hs.inv).completion hs.inv hrun.1 hes hmem
  · intro t p c v result hp hc hres horder
    have htold : t.Told p (s.pid c) v ∧ t.syscallArgs p 1 = result := by
      rcases horder with hwait | hexit
      · exact Kernel.waitThenExit_reports hs hp hc hwait
      · exact Kernel.exitThenWait_reports hs hp hc hexit
    obtain ⟨htold,harg⟩ := htold
    have hint := htold.result
    rw [harg] at hint
    rw [htold.retvalue,hint hres]

/-- The child exits with 7, and then init waits for it. -/
theorem exit_status_once_run : ∃ s t : Kernel, Reachable s ∧ Kernel.ExitThenWait s t 0 1 7 100 ∧
    reapedPids t.history = [1] ∧ (reapedPids s.history).Nodup ∧
      (t.syscallRetvalue 0,t.ints 100) = (s.pid 1,7) := by
  obtain ⟨s,hs,hcheck⟩ := exists_run Transitions.unguarded [.call 5 [1,0],.ret,.tick]
    (fun s => s.running = some 1 && s.pid 0 = 0 && s.pid 1 = 1 && s.children 0 = [0] &&
      s.childPcb 0 = 1 && s.parent 1 = some 0 && decide (s.pcbAllocator.Allocated 0) &&
      s.after (.call dsosCallExit [7]) (fun t₁ => t₁.running = some 0 && t₁.pid 0 = 0 &&
        t₁.pid 1 = 1 && decide (t₁.pcbAllocator.Allocated 1) &&
        t₁.after (.call dsosCallWait [1,100]) (fun t => reapedPids t.history = [1]))) (by decide)
  simp only [Bool.and_eq_true,decide_eq_true_eq] at hcheck
  obtain ⟨⟨⟨⟨⟨⟨⟨hr,hp0⟩,hp1⟩,hch⟩,hcp⟩,hpar⟩,hal⟩,hafter⟩ := hcheck
  obtain ⟨t₁,hexit,hafter⟩ := Kernel.after_eq_true hafter
  simp only [Bool.and_eq_true,decide_eq_true_eq] at hafter
  obtain ⟨⟨⟨⟨hr₁,hq0⟩,hq1⟩,hal₁⟩,hafter⟩ := hafter
  obtain ⟨t,hwait,hreaped⟩ := Kernel.after_eq_true hafter
  rw [decide_eq_true_eq] at hreaped
  have horder : Kernel.ExitThenWait s t 0 1 7 100 := by
    refine ⟨s,t₁,t₁,.refl,⟨hr,rfl,hexit⟩,.refl,⟨hal₁,hq1.trans hp1.symm⟩,hr₁,hq0.trans hp0.symm,?_⟩
    rwa [hp1]
  have hchild : s.kin.HasChild 0 1 := by
    refine ⟨⟨0,?_,hcp⟩,hpar⟩
    change 0 ∈ s.children 0
    rw [hch]
    exact List.mem_cons_self
  obtain ⟨_,hnodup,hpair⟩ := exit_status_once hs
  exact ⟨s,t,hs,horder,hreaped,hnodup,
    hpair t 0 1 7 100 hal hchild (by decide) (Or.inr horder)⟩

end DisastrOS
