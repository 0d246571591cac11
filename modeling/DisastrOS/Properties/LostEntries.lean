import DisastrOS.Properties.ChildPointers

/-! # How many entries are lost

Every exit that wakes a waiting parent loses the entry of the process for good. A run can have only
as many of them as there are entries; behind the last one no process is created any more.
-/
namespace DisastrOS

/-- An entry that is handed out and on no list of an existing process. -/
def Lost (allocated entryAllocated : ℕ → Prop) (children : ℕ → List ℕ) (x : ℕ) : Prop :=
  entryAllocated x ∧ ∀ q, allocated q → x ∉ children q

namespace Lost
variable {A A' E E' : ℕ → Prop} {ch : ℕ → List ℕ} {c : ℕ → ℕ} {par : ℕ → Option ℕ}
variable {Z : List ℕ} {i p q r x y d : ℕ}

theorem initProcess (hp : ¬ A p) (hA : ∀ q, A' q ↔ q = p ∨ A q) :
    Lost A' E (Function.update ch p []) y ↔ Lost A E ch y := by
  refine and_congr_right fun _ => ?_
  constructor
  · intro h q hq
    have hqp : q ≠ p := by
      rintro rfl
      exact hp hq
    have hlost := h q ((hA q).mpr (Or.inr hq))
    rwa [Function.update_of_ne hqp] at hlost
  · intro h q hq
    by_cases hqp : q = p
    · subst hqp
      simp
    · rw [Function.update_of_ne hqp]
      exact h q (((hA q).mp hq).resolve_left hqp)

theorem append (hr : A r) (hx : ¬ E x) (hE : ∀ y, E' y ↔ y = x ∨ E y) :
    Lost A E' (Function.update ch r (listAppend (ch r) x)) y ↔ Lost A E ch y := by
  have hlist : ∀ q, y ≠ x →
      (y ∈ Function.update ch r (listAppend (ch r) x) q ↔ y ∈ ch q) := by
    intro q hyx
    by_cases hqr : q = r
    · subst hqr
      rw [Function.update_self,mem_listAppend]
      exact or_iff_left hyx
    · rw [Function.update_of_ne hqr]
  constructor
  · rintro ⟨hy,h⟩
    have hyx : y ≠ x := by
      rintro rfl
      refine h r hr ?_
      rw [Function.update_self]
      exact mem_listAppend.mpr (Or.inr rfl)
    exact ⟨((hE y).mp hy).resolve_left hyx,fun q hq hmem => h q hq ((hlist q hyx).mpr hmem)⟩
  · rintro ⟨hy,h⟩
    have hyx : y ≠ x := by
      rintro rfl
      exact hx hy
    exact ⟨(hE y).mpr (Or.inr hy),fun q hq hmem => h q hq ((hlist q hyx).mp hmem)⟩

theorem handOver (hi : A i) (hr : A r) (hir : i ≠ r ∨ ch r = []) :
    Lost A E (handedOver ch i r) y ↔ Lost A E ch y := by
  refine and_congr_right fun _ => ?_
  rcases hir with hir | hnil
  · have hnone : handedOver ch i r r = [] := by
      unfold handedOver
      rw [Function.update_of_ne hir.symm,Function.update_self]
    constructor
    · intro h q hq hmem
      by_cases hqr : q = r
      · subst hqr
        exact h i hi ((mem_handedOver hir).mpr (Or.inr ⟨rfl,hmem⟩))
      · exact h q hq ((mem_handedOver hqr).mpr (Or.inl hmem))
    · intro h q hq hmem
      by_cases hqr : q = r
      · subst hqr
        rw [hnone] at hmem
        cases hmem
      · rcases (mem_handedOver hqr).mp hmem with hmem | ⟨_,hmem⟩
        · exact h q hq hmem
        · exact h r hr hmem
  · rw [handedOver_nil hnil]

/-- What is on the lists when an entry is off its list and a process without children is gone. -/
theorem mem_erased (hfam : Family A E ch c par Z) (hq : A q) (hx : x ∈ ch q) (hd : ch d = [])
    (hA : ∀ o, A' o ↔ o ≠ d ∧ A o) :
    (∃ o, A' o ∧ y ∈ Function.update ch q ((ch q).erase x) o) ↔
      y ≠ x ∧ ∃ o, A o ∧ y ∈ ch o := by
  have hlist : ∀ o, A o → (y ∈ Function.update ch q ((ch q).erase x) o ↔ y ≠ x ∧ y ∈ ch o) := by
    intro o ho
    by_cases hoq : o = q
    · subst hoq
      rw [Function.update_self,(hfam.nodup o hq).mem_erase_iff]
    · rw [Function.update_of_ne hoq]
      refine (and_iff_right_of_imp fun hmem => ?_).symm
      rintro rfl
      exact hoq (hfam.unique o q ho hq y hmem y hx rfl).1
  constructor
  · rintro ⟨o,ho,hmem⟩
    obtain ⟨hyx,hmem⟩ := (hlist o ((hA o).mp ho).2).mp hmem
    exact ⟨hyx,o,((hA o).mp ho).2,hmem⟩
  · rintro ⟨hyx,o,ho,hmem⟩
    have hod : o ≠ d := by
      rintro rfl
      rw [hd] at hmem
      cases hmem
    exact ⟨o,(hA o).mpr ⟨hod,ho⟩,(hlist o ho).mpr ⟨hyx,hmem⟩⟩

theorem iff_not_exists : Lost A E ch y ↔ E y ∧ ¬ ∃ q, A q ∧ y ∈ ch q := by
  simp only [Lost,not_exists,not_and]

theorem collect (hfam : Family A E ch c par Z) (hq : A q) (hx : x ∈ ch q) (hd : ch d = [])
    (hA : ∀ o, A' o ↔ o ≠ d ∧ A o) (hE : ∀ y, E' y ↔ y ≠ x ∧ E y) :
    Lost A' E' (Function.update ch q ((ch q).erase x)) y ↔ Lost A E ch y := by
  rw [iff_not_exists,iff_not_exists,mem_erased hfam hq hx hd hA,hE]
  constructor
  · rintro ⟨⟨hyx,hy⟩,h⟩
    exact ⟨hy,fun hmem => h ⟨hyx,hmem⟩⟩
  · rintro ⟨hy,h⟩
    refine ⟨⟨?_,hy⟩,fun hmem => h hmem.2⟩
    rintro rfl
    exact h ⟨q,hq,hx⟩

/-- An exit that wakes the parent frees the child alone. -/
theorem leak (hfam : Family A E ch c par Z) (hq : A q) (hx : x ∈ ch q) (hd : ch d = [])
    (hA : ∀ o, A' o ↔ o ≠ d ∧ A o) :
    Lost A' E (Function.update ch q ((ch q).erase x)) y ↔ y = x ∨ Lost A E ch y := by
  have hxE := hfam.entry q hq x hx
  rw [iff_not_exists,iff_not_exists,mem_erased hfam hq hx hd hA]
  constructor
  · rintro ⟨hy,h⟩
    by_cases hyx : y = x
    · exact Or.inl hyx
    · exact Or.inr ⟨hy,fun hmem => h ⟨hyx,hmem⟩⟩
  · rintro (rfl | ⟨hy,h⟩)
    · exact ⟨hxE,fun hmem => hmem.1 rfl⟩
    · exact ⟨hy,fun hmem => h hmem.2⟩

end Lost

namespace Kernel

def EntryLost (s : Kernel) : ℕ → Prop :=
  Lost s.pcbAllocator.Allocated s.pcbPtrAllocator.Allocated s.children

/-- The lost entries. -/
def lost (s : Kernel) : Finset ℕ :=
  s.pcbPtrAllocator.used \ s.pcbAllocator.used.biUnion (fun q => (s.children q).toFinset)

/-- One more entry is lost if this holds, and none otherwise. -/
def Loses (s t : Kernel) (P : Prop) : Prop :=
  ∃ o : Option ℕ, (o.isSome ↔ P) ∧ (∀ x ∈ o, ¬ s.EntryLost x) ∧
    ∀ y, t.EntryLost y ↔ y ∈ o ∨ s.EntryLost y

variable {s t v : Kernel} {r : ℕ} {c : Syscall} {a : Action} {P : Prop}

theorem mem_lost {x : ℕ} : x ∈ s.lost ↔ s.EntryLost x := by
  unfold lost EntryLost
  rw [Finset.mem_sdiff,Pool.mem_used,Finset.mem_biUnion,Lost.iff_not_exists]
  simp only [Pool.mem_used,List.mem_toFinset]

theorem card_entries (h : Inv s) : s.pcbPtrAllocator.used.card =
    ∑ q ∈ s.pcbAllocator.used, (s.children q).length + s.lost.card := by
  have hsub := h.family.entries_subset
  rw [← h.family.card_entries,add_comm]
  exact (Finset.card_sdiff_add_card_eq_card hsub).symm

theorem loses_none (h : ∀ y, t.EntryLost y ↔ s.EntryLost y) (hP : ¬ P) : Loses s t P :=
  ⟨none,by simp [hP],by simp,by simpa using h⟩

theorem SameEntries.lost (h : SameEntries s t) (y : ℕ) : t.EntryLost y ↔ s.EntryLost y := by
  unfold EntryLost
  rw [h.pcbs,h.entries,h.children]

theorem Loses.card (h : Loses s t P) [Decidable P] :
    t.lost.card = s.lost.card + (decide P).toNat := by
  obtain ⟨o,ho,hnew,hiff⟩ := h
  cases o with
  | none =>
    have hP : ¬ P := by simpa using ho
    have hlost : t.lost = s.lost := by
      ext y
      rw [mem_lost,mem_lost,hiff]
      simp
    rw [hlost,decide_eq_false hP,Bool.toNat_false,add_zero]
  | some x =>
    have hP : P := by simpa using ho
    have hlost : t.lost = insert x s.lost := by
      ext y
      rw [Finset.mem_insert,mem_lost,mem_lost,hiff,Option.mem_some_iff,eq_comm]
    have hx : x ∉ s.lost := by
      rw [mem_lost]
      exact hnew x rfl
    rw [hlost,Finset.card_insert_of_notMem hx,decide_eq_true hP,Bool.toNat_true]

/-- A handler loses an entry exactly if it is that of an exit and wakes the parent. -/
theorem Effect.loses (h : Inv s) (hr : s.running = some r) (he : Effect s r c t) :
    Loses s t (c = .exit ∧ ∃ p, s.parent r = some p ∧ s.wakesParent r p) := by
  have hrA := h.running_allocated hr
  have hsame : SameEntries s t → c ≠ .exit → Loses s t (c = .exit ∧ ∃ p, s.parent r = some p ∧
      s.wakesParent r p) := fun hsame hc => loses_none hsame.lost fun hP => hc hP.1
  have hiA : ∀ {i}, s.initPcb = some i → s.pcbAllocator.Allocated i := by
    intro i hi
    obtain ⟨j,hj,hjA,_⟩ := h.hasInit
    cases Option.some.inj (hj.symm.trans hi)
    exact hjA
  cases he with
  | preempt hsched => exact hsame hsched.sameEntries nofun
  | fork hb hx =>
    obtain ⟨hfree,_,hal⟩ := Pool.getBlock_eq_some hb
    obtain ⟨hxfree,_,hxal⟩ := Pool.getBlock_eq_some hx
    refine loses_none (fun y => ?_) nofun
    exact (Lost.append ((hal r).mpr (Or.inr hrA)) hxfree hxal).trans (Lost.initProcess hfree hal)
  | spawn hb hx =>
    obtain ⟨hfree,_,hal⟩ := Pool.getBlock_eq_some hb
    obtain ⟨hxfree,_,hxal⟩ := Pool.getBlock_eq_some hx
    refine loses_none (fun y => ?_) nofun
    exact (Lost.append ((hal r).mpr (Or.inr hrA)) hxfree hxal).trans (Lost.initProcess hfree hal)
  | @reap x hx hz =>
    have hxm := awaitedEntry_mem hx
    have hcA := h.family.childAllocated r hrA x hxm
    have hnil := h.family.zombieChildren _ hcA ((h.placement.mem_zombie_iff hcA).mpr hz)
    refine loses_none (fun y => ?_) nofun
    exact Lost.collect h.family hrA hxm hnil (Pool.allocated_releaseBlock hcA)
      (Pool.allocated_releaseBlock (h.family.entry r hrA x hxm))
  | @collect i p x L M hi hir hp hwakes hx hxr =>
    obtain ⟨hfam,hnil⟩ := h.family_handedOver hr hi hir
    have hpA := h.placement.allocated_waiting (mem_waiting_of_wakesParent h hwakes).1
    refine ⟨some x,iff_of_true rfl ⟨rfl,p,hp,hwakes⟩,?_,?_⟩
    · rintro y ⟨⟩ hlost
      exact ((Lost.handOver (hiA hi) hrA hir).mpr hlost).2 p hpA hx
    · intro y
      rw [Option.mem_some_iff,eq_comm]
      exact (Lost.leak hfam hpA hx hnil (Pool.allocated_releaseBlock hrA)).trans
        (or_congr_right (Lost.handOver (hiA hi) hrA hir))
  | @replace i p next rest hi hir hp hwakes =>
    refine loses_none (fun y => Lost.handOver (hiA hi) hrA hir) ?_
    rintro ⟨_,q,hq,hqwakes⟩
    cases Option.some.inj (hp.symm.trans hq)
    exact hwakes hqwakes
  | sleep hslept =>
    obtain ⟨⟩ := hslept
    exact hsame ⟨rfl,rfl,rfl⟩ nofun
  | sleepNext hslept =>
    obtain ⟨⟩ := hslept
    exact hsame ⟨rfl,rfl,rfl⟩ nofun
  | resource hc => exact hsame ⟨rfl,rfl,rfl⟩ (by rcases hc with rfl | rfl | rfl <;> nofun)
  | queue hc => exact hsame ⟨rfl,rfl,rfl⟩ (by rcases hc with rfl | rfl <;> nofun)
  | sendBlocks _ hslept =>
    obtain ⟨⟩ := hslept
    exact hsame ⟨rfl,rfl,rfl⟩ nofun
  | receiveBlocks _ _ hslept =>
    obtain ⟨⟩ := hslept
    exact hsame ⟨rfl,rfl,rfl⟩ nofun
  | _ => exact hsame ⟨rfl,rfl,rfl⟩ nofun

/-- A step loses an entry exactly if it does not keep to the guard. -/
theorem Moves.loses (h : Inv s) (hm : Moves s a t) : Loses s t (¬ s.KeepsEntries a) := by
  have hkeeps : SameEntries s t → s.KeepsEntries a → Loses s t (¬ s.KeepsEntries a) :=
    fun hsame hkeep => loses_none hsame.lost (not_not.mpr hkeep)
  have hcongr : ∀ {w Q}, SameEntries w t → Loses s w Q → (Q ↔ ¬ s.KeepsEntries a) →
      Loses s t (¬ s.KeepsEntries a) := by
    rintro w Q hsame ⟨o,ho,hnew,hiff⟩ hQ
    exact ⟨o,ho.trans hQ,hnew,fun y => (hsame.lost y).trans (hiff y)⟩
  cases hm with
  | @tick r v t hr hdown hsched hsw =>
    have hnone : Loses s v False := loses_none hsched.sameEntries.lost not_false
    exact hcongr hsw.sameEntries hnone (by simp [KeepsEntries])
  | refused hr hcpu hnum =>
    refine hkeeps ⟨rfl,rfl,rfl⟩ ?_
    rintro rfl
    exact absurd hnum (by decide)
  | @missing r num args t hr hdown hcpu hnum hc hsw =>
    refine hkeeps ⟨hsw.sameEntries.pcbs,hsw.sameEntries.entries,hsw.sameEntries.children⟩ ?_
    rintro rfl
    cases hc
  | @handled r num args c v t hr hdown hcpu hnum hc he hsw =>
    have hloses := he.loses (h.enterTrap hr num args) hr
    refine hcongr hsw.sameEntries hloses ?_
    have hnum := syscallVector_eq_some hc
    have hexit : c = .exit ↔ num = dsosCallExit := by
      rw [hnum]
      cases c <;> decide
    simp only [KeepsEntries,Classical.not_imp,not_forall,not_not,hexit]
    refine and_congr_right fun _ => ?_
    constructor
    · rintro ⟨p,hp,hwakes⟩
      exact ⟨r,hr,p,hp,(wakesParent_iff h hr).mp hwakes⟩
    · rintro ⟨q,hq,p,hp,hwaits⟩
      cases Option.some.inj (hr.symm.trans hq)
      exact ⟨p,hp,(wakesParent_iff h hr).mpr hwaits⟩
  | ret => exact hkeeps ⟨rfl,rfl,rfl⟩ trivial
  | store => exact hkeeps ⟨rfl,rfl,rfl⟩ trivial
  | @resumeMain p pool t hr hdown hb hsw =>
    obtain ⟨hfree,_,hal⟩ := Pool.getBlock_eq_some hb
    have hnone : Loses s (s.withInit p pool) False :=
      loses_none (fun y => Lost.initProcess hfree hal) not_false
    exact hcongr hsw.sameEntries hnone (by simp [KeepsEntries])

theorem disastrOSStart_lost {function args : ℤ} {logFile : Bool} {chars : ℤ → UInt8}
    {ints : ℤ → ℤ} (hok : disastrOSStart function args logFile chars ints = .ok s) (x : ℕ) :
    ¬ s.EntryLost x := by
  rintro ⟨hx,hnone⟩
  obtain ⟨q,hq,hxq⟩ := disastrOSStart_entriesOwned hok x hx
  exact hnone q hq hxq

theorem lost_eq_empty (h : ∀ x, ¬ s.EntryLost x) : s.lost = ∅ :=
  Finset.eq_empty_of_forall_notMem fun x => mem_lost.not.mpr (h x)

/-- The step is an exit that wakes the parent. -/
def wakesWaiter (e : Kernel × Action × Kernel) : Bool := decide (¬ e.1.KeepsEntries e.2.1)

/-- Without an entry there is no child. -/
theorem creates_no_child (h : Inv s) (hnone : s.pcbPtrAllocator.getBlock = none)
    (hc : c = .spawn ∨ c = .fork) (args : List ℤ) : s.step (.call c.number args) ≠ .ok t := by
  have hvector : syscallVector (c.number : ℤ).toNat = some c := by
    rcases hc with rfl | rfl <;> rfl
  intro hstep
  cases step_moves h hstep with
  | refused _ _ hnum => cases (syscallVector_of_range hnum).symm.trans hvector
  | missing _ _ _ _ hmissing => cases hmissing.symm.trans hvector
  | @handled r num args c' v t hr hdown hcpu hnum hc' he hsw =>
    cases hc'.symm.trans hvector
    rcases hc with rfl | rfl
    · cases he with
      | spawn _ hx => cases hx.symm.trans hnone
      | resource hc => simp at hc
      | queue hc => simp at hc
    · cases he with
      | fork _ hx => cases hx.symm.trans hnone
      | resource hc => simp at hc
      | queue hc => simp at hc

end Kernel

open Kernel Transitions

/-- Along every run from the start: the entries in use are those on the children lists and one for
each exit that has woken its parent. So there are at most as many such exits as entries, and when
lists and exits have used them up, no spawn and no fork succeeds. -/
theorem entries_accounted {function args : ℤ} {logFile : Bool} {chars : ℤ → UInt8}
    {ints : ℤ → ℤ} {s t : Kernel} {es : List (Kernel × Action × Kernel)}
    (hok : disastrOSStart function args logFile chars ints = .ok s) (htr : Trace system s es t) :
    t.pcbPtrAllocator.used.card =
        ∑ q ∈ t.pcbAllocator.used, (t.children q).length + es.countP wakesWaiter ∧
      ∑ q ∈ t.pcbAllocator.used, (t.children q).length + es.countP wakesWaiter ≤
        maxNumProcesses ∧
      (∑ q ∈ t.pcbAllocator.used, (t.children q).length + es.countP wakesWaiter =
          maxNumProcesses → ∀ (c : Syscall) args u, c = .spawn ∨ c = .fork →
        t.step (.call c.number args) ≠ .ok u) := by
  have hs := disastrOSStart_inv hok
  have ht : Inv t := htr.preserves (fun s a t h hstep => (step_moves h hstep).inv h) hs
  have hlost : t.lost.card = s.lost.card + es.countP wakesWaiter := by
    refine htr.countP_eq (J := Inv) (fun u => u.lost.card) wakesWaiter
      (fun s a t h hstep => (step_moves h hstep).inv h) ?_ hs
    intro s a t h hstep
    exact ((step_moves h hstep).loses h).card
  have hnone : s.lost.card = 0 := Finset.card_eq_zero.mpr (lost_eq_empty (disastrOSStart_lost hok))
  have hused : t.pcbPtrAllocator.used.card =
      ∑ q ∈ t.pcbAllocator.used, (t.children q).length + es.countP wakesWaiter := by
    rw [card_entries ht,hlost,hnone,zero_add]
  refine ⟨hused,?_,?_⟩
  · rw [← hused]
    exact t.pcbPtrAllocator.card_used_le
  · intro hfull c args u hc
    refine creates_no_child ht ?_ hc args
    rw [Pool.getBlock_eq_none_iff]
    exact hused.trans hfull

/-- The first process waits, and its child exits: its entry is in use, and on no list. -/
theorem entries_accounted_run : ∃ (s t : Kernel) (es : List (Kernel × Action × Kernel)),
    Trace system s es t ∧ es.countP wakesWaiter = 1 ∧
    t.pcbPtrAllocator.used.card = ∑ q ∈ t.pcbAllocator.used, (t.children q).length + 1 := by
  obtain ⟨s,t,es,hok,htr,hone⟩ := exists_recorded
    [.call 5 [1,0],.ret,.call 3 [0,0],.call 4 [7]]
    (fun es => es.countP wakesWaiter = 1) (by decide)
  have hone := of_decide_eq_true hone
  obtain ⟨hused,_⟩ := entries_accounted hok htr
  rw [hone] at hused
  exact ⟨s,t,es,htr,hone,hused⟩

end DisastrOS
