import Mathlib.Algebra.BigOperators.Group.Finset.Basic
import DisastrOS.Behaviour.Kinship

/-! # The entries of the children lists

An entry is taken from its pool when a child is created, and it goes back when a wait
collects the child. An exit that wakes the parent takes the entry off the list and
forgets it: such an entry is never free again. Every child can be collected all the
same, for as long as `main` does not start a second init.
-/
namespace DisastrOS

/-- Every entry that is handed out is on the children list of an existing process. -/
def EntriesOwned (allocated entryAllocated : ℕ → Prop) (children : ℕ → List ℕ) : Prop :=
  ∀ x, entryAllocated x → ∃ q, allocated q ∧ x ∈ children q

namespace EntriesOwned
variable {A A' E E' : ℕ → Prop} {ch : ℕ → List ℕ} {c : ℕ → ℕ} {par : ℕ → Option ℕ}
variable {Z : List ℕ} {i p q r x d : ℕ}

theorem initProcess (h : EntriesOwned A E ch) (hp : ¬ A p) (hA : ∀ q, A' q ↔ q = p ∨ A q) :
    EntriesOwned A' E (Function.update ch p []) := by
  intro x hx
  obtain ⟨q,hq,hxq⟩ := h x hx
  have hqp : q ≠ p := by
    rintro rfl
    exact hp hq
  refine ⟨q,(hA q).mpr (Or.inr hq),?_⟩
  rwa [Function.update_of_ne hqp]

theorem append (h : EntriesOwned A E ch) (hr : A r) (hE : ∀ y, E' y ↔ y = x ∨ E y) :
    EntriesOwned A E' (Function.update ch r (listAppend (ch r) x)) := by
  intro y hy
  rcases (hE y).mp hy with rfl | hy
  · refine ⟨r,hr,?_⟩
    rw [Function.update_self]
    exact mem_listAppend.mpr (Or.inr rfl)
  · obtain ⟨q,hq,hyq⟩ := h y hy
    refine ⟨q,hq,?_⟩
    by_cases hqr : q = r
    · subst hqr
      rw [Function.update_self]
      exact mem_listAppend.mpr (Or.inl hyq)
    · rwa [Function.update_of_ne hqr]

theorem handOver (h : EntriesOwned A E ch) (hi : A i) : EntriesOwned A E (handedOver ch i r) := by
  intro x hx
  obtain ⟨q,hq,hxq⟩ := h x hx
  by_cases hqr : q = r
  · subst hqr
    refine ⟨i,hi,?_⟩
    unfold handedOver
    rw [Function.update_self]
    exact List.mem_append_right _ hxq
  · exact ⟨q,hq,(mem_handedOver hqr).mpr (Or.inl hxq)⟩

theorem collect (h : EntriesOwned A E ch) (hd : ch d = []) (hA : ∀ o, A' o ↔ o ≠ d ∧ A o)
    (hE : ∀ y, E' y ↔ y ≠ x ∧ E y) :
    EntriesOwned A' E' (Function.update ch q ((ch q).erase x)) := by
  intro y hy
  obtain ⟨hyx,hyE⟩ := (hE y).mp hy
  obtain ⟨o,ho,hyo⟩ := h y hyE
  have hod : o ≠ d := by
    rintro rfl
    rw [hd] at hyo
    cases hyo
  refine ⟨o,(hA o).mpr ⟨hod,ho⟩,?_⟩
  by_cases hoq : o = q
  · subst hoq
    rw [Function.update_self]
    exact (List.mem_erase_of_ne hyx).mpr hyo
  · rwa [Function.update_of_ne hoq]

theorem not_of_leak (hfam : Family A E ch c par Z) (hq : A q) (hx : x ∈ ch q)
    (hA : ∀ o, A' o → A o) : ¬ EntriesOwned A' E (Function.update ch q ((ch q).erase x)) := by
  intro h
  obtain ⟨o,ho,hxo⟩ := h x (hfam.entry q hq x hx)
  by_cases hoq : o = q
  · subst hoq
    rw [Function.update_self,(hfam.nodup o hq).mem_erase_iff] at hxo
    exact hxo.1 rfl
  · rw [Function.update_of_ne hoq] at hxo
    exact hoq (hfam.unique o q (hA o ho) hq x hxo x hx rfl).1

end EntriesOwned

section Counting
variable {n : ℕ} {pcbs entries : Pool n} {ch : ℕ → List ℕ} {c : ℕ → ℕ} {par : ℕ → Option ℕ}
variable {Z : List ℕ}

theorem Family.card_entries (h : Family pcbs.Allocated entries.Allocated ch c par Z) :
    ((pcbs.used).biUnion (fun q => (ch q).toFinset)).card = ∑ q ∈ pcbs.used, (ch q).length := by
  rw [Finset.card_biUnion]
  · apply Finset.sum_congr rfl
    intro q hq
    exact List.toFinset_card_of_nodup (h.nodup q (Pool.mem_used.mp hq))
  · intro q hq q' hq' hne
    refine Finset.disjoint_left.mpr ?_
    intro x hx hx'
    exact hne (h.unique q q' (Pool.mem_used.mp hq) (Pool.mem_used.mp hq') x
      (List.mem_toFinset.mp hx) x (List.mem_toFinset.mp hx') rfl).1

theorem Family.entries_subset (h : Family pcbs.Allocated entries.Allocated ch c par Z) :
    (pcbs.used).biUnion (fun q => (ch q).toFinset) ⊆ entries.used := by
  intro x hx
  obtain ⟨q,hq,hxq⟩ := Finset.mem_biUnion.mp hx
  exact Pool.mem_used.mpr (h.entry q (Pool.mem_used.mp hq) x (List.mem_toFinset.mp hxq))

/-- The numbers agree exactly if no entry is lost. -/
theorem Family.card_used_iff (h : Family pcbs.Allocated entries.Allocated ch c par Z) :
    entries.used.card = ∑ q ∈ pcbs.used, (ch q).length ↔
      EntriesOwned pcbs.Allocated entries.Allocated ch := by
  rw [← h.card_entries]
  constructor
  · intro hcard x hx
    have heq := Finset.eq_of_subset_of_card_le h.entries_subset hcard.le
    rw [← Pool.mem_used,← heq] at hx
    obtain ⟨q,hq,hxq⟩ := Finset.mem_biUnion.mp hx
    exact ⟨q,Pool.mem_used.mp hq,List.mem_toFinset.mp hxq⟩
  · intro howned
    refine congrArg Finset.card (Finset.Subset.antisymm ?_ h.entries_subset)
    intro x hx
    obtain ⟨q,hq,hxq⟩ := howned x (Pool.mem_used.mp hx)
    exact Finset.mem_biUnion.mpr ⟨q,Pool.mem_used.mpr hq,List.mem_toFinset.mpr hxq⟩

/-- Entries name distinct processes other than the first one, so there are fewer of them
than processes. -/
theorem Family.card_entries_lt (h : Family pcbs.Allocated entries.Allocated ch c par Z)
    {i : ℕ} (hi : pcbs.Allocated i) (hpar : par i = none)
    (howned : EntriesOwned pcbs.Allocated entries.Allocated ch) :
    entries.used.card < pcbs.used.card := by
  have hmaps : ∀ x ∈ entries.used, c x ∈ pcbs.used.erase i := by
    intro x hx
    obtain ⟨q,hq,hxq⟩ := howned x (Pool.mem_used.mp hx)
    refine Finset.mem_erase.mpr ⟨?_,Pool.mem_used.mpr (h.childAllocated q hq x hxq)⟩
    rintro rfl
    exact h.childParent q hq x hxq hpar
  have hinj : Set.InjOn c (entries.used : Set ℕ) := by
    intro x hx y hy hxy
    obtain ⟨q,hq,hxq⟩ := howned x (Pool.mem_used.mp hx)
    obtain ⟨q',hq',hyq⟩ := howned y (Pool.mem_used.mp hy)
    exact (h.unique q q' hq hq' x hxq y hyq hxy).2
  have hle := Finset.card_le_card_of_injOn c hmaps hinj
  have hmem : i ∈ pcbs.used := Pool.mem_used.mpr hi
  rw [Finset.card_erase_of_mem hmem] at hle
  have hpos := Finset.card_pos.mpr ⟨i,hmem⟩
  omega

end Counting

namespace Kernel

/-- As many entries are handed out as there are on the children lists of all processes. -/
def EntriesConserved (s : Kernel) : Prop :=
  s.pcbPtrAllocator.used.card = ∑ q ∈ s.pcbAllocator.used, (s.children q).length

/-- No exit wakes the parent of the process that exits. -/
def KeepsEntries (s : Kernel) : Action → Prop
  | .call num _ => num = dsosCallExit → ∀ r ∈ s.running, ∀ p ∈ s.parent r,
      ¬ s.WaitsFor p (s.pid r)
  | _ => True

instance (s : Kernel) : (a : Action) → Decidable (s.KeepsEntries a)
  | .call num _ => inferInstanceAs (Decidable (num = dsosCallExit → ∀ r ∈ s.running,
      ∀ p ∈ s.parent r, ¬ s.WaitsFor p (s.pid r)))
  | .resumeMain | .tick | .ret | .store _ _ => instDecidableTrue

/-- `EntriesOwned` of a state. -/
def EntriesOwned (s : Kernel) : Prop :=
  DisastrOS.EntriesOwned s.pcbAllocator.Allocated s.pcbPtrAllocator.Allocated s.children

variable {s t u v : Kernel} {r p : ℕ} {c : Syscall} {a : Action} {num : ℤ} {args : List ℤ}

theorem entriesConserved_iff (h : Inv s) : s.EntriesConserved ↔ s.EntriesOwned :=
  h.family.card_used_iff

/-- What the entries are about. -/
structure SameEntries (s t : Kernel) : Prop where
  pcbs : t.pcbAllocator = s.pcbAllocator
  entries : t.pcbPtrAllocator = s.pcbPtrAllocator
  children : t.children = s.children

theorem SameEntries.owned (h : SameEntries s t) : t.EntriesOwned ↔ s.EntriesOwned := by
  unfold EntriesOwned
  rw [h.pcbs,h.entries,h.children]

theorem Woken.sameEntries (hw : Woken s t) : SameEntries s t := by
  obtain ⟨⟩ := hw
  exact ⟨rfl,rfl,rfl⟩

theorem Scheduled.sameEntries (hs : Scheduled s r t) : SameEntries s t := by
  cases hs with
  | stay hw => exact hw.sameEntries
  | rotate hw => exact ⟨hw.sameEntries.pcbs,hw.sameEntries.entries,hw.sameEntries.children⟩

theorem Switched.sameEntries (hsw : Switched v t) : SameEntries v t := by
  cases hsw <;> exact ⟨rfl,rfl,rfl⟩

/-- No entry gets lost in a handler, except in an exit that wakes the parent. -/
theorem Effect.entriesOwned (h : Inv s) (hr : s.running = some r) (hs : s.EntriesOwned)
    (he : Effect s r c t) :
    t.EntriesOwned ↔ ¬ (c = .exit ∧ ∃ p, s.parent r = some p ∧ s.wakesParent r p) := by
  have hrA := h.running_allocated hr
  cases he with
  | preempt hsched => exact iff_of_true (hsched.sameEntries.owned.mpr hs) nofun
  | fork hb hx =>
    obtain ⟨hfree,_,hal⟩ := Pool.getBlock_eq_some hb
    obtain ⟨_,_,hxal⟩ := Pool.getBlock_eq_some hx
    exact iff_of_true ((hs.initProcess hfree hal).append ((hal r).mpr (Or.inr hrA)) hxal) nofun
  | spawn hb hx =>
    obtain ⟨hfree,_,hal⟩ := Pool.getBlock_eq_some hb
    obtain ⟨_,_,hxal⟩ := Pool.getBlock_eq_some hx
    exact iff_of_true ((hs.initProcess hfree hal).append ((hal r).mpr (Or.inr hrA)) hxal) nofun
  | @reap x hx hz =>
    have hxm := awaitedEntry_mem hx
    have hcA := h.family.childAllocated r hrA x hxm
    have hzl := (h.placement.mem_zombie_iff hcA).mpr hz
    refine iff_of_true ?_ nofun
    exact hs.collect (h.family.zombieChildren _ hcA hzl) (Pool.allocated_releaseBlock hcA)
      (Pool.allocated_releaseBlock (h.family.entry r hrA x hxm))
  | @collect i p x L M hi hir hp hwakes hx hxr =>
    refine iff_of_false ?_ (not_not.mpr ⟨rfl,p,hp,hwakes⟩)
    have hfam := (h.family_handedOver hr hi hir).1
    have hpA := h.placement.allocated_waiting (mem_waiting_of_wakesParent h hwakes).1
    exact EntriesOwned.not_of_leak hfam hpA hx
      (fun o ho => ((Pool.allocated_releaseBlock hrA o).mp ho).2)
  | @replace i p next rest hi hir hp hwakes =>
    have hiA : s.pcbAllocator.Allocated i := by
      obtain ⟨j,hj,hjA,_⟩ := h.hasInit
      cases Option.some.inj (hj.symm.trans hi)
      exact hjA
    refine iff_of_true (hs.handOver hiA) ?_
    rintro ⟨_,q,hq,hqwakes⟩
    cases Option.some.inj (hp.symm.trans hq)
    exact hwakes hqwakes
  | sleep hslept =>
    obtain ⟨⟩ := hslept
    exact iff_of_true hs nofun
  | sleepNext hslept =>
    obtain ⟨⟩ := hslept
    exact iff_of_true hs nofun
  | resource hc => exact iff_of_true hs (by rcases hc with rfl | rfl | rfl <;> nofun)
  | queue hc => exact iff_of_true hs (by rcases hc with rfl | rfl <;> nofun)
  | sendBlocks _ hslept =>
    obtain ⟨⟩ := hslept
    exact iff_of_true hs nofun
  | receiveBlocks _ _ hslept =>
    obtain ⟨⟩ := hslept
    exact iff_of_true hs nofun
  | _ => exact iff_of_true hs nofun

/-- No entry gets lost in a step exactly if it keeps to the guard. -/
theorem Moves.entriesOwned (h : Inv s) (hs : s.EntriesOwned) (hm : Moves s a t) :
    t.EntriesOwned ↔ s.KeepsEntries a := by
  cases hm with
  | @tick r v t hr hdown hsched hsw =>
    rw [hsw.sameEntries.owned,hsched.sameEntries.owned]
    exact iff_of_true hs trivial
  | refused hr hcpu hnum =>
    refine iff_of_true hs ?_
    rintro rfl
    exact absurd hnum (by decide)
  | missing hr hdown hcpu hnum hc hsw =>
    rw [hsw.sameEntries.owned]
    refine iff_of_true hs ?_
    rintro rfl
    cases hc
  | @handled r num args c v t hr hdown hcpu hnum hc he hsw =>
    have hnum := syscallVector_eq_some hc
    rw [hsw.sameEntries.owned,he.entriesOwned (h.enterTrap hr num args) hr hs]
    constructor
    · rintro hno rfl q hq p hp hwaits
      cases Option.some.inj (hr.symm.trans hq)
      have hcexit : c = .exit := by
        cases c <;> first | rfl | exact absurd hnum (by decide)
      exact hno ⟨hcexit,p,hp,(wakesParent_iff h hr).mpr hwaits⟩
    · rintro hkeeps ⟨rfl,p,hp,hwakes⟩
      exact hkeeps hnum r hr p hp ((wakesParent_iff h hr).mp hwakes)
  | ret => exact iff_of_true hs trivial
  | store => exact iff_of_true hs trivial
  | resumeMain hr hdown hb hsw =>
    obtain ⟨hfree,_,hal⟩ := Pool.getBlock_eq_some hb
    rw [hsw.sameEntries.owned]
    exact iff_of_true (hs.initProcess hfree hal) trivial

theorem disastrOSStart_entriesOwned {function args : ℤ} {logFile : Bool} {chars : ℤ → UInt8}
    {ints : ℤ → ℤ} (hok : disastrOSStart function args logFile chars ints = .ok s) :
    s.EntriesOwned := by
  obtain ⟨p,pool,hb,hsw⟩ := startFirstProcess_ok hok
  refine hsw.sameEntries.owned.mpr ?_
  intro x hx
  exact absurd hx (Pool.not_allocated_full maxNumProcesses_pos x)

theorem EntriesOwned.exists_free (h : Inv s) (hs : s.EntriesOwned) :
    s.pcbPtrAllocator.getBlock ≠ none := by
  obtain ⟨i,_,hiA,hip⟩ := h.hasInit
  have hlt := h.family.card_entries_lt hiA hip hs
  have hle := s.pcbAllocator.card_used_le
  rw [ne_eq,Pool.getBlock_eq_none_iff]
  omega

end Kernel

/-- Along every run in which no exit wakes a parent the entries are conserved, so that
their pool never runs dry, and the first exit that wakes its parent loses one. -/
theorem entries_conserved {s : Kernel} (hs : ReachableUnder Kernel.KeepsEntries s) :
    s.EntriesConserved ∧ s.pcbPtrAllocator.getBlock ≠ none ∧
      ∀ a t, s.step a = .ok t → (t.EntriesConserved ↔ s.KeepsEntries a) := by
  have h := hs.reachable.inv
  have hrun : s.EntriesConserved ∧
      ∀ a t, s.step a = .ok t → (t.EntriesConserved ↔ s.KeepsEntries a) := by
    apply ReachableUnder.holds_iff (I := Kernel.EntriesOwned) _ _ _ hs
    · intro s hs
      exact Kernel.entriesConserved_iff hs.inv
    · intro function args logFile chars ints s hok
      exact Kernel.disastrOSStart_entriesOwned hok
    · intro s a t h howned hst
      exact (Kernel.step_moves h hst).entriesOwned h howned
  exact ⟨hrun.1,((Kernel.entriesConserved_iff h).mp hrun.1).exists_free h,hrun.2⟩

/-- A wait has collected the first child, and the second one has been created. -/
theorem entries_conserved_run : ∃ s : Kernel, (s.children 0 = [0] ∧ s.pid 1 = 2 ∧
    s.pcbPtrAllocator.Allocated 0) ∧ s.EntriesConserved ∧ s.pcbPtrAllocator.getBlock ≠ none ∧
      ∀ a t, s.step a = .ok t → (t.EntriesConserved ↔ s.KeepsEntries a) := by
  obtain ⟨s,hs,hcheck⟩ := exists_run Kernel.KeepsEntries
    [.call 5 [1,0],.ret,.tick,.call 4 [7],.call 3 [0,0],.ret,.call 5 [1,0],.ret]
    (fun s => s.children 0 = [0] && s.pid 1 = 2 && s.pcbPtrAllocator.Allocated 0) (by decide)
  refine ⟨s,?_,entries_conserved hs⟩
  simpa [and_assoc] using hcheck

/-- The parent waits and the child exits: the child is freed, its entry is not. -/
theorem exit_loses_entry : ¬ ∀ s : Kernel, Reachable s → s.EntriesConserved := by
  intro hclaim
  obtain ⟨s,hs,hcheck⟩ := exists_run Transitions.unguarded
    [.call 5 [1,0],.ret,.call 3 [0,0],.call 4 [7]]
    (fun s => s.pcbPtrAllocator.Allocated 0 && s.childPcb 0 = 1 && !s.pcbAllocator.Allocated 1)
    (by decide)
  simp only [Bool.and_eq_true,decide_eq_true_eq,Bool.not_eq_true',decide_eq_false_iff_not] at hcheck
  obtain ⟨⟨hentry,hchild⟩,hfree⟩ := hcheck
  have h := Reachable.inv hs
  obtain ⟨q,hq,hx⟩ := (Kernel.entriesConserved_iff h).mp (hclaim s hs) 0 hentry
  rw [← hchild] at hfree
  exact hfree (h.family.childAllocated q hq 0 hx)

namespace Kin
variable {k : Kin} {i r p q x d : ℕ} {value : ℤ} {pool : Pool maxNumProcesses}

/-- A block without a process has no children. -/
def FreeChildless (k : Kin) : Prop := ∀ p, ¬ k.pcbs.Allocated p → k.children p = []

/-- No process but init has no parent. -/
def OneInit (k : Kin) : Prop :=
  ∀ p, k.pcbs.Allocated p → k.parent p = none → k.initPcb = some p

theorem FreeChildless.create (h : k.FreeChildless) (hr : k.pcbs.Allocated r)
    (hb : k.pcbs.getBlock = some (p,pool)) : (k.create r p pool x).FreeChildless := by
  obtain ⟨_,_,hal⟩ := Pool.getBlock_eq_some hb
  intro q hq
  have hq' : ¬ (q = p ∨ k.pcbs.Allocated q) := fun hq' => hq ((hal q).mpr hq')
  have hqr : q ≠ r := by
    rintro rfl
    exact hq' (Or.inr hr)
  have hqp : q ≠ p := fun he => hq' (Or.inl he)
  dsimp only [Kin.create]
  rw [Function.update_of_ne hqr,Function.update_of_ne hqp]
  exact h q (fun hqA => hq' (Or.inr hqA))

theorem FreeChildless.restart (h : k.FreeChildless) (hb : k.pcbs.getBlock = some (p,pool)) :
    (k.restart p pool).FreeChildless := by
  obtain ⟨_,_,hal⟩ := Pool.getBlock_eq_some hb
  intro q hq
  have hq' : ¬ (q = p ∨ k.pcbs.Allocated q) := fun hq' => hq ((hal q).mpr hq')
  dsimp only [Kin.restart]
  rw [Function.update_of_ne (fun he => hq' (Or.inl he))]
  exact h q (fun hqA => hq' (Or.inr hqA))

theorem FreeChildless.exit (h : k.FreeChildless) (hi : k.pcbs.Allocated i)
    (hr : k.pcbs.Allocated r) : (k.exit i r value).FreeChildless := by
  intro q hq
  have hqi : q ≠ i := by
    rintro rfl
    exact hq hi
  have hqr : q ≠ r := by
    rintro rfl
    exact hq hr
  dsimp only [Kin.exit,handedOver]
  rw [Function.update_of_ne hqi,Function.update_of_ne hqr]
  exact h q hq

theorem FreeChildless.release (h : k.FreeChildless) (hd : k.pcbs.Allocated d)
    (hnil : k.children d = []) : (k.release q x d).FreeChildless := by
  intro o ho
  have hold : k.children o = [] := by
    by_cases hod : o = d
    · exact hod ▸ hnil
    · exact h o (fun hoA => ho ((Pool.allocated_releaseBlock hd o).mpr ⟨hod,hoA⟩))
  dsimp only [Kin.release]
  by_cases hoq : o = q
  · subst hoq
    rw [Function.update_self,hold]
    rfl
  · rwa [Function.update_of_ne hoq]

theorem OneInit.create (h : k.OneInit) (hb : k.pcbs.getBlock = some (p,pool)) :
    (k.create r p pool x).OneInit := by
  obtain ⟨_,_,hal⟩ := Pool.getBlock_eq_some hb
  intro q hq hpar
  dsimp only [Kin.create] at hpar ⊢
  by_cases hqp : q = p
  · subst hqp
    rw [Function.update_self] at hpar
    cases hpar
  · rw [Function.update_of_ne hqp,Function.update_of_ne hqp] at hpar
    exact h q (((hal q).mp hq).resolve_left hqp) hpar

theorem OneInit.release (h : k.OneInit) (hd : k.pcbs.Allocated d) :
    (k.release q x d).OneInit :=
  fun o ho hpar => h o ((Pool.allocated_releaseBlock hd o).mp ho).2 hpar

/-- The init of before the restart is a second process without a parent. -/
theorem not_oneInit_restart (hinit : HasInit k.pcbs.Allocated k.parent k.initPcb)
    (hb : k.pcbs.getBlock = some (p,pool)) : ¬ (k.restart p pool).OneInit := by
  obtain ⟨hfree,_,hal⟩ := Pool.getBlock_eq_some hb
  obtain ⟨i,_,hiA,hip⟩ := hinit
  have hne : i ≠ p := by
    rintro rfl
    exact hfree hiA
  intro h
  have hpar : (k.restart p pool).parent i = none := (Function.update_of_ne hne _ _).trans hip
  have heq := h i ((hal i).mpr (Or.inr hiA)) hpar
  exact hne (Option.some.inj heq).symm

end Kin

namespace Kernel

/-- Every process other than init is named by exactly one entry of all children lists, on
the list of a process that exists and is no zombie, and neither a zombie nor a block
without a process has children. -/
def Reapable (s : Kernel) : Prop :=
  (∀ p, s.pcbAllocator.Allocated p → s.initPcb ≠ some p →
    ∃ q x, s.pcbAllocator.Allocated q ∧ s.status q ≠ .zombie ∧ (s.children q).count x = 1 ∧
      s.childPcb x = p ∧ ∀ q' x', x' ∈ s.children q' → s.childPcb x' = p → q' = q ∧ x' = x) ∧
  (∀ p, s.pcbAllocator.Allocated p → s.status p = .zombie → s.children p = []) ∧
  ∀ p, ¬ s.pcbAllocator.Allocated p → s.children p = []

variable {s t : Kernel} {a : Action} {r p x : ℕ} {args : List ℤ}

theorem reapable_iff (h : Inv s) (hfree : s.kin.FreeChildless) : s.Reapable ↔ s.kin.OneInit := by
  constructor
  · rintro ⟨howned,_,_⟩ p hp hpar
    by_contra hinit
    obtain ⟨q,x,hq,_,hx,hxp,_⟩ := howned p hp hinit
    have hxq : x ∈ s.children q := List.count_pos_iff.mp (by omega)
    exact h.family.childParent q hq x hxq (hxp ▸ hpar)
  · intro horphan
    refine ⟨?_,?_,hfree⟩
    · intro p hp hinit
      obtain ⟨q,hq,x,hx,hxp⟩ := h.family.owned p hp (fun hpar => hinit (horphan p hp hpar))
      refine ⟨q,x,hq,?_,List.count_eq_one_of_mem (h.family.nodup q hq) hx,hxp,?_⟩
      · rw [ne_eq,← h.placement.mem_zombie_iff hq]
        exact h.family.owner_not_zombie hq hx
      · intro q' x' hx' hxp'
        have hq' : s.pcbAllocator.Allocated q' := by
          by_contra hq'
          have hnil : s.children q' = [] := hfree q' hq'
          rw [hnil] at hx'
          cases hx'
        exact h.family.unique q' q hq' hq x' hx' x hx (hxp'.trans hxp.symm)
    · intro p hp hz
      exact h.family.zombieChildren p hp ((h.placement.mem_zombie_iff hp).mpr hz)

/-- `main` does not resume. -/
def KeepsInit (_ : Kernel) (a : Action) : Prop := a ≠ .resumeMain

instance (s : Kernel) (a : Action) : Decidable (s.KeepsInit a) :=
  inferInstanceAs (Decidable (a ≠ .resumeMain))

theorem KinMove.freeChildless (h : Inv s) (hs : s.kin.FreeChildless) (hm : KinMove s a t) :
    t.kin.FreeChildless := by
  have hinit : ∀ i, s.initPcb = some i → s.pcbAllocator.Allocated i := by
    intro i hi
    obtain ⟨j,hj,hjA,_⟩ := h.hasInit
    cases Option.some.inj (hj.symm.trans hi)
    exact hjA
  cases hm with
  | other ha hk => exact hk ▸ hs
  | create ha hr hb hx hk => exact hk ▸ hs.create (h.running_allocated hr) hb
  | noChild hr hnil hk => exact hk ▸ hs
  | @reap args r x t hr hx hz hk =>
    have hxm := awaitedEntry_mem (s := s.enterTrap r dsosCallWait args) hx
    have hc := h.family.childAllocated r (h.running_allocated hr) x hxm
    have hzl := (h.placement.mem_zombie_iff hc).mpr hz
    exact hk ▸ hs.release hc (h.family.zombieChildren _ hc hzl)
  | block hr hx hz hk => exact hk ▸ hs
  | collect hr hi hir hp hv hin hsat hx hxr hk =>
    have hrA := h.running_allocated hr
    exact hk ▸ (hs.exit (hinit _ hi) hrA).release hrA (h.family_handedOver hr hi hir).2
  | replace hr hi hir hp hv hsat hk => exact hk ▸ hs.exit (hinit _ hi) (h.running_allocated hr)
  | restart hr hb hk => exact hk ▸ hs.restart hb

/-- Init stays the only process without a parent exactly if `main` does not resume. -/
theorem KinMove.oneInit (h : Inv s) (hs : s.kin.OneInit) (hm : KinMove s a t) :
    t.kin.OneInit ↔ s.KeepsInit a := by
  cases hm with
  | other ha hk =>
    refine iff_of_true (hk ▸ hs) ?_
    rintro rfl
    cases ha
  | create ha hr hb hx hk => exact iff_of_true (hk ▸ hs.create hb) nofun
  | noChild hr hnil hk => exact iff_of_true (hk ▸ hs) nofun
  | @reap args r x t hr hx hz hk =>
    have hxm := awaitedEntry_mem (s := s.enterTrap r dsosCallWait args) hx
    have hc := h.family.childAllocated r (h.running_allocated hr) x hxm
    exact iff_of_true (hk ▸ hs.release hc) nofun
  | block hr hx hz hk => exact iff_of_true (hk ▸ hs) nofun
  | @collect args r i p x v t hr hi hir hp hv hin hsat hx hxr hk =>
    have hexit : (s.kin.exit i r v).OneInit := hs
    exact iff_of_true (hk ▸ hexit.release (h.running_allocated hr)) nofun
  | @replace args r i p v t hr hi hir hp hv hsat hk =>
    have hexit : (s.kin.exit i r v).OneInit := hs
    exact iff_of_true (hk ▸ hexit) nofun
  | restart hr hb hk =>
    exact iff_of_false (hk ▸ Kin.not_oneInit_restart h.hasInit hb) (fun hkeeps => hkeeps rfl)

theorem disastrOSStart_freeChildless {function args : ℤ} {logFile : Bool} {chars : ℤ → UInt8}
    {ints : ℤ → ℤ} (hok : disastrOSStart function args logFile chars ints = .ok s) :
    s.kin.FreeChildless := by
  obtain ⟨p,pool,hb,hsw⟩ := startFirstProcess_ok hok
  have hcold : (cold function args logFile chars ints).kin.FreeChildless := fun _ _ => rfl
  rw [hsw.kin,kin_withInit]
  exact hcold.restart hb

theorem disastrOSStart_oneInit {function args : ℤ} {logFile : Bool} {chars : ℤ → UInt8}
    {ints : ℤ → ℤ} (hok : disastrOSStart function args logFile chars ints = .ok s) :
    s.kin.OneInit := by
  obtain ⟨p,pool,hb,hsw⟩ := startFirstProcess_ok hok
  obtain ⟨_,_,hal⟩ := Pool.getBlock_eq_some hb
  rw [hsw.kin,kin_withInit]
  intro q hq _
  rcases (hal q).mp hq with rfl | hcold
  · rfl
  · exact absurd hcold (Pool.not_allocated_full maxNumProcesses_pos q)

theorem awaitedEntry_of_pid (h : Inv s) (hrA : s.pcbAllocator.Allocated r) (hx : x ∈ s.children r)
    (hpid : s.syscallArgs r 0 = s.pid (s.childPcb x)) : s.awaitedEntry r = some x := by
  have hchild := h.family.childAllocated r hrA
  have hpos := h.identity.childPositive _ (hchild x hx) (h.family.childParent r hrA x hx)
  have hne : s.syscallArgs r 0 ≠ 0 := by omega
  obtain ⟨y,hyx⟩ := exists_awaitedEntry (List.ne_nil_of_mem hx)
  rcases awaitedEntry_cases hyx with ⟨hy,hstop⟩ | ⟨hnone,_⟩
  · have hypid := ((stopsScan_iff.mp hstop).resolve_left (fun hzero => hne hzero.1)).2
    have hsame := h.identity.injective _ _ (hchild y hy) (hchild x hx) (hypid.trans hpid)
    rw [hyx,(h.family.unique r r hrA hrA y hy x hx hsame).2]
  · exact absurd (stopsScan_iff.mpr (Or.inr ⟨hne,hpid.symm⟩)) (hnone x hx)

theorem internalWait_of_pid (h : Inv s) (hr : s.running = some r) (hx : x ∈ s.children r)
    (hz : s.childPcb x ∈ s.zombieList) (hpid : s.syscallArgs r 0 = s.pid (s.childPcb x)) :
    s.internalWait r = .ok (s.reaped r x) := by
  have hst := h.placement.zombieStatus _ hz
  rw [internalWait_eq (awaitedEntry_of_pid h (h.running_allocated hr) hx hpid),if_pos hst]
  exact reap_eq h hr hx hst

theorem wait_collects (h : Inv s) (hr : s.running = some r) (hdown : s.shutdownNow = false)
    (hcpu : s.cpu ≠ .syscall) (hx : x ∈ s.children r) (hz : s.childPcb x ∈ s.zombieList)
    (hargs : args.getD 0 0 = s.pid (s.childPcb x)) :
    ∃ t, s.step (.call dsosCallWait args) = .ok t ∧ t.syscallRetvalue r = s.pid (s.childPcb x) ∧
      ¬ t.pcbAllocator.Allocated (s.childPcb x) ∧ s.childPcb x ∉ t.zombieList := by
  have h' := h.enterTrap hr dsosCallWait args
  have hrA := h.running_allocated hr
  have hcA := h.family.childAllocated r hrA x hx
  have hpid : (s.enterTrap r dsosCallWait args).syscallArgs r 0 = s.pid (s.childPcb x) :=
    (syscallArgs_enterTrap (show 0 < syscallNumarg dsosCallWait.toNat by decide)).trans hargs
  have hwait := internalWait_of_pid h' hr hx hz hpid
  have hstep := step_resumes (c := .wait) hr hdown hcpu rfl hwait hr hdown rfl
  refine ⟨_,hstep,Function.update_self _ _ _,?_,?_⟩
  · exact fun hal => ((Pool.allocated_releaseBlock hcA _).mp hal).1 rfl
  · exact fun hmem => (h.placement.zombieNodup.mem_erase_iff.mp hmem).1 rfl

end Kernel

/-- Along every run in which `main` does not resume every process stays reapable, and a
resumption ends that. Each zombie is the child of a process that is no zombie and that
collects it by a wait for its identifier. -/
theorem processes_reapable {s : Kernel} (hs : ReachableUnder Kernel.KeepsInit s) :
    s.Reapable ∧ (∀ a t, s.step a = .ok t → (t.Reapable ↔ s.KeepsInit a)) ∧
    (∀ z ∈ s.zombieList, ∃ q, s.pcbAllocator.Allocated q ∧ q ∉ s.zombieList ∧
      ∃ x ∈ s.children q, s.childPcb x = z) ∧
    ∀ r x args, s.running = some r → s.shutdownNow = false → s.cpu ≠ .syscall →
      x ∈ s.children r → s.childPcb x ∈ s.zombieList → args.getD 0 0 = s.pid (s.childPcb x) →
        ∃ t, s.step (.call dsosCallWait args) = .ok t ∧
          t.syscallRetvalue r = s.pid (s.childPcb x) ∧
          ¬ t.pcbAllocator.Allocated (s.childPcb x) ∧ s.childPcb x ∉ t.zombieList := by
  have h := hs.reachable.inv
  have hfree : ∀ s : Kernel, Reachable s → s.kin.FreeChildless := by
    intro s hs
    refine hs.induction (P := fun s => s.kin.FreeChildless) ?_
      (fun s a t h hs hstep => ((Kernel.step_moves h hstep).kin h).freeChildless h hs)
    intro function args logFile chars ints s hok
    exact Kernel.disastrOSStart_freeChildless hok
  have hrun : s.Reapable ∧ ∀ a t, s.step a = .ok t → (t.Reapable ↔ s.KeepsInit a) := by
    apply ReachableUnder.holds_iff (I := fun s => s.kin.OneInit) _ _ _ hs
    · intro s hs
      exact Kernel.reapable_iff hs.inv (hfree s hs)
    · intro function args logFile chars ints s hok
      exact Kernel.disastrOSStart_oneInit hok
    · intro s a t h hone hst
      exact ((Kernel.step_moves h hst).kin h).oneInit h hone
  refine ⟨hrun.1,hrun.2,?_,?_⟩
  · intro z hz
    have hzA := h.placement.allocated_zombie hz
    obtain ⟨q,hq,x,hx,hxz⟩ := h.family.owned z hzA (h.family.zombieParent z hzA hz)
    exact ⟨q,hq,h.family.owner_not_zombie hq hx,x,hx,hxz⟩
  · intro r x args hr hdown hcpu hx hz hargs
    exact Kernel.wait_collects h hr hdown hcpu hx hz hargs

/-- Init runs, one of its children is a zombie, and the other one is a grandchild that it
has got from it. -/
theorem processes_reapable_run : ∃ s : Kernel, (s.zombieList = [1] ∧ s.children 0 = [0,1] ∧
    s.running = some 0) ∧ s.Reapable ∧
      ∀ a t, s.step a = .ok t → (t.Reapable ↔ s.KeepsInit a) := by
  obtain ⟨s,hs,hcheck⟩ := exists_run Kernel.KeepsInit
    [.call 5 [1,0],.ret,.tick,.call 5 [1,0],.ret,.call 4 [7]]
    (fun s => s.zombieList = [1] && s.children 0 = [0,1] && s.running = some 0) (by decide)
  obtain ⟨hreap,hstep,_,_⟩ := processes_reapable hs
  refine ⟨s,?_,hreap,hstep⟩
  simpa [and_assoc] using hcheck

/-- Init sleeps, nobody is ready, and `main` starts another init: the first one is on no
children list. -/
theorem restart_orphans_init : ¬ ∀ s : Kernel, Reachable s → s.Reapable := by
  intro hclaim
  obtain ⟨s,hs,hcheck⟩ := exists_run Transitions.unguarded [.call 6 [9],.resumeMain]
    (fun s => s.pcbAllocator.Allocated 0 && s.initPcb = some 1 && s.parent 0 = none) (by decide)
  simp only [Bool.and_eq_true,decide_eq_true_eq] at hcheck
  obtain ⟨⟨h0,hinit⟩,hpar⟩ := hcheck
  obtain ⟨q,x,hq,_,hx,hx0,_⟩ := (hclaim s hs).1 0 h0 (by simp [hinit])
  have hxq : x ∈ s.children q := List.count_pos_iff.mp (by omega)
  exact (Reachable.inv hs).family.childParent q hq x hxq (hx0 ▸ hpar)

end DisastrOS
