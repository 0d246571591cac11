import DisastrOS.Behaviour.LayerCalls
import DisastrOS.Behaviour.Lifetimes
import DisastrOS.Properties.Modes
import Mathlib.Data.List.Nodup

/-! # Ids and descriptor numbers

An object is created only when its id was not found, so that ids are distinct. A descriptor
gets the number of a counter that never goes down while its process lives, so that the numbers
of a process are distinct and none is handed out twice.
-/
namespace DisastrOS

/-- The first item with a key is the only one, if keys are distinct. -/
theorem find?_eq_some_iff_of_nodup {α β : Type*} [DecidableEq β] {l : List α} {key : α → β}
    (h : (l.map key).Nodup) (k : β) (x : α) :
    l.find? (fun y => key y = k) = some x ↔ x ∈ l ∧ key x = k := by
  constructor
  · intro hx
    exact ⟨List.mem_of_find?_eq_some hx,by simpa using List.find?_some hx⟩
  · rintro ⟨hmem,hkey⟩
    cases hy : l.find? (fun y => key y = k) with
    | none =>
      have hnot := List.find?_eq_none.mp hy x hmem
      simp [hkey] at hnot
    | some y =>
      have hyk : key y = k := by simpa using List.find?_some hy
      have hxy := List.inj_on_of_nodup_map h (List.mem_of_find?_eq_some hy) hmem
        (hyk.trans hkey.symm)
      rw [hxy]

namespace DescriptorLayer

/-- The process `p` has the descriptor `d`, which was handed out to it. -/
def Has (L : DescriptorLayer) (p d : ℕ) : Prop :=
  d ∈ L.descriptors p ∧ L.descriptorAllocator.Allocated d ∧ L.pcb d = p

/-- The numbers of the descriptors of a process are distinct and below its counter. -/
structure Numbered (L : DescriptorLayer) : Prop where
  nonneg : ∀ p, 0 ≤ L.lastFd p
  range : ∀ p d, L.Has p d → 0 ≤ L.fd d ∧ L.fd d < L.lastFd p
  distinct : ∀ p d d', L.Has p d → L.Has p d' → L.fd d = L.fd d' → d = d'

variable {L L' : DescriptorLayer} {A : ℕ → Prop} {e : LayerErrors} {p q d d' o x : ℕ}
variable {fd id type openMode : ℤ}

theorem Linked.has_iff (h : L.Linked A) (hp : A p) : L.Has p d ↔ d ∈ L.descriptors p :=
  ⟨And.left,fun hd => ⟨hd,h.owned p hp d hd⟩⟩

theorem Op.ids_nodup (hop : Op A L L') (h : L.Linked A) (hids : (L.objectsList.map L.id).Nodup) :
    (L'.objectsList.map L'.id).Nodup := by
  cases hop with
  | @create id type o L' hid hok =>
    unfold allocObject at hok
    split at hok
    · cases hok
    · rename_i b pool hb
      cases hok
      have ho : o ∉ L.objectsList := by
        rw [← h.objects]
        exact (Pool.getBlock_eq_some hb).1
      have hold : L.objectsList.map (Function.update L.id o id) = L.objectsList.map L.id :=
        List.map_congr_left (fun y hy => update_of_not_mem ho hy _ _)
      dsimp only [listAppend]
      rw [List.map_append,hold]
      refine List.nodup_append.mpr ⟨hids,by simp,?_⟩
      intro i hi j hj hij
      simp only [List.map_cons,List.map_nil,List.mem_singleton,Function.update_self] at hj
      obtain ⟨y,hy,hyi⟩ := List.mem_map.mp hi
      have hnone := List.find?_eq_none.mp hid y hy
      simp [hyi,hij,hj] at hnone
  | publish => exact hids
  | unlink => exact hids
  | @destroy o ho hnil => exact hids.sublist (List.erase_sublist.map L.id)

theorem has_publish {dPool xPool : Pool maxNumProcesses}
    (hd : L.descriptorAllocator.getBlock = some (d,dPool))
    (hd' : (L.publish p o d x dPool xPool).Has q d') : q = p ∧ d' = d ∨ L.Has q d' ∧ d' ≠ d := by
  obtain ⟨hmem,hal,hpcb⟩ := hd'
  by_cases hdd : d' = d
  · subst hdd
    have hnew : (L.publish p o d' x dPool xPool).pcb d' = p := Function.update_self _ _ _
    exact Or.inl ⟨hpcb.symm.trans hnew,rfl⟩
  · have hold : (L.publish p o d x dPool xPool).pcb d' = L.pcb d' := Function.update_of_ne hdd _ _
    refine Or.inr ⟨⟨?_,?_,hold.symm.trans hpcb⟩,hdd⟩
    · dsimp only [publish] at hmem
      by_cases hqp : q = p
      · subst hqp
        rw [Function.update_self] at hmem
        exact (mem_listAppend.mp hmem).resolve_right hdd
      · rwa [Function.update_of_ne hqp] at hmem
    · exact (((Pool.getBlock_eq_some hd).2.2 d').mp hal).resolve_left hdd

/-- A new descriptor gets the number of the counter, which then goes up. -/
theorem Numbered.publish {dPool xPool : Pool maxNumProcesses} (hn : L.Numbered)
    (hd : L.descriptorAllocator.getBlock = some (d,dPool)) :
    (L.publish p o d x dPool xPool).Numbered := by
  have hfd : (L.publish p o d x dPool xPool).fd d = L.lastFd p := Function.update_self _ _ _
  have hfd' : ∀ {d'}, d' ≠ d → (L.publish p o d x dPool xPool).fd d' = L.fd d' :=
    fun hne => Function.update_of_ne hne _ _
  have hlast : (L.publish p o d x dPool xPool).lastFd p = L.lastFd p + 1 := Function.update_self _ _ _
  have hle : ∀ q, L.lastFd q ≤ (L.publish p o d x dPool xPool).lastFd q := by
    intro q
    by_cases hqp : q = p
    · subst hqp
      omega
    · exact (Function.update_of_ne hqp _ _).ge
  constructor
  · exact fun q => (hn.nonneg q).trans (hle q)
  · intro q d' hd'
    rcases has_publish hd hd' with ⟨rfl,rfl⟩ | ⟨hold,hne⟩
    · have h0 := hn.nonneg q
      rw [hfd,hlast]
      omega
    · obtain ⟨h0,hlt⟩ := hn.range q d' hold
      rw [hfd' hne]
      exact ⟨h0,hlt.trans_le (hle q)⟩
  · intro q d1 d2 h1 h2 heq
    rcases has_publish hd h1 with ⟨hq1,rfl⟩ | ⟨hold1,hne1⟩ <;>
      rcases has_publish hd h2 with ⟨hq2,rfl⟩ | ⟨hold2,hne2⟩
    · rfl
    · have hlt := (hn.range q d2 hold2).2
      rw [hfd,hfd' hne2,← hq1] at heq
      omega
    · have hlt := (hn.range q d1 hold1).2
      rw [hfd,hfd' hne1,← hq2] at heq
      omega
    · rw [hfd' hne1,hfd' hne2] at heq
      exact hn.distinct q d1 d2 hold1 hold2 heq

theorem Numbered.of_has (hn : L.Numbered) (hfd : L'.fd = L.fd) (hlast : L'.lastFd = L.lastFd)
    (hhas : ∀ q d, L'.Has q d → L.Has q d) : L'.Numbered := by
  constructor
  · rw [hlast]
    exact hn.nonneg
  · intro q d' hd'
    rw [hfd,hlast]
    exact hn.range q d' (hhas q d' hd')
  · intro q d1 d2 h1 h2 heq
    rw [hfd] at heq
    exact hn.distinct q d1 d2 (hhas q d1 h1) (hhas q d2 h2) heq

theorem Op.numbered (hop : Op A L L') (h : L.Linked A) (hn : L.Numbered) : L'.Numbered := by
  cases hop with
  | create _ hok =>
    unfold allocObject at hok
    split at hok <;> cases hok
    exact hn.of_has rfl rfl (fun _ _ hd => hd)
  | publish _ _ hd _ => exact hn.publish hd
  | @unlink p d hp hd =>
    refine hn.of_has rfl rfl ?_
    rintro q d' ⟨hmem,hal,hpcb⟩
    refine ⟨?_,((h.allocated_unlinked hp hd d').mp hal).2,hpcb⟩
    dsimp only [unlinked] at hmem
    by_cases hqp : q = p
    · subst hqp
      rw [Function.update_self] at hmem
      exact List.mem_of_mem_erase hmem
    · rwa [Function.update_of_ne hqp] at hmem
  | destroy => exact hn.of_has rfl rfl (fun _ _ hd => hd)

theorem Numbered.initProcess (hn : L.Numbered) (p : ℕ) : (L.initProcess p).Numbered := by
  have hhas : ∀ q d, (L.initProcess p).Has q d → q ≠ p ∧ L.Has q d := by
    rintro q d ⟨hmem,hd⟩
    dsimp only [DescriptorLayer.initProcess] at hmem
    by_cases hqp : q = p
    · subst hqp
      simp at hmem
    · rw [Function.update_of_ne hqp] at hmem
      exact ⟨hqp,hmem,hd⟩
  constructor
  · exact lastFd_initProcess_nonneg hn.nonneg
  · intro q d hd
    obtain ⟨hqp,hold⟩ := hhas q d hd
    have hlast : (L.initProcess p).lastFd q = L.lastFd q := Function.update_of_ne hqp _ _
    rw [hlast]
    exact hn.range q d hold
  · intro q d1 d2 h1 h2 heq
    exact hn.distinct q d1 d2 (hhas q d1 h1).2 (hhas q d2 h2).2 heq

end DescriptorLayer

open DescriptorLayer

theorem Reachable.ids_nodup {s : Kernel} (hs : Reachable s) (k : LayerKind) :
    ((s.layer k).objectsList.map (s.layer k).id).Nodup := by
  refine hs.layer_induction (P := fun L => (L.objectsList.map L.id).Nodup) ?_ ?_ ?_ k
  · exact List.nodup_nil
  · exact fun _ _ hL => hL
  · exact fun _ _ _ h hids hop => hop.ids_nodup h hids

theorem Reachable.numbered {s : Kernel} (hs : Reachable s) (k : LayerKind) :
    (s.layer k).Numbered := by
  refine hs.layer_induction ?_ ?_ ?_ k
  · constructor <;> simp [initial,Has]
  · exact fun _ p hn => hn.initProcess p
  · exact fun _ _ _ h hn hop => hop.numbered h hn

namespace Kernel

variable {s t u : Kernel} {k : LayerKind} {r p : ℕ} {c : Syscall} {fd pid : ℤ} {args : List ℤ}

end Kernel

open Kernel

end DisastrOS
