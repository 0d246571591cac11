import DisastrOS.Foundation.Handles
import DisastrOS.Properties.Names

/-! # A layer as a registry

Seen from outside a descriptor layer is a registry: processes hold numbered handles on objects, which
have ids. The blocks and their links do not show. Each elementary change of the layer is a change of
the registry.
-/
namespace DisastrOS
open Handles

theorem Pool.card_used_releaseBlock {n : ℕ} {pool : Pool n} {i : ℕ} (hi : pool.Allocated i) :
    (pool.releaseBlock i).used.card = pool.used.card - 1 := by
  have herase : (pool.releaseBlock i).used = pool.used.erase i := by
    ext j
    rw [Finset.mem_erase,mem_used,mem_used,allocated_releaseBlock hi]
  rw [herase,Finset.card_erase_of_mem (mem_used.mpr hi)]

theorem Pool.card_used_full (n : ℕ) (hn : 0 < n) : (Pool.full n hn).used.card = 0 := by
  rw [Finset.card_eq_zero,Finset.eq_empty_iff_forall_notMem]
  exact fun i hi => Pool.not_allocated_full hn i (Pool.mem_used.mp hi)

/-- What is erased is erased from the image, where there are no repetitions. -/
theorem map_erase_of_nodup {α β : Type*} [DecidableEq α] [BEq β] [LawfulBEq β] {l : List α}
    {f : α → β} {x : α} (hl : (l.map f).Nodup) (hx : x ∈ l) :
    (l.erase x).map f = (l.map f).erase (f x) := by
  induction l with
  | nil => cases hx
  | cons y l ih =>
    rw [List.map_cons,List.nodup_cons] at hl
    by_cases hyx : y = x
    · subst hyx
      rw [List.erase_cons_head,List.map_cons,List.erase_cons_head]
    · have hxl : x ∈ l := (List.mem_cons.mp hx).resolve_left (Ne.symm hyx)
      have hne : f y ≠ f x := fun heq => hl.1 (heq ▸ List.mem_map_of_mem hxl)
      rw [List.erase_cons_tail (by simpa using hyx),List.map_cons,List.map_cons,
        List.erase_cons_tail (by simpa using hne),ih hl.2 hxl]

namespace DescriptorLayer

/-- The process and the number of the descriptor that an entry belongs to. -/
def holder (L : DescriptorLayer) (x : ℕ) : ℕ × ℤ := (L.pcb (L.descriptor x),L.fd (L.descriptor x))

/-- The number of a descriptor and the id of its object. -/
def handle (L : DescriptorLayer) (d : ℕ) : ℤ × ℤ := (L.fd d,L.id (L.object d))

def holders (L : DescriptorLayer) (id : ℤ) : Multiset (ℕ × ℤ) :=
  match L.byId id with
  | none => 0
  | some o => (L.descriptorsPtrs o : Multiset ℕ).map L.holder

/-- The layer seen from outside. -/
def registry (L : DescriptorLayer) : Registry ℕ ℤ ℤ where
  type id := (L.byId id).map L.type
  holders := L.holders
  table p := (L.descriptors p).map L.handle
  counter := L.lastFd
  objects := L.objectAllocator.used.card
  handles := L.descriptorAllocator.used.card

/-- What holds of a layer in every run, also of the lists of processes that are gone. -/
structure Sound (L : DescriptorLayer) : Prop where
  linked : L.Linked (fun _ => True)
  numbered : L.Numbered
  ids : (L.objectsList.map L.id).Nodup

variable {L L' : DescriptorLayer} {A : ℕ → Prop} {p d o x n : ℕ} {id type : ℤ}

theorem holders_none (hid : L.byId id = none) : L.holders id = 0 := by
  unfold holders
  rw [hid]

theorem holders_some (hid : L.byId id = some o) :
    L.holders id = (L.descriptorsPtrs o : Multiset ℕ).map L.holder := by
  unfold holders
  rw [hid]

namespace Sound

theorem byId_iff (h : L.Sound) : L.byId id = some o ↔ o ∈ L.objectsList ∧ L.id o = id :=
  find?_eq_some_iff_of_nodup h.ids id o

theorem handles_nodup (h : L.Sound) (p : ℕ) : ((L.descriptors p).map L.handle).Nodup := by
  refine (List.nodup_map_iff_inj_on (h.linked.descriptorsNodup p trivial)).mpr ?_
  intro d hd d' hd' heq
  exact h.numbered.distinct p d d' ((h.linked.has_iff trivial).mpr hd)
    ((h.linked.has_iff trivial).mpr hd') (Prod.mk.inj heq).1

/-- Every descriptor on a list belongs to its process and to an object. -/
theorem entry (h : L.Sound) (hd : d ∈ L.descriptors p) : L.descriptorAllocator.Allocated d ∧
    L.pcb d = p ∧ L.object d ∈ L.objectsList ∧ L.ptr d ∈ L.descriptorsPtrs (L.object d) ∧
      L.descriptor (L.ptr d) = d := by
  obtain ⟨ha,hpcb⟩ := h.linked.owned p trivial d hd
  exact ⟨ha,hpcb,h.linked.linked d ha⟩

theorem initial : DescriptorLayer.initial.Sound :=
  ⟨Linked.initial,⟨fun _ => le_rfl,fun _ _ hd => absurd hd.1 List.not_mem_nil,
    fun _ _ _ hd => absurd hd.1 List.not_mem_nil⟩,List.nodup_nil⟩

theorem initProcess (h : L.Sound) (p : ℕ) : (L.initProcess p).Sound :=
  ⟨h.linked.initProcess (by simp),h.numbered.initProcess p,h.ids⟩

theorem op (h : L.Sound) (hop : Op A L L') : L'.Sound := by
  have hop' : Op (fun _ => True) L L' := by
    cases hop with
    | create hid hok => exact .create hid hok
    | publish _ ho hd hx => exact .publish trivial ho hd hx
    | unlink _ hd => exact .unlink trivial hd
    | destroy ho hnil => exact .destroy ho hnil
  exact ⟨hop'.linked h.linked,hop'.numbered h.linked h.numbered,hop'.ids_nodup h.linked h.ids⟩

end Sound

theorem registry_initProcess (L : DescriptorLayer) (p : ℕ) :
    (L.initProcess p).registry = L.registry.enter p := by
  unfold registry Registry.enter DescriptorLayer.initProcess
  refine Registry.ext rfl rfl ?_ rfl (by dsimp only) (by dsimp only)
  funext q
  dsimp only
  by_cases hqp : q = p
  · subst hqp
    rw [Function.update_self,Function.update_self]
    rfl
  · rw [Function.update_of_ne hqp,Function.update_of_ne hqp]
    rfl

/-- The layer behind the creation of an object in the block `o`. -/
def created (L : DescriptorLayer) (o : ℕ) (pool : Pool maxNumResources) (id type : ℤ) :
    DescriptorLayer :=
  { L with
    objectAllocator := pool
    id := Function.update L.id o id
    type := Function.update L.type o type
    descriptorsPtrs := Function.update L.descriptorsPtrs o []
    objectsList := listAppend L.objectsList o }

theorem allocObject_created (hok : L.allocObject id type = .ok (o,L')) :
    ∃ pool, L.objectAllocator.getBlock = some (o,pool) ∧ L' = L.created o pool id type := by
  unfold allocObject at hok
  split at hok
  · cases hok
  · rename_i b pool hb
    cases hok
    exact ⟨pool,hb,rfl⟩

namespace Sound

theorem byId_created (h : L.Sound) (hid : L.byId id = none)
    (hok : L.allocObject id type = .ok (o,L')) : L'.byId = Function.update L.byId id (some o) := by
  have hsound := h.op (A := fun _ => True) (.create hid hok)
  have hnew := (h.linked.allocObject hok).2.1
  obtain ⟨pool,hb,rfl⟩ := allocObject_created hok
  have hmem : ∀ o', o' ∈ (L.created o pool id type).objectsList ↔ o' ∈ L.objectsList ∨ o' = o :=
    fun o' => mem_listAppend
  have hidNew : (L.created o pool id type).id o = id := Function.update_self _ _ _
  have hidOld : ∀ o' ∈ L.objectsList, (L.created o pool id type).id o' = L.id o' :=
    fun o' ho' => update_of_not_mem hnew ho' _ _
  funext i
  by_cases hi : i = id
  · subst hi
    rw [Function.update_self]
    exact hsound.byId_iff.mpr ⟨(hmem o).mpr (Or.inr rfl),hidNew⟩
  · rw [Function.update_of_ne hi]
    ext o'
    rw [hsound.byId_iff,h.byId_iff,hmem]
    constructor
    · rintro ⟨ho' | rfl,hid'⟩
      · exact ⟨ho',(hidOld o' ho').symm.trans hid'⟩
      · exact absurd (hid'.symm.trans hidNew) hi
    · rintro ⟨ho',hid'⟩
      exact ⟨Or.inl ho',(hidOld o' ho').trans hid'⟩

theorem registry_created (h : L.Sound) (hid : L.byId id = none)
    (hok : L.allocObject id type = .ok (o,L')) : L'.registry = L.registry.create id type := by
  have hbyId := h.byId_created hid hok
  have hnew := (h.linked.allocObject hok).2.1
  obtain ⟨pool,hb,rfl⟩ := allocObject_created hok
  have hbyIdNew : (L.created o pool id type).byId id = some o := by
    rw [hbyId,Function.update_self]
  have hbyIdOld : ∀ i, i ≠ id → (L.created o pool id type).byId i = L.byId i := by
    intro i hi
    rw [hbyId,Function.update_of_ne hi]
  have hidOld : ∀ o' ∈ L.objectsList, (L.created o pool id type).id o' = L.id o' :=
    fun o' ho' => update_of_not_mem hnew ho' _ _
  unfold registry Registry.create
  refine Registry.ext ?_ ?_ ?_ rfl ?_ (by dsimp only [created])
  · funext i
    dsimp only
    by_cases hi : i = id
    · subst hi
      rw [hbyIdNew,Function.update_self,Option.map_some]
      exact congrArg some (Function.update_self _ _ _)
    · rw [hbyIdOld i hi,Function.update_of_ne hi]
      cases hbyId : L.byId i with
      | none => rfl
      | some o' =>
        have ho' := (byId_eq_some hbyId).1
        exact congrArg some (update_of_not_mem hnew ho' _ _)
  · funext i
    dsimp only
    by_cases hi : i = id
    · subst hi
      have hnil : (L.created o pool i type).descriptorsPtrs o = [] := Function.update_self _ _ _
      rw [holders_none hid,holders_some hbyIdNew,hnil]
      rfl
    · cases hbyId : L.byId i with
      | none => rw [holders_none hbyId,holders_none ((hbyIdOld i hi).trans hbyId)]
      | some o' =>
        have ho' := (byId_eq_some hbyId).1
        have hptrs : (L.created o pool id type).descriptorsPtrs o' = L.descriptorsPtrs o' :=
          update_of_not_mem hnew ho' _ _
        rw [holders_some hbyId,holders_some ((hbyIdOld i hi).trans hbyId),hptrs]
        rfl
  · funext p
    refine List.map_congr_left fun d hd => ?_
    have hobject := (h.entry hd).2.2.1
    exact congrArg (Prod.mk (L.fd d)) (hidOld _ hobject)
  · dsimp only [created]
    rw [Pool.card_used_getBlock hb]

theorem registry_publish (h : L.Sound) {dPool xPool : Pool maxNumProcesses}
    (ho : o ∈ L.objectsList) (hd : L.descriptorAllocator.getBlock = some (d,dPool))
    (hx : L.descriptorPtrAllocator.getBlock = some (x,xPool)) :
    (L.publish p o d x dPool xPool).registry = L.registry.grant p (L.id o) := by
  have hfreeD := (Pool.getBlock_eq_some hd).1
  have hfreeX := (Pool.getBlock_eq_some hx).1
  have holder_old : ∀ o' ∈ L.objectsList, ∀ y ∈ L.descriptorsPtrs o',
      (L.publish p o d x dPool xPool).holder y = L.holder y := by
    intro o' ho' y hy
    obtain ⟨hya,hda,_⟩ := h.linked.entry o' ho' y hy
    have hyx : y ≠ x := by
      rintro rfl
      exact hfreeX hya
    have hdd : L.descriptor y ≠ d := by
      rintro heq
      exact hfreeD (heq ▸ hda)
    dsimp only [holder,publish]
    rw [Function.update_of_ne hyx,Function.update_of_ne hdd,Function.update_of_ne hdd]
  have holder_new : (L.publish p o d x dPool xPool).holder x = (p,L.lastFd p) := by
    dsimp only [holder,publish]
    rw [Function.update_self,Function.update_self,Function.update_self]
  have hbyId : ∀ i, (L.publish p o d x dPool xPool).byId i = L.byId i := fun _ => rfl
  unfold registry Registry.grant
  refine Registry.ext rfl ?_ ?_ rfl (by dsimp only [publish]) ?_
  · funext i
    dsimp only
    cases hi : L.byId i with
    | none =>
      have hio : i ≠ L.id o := by
        rintro rfl
        cases hi.symm.trans (h.byId_iff.mpr ⟨ho,rfl⟩)
      rw [Function.update_of_ne hio,holders_none hi,holders_none ((hbyId i).trans hi)]
    | some o' =>
      obtain ⟨ho',rfl⟩ := byId_eq_some hi
      rw [holders_some ((hbyId _).trans hi)]
      by_cases hoo : o' = o
      · subst hoo
        have hptrs : (L.publish p o' d x dPool xPool).descriptorsPtrs o' =
            L.descriptorsPtrs o' ++ [x] := Function.update_self _ _ _
        rw [Function.update_self,holders_some hi,hptrs,Multiset.map_coe,Multiset.map_coe,
          List.map_append,List.map_congr_left (holder_old o' ho'),List.map_singleton,holder_new,
          Multiset.cons_coe]
        exact Multiset.coe_eq_coe.mpr (List.perm_append_singleton _ _)
      · have hne : L.id o' ≠ L.id o := by
          intro heq
          exact hoo (List.inj_on_of_nodup_map h.ids ho' ho heq)
        have hptrs : (L.publish p o d x dPool xPool).descriptorsPtrs o' = L.descriptorsPtrs o' :=
          Function.update_of_ne hoo _ _
        rw [Function.update_of_ne hne,holders_some hi,hptrs,Multiset.map_coe,Multiset.map_coe,
          List.map_congr_left (holder_old o' ho')]
  · funext q
    have handle_old : ∀ d' ∈ L.descriptors q,
        (L.publish p o d x dPool xPool).handle d' = L.handle d' := by
      intro d' hd'
      have hdd : d' ≠ d := by
        rintro rfl
        exact hfreeD (h.entry hd').1
      dsimp only [handle,publish]
      rw [Function.update_of_ne hdd,Function.update_of_ne hdd]
    dsimp only
    by_cases hqp : q = p
    · subst hqp
      have hlist : (L.publish q o d x dPool xPool).descriptors q = L.descriptors q ++ [d] :=
        Function.update_self _ _ _
      have handle_new : (L.publish q o d x dPool xPool).handle d = (L.lastFd q,L.id o) := by
        dsimp only [handle,publish]
        rw [Function.update_self,Function.update_self]
      rw [Function.update_self,hlist,List.map_append,List.map_congr_left handle_old,
        List.map_singleton,handle_new]
    · have hlist : (L.publish p o d x dPool xPool).descriptors q = L.descriptors q :=
        Function.update_of_ne hqp _ _
      rw [Function.update_of_ne hqp,hlist,List.map_congr_left handle_old]
  · dsimp only [publish]
    rw [Pool.card_used_getBlock hd]

theorem registry_unlinked (h : L.Sound) (hd : d ∈ L.descriptors p) :
    (L.unlinked p d).registry = L.registry.drop p (L.handle d) := by
  obtain ⟨ha,hpcb,ho,hptr,hback⟩ := h.entry hd
  have hbyId : ∀ i, (L.unlinked p d).byId i = L.byId i := fun _ => rfl
  have holder_ptr : L.holder (L.ptr d) = (p,L.fd d) := by
    dsimp only [holder]
    rw [hback,hpcb]
  unfold registry Registry.drop
  refine Registry.ext rfl ?_ ?_ rfl (by dsimp only [unlinked]) ?_
  · funext i
    dsimp only
    cases hi : L.byId i with
    | none =>
      have hio : i ≠ (L.handle d).2 := by
        rintro rfl
        cases hi.symm.trans (h.byId_iff.mpr ⟨ho,rfl⟩)
      rw [Function.update_of_ne hio,holders_none hi,holders_none ((hbyId i).trans hi)]
    | some o' =>
      obtain ⟨ho',rfl⟩ := byId_eq_some hi
      rw [holders_some ((hbyId _).trans hi)]
      by_cases hoo : o' = L.object d
      · subst hoo
        have hptrs : (L.unlinked p d).descriptorsPtrs (L.object d) =
            (L.descriptorsPtrs (L.object d)).erase (L.ptr d) := Function.update_self _ _ _
        have hid : L.id (L.object d) = (L.handle d).2 := rfl
        have hfd : L.fd d = (L.handle d).1 := rfl
        rw [← hid,Function.update_self,holders_some hi,hptrs,← Multiset.coe_erase,← hfd,
          ← holder_ptr]
        exact Multiset.map_erase_of_mem _ _ hptr
      · have hne : L.id o' ≠ (L.handle d).2 := by
          intro heq
          exact hoo (List.inj_on_of_nodup_map h.ids ho' ho heq)
        have hptrs : (L.unlinked p d).descriptorsPtrs o' = L.descriptorsPtrs o' :=
          Function.update_of_ne hoo _ _
        rw [Function.update_of_ne hne,holders_some hi,hptrs]
        rfl
  · funext q
    dsimp only
    by_cases hqp : q = p
    · subst hqp
      have hlist : (L.unlinked q d).descriptors q = (L.descriptors q).erase d :=
        Function.update_self _ _ _
      rw [Function.update_self,hlist]
      exact map_erase_of_nodup (h.handles_nodup q) hd
    · have hlist : (L.unlinked p d).descriptors q = L.descriptors q := Function.update_of_ne hqp _ _
      rw [Function.update_of_ne hqp,hlist]
      rfl
  · dsimp only [unlinked]
    rw [Pool.card_used_releaseBlock ha]

theorem byId_destroyed (h : L.Sound) (ho : o ∈ L.objectsList) (hnil : L.descriptorsPtrs o = []) :
    (L.destroyed o).byId = Function.update L.byId (L.id o) none := by
  have hsound := h.op (A := fun _ => True) (.destroy ho hnil)
  have hmem : ∀ o', o' ∈ (L.destroyed o).objectsList ↔ o' ≠ o ∧ o' ∈ L.objectsList :=
    fun _ => h.linked.objectsNodup.mem_erase_iff
  funext i
  by_cases hi : i = L.id o
  · subst hi
    rw [Function.update_self,Option.eq_none_iff_forall_ne_some]
    intro o' ho'
    obtain ⟨hmem',hid⟩ := hsound.byId_iff.mp ho'
    obtain ⟨hne,hold⟩ := (hmem o').mp hmem'
    exact hne (List.inj_on_of_nodup_map h.ids hold ho hid)
  · rw [Function.update_of_ne hi]
    ext o'
    rw [hsound.byId_iff,h.byId_iff,hmem]
    constructor
    · exact fun ho' => ⟨ho'.1.2,ho'.2⟩
    · rintro ⟨ho',rfl⟩
      exact ⟨⟨fun heq => hi (heq ▸ rfl),ho'⟩,rfl⟩

theorem registry_destroyed (h : L.Sound) (ho : o ∈ L.objectsList)
    (hnil : L.descriptorsPtrs o = []) :
    (L.destroyed o).registry = L.registry.discard (L.id o) := by
  have hbyId := h.byId_destroyed ho hnil
  have hbyIdSelf : (L.destroyed o).byId (L.id o) = none := by
    rw [hbyId,Function.update_self]
  have hbyIdOther : ∀ i, i ≠ L.id o → (L.destroyed o).byId i = L.byId i := by
    intro i hi
    rw [hbyId,Function.update_of_ne hi]
  unfold registry Registry.discard
  refine Registry.ext ?_ ?_ rfl rfl ?_ (by dsimp only [destroyed])
  · funext i
    dsimp only
    by_cases hi : i = L.id o
    · subst hi
      rw [Function.update_self,hbyIdSelf]
      rfl
    · rw [Function.update_of_ne hi,hbyIdOther i hi]
      rfl
  · funext i
    dsimp only
    by_cases hi : i = L.id o
    · subst hi
      rw [holders_none hbyIdSelf,holders_some (h.byId_iff.mpr ⟨ho,rfl⟩),hnil]
      rfl
    · cases hbyId : L.byId i with
      | none => rw [holders_none hbyId,holders_none ((hbyIdOther i hi).trans hbyId)]
      | some o' =>
        rw [holders_some hbyId,holders_some ((hbyIdOther i hi).trans hbyId)]
        rfl
  · dsimp only [destroyed]
    rw [Pool.card_used_releaseBlock ((h.linked.objects o).mpr ho)]

/-- The loop of an exit drops the handles one after the other. -/
theorem registry_releaseAll (h : L.Sound) (hok : L.releaseAll p n = .ok L') :
    L'.registry = L.registry.leave p := by
  induction n generalizing L with
  | zero =>
    unfold releaseAll at hok
    split at hok
    · rename_i hnil
      cases hok
      dsimp only [Registry.leave,registry]
      rw [hnil]
      rfl
    · cases hok
  | succ n ih =>
    unfold releaseAll at hok
    split at hok
    · rename_i hnil
      cases hok
      dsimp only [Registry.leave,registry]
      rw [hnil]
      rfl
    · rename_i d ds hds
      have hd : d ∈ L.descriptors p := by
        rw [hds]
        exact List.mem_cons_self
      rw [h.linked.unlink_eq trivial hd,ok_bind] at hok
      have hrest := ih (h.op (A := fun _ => True) (.unlink trivial hd)) hok
      rw [hrest,h.registry_unlinked hd]
      have htable : L.registry.table p = L.handle d :: ds.map L.handle := by
        dsimp only [registry]
        rw [hds,List.map_cons]
      have hdrop : (L.registry.drop p (L.handle d)).table p = ds.map L.handle := by
        dsimp only [Registry.drop]
        rw [Function.update_self,htable,List.erase_cons_head]
      unfold Registry.leave
      rw [hdrop,htable,List.foldl_cons]

end Sound

end DescriptorLayer

end DisastrOS
