import DisastrOS.Kernel.LinkedList

/-! # Parents and children

Every process that was created by another one is named by exactly one entry of
exactly one children list, and that list belongs to a process that has not exited.
The parent field of a process is only required to be set: an exit hands its
children to init without updating it, so it may name a process that is gone.
-/
namespace DisastrOS

structure Family (allocated entryAllocated : ℕ → Prop) (children : ℕ → List ℕ) (child : ℕ → ℕ)
    (parent : ℕ → Option ℕ) (zombie : List ℕ) : Prop where
  nodup : ∀ p, allocated p → (children p).Nodup
  entry : ∀ p, allocated p → ∀ x ∈ children p, entryAllocated x
  childAllocated : ∀ p, allocated p → ∀ x ∈ children p, allocated (child x)
  childParent : ∀ p, allocated p → ∀ x ∈ children p, parent (child x) ≠ none
  notSelf : ∀ p, allocated p → ∀ x ∈ children p, child x ≠ p
  unique : ∀ p q, allocated p → allocated q → ∀ x ∈ children p, ∀ y ∈ children q,
    child x = child y → p = q ∧ x = y
  owned : ∀ p, allocated p → parent p ≠ none → ∃ q, allocated q ∧ ∃ x ∈ children q, child x = p
  zombieChildren : ∀ p, allocated p → p ∈ zombie → children p = []
  zombieParent : ∀ p, allocated p → p ∈ zombie → parent p ≠ none

/-- The process that `init_pcb` names is alive and was created by nobody. -/
def HasInit (allocated : ℕ → Prop) (parent : ℕ → Option ℕ) (initPcb : Option ℕ) : Prop :=
  ∃ i, initPcb = some i ∧ allocated i ∧ parent i = none

/-- The children lists when `q` has got the children of `r` behind its own. -/
def handedOver (children : ℕ → List ℕ) (q r : ℕ) : ℕ → List ℕ :=
  Function.update (Function.update children r []) q (children q ++ children r)

section HandedOver
variable {ch : ℕ → List ℕ} {q r x : ℕ} {rest : List ℕ}

theorem handedOver_nil (hch : ch r = []) : handedOver ch q r = ch := by
  funext o
  unfold handedOver
  by_cases hoq : o = q
  · subst hoq
    simp [hch]
  · rw [Function.update_of_ne hoq]
    by_cases hor : o = r
    · subst hor
      rw [Function.update_self,hch]
    · rw [Function.update_of_ne hor]

/-- Handing over the first child before the others makes no difference. -/
theorem handedOver_cons (hqr : q ≠ r) (hch : ch r = x :: rest) :
    handedOver (Function.update (Function.update ch r rest) q
      (listAppend (Function.update ch r rest q) x)) q r = handedOver ch q r := by
  funext o
  unfold handedOver
  by_cases hoq : o = q
  · subst hoq
    simp [hqr,hqr.symm,hch,listAppend]
  · by_cases hor : o = r
    · subst hor
      simp [hoq]
    · simp [hoq,hor]

/-- Another process has its own children, and those of `r` if it is the one that gets them. -/
theorem mem_handedOver {o y : ℕ} (hor : o ≠ r) :
    y ∈ handedOver ch q r o ↔ y ∈ ch o ∨ (o = q ∧ y ∈ ch r) := by
  unfold handedOver
  by_cases hoq : o = q
  · subst hoq
    simp
  · simp [hoq,hor]

end HandedOver

namespace Family
variable {A A' E E' : ℕ → Prop} {ch : ℕ → List ℕ} {c : ℕ → ℕ} {par : ℕ → Option ℕ}
variable {Z : List ℕ} {p q r x y : ℕ}

/-- Only allocated owners of entries are not zombies. -/
theorem owner_not_zombie (h : Family A E ch c par Z) (hq : A q) (hx : x ∈ ch q) : q ∉ Z := by
  intro hz
  rw [h.zombieChildren q hq hz] at hx
  cases hx

/-- A new process without a parent. -/
theorem start (h : Family A E ch c par Z) (hp : ¬ A p) (hA : ∀ q, A' q ↔ q = p ∨ A q)
    (hpZ : p ∉ Z) :
    Family A' E (Function.update ch p []) c (Function.update par p none) Z := by
  have hold : ∀ q, A' q → q ≠ p → A q := fun q hq hqp => ((hA q).mp hq).resolve_left hqp
  have hlook : ∀ q, A' q → ∀ y ∈ Function.update ch p [] q, A q ∧ y ∈ ch q := by
    intro q hq y hy
    obtain ⟨hy,hqp⟩ := mem_update_nil.mp hy
    exact ⟨hold q hq hqp,hy⟩
  have hne : ∀ q, A q → q ≠ p := by
    rintro q hq rfl
    exact hp hq
  have hzombie : ∀ q, q ∈ Z → q ≠ p := by
    rintro q hq rfl
    exact hpZ hq
  constructor
  case nodup =>
    intro q hq
    by_cases hqp : q = p
    · subst hqp
      rw [Function.update_self]
      exact List.nodup_nil
    · rw [Function.update_of_ne hqp]
      exact h.nodup q (hold q hq hqp)
  case entry =>
    intro q hq y hy
    obtain ⟨hq,hy⟩ := hlook q hq y hy
    exact h.entry q hq y hy
  case childAllocated =>
    intro q hq y hy
    obtain ⟨hq,hy⟩ := hlook q hq y hy
    exact (hA _).mpr (Or.inr (h.childAllocated q hq y hy))
  case childParent =>
    intro q hq y hy
    obtain ⟨hq,hy⟩ := hlook q hq y hy
    rw [Function.update_of_ne (hne _ (h.childAllocated q hq y hy))]
    exact h.childParent q hq y hy
  case notSelf =>
    intro q hq y hy
    obtain ⟨hq,hy⟩ := hlook q hq y hy
    exact h.notSelf q hq y hy
  case unique =>
    intro q q' hq hq' y hy z hz hyz
    obtain ⟨hq,hy⟩ := hlook q hq y hy
    obtain ⟨hq',hz⟩ := hlook q' hq' z hz
    exact h.unique q q' hq hq' y hy z hz hyz
  case owned =>
    intro q hq hpar
    have hqp : q ≠ p := by
      rintro rfl
      rw [Function.update_self] at hpar
      exact hpar rfl
    rw [Function.update_of_ne hqp] at hpar
    obtain ⟨o,ho,y,hy,hyq⟩ := h.owned q (hold q hq hqp) hpar
    exact ⟨o,(hA o).mpr (Or.inr ho),y,mem_update_nil.mpr ⟨hy,hne o ho⟩,hyq⟩
  case zombieChildren =>
    intro q hq hqZ
    rw [Function.update_of_ne (hzombie q hqZ)]
    exact h.zombieChildren q (hold q hq (hzombie q hqZ)) hqZ
  case zombieParent =>
    intro q hq hqZ
    rw [Function.update_of_ne (hzombie q hqZ)]
    exact h.zombieParent q (hold q hq (hzombie q hqZ)) hqZ

/-- A process without a parent becomes a child of `r`. -/
theorem enlist (h : Family A E ch c par Z) (hr : A r) (hrZ : r ∉ Z) (hp : A p) (hrp : r ≠ p)
    (hroot : par p = none) (hx : ¬ E x) (hE : ∀ y, E' y ↔ y = x ∨ E y) :
    Family A E' (Function.update ch r (listAppend (ch r) x)) (Function.update c x p)
      (Function.update par p (some r)) Z := by
  -- no entry names `p` so far
  have hchild : ∀ q, A q → ∀ y ∈ ch q, c y ≠ p := by
    rintro q hq y hy rfl
    exact h.childParent q hq y hy hroot
  have hold : ∀ q, A q → ∀ y ∈ ch q, Function.update c x p y = c y := by
    intro q hq y hy
    refine Function.update_of_ne ?_ _ _
    rintro rfl
    exact hx (h.entry q hq y hy)
  constructor
  case nodup =>
    intro q hq
    exact nodup_update_listAppend (h.nodup q hq) (fun _ hm => hx (h.entry q hq x hm))
  case entry =>
    intro q hq y hy
    rcases mem_update_listAppend.mp hy with hy | ⟨_,rfl⟩
    · exact (hE y).mpr (Or.inr (h.entry q hq y hy))
    · exact (hE y).mpr (Or.inl rfl)
  case childAllocated =>
    intro q hq y hy
    rcases mem_update_listAppend.mp hy with hy | ⟨_,rfl⟩
    · rw [hold q hq y hy]
      exact h.childAllocated q hq y hy
    · rwa [Function.update_self]
  case childParent =>
    intro q hq y hy
    rcases mem_update_listAppend.mp hy with hy | ⟨_,rfl⟩
    · rw [hold q hq y hy,Function.update_of_ne (hchild q hq y hy)]
      exact h.childParent q hq y hy
    · simp
  case notSelf =>
    intro q hq y hy
    rcases mem_update_listAppend.mp hy with hy | ⟨rfl,rfl⟩
    · rw [hold q hq y hy]
      exact h.notSelf q hq y hy
    · rw [Function.update_self]
      exact hrp.symm
  case unique =>
    intro q q' hq hq' y hy z hz hyz
    rcases mem_update_listAppend.mp hy with hyq | ⟨rfl,rfl⟩ <;>
      rcases mem_update_listAppend.mp hz with hzq | ⟨rfl,rfl⟩
    · rw [hold q hq y hyq,hold q' hq' z hzq] at hyz
      exact h.unique q q' hq hq' y hyq z hzq hyz
    · rw [hold q hq y hyq,Function.update_self] at hyz
      exact absurd hyz (hchild q hq y hyq)
    · rw [Function.update_self,hold q' hq' z hzq] at hyz
      exact absurd hyz.symm (hchild q' hq' z hzq)
    · exact ⟨rfl,rfl⟩
  case owned =>
    intro q hq hpar
    by_cases hqp : q = p
    · subst hqp
      exact ⟨r,hr,x,mem_update_listAppend.mpr (Or.inr ⟨rfl,rfl⟩),Function.update_self _ _ _⟩
    · rw [Function.update_of_ne hqp] at hpar
      obtain ⟨o,ho,y,hy,hyq⟩ := h.owned q hq hpar
      exact ⟨o,ho,y,mem_update_listAppend.mpr (Or.inl hy),(hold o ho y hy).trans hyq⟩
  case zombieChildren =>
    intro q hq hqZ
    have hqr : q ≠ r := by
      rintro rfl
      exact hrZ hqZ
    rw [Function.update_of_ne hqr]
    exact h.zombieChildren q hq hqZ
  case zombieParent =>
    intro q hq hqZ
    by_cases hqp : q = p
    · subst hqp
      simp
    · rw [Function.update_of_ne hqp]
      exact h.zombieParent q hq hqZ

/-- The running process gets a new child. -/
theorem adopt (h : Family A E ch c par Z) (hr : A r) (hrZ : r ∉ Z) (hp : ¬ A p)
    (hA : ∀ q, A' q ↔ q = p ∨ A q) (hx : ¬ E x) (hE : ∀ y, E' y ↔ y = x ∨ E y) (hpZ : p ∉ Z) :
    Family A' E' (Function.update (Function.update ch p []) r
        (listAppend (Function.update ch p [] r) x))
      (Function.update c x p) (Function.update (Function.update par p none) p (some r)) Z := by
  have hrp : r ≠ p := by
    rintro rfl
    exact hp hr
  exact (h.start hp hA hpZ).enlist ((hA r).mpr (Or.inr hr)) hrZ ((hA p).mpr (Or.inl rfl)) hrp
    (Function.update_self _ _ _) hx hE

/-- One pass of the reparenting loop: the first child of `r` goes to the end of
the children of `q`. -/
theorem handOver (h : Family A E ch c par Z) (hr : A r) (hq : A q) (hqr : q ≠ r) (hqZ : q ∉ Z)
    (hqp : par q = none) {rest : List ℕ} (hch : ch r = x :: rest) :
    Family A E (Function.update (Function.update ch r rest) q
      (listAppend (Function.update ch r rest q) x)) c par Z := by
  have hxr : x ∈ ch r := by
    rw [hch]
    exact List.mem_cons_self
  have hrest : rest = (ch r).erase x := by rw [hch,List.erase_cons_head]
  subst hrest
  have hlook : ∀ {o y}, y ∈ Function.update (Function.update ch r ((ch r).erase x)) q
      (listAppend (Function.update ch r ((ch r).erase x) q) x) o ↔
      y ∈ ch o ∧ (o = r → y ≠ x) ∨ o = q ∧ y = x :=
    mem_update_listAppend.trans (or_congr_left (mem_update_erase (h.nodup r hr)))
  constructor
  case nodup =>
    intro o ho
    refine nodup_update_listAppend (nodup_update_erase (h.nodup o ho)) ?_
    rintro rfl hm
    have hxo := ((mem_update_erase (h.nodup r hr)).mp hm).1
    exact hqr (h.unique o r ho hr x hxo x hxr rfl).1
  case entry =>
    intro o ho y hy
    rcases hlook.mp hy with ⟨hy,_⟩ | ⟨_,rfl⟩
    · exact h.entry o ho y hy
    · exact h.entry r hr y hxr
  case childAllocated =>
    intro o ho y hy
    rcases hlook.mp hy with ⟨hy,_⟩ | ⟨_,rfl⟩
    · exact h.childAllocated o ho y hy
    · exact h.childAllocated r hr y hxr
  case childParent =>
    intro o ho y hy
    rcases hlook.mp hy with ⟨hy,_⟩ | ⟨_,rfl⟩
    · exact h.childParent o ho y hy
    · exact h.childParent r hr y hxr
  case notSelf =>
    intro o ho y hy
    rcases hlook.mp hy with ⟨hy,_⟩ | ⟨rfl,rfl⟩
    · exact h.notSelf o ho y hy
    · rintro he
      exact h.childParent r hr y hxr (he ▸ hqp)
  case unique =>
    intro o o' ho ho' y hy z hz hyz
    rcases hlook.mp hy with ⟨hyo,hyx⟩ | ⟨rfl,rfl⟩ <;>
      rcases hlook.mp hz with ⟨hzo,hzx⟩ | ⟨rfl,rfl⟩
    · exact h.unique o o' ho ho' y hyo z hzo hyz
    · obtain ⟨hro,hyz⟩ := h.unique o r ho hr y hyo z hxr hyz
      exact absurd hyz (hyx hro)
    · obtain ⟨hro,hyz⟩ := h.unique r o' hr ho' y hxr z hzo hyz
      exact absurd hyz.symm (hzx hro.symm)
    · exact ⟨rfl,rfl⟩
  case owned =>
    intro o ho hpar
    obtain ⟨o',ho',y,hy,hyo⟩ := h.owned o ho hpar
    by_cases hmoved : o' = r ∧ y = x
    · exact ⟨q,hq,y,hlook.mpr (Or.inr ⟨rfl,hmoved.2⟩),hyo⟩
    · exact ⟨o',ho',y,hlook.mpr (Or.inl ⟨hy,not_and.mp hmoved⟩),hyo⟩
  case zombieChildren =>
    intro o ho hoZ
    have hoq : o ≠ q := by
      rintro rfl
      exact hqZ hoZ
    have hor : o ≠ r := by
      rintro rfl
      exact h.owner_not_zombie hr hxr hoZ
    rw [Function.update_of_ne hoq,Function.update_of_ne hor]
    exact h.zombieChildren o ho hoZ
  case zombieParent => exact h.zombieParent

/-- The whole reparenting loop. -/
theorem handAllOver (h : Family A E ch c par Z) (hr : A r) (hq : A q) (hqr : q ≠ r) (hqZ : q ∉ Z)
    (hqp : par q = none) : Family A E (handedOver ch q r) c par Z := by
  induction hl : ch r generalizing ch with
  | nil => rwa [handedOver_nil hl]
  | cons x rest ih =>
    rw [← handedOver_cons hqr hl]
    refine ih (h.handOver hr hq hqr hqZ hqp hl) ?_
    rw [Function.update_of_ne hqr.symm,Function.update_self]

/-- A process is not among its own children, so handing these over does not move its
own entry. -/
theorem exists_mem_handedOver (h : Family A E ch c par Z) (hr : A r) (hpr : p ≠ r) :
    (∃ x ∈ handedOver ch q r p, c x = r) ↔ ∃ x ∈ ch p, c x = r := by
  unfold handedOver
  by_cases hpq : p = q
  · subst hpq
    rw [Function.update_self]
    constructor
    · rintro ⟨x,hx,hxr⟩
      rcases List.mem_append.mp hx with hx | hx
      · exact ⟨x,hx,hxr⟩
      · exact absurd hxr (h.notSelf r hr x hx)
    · rintro ⟨x,hx,hxr⟩
      exact ⟨x,List.mem_append_left _ hx,hxr⟩
  · rw [Function.update_of_ne hpq,Function.update_of_ne hpr]

/-- A process without children becomes a zombie. -/
theorem die (h : Family A E ch c par Z) (hch : ch r = []) (hpar : par r ≠ none) :
    Family A E ch c par (listAppend Z r) := by
  refine { h with zombieChildren := ?_, zombieParent := ?_ }
  · intro p hp hpZ
    rcases mem_listAppend.mp hpZ with hpZ | rfl
    · exact h.zombieChildren p hp hpZ
    · exact hch
  · intro p hp hpZ
    rcases mem_listAppend.mp hpZ with hpZ | rfl
    · exact h.zombieParent p hp hpZ
    · exact hpar

/-- A zombie is freed and its entry removed; the entry's block may be kept. -/
theorem collect (h : Family A E ch c par Z) (hq : A q) (hx : x ∈ ch q) (hcx : c x = p)
    (hpZ : p ∈ Z) (hA : ∀ o, A' o ↔ o ≠ p ∧ A o)
    (hE : ∀ y, y ≠ x → E y → E' y) :
    Family A' E' (Function.update ch q ((ch q).erase x)) c par (Z.erase p) := by
  have hold : ∀ o, A' o → A o := fun o ho => ((hA o).mp ho).2
  -- `x` is an entry of `q` alone
  have hlook : ∀ o, A' o → ∀ y ∈ Function.update ch q ((ch q).erase x) o, y ∈ ch o ∧ y ≠ x := by
    intro o ho y hy
    obtain ⟨hyo,hyx⟩ := (mem_update_erase (h.nodup q hq)).mp hy
    refine ⟨hyo,?_⟩
    rintro rfl
    exact hyx (h.unique o q (hold o ho) hq y hyo y hx rfl).1 rfl
  constructor
  case nodup => exact fun o ho => nodup_update_erase (h.nodup o (hold o ho))
  case entry =>
    intro o ho y hy
    obtain ⟨hy,hyx⟩ := hlook o ho y hy
    exact hE y hyx (h.entry o (hold o ho) y hy)
  case childAllocated =>
    intro o ho y hy
    obtain ⟨hy,hyx⟩ := hlook o ho y hy
    refine (hA _).mpr ⟨?_,h.childAllocated o (hold o ho) y hy⟩
    intro hcy
    exact hyx (h.unique o q (hold o ho) hq y hy x hx (hcy.trans hcx.symm)).2
  case childParent => exact fun o ho y hy => h.childParent o (hold o ho) y (hlook o ho y hy).1
  case notSelf => exact fun o ho y hy => h.notSelf o (hold o ho) y (hlook o ho y hy).1
  case unique =>
    intro o o' ho ho' y hy z hz hyz
    exact h.unique o o' (hold o ho) (hold o' ho') y (hlook o ho y hy).1 z (hlook o' ho' z hz).1 hyz
  case owned =>
    intro o ho hpar
    obtain ⟨o',ho',y,hy,hyo⟩ := h.owned o (hold o ho) hpar
    have hyx : y ≠ x := by
      rintro rfl
      exact ((hA o).mp ho).1 (hyo.symm.trans hcx)
    have hop : o' ≠ p := by
      rintro rfl
      exact h.owner_not_zombie ho' hy hpZ
    exact ⟨o',(hA o').mpr ⟨hop,ho'⟩,y,(mem_update_erase (h.nodup q hq)).mpr ⟨hy,fun _ => hyx⟩,hyo⟩
  case zombieChildren =>
    intro o ho hoZ
    have hoZ' := List.mem_of_mem_erase hoZ
    have hoq : o ≠ q := by
      rintro rfl
      exact h.owner_not_zombie hq hx hoZ'
    rw [Function.update_of_ne hoq]
    exact h.zombieChildren o (hold o ho) hoZ'
  case zombieParent =>
    intro o ho hoZ
    exact h.zombieParent o (hold o ho) (List.mem_of_mem_erase hoZ)

end Family

namespace HasInit
variable {A A' : ℕ → Prop} {par : ℕ → Option ℕ} {i : Option ℕ} {p r : ℕ}

theorem adopt (h : HasInit A par i) (hp : ¬ A p) (hA : ∀ q, A' q ↔ q = p ∨ A q) :
    HasInit A' (Function.update (Function.update par p none) p (some r)) i := by
  obtain ⟨j,hj,hjA,hjp⟩ := h
  have hjne : j ≠ p := by
    rintro rfl
    exact hp hjA
  refine ⟨j,hj,(hA j).mpr (Or.inr hjA),?_⟩
  rw [Function.update_of_ne hjne,Function.update_of_ne hjne,hjp]

theorem free (h : HasInit A par i) (hp : par p ≠ none) (hA : ∀ q, A' q ↔ q ≠ p ∧ A q) :
    HasInit A' par i := by
  obtain ⟨j,hj,hjA,hjp⟩ := h
  have hjne : j ≠ p := by
    rintro rfl
    exact hp hjp
  exact ⟨j,hj,(hA j).mpr ⟨hjne,hjA⟩,hjp⟩

end HasInit

end DisastrOS
