import Mathlib.Logic.Relation

/-! # Forests that change

Who belongs to a forest is owned by at most one other, and is reached from somebody who is owned
by nobody. New leaves and new roots, the handing over of all that one owns to a root, and the
removal of leaves keep it a forest.
-/
namespace Forest
open Relation

variable {α : Type*} {A A' : α → Prop} {own own' : α → α → Prop} {p q r i c d : α}

/-- A relation between owners and owned that has no cycles. -/
structure Rooted (A : α → Prop) (own : α → α → Prop) : Prop where
  member : ∀ p c, own p c → A p ∧ A c
  unique : ∀ p q c, own p c → own q c → p = q
  rooted : ∀ p, A p → ∃ i, A i ∧ (∀ q, ¬ own q i) ∧ ReflTransGen own i p

/-- Nobody who is reached from a root owns itself, not even through others. -/
theorem Rooted.acyclic (h : Rooted A own) (p : α) : ¬ TransGen own p p := by
  intro hcycle
  have hp : A p := by
    obtain ⟨c,hpc,_⟩ := TransGen.head'_iff.mp hcycle
    exact (h.member p c hpc).1
  obtain ⟨i,_,hi,hreach⟩ := h.rooted p hp
  revert hcycle
  induction hreach with
  | refl =>
    intro hcycle
    obtain ⟨q,_,hq⟩ := TransGen.tail'_iff.mp hcycle
    exact hi q hq
  | @tail b c _ hbc ih =>
    intro hcycle
    -- the cycle comes back through the only owner
    obtain ⟨d,hcd,hdc⟩ := TransGen.tail'_iff.mp hcycle
    obtain rfl := h.unique d b c hdc hbc
    exact ih (h.member d c hdc).1 (TransGen.head' hdc hcd)

/-- A new leaf. -/
theorem Rooted.adopt (h : Rooted A own) (hr : A r) (hp : ¬ A p) (hA : ∀ q, A' q ↔ q = p ∨ A q)
    (hown : ∀ q c, own' q c ↔ own q c ∨ q = r ∧ c = p) : Rooted A' own' := by
  have hmono : ∀ q c, own q c → own' q c := fun q c hq => (hown q c).mpr (Or.inl hq)
  have hold : ∀ q c, own q c → c ≠ p := by
    rintro q c hq rfl
    exact hp (h.member q c hq).2
  have hroot : ∀ j, A j → (∀ q, ¬ own q j) → ∀ q, ¬ own' q j := by
    intro j hj hno q hq
    rcases (hown q j).mp hq with hq | ⟨_,rfl⟩
    · exact hno q hq
    · exact hp hj
  refine ⟨?_,?_,?_⟩
  · intro q c hq
    rcases (hown q c).mp hq with hq | ⟨rfl,rfl⟩
    · obtain ⟨hqA,hcA⟩ := h.member q c hq
      exact ⟨(hA q).mpr (Or.inr hqA),(hA c).mpr (Or.inr hcA)⟩
    · exact ⟨(hA q).mpr (Or.inr hr),(hA c).mpr (Or.inl rfl)⟩
  · intro q₁ q₂ c h₁ h₂
    rcases (hown q₁ c).mp h₁ with h₁ | ⟨rfl,rfl⟩
    · rcases (hown q₂ c).mp h₂ with h₂ | ⟨_,rfl⟩
      · exact h.unique q₁ q₂ c h₁ h₂
      · exact absurd rfl (hold q₁ c h₁)
    · rcases (hown q₂ c).mp h₂ with h₂ | ⟨rfl,_⟩
      · exact absurd rfl (hold q₂ c h₂)
      · rfl
  · intro q hq
    rcases (hA q).mp hq with rfl | hq
    · obtain ⟨j,hj,hno,hreach⟩ := h.rooted r hr
      exact ⟨j,(hA j).mpr (Or.inr hj),hroot j hj hno,
        (ReflTransGen.mono hmono _ _ hreach).tail ((hown r q).mpr (Or.inr ⟨rfl,rfl⟩))⟩
    · obtain ⟨j,hj,hno,hreach⟩ := h.rooted q hq
      exact ⟨j,(hA j).mpr (Or.inr hj),hroot j hj hno,ReflTransGen.mono hmono _ _ hreach⟩

/-- A new root. -/
theorem Rooted.enter (h : Rooted A own) (hp : ¬ A p) (hA : ∀ q, A' q ↔ q = p ∨ A q)
    (hown : ∀ q c, own' q c ↔ own q c) : Rooted A' own' := by
  obtain rfl : own' = own := funext fun q => funext fun c => propext (hown q c)
  refine ⟨?_,h.unique,?_⟩
  · intro q c hq
    obtain ⟨hqA,hcA⟩ := h.member q c hq
    exact ⟨(hA q).mpr (Or.inr hqA),(hA c).mpr (Or.inr hcA)⟩
  · intro q hq
    rcases (hA q).mp hq with rfl | hq
    · exact ⟨q,(hA q).mpr (Or.inl rfl),fun o ho => hp (h.member o q ho).2,.refl⟩
    · obtain ⟨j,hj,hno,hreach⟩ := h.rooted q hq
      exact ⟨j,(hA j).mpr (Or.inr hj),hno,hreach⟩

/-- All that `r` owns goes to a root. -/
theorem Rooted.handOver (h : Rooted A own) (hi : A i) (hroot : ∀ q, ¬ own q i)
    (hown : ∀ q c, own' q c ↔ q ≠ r ∧ own q c ∨ q = i ∧ own r c) : Rooted A own' := by
  have hmem : ∀ q c, own' q c → ∃ o, own o c := by
    intro q c hq
    rcases (hown q c).mp hq with ⟨_,hq⟩ | ⟨_,hq⟩
    · exact ⟨q,hq⟩
    · exact ⟨r,hq⟩
  refine ⟨?_,?_,?_⟩
  · intro q c hq
    rcases (hown q c).mp hq with ⟨_,hq⟩ | ⟨rfl,hq⟩
    · exact h.member q c hq
    · exact ⟨hi,(h.member r c hq).2⟩
  · intro q₁ q₂ c h₁ h₂
    rcases (hown q₁ c).mp h₁ with ⟨hne₁,h₁⟩ | ⟨rfl,h₁⟩
    · rcases (hown q₂ c).mp h₂ with ⟨_,h₂⟩ | ⟨rfl,h₂⟩
      · exact h.unique q₁ q₂ c h₁ h₂
      · exact absurd (h.unique q₁ r c h₁ h₂) hne₁
    · rcases (hown q₂ c).mp h₂ with ⟨hne₂,h₂⟩ | ⟨rfl,_⟩
      · exact absurd (h.unique q₂ r c h₂ h₁) hne₂
      · rfl
  · intro p hp
    obtain ⟨j,hj,hno,hreach⟩ := h.rooted p hp
    have hjroot : ∀ q, ¬ own' q j := fun q hq => (hmem q j hq).elim hno
    have hiroot : ∀ q, ¬ own' q i := fun q hq => (hmem q i hq).elim hroot
    -- a path through `r` begins anew at `i`
    have hpath : ReflTransGen own' j p ∨ ReflTransGen own' i p := by
      clear hp
      induction hreach with
      | refl => exact Or.inl .refl
      | @tail b c _ hbc ih =>
        by_cases hb : b = r
        · subst hb
          exact Or.inr (.single ((hown i c).mpr (Or.inr ⟨rfl,hbc⟩)))
        · have hbc' : own' b c := (hown b c).mpr (Or.inl ⟨hb,hbc⟩)
          exact ih.imp (·.tail hbc') (·.tail hbc')
    rcases hpath with hpath | hpath
    · exact ⟨j,hj,hjroot,hpath⟩
    · exact ⟨i,hi,hiroot,hpath⟩

/-- A leaf goes. -/
theorem Rooted.discard (h : Rooted A own) (hd : ∀ c, ¬ own d c) (hA : ∀ q, A' q ↔ q ≠ d ∧ A q)
    (hown : ∀ q c, own' q c ↔ own q c ∧ c ≠ d) : Rooted A' own' := by
  refine ⟨?_,?_,?_⟩
  · intro q c hq
    obtain ⟨hq,hc⟩ := (hown q c).mp hq
    obtain ⟨hqA,hcA⟩ := h.member q c hq
    refine ⟨(hA q).mpr ⟨?_,hqA⟩,(hA c).mpr ⟨hc,hcA⟩⟩
    rintro rfl
    exact hd c hq
  · intro q₁ q₂ c h₁ h₂
    exact h.unique q₁ q₂ c ((hown q₁ c).mp h₁).1 ((hown q₂ c).mp h₂).1
  · intro p hp
    obtain ⟨hpd,hpA⟩ := (hA p).mp hp
    obtain ⟨j,hj,hno,hreach⟩ := h.rooted p hpA
    have hpath : ReflTransGen own' j p := by
      clear hp hpA
      induction hreach with
      | refl => exact .refl
      | @tail b c _ hbc ih =>
        have hb : b ≠ d := by
          rintro rfl
          exact hd c hbc
        exact (ih hb).tail ((hown b c).mpr ⟨hbc,hpd⟩)
    have hjd : j ≠ d := by
      rintro rfl
      rcases ReflTransGen.cases_head hpath with rfl | ⟨c,hc,_⟩
      · exact hpd rfl
      · exact hd c ((hown j c).mp hc).1
    exact ⟨j,(hA j).mpr ⟨hjd,hj⟩,fun q hq => hno q ((hown q j).mp hq).1,hpath⟩

end Forest
