import DisastrOS.Kernel.PoolAllocator
import DisastrOS.Kernel.LinkedList

/-! # Which message is on which queue

The message blocks handed out by the pool are the messages on the queues of the
system list; no block is on two queues, and `msg_num` is the length of the list.
-/
namespace DisastrOS

structure Mailboxes (queues : List ℕ) (allocated : ℕ → Prop) (messages : ℕ → List ℕ)
    (msgNum : ℕ → ℤ) : Prop where
  nodup : ∀ q ∈ queues, (messages q).Nodup
  disjoint : ∀ q ∈ queues, ∀ q' ∈ queues, ∀ m ∈ messages q, m ∈ messages q' → q = q'
  stored : ∀ m, allocated m ↔ ∃ q ∈ queues, m ∈ messages q
  count : ∀ q ∈ queues, msgNum q = (messages q).length

namespace Mailboxes
variable {Q : List ℕ} {A A' : ℕ → Prop} {msgs : ℕ → List ℕ} {num : ℕ → ℤ} {q m : ℕ}
variable {rest : List ℕ}

theorem empty (hA : ∀ m, ¬ A m) : Mailboxes [] A msgs num := by
  constructor <;> simp [hA]

/-- A block that is not handed out is on no queue. -/
theorem not_mem_of_free (h : Mailboxes Q A msgs num) (hm : ¬ A m) (hq : q ∈ Q) : m ∉ msgs q :=
  fun hmem => hm ((h.stored m).mpr ⟨q,hq,hmem⟩)

/-- A new queue is empty. -/
theorem create (h : Mailboxes Q A msgs num) (hq : q ∉ Q) :
    Mailboxes (listAppend Q q) A (Function.update msgs q []) (Function.update num q 0) := by
  have hold : ∀ q' ∈ Q, Function.update msgs q [] q' = msgs q' :=
    fun q' hq' => update_of_not_mem hq hq' _ _
  have hmem : ∀ q' ∈ listAppend Q q, ∀ m ∈ Function.update msgs q [] q', q' ∈ Q ∧ m ∈ msgs q' := by
    intro q' hq' m hm
    rcases mem_listAppend.mp hq' with hq' | rfl
    · rw [hold q' hq'] at hm
      exact ⟨hq',hm⟩
    · rw [Function.update_self] at hm
      cases hm
  constructor
  · intro q' hq'
    rcases mem_listAppend.mp hq' with hq' | rfl
    · rw [hold q' hq']
      exact h.nodup q' hq'
    · rw [Function.update_self]
      exact List.nodup_nil
  · intro q₁ h₁ q₂ h₂ m hm₁ hm₂
    obtain ⟨h₁,hm₁⟩ := hmem q₁ h₁ m hm₁
    obtain ⟨h₂,hm₂⟩ := hmem q₂ h₂ m hm₂
    exact h.disjoint q₁ h₁ q₂ h₂ m hm₁ hm₂
  · intro m
    rw [h.stored m]
    constructor
    · rintro ⟨q',hq',hm⟩
      exact ⟨q',mem_listAppend.mpr (Or.inl hq'),by rwa [hold q' hq']⟩
    · rintro ⟨q',hq',hm⟩
      exact ⟨q',hmem q' hq' m hm⟩
  · intro q' hq'
    rcases mem_listAppend.mp hq' with hq' | rfl
    · rw [hold q' hq',update_of_not_mem hq hq']
      exact h.count q' hq'
    · simp

/-- A new message enters a queue. -/
theorem append (h : Mailboxes Q A msgs num) (hq : q ∈ Q) (hm : ¬ A m)
    (hA : ∀ k, A' k ↔ k = m ∨ A k) :
    Mailboxes Q A' (Function.update msgs q (listAppend (msgs q) m))
      (Function.update num q (num q + 1)) := by
  constructor
  · intro q' hq'
    exact nodup_update_listAppend (h.nodup q' hq') (fun _ => h.not_mem_of_free hm hq')
  · intro q₁ h₁ q₂ h₂ k hk₁ hk₂
    rcases mem_update_listAppend.mp hk₁ with hk₁ | ⟨rfl,rfl⟩ <;>
      rcases mem_update_listAppend.mp hk₂ with hk₂ | ⟨hq₂,hkm⟩
    · exact h.disjoint q₁ h₁ q₂ h₂ k hk₁ hk₂
    · exact absurd (hkm ▸ hk₁) (h.not_mem_of_free hm h₁)
    · exact absurd hk₂ (h.not_mem_of_free hm h₂)
    · exact hq₂.symm
  · intro k
    rw [hA k,h.stored k]
    constructor
    · rintro (rfl | ⟨q',hq',hk⟩)
      · exact ⟨q,hq,mem_update_listAppend.mpr (Or.inr ⟨rfl,rfl⟩)⟩
      · exact ⟨q',hq',mem_update_listAppend.mpr (Or.inl hk)⟩
    · rintro ⟨q',hq',hk⟩
      rcases mem_update_listAppend.mp hk with hk | ⟨_,hkm⟩
      · exact Or.inr ⟨q',hq',hk⟩
      · exact Or.inl hkm
  · intro q' hq'
    by_cases hqq : q' = q
    · subst hqq
      have hc := h.count q' hq'
      simp only [Function.update_self,listAppend,List.length_append,List.length_singleton]
      omega
    · rw [Function.update_of_ne hqq,Function.update_of_ne hqq]
      exact h.count q' hq'

/-- The first message of a queue is taken off and its block freed. -/
theorem remove (h : Mailboxes Q A msgs num) (hq : q ∈ Q) (hcons : msgs q = m :: rest)
    (hA : ∀ k, A' k ↔ k ≠ m ∧ A k) :
    Mailboxes Q A' (Function.update msgs q rest) (Function.update num q (num q - 1)) := by
  have hmq : m ∈ msgs q := by
    rw [hcons]
    exact List.mem_cons_self
  have hrest : rest = (msgs q).erase m := by rw [hcons,List.erase_cons_head]
  have hmem : ∀ q' ∈ Q, ∀ k, k ∈ Function.update msgs q rest q' ↔ k ∈ msgs q' ∧ k ≠ m := by
    intro q' hq' k
    rw [hrest,mem_update_erase (h.nodup q hq)]
    refine and_congr_right fun hk => ⟨?_,fun hkm _ => hkm⟩
    rintro hkm rfl
    exact hkm (h.disjoint q' hq' q hq k hk hmq) rfl
  constructor
  · intro q' hq'
    rw [hrest]
    exact nodup_update_erase (h.nodup q' hq')
  · intro q₁ h₁ q₂ h₂ k hk₁ hk₂
    exact h.disjoint q₁ h₁ q₂ h₂ k ((hmem q₁ h₁ k).mp hk₁).1 ((hmem q₂ h₂ k).mp hk₂).1
  · intro k
    rw [hA k,h.stored k]
    constructor
    · rintro ⟨hkm,q',hq',hk⟩
      exact ⟨q',hq',(hmem q' hq' k).mpr ⟨hk,hkm⟩⟩
    · rintro ⟨q',hq',hk⟩
      obtain ⟨hk,hkm⟩ := (hmem q' hq' k).mp hk
      exact ⟨hkm,q',hq',hk⟩
  · intro q' hq'
    by_cases hqq : q' = q
    · subst hqq
      have hc := h.count q' hq'
      rw [hcons,List.length_cons] at hc
      rw [Function.update_self,Function.update_self]
      omega
    · rw [Function.update_of_ne hqq,Function.update_of_ne hqq]
      exact h.count q' hq'

/-- A queue whose messages have all been freed leaves the system list. -/
theorem discard (h : Mailboxes Q A msgs num) (hQ : Q.Nodup) (hq : q ∈ Q) {l : List ℕ}
    (hA : ∀ k, A' k ↔ A k ∧ k ∉ msgs q) :
    Mailboxes (Q.erase q) A' (Function.update msgs q l) num := by
  have hQmem : ∀ q', q' ∈ Q.erase q ↔ q' ≠ q ∧ q' ∈ Q := fun q' => hQ.mem_erase_iff
  have hold : ∀ q' ∈ Q.erase q, Function.update msgs q l q' = msgs q' :=
    fun q' hq' => Function.update_of_ne ((hQmem q').mp hq').1 _ _
  constructor
  · intro q' hq'
    rw [hold q' hq']
    exact h.nodup q' ((hQmem q').mp hq').2
  · intro q₁ h₁ q₂ h₂ k hk₁ hk₂
    rw [hold q₁ h₁] at hk₁
    rw [hold q₂ h₂] at hk₂
    exact h.disjoint q₁ ((hQmem q₁).mp h₁).2 q₂ ((hQmem q₂).mp h₂).2 k hk₁ hk₂
  · intro k
    rw [hA k,h.stored k]
    constructor
    · rintro ⟨⟨q',hq',hk⟩,hkq⟩
      have hne : q' ≠ q := by
        rintro rfl
        exact hkq hk
      have hq'' := (hQmem q').mpr ⟨hne,hq'⟩
      exact ⟨q',hq'',by rwa [hold q' hq'']⟩
    · rintro ⟨q',hq',hk⟩
      rw [hold q' hq'] at hk
      obtain ⟨hne,hq'⟩ := (hQmem q').mp hq'
      exact ⟨⟨q',hq',hk⟩,fun hkq => hne (h.disjoint q' hq' q hq k hk hkq)⟩
  · intro q' hq'
    rw [hold q' hq']
    exact h.count q' ((hQmem q').mp hq').2

end Mailboxes

end DisastrOS
