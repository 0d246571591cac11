import DisastrOS.Kernel.Lookups
import DisastrOS.Properties.ListOps

/-! # Lookups end

A loop that goes on from each item to the next one ends on every list, at the first item that it
looks for. The one that looks for a message stays at the first message.
-/
namespace DisastrOS
open Links

section Message
variable {messageId : ℕ → ℤ} {id : ℤ} {x : ℕ}

theorem messageByIdFrom_none (n : ℕ) : messageByIdFrom messageId id n none = some none := by
  cases n <;> rfl

theorem messageByIdFrom_found (hid : messageId x = id) (n : ℕ) :
    messageByIdFrom messageId id (n + 1) (some x) = some (some x) := if_pos hid

theorem messageByIdFrom_stays (hid : messageId x ≠ id) (n : ℕ) :
    messageByIdFrom messageId id n (some x) = none := by
  induction n with
  | zero => rfl
  | succ n ih => exact (if_neg hid).trans ih

end Message

namespace ListHeap

variable {ι : Type} {h : ListHeap ι} {contents : ι → List ℕ} {l : ι}

namespace Holds

theorem returns_findFrom (hh : h.Holds contents) (l : ι) (key : ℕ → Bool) :
    Returns (fun n => findFrom h.next key n (h.first l)) ((contents l).find? key) := by
  rw [hh.first l]
  exact (hh.linked l).forward.returns_findFrom key

section Message
variable {messageId : ℕ → ℤ} {id : ℤ}

/-- A first message with another id is never left. -/
theorem messageById_stays (hh : h.Holds contents) {x : ℕ} (hx : x ∈ (contents l).head?)
    (hid : messageId x ≠ id) (n : ℕ) : h.messageById l messageId id n = none := by
  unfold messageById
  rw [hh.first l,Option.mem_def.mp hx]
  exact messageByIdFrom_stays hid n

theorem returns_messageById (hh : h.Holds contents)
    (hfirst : ∀ x ∈ (contents l).head?, messageId x = id) :
    Returns (h.messageById l messageId id) ((contents l).find? fun x => messageId x = id) := by
  unfold messageById
  rw [hh.first l]
  cases hl : contents l with
  | nil => exact ⟨0,fun m _ => messageByIdFrom_none m⟩
  | cons x rest =>
    have hid : messageId x = id := by
      apply hfirst
      rw [hl]
      rfl
    rw [List.find?_cons_of_pos (by simpa using hid)]
    refine ⟨1,?_⟩
    intro m hm
    obtain ⟨n,rfl⟩ : ∃ n, m = n + 1 := ⟨m - 1,by omega⟩
    exact messageByIdFrom_found hid n

theorem returns_messageById_iff (hh : h.Holds contents) :
    Returns (h.messageById l messageId id) ((contents l).find? fun x => messageId x = id) ↔
      ∀ x ∈ (contents l).head?, messageId x = id := by
  constructor
  · rintro ⟨n,hn⟩ x hx
    by_contra hid
    have hsome := hn n (Nat.le_refl n)
    rw [hh.messageById_stays hx hid n] at hsome
    cases hsome
  · exact hh.returns_messageById

end Message

end Holds

end ListHeap

open ListHeap

/-- On every list that is in memory four of the loops end and return the first item that is looked
for, if there is one. The lookup of a message does so exactly if the list is empty or its first
message is the one, and otherwise it never ends. -/
theorem lookups_return {ι : Type} {h : ListHeap ι} {contents : ι → List ℕ} (hh : h.Holds contents)
    (l : ι) (key : ℤ) :
    (∀ messageQueueId : ℕ → ℤ, Returns (h.messageQueueListById l messageQueueId key)
      ((contents l).find? fun m => messageQueueId m = key)) ∧
    (∀ descrittoreMqd : ℕ → ℤ, Returns (h.descrittoreListByMqd l descrittoreMqd key)
      ((contents l).find? fun d => descrittoreMqd d = key)) ∧
    (∀ pcbPid : ℕ → ℤ, Returns (h.pcbByPID l pcbPid key)
      ((contents l).find? fun pcb => pcbPid pcb = key)) ∧
    (∀ (pcb : ℕ → ℕ) (pcbPid : ℕ → ℤ), Returns (h.pcbPtrByPID l pcb pcbPid key)
      ((contents l).find? fun pcbPtr => pcbPid (pcb pcbPtr) = key)) ∧
    ∀ messageId : ℕ → ℤ,
      (Returns (h.messageById l messageId key) ((contents l).find? fun m => messageId m = key) ↔
        ∀ x ∈ (contents l).head?, messageId x = key) ∧
      ∀ x ∈ (contents l).head?, messageId x ≠ key →
        ∀ n, h.messageById l messageId key n = none := by
  refine ⟨?_,?_,?_,?_,?_⟩
  · exact fun _ => hh.returns_findFrom l _
  · exact fun _ => hh.returns_findFrom l _
  · exact fun _ => hh.returns_findFrom l _
  · exact fun _ _ => hh.returns_findFrom l _
  · exact fun _ => ⟨hh.returns_messageById_iff,fun _ hx hid n => hh.messageById_stays hx hid n⟩

/-- On a list with one item a queue with another id is not found, and a message never. -/
theorem lookups_return_run : ∃ h : ListHeap ℕ,
    Returns (h.messageQueueListById 0 (fun _ => 1) 2) none ∧
    ∀ n, h.messageById 0 (fun _ => 1) 2 n = none := by
  obtain ⟨h,contents,hh,hlist⟩ := exists_singleton
  obtain ⟨hqueue,_,_,_,hmessage⟩ := lookups_return hh 0 2
  refine ⟨h,?_,?_⟩
  · have hnone := hqueue fun _ => 1
    rwa [hlist] at hnone
  · exact (hmessage fun _ => 1).2 5 (by rw [hlist]; rfl) (by decide)

/-- A lookup of a message does not return. -/
theorem lookups_stay : ¬ ∀ (h : ListHeap ℕ) (contents : ℕ → List ℕ) (l : ℕ) (messageId : ℕ → ℤ)
    (id : ℤ), h.Holds contents →
      Returns (h.messageById l messageId id) ((contents l).find? fun m => messageId m = id) := by
  intro hclaim
  obtain ⟨h,contents,hh,hlist⟩ := exists_singleton
  obtain ⟨n,hn⟩ := hclaim h contents 0 (fun _ => 1) 2 hh
  have hfirst : 5 ∈ (contents 0).head? := by
    rw [hlist]
    rfl
  have hsome := hn n (Nat.le_refl n)
  rw [hh.messageById_stays hfirst (by decide) n] at hsome
  cases hsome

end DisastrOS
