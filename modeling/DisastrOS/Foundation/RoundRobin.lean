import Mathlib.Data.List.Nodup
import Mathlib.Data.List.Rotate
import Mathlib.Data.Nat.Choose.Basic
import DisastrOS.Foundation.Transitions

/-! # Processors that are handed round

One runs, others are ready in the order of their turns, others wait. A turn takes the processor
from the one that runs: it goes behind the ready ones, with those that wake up in front of them,
or it is gone. Who is ready sees as many turns, at most, as there are others in front of it or
waiting, and is overtaken by nobody who is behind it.
-/
namespace RoundRobin
open Transitions

/-- Who runs, who is ready, in the order of the turns, and who waits. -/
@[ext] structure Queues (α : Type*) where
  running : Option α
  ready : List α
  waiting : List α

/-- A move leaves the processor where it is, or the one that runs waits, or it is a turn. -/
inductive Kind
  | stay
  | block
  | turn
  deriving DecidableEq

variable {α : Type*} [DecidableEq α]

/-- All of them. -/
def Queues.members (q : Queues α) : List α := q.running.toList ++ (q.ready ++ q.waiting)

inductive Move : Queues α → Kind → Queues α → Prop
  | stay (q : Queues α) : Move q .stay q
  | enter {r p : α} {ready waiting : List α} (hp : p ∉ Queues.members ⟨some r,ready,waiting⟩) :
      Move ⟨some r,ready,waiting⟩ .stay ⟨some r,ready ++ [p],waiting⟩
  | start {p : α} {ready waiting : List α} (hp : p ∉ Queues.members ⟨none,ready,waiting⟩) :
      Move ⟨none,ready,waiting⟩ .stay ⟨some p,ready,waiting⟩
  | block {r next : α} {rest waiting : List α} :
      Move ⟨some r,next :: rest,waiting⟩ .block ⟨some next,rest,waiting ++ [r]⟩
  | idle {r : α} {waiting : List α} : Move ⟨some r,[],waiting⟩ .block ⟨none,[],waiting ++ [r]⟩
  | rotate {r next : α} {woken ready waiting waiting' rest : List α}
      (hwaiting : waiting.Perm (woken ++ waiting')) (hready : woken ++ ready = next :: rest) :
      Move ⟨some r,ready,waiting⟩ .turn ⟨some next,rest ++ [r],waiting'⟩
  | alone {r : α} {waiting : List α} : Move ⟨some r,[],waiting⟩ .turn ⟨some r,[],waiting⟩
  | leave {r next : α} {rest waiting : List α} :
      Move ⟨some r,next :: rest,waiting⟩ .turn ⟨some next,rest,waiting⟩
  | handOver {r p : α} {ready waiting : List α} (hp : p ∈ waiting) :
      Move ⟨some r,ready,waiting⟩ .turn ⟨some p,ready,waiting.erase p⟩

/-- Processors as a system; it may start anywhere. -/
def machine (α : Type*) [DecidableEq α] : System (Queues α) Kind where
  Initial _ := True
  Step := Move

namespace Queues

/-- Nobody is in two places, nor in one place twice. -/
def Separate (q : Queues α) : Prop := q.members.Nodup

/-- How many turns `c` may have to see: one for each that is in front of it or waits. -/
def patience (q : Queues α) (c : α) : ℕ := q.ready.idxOf c + q.waiting.length

/-- How often the processor may change hands: between two turns, everyone in front of `c` may
go to wait. -/
def changes (q : Queues α) (c : α) : ℕ :=
  (q.patience c + 1).choose 2 + q.ready.idxOf c

/-- The one that runs, then the others in the order of their turns. -/
def order (q : Queues α) : List α := q.running.toList ++ q.ready

end Queues

variable {q q' : Queues α} {k : Kind} {a b c p : α}

/-- A turn and a wait only change the places, and who leaves is gone. -/
theorem Move.separate (h : q.Separate) (hm : Move q k q') : q'.Separate := by
  unfold Queues.Separate at h ⊢
  cases hm with
  | stay => exact h
  | @enter r p ready waiting hp =>
    have hperm : (Queues.members ⟨some r,ready ++ [p],waiting⟩).Perm
        (p :: Queues.members ⟨some r,ready,waiting⟩) := by
      refine List.perm_iff_count.mpr fun x => ?_
      simp only [Queues.members,List.count_append,List.count_cons,List.count_nil]
      omega
    exact hperm.nodup_iff.mpr (List.nodup_cons.mpr ⟨hp,h⟩)
  | start hp => exact List.nodup_cons.mpr ⟨hp,h⟩
  | @block r next rest waiting =>
    refine (List.Perm.nodup_iff (List.perm_iff_count.mpr fun x => ?_)).mp h
    simp only [Queues.members,Option.toList_some,List.count_append,List.count_cons,List.count_nil]
    omega
  | @idle r waiting =>
    refine (List.Perm.nodup_iff (List.perm_iff_count.mpr fun x => ?_)).mp h
    simp only [Queues.members,Option.toList_some,Option.toList_none,List.count_append,
      List.count_cons,List.count_nil]
    omega
  | @rotate r next woken ready waiting waiting' rest hwaiting hready =>
    refine (List.Perm.nodup_iff (List.perm_iff_count.mpr fun x => ?_)).mp h
    have hw := hwaiting.count_eq x
    have hr := congrArg (List.count x) hready
    simp only [List.count_append,List.count_cons] at hw hr
    simp only [Queues.members,Option.toList_some,List.count_append,List.count_cons,List.count_nil]
    omega
  | alone => exact h
  | leave => exact (List.nodup_cons.mp h).2
  | @handOver r p ready waiting hp =>
    have hperm : (r :: Queues.members ⟨some p,ready,waiting.erase p⟩).Perm
        (Queues.members ⟨some r,ready,waiting⟩) := by
      refine List.perm_iff_count.mpr fun x => ?_
      have hw := (List.perm_cons_erase hp).count_eq x
      simp only [List.count_cons] at hw
      simp only [Queues.members,Option.toList_some,List.count_append,List.count_cons,
        List.count_nil]
      omega
    exact (List.nodup_cons.mp (hperm.nodup_iff.mpr h)).2

/-- The one that runs is neither ready nor waiting, and nobody is both. -/
theorem separate_iff : q.Separate ↔ q.ready.Nodup ∧ q.waiting.Nodup ∧
    (∀ p ∈ q.ready, p ∉ q.waiting) ∧ ∀ p, q.running = some p → p ∉ q.ready ∧ p ∉ q.waiting := by
  have hdisj : (∀ a ∈ q.ready, ∀ b ∈ q.waiting, a ≠ b) ↔ ∀ p ∈ q.ready, p ∉ q.waiting :=
    ⟨fun h p hp hw => h p hp p hw rfl,fun h a ha b hb hab => h a ha (hab ▸ hb)⟩
  obtain ⟨running,ready,waiting⟩ := q
  unfold Queues.Separate Queues.members
  cases running with
  | none => simp [List.nodup_append,hdisj]
  | some r => simp [List.nodup_append,hdisj]; tauto

/-- Nobody is ready while nobody runs. -/
def Queues.Busy (q : Queues α) : Prop := q.running = none → q.ready = []

theorem Move.busy (h : q.Busy) (hm : Move q k q') : q'.Busy := by
  cases hm with
  | stay => exact h
  | idle => exact fun _ => rfl
  | enter => exact fun hnone => by cases hnone
  | start => exact fun hnone => by cases hnone
  | block => exact fun hnone => by cases hnone
  | rotate => exact fun hnone => by cases hnone
  | alone => exact fun hnone => by cases hnone
  | leave => exact fun hnone => by cases hnone
  | handOver => exact fun hnone => by cases hnone

/-- Who is ready stays so until it runs. -/
theorem Move.ready_or_runs (hm : Move q k q') (hc : c ∈ q.ready) :
    c ∈ q'.ready ∨ q'.running = some c := by
  have htail : ∀ {next : α} {rest : List α}, c ∈ next :: rest → c ∈ rest ∨ some next = some c := by
    intro next rest hmem
    rcases List.mem_cons.mp hmem with rfl | hrest
    · exact Or.inr rfl
    · exact Or.inl hrest
  cases hm with
  | stay => exact Or.inl hc
  | enter => exact Or.inl (List.mem_append_left _ hc)
  | start => exact Or.inl hc
  | block => exact htail hc
  | idle => exact Or.inl hc
  | @rotate r next woken ready waiting waiting' rest hwaiting hready =>
    have hmem : c ∈ next :: rest := hready ▸ List.mem_append_right woken hc
    exact (htail hmem).imp_left (List.mem_append_left _)
  | alone => exact Or.inl hc
  | leave => exact htail hc
  | handOver => exact Or.inl hc

/-- Another one runs only behind a turn or a wait. -/
theorem Move.running_eq (h : q.Busy) (hm : Move q .stay q') (hc : c ∈ q.ready) :
    q'.running = q.running := by
  cases hm with
  | stay => rfl
  | enter => rfl
  | start =>
    have hnil : _ = [] := h rfl
    rw [hnil] at hc
    cases hc

section Waiting

/-- Who is ready and stays so behind a rotation is not the one whose turn it is. -/
theorem rotate_place {r next : α} {woken ready waiting rest : List α}
    (h : (Queues.mk (some r) ready (woken ++ waiting)).Separate)
    (hready : woken ++ ready = next :: rest) (hc : c ∈ ready) (hc' : c ∈ rest ++ [r]) :
    c ≠ next ∧ woken.length + ready.idxOf c = (rest ++ [r]).idxOf c + 1 := by
  obtain ⟨hnodup,hwaiting,hdisj,hr⟩ := separate_iff.mp h
  have hcr : c ≠ r := by
    rintro rfl
    exact (hr c rfl).1 hc
  have hrest : c ∈ rest := by
    rcases List.mem_append.mp hc' with hrest | hlast
    · exact hrest
    · exact absurd (List.mem_singleton.mp hlast) hcr
  have hcw : c ∉ woken := fun hw => hdisj c hc (List.mem_append_left _ hw)
  have hall : (next :: rest).Nodup := by
    rw [← hready]
    refine List.nodup_append.mpr ⟨(List.nodup_append.mp hwaiting).1,hnodup,?_⟩
    rintro x hx y hy rfl
    exact hdisj x hy (List.mem_append_left _ hx)
  have hne : c ≠ next := by
    rintro rfl
    exact (List.nodup_cons.mp hall).1 hrest
  refine ⟨hne,?_⟩
  have hplace : (woken ++ ready).idxOf c = woken.length + ready.idxOf c :=
    List.idxOf_append_of_notMem hcw
  rw [hready,List.idxOf_cons_ne rest hne.symm] at hplace
  rw [List.idxOf_append_of_mem hrest]
  omega

omit [DecidableEq α] in
theorem Queues.Separate.congr {running : Option α} {ready waiting waiting' : List α}
    (h : (Queues.mk running ready waiting).Separate) (hperm : waiting.Perm waiting') :
    (Queues.mk running ready waiting').Separate :=
  ((hperm.append_left ready).append_left running.toList).nodup_iff.mp h

/-- The place of who stays ready, when the first ready one is taken away. -/
theorem tail_place {running : Option α} {next : α} {rest waiting : List α}
    (h : (Queues.mk running (next :: rest) waiting).Separate) (hc : c ∈ rest) :
    (next :: rest).idxOf c = rest.idxOf c + 1 := by
  refine List.idxOf_cons_ne rest ?_
  rintro rfl
  exact (List.nodup_cons.mp (separate_iff.mp h).1).1 hc

/-- A turn brings who stays ready closer by one, counting those that wait; a wait brings it
closer to the front. -/
theorem Move.place (h : q.Separate) (hm : Move q k q') (hc : c ∈ q.ready) (hc' : c ∈ q'.ready) :
    q'.patience c + (decide (k = .turn)).toNat = q.patience c ∧
      (k = .stay → q'.ready.idxOf c = q.ready.idxOf c) ∧
        (k = .block → q'.ready.idxOf c < q.ready.idxOf c) := by
  unfold Queues.patience
  cases hm with
  | stay => simp
  | @enter r p ready waiting hp =>
    have hplace : (ready ++ [p]).idxOf c = ready.idxOf c := List.idxOf_append_of_mem hc
    simp [hplace]
  | start hp => simp
  | @block r next rest waiting =>
    have hplace := tail_place h hc'
    simp only [hplace,List.length_append,List.length_singleton]
    simp; omega
  | idle => cases hc
  | @rotate r next woken ready waiting waiting' rest hwaiting hready =>
    have hplace := (rotate_place (h.congr hwaiting) hready hc hc').2
    have hlen := hwaiting.length_eq
    rw [List.length_append] at hlen
    simp; omega
  | alone => cases hc
  | @leave r next rest waiting =>
    have hplace := tail_place h hc'
    simp only [hplace]
    simp; omega
  | @handOver r p ready waiting hp =>
    have hlen := List.length_erase_of_mem hp
    have hpos := List.length_pos_of_mem hp
    simp; omega

theorem Move.patience_eq (h : q.Separate) (hm : Move q k q') (hc : c ∈ q.ready)
    (hc' : c ∈ q'.ready) : q'.patience c + (decide (k = .turn)).toNat = q.patience c :=
  (hm.place h hc hc').1

/-- A turn may bring others in front of who stays ready, but takes one off all that can come. -/
theorem Move.changes_le (h : q.Separate) (hm : Move q k q') (hc : c ∈ q.ready)
    (hc' : c ∈ q'.ready) : q'.changes c + (decide (k ≠ .stay)).toNat ≤ q.changes c := by
  obtain ⟨hpatience,hstay,hblock⟩ := hm.place h hc hc'
  have hle : q'.ready.idxOf c ≤ q'.patience c := Nat.le_add_right _ _
  unfold Queues.changes
  cases k with
  | stay =>
    have hsame := hstay rfl
    simp at hpatience ⊢
    rw [hpatience,hsame]
  | block =>
    have hless := hblock rfl
    simp at hpatience ⊢
    rw [hpatience]
    omega
  | turn =>
    simp at hpatience ⊢
    have hsucc : (q.patience c + 1).choose 2 = (q'.patience c + 1) + (q'.patience c + 1).choose 2 := by
      rw [← hpatience,Nat.choose_succ_succ,Nat.choose_one_right]
    omega

/-- While one stays ready there are as many turns as others in front of it or waiting. -/
theorem turns_le {es : List (Queues α × Kind × Queues α)} (htr : Trace (machine α) q es q')
    (h : q.Separate) (hc : c ∈ q.ready) (hall : ∀ e ∈ es, c ∈ e.2.2.ready) :
    q'.patience c + es.countP (fun e => e.2.1 = .turn) ≤ q.patience c :=
  htr.countP_le (Queues.patience · c) _ (fun _ _ _ h hm => Move.separate h hm)
    (fun _ _ _ h hc hc' hm => (Move.patience_eq h hm hc hc').le) h hc hall

end Waiting

section Overtaking

/-- Who is behind one that stays ready stays behind it. -/
theorem Move.keeps_order (h : q.Separate) (hm : Move q k q') (hab : [a,b].Sublist q.ready)
    (ha : a ∈ q'.ready) : [a,b].Sublist q'.ready := by
  cases hm with
  | stay => exact hab
  | enter => exact hab.trans (List.sublist_append_left _ _)
  | start => exact hab
  | @block r next rest waiting =>
    refine List.Sublist.of_cons_of_ne ?_ hab
    rintro rfl
    exact (List.nodup_cons.mp (separate_iff.mp h).1).1 ha
  | idle => exact hab
  | @rotate r next woken ready waiting waiting' rest hwaiting hready =>
    have hall : [a,b].Sublist (next :: rest) := hready ▸ hab.trans (List.sublist_append_right _ _)
    have hmem : a ∈ ready := hab.subset List.mem_cons_self
    have hne := (rotate_place (h.congr hwaiting) hready hmem ha).1
    exact (List.Sublist.of_cons_of_ne hne hall).trans (List.sublist_append_left _ _)
  | alone => exact hab
  | @leave r next rest waiting =>
    refine List.Sublist.of_cons_of_ne ?_ hab
    rintro rfl
    exact (List.nodup_cons.mp (separate_iff.mp h).1).1 ha
  | handOver => exact hab

end Overtaking

section Rotation

/-- The turns that the scheduler takes the processor from `p`. -/
def turnsOf (p : α) (es : List (Queues α × Kind × Queues α)) : ℕ :=
  es.countP (fun e => e.2.1 = .turn ∧ e.1.running = some p)

/-- A move among the same ones is at most a rotation. -/
theorem Move.rotates (hm : Move q k q') (hwaiting : q'.waiting = q.waiting)
    (horder : q'.order.Perm q.order) : q'.order = q.order.rotate (decide (k = .turn)).toNat := by
  have hlen := horder.length_eq
  cases hm with
  | stay => simp
  | enter => simp [Queues.order] at hlen
  | start => simp [Queues.order] at hlen
  | block => simp at hwaiting
  | idle => simp at hwaiting
  | @rotate r next woken ready waiting waiting' rest hperm hready =>
    have hwoken : woken = [] := by
      have hcount := hperm.length_eq
      rw [List.length_append,show waiting' = waiting from hwaiting] at hcount
      exact List.length_eq_zero_iff.mp (by omega)
    subst hwoken
    simp only [List.nil_append] at hready
    simp [Queues.order,hready]
  | alone => simp [Queues.order]
  | leave => simp [Queues.order] at hlen
  | @handOver r p ready waiting hp =>
    have herase := List.length_erase_of_mem hp
    rw [show waiting.erase p = waiting from hwaiting] at herase
    have hpos := List.length_pos_of_mem hp
    omega

/-- A turn is taken from the first in the order. -/
theorem Move.running_iff (hm : Move q .turn q') (hp : p ∈ q.order) :
    q.running = some p ↔ q.order.idxOf p = 0 := by
  obtain ⟨r,hr⟩ : ∃ r, q.running = some r := by
    cases hm with
    | rotate => exact ⟨_,rfl⟩
    | alone => exact ⟨_,rfl⟩
    | leave => exact ⟨_,rfl⟩
    | handOver => exact ⟨_,rfl⟩
  have horder : q.order = r :: q.ready := by
    unfold Queues.order
    rw [hr]
    rfl
  rw [horder,hr,Option.some.injEq,List.idxOf_eq_zero_iff_head_eq (List.cons_ne_nil _ _)]
  rfl

theorem idxOf_rotate_one {l : List α} (hl : l.Nodup) (hp : p ∈ l) :
    (l.rotate 1).idxOf p = if l.idxOf p = 0 then l.length - 1 else l.idxOf p - 1 := by
  cases l with
  | nil => cases hp
  | cons x l =>
    rw [List.rotate_cons_succ,List.rotate_zero]
    by_cases hx : x = p
    · subst hx
      rw [List.idxOf_append_of_notMem (List.nodup_cons.mp hl).1]
      simp
    · have hmem : p ∈ l := (List.mem_cons.mp hp).resolve_left (Ne.symm hx)
      rw [List.idxOf_append_of_mem hmem,List.idxOf_cons_ne l hx]
      simp

/-- The number of turns. -/
def turns (es : List (Queues α × Kind × Queues α)) : ℕ := es.countP (fun e => e.2.1 = .turn)

/-- Among the same ones the order of the turns is rotated. -/
theorem order_rotated {es : List (Queues α × Kind × Queues α)} (htr : Trace (machine α) q es q')
    (hwaiting : ∀ e ∈ es, e.2.2.waiting = e.1.waiting)
    (horder : ∀ e ∈ es, e.2.2.order.Perm e.1.order) : q'.order = q.order.rotate (turns es) := by
  induction htr with
  | nil q => simp [turns]
  | @cons q q₁ q' k es hm _ ih =>
    have hfirst := Move.rotates hm (hwaiting _ List.mem_cons_self) (horder _ List.mem_cons_self)
    have hrest := ih (fun e he => hwaiting e (List.mem_cons_of_mem _ he))
      (fun e he => horder e (List.mem_cons_of_mem _ he))
    rw [hrest,hfirst,List.rotate_rotate,turns,turns,List.countP_cons]
    congr 1
    cases decide (k = .turn)
    · simp
    · simp [Nat.add_comm]

/-- Where a process stands in the order tells how many of the turns are its own. -/
theorem turnsOf_eq {es : List (Queues α × Kind × Queues α)} (htr : Trace (machine α) q es q')
    (h : q.order.Nodup) (hwaiting : ∀ e ∈ es, e.2.2.waiting = e.1.waiting)
    (horder : ∀ e ∈ es, e.2.2.order.Perm e.1.order) (hp : p ∈ q.order) :
    turnsOf p es = (turns es + (q.order.length - 1 - q.order.idxOf p)) / q.order.length := by
  induction htr with
  | nil q =>
    have hlt := List.idxOf_lt_length_of_mem hp
    simp only [turnsOf,turns,List.countP_nil,Nat.zero_add]
    rw [Nat.div_eq_of_lt (by omega)]
  | @cons q q₁ q' k es hm _ ih =>
    have hfirst := Move.rotates hm (hwaiting _ List.mem_cons_self) (horder _ List.mem_cons_self)
    have hperm := horder _ List.mem_cons_self
    have hrest := ih (hperm.nodup_iff.mpr h) (fun e he => hwaiting e (List.mem_cons_of_mem _ he))
      (fun e he => horder e (List.mem_cons_of_mem _ he)) (hperm.mem_iff.mpr hp)
    have hlt := List.idxOf_lt_length_of_mem hp
    rw [hperm.length_eq,hfirst] at hrest
    unfold turnsOf turns at hrest ⊢
    rw [List.countP_cons,List.countP_cons]
    by_cases hk : k = .turn
    · subst hk
      have hrun := Move.running_iff hm hp
      simp only [decide_true,Bool.toNat_true,idxOf_rotate_one h hp] at hrest
      simp only [hrun,true_and,decide_true,if_true,decide_eq_true_eq]
      rw [hrest]
      by_cases hi : q.order.idxOf p = 0
      · -- the first in the order goes to its end
        have hsum : ∀ n, n + 1 + (q.order.length - 1 - 0) = n + q.order.length := by omega
        simp only [hi,if_true,Nat.sub_self,Nat.add_zero,hsum]
        rw [Nat.add_div_right _ (by omega)]
      · have hsum : ∀ n, n + (q.order.length - 1 - (q.order.idxOf p - 1)) =
            n + 1 + (q.order.length - 1 - q.order.idxOf p) := by omega
        simp only [hi,if_false,Nat.add_zero,hsum]
    · simpa [hk] using hrest

end Rotation

end RoundRobin
