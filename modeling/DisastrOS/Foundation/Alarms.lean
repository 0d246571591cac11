import Mathlib.Data.List.TakeWhile
import Mathlib.Order.Lattice

/-! # Queues of alarms

An alarm names whom to wake and when. A queue keeps its alarms in the order of their
times and, among equal times, in the order in which they were set; only its front is
ever looked at. In such a queue an alarm goes off exactly when its time has come.
-/
namespace Alarms

variable {ι τ : Type*} [LinearOrder τ] {q : List (ι × τ)} {a b : ι × τ} {now : τ}

def Sorted (q : List (ι × τ)) : Prop := q.Pairwise (fun a b => a.2 ≤ b.2)

/-- A new alarm goes behind all those that are not later. -/
def set (q : List (ι × τ)) (a : ι × τ) : List (ι × τ) :=
  q.takeWhile (fun b => b.2 ≤ a.2) ++ a :: q.dropWhile (fun b => b.2 ≤ a.2)

/-- The alarms at the front whose time has come. -/
def due (q : List (ι × τ)) (now : τ) : List (ι × τ) := q.takeWhile (fun a => a.2 ≤ now)

/-- What is left when they have gone off. -/
def pending (q : List (ι × τ)) (now : τ) : List (ι × τ) := q.dropWhile (fun a => a.2 ≤ now)

theorem due_append_pending (q : List (ι × τ)) (now : τ) : due q now ++ pending q now = q :=
  List.takeWhile_append_dropWhile

theorem mem_set : b ∈ set q a ↔ b = a ∨ b ∈ q := by
  have hq : b ∈ q ↔ b ∈ due q a.2 ∨ b ∈ pending q a.2 := by
    rw [← List.mem_append,due_append_pending]
  rw [hq]
  unfold set due pending
  rw [List.mem_append,List.mem_cons,or_left_comm]

theorem le_of_mem_due (h : a ∈ due q now) : a.2 ≤ now := by
  unfold due at h
  simpa using List.mem_takeWhile_imp h

/-- Behind the first alarm that is not due no other one is. -/
theorem Sorted.lt_of_mem_pending (hq : Sorted q) (h : a ∈ pending q now) : now < a.2 := by
  induction q with
  | nil => cases h
  | cons b q ih =>
    obtain ⟨hb,hrest⟩ := List.pairwise_cons.mp hq
    unfold pending at h
    by_cases hdue : b.2 ≤ now
    · rw [List.dropWhile_cons_of_pos (by simpa using hdue)] at h
      exact ih hrest h
    · rw [List.dropWhile_cons_of_neg (by simpa using hdue)] at h
      have hnow := lt_of_not_ge hdue
      rcases List.mem_cons.mp h with rfl | h
      · exact hnow
      · exact hnow.trans_le (hb a h)

theorem Sorted.pending (hq : Sorted q) (now : τ) : Sorted (pending q now) :=
  List.Pairwise.sublist (List.dropWhile_sublist _) hq

/-- An alarm goes off exactly if its time has come. -/
theorem Sorted.mem_due (hq : Sorted q) : a ∈ due q now ↔ a ∈ q ∧ a.2 ≤ now := by
  constructor
  · exact fun h => ⟨(List.takeWhile_sublist _).subset h,le_of_mem_due h⟩
  · rintro ⟨hmem,hle⟩
    rw [← due_append_pending q now,List.mem_append] at hmem
    exact hmem.resolve_right (fun h => absurd (hq.lt_of_mem_pending h) (not_lt_of_ge hle))

theorem Sorted.mem_pending (hq : Sorted q) : a ∈ Alarms.pending q now ↔ a ∈ q ∧ now < a.2 := by
  constructor
  · exact fun h => ⟨(List.dropWhile_sublist _).subset h,hq.lt_of_mem_pending h⟩
  · rintro ⟨hmem,hlt⟩
    rw [← due_append_pending q now,List.mem_append] at hmem
    exact hmem.resolve_left (fun h => absurd (le_of_mem_due h) (not_le_of_gt hlt))

/-- The order survives a new alarm, with ties and overdue times. -/
theorem Sorted.set (hq : Sorted q) (a : ι × τ) : Sorted (set q a) := by
  have hpending := hq.pending a.2
  have hdue : Sorted (due q a.2) := List.Pairwise.sublist (List.takeWhile_sublist _) hq
  refine List.pairwise_append.mpr ⟨hdue,List.pairwise_cons.mpr ⟨?_,hpending⟩,?_⟩
  · exact fun b hb => (hq.lt_of_mem_pending hb).le
  · intro b hb c hc
    have hba := le_of_mem_due hb
    rcases List.mem_cons.mp hc with rfl | hc
    · exact hba
    · exact hba.trans (hq.lt_of_mem_pending hc).le

section Keys
variable {α : Type*} {key : α → τ} {l : List α}

/-- In a list that is in the order of a key, small keys are in front. -/
theorem takeWhile_eq_filter (hl : l.Pairwise (fun x y => key x ≤ key y)) (now : τ) :
    l.takeWhile (fun x => key x ≤ now) = l.filter (fun x => key x ≤ now) := by
  induction l with
  | nil => rfl
  | cons x l ih =>
    obtain ⟨hx,hrest⟩ := List.pairwise_cons.mp hl
    by_cases hle : key x ≤ now
    · rw [List.takeWhile_cons_of_pos (by simpa using hle),
        List.filter_cons_of_pos (by simpa using hle),ih hrest]
    · have hnil : l.filter (fun y => key y ≤ now) = [] := by
        apply List.filter_eq_nil_iff.mpr
        intro y hy hley
        exact hle ((hx y hy).trans (of_decide_eq_true hley))
      rw [List.takeWhile_cons_of_neg (by simpa using hle),
        List.filter_cons_of_neg (by simpa using hle),hnil]

theorem dropWhile_eq_filter (hl : l.Pairwise (fun x y => key x ≤ key y)) (now : τ) :
    l.dropWhile (fun x => key x ≤ now) = l.filter (fun x => now < key x) := by
  induction l with
  | nil => rfl
  | cons x l ih =>
    obtain ⟨hx,hrest⟩ := List.pairwise_cons.mp hl
    by_cases hle : key x ≤ now
    · rw [List.dropWhile_cons_of_pos (by simpa using hle),
        List.filter_cons_of_neg (by simpa using hle),ih hrest]
    · have hall : (x :: l).filter (fun y => now < key y) = x :: l := by
        apply List.filter_eq_self.mpr
        intro y hy
        have hxy : key x ≤ key y := by
          rcases List.mem_cons.mp hy with rfl | hy
          · exact le_rfl
          · exact hx y hy
        exact decide_eq_true ((lt_of_not_ge hle).trans_le hxy)
      rw [List.dropWhile_cons_of_neg (by simpa using hle),hall]

/-- A list of items that stand for alarms, with a new one. -/
theorem map_set {f g : α → ι × τ} {x : α} (hfg : ∀ y ∈ l, g y = f y) :
    (l.takeWhile (fun y => (f y).2 ≤ (g x).2) ++
      x :: l.dropWhile (fun y => (f y).2 ≤ (g x).2)).map g = set (l.map f) (g x) := by
  have hsub : ∀ k : List α, k.Sublist l → k.map g = k.map f :=
    fun k hk => List.map_congr_left fun y hy => hfg y (hk.subset hy)
  unfold set
  rw [List.map_append,List.map_cons,hsub _ (List.takeWhile_sublist _),
    hsub _ (List.dropWhile_sublist _),List.takeWhile_map,List.dropWhile_map]
  rfl

end Keys

/-- In the order of the times and, among equal times, of the relation. -/
def OrderedBy (before : ι → ι → Prop) (q : List (ι × τ)) : Prop :=
  q.Pairwise (fun a b => a.2 < b.2 ∨ a.2 = b.2 ∧ before a.1 b.1)

section Order
variable {before before' : ι → ι → Prop}

theorem OrderedBy.sorted (hq : OrderedBy before q) : Sorted q := by
  refine List.Pairwise.imp ?_ hq
  rintro a b (hlt | ⟨heq,_⟩)
  · exact hlt.le
  · exact heq.le

/-- The relation only matters on those that the alarms name. -/
theorem OrderedBy.imp (hq : OrderedBy before q)
    (h : ∀ a ∈ q, ∀ b ∈ q, before a.1 b.1 → before' a.1 b.1) : OrderedBy before' q := by
  refine List.Pairwise.imp_of_mem ?_ hq
  rintro a b ha hb (hlt | ⟨heq,hbefore⟩)
  · exact Or.inl hlt
  · exact Or.inr ⟨heq,h a ha b hb hbefore⟩

theorem OrderedBy.pending (hq : OrderedBy before q) (now : τ) :
    OrderedBy before (Alarms.pending q now) := List.Pairwise.sublist (List.dropWhile_sublist _) hq

/-- A new alarm comes last among equal times. -/
theorem OrderedBy.set (hq : OrderedBy before q) (hlast : ∀ b ∈ q, before b.1 a.1) :
    OrderedBy before (set q a) := by
  have hdue : OrderedBy before (due q a.2) := List.Pairwise.sublist (List.takeWhile_sublist _) hq
  refine List.pairwise_append.mpr ⟨hdue,List.pairwise_cons.mpr ⟨?_,hq.pending a.2⟩,?_⟩
  · exact fun b hb => Or.inl (hq.sorted.lt_of_mem_pending hb)
  · intro b hb c hc
    have hba := le_of_mem_due hb
    rcases List.mem_cons.mp hc with rfl | hc
    · exact hba.lt_or_eq.imp_right fun heq => ⟨heq,hlast b ((List.takeWhile_sublist _).subset hb)⟩
    · exact Or.inl (hba.trans_lt (hq.sorted.lt_of_mem_pending hc))

end Order

end Alarms
