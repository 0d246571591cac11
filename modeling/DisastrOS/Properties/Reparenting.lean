import DisastrOS.Behaviour.Steps

/-! # The loop that hands children to init

Each pass takes a child off one list and puts it on another, so that the loop ends when
the first list is empty. The two are one list when init exits, and the loop does not
end then unless init has no children.
-/
namespace DisastrOS

namespace Kernel

/-- The state in which `internal_exit` enters its loop. -/
def atReparenting (s : Kernel) (r : ℕ) (args : List ℤ) : Kernel :=
  let s := s.enterTrap r dsosCallExit args
  s.setReturnValue r (s.syscallArgs r 0)

/-- The children of `r` have gone to `i`, each with the signal. -/
structure HandsToInit (s : Kernel) (i r : ℕ) (t : Kernel) : Prop where
  emptied : t.children r = []
  init : t.children i = s.children i ++ s.children r
  signals : ∀ x ∈ s.children r, t.signals (s.childPcb x) =
    s.signals (s.childPcb x) ||| (dsosSighup &&& s.signalsMask (s.childPcb x))

/-- Some number of passes ends the loop, with all children handed over. -/
def Reparents (s : Kernel) (i r : ℕ) : Prop :=
  ∃ n t, reparent i r n s = .ok t ∧ HandsToInit s i r t

variable {s t : Kernel} {i r : ℕ}

/-- A signal that is sent twice is there once. -/
theorem foldl_signals (child : ℕ → ℕ) (sig : ℕ → BitVec 32) (l : List ℕ) (g : ℕ → BitVec 32)
    (p : ℕ) : l.foldl (fun g x => Function.update g (child x) (g (child x) ||| sig (child x))) g p =
      if p ∈ l.map child then g p ||| sig p else g p := by
  induction l generalizing g with
  | nil => simp
  | cons x l ih =>
    rw [List.foldl_cons,ih]
    by_cases hp : p = child x
    · subst hp
      simp [BitVec.or_assoc]
    · simp [hp]

theorem handsToInit_reparented (hir : i ≠ r ∨ s.children r = []) :
    HandsToInit s i r (s.reparented i r) where
  emptied := by
    by_cases hnil : s.children r = []
    · exact (congrFun (handedOver_nil hnil) r).trans hnil
    · have hne := (hir.resolve_right hnil).symm
      exact (Function.update_of_ne hne _ _).trans (Function.update_self _ _ _)
  init := Function.update_self _ _ _
  signals x hx := by
    have hfold := foldl_signals s.childPcb (fun p => dsosSighup &&& s.signalsMask p)
      (s.children r) s.signals (s.childPcb x)
    rw [if_pos (List.mem_map_of_mem hx)] at hfold
    exact hfold

/-- The loop does its work unless it has children of init to hand to init. -/
theorem reparents_iff (s : Kernel) (i r : ℕ) : s.Reparents i r ↔ i ≠ r ∨ s.children r = [] := by
  constructor
  · rintro ⟨n,t,hok,_⟩
    by_contra hself
    obtain ⟨hir,hne⟩ := not_or.mp hself
    obtain rfl := not_not.mp hir
    rw [reparent_self hne n] at hok
    cases hok
  · intro hir
    exact ⟨_,_,reparent_eq hir,handsToInit_reparented hir⟩

end Kernel

/-- The loop of an exit ends, and hands all children to init, exactly if the process is
not init or has no children. -/
theorem reparenting_ends {s : Kernel} {r : ℕ} {args : List ℤ} (hs : Reachable s) :
    ∃ i, s.initPcb = some i ∧
      ((s.atReparenting r args).Reparents i r ↔ i ≠ r ∨ s.children r = []) := by
  obtain ⟨i,hi,_,_⟩ := hs.inv.hasInit
  exact ⟨i,hi,Kernel.reparents_iff _ i r⟩

/-- A child exits that has a child of its own. -/
theorem reparenting_ends_run : ∃ s : Kernel,
    ((s.running = some 1 ∧ s.children 1 = [1]) ∧ s.childPcb 1 = 2) ∧ ∃ i, s.initPcb = some i ∧
      ((s.atReparenting 1 [7]).Reparents i 1 ↔ i ≠ 1 ∨ s.children 1 = []) := by
  obtain ⟨s,hs,hcheck⟩ := exists_run Transitions.unguarded
    [.call 5 [1,0],.ret,.tick,.call 5 [1,0],.ret]
    (fun s => s.running = some 1 && s.children 1 = [1] && s.childPcb 1 = 2) (by decide)
  simp only [Bool.and_eq_true,decide_eq_true_eq] at hcheck
  exact ⟨s,hcheck,reparenting_ends hs⟩

/-- Init exits with a child. -/
theorem exit_of_init_diverges : ¬ ∀ (s : Kernel) (r i : ℕ) (args : List ℤ), Reachable s →
    s.running = some r → s.initPcb = some i → (s.atReparenting r args).Reparents i r := by
  intro hclaim
  obtain ⟨s,hs,hcheck⟩ := exists_run Transitions.unguarded [.call 5 [1,0],.ret]
    (fun s => s.running = some 0 && s.initPcb = some 0 && s.children 0 = [0]) (by decide)
  simp only [Bool.and_eq_true,decide_eq_true_eq] at hcheck
  obtain ⟨⟨hr,hi⟩,hchildren⟩ := hcheck
  obtain ⟨n,t,hok,_⟩ := hclaim s 0 0 [7] hs hr hi
  have hne : (s.atReparenting 0 [7]).children 0 ≠ [] := by
    rw [show (s.atReparenting 0 [7]).children 0 = [0] from hchildren]
    exact List.cons_ne_nil 0 []
  cases (Kernel.reparent_self hne n).symm.trans hok

end DisastrOS
