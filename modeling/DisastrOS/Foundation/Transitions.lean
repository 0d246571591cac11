import Mathlib.Logic.Basic
import Mathlib.Data.List.Basic
import Mathlib.Logic.Relation

/-! # Guarded reachability of a transition system

A guard restricts the steps a run may take. Every invariant rule is stated for
guarded runs; unrestricted runs are the runs under the guard that always holds.
Executable runs are folds of a partial step function, so a concrete run is
checked by evaluation and then read as reachability.
-/
namespace Transitions

/-- Initial states and a labelled step relation. -/
structure System (σ α : Type*) where
  Initial : σ → Prop
  Step : σ → α → σ → Prop

variable {σ α ε : Type*}

/-- States reached from an initial state by steps that satisfy the guard. -/
inductive Reach (M : System σ α) (G : σ → α → Prop) : σ → Prop
  | initial {s : σ} : M.Initial s → Reach M G s
  | step {s t : σ} {a : α} : Reach M G s → G s a → M.Step s a t → Reach M G t

/-- The guard that restricts nothing. -/
def unguarded : σ → α → Prop := fun _ _ => True

instance (s : σ) (a : α) : Decidable (unguarded s a) := isTrue trivial

theorem Reach.mono {M : System σ α} {G H : σ → α → Prop} (hGH : ∀ s a, G s a → H s a)
    {s : σ} (hr : Reach M G s) : Reach M H s := by
  induction hr with
  | initial hi => exact .initial hi
  | step _ hg hs ih => exact .step ih (hGH _ _ hg) hs

theorem Reach.unguard {M : System σ α} {G : σ → α → Prop} {s : σ} (hr : Reach M G s) :
    Reach M unguarded s := hr.mono (fun _ _ _ => trivial)

/-- What holds initially and is preserved by every guarded step holds on every run. -/
theorem Reach.invariant {M : System σ α} {G : σ → α → Prop} {I : σ → Prop}
    (hinit : ∀ s, M.Initial s → I s)
    (hstep : ∀ s a t, I s → G s a → M.Step s a t → I t) {s : σ} (hr : Reach M G s) : I s := by
  induction hr with
  | initial hi => exact hinit _ hi
  | step _ hg hs ih => exact hstep _ _ _ ih hg hs

/-- The invariant rule when every reached state is already known to satisfy `J`. -/
theorem Reach.invariant_within {M : System σ α} {G : σ → α → Prop} {I J : σ → Prop}
    (hJ : ∀ s, Reach M unguarded s → J s)
    (hinit : ∀ s, M.Initial s → I s)
    (hstep : ∀ s a t, J s → I s → G s a → M.Step s a t → I t) {s : σ} (hr : Reach M G s) :
    I s := by
  induction hr with
  | initial hi => exact hinit _ hi
  | step hr hg hs ih => exact hstep _ _ _ (hJ _ hr.unguard) ih hg hs

/-- What amounts on reached states to something that holds initially, and that outlasts a
step exactly if the step meets the guard, holds on every guarded run, and the first step
that does not meet the guard ends it. -/
theorem Reach.holds_iff {M : System σ α} {G : σ → α → Prop} {P I : σ → Prop}
    (hP : ∀ s, Reach M unguarded s → (P s ↔ I s)) (hinit : ∀ s, M.Initial s → I s)
    (hstep : ∀ s a t, Reach M unguarded s → I s → M.Step s a t → (I t ↔ G s a)) {s : σ}
    (hr : Reach M G s) : P s ∧ ∀ a t, M.Step s a t → (P t ↔ G s a) := by
  have hs : I s := hr.invariant_within (fun _ h => h) hinit
    (fun s a t hrs hIs hg hst => (hstep s a t hrs hIs hst).mpr hg)
  refine ⟨(hP s hr.unguard).mpr hs,?_⟩
  intro a t hst
  rw [hP t (.step hr.unguard trivial hst)]
  exact hstep s a t hr.unguard hs hst

/-- What is reached is related to what the simulating system reaches. -/
theorem Reach.simulated {τ : Type*} {M : System σ α} {N : System τ α} {R : σ → τ → Prop}
    (hinit : ∀ s, M.Initial s → ∃ t, N.Initial t ∧ R s t)
    (hstep : ∀ s t a s', Reach N unguarded t → R s t → M.Step s a s' →
      ∃ t', N.Step t a t' ∧ R s' t') {s : σ} (hr : Reach M unguarded s) :
    ∃ t, Reach N unguarded t ∧ R s t := by
  induction hr with
  | initial hi =>
    obtain ⟨t,ht,hst⟩ := hinit _ hi
    exact ⟨t,.initial ht,hst⟩
  | step _ _ hs ih =>
    obtain ⟨t,ht,hst⟩ := ih
    obtain ⟨t',hs',hst'⟩ := hstep _ _ _ _ ht hst hs
    exact ⟨t',.step ht trivial hs',hst'⟩

/-- The second state is reached from the first one by unrestricted steps. -/
def Later (M : System σ α) : σ → σ → Prop := Relation.ReflTransGen (fun s t => ∃ a, M.Step s a t)

theorem Later.reach {M : System σ α} {s t : σ} (hst : Later M s t) (hs : Reach M unguarded s) :
    Reach M unguarded t := by
  induction hst with
  | refl => exact hs
  | tail _ hstep ih =>
    obtain ⟨a,hstep⟩ := hstep
    exact ih.step trivial hstep

/-- What every step from a reached state preserves still holds later. -/
theorem Later.preserves {M : System σ α} {I : σ → Prop}
    (hstep : ∀ s a t, Reach M unguarded s → I s → M.Step s a t → I t) {s t : σ}
    (hst : Later M s t) (hr : Reach M unguarded s) (hs : I s) : I t := by
  induction hst with
  | refl => exact hs
  | tail hpre h ih =>
    obtain ⟨a,h⟩ := h
    exact hstep _ a _ (Later.reach hpre hr) ih h

/-- The second state is reached from the first one by steps that satisfy the guard. -/
def LaterUnder (M : System σ α) (G : σ → α → Prop) : σ → σ → Prop :=
  Relation.ReflTransGen (fun s t => ∃ a, G s a ∧ M.Step s a t)

/-- What every guarded step from a reached state preserves still holds later. -/
theorem LaterUnder.preserves {M : System σ α} {G : σ → α → Prop} {I : σ → Prop}
    (hstep : ∀ s a t, Reach M unguarded s → I s → G s a → M.Step s a t → I t) {s t : σ}
    (hst : LaterUnder M G s t) (hr : Reach M unguarded s) (hs : I s) :
    Reach M unguarded t ∧ I t := by
  induction hst with
  | refl => exact ⟨hr,hs⟩
  | tail _ h ih =>
    obtain ⟨a,hg,h⟩ := h
    exact ⟨ih.1.step trivial h,hstep _ a _ ih.1 ih.2 hg h⟩

section Traces
variable {β τ : Type*} {M : System σ α} {N : System τ β} {J Q : σ → Prop} {s t u : σ} {a : α}
variable {es : List (σ × α × σ)}

/-- The steps of a run, each with the states before and behind it. -/
inductive Trace (M : System σ α) : σ → List (σ × α × σ) → σ → Prop
  | nil (s : σ) : Trace M s [] s
  | cons {s u t : σ} {a : α} {es : List (σ × α × σ)} (hstep : M.Step s a u)
      (hrest : Trace M u es t) : Trace M s ((s,a,u) :: es) t

/-- What every step from a state in a set preserves holds behind a run whose steps are all such. -/
theorem Trace.preserves_under (h : Trace M s es t)
    (hJ : ∀ s a t, J s → Q s → M.Step s a t → J t) (hs : J s) (hQ : ∀ e ∈ es, Q e.1) : J t := by
  induction h with
  | nil s => exact hs
  | @cons s u t a es hstep _ ih =>
    exact ih (hJ _ _ _ hs (hQ _ List.mem_cons_self) hstep)
      fun e he => hQ e (List.mem_cons_of_mem _ he)

/-- What every step preserves holds behind a run. -/
theorem Trace.preserves (h : Trace M s es t) (hJ : ∀ s a t, J s → M.Step s a t → J t)
    (hs : J s) : J t :=
  h.preserves_under (Q := fun _ => True) (fun s a t h _ => hJ s a t h) hs fun _ _ => trivial

/-- The image of a run under a simulation is a run. -/
theorem Trace.map (f : σ → τ) (g : σ × α × σ → β) (h : Trace M s es t)
    (hJ : ∀ s a t, J s → M.Step s a t → J t)
    (hsim : ∀ s a t, J s → M.Step s a t → N.Step (f s) (g (s,a,t)) (f t)) (hs : J s) :
    Trace N (f s) (es.map (fun e => (f e.1,g e,f e.2.2))) (f t) := by
  induction h with
  | nil s => exact .nil _
  | cons hstep _ ih => exact .cons (hsim _ _ _ hs hstep) (ih (hJ _ _ _ hs hstep))

/-- A number that every step lowers by what is counted of the step bounds the count. -/
theorem Trace.countP_le (m : σ → ℕ) (c : σ × α × σ → Bool) (h : Trace M s es t)
    (hJ : ∀ s a t, J s → M.Step s a t → J t)
    (hm : ∀ s a t, J s → Q s → Q t → M.Step s a t → m t + (c (s,a,t)).toNat ≤ m s) (hs : J s)
    (hQ : Q s) (hall : ∀ e ∈ es, Q e.2.2) : m t + es.countP c ≤ m s := by
  induction h with
  | nil s => simp
  | @cons s u t a es hstep _ ih =>
    have hu : Q u := hall _ List.mem_cons_self
    have hrest := ih (hJ _ _ _ hs hstep) hu (fun e he => hall e (List.mem_cons_of_mem _ he))
    have hfirst := hm _ _ _ hs hQ hu hstep
    rw [List.countP_cons]
    cases hc : c (s,a,u)
    · simp only [hc,Bool.toNat_false] at hfirst ⊢
      simp only [reduceCtorEq,if_false]
      omega
    · simp only [hc,Bool.toNat_true] at hfirst
      simp only [if_true]
      omega

/-- A number that every step raises by what is counted of the step counts. -/
theorem Trace.countP_eq (m : σ → ℕ) (c : σ × α × σ → Bool) (h : Trace M s es t)
    (hJ : ∀ s a t, J s → M.Step s a t → J t)
    (hm : ∀ s a t, J s → M.Step s a t → m t = m s + (c (s,a,t)).toNat) (hs : J s) :
    m t = m s + es.countP c := by
  induction h with
  | nil s => simp
  | @cons s u t a es hstep _ ih =>
    have hfirst := hm _ _ _ hs hstep
    have hrest := ih (hJ _ _ _ hs hstep)
    rw [List.countP_cons]
    cases hc : c (s,a,u)
    · simp only [hc,Bool.toNat_false] at hfirst
      simp only [reduceCtorEq,if_false]
      omega
    · simp only [hc,Bool.toNat_true] at hfirst
      simp only [if_true]
      omega

/-- A run that does not stay in a set of states has a first step that leaves it. -/
theorem Trace.exists_leave (h : Trace M s es t) (hQ : Q s) (hout : ¬ ∀ e ∈ es, Q e.2.2) :
    ∃ es₁ e es₂, es = es₁ ++ e :: es₂ ∧ Trace M s es₁ e.1 ∧ (∀ d ∈ es₁, Q d.2.2) ∧ Q e.1 ∧
      M.Step e.1 e.2.1 e.2.2 ∧ ¬ Q e.2.2 := by
  induction h with
  | nil s => exact absurd (fun e he => absurd he List.not_mem_nil) hout
  | @cons s u t a es hstep _ ih =>
    by_cases hu : Q u
    · have hlater : ¬ ∀ e ∈ es, Q e.2.2 := by
        intro hall
        refine hout fun e he => ?_
        rcases List.mem_cons.mp he with rfl | he
        · exact hu
        · exact hall e he
      obtain ⟨es₁,e,es₂,rfl,htrace,hall,hleave⟩ := ih hu hlater
      refine ⟨(s,a,u) :: es₁,e,es₂,rfl,.cons hstep htrace,?_,hleave⟩
      intro d hd
      rcases List.mem_cons.mp hd with rfl | hd
      · exact hu
      · exact hall d hd
    · exact ⟨[],(s,a,u),es,rfl,.nil s,fun d hd => absurd hd List.not_mem_nil,hQ,hstep,hu⟩

end Traces

section Executable
variable (f : σ → α → Except ε σ) (g : σ → α → Bool)

/-- Fold of a partial step function over a list of actions, each of which is checked
against a guard first. -/
def runUnder : σ → List α → Option σ
  | s, [] => some s
  | s, a :: as => if g s a then match f s a with
      | .ok t => runUnder t as
      | .error _ => none
    else none

theorem runUnder_reach {M : System σ α} {G : σ → α → Prop}
    (hM : ∀ s a t, f s a = .ok t → M.Step s a t) (hG : ∀ s a, g s a = true → G s a) {s t : σ}
    {as : List α} (hs : Reach M G s) (h : runUnder f g s as = some t) : Reach M G t := by
  induction as generalizing s with
  | nil =>
    cases h
    exact hs
  | cons a as ih =>
    unfold runUnder at h
    by_cases hg : g s a = true
    · rw [if_pos hg] at h
      cases ha : f s a with
      | error e => simp [ha] at h
      | ok u =>
        simp only [ha] at h
        exact ih (.step hs (hG s a hg) (hM s a u ha)) h
    · simp [hg] at h

/-- The same without a guard and with all transitions that it takes. -/
def recorded : σ → List α → Option (List (σ × α × σ) × σ)
  | s, [] => some ([],s)
  | s, a :: as => match f s a with
      | .ok t => (recorded t as).map fun r => ((s,a,t) :: r.1,r.2)
      | .error _ => none

theorem recorded_trace {M : System σ α} (hM : ∀ s a t, f s a = .ok t → M.Step s a t) {s t : σ}
    {as : List α} {es : List (σ × α × σ)} (h : recorded f s as = some (es,t)) :
    Trace M s es t := by
  induction as generalizing s es with
  | nil =>
    cases h
    exact .nil _
  | cons a as ih =>
    unfold recorded at h
    cases ha : f s a with
    | error e => simp [ha] at h
    | ok u =>
      simp only [ha] at h
      obtain ⟨r,hr,heq⟩ := Option.map_eq_some_iff.mp h
      cases heq
      exact .cons (hM s a u ha) (ih hr)

end Executable

end Transitions
