import Mathlib.Data.List.Nodup
import Mathlib.Data.Multiset.AddSub
import Mathlib.Logic.Function.Basic

/-! # Numbered handles on named objects

Owners open objects by name and get handles, which are numbered and are closed by number. An object
knows its holders, and only one without holders is destroyed. Objects and handles are limited.
-/
namespace Handles

universe u v w

/-- Why a request is refused. -/
inductive Refusal
  | taken
  | absent
  | mismatch
  | shared
  | exhausted
  | unopened
  | unknown
  | busy
  deriving DecidableEq

/-- What the owners know of the objects. Holders are listed with the numbers of their handles, and
so are former ones that have lost their tables. -/
@[ext] structure Registry (P : Type u) (I : Type v) (T : Type w) where
  type : I → Option T
  holders : I → Multiset (P × ℤ)
  table : P → List (ℤ × I)
  counter : P → ℤ
  objects : ℕ
  handles : ℕ

structure Limits where
  objects : ℕ
  handles : ℕ

/-- What happens to a registry, with the values that are returned. -/
inductive Event (P : Type u) (I : Type v) (T : Type w) (V : Type*)
  | opened (p : P) (i : I) (ty : T) (create exclusive : Bool) (v : V)
  | closed (p : P) (fd : ℤ) (v : V)
  | destroyed (i : I) (v : V)
  | entered (p : P)
  | left (p : P)
  deriving DecidableEq

variable {P : Type u} {I : Type v} {T : Type w} {V : Type*} [DecidableEq P] [DecidableEq I]

/-- The event may take away this handle. -/
def Event.ends (p : P) (fd : ℤ) : Event P I T V → Bool
  | .closed q n _ => q = p && n = fd
  | .entered q => q = p
  | .left q => q = p
  | _ => false

/-- Whose table the event may change. -/
def Event.owner : Event P I T V → Option P
  | .opened p _ _ _ _ _ => some p
  | .closed p _ _ => some p
  | .destroyed _ _ => none
  | .entered p => some p
  | .left p => some p

namespace Registry

def empty : Registry P I T := ⟨fun _ => none,fun _ => 0,fun _ => [],fun _ => 0,0,0⟩

def create (R : Registry P I T) (i : I) (ty : T) : Registry P I T :=
  { R with
    type := Function.update R.type i (some ty)
    objects := R.objects + 1 }

/-- The owner gets its next handle. -/
def grant (R : Registry P I T) (p : P) (i : I) : Registry P I T :=
  { R with
    holders := Function.update R.holders i ((p,R.counter p) ::ₘ R.holders i)
    table := Function.update R.table p (R.table p ++ [(R.counter p,i)])
    counter := Function.update R.counter p (R.counter p + 1)
    handles := R.handles + 1 }

def drop (R : Registry P I T) (p : P) (h : ℤ × I) : Registry P I T :=
  { R with
    holders := Function.update R.holders h.2 ((R.holders h.2).erase (p,h.1))
    table := Function.update R.table p ((R.table p).erase h)
    handles := R.handles - 1 }

def discard (R : Registry P I T) (i : I) : Registry P I T :=
  { R with
    type := Function.update R.type i none
    objects := R.objects - 1 }

/-- A new owner has no handles; those of a former one of the same name are lost. -/
def enter (R : Registry P I T) (p : P) : Registry P I T :=
  { R with
    table := Function.update R.table p []
    counter := Function.update R.counter p 0 }

/-- An owner drops all that it has. -/
def leave (R : Registry P I T) (p : P) : Registry P I T :=
  (R.table p).foldl (fun R h => R.drop p h) R

/-- The next handle, if there is one left. -/
def grantWithin (R : Registry P I T) (limits : Limits) (p : P) (i : I) :
    Except Refusal ℤ × Registry P I T :=
  if limits.handles ≤ R.handles then (.error .exhausted,R) else (.ok (R.counter p),R.grant p i)

/-- An open, which fails altogether where a new object is one too many. -/
def openHandle [DecidableEq T] (R : Registry P I T) (limits : Limits) (p : P) (i : I)
    (ty : T) (create exclusive : Bool) : Option (Except Refusal ℤ × Registry P I T) :=
  match create, R.type i with
  | true, some _ => some (.error .taken,R)
  | true, none =>
    if limits.objects ≤ R.objects then none else some ((R.create i ty).grantWithin limits p i)
  | false, none => some (.error .absent,R)
  | false, some ty' =>
    if ty' ≠ ty then some (.error .mismatch,R)
    else if exclusive = true ∧ R.holders i ≠ 0 then some (.error .shared,R)
    else some (R.grantWithin limits p i)

def closeHandle (R : Registry P I T) (p : P) (fd : ℤ) : Except Refusal ℤ × Registry P I T :=
  match (R.table p).find? (fun h => h.1 = fd) with
  | none => (.error .unopened,R)
  | some h => (.ok 0,R.drop p h)

def destroy (R : Registry P I T) (i : I) : Except Refusal ℤ × Registry P I T :=
  match R.type i with
  | none => (.error .unknown,R)
  | some _ => if R.holders i ≠ 0 then (.error .busy,R) else (.ok 0,R.discard i)

/-- The registry behind an event, if the value returned is the right one. -/
def apply [DecidableEq T] [DecidableEq V] (limits : Limits) (code : Except Refusal ℤ → V)
    (R : Registry P I T) : Event P I T V → Option (Registry P I T)
  | .opened p i ty create exclusive v =>
    match R.openHandle limits p i ty create exclusive with
    | none => none
    | some res => if code res.1 = v then some res.2 else none
  | .closed p fd v =>
    if code (R.closeHandle p fd).1 = v then some (R.closeHandle p fd).2 else none
  | .destroyed i v => if code (R.destroy i).1 = v then some (R.destroy i).2 else none
  | .entered p => some (R.enter p)
  | .left p => some (R.leave p)

/-- The registry behind a number of events, if every value returned is the right one. -/
def replay [DecidableEq T] [DecidableEq V] (limits : Limits) (code : Except Refusal ℤ → V)
    (R : Registry P I T) (es : List (Event P I T V)) : Option (Registry P I T) :=
  es.foldlM (fun R e => R.apply limits code e) R

/-- Who has a handle is a holder, what is held exists, and no owner has two handles with one
number. -/
structure Consistent (R : Registry P I T) : Prop where
  listed : ∀ p, ∀ h ∈ R.table p, (p,h.1) ∈ R.holders h.2
  present : ∀ i, R.holders i ≠ 0 → R.type i ≠ none
  distinct : ∀ p, ((R.table p).map Prod.fst).Nodup
  below : ∀ p, ∀ h ∈ R.table p, h.1 < R.counter p

variable {R R' : Registry P I T} {p q : P} {i j : I} {ty : T} {fd : ℤ} {h h' : ℤ × I}

namespace Consistent

omit [DecidableEq P] in
theorem create (hR : R.Consistent) (i : I) (ty : T) : (R.create i ty).Consistent := by
  refine ⟨hR.listed,?_,hR.distinct,hR.below⟩
  intro j hj
  dsimp only [Registry.create]
  by_cases hji : j = i
  · subst hji
    simp
  · rw [Function.update_of_ne hji]
    exact hR.present j hj

omit [DecidableEq P] in
theorem discard (hR : R.Consistent) (hi : R.holders i = 0) : (R.discard i).Consistent := by
  refine ⟨hR.listed,?_,hR.distinct,hR.below⟩
  intro j hj
  have hji : j ≠ i := by
    rintro rfl
    exact hj hi
  dsimp only [Registry.discard]
  rw [Function.update_of_ne hji]
  exact hR.present j hj

theorem grant (hR : R.Consistent) (hi : R.type i ≠ none) (p : P) : (R.grant p i).Consistent := by
  have htable : ∀ q, ∀ h ∈ (R.grant p i).table q,
      h ∈ R.table q ∨ q = p ∧ h = (R.counter p,i) := by
    intro q h hh
    dsimp only [Registry.grant] at hh
    by_cases hqp : q = p
    · subst hqp
      rw [Function.update_self,List.mem_append,List.mem_singleton] at hh
      exact hh.imp_right fun hh => ⟨rfl,hh⟩
    · rw [Function.update_of_ne hqp] at hh
      exact Or.inl hh
  refine ⟨?_,?_,?_,?_⟩
  · intro q h hh
    dsimp only [Registry.grant]
    rcases htable q h hh with hh | ⟨rfl,rfl⟩
    · by_cases hhi : h.2 = i
      · rw [hhi,Function.update_self]
        exact Multiset.mem_cons_of_mem (hhi ▸ hR.listed q h hh)
      · rw [Function.update_of_ne hhi]
        exact hR.listed q h hh
    · rw [Function.update_self]
      exact Multiset.mem_cons_self _ _
  · intro j hj
    by_cases hji : j = i
    · exact hji ▸ hi
    · refine hR.present j ?_
      dsimp only [Registry.grant] at hj
      rwa [Function.update_of_ne hji] at hj
  · intro q
    dsimp only [Registry.grant]
    by_cases hqp : q = p
    · subst hqp
      rw [Function.update_self,List.map_append]
      refine List.nodup_append.mpr ⟨hR.distinct q,List.nodup_singleton _,?_⟩
      intro n hn m hm hnm
      obtain ⟨h,hh,rfl⟩ := List.mem_map.mp hn
      obtain rfl := List.mem_singleton.mp hm
      have hlt := hR.below q h hh
      dsimp only at hnm
      omega
    · rw [Function.update_of_ne hqp]
      exact hR.distinct q
  · intro q h hh
    have hcounter : R.counter q ≤ (R.grant p i).counter q := by
      by_cases hqp : q = p
      · subst hqp
        have hnew : (R.grant q i).counter q = R.counter q + 1 := Function.update_self _ _ _
        omega
      · have hold : (R.grant p i).counter q = R.counter q := Function.update_of_ne hqp _ _
        omega
    rcases htable q h hh with hold | ⟨rfl,rfl⟩
    · have hlt := hR.below q h hold
      omega
    · dsimp only [Registry.grant]
      rw [Function.update_self]
      omega

/-- What is on a table behind a drop was there, and is not what was dropped. -/
theorem mem_table_drop (hR : R.Consistent) (hh : h ∈ R.table p) :
    h' ∈ (R.drop p h).table q ↔ h' ∈ R.table q ∧ ¬ (q = p ∧ h'.1 = h.1) := by
  dsimp only [Registry.drop]
  by_cases hqp : q = p
  · subst hqp
    have hnodup : (R.table q).Nodup := (hR.distinct q).of_map
    rw [Function.update_self,hnodup.mem_erase_iff,and_comm]
    refine and_congr_right fun hmem => ?_
    simp only [true_and]
    refine not_congr ⟨fun heq => heq ▸ rfl,?_⟩
    exact fun heq => List.inj_on_of_nodup_map (hR.distinct q) hmem hh heq
  · rw [Function.update_of_ne hqp]
    simp [hqp]

theorem drop (hR : R.Consistent) (hh : h ∈ R.table p) : (R.drop p h).Consistent := by
  refine ⟨?_,?_,?_,?_⟩
  · intro q h' hh'
    obtain ⟨hmem,hne⟩ := (hR.mem_table_drop hh).mp hh'
    have hlisted := hR.listed q h' hmem
    dsimp only [Registry.drop]
    by_cases hhi : h'.2 = h.2
    · rw [hhi,Function.update_self]
      refine (Multiset.mem_erase_of_ne ?_).mpr (hhi ▸ hlisted)
      rw [ne_eq,Prod.mk.injEq]
      exact hne
    · rwa [Function.update_of_ne hhi]
  · intro j hj
    refine hR.present j ?_
    dsimp only [Registry.drop] at hj
    by_cases hji : j = h.2
    · subst hji
      rintro hzero
      rw [Function.update_self,hzero,Multiset.erase_zero] at hj
      exact hj rfl
    · rwa [Function.update_of_ne hji] at hj
  · intro q
    dsimp only [Registry.drop]
    by_cases hqp : q = p
    · subst hqp
      rw [Function.update_self]
      exact (hR.distinct q).sublist (List.erase_sublist.map _)
    · rw [Function.update_of_ne hqp]
      exact hR.distinct q
  · intro q h' hh'
    exact hR.below q h' ((hR.mem_table_drop hh).mp hh').1

omit [DecidableEq I] in
theorem enter (hR : R.Consistent) (p : P) : (R.enter p).Consistent := by
  have htable : ∀ q, ∀ h ∈ (R.enter p).table q, q ≠ p ∧ h ∈ R.table q := by
    intro q h hh
    dsimp only [Registry.enter] at hh
    by_cases hqp : q = p
    · subst hqp
      simp at hh
    · rw [Function.update_of_ne hqp] at hh
      exact ⟨hqp,hh⟩
  refine ⟨fun q h hh => hR.listed q h (htable q h hh).2,hR.present,?_,?_⟩
  · intro q
    dsimp only [Registry.enter]
    by_cases hqp : q = p
    · subst hqp
      simp
    · rw [Function.update_of_ne hqp]
      exact hR.distinct q
  · intro q h hh
    obtain ⟨hqp,hh⟩ := htable q h hh
    dsimp only [Registry.enter]
    rw [Function.update_of_ne hqp]
    exact hR.below q h hh

/-- What every drop preserves holds when the owner has left. -/
theorem leave {Q : Registry P I T → Prop} (hR : R.Consistent) (hQ : Q R)
    (hdrop : ∀ R h, R.Consistent → h ∈ R.table p → Q R → Q (R.drop p h)) :
    (R.leave p).Consistent ∧ Q (R.leave p) := by
  unfold Registry.leave
  generalize hl : R.table p = l
  induction l generalizing R with
  | nil => exact ⟨hR,hQ⟩
  | cons h l ih =>
    have hh : h ∈ R.table p := by
      rw [hl]
      exact List.mem_cons_self
    have hrest : (R.drop p h).table p = l := by
      dsimp only [Registry.drop]
      rw [Function.update_self,hl,List.erase_cons_head]
    exact ih (hR.drop hh) (hdrop R h hR hh hQ) hrest

end Consistent

theorem grantWithin_cases (R : Registry P I T) (limits : Limits) (p : P) (i : I) :
    (R.grantWithin limits p i).2 = R ∨ (R.grantWithin limits p i).2 = R.grant p i := by
  unfold grantWithin
  split
  · exact Or.inl rfl
  · exact Or.inr rfl

/-- What an event does to the registry. -/
inductive Change (R : Registry P I T) : Event P I T V → Registry P I T → Prop
  | same (e : Event P I T V) : Change R e R
  | granted {p : P} {i : I} {ty : T} {create exclusive : Bool} {v : V} (hi : R.type i ≠ none) :
      Change R (.opened p i ty create exclusive v) (R.grant p i)
  | created {p : P} {i : I} {ty : T} {create exclusive : Bool} {v : V} (hi : R.type i = none) :
      Change R (.opened p i ty create exclusive v) (R.create i ty)
  | createdGranted {p : P} {i : I} {ty : T} {create exclusive : Bool} {v : V}
      (hi : R.type i = none) :
      Change R (.opened p i ty create exclusive v) ((R.create i ty).grant p i)
  | dropped {p : P} {h : ℤ × I} {v : V} (hh : h ∈ R.table p) :
      Change R (.closed p h.1 v) (R.drop p h)
  | discarded {i : I} {v : V} (hi : R.holders i = 0) : Change R (.destroyed i v) (R.discard i)
  | entered (p : P) : Change R (.entered p) (R.enter p)
  | left (p : P) : Change R (.left p) (R.leave p)

variable {limits : Limits} {code : Except Refusal ℤ → V} {e : Event P I T V}

theorem openHandle_change [DecidableEq T] {create exclusive : Bool} {v : V}
    {res : Except Refusal ℤ × Registry P I T}
    (h : R.openHandle limits p i ty create exclusive = some res) :
    R.Change (.opened p i ty create exclusive v) res.2 := by
  unfold openHandle at h
  cases create with
  | true =>
    cases hi : R.type i with
    | some ty' =>
      simp only [hi] at h
      cases h
      exact .same _
    | none =>
      simp only [hi] at h
      split at h
      · cases h
      · cases h
        rcases grantWithin_cases (R.create i ty) limits p i with hsame | hgrant
        · rw [hsame]
          exact .created hi
        · rw [hgrant]
          exact .createdGranted hi
  | false =>
    cases hi : R.type i with
    | none =>
      simp only [hi] at h
      cases h
      exact .same _
    | some ty' =>
      simp only [hi] at h
      split at h
      · cases h
        exact .same _
      · split at h
        · cases h
          exact .same _
        · cases h
          rcases grantWithin_cases R limits p i with hsame | hgrant
          · rw [hsame]
            exact .same _
          · rw [hgrant]
            exact .granted (by simp [hi])

/-- An open fails only where it is to create an object and there is no room for one. -/
theorem openHandle_eq_none_iff [DecidableEq T] {create exclusive : Bool} :
    R.openHandle limits p i ty create exclusive = none ↔
      create = true ∧ R.type i = none ∧ limits.objects ≤ R.objects := by
  unfold openHandle
  cases create with
  | true =>
    cases hi : R.type i with
    | some ty' => simp
    | none => simp
  | false =>
    cases hi : R.type i with
    | some ty' =>
      simp only [Bool.false_eq_true,false_and,iff_false]
      split_ifs <;> simp
    | none => simp

/-- An open that succeeds returns the next number. -/
theorem openHandle_ok [DecidableEq T] {create exclusive : Bool}
    {res : Except Refusal ℤ × Registry P I T}
    (h : R.openHandle limits p i ty create exclusive = some res) (hok : res.1 = .ok fd) :
    fd = R.counter p := by
  have hgrant : ∀ {S : Registry P I T}, S.counter = R.counter →
      (S.grantWithin limits p i).1 = .ok fd → fd = R.counter p := by
    intro S hS h
    unfold grantWithin at h
    split at h
    · cases h
    · cases h
      exact congrFun hS p
  unfold openHandle at h
  split at h
  · cases h
    cases hok
  · split at h
    · cases h
    · cases h
      exact hgrant (S := R.create i ty) rfl hok
  · cases h
    cases hok
  · split at h
    · cases h
      cases hok
    · split at h
      · cases h
        cases hok
      · cases h
        exact hgrant rfl hok

theorem closeHandle_change (R : Registry P I T) (p : P) (fd : ℤ) (v : V) :
    R.Change (.closed p fd v) (R.closeHandle p fd).2 := by
  unfold closeHandle
  split
  · exact .same _
  · rename_i h hfind
    obtain rfl : h.1 = fd := by simpa using List.find?_some hfind
    exact .dropped (List.mem_of_find?_eq_some hfind)

theorem destroy_change (R : Registry P I T) (i : I) (v : V) :
    R.Change (.destroyed i v) (R.destroy i).2 := by
  unfold destroy
  split
  · exact .same _
  · split
    · exact .same _
    · rename_i hzero
      exact .discarded (not_not.mp hzero)

theorem drop_frame (g : ℤ × I) (hqp : q ≠ p) :
    (R.drop q g).table p = R.table p ∧ (R.drop q g).counter p = R.counter p :=
  ⟨Function.update_of_ne hqp.symm _ _,rfl⟩

theorem leave_frame (hqp : q ≠ p) :
    (R.leave q).table p = R.table p ∧ (R.leave q).counter p = R.counter p := by
  unfold leave
  generalize R.table q = l
  induction l generalizing R with
  | nil => exact ⟨rfl,rfl⟩
  | cons g l ih =>
    obtain ⟨htable,hcounter⟩ := drop_frame (R := R) g hqp
    exact ⟨ih.1.trans htable,ih.2.trans hcounter⟩

/-- The owner has had a handle of this number, and has it no more. -/
def Stale (R : Registry P I T) (p : P) (fd : ℤ) : Prop :=
  fd < R.counter p ∧ ∀ i, (fd,i) ∉ R.table p

theorem Stale.grant (hS : R.Stale p fd) (j : I) : (R.grant p j).Stale p fd := by
  obtain ⟨hlt,hnone⟩ := hS
  dsimp only [Stale,Registry.grant]
  rw [Function.update_self,Function.update_self]
  refine ⟨by omega,fun i hmem => ?_⟩
  rcases List.mem_append.mp hmem with hmem | hmem
  · exact hnone i hmem
  · cases List.mem_singleton.mp hmem
    omega

theorem Stale.drop (hS : R.Stale p fd) (g : ℤ × I) : (R.drop p g).Stale p fd := by
  obtain ⟨hlt,hnone⟩ := hS
  dsimp only [Stale,Registry.drop]
  rw [Function.update_self]
  exact ⟨hlt,fun i hmem => hnone i (List.mem_of_mem_erase hmem)⟩

theorem Stale.leave (hS : R.Stale p fd) : (R.leave p).Stale p fd := by
  unfold Registry.leave
  generalize R.table p = l
  induction l generalizing R with
  | nil => exact hS
  | cons g l ih => exact ih (hS.drop g)

section Runs
variable [DecidableEq T] [DecidableEq V] {es : List (Event P I T V)}

theorem apply_change (h : R.apply limits code e = some R') : R.Change e R' := by
  cases e with
  | opened p i ty create exclusive v =>
    dsimp only [Registry.apply] at h
    split at h
    · cases h
    · rename_i res hres
      split at h <;> cases h
      exact openHandle_change hres
  | closed p fd v =>
    dsimp only [Registry.apply] at h
    split at h <;> cases h
    exact closeHandle_change R p fd v
  | destroyed i v =>
    dsimp only [Registry.apply] at h
    split at h <;> cases h
    exact destroy_change R i v
  | entered p =>
    cases h
    exact .entered p
  | left p =>
    cases h
    exact .left p

theorem Consistent.apply (hR : R.Consistent) (h : R.apply limits code e = some R') :
    R'.Consistent := by
  cases apply_change h with
  | same => exact hR
  | granted hi => exact hR.grant hi _
  | @created p i ty => exact hR.create i ty
  | @createdGranted p i ty =>
    refine (hR.create i ty).grant ?_ p
    dsimp only [Registry.create]
    simp
  | dropped hh => exact hR.drop hh
  | discarded hi => exact hR.discard hi
  | entered p => exact hR.enter p
  | left p => exact (hR.leave (Q := fun _ => True) trivial fun _ _ _ _ _ => trivial).1

/-- An event that does not take a handle away leaves it and its object alone. -/
theorem Consistent.apply_keeps (hR : R.Consistent) (h : R.apply limits code e = some R')
    (hh : (fd,i) ∈ R.table p) (he : e.ends p fd = false) :
    (fd,i) ∈ R'.table p ∧ R'.type i = R.type i := by
  have hlisted := hR.listed p (fd,i) hh
  have hholders : R.holders i ≠ 0 := by
    intro hzero
    rw [hzero] at hlisted
    cases hlisted
  have hpresent := hR.present i hholders
  have hgrant : ∀ {S : Registry P I T} (q : P) (j : I), (fd,i) ∈ S.table p →
      (fd,i) ∈ (S.grant q j).table p := by
    intro S q j hS
    dsimp only [Registry.grant]
    by_cases hpq : p = q
    · subst hpq
      rw [Function.update_self]
      exact List.mem_append_left _ hS
    · rwa [Function.update_of_ne hpq]
  have hcreate : ∀ {j : I} (ty : T), R.type j = none → (R.create j ty).type i = R.type i := by
    rintro j ty hj
    have hij : i ≠ j := by
      rintro rfl
      exact hpresent hj
    exact Function.update_of_ne hij _ _
  cases apply_change h with
  | same => exact ⟨hh,rfl⟩
  | granted => exact ⟨hgrant _ _ hh,rfl⟩
  | created hj => exact ⟨hh,hcreate _ hj⟩
  | createdGranted hj => exact ⟨hgrant _ _ hh,hcreate _ hj⟩
  | @dropped q g v hg =>
    refine ⟨(hR.mem_table_drop hg).mpr ⟨hh,?_⟩,rfl⟩
    rintro ⟨rfl,hfd⟩
    simp only [Event.ends,decide_true,Bool.true_and,decide_eq_false_iff_not] at he
    exact he hfd.symm
  | @discarded j v hj =>
    have hij : i ≠ j := by
      rintro rfl
      exact hholders hj
    exact ⟨hh,Function.update_of_ne hij _ _⟩
  | entered q =>
    have hpq : p ≠ q := by
      rintro rfl
      simp [Event.ends] at he
    refine ⟨?_,rfl⟩
    dsimp only [Registry.enter]
    rwa [Function.update_of_ne hpq]
  | left q =>
    have hpq : p ≠ q := by
      rintro rfl
      simp [Event.ends] at he
    refine (hR.leave (Q := fun S => (fd,i) ∈ S.table p ∧ S.type i = R.type i) ⟨hh,rfl⟩ ?_).2
    rintro S g hS hg ⟨hmem,htype⟩
    exact ⟨(hS.mem_table_drop hg).mpr ⟨hmem,fun hq => hpq hq.1⟩,htype⟩

/-- An event changes the table of its owner only. -/
theorem apply_frame (h : R.apply limits code e = some R') (hp : e.owner ≠ some p) :
    R'.table p = R.table p ∧ R'.counter p = R.counter p := by
  have hgrant : ∀ {S : Registry P I T} {q : P} (j : I), q ≠ p →
      (S.grant q j).table p = S.table p ∧ (S.grant q j).counter p = S.counter p := by
    intro S q j hq
    exact ⟨Function.update_of_ne hq.symm _ _,Function.update_of_ne hq.symm _ _⟩
  have howner : ∀ {q : P}, some q ≠ some p → q ≠ p := fun hq heq => hq (congrArg some heq)
  cases apply_change h with
  | same => exact ⟨rfl,rfl⟩
  | granted => exact hgrant _ (howner hp)
  | created => exact ⟨rfl,rfl⟩
  | @createdGranted q j ty => exact hgrant (S := R.create j ty) _ (howner hp)
  | dropped => exact drop_frame _ (howner hp)
  | discarded => exact ⟨rfl,rfl⟩
  | entered q =>
    have hqp := (howner hp).symm
    exact ⟨Function.update_of_ne hqp _ _,Function.update_of_ne hqp _ _⟩
  | left => exact leave_frame (howner hp)

/-- A handle that no event takes away still names the same object, of the same type. -/
theorem Consistent.replay_keeps (hR : R.Consistent) (h : R.replay limits code es = some R')
    (hh : (fd,i) ∈ R.table p) (hes : ∀ e ∈ es, e.ends p fd = false) :
    (fd,i) ∈ R'.table p ∧ R'.type i = R.type i := by
  unfold replay at h
  induction es generalizing R with
  | nil =>
    cases h
    exact ⟨hh,rfl⟩
  | cons e es ih =>
    rw [List.foldlM_cons] at h
    obtain ⟨S,hS,hrest⟩ := Option.bind_eq_some_iff.mp h
    obtain ⟨hmem,htype⟩ := hR.apply_keeps hS hh (hes e List.mem_cons_self)
    obtain ⟨hmem',htype'⟩ :=
      ih (hR.apply hS) hrest hmem fun e he => hes e (List.mem_cons_of_mem _ he)
    exact ⟨hmem',htype'.trans htype⟩

/-- A number is not given out twice as long as its owner does not start anew. -/
theorem Stale.apply (hS : R.Stale p fd) (h : R.apply limits code e = some R')
    (he : e ≠ .entered p) : R'.Stale p fd := by
  obtain ⟨hlt,hnone⟩ := hS
  by_cases howner : e.owner = some p
  · cases apply_change h with
    | same => exact ⟨hlt,hnone⟩
    | granted =>
      cases howner
      exact Stale.grant ⟨hlt,hnone⟩ _
    | created => exact ⟨hlt,hnone⟩
    | @createdGranted q j ty =>
      cases howner
      exact Stale.grant (R := R.create j ty) ⟨hlt,hnone⟩ j
    | dropped =>
      cases howner
      exact Stale.drop ⟨hlt,hnone⟩ _
    | discarded => cases howner
    | entered q =>
      cases howner
      exact absurd rfl he
    | left q =>
      cases howner
      exact Stale.leave ⟨hlt,hnone⟩
  · obtain ⟨htable,hcounter⟩ := apply_frame h howner
    refine ⟨?_,fun i => ?_⟩
    · rw [hcounter]
      exact hlt
    · rw [htable]
      exact hnone i

/-- A close that finds its handle drops it. -/
theorem exists_dropped {v : V} (h : R.apply limits code (.closed p fd v) = some R')
    (hv : v ≠ code (.error .unopened)) : ∃ i, (fd,i) ∈ R.table p ∧ R' = R.drop p (fd,i) := by
  dsimp only [Registry.apply] at h
  unfold closeHandle at h
  cases hfind : (R.table p).find? (fun g => g.1 = fd) with
  | none =>
    simp only [hfind] at h
    split at h
    · rename_i hcode
      exact absurd hcode.symm hv
    · cases h
  | some g =>
    simp only [hfind] at h
    split at h
    · cases h
      obtain rfl : g.1 = fd := by simpa using List.find?_some hfind
      exact ⟨g.2,List.mem_of_find?_eq_some hfind,rfl⟩
    · cases h

/-- Closing a handle that is there makes its number stale. -/
theorem Consistent.stale_closed (hR : R.Consistent) {v : V}
    (h : R.apply limits code (.closed p fd v) = some R') (hv : v ≠ code (.error .unopened)) :
    R'.Stale p fd := by
  obtain ⟨i,hmem,rfl⟩ := exists_dropped h hv
  refine ⟨hR.below p (fd,i) hmem,fun j hj => ?_⟩
  exact ((hR.mem_table_drop hmem).mp hj).2 ⟨rfl,rfl⟩

/-- What is returned for a stale number: no open returns it, and no close finds it. -/
theorem Stale.answers (hS : R.Stale p fd) (h : R.apply limits code e = some R')
    (hcode : ∀ res, code res = code (.ok fd) → res = .ok fd) :
    (∀ i ty create exclusive v, e = .opened p i ty create exclusive v → v ≠ code (.ok fd)) ∧
      ∀ v, e = .closed p fd v → v = code (.error .unopened) := by
  obtain ⟨hlt,hnone⟩ := hS
  constructor
  · rintro i ty create exclusive v rfl hv
    dsimp only [Registry.apply] at h
    split at h
    · cases h
    · rename_i res hres
      split at h
      · rename_i hres'
        have hok := hcode res.1 (hres'.trans hv)
        have hnew := openHandle_ok hres hok
        omega
      · cases h
  · rintro v rfl
    dsimp only [Registry.apply] at h
    have hfind : (R.table p).find? (fun g => g.1 = fd) = none := by
      refine List.find?_eq_none.mpr ?_
      rintro ⟨n,i⟩ hmem hn
      have hn : n = fd := by simpa using hn
      subst hn
      exact hnone i hmem
    unfold closeHandle at h
    simp only [hfind] at h
    split at h
    · rename_i hcode
      exact hcode.symm
    · cases h

/-- The same along a number of events among which the owner does not start anew. -/
theorem Stale.replay (hS : R.Stale p fd) (h : R.replay limits code es = some R')
    (hes : .entered p ∉ es) (hcode : ∀ res, code res = code (.ok fd) → res = .ok fd) :
    R'.Stale p fd ∧
    (∀ i ty create exclusive v, .opened p i ty create exclusive v ∈ es → v ≠ code (.ok fd)) ∧
      ∀ v, .closed p fd v ∈ es → v = code (.error .unopened) := by
  unfold Registry.replay at h
  induction es generalizing R with
  | nil =>
    cases h
    exact ⟨hS,fun _ _ _ _ _ h => absurd h List.not_mem_nil,fun _ h => absurd h List.not_mem_nil⟩
  | cons e es ih =>
    rw [List.foldlM_cons] at h
    obtain ⟨S,hS',hrest⟩ := Option.bind_eq_some_iff.mp h
    obtain ⟨hne,hnot⟩ := not_or.mp fun hmem => hes (List.mem_cons.mpr hmem)
    obtain ⟨hopened,hclosed⟩ := hS.answers hS' hcode
    obtain ⟨hstale,hopened',hclosed'⟩ := ih (hS.apply hS' (Ne.symm hne)) hrest hnot
    refine ⟨hstale,?_,?_⟩
    · intro i ty create exclusive v hmem
      rcases List.mem_cons.mp hmem with heq | hmem
      · exact hopened i ty create exclusive v heq.symm
      · exact hopened' i ty create exclusive v hmem
    · intro v hmem
      rcases List.mem_cons.mp hmem with heq | hmem
      · exact hclosed v heq.symm
      · exact hclosed' v hmem

end Runs

end Registry

end Handles
