import DisastrOS.Foundation.Handles

/-! # Bounded mailboxes behind handles

The objects of a registry are boxes for letters. Who has a handle posts letters there and collects
the oldest one. A box bounds the lengths that are declared and the number of its letters, and there
is a bound for all letters together.
-/
namespace Postal
open Handles

universe u v w

structure Box (τ : Type u) where
  size : ℤ
  capacity : ℤ
  letters : List τ

@[ext] structure Office (P : Type u) (I : Type v) (T : Type w) (τ : Type*) where
  registry : Registry P I T
  box : I → Option (Box τ)
  stored : ℕ

/-- Why a transfer is refused. -/
inductive Denial
  | unopened
  | size
  deriving DecidableEq

/-- How a transfer ends. -/
inductive Ending (α : Type u)
  | denied (d : Denial)
  | waits
  | fails
  | done (x : α)

structure Bounds where
  limits : Limits
  letters : ℕ

/-- The values that are returned. -/
structure Codes (V : Type u) where
  answer : Except Refusal ℤ → V
  denied : Denial → V
  done : V

/-- What the owners do, with the values that are returned; who waits gets none. -/
inductive Dealing (P : Type u) (I : Type v) (T : Type w) (τ V : Type*)
  | request (e : Event P I T V) (size capacity : ℤ)
  | posted (p : P) (fd len : ℤ) (letter : Option τ) (v : Option V)
  | collected (p : P) (fd : ℤ) (letter : Option τ) (v : Option V)
  deriving DecidableEq

variable {P : Type u} {I : Type v} {T : Type w} {τ V : Type*} [DecidableEq P] [DecidableEq I]

namespace Ending
variable {α : Type*}

/-- The value that is returned, unless nothing is. -/
def value (codes : Codes V) : Ending α → Option (Option V)
  | .denied d => some (some (codes.denied d))
  | .waits => some none
  | .fails => none
  | .done _ => some (some codes.done)

/-- This is what is handed out, if something is. -/
def Hands [DecidableEq α] : Ending α → Option α → Bool
  | .done x, y => y = some x
  | _, _ => true

end Ending

namespace Office

def empty : Office P I T τ := ⟨Registry.empty,fun _ => none,0⟩

/-- The object that the handle is for, and its box. -/
def reached (O : Office P I T τ) (p : P) (fd : ℤ) : Option (I × Box τ) :=
  match (O.registry.table p).find? (fun h => h.1 = fd) with
  | none => none
  | some h => (O.box h.2).map fun b => (h.2,b)

def put (O : Office P I T τ) (i : I) (b : Box τ) (x : τ) : Office P I T τ :=
  { O with
    box := Function.update O.box i (some { b with letters := b.letters ++ [x] })
    stored := O.stored + 1 }

def take (O : Office P I T τ) (i : I) (b : Box τ) (rest : List τ) : Office P I T τ :=
  { O with
    box := Function.update O.box i (some { b with letters := rest })
    stored := O.stored - 1 }

/-- A letter of this length is posted. There may be none where there should be one. -/
def post (O : Office P I T τ) (limit : ℕ) (p : P) (fd len : ℤ) (letter : Option τ) :
    Ending Unit × Office P I T τ :=
  match O.reached p fd with
  | none => (.denied .unopened,O)
  | some (i,b) =>
    if b.size < len then (.denied .size,O)
    else if b.capacity = 0 then (.denied .size,O)
    else if b.letters.length = b.capacity then (.waits,O)
    else if limit ≤ O.stored then (.fails,O)
    else match letter with
      | none => (.fails,O)
      | some x => (.done (),O.put i b x)

def collect (O : Office P I T τ) (p : P) (fd : ℤ) : Ending τ × Office P I T τ :=
  match O.reached p fd with
  | none => (.denied .unopened,O)
  | some (i,b) =>
    if b.capacity = 0 then (.denied .size,O)
    else match b.letters with
      | [] => (.waits,O)
      | x :: rest => (.done x,O.take i b rest)

/-- An object that is new is an empty box, and one that is destroyed loses its letters. -/
def changed (O : Office P I T τ) (R : Registry P I T) (size capacity : ℤ) :
    Event P I T V → Office P I T τ
  | .opened _ i _ _ _ _ => { O with
      registry := R
      box := if (O.registry.type i).isNone ∧ (R.type i).isSome
        then Function.update O.box i (some ⟨size,capacity,[]⟩) else O.box }
  | .destroyed i _ =>
    if (R.type i).isNone then { O with
      registry := R
      box := Function.update O.box i none
      stored := O.stored - ((O.box i).map fun b => b.letters.length).getD 0 }
    else { O with registry := R }
  | _ => { O with registry := R }

/-- The event may create or destroy an object. -/
def aboutObjects : Event P I T V → Bool
  | .opened _ _ _ _ _ _ | .destroyed _ _ => true
  | _ => false

omit [DecidableEq P] in
theorem changed_of_not {e : Event P I T V} (he : aboutObjects e = false) (O : Office P I T τ)
    (R : Registry P I T) (size capacity : ℤ) :
    O.changed R size capacity e = { O with registry := R } := by
  cases e with
  | opened => cases he
  | destroyed => cases he
  | _ => rfl

/-- The office behind a dealing, if it ends with the right value and hands out the right letter. -/
def apply [DecidableEq T] [DecidableEq V] [DecidableEq τ] (bounds : Bounds) (codes : Codes V)
    (O : Office P I T τ) : Dealing P I T τ V → Option (Office P I T τ)
  | .request e size capacity =>
    (O.registry.apply bounds.limits codes.answer e).map fun R => O.changed R size capacity e
  | .posted p fd len letter v =>
    if (O.post bounds.letters p fd len letter).1.value codes = some v then
      some (O.post bounds.letters p fd len letter).2 else none
  | .collected p fd letter v =>
    if (O.collect p fd).1.value codes = some v ∧ (O.collect p fd).1.Hands letter then
      some (O.collect p fd).2 else none

/-- The office behind a number of dealings, if all of them end as they should. -/
def replay [DecidableEq T] [DecidableEq V] [DecidableEq τ] (bounds : Bounds) (codes : Codes V)
    (O : Office P I T τ) (ds : List (Dealing P I T τ V)) : Option (Office P I T τ) :=
  ds.foldlM (fun O d => O.apply bounds codes d) O

end Office

end Postal
