import Mathlib.Data.List.Basic
import Mathlib.Logic.Function.Basic

/-! # First-in first-out channels

Channels are opened, written, read and closed in any order. A log records the
openings and the transfers, newest first. Whatever happens on the other channels,
an open channel holds what has been put on it since its opening and not been got.
-/
namespace Channels

/-- What a log records. -/
inductive Op (ι τ : Type*)
  | opened (i : ι)
  | put (i : ι) (x : τ)
  | got (i : ι) (x : τ)

variable {ι τ : Type*} [DecidableEq ι]

/-- A log with the contents of the channels after it; a closed channel has none. -/
inductive Run : List (Op ι τ) → (ι → Option (List τ)) → Prop
  | start : Run [] (fun _ => none)
  | opened {log : List (Op ι τ)} {c : ι → Option (List τ)} {i : ι} (h : Run log c)
      (hi : c i = none) : Run (.opened i :: log) (Function.update c i (some []))
  | put {log : List (Op ι τ)} {c : ι → Option (List τ)} {i : ι} {l : List τ} (h : Run log c)
      (hi : c i = some l) (x : τ) : Run (.put i x :: log) (Function.update c i (some (l ++ [x])))
  | got {log : List (Op ι τ)} {c : ι → Option (List τ)} {i : ι} {x : τ} {l : List τ}
      (h : Run log c) (hi : c i = some (x :: l)) :
      Run (.got i x :: log) (Function.update c i (some l))
  | closed {log : List (Op ι τ)} {c : ι → Option (List τ)} (h : Run log c) (i : ι) :
      Run log (Function.update c i none)

/-- What is put on the channel `i`. -/
def Op.putOn (i : ι) : Op ι τ → Option τ
  | .put j x => if j = i then some x else none
  | _ => none

/-- What is got from the channel `i`. -/
def Op.gotFrom (i : ι) : Op ι τ → Option τ
  | .got j x => if j = i then some x else none
  | _ => none

def Op.opens (i : ι) : Op ι τ → Bool
  | .opened j => j = i
  | _ => false

/-- The part of the log since the last opening of `i`. -/
def lifetime (i : ι) (log : List (Op ι τ)) : List (Op ι τ) := log.takeWhile (fun op => !op.opens i)

/-- What has been put on `i` since its last opening, oldest first. -/
def puts (i : ι) (log : List (Op ι τ)) : List τ := ((lifetime i log).filterMap (Op.putOn i)).reverse

/-- What has been got from `i` since its last opening, oldest first. -/
def gots (i : ι) (log : List (Op ι τ)) : List τ :=
  ((lifetime i log).filterMap (Op.gotFrom i)).reverse

variable {i j : ι} {x : τ} {l : List τ} {log : List (Op ι τ)} {c : ι → Option (List τ)} {op : Op ι τ}

@[simp] theorem putOn_put (i : ι) (x : τ) : (Op.put i x).putOn i = some x := if_pos rfl

@[simp] theorem gotFrom_got (i : ι) (x : τ) : (Op.got i x).gotFrom i = some x := if_pos rfl

theorem putOn_put_ne (hij : i ≠ j) (x : τ) : (Op.put j x).putOn i = none := if_neg (Ne.symm hij)

theorem gotFrom_got_ne (hij : i ≠ j) (x : τ) : (Op.got j x).gotFrom i = none := if_neg (Ne.symm hij)

theorem opens_opened_ne (hij : i ≠ j) : (Op.opened j : Op ι τ).opens i = false :=
  decide_eq_false (Ne.symm hij)

theorem lifetime_opened (i : ι) (log : List (Op ι τ)) : lifetime i (.opened i :: log) = [] := by
  simp [lifetime,Op.opens]

theorem lifetime_cons (hop : op.opens i = false) : lifetime i (op :: log) = op :: lifetime i log := by
  simp [lifetime,hop]

theorem puts_opened (i : ι) (log : List (Op ι τ)) : puts i (.opened i :: log) = [] := by
  simp [puts,lifetime_opened]

theorem gots_opened (i : ι) (log : List (Op ι τ)) : gots i (.opened i :: log) = [] := by
  simp [gots,lifetime_opened]

/-- What happens on another channel does not matter. -/
theorem puts_cons (hop : op.opens i = false) (hput : op.putOn i = none) :
    puts i (op :: log) = puts i log := by
  unfold puts
  rw [lifetime_cons hop,List.filterMap_cons_none hput]

theorem gots_cons (hop : op.opens i = false) (hgot : op.gotFrom i = none) :
    gots i (op :: log) = gots i log := by
  unfold gots
  rw [lifetime_cons hop,List.filterMap_cons_none hgot]

theorem puts_put (i : ι) (x : τ) (log : List (Op ι τ)) :
    puts i (.put i x :: log) = puts i log ++ [x] := by
  unfold puts
  rw [lifetime_cons rfl,List.filterMap_cons_some (putOn_put i x),List.reverse_cons]

theorem gots_got (i : ι) (x : τ) (log : List (Op ι τ)) :
    gots i (.got i x :: log) = gots i log ++ [x] := by
  unfold gots
  rw [lifetime_cons rfl,List.filterMap_cons_some (gotFrom_got i x),List.reverse_cons]

/-- What has been put on an open channel is what has been got from it, followed by
what it holds. -/
theorem Run.fifo (h : Run log c) (hi : c i = some l) : puts i log = gots i log ++ l := by
  induction h generalizing i l with
  | start => cases hi
  | @opened log c j h hj ih =>
    by_cases hij : i = j
    · subst hij
      rw [Function.update_self,Option.some.injEq] at hi
      rw [puts_opened,gots_opened,← hi]
      rfl
    · rw [Function.update_of_ne hij] at hi
      rw [puts_cons (opens_opened_ne hij) rfl,gots_cons (opens_opened_ne hij) rfl]
      exact ih hi
  | @put log c j l' h hj x ih =>
    by_cases hij : i = j
    · subst hij
      rw [Function.update_self,Option.some.injEq] at hi
      rw [puts_put,gots_cons rfl rfl,ih hj,← hi,List.append_assoc]
    · rw [Function.update_of_ne hij] at hi
      rw [puts_cons rfl (putOn_put_ne hij x),gots_cons rfl rfl]
      exact ih hi
  | @got log c j x l' h hj ih =>
    by_cases hij : i = j
    · subst hij
      rw [Function.update_self,Option.some.injEq] at hi
      rw [puts_cons rfl rfl,gots_got,ih hj,← hi,List.append_assoc]
      rfl
    · rw [Function.update_of_ne hij] at hi
      rw [puts_cons rfl rfl,gots_cons rfl (gotFrom_got_ne hij x)]
      exact ih hi
  | @closed log c h j ih =>
    by_cases hij : i = j
    · subst hij
      rw [Function.update_self] at hi
      cases hi
    · rw [Function.update_of_ne hij] at hi
      exact ih hi

/-- Whatever an open channel holds has been put on it. -/
theorem Run.put_mem (h : Run log c) (hi : c i = some l) (hx : x ∈ l) : .put i x ∈ log := by
  have hputs : x ∈ puts i log := by
    rw [h.fifo hi]
    exact List.mem_append_right _ hx
  unfold puts at hputs
  obtain ⟨op,hop,hput⟩ := List.mem_filterMap.mp (List.mem_reverse.mp hputs)
  have hlog : op ∈ log := List.takeWhile_subset _ hop
  cases op with
  | opened j => cases hput
  | got j y => cases hput
  | put j y =>
    by_cases hij : i = j
    · subst hij
      rw [putOn_put,Option.some.injEq] at hput
      exact hput ▸ hlog
    · rw [putOn_put_ne hij] at hput
      cases hput

end Channels
