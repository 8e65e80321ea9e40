/-
  The logic of conditions in SQL: `NULL`, comparisons that may be unknown, and the connectives
  on them.  A condition counts only when it is true.
-/
import Mathlib.Tactic

namespace Oracle

/-- The truth of a condition; `none` is unknown. -/
abbrev Truth := Option Bool

/-- `NOT a` -/
def not3 : Truth → Truth
  | some a => some !a
  | none => none

/-- `a AND b` -/
def and3 : Truth → Truth → Truth
  | some true, some true => some true
  | some false, _ | _, some false => some false
  | _, _ => none

/-- `a OR b` -/
def or3 : Truth → Truth → Truth
  | some true, _ | _, some true => some true
  | some false, some false => some false
  | _, _ => none

section
variable {α : Type}

/-- A comparison, unknown when a side is `NULL`. -/
def compare3 (p : α → α → Bool) : Option α → Option α → Truth
  | some a, some b => some (p a b)
  | _, _ => none

/-- `a = b` -/
def eq3 [DecidableEq α] (a b : Option α) : Truth := compare3 (fun a b => a = b) a b

/-- `a != b` -/
def ne3 [DecidableEq α] (a b : Option α) : Truth := not3 (eq3 a b)

/-- `a < b` -/
def lt3 [LT α] [DecidableLT α] (a b : Option α) : Truth := compare3 (fun a b => a < b) a b

/-- `a > b` -/
def gt3 [LT α] [DecidableLT α] (a b : Option α) : Truth := compare3 (fun a b => b < a) a b

/-- `a >= b` -/
def ge3 [LE α] [DecidableLE α] (a b : Option α) : Truth := compare3 (fun a b => b ≤ a) a b

/-- `a + b` -/
def plus3 [Add α] (a b : Option α) : Option α := Option.map₂ (· + ·) a b

/-- `a - b` -/
def minus3 [Sub α] (a b : Option α) : Option α := Option.map₂ (· - ·) a b

end

/-! ## When a condition is true -/

@[simp] theorem and3_eq_true {a b : Truth} :
    and3 a b = some true ↔ a = some true ∧ b = some true := by
  cases a with
  | none => cases b with
    | none => simp [and3]
    | some b => cases b <;> simp [and3]
  | some a => cases b with
    | none => cases a <;> simp [and3]
    | some b => cases a <;> cases b <;> simp [and3]

@[simp] theorem or3_eq_true {a b : Truth} :
    or3 a b = some true ↔ a = some true ∨ b = some true := by
  cases a with
  | none => cases b with
    | none => simp [or3]
    | some b => cases b <;> simp [or3]
  | some a => cases b with
    | none => cases a <;> simp [or3]
    | some b => cases a <;> cases b <;> simp [or3]

section
variable {α : Type}

@[simp] theorem compare3_some {p : α → α → Bool} {x y : α} :
    compare3 p (some x) (some y) = some (p x y) := rfl

/-- **`NULL` is not equal and not different.** -/
@[simp] theorem compare3_none_right {p : α → α → Bool} {a : Option α} :
    compare3 p a none = none := by
  cases a <;> rfl

@[simp] theorem compare3_none_left {p : α → α → Bool} {b : Option α} :
    compare3 p none b = none := rfl

end

end Oracle
