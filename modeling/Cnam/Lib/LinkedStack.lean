/-
  Linked stacks: nodes that each have the next one, from a head on.
-/
import Mathlib.Logic.Function.Basic
import Mathlib.Tactic.Common

namespace LinkedStack

universe u
variable {α : Type u}

/-- From the head on, the nodes are these, and the last one has no next. -/
def Chain (next : α → Option α) : Option α → List α → Prop
  | head, [] => head = none
  | head, a :: nodes => head = some a ∧ Chain next (next a) nodes

variable {next : α → Option α} {head : Option α} {nodes : List α} {a : α}

/-- A node that is none of them can have another next one. -/
theorem Chain.update [DecidableEq α] (h : Chain next head nodes) (ha : a ∉ nodes)
    (b : Option α) : Chain (Function.update next a b) head nodes := by
  induction nodes generalizing head with
  | nil => exact h
  | cons a' nodes ih =>
    rw [List.mem_cons, not_or] at ha
    refine ⟨h.1, ?_⟩
    rw [Function.update_of_ne (Ne.symm ha.1)]
    exact ih h.2 ha.2

theorem Chain.push (h : Chain next head nodes) (ha : next a = head) :
    Chain next (some a) (a :: nodes) := by
  refine ⟨rfl, ?_⟩
  rw [ha]
  exact h

theorem Chain.pop (h : Chain next (some a) nodes) :
    ∃ rest, nodes = a :: rest ∧ Chain next (next a) rest := by
  cases nodes with
  | nil => exact absurd h (by simp [Chain])
  | cons a' nodes =>
    obtain rfl : a = a' := Option.some.inj h.1
    exact ⟨nodes, rfl, h.2⟩

end LinkedStack
