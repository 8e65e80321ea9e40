/-
  Interleavings: clients that each have a state of their own beside one they share, and
  whose requests come in any order.
-/
import Cnam.Lib.Machine
import Mathlib.Logic.Function.Basic

namespace Interleave

universe u v w x

/-- The state the clients share, and that of each. -/
structure World (κ : Type u) (σ : Type v) (τ : Type w) where
  shared : σ
  own : κ → τ

variable {κ : Type u} [DecidableEq κ] {σ : Type v} {τ : Type w} {ι : Type x}

/-- One request, of the client that `serve` is for. -/
def step (serve : σ → τ → ι → σ × τ) (w : World κ σ τ) (r : κ × ι) : World κ σ τ :=
  let (s, t) := serve w.shared (w.own r.1) r.2
  ⟨s, Function.update w.own r.1 t⟩

variable {serve : σ → τ → ι → σ × τ}

@[simp] theorem step_own_self (w : World κ σ τ) (k : κ) (i : ι) :
    (step serve w (k, i)).own k = (serve w.shared (w.own k) i).2 := Function.update_self ..

theorem step_own_ne (w : World κ σ τ) {k : κ} {r : κ × ι} (h : r.1 ≠ k) :
    (step serve w r).own k = w.own k := Function.update_of_ne (Ne.symm h) _ _

end Interleave
