/-
  Machines that take one input at a time, put something out for it, and may refuse it.
-/
import Mathlib.Data.List.Induction
import Mathlib.Tactic.Common

namespace Transducer

universe u v w
variable {σ : Type u} {ι : Type v} {o : Type w} (step : σ → ι → Option (σ × List o))

/-- The state after the inputs, and everything that was put out, unless one was refused. -/
def run : σ → List ι → Option (σ × List o)
  | s, [] => some (s, [])
  | s, i :: is =>
    match step s i with
    | none => none
    | some (t, out) => (run t is).map fun r => (r.1, out ++ r.2)

@[simp] theorem run_nil (s : σ) : run step s [] = some (s, []) := rfl

theorem run_cons {s t : σ} {i : ι} {out : List o} (h : step s i = some (t, out)) (is : List ι) :
    run step s (i :: is) = (run step t is).map fun r => (r.1, out ++ r.2) := by
  rw [run, h]

theorem run_cons_none {s : σ} {i : ι} (h : step s i = none) (is : List ι) :
    run step s (i :: is) = none := by
  rw [run, h]

variable {step}

theorem run_cons_some {s u : σ} {i : ι} {is : List ι} {out : List o} :
    run step s (i :: is) = some (u, out) ↔ ∃ t out₁ out₂, step s i = some (t, out₁) ∧
      run step t is = some (u, out₂) ∧ out = out₁ ++ out₂ := by
  rw [run]
  rcases hstep : step s i with _ | ⟨t, out₁⟩
  · simp
  · simp only [Option.map_eq_some_iff, Prod.mk.injEq, Option.some.injEq]
    constructor
    · rintro ⟨⟨u', out₂⟩, hrun, rfl, rfl⟩
      exact ⟨t, out₁, out₂, ⟨rfl, rfl⟩, hrun, rfl⟩
    · rintro ⟨_, _, out₂, ⟨rfl, rfl⟩, hrun, rfl⟩
      exact ⟨(u, out₂), hrun, rfl, rfl⟩

/-- **Pieces.** Inputs taken in two pieces are taken as they are in one. -/
theorem run_append_some {s u : σ} {is js : List ι} {out : List o} :
    run step s (is ++ js) = some (u, out) ↔ ∃ t out₁ out₂, run step s is = some (t, out₁) ∧
      run step t js = some (u, out₂) ∧ out = out₁ ++ out₂ := by
  induction is generalizing s out with
  | nil => simp
  | cons i is ih =>
    simp only [List.cons_append, run_cons_some, ih]
    constructor
    · rintro ⟨t, out₁, _, hstep, ⟨t', out₂, out₃, his, hjs, rfl⟩, rfl⟩
      exact ⟨t', _, out₃, ⟨t, out₁, out₂, hstep, his, rfl⟩, hjs, (List.append_assoc ..).symm⟩
    · rintro ⟨t', _, out₃, ⟨t, out₁, out₂, hstep, his, rfl⟩, hjs, rfl⟩
      exact ⟨t, out₁, _, hstep, ⟨t', out₂, out₃, his, hjs, rfl⟩, List.append_assoc ..⟩

theorem run_append {s t u : σ} {is js : List ι} {out₁ out₂ : List o}
    (his : run step s is = some (t, out₁)) (hjs : run step t js = some (u, out₂)) :
    run step s (is ++ js) = some (u, out₁ ++ out₂) :=
  run_append_some.2 ⟨t, out₁, out₂, his, hjs, rfl⟩

/-- **Histories.** A relation between the inputs so far, the state and what was put out, which
    every input that is taken keeps, holds of a whole run. -/
theorem run_history {H : List ι → σ → List o → Prop} {s : σ} (h0 : H [] s [])
    (hstep : ∀ is t out i u out', H is t out → step t i = some (u, out') →
      H (is ++ [i]) u (out ++ out')) {is : List ι} {u : σ} {out : List o}
    (h : run step s is = some (u, out)) : H is u out := by
  induction is using List.reverseRecOn generalizing u out with
  | nil =>
    obtain ⟨rfl, rfl⟩ := Prod.mk.inj (Option.some.inj h)
    exact h0
  | append_singleton is i ih =>
    obtain ⟨t, out₁, out₂, his, hi, rfl⟩ := run_append_some.1 h
    obtain ⟨u', out₃, out₄, hlast, hnil, rfl⟩ := run_cons_some.1 hi
    obtain ⟨rfl, rfl⟩ := Prod.mk.inj (Option.some.inj hnil)
    rw [List.append_nil]
    exact hstep is t out₁ i u' out₃ (ih his) hlast

end Transducer
