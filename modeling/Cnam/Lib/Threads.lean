/-
  Threads that each have a state of their own: what they have in all.
-/
import Mathlib.Algebra.BigOperators.Group.Finset.Basic
import Mathlib.Algebra.Order.BigOperators.Group.Finset

namespace Threads

universe u
variable {n : ℕ} {τ : Type u}

/-- What the threads have in all, of what `f` says that one has. -/
def total (f : τ → ℕ) (own : Fin n → τ) : ℕ := ∑ i, f (own i)

/-- **One thread goes on.** -/
theorem total_update (f : τ → ℕ) (own : Fin n → τ) (i : Fin n) (t : τ) :
    total f (Function.update own i t) + f (own i) = total f own + f t := by
  have hrest : ∑ j ∈ Finset.univ.erase i, f (Function.update own i t j) =
      ∑ j ∈ Finset.univ.erase i, f (own j) := by
    refine Finset.sum_congr rfl fun j hj => ?_
    rw [Function.update_of_ne (Finset.ne_of_mem_erase hj)]
  have hupdate := Finset.add_sum_erase Finset.univ (fun j => f (Function.update own i t j))
    (Finset.mem_univ i)
  have hown := Finset.add_sum_erase Finset.univ (fun j => f (own j)) (Finset.mem_univ i)
  simp only [Function.update_self, hrest] at hupdate hown
  simp only [total]
  omega

theorem le_total (f : τ → ℕ) (own : Fin n → τ) (i : Fin n) : f (own i) ≤ total f own :=
  Finset.single_le_sum (f := fun j => f (own j)) (fun _ _ => Nat.zero_le _) (Finset.mem_univ i)

theorem add_le_total (f : τ → ℕ) (own : Fin n → τ) {i j : Fin n} (h : i ≠ j) :
    f (own i) + f (own j) ≤ total f own := by
  rw [← Finset.sum_pair (f := fun k => f (own k)) h]
  exact Finset.sum_le_sum_of_subset (Finset.subset_univ _)

theorem total_le {f : τ → ℕ} {k : ℕ} (h : ∀ t, f t ≤ k) (own : Fin n → τ) :
    total f own ≤ n * k := by
  have hle : total f own ≤ ∑ _i : Fin n, k := Finset.sum_le_sum fun i _ => h (own i)
  simpa using hle

theorem total_congr {f g : τ → ℕ} {own own' : Fin n → τ} (h : ∀ i, f (own i) = g (own' i)) :
    total f own = total g own' := Finset.sum_congr rfl fun i _ => h i

theorem total_le_add {f g k : τ → ℕ} {own : Fin n → τ}
    (h : ∀ i, f (own i) ≤ g (own i) + k (own i)) :
    total f own ≤ total g own + total k own := by
  have hle : total f own ≤ ∑ i, (g (own i) + k (own i)) := Finset.sum_le_sum fun i _ => h i
  rwa [Finset.sum_add_distrib] at hle

theorem total_pos {f : τ → ℕ} {own : Fin n → τ} (h : 0 < total f own) : ∃ i, 0 < f (own i) := by
  by_contra hno
  have hzero : total f own = 0 := Finset.sum_eq_zero fun i _ => by
    by_contra hne
    exact hno ⟨i, Nat.pos_of_ne_zero hne⟩
  omega

end Threads
