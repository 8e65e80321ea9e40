/-
  Weighted turns: at each turn all who take part get their weight, and the one who has most
  then gives up what was handed out.
-/
import Mathlib.Algebra.BigOperators.Group.Finset.Piecewise
import Mathlib.Algebra.BigOperators.Ring.Finset
import Mathlib.Algebra.Order.BigOperators.Group.Finset
import Mathlib.Tactic.Linarith
import Mathlib.Tactic.Ring

namespace WeightedTurns

universe u
variable {ι : Type u} {part : Finset ι} {weight : ι → ℤ}

/-- What is handed out at a turn. -/
def handedOut (part : Finset ι) (weight : ι → ℤ) : ℤ := ∑ j ∈ part, weight j

/-- It may be the turn of one that has most. -/
def Most (part : Finset ι) (weight : ι → ℤ) (own₀ : ι → ℤ) (i : ι) : Prop :=
  i ∈ part ∧ ∀ j ∈ part, own₀ j + weight j ≤ own₀ i + weight i

/-- That one has something then, when what there is in all is not negative. -/
theorem Most.pos {own₀ : ι → ℤ} {i : ι} (h : Most part weight own₀ i)
    (hsum : 0 ≤ ∑ j ∈ part, own₀ j) (htotal : 0 < handedOut part weight) :
    0 < own₀ i + weight i := by
  by_contra hno
  have hle : ∑ j ∈ part, (own₀ j + weight j) ≤ 0 :=
    Finset.sum_nonpos fun j hj => (h.2 j hj).trans (not_lt.1 hno)
  rw [Finset.sum_add_distrib] at hle
  have hweights : ∑ j ∈ part, weight j = handedOut part weight := rfl
  omega

variable [DecidableEq ι]

/-- What all have after the turn of one of them. -/
def turn (part : Finset ι) (weight : ι → ℤ) (own₀ : ι → ℤ) (i : ι) : ι → ℤ := fun j =>
  own₀ j + (if j ∈ part then weight j else 0) - (if j = i then handedOut part weight else 0)

/-- Turns, one after the other. -/
inductive Turns (part : Finset ι) (weight : ι → ℤ) : (ι → ℤ) → List ι → (ι → ℤ) → Prop
  | nil (own₀ : ι → ℤ) : Turns part weight own₀ [] own₀
  | snoc {own₀ own₁ : ι → ℤ} {is : List ι} {i : ι} : Turns part weight own₀ is own₁ →
      Most part weight own₁ i → Turns part weight own₀ (is ++ [i]) (turn part weight own₁ i)

/-- **Nothing is lost**: what those that take part have in all stays the same. -/
theorem sum_turn {i : ι} (hi : i ∈ part) (own₀ : ι → ℤ) :
    ∑ j ∈ part, turn part weight own₀ i j = ∑ j ∈ part, own₀ j := by
  have hweights : ∑ j ∈ part, (if j ∈ part then weight j else 0) = handedOut part weight :=
    Finset.sum_congr rfl fun j hj => if_pos hj
  have hown : ∑ j ∈ part, (if j = i then handedOut part weight else 0) = handedOut part weight := by
    rw [Finset.sum_ite_eq' part i, if_pos hi]
  simp only [turn]
  rw [Finset.sum_sub_distrib, Finset.sum_add_distrib, hweights, hown]
  omega

variable {own₀ own₁ : ι → ℤ} {is : List ι}

theorem Turns.mem (h : Turns part weight own₀ is own₁) : ∀ i ∈ is, i ∈ part := by
  induction h with
  | nil => simp
  | snoc _ hmost ih =>
    intro i hi
    rcases List.mem_append.1 hi with hi | hi
    · exact ih i hi
    · rw [List.mem_singleton.1 hi]
      exact hmost.1

theorem Turns.sum (h : Turns part weight own₀ is own₁) :
    ∑ j ∈ part, own₁ j = ∑ j ∈ part, own₀ j := by
  induction h with
  | nil => rfl
  | snoc _ hmost ih => rw [sum_turn hmost.1, ih]

/-- What one has is what it got, less what it gave up. -/
theorem Turns.account (h : Turns part weight own₀ is own₁) {j : ι} (hj : j ∈ part) :
    own₁ j = own₀ j + is.length * weight j - is.count j * handedOut part weight := by
  induction h with
  | nil => simp
  | @snoc own₁ is i hrun hmost ih =>
    rw [turn, ih, if_pos hj, List.length_append, List.count_append, List.length_singleton,
      List.count_singleton]
    by_cases hji : j = i
    · subst hji
      simp only [if_true, beq_self_eq_true]
      push_cast
      linarith
    · have hne : (i == j) = false := beq_eq_false_iff_ne.2 (Ne.symm hji)
      simp only [hne, if_neg hji, Bool.false_eq_true, if_false]
      push_cast
      linarith

/-- **Nobody gets into debt** by as much as is handed out. -/
theorem Turns.bounded (h : Turns part weight own₀ is own₁) (hweight : ∀ j ∈ part, 0 ≤ weight j)
    (htotal : 0 < handedOut part weight) (hzero : ∀ j ∈ part, own₀ j = 0) :
    ∀ j ∈ part, - handedOut part weight < own₁ j := by
  induction h with
  | nil =>
    intro j hj
    rw [hzero j hj]
    omega
  | @snoc own₁ is i hrun hmost ih =>
    intro j hj
    have hsum := hrun.sum
    rw [Finset.sum_eq_zero hzero] at hsum
    have hpos := hmost.pos hsum.ge htotal
    have hown := ih j hj
    have hnonneg := hweight j hj
    rw [turn, if_pos hj]
    split_ifs with hji
    · subst hji
      omega
    · omega

/-- Nor does anybody get more than what is handed out once for each that takes part. -/
theorem Turns.bounded_above (h : Turns part weight own₀ is own₁)
    (hweight : ∀ j ∈ part, 0 ≤ weight j) (htotal : 0 < handedOut part weight)
    (hzero : ∀ j ∈ part, own₀ j = 0) :
    ∀ j ∈ part, own₁ j + weight j ≤ part.card * handedOut part weight := by
  intro j hj
  have hsum := h.sum
  rw [Finset.sum_eq_zero hzero, ← Finset.add_sum_erase part own₁ hj] at hsum
  have hothers : (part.erase j).card • -handedOut part weight ≤ ∑ k ∈ part.erase j, own₁ k :=
    Finset.card_nsmul_le_sum _ _ _ fun k hk =>
      (h.bounded hweight htotal hzero k (Finset.mem_of_mem_erase hk)).le
  have hcard : (part.card : ℤ) = (part.erase j).card + 1 := by
    rw [← Finset.card_erase_add_one hj]
    push_cast
    rfl
  have hle : weight j ≤ handedOut part weight := Finset.single_le_sum hweight hj
  rw [nsmul_eq_mul] at hothers
  rw [hcard]
  linarith

/-- **Shares.** Nobody is ahead of its share by a whole turn. -/
theorem Turns.share (h : Turns part weight own₀ is own₁) (hweight : ∀ j ∈ part, 0 ≤ weight j)
    (htotal : 0 < handedOut part weight) (hzero : ∀ j ∈ part, own₀ j = 0) {j : ι} (hj : j ∈ part) :
    is.count j * handedOut part weight < is.length * weight j + handedOut part weight := by
  have hbound := h.bounded hweight htotal hzero j hj
  rw [h.account hj, hzero j hj] at hbound
  omega

theorem count_sum (hmem : ∀ i ∈ is, i ∈ part) : ∑ j ∈ part, (is.count j : ℤ) = is.length := by
  induction is with
  | nil => simp
  | cons i is ih =>
    have hrest := ih fun k hk => hmem k (List.mem_cons_of_mem _ hk)
    have hone : ∑ j ∈ part, (if i = j then (1 : ℤ) else 0) = 1 := by
      rw [Finset.sum_ite_eq part i, if_pos (hmem i List.mem_cons_self)]
    have hcount : ∀ j, ((i :: is).count j : ℤ) = is.count j + if i = j then 1 else 0 := by
      intro j
      rw [List.count_cons]
      by_cases hij : i = j <;> simp [hij]
    simp only [hcount, Finset.sum_add_distrib, hrest, hone, List.length_cons]
    push_cast
    rfl

/-- **A round** of as many turns as is handed out: everyone has had its weight of them, and has
    nothing left. -/
theorem Turns.round (h : Turns part weight own₀ is own₁) (hweight : ∀ j ∈ part, 0 ≤ weight j)
    (htotal : 0 < handedOut part weight) (hzero : ∀ j ∈ part, own₀ j = 0) {m : ℕ}
    (hround : (is.length : ℤ) = m * handedOut part weight) {j : ι} (hj : j ∈ part) :
    (is.count j : ℤ) = m * weight j ∧ own₁ j = 0 := by
  have hle : ∀ k ∈ part, (is.count k : ℤ) ≤ m * weight k := by
    intro k hk
    have hshare := h.share hweight htotal hzero hk
    rw [hround] at hshare
    have hlt : (is.count k : ℤ) * handedOut part weight <
        (m * weight k + 1) * handedOut part weight := by
      calc (is.count k : ℤ) * handedOut part weight
          < m * handedOut part weight * weight k + handedOut part weight := hshare
        _ = (m * weight k + 1) * handedOut part weight := by ring
    have := lt_of_mul_lt_mul_right hlt htotal.le
    omega
  have hall : ∑ k ∈ part, (is.count k : ℤ) = ∑ k ∈ part, m * weight k := by
    rw [count_sum h.mem, hround, ← Finset.mul_sum]
    rfl
  have heq := (Finset.sum_eq_sum_iff_of_le hle).1 hall j hj
  refine ⟨heq, ?_⟩
  rw [h.account hj, hzero j hj, heq, hround]
  ring

end WeightedTurns
