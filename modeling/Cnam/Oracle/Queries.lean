/-
  Queries: joins, `MINUS`, and `GROUP BY` with `COUNT (DISTINCT …)`.

  The rows of a result are a list whose order means nothing.  Counting the different values of
  each group divides one relation by another: the groups with as many values as there are
  are those that have every value (`mem_divide`).
-/
import Mathlib.Data.List.Dedup
import Mathlib.Data.List.Perm.Subperm
import Mathlib.Tactic

namespace Oracle

universe u v w
variable {α : Type u} {β : Type v} {κ : Type w}

/-! ## `MINUS` and joins -/

/-- `a MINUS b`: the different rows of `a` that are not rows of `b`. -/
def minus [DecidableEq α] (a b : List α) : List α := (a.filter (· ∉ b)).dedup

theorem mem_minus [DecidableEq α] {a b : List α} {x : α} : x ∈ minus a b ↔ x ∈ a ∧ x ∉ b := by
  simp [minus]

/-- `FROM a, b WHERE p` -/
def join (p : α → β → Prop) [∀ x, DecidablePred (p x)] (a : List α) (b : List β) : List (α × β) :=
  a.flatMap fun x => (b.filter (p x)).map fun y => (x, y)

theorem mem_join {p : α → β → Prop} [∀ x, DecidablePred (p x)] {a : List α} {b : List β}
    {r : α × β} : r ∈ join p a b ↔ (r.1 ∈ a ∧ r.2 ∈ b) ∧ p r.1 r.2 := by
  obtain ⟨x, y⟩ := r
  simp only [join, List.mem_flatMap, List.mem_map, List.mem_filter, decide_eq_true_iff]
  constructor
  · rintro ⟨x', hx, y', ⟨hy, hp⟩, heq⟩
    obtain ⟨rfl, rfl⟩ := Prod.mk.inj heq
    exact ⟨⟨hx, hy⟩, hp⟩
  · rintro ⟨⟨hx, hy⟩, hp⟩
    exact ⟨x, hx, y, ⟨hy, hp⟩, rfl⟩

/-! ## Groups -/

section
variable [DecidableEq κ] [DecidableEq β] (key : α → κ) (f : α → β)

/-- `GROUP BY key`: one group for each value of the key, with its rows. -/
def groupBy (rows : List α) : List (κ × List α) :=
  (rows.map key).dedup.map fun k => (k, rows.filter fun r => key r = k)

/-- `COUNT (DISTINCT f)` of a group. -/
def countDistinct (rows : List α) : ℕ := (rows.map f).dedup.length

/-- `SELECT key … GROUP BY key HAVING p` -/
def having (p : List α → Prop) [DecidablePred p] (rows : List α) : List κ :=
  ((groupBy key rows).filter fun g => p g.2).map Prod.fst

variable {key f}

/-- A group has at least one row. -/
theorem mem_having {p : List α → Prop} [DecidablePred p] {rows : List α} {k : κ} :
    k ∈ having key p rows ↔
      (∃ r ∈ rows, key r = k) ∧ p (rows.filter fun r => key r = k) := by
  simp only [having, groupBy, List.mem_map, List.mem_filter, List.mem_dedup, decide_eq_true_iff]
  constructor
  · rintro ⟨g, ⟨⟨k', hk', rfl⟩, hp⟩, rfl⟩
    exact ⟨hk', hp⟩
  · rintro ⟨hk, hp⟩
    exact ⟨_, ⟨⟨k, hk, rfl⟩, hp⟩, rfl⟩

/-- Each key comes once. -/
theorem nodup_having (p : List α → Prop) [DecidablePred p] (rows : List α) :
    (having key p rows).Nodup := by
  have hkeys : (groupBy key rows).map Prod.fst = (rows.map key).dedup := by
    rw [groupBy, List.map_map]
    exact List.map_id _
  refine ((List.nodup_dedup (rows.map key)).sublist ?_)
  rw [← hkeys]
  exact List.filter_sublist.map Prod.fst

/-- **Counting finds out whether a value is missing**, when no other value can be there. -/
theorem countDistinct_eq_iff {rows : List α} {values : List β} (hnodup : values.Nodup)
    (hsub : ∀ r ∈ rows, f r ∈ values) :
    countDistinct f rows = values.length ↔ ∀ v ∈ values, ∃ r ∈ rows, f r = v := by
  have hperm : (rows.map f).dedup.Subperm values := by
    refine List.subperm_of_subset (List.nodup_dedup _) fun v hv => ?_
    obtain ⟨r, hr, rfl⟩ := List.mem_map.1 (List.mem_dedup.1 hv)
    exact hsub r hr
  constructor
  · intro hcount v hv
    have hall := (hperm.perm_of_length_le hcount.ge).mem_iff.2 hv
    exact List.mem_map.1 (List.mem_dedup.1 hall)
  · intro hall
    have hperm' : values.Subperm (rows.map f).dedup :=
      List.subperm_of_subset hnodup fun v hv => List.mem_dedup.2 (List.mem_map.2 (hall v hv))
    exact le_antisymm hperm.length_le hperm'.length_le

/-- **Division by counting**: the keys whose groups have as many values as there are, are those
    that occur with each value. -/
theorem mem_divide {rows : List α} {values : List β} (hnodup : values.Nodup)
    (hne : values ≠ []) (hsub : ∀ r ∈ rows, f r ∈ values) {k : κ} :
    k ∈ having key (fun g => countDistinct f g = values.length) rows ↔
      ∀ v ∈ values, ∃ r ∈ rows, key r = k ∧ f r = v := by
  have hgroup : ∀ r ∈ rows.filter fun r => key r = k, f r ∈ values :=
    fun r hr => hsub r (List.mem_filter.1 hr).1
  have hmem : ∀ v : β, (∃ r ∈ rows.filter fun r => key r = k, f r = v) ↔
      ∃ r ∈ rows, key r = k ∧ f r = v := by
    intro v
    simp only [List.mem_filter, decide_eq_true_iff, and_assoc]
  rw [mem_having, countDistinct_eq_iff hnodup hgroup]
  simp only [hmem]
  refine and_iff_right_of_imp fun hall => ?_
  -- there is a value, and the key occurs with it
  obtain ⟨v, hv⟩ := List.exists_mem_of_ne_nil values hne
  obtain ⟨r, hr, hkey, -⟩ := hall v hv
  exact ⟨r, hr, hkey⟩

end

end Oracle
