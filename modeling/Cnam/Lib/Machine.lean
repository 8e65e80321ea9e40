/-
  Machines that take one input at a time, their runs, and what every run
  preserves.
-/
import Mathlib.Data.List.Induction
import Mathlib.Tactic.Common

namespace Machine

universe u v w
variable {σ : Type u} {ι : Type v} (step : σ → ι → σ)

/-- The state after the inputs `is`. -/
def run (s : σ) (is : List ι) : σ := is.foldl step s

/-- The states of a run: the first one, then the one after each input. -/
def states (s : σ) : List ι → List σ
  | [] => [s]
  | i :: is => s :: states (step s i) is

/-- Every step of the run meets `C` in the state it is taken in. -/
def Along (C : σ → ι → Prop) : σ → List ι → Prop
  | _, [] => True
  | s, i :: is => C s i ∧ Along C (step s i) is

instance decidableAlong {C : σ → ι → Prop} [∀ s i, Decidable (C s i)] :
    ∀ (s : σ) (is : List ι), Decidable (Along step C s is)
  | _, [] => instDecidableTrue
  | s, i :: is => @instDecidableAnd _ _ _ (decidableAlong (step s i) is)

@[simp] theorem run_cons (s : σ) (i : ι) (is : List ι) :
    run step s (i :: is) = run step (step s i) is := rfl

theorem run_append (s : σ) (is js : List ι) :
    run step s (is ++ js) = run step (run step s is) js := List.foldl_append

theorem run_snoc (s : σ) (is : List ι) (i : ι) :
    run step s (is ++ [i]) = step (run step s is) i := run_append step s is [i]

theorem run_mem_states : ∀ (is : List ι) (s : σ), run step s is ∈ states step s is
  | [], _ => List.mem_singleton_self _
  | _ :: is, _ => List.mem_cons_of_mem _ (run_mem_states is _)

variable {step}

/-- **Invariants along a run.** What every step that meets `C` preserves holds in every
    state of a run whose steps all meet `C`. -/
theorem inv_along {C : σ → ι → Prop} {P : σ → Prop}
    (hstep : ∀ s i, P s → C s i → P (step s i)) :
    ∀ {is : List ι} {s : σ}, P s → Along step C s is → ∀ t ∈ states step s is, P t
  | [], s, hs, _, t, ht => by rw [List.mem_singleton.1 ht]; exact hs
  | i :: is, s, hs, ⟨hC, hrest⟩, t, ht => by
    rcases List.mem_cons.1 ht with rfl | ht
    · exact hs
    · exact inv_along hstep (hstep s i hs hC) hrest t ht

/-- **Histories.** A relation between the inputs so far and the state, which every input that
    meets `C` keeps, holds of a whole run. -/
theorem run_history {H : List ι → σ → Prop} {C : ι → Prop} {s : σ} (h0 : H [] s)
    (hstep : ∀ is t i, H is t → C i → H (is ++ [i]) (step t i)) (is : List ι)
    (hC : ∀ i ∈ is, C i) : H is (run step s is) := by
  induction is using List.reverseRecOn with
  | nil => exact h0
  | append_singleton is i ih =>
    rw [run_snoc]
    have hbefore := ih fun j hj => hC j (List.mem_append_left _ hj)
    exact hstep is _ i hbefore (hC i (by simp))

/-- **Simulation.** A relation that every step preserves relates the states after every run. -/
theorem sim_run {τ : Type w} {step' : τ → ι → τ} {R : σ → τ → Prop}
    (hstep : ∀ s t i, R s t → R (step s i) (step' t i)) :
    ∀ (is : List ι) {s : σ} {t : τ}, R s t → R (run step s is) (run step' t is)
  | [], _, _, h => h
  | i :: is, s, t, h => sim_run hstep is (hstep s t i h)

/-- What a machine that answers each input answers along a run. -/
def outputs {o : Type w} (serve : σ → ι → σ × o) : σ → List ι → List o
  | _, [] => []
  | s, i :: is => (serve s i).2 :: outputs serve (serve s i).1 is

theorem outputs_snoc {o : Type w} (serve : σ → ι → σ × o) (s : σ) (is : List ι) (i : ι) :
    outputs serve s (is ++ [i]) =
      outputs serve s is ++ [(serve (run (fun s i => (serve s i).1) s is) i).2] := by
  induction is generalizing s with
  | nil => rfl
  | cons j is ih => rw [List.cons_append, outputs, ih, outputs, run_cons, List.cons_append]

/-- **Refinement.** Two machines whose states a relation links, which every input that meets
    `C` keeps with the same answer, answer the same along a run, and stay linked. -/
theorem outputs_sim {τ : Type w} {o : Type w} {serve : σ → ι → σ × o} {serve' : τ → ι → τ × o}
    {R : σ → τ → Prop} {C : ι → Prop}
    (hstep : ∀ s t i, R s t → C i →
      (serve s i).2 = (serve' t i).2 ∧ R (serve s i).1 (serve' t i).1) :
    ∀ (is : List ι) {s : σ} {t : τ}, (∀ i ∈ is, C i) → R s t →
      outputs serve s is = outputs serve' t is ∧
        R (run (fun s i => (serve s i).1) s is) (run (fun t i => (serve' t i).1) t is)
  | [], _, _, _, h => ⟨rfl, h⟩
  | i :: is, s, t, hC, h => by
    obtain ⟨hout, hnext⟩ := hstep s t i h (hC i List.mem_cons_self)
    have hC' : ∀ j ∈ is, C j := fun j hj => hC j (List.mem_cons_of_mem _ hj)
    obtain ⟨houts, hend⟩ := outputs_sim hstep is hC' hnext
    exact ⟨by rw [outputs, outputs, hout, houts], hend⟩

/-- **Since.** If a step ends in `P` only when the input does not `K`ill it, and either `P`
    held before or the input `E`stablishes it, then `P` after a run goes back to an input that
    established it, after which none killed it. -/
theorem run_since {P : σ → Prop} {E K : ι → Prop}
    (hstep : ∀ s i, P (step s i) → ¬ K i ∧ (P s ∨ E i)) {s : σ} (hs : ¬ P s) (is : List ι)
    (h : P (run step s is)) :
    ∃ (j : ℕ) (hj : j < is.length), E is[j] ∧ P (run step s (is.take (j + 1))) ∧
      ∀ (k : ℕ) (hk : k < is.length), j < k → ¬ K is[k] := by
  induction is using List.reverseRecOn with
  | nil => exact absurd h hs
  | append_singleton is i ih =>
    rw [run_snoc] at h
    obtain ⟨hK, hP | hE⟩ := hstep _ i h
    · obtain ⟨j, hj, hE, hPj, hrest⟩ := ih hP
      refine ⟨j, by simp; omega, ?_, ?_, ?_⟩
      · rwa [List.getElem_append_left hj]
      · rwa [List.take_append_of_le_length (by omega)]
      · intro k hk hjk
        by_cases hlast : k < is.length
        · rw [List.getElem_append_left hlast]
          exact hrest k hlast hjk
        · rw [List.getElem_append_right (by omega)]
          simpa using hK
    · refine ⟨is.length, by simp, by simpa using hE, ?_, ?_⟩
      · rw [List.take_of_length_le (by simp), run_snoc]
        exact h
      · intro k hk hjk
        rw [List.length_append, List.length_singleton] at hk
        omega

/-- **Until.** What every input but those that `K`ill it preserves lasts as long as none does. -/
theorem run_until {P : σ → Prop} {K : ι → Prop} (hstep : ∀ s i, P s → ¬ K i → P (step s i)) :
    ∀ {is : List ι} {s : σ}, P s → (∀ i ∈ is, ¬ K i) → P (run step s is)
  | [], _, hs, _ => hs
  | i :: is, s, hs, hK => by
    rw [run_cons]
    refine run_until hstep (hstep s i hs (hK i List.mem_cons_self)) fun k hk => ?_
    exact hK k (List.mem_cons_of_mem _ hk)

/-! ## Latches -/

section
variable {α : Type w} {held : σ → Option α} {sets : ι → α → Prop} {clears : ι → Prop}

/-- What holds a value until an input clears it, and takes one from an input when it holds none. -/
structure Latch (step : σ → ι → σ) (held : σ → Option α) (sets : ι → α → Prop)
    (clears : ι → Prop) : Prop where
  clear : ∀ s i, clears i → held (step s i) = none
  keep : ∀ s i a, ¬clears i → held s = some a → held (step s i) = some a
  set : ∀ s i a, ¬clears i → held s = none → (held (step s i) = some a ↔ sets i a)

/-- Every input that sets a value has been followed by one that clears it. -/
def Cleared (sets : ι → α → Prop) (clears : ι → Prop) (is : List ι) : Prop :=
  ∀ before i after, is = before ++ i :: after → (∃ a, sets i a) → ∃ j ∈ i :: after, clears j

/-- The value is the first one that was set since the last one was cleared. -/
def FirstSet (sets : ι → α → Prop) (clears : ι → Prop) (is : List ι) (a : α) : Prop :=
  ∃ before i after, is = before ++ i :: after ∧ sets i a ∧ (∀ j ∈ i :: after, ¬clears j) ∧
    Cleared sets clears before

/-- A list that ends in `i` is cut at `i` or before it. -/
theorem snoc_eq_append_cons {is before after : List ι} {i j : ι}
    (h : is ++ [i] = before ++ j :: after) :
    (is = before ∧ i = j ∧ after = []) ∨
      ∃ after', after = after' ++ [i] ∧ is = before ++ j :: after' := by
  rcases List.eq_nil_or_concat after with rfl | ⟨after', k, rfl⟩
  · left
    have hcut := List.append_inj' h rfl
    exact ⟨hcut.1, (List.cons.inj hcut.2).1, rfl⟩
  · right
    rw [List.concat_eq_append, ← List.cons_append, ← List.append_assoc] at h
    have hcut := List.append_inj' h rfl
    refine ⟨after', ?_, hcut.1⟩
    rw [List.concat_eq_append, hcut.2]

theorem cleared_nil : Cleared sets clears [] := by
  intro before i after h
  exact absurd h (by simp)

theorem cleared_snoc_of_clears {is : List ι} {i : ι} (hi : clears i) :
    Cleared sets clears (is ++ [i]) := by
  intro before j after h _
  rcases snoc_eq_append_cons h with ⟨-, rfl, -⟩ | ⟨after', rfl, -⟩
  · exact ⟨i, List.mem_cons_self, hi⟩
  · exact ⟨i, by simp, hi⟩

theorem cleared_snoc {is : List ι} {i : ι} (hi : ¬clears i) :
    Cleared sets clears (is ++ [i]) ↔ Cleared sets clears is ∧ ¬∃ a, sets i a := by
  constructor
  · intro h
    constructor
    · rintro before j after rfl hset
      obtain ⟨k, hk, hclears⟩ := h before j (after ++ [i]) (by simp) hset
      rcases List.mem_append.1 (show k ∈ (j :: after) ++ [i] by simpa using hk) with hk | hk
      · exact ⟨k, hk, hclears⟩
      · rw [List.mem_singleton.1 hk] at hclears
        exact absurd hclears hi
    · intro hset
      obtain ⟨k, hk, hclears⟩ := h is i [] rfl hset
      rw [List.mem_singleton.1 hk] at hclears
      exact hi hclears
  · rintro ⟨h, hnot⟩ before j after hcut hset
    rcases snoc_eq_append_cons hcut with ⟨-, rfl, -⟩ | ⟨after', rfl, rfl⟩
    · exact absurd hset hnot
    · obtain ⟨k, hk, hclears⟩ := h before j after' rfl hset
      refine ⟨k, ?_, hclears⟩
      rw [← List.cons_append]
      exact List.mem_append_left _ hk

theorem firstSet_snoc {is : List ι} {i : ι} {a : α} :
    FirstSet sets clears (is ++ [i]) a ↔
      ¬clears i ∧ (FirstSet sets clears is a ∨ Cleared sets clears is ∧ sets i a) := by
  constructor
  · rintro ⟨before, j, after, hcut, hset, hnot, hcleared⟩
    rcases snoc_eq_append_cons hcut with ⟨rfl, rfl, rfl⟩ | ⟨after', rfl, rfl⟩
    · exact ⟨hnot i List.mem_cons_self, Or.inr ⟨hcleared, hset⟩⟩
    · refine ⟨hnot i (by simp), Or.inl ⟨before, j, after', rfl, hset, ?_, hcleared⟩⟩
      intro k hk
      refine hnot k ?_
      rw [← List.cons_append]
      exact List.mem_append_left _ hk
  · rintro ⟨hi, ⟨before, j, after, rfl, hset, hnot, hcleared⟩ | ⟨hcleared, hset⟩⟩
    · refine ⟨before, j, after ++ [i], by simp, hset, ?_, hcleared⟩
      intro k hk
      rcases List.mem_append.1 (show k ∈ (j :: after) ++ [i] by simpa using hk) with hk | hk
      · exact hnot k hk
      · rwa [List.mem_singleton.1 hk]
    · exact ⟨is, i, [], rfl, hset, fun k hk => by rwa [List.mem_singleton.1 hk], hcleared⟩

/-- **A latch** holds nothing as long as all that was set has been cleared, -/
theorem Latch.run_none (h : Latch step held sets clears) {s : σ} (hs : held s = none)
    (is : List ι) : held (run step s is) = none ↔ Cleared sets clears is := by
  induction is using List.reverseRecOn with
  | nil => exact iff_of_true hs cleared_nil
  | append_singleton is i ih =>
    rw [run_snoc]
    by_cases hi : clears i
    · exact iff_of_true (h.clear _ i hi) (cleared_snoc_of_clears hi)
    · rw [cleared_snoc hi, ← ih]
      cases hheld : held (run step s is) with
      | none =>
        simp only [true_and]
        rw [Option.eq_none_iff_forall_ne_some, ← not_exists, not_iff_not]
        exact exists_congr fun a => h.set _ i a hi hheld
      | some a =>
        rw [h.keep _ i a hi hheld]
        simp

/-- and then the first value that is set. -/
theorem Latch.run_some (h : Latch step held sets clears) {s : σ} (hs : held s = none)
    (is : List ι) (a : α) : held (run step s is) = some a ↔ FirstSet sets clears is a := by
  induction is using List.reverseRecOn with
  | nil =>
    refine iff_of_false (by simp [run, hs]) ?_
    rintro ⟨before, i, after, hcut, -⟩
    exact absurd hcut (by simp)
  | append_singleton is i ih =>
    rw [run_snoc, firstSet_snoc, ← ih, ← h.run_none hs is]
    by_cases hi : clears i
    · rw [h.clear _ i hi]
      simp [hi]
    · cases hheld : held (run step s is) with
      | none =>
        rw [h.set _ i a hi hheld]
        simp [hi]
      | some b =>
        rw [h.keep _ i b hi hheld]
        simp [hi]

end

end Machine
