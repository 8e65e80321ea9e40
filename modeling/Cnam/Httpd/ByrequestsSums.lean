/-
  What the balancer never changes: what its workers have in all, but for the ints that wrap.
-/
import Cnam.Httpd.Byrequests
import Mathlib.Tactic.SplitIfs
import Mathlib.Tactic.Linarith
import Mathlib.Tactic.Ring

namespace Httpd

namespace Byrequests

variable {checkingStandby : Bool} {curLbset : ℤ} {i : ℕ} {found found' : Found} {w w' : Worker}
  {ws ws' : List Worker}

/-- The sum of all `lbstatus`. -/
def total (ws : List Worker) : ℤ := (ws.map Worker.lbstatus).sum

/-- A worker is in the set that is looked at. -/
def Worker.inSet (checkingStandby : Bool) (curLbset : ℤ) (w : Worker) : Bool :=
  decide (w.lbset = curLbset) && (w.is workerHotStandby == checkingStandby) && !w.is workerDrain

/-- The one with more. -/
def better (i : ℕ) (lbstatus : ℤ) : Option (ℕ × ℤ) → ℕ × ℤ
  | none => (i, lbstatus)
  | some (j, lbstatus') => if lbstatus > lbstatus' then (i, lbstatus) else (j, lbstatus')

theorem retryWorker_eq (now : ℤ) (h : w.is workerInError = false) : retryWorker now w = w := by
  rw [retryWorker, h]
  rfl

/-- The largest set there is, so far. -/
def Found.see (checkingStandby : Bool) (w : Worker) (found : Found) : Found :=
  if checkingStandby then found else { found with maxLbset := max found.maxLbset w.lbset }

/-- It is retried if it is not usable. -/
def Worker.tried (now : ℤ) (w : Worker) : Worker := if w.isUsable then w else retryWorker now w

theorem see_eq : (if !checkingStandby && decide (w.lbset > found.maxLbset)
    then { found with maxLbset := w.lbset } else found) = found.see checkingStandby w := by
  cases checkingStandby with
  | true => rfl
  | false =>
    by_cases hmore : w.lbset > found.maxLbset
    · simp [Found.see, hmore, max_eq_right hmore.le]
    · simp [Found.see, hmore, max_eq_left (not_lt.1 hmore)]

theorem skip_iff : (w.lbset ≠ curLbset ∨
    (if checkingStandby then !w.is workerHotStandby else w.is workerHotStandby) = true ∨
    w.is workerDrain = true) ↔ ¬ w.inSet checkingStandby curLbset = true := by
  unfold Worker.inSet
  by_cases hset : w.lbset = curLbset <;> cases checkingStandby <;>
    cases w.is workerHotStandby <;> cases w.is workerDrain <;> simp [hset]

theorem see_totalFactor : (found.see checkingStandby w).totalFactor = found.totalFactor := by
  unfold Found.see
  split_ifs <;> rfl

theorem see_mycandidate : (found.see checkingStandby w).mycandidate = found.mycandidate := by
  unfold Found.see
  split_ifs <;> rfl

/-- **What a visit does**: nothing to one that is not in the set; else it is retried if it is not
    usable, and if it is usable then, it gets its factor and may be the candidate. -/
theorem visit_eq (now : ℤ) : visit checkingStandby curLbset now i found w =
    if w.inSet checkingStandby curLbset then
      if (w.tried now).isUsable then
        ({ found.see checkingStandby w with
            totalFactor := int32 (found.totalFactor + (w.tried now).lbfactor)
            mycandidate := some (better i (w.tried now).bump.lbstatus found.mycandidate) },
          (w.tried now).bump)
      else (found.see checkingStandby w, w.tried now)
    else (found.see checkingStandby w, w) := by
  rw [visit, see_eq]
  simp only [skip_iff, ite_not, see_totalFactor, see_mycandidate]
  by_cases hin : w.inSet checkingStandby curLbset = true
  · simp only [hin, if_true]
    have htried : (if w.isUsable = true then w else retryWorker now w) = w.tried now := rfl
    rw [htried]
    by_cases husable : (w.tried now).isUsable = true
    · simp only [husable, if_true]
      cases found.mycandidate with
      | none => rfl
      | some candidate =>
        simp only [better]
        split_ifs with hmore hmore' hmore'
        · rfl
        · exact absurd hmore hmore'
        · exact absurd hmore' hmore
        · rfl
    · simp [husable]
  · simp [hin]

/-! ## The sum -/

theorem total_cons : total (w :: ws) = w.lbstatus + total ws := by
  rw [total, List.map_cons, List.sum_cons]
  rfl

/-- What is found so far: nothing is counted before there is a candidate, and it is one of the
    first workers. -/
structure Found.Fair (i : ℕ) (found : Found) : Prop where
  none : found.mycandidate = none → found.totalFactor = 0
  some : ∀ j lbstatus, found.mycandidate = some (j, lbstatus) → j < i

theorem Found.Fair.see (h : found.Fair i) (w : Worker) :
    (found.see checkingStandby w).Fair i := by
  unfold Found.see
  split_ifs
  · exact h
  · exact ⟨h.none, h.some⟩

/-- What was found is fair, and is what the workers got. -/
structure Handed (found : Found) (ws : List Worker) (found' : Found) (ws' : List Worker) :
    Prop where
  fair : found'.Fair ws.length
  sum : total ws' + found.totalFactor ≡ total ws + found'.totalFactor [ZMOD 2 ^ 32]
  lbset : ws'.map Worker.lbset = ws.map Worker.lbset

theorem Handed.length (h : Handed found ws found' ws') : ws'.length = ws.length := by
  have hlength := congrArg List.length h.lbset
  rwa [List.length_map, List.length_map] at hlength

theorem Handed.trans {found'' : Found} {ws'' : List Worker} (h : Handed found ws found' ws')
    (h' : Handed found' ws' found'' ws'') : Handed found ws found'' ws'' := by
  refine ⟨?_, ?_, h'.lbset.trans h.lbset⟩
  · rw [← h.length]
    exact h'.fair
  · have hsum := h.sum
    have hsum' := h'.sum
    simp only [Int.ModEq] at hsum hsum' ⊢
    omega

theorem visit_maxLbset (now : ℤ) : (visit checkingStandby curLbset now i found w).1.maxLbset =
    (found.see checkingStandby w).maxLbset := by
  rw [visit_eq]
  split_ifs <;> rfl

theorem le_foldl_max : ∀ (as : List ℤ) (b : ℤ), b ≤ as.foldl max b ∧ ∀ a ∈ as, a ≤ as.foldl max b
  | [], b => ⟨le_rfl, by simp⟩
  | a :: as, b => by
    obtain ⟨hb, has⟩ := le_foldl_max as (max b a)
    refine ⟨(le_max_left b a).trans hb, fun a' ha' => ?_⟩
    rcases List.mem_cons.1 ha' with rfl | ha'
    · exact (le_max_right b a').trans hb
    · exact has a' ha'

theorem lbset_le_maxLbset (hw : w ∈ ws) : w.lbset ≤ maxLbset ws :=
  (le_foldl_max _ 0).2 _ (List.mem_map_of_mem hw)

/-- What happens to the workers: a request finds one, or is bound to one; or something else about
    one changes, at any time (errors, recoveries, the manager of the balancer). -/
inductive Act
  | find (now : ℕ → ℤ)
  | sticky (runtime : ℕ)
  | change (i : ℕ) (w : Worker)

/-- The workers after an act. -/
def step (ws : List Worker) : Act → List Worker
  | .find now => (findBestByrequests now ws).2
  | .sticky runtime => if runtime < ws.length then updateSticky runtime ws else ws
  | .change i w => ws.modify i fun w' => { w with lbstatus := w'.lbstatus }

end Byrequests

end Httpd
