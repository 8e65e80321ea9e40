/-
  The turns of the workers: as long as nothing happens to them but requests, each one that takes
  part is elected as often as its factor says.
-/
import Cnam.Lib.WeightedTurns
import Cnam.Httpd.ByrequestsSums
import Mathlib.Data.Finset.Range

namespace Httpd

namespace Byrequests

open WeightedTurns

variable {checkingStandby : Bool} {curLbset : ℤ} {i : ℕ} {found found' : Found} {w w' : Worker}
  {ws ws' : List Worker}

/-- No worker is in error, so none is retried. -/
def Steady (ws : List Worker) : Prop := ∀ w ∈ ws, w.is workerInError = false

/-- A worker takes part when its set is looked at. -/
def Worker.takesPart (checkingStandby : Bool) (curLbset : ℤ) (w : Worker) : Bool :=
  w.inSet checkingStandby curLbset && w.isUsable

/-- The set is the first one with a worker that takes part, those that stand by after the
    others. -/
structure FirstSet (ws : List Worker) (checkingStandby : Bool) (curLbset : ℤ) : Prop where
  nonneg : 0 ≤ curLbset
  someone : ∃ w ∈ ws, w.takesPart checkingStandby curLbset = true
  earlier : ∀ w ∈ ws, ∀ standby lbset, 0 ≤ lbset →
    lbset < curLbset ∨ lbset = curLbset ∧ standby = false ∧ checkingStandby = true →
      w.takesPart standby lbset = false

/-- What the workers that take part have, with their factors, from index `i` on. -/
def entries (checkingStandby : Bool) (curLbset : ℤ) : ℕ → List Worker → List (ℕ × ℤ)
  | _, [] => []
  | i, w :: ws =>
    if w.takesPart checkingStandby curLbset then
      (i, w.bump.lbstatus) :: entries checkingStandby curLbset (i + 1) ws
    else entries checkingStandby curLbset (i + 1) ws

theorem entries_cons : entries checkingStandby curLbset i (w :: ws) =
    if w.takesPart checkingStandby curLbset then
      (i, w.bump.lbstatus) :: entries checkingStandby curLbset (i + 1) ws
    else entries checkingStandby curLbset (i + 1) ws := rfl

theorem mem_entries {j : ℕ} {lbstatus : ℤ} :
    (j, lbstatus) ∈ entries checkingStandby curLbset i ws ↔
      ∃ k w, ws[k]? = some w ∧ w.takesPart checkingStandby curLbset = true ∧ j = i + k ∧
        lbstatus = w.bump.lbstatus := by
  induction ws generalizing i with
  | nil => simp [entries]
  | cons w ws ih =>
    have hrest : (∃ k w', (w :: ws)[k + 1]? = some w' ∧
        w'.takesPart checkingStandby curLbset = true ∧ j = i + (k + 1) ∧
          lbstatus = w'.bump.lbstatus) ↔
        (j, lbstatus) ∈ entries checkingStandby curLbset (i + 1) ws := by
      rw [ih]
      simp only [List.getElem?_cons_succ, Nat.add_assoc, Nat.add_comm 1]
    rw [entries_cons]
    constructor
    · intro hmem
      split_ifs at hmem with htakes
      · rcases List.mem_cons.1 hmem with hhead | hmem
        · obtain ⟨rfl, rfl⟩ := Prod.mk.inj hhead
          exact ⟨0, w, rfl, htakes, rfl, rfl⟩
        · obtain ⟨k, hk⟩ := hrest.2 hmem
          exact ⟨k + 1, hk⟩
      · obtain ⟨k, hk⟩ := hrest.2 hmem
        exact ⟨k + 1, hk⟩
    · rintro ⟨k, w', hk, htakes, hj, hlbstatus⟩
      cases k with
      | zero =>
        obtain rfl := Option.some.inj hk
        rw [if_pos htakes, hj, hlbstatus]
        exact List.mem_cons_self
      | succ k =>
        have hmem := hrest.1 ⟨k, w', hk, htakes, hj, hlbstatus⟩
        split_ifs
        · exact List.mem_cons_of_mem _ hmem
        · exact hmem

/-- The candidate after these. -/
def candidate (entries : List (ℕ × ℤ)) (mycandidate : Option (ℕ × ℤ)) : Option (ℕ × ℤ) :=
  entries.foldl (fun best e => some (better e.1 e.2 best)) mycandidate

/-- **The candidate** is one of them, and none of them has more. -/
theorem candidate_some (best : ℕ × ℤ) (es : List (ℕ × ℤ)) :
    ∃ e ∈ best :: es, candidate es (some best) = some e ∧ ∀ e' ∈ best :: es, e'.2 ≤ e.2 := by
  induction es generalizing best with
  | nil => exact ⟨best, List.mem_cons_self, rfl, by simp⟩
  | cons e es ih =>
    obtain ⟨e₁, hmem, hcandidate, hmost⟩ := ih (better e.1 e.2 (some best))
    have hbetter : (better e.1 e.2 (some best) = e ∨ better e.1 e.2 (some best) = best) ∧
        e.2 ≤ (better e.1 e.2 (some best)).2 ∧ best.2 ≤ (better e.1 e.2 (some best)).2 := by
      simp only [better]
      split_ifs with hmore
      · exact ⟨Or.inl rfl, le_rfl, hmore.le⟩
      · exact ⟨Or.inr rfl, not_lt.1 hmore, le_rfl⟩
    obtain ⟨hone, he, hbest⟩ := hbetter
    have hle := hmost _ List.mem_cons_self
    refine ⟨e₁, ?_, hcandidate, fun e' he' => ?_⟩
    · rcases List.mem_cons.1 hmem with rfl | hmem
      · rcases hone with hone | hone <;> rw [hone] <;> simp
      · exact List.mem_cons_of_mem _ (List.mem_cons_of_mem _ hmem)
    · rcases List.mem_cons.1 he' with rfl | he'
      · exact hbest.trans hle
      · rcases List.mem_cons.1 he' with rfl | he'
        · exact he.trans hle
        · exact hmost e' (List.mem_cons_of_mem _ he')

theorem candidate_none {es : List (ℕ × ℤ)} (h : es ≠ []) :
    ∃ e ∈ es, candidate es none = some e ∧ ∀ e' ∈ es, e'.2 ≤ e.2 := by
  cases es with
  | nil => exact absurd rfl h
  | cons e es => exact candidate_some e es

/-- A worker that takes part gets its factor. -/
def Worker.turned (checkingStandby : Bool) (curLbset : ℤ) (w : Worker) : Worker :=
  if w.takesPart checkingStandby curLbset then w.bump else w

/-- What the workers that take part get. -/
def factors (checkingStandby : Bool) (curLbset : ℤ) (ws : List Worker) : ℤ :=
  ((ws.filter (Worker.takesPart checkingStandby curLbset)).map Worker.lbfactor).sum

theorem factors_cons : factors checkingStandby curLbset (w :: ws) =
    (if w.takesPart checkingStandby curLbset then w.lbfactor else 0) +
      factors checkingStandby curLbset ws := by
  unfold factors
  by_cases htakes : w.takesPart checkingStandby curLbset = true
  · rw [if_pos htakes, List.filter_cons_of_pos htakes, List.map_cons, List.sum_cons]
  · rw [if_neg htakes, List.filter_cons_of_neg htakes, zero_add]

/-- **A loop over workers of which none is in error.** -/
theorem visitAll_steady (checkingStandby : Bool) (curLbset : ℤ) (i : ℕ) (found : Found)
    (now : ℕ → ℤ) (h : Steady ws) :
    (visitAll checkingStandby curLbset now i found ws).2 =
        ws.map (Worker.turned checkingStandby curLbset) ∧
      (visitAll checkingStandby curLbset now i found ws).1.totalFactor ≡
        found.totalFactor + factors checkingStandby curLbset ws [ZMOD 2 ^ 32] ∧
      (visitAll checkingStandby curLbset now i found ws).1.mycandidate =
        candidate (entries checkingStandby curLbset i ws) found.mycandidate := by
  induction ws generalizing i found with
  | nil =>
    have hnone : factors checkingStandby curLbset [] = 0 := rfl
    refine ⟨rfl, ?_, rfl⟩
    rw [hnone, add_zero]
    exact .rfl
  | cons w ws ih =>
    have htried : w.tried (now i) = w := by
      unfold Worker.tried
      split_ifs
      · rfl
      · exact retryWorker_eq (now i) (h w List.mem_cons_self)
    have hsteady : Steady ws := fun w' hw' => h w' (List.mem_cons_of_mem _ hw')
    have hvisit : (visit checkingStandby curLbset (now i) i found w).2 =
        w.turned checkingStandby curLbset ∧
      (visit checkingStandby curLbset (now i) i found w).1.totalFactor ≡ found.totalFactor +
        (if w.takesPart checkingStandby curLbset then w.lbfactor else 0) [ZMOD 2 ^ 32] ∧
      (visit checkingStandby curLbset (now i) i found w).1.mycandidate =
        if w.takesPart checkingStandby curLbset then
          some (better i w.bump.lbstatus found.mycandidate) else found.mycandidate := by
      rw [visit_eq, htried]
      unfold Worker.turned Worker.takesPart
      by_cases hin : w.inSet checkingStandby curLbset = true
      · by_cases husable : w.isUsable = true
        · simp only [hin, husable, Bool.and_self, if_true, true_and, and_true]
          exact int32_modEq _
        · simp [hin, husable, see_totalFactor, see_mycandidate, Int.ModEq.refl]
      · simp [hin, see_totalFactor, see_mycandidate, Int.ModEq.refl]
    obtain ⟨hworker, hfactor, hcandidate⟩ := hvisit
    obtain ⟨hworkers, hfactors, hcandidates⟩ := ih (i + 1)
      (visit checkingStandby curLbset (now i) i found w).1 hsteady
    simp only [visitAll]
    refine ⟨?_, ?_, ?_⟩
    · rw [List.map_cons, hworker, hworkers]
    · rw [factors_cons, ← add_assoc]
      exact hfactors.trans (hfactor.add_right _)
    · rw [hcandidates, hcandidate, entries_cons]
      split_ifs <;> rfl

/-- A loop in which nobody takes part changes nothing. -/
theorem visitAll_nobody (i : ℕ) (found : Found) (now : ℕ → ℤ) (h : Steady ws)
    (hnobody : ∀ w ∈ ws, w.takesPart checkingStandby curLbset = false) :
    (visitAll checkingStandby curLbset now i found ws).2 = ws ∧
      (visitAll checkingStandby curLbset now i found ws).1.totalFactor ≡ found.totalFactor
        [ZMOD 2 ^ 32] ∧
      (visitAll checkingStandby curLbset now i found ws).1.mycandidate = found.mycandidate := by
  obtain ⟨hworkers, hfactor, hcandidate⟩ :=
    visitAll_steady checkingStandby curLbset i found now h
  have hnone : entries checkingStandby curLbset i ws = [] := by
    refine List.eq_nil_iff_forall_not_mem.2 ?_
    rintro ⟨j, lbstatus⟩ hmem
    obtain ⟨k, w, hk, htakes, -⟩ := mem_entries.1 hmem
    rw [hnobody w (List.mem_of_getElem? hk)] at htakes
    cases htakes
  have hzero : factors checkingStandby curLbset ws = 0 := by
    have hfilter : ws.filter (Worker.takesPart checkingStandby curLbset) = [] := by
      refine List.filter_eq_nil_iff.2 fun w hw => ?_
      rw [hnobody w hw]
      exact Bool.false_ne_true
    rw [factors, hfilter]
    rfl
  refine ⟨?_, ?_, ?_⟩
  · rw [hworkers]
    refine (List.map_congr_left fun w hw => ?_).trans (List.map_id ws)
    rw [Worker.turned, hnobody w hw]
    rfl
  · rwa [hzero, add_zero] at hfactor
  · rw [hcandidate, hnone]
    rfl

/-- The first loop over the workers sees the largest set. -/
theorem visitAll_sees (checkingStandby : Bool) (curLbset : ℤ) (i : ℕ) (found : Found)
    (ws : List Worker) (now : ℕ → ℤ) : found.maxLbset ≤
      (visitAll checkingStandby curLbset now i found ws).1.maxLbset ∧
    (checkingStandby = false → ∀ w ∈ ws,
      w.lbset ≤ (visitAll checkingStandby curLbset now i found ws).1.maxLbset) := by
  induction ws generalizing i found with
  | nil => exact ⟨le_rfl, fun _ w hw => by cases hw⟩
  | cons w ws ih =>
    obtain ⟨hle, hall⟩ := ih (i + 1) (visit checkingStandby curLbset (now i) i found w).1
    rw [visit_maxLbset] at hle
    simp only [visitAll]
    constructor
    · refine le_trans ?_ hle
      unfold Found.see
      split_ifs
      · exact le_rfl
      · exact le_max_left _ _
    · intro hfirst w' hw'
      rcases List.mem_cons.1 hw' with rfl | hw'
      · refine le_trans ?_ hle
        simp only [Found.see, hfirst, Bool.false_eq_true, if_false]
        exact le_max_right _ _
      · exact hall hfirst w' hw'

/-! ## The set that is found -/

theorem FirstSet.entries_ne (h : FirstSet ws checkingStandby curLbset) :
    entries checkingStandby curLbset 0 ws ≠ [] := by
  obtain ⟨w, hw, htakes⟩ := h.someone
  obtain ⟨k, hk⟩ := List.mem_iff_getElem?.1 hw
  exact List.ne_nil_of_mem (mem_entries.2 ⟨k, w, hk, htakes, rfl, rfl⟩)

/-- The sets before are passed by. -/
theorem FirstSet.checkSet_before (h : FirstSet ws checkingStandby curLbset) (hsteady : Steady ws)
    (now : ℕ → ℤ) {lbset : ℤ} (hnonneg : 0 ≤ lbset) (hbefore : lbset < curLbset)
    (hnone : found.mycandidate = none) :
    ∃ found', checkSet lbset now found ws = (found', ws) ∧ found'.mycandidate = none ∧
      found'.totalFactor ≡ found.totalFactor [ZMOD 2 ^ 32] ∧ curLbset ≤ found'.maxLbset := by
  have hnobody : ∀ standby, ∀ w ∈ ws, w.takesPart standby lbset = false :=
    fun standby w hw => h.earlier w hw standby lbset hnonneg (Or.inl hbefore)
  obtain ⟨hws, hfactor, hcandidate⟩ := visitAll_nobody 0 found now hsteady
    (hnobody false)
  obtain ⟨hws', hfactor', hcandidate'⟩ := visitAll_nobody 0
    (visitAll false lbset now 0 found ws).1 now hsteady (hnobody true)
  obtain ⟨w, hw, htakes⟩ := h.someone
  have hset : w.lbset = curLbset := by
    simp only [Worker.takesPart, Worker.inSet, Bool.and_eq_true, decide_eq_true_eq] at htakes
    exact htakes.1.1.1
  have hseen := (visitAll_sees false lbset 0 found ws now).2 rfl w hw
  have hmore := (visitAll_sees true lbset 0 (visitAll false lbset now 0 found ws).1 ws now).1
  refine ⟨(visitAll true lbset now 0 (visitAll false lbset now 0 found ws).1 ws).1, ?_, ?_, ?_, ?_⟩
  · simp only [checkSet]
    rw [hcandidate, hnone, Option.isNone_none, if_pos rfl, hws]
    exact Prod.ext rfl hws'
  · rw [hcandidate', hcandidate, hnone]
  · exact hfactor'.trans hfactor
  · rw [← hset]
    exact hseen.trans hmore

/-- The set is the one that is looked at. -/
theorem FirstSet.checkSet_found (h : FirstSet ws checkingStandby curLbset) (hsteady : Steady ws)
    (now : ℕ → ℤ) (hnone : found.mycandidate = none) (hzero : found.totalFactor ≡ 0 [ZMOD 2 ^ 32]) :
    ∃ found', checkSet curLbset now found ws =
        (found', ws.map (Worker.turned checkingStandby curLbset)) ∧
      found'.totalFactor ≡ factors checkingStandby curLbset ws [ZMOD 2 ^ 32] ∧
      found'.mycandidate = candidate (entries checkingStandby curLbset 0 ws) none ∧
      found'.mycandidate.isNone = false := by
  obtain ⟨e, -, hsome, -⟩ := candidate_none h.entries_ne
  cases checkingStandby with
  | false =>
    obtain ⟨hws, hfactor, hcandidate⟩ := visitAll_steady false curLbset 0 found now hsteady
    rw [hnone] at hcandidate
    have hall := hfactor.trans (hzero.add_right _)
    rw [zero_add] at hall
    refine ⟨(visitAll false curLbset now 0 found ws).1, ?_, hall, hcandidate, ?_⟩
    · simp only [checkSet]
      rw [hcandidate, hsome]
      exact Prod.ext rfl hws
    · rw [hcandidate, hsome]
      rfl
  | true =>
    have hnobody : ∀ w ∈ ws, w.takesPart false curLbset = false :=
      fun w hw => h.earlier w hw false curLbset h.nonneg (Or.inr ⟨rfl, rfl, rfl⟩)
    obtain ⟨hws, hfactor, hcandidate⟩ := visitAll_nobody 0 found now hsteady hnobody
    obtain ⟨hws', hfactor', hcandidate'⟩ := visitAll_steady true curLbset 0
      (visitAll false curLbset now 0 found ws).1 now hsteady
    rw [hcandidate, hnone] at hcandidate'
    have hall := hfactor'.trans ((hfactor.trans hzero).add_right _)
    rw [zero_add] at hall
    refine ⟨(visitAll true curLbset now 0 (visitAll false curLbset now 0 found ws).1 ws).1, ?_,
      hall, hcandidate', ?_⟩
    · simp only [checkSet]
      rw [hcandidate, hnone, Option.isNone_none, if_pos rfl, hws]
      exact Prod.ext rfl hws'
    · rw [hcandidate', hsome]
      rfl

theorem FirstSet.checkSets (h : FirstSet ws checkingStandby curLbset) (hsteady : Steady ws)
    (now : ℕ → ℤ) (fuel : ℕ) (lbset : ℤ) (found : Found) (hnonneg : 0 ≤ lbset)
    (hle : lbset ≤ curLbset)
    (hfuel : (curLbset - lbset).toNat < fuel) (hnone : found.mycandidate = none)
    (hzero : found.totalFactor ≡ 0 [ZMOD 2 ^ 32]) :
    ∃ found', Byrequests.checkSets now fuel lbset found ws =
        some (found', ws.map (Worker.turned checkingStandby curLbset)) ∧
      found'.totalFactor ≡ factors checkingStandby curLbset ws [ZMOD 2 ^ 32] ∧
      found'.mycandidate = candidate (entries checkingStandby curLbset 0 ws) none := by
  induction fuel generalizing lbset found with
  | zero => omega
  | succ fuel ih =>
    rcases hle.lt_or_eq with hbefore | rfl
    · obtain ⟨found', hset, hnone', hfactor, hmore⟩ :=
        h.checkSet_before hsteady now hnonneg hbefore hnone
      obtain ⟨found'', hsets, hrest⟩ := ih (lbset + 1) found' (by omega) (by omega) (by omega)
        hnone' (hfactor.trans hzero)
      refine ⟨found'', ?_, hrest⟩
      simp only [Byrequests.checkSets, hset]
      rw [if_pos ⟨by omega, by rw [hnone']; rfl⟩, hsets]
    · obtain ⟨found', hset, hfactor, hcandidate, hsome⟩ := h.checkSet_found hsteady now hnone hzero
      refine ⟨found', ?_, hfactor, hcandidate⟩
      simp only [Byrequests.checkSets, hset]
      rw [if_neg]
      rintro ⟨-, hno⟩
      rw [hsome] at hno
      cases hno

/-- It is paid the same whatever is taken off as an `int`. -/
theorem pay_congr {t t' : ℤ} (h : t ≡ t' [ZMOD 2 ^ 32]) : Worker.pay t = Worker.pay t' := by
  funext w
  rw [Worker.pay, Worker.pay, int32_congr (h.sub_left w.lbstatus)]

/-- **An election**: of those that take part, one that has most with its factor. -/
theorem FirstSet.elects (h : FirstSet ws checkingStandby curLbset) (hsteady : Steady ws)
    (now : ℕ → ℤ) : ∃ i w, findBestByrequests now ws = (some i,
        (ws.map (Worker.turned checkingStandby curLbset)).modify i
          (Worker.pay (factors checkingStandby curLbset ws))) ∧
      ws[i]? = some w ∧ w.takesPart checkingStandby curLbset = true ∧
      ∀ (k : ℕ) (w' : Worker), ws[k]? = some w' → w'.takesPart checkingStandby curLbset = true →
        w'.bump.lbstatus ≤ w.bump.lbstatus := by
  obtain ⟨⟨i, lbstatus⟩, hmem, hcandidate, hmost⟩ := candidate_none h.entries_ne
  obtain ⟨k, w, hk, htakes, hi, hlbstatus⟩ := mem_entries.1 hmem
  obtain rfl : i = k := hi.trans (Nat.zero_add k)
  have hset : w.lbset = curLbset := by
    simp only [Worker.takesPart, Worker.inSet, Bool.and_eq_true, decide_eq_true_eq] at htakes
    exact htakes.1.1.1
  have hle := lbset_le_maxLbset (List.mem_of_getElem? hk)
  have hnonneg := h.nonneg
  obtain ⟨found, hsets, hfactor, hfound⟩ := h.checkSets hsteady now
    ((maxLbset ws).toNat + 1) 0 ⟨0, none, 0⟩ le_rfl hnonneg (by omega) rfl rfl
  refine ⟨i, w, ?_, hk, htakes, fun k' w' hk' htakes' => ?_⟩
  · rw [findBestByrequests, findBest, hsets]
    simp only [hfound, hcandidate, pay_congr hfactor, Option.getD_some]
  · have hle' := hmost (k', w'.bump.lbstatus) (mem_entries.2 ⟨k', w', hk', htakes',
      (Nat.zero_add k').symm, rfl⟩)
    rw [hlbstatus] at hle'
    exact hle'

end Byrequests

end Httpd
