/-
  The elections as weighted turns: the shares of the workers over a run of requests.
-/
import Cnam.Httpd.ByrequestsTurns
import Mathlib.Algebra.BigOperators.Group.List.Basic

namespace Httpd

namespace Byrequests

open WeightedTurns

variable {checkingStandby : Bool} {curLbset : ℤ} {w w' : Worker} {ws ws' : List Worker}

/-- A worker, but for its `lbstatus`. -/
def Worker.static (w : Worker) : Worker := { w with lbstatus := 0 }

/-- The workers are the same, but for their `lbstatus`. -/
def Alike (ws ws' : List Worker) : Prop := ws'.map Worker.static = ws.map Worker.static

/-- What a worker has. -/
def own (ws : List Worker) (j : ℕ) : ℤ := (ws[j]?.map Worker.lbstatus).getD 0

/-- The factor of a worker. -/
def weight (ws : List Worker) (j : ℕ) : ℤ := (ws[j]?.map Worker.lbfactor).getD 0

/-- Those that take part. -/
def part (checkingStandby : Bool) (curLbset : ℤ) (ws : List Worker) : Finset ℕ :=
  (Finset.range ws.length).filter fun j =>
    (ws[j]?.map (Worker.takesPart checkingStandby curLbset)).getD false = true

theorem mem_part {j : ℕ} : j ∈ part checkingStandby curLbset ws ↔
    ∃ w, ws[j]? = some w ∧ w.takesPart checkingStandby curLbset = true := by
  rw [part, Finset.mem_filter, Finset.mem_range]
  constructor
  · rintro ⟨hlt, htakes⟩
    rw [List.getElem?_eq_getElem hlt] at htakes
    exact ⟨ws[j], List.getElem?_eq_getElem hlt, htakes⟩
  · rintro ⟨w, hw, htakes⟩
    refine ⟨(List.getElem?_eq_some_iff.1 hw).1, ?_⟩
    rw [hw]
    exact htakes

/-- What is handed out is the sum of the factors. -/
theorem handedOut_part : handedOut (part checkingStandby curLbset ws) (weight ws) =
    factors checkingStandby curLbset ws := by
  have hsum : ∑ j ∈ Finset.range ws.length,
      (if (ws[j]?.map (Worker.takesPart checkingStandby curLbset)).getD false = true
        then weight ws j else 0) = factors checkingStandby curLbset ws := by
    induction ws with
    | nil => rfl
    | cons w ws ih =>
      rw [List.length_cons, Finset.sum_range_succ', factors_cons, ← ih, add_comm]
      rfl
  rw [handedOut, part, Finset.sum_filter, hsum]

section
variable (h : Alike ws ws')
include h

theorem Alike.get (j : ℕ) : ws'[j]?.map Worker.static = ws[j]?.map Worker.static := by
  have hget := congrArg (fun l : List Worker => l[j]?) h
  simpa only [List.getElem?_map] using hget

theorem Alike.length : ws'.length = ws.length := by
  have hlength := congrArg List.length h
  rwa [List.length_map, List.length_map] at hlength

/-- What does not depend on `lbstatus` is the same. -/
theorem Alike.map {α : Type} {f : Worker → α} (hf : ∀ w, f w.static = f w) (j : ℕ) :
    ws'[j]?.map f = ws[j]?.map f := by
  have hcomp : f ∘ Worker.static = f := funext hf
  have hget := congrArg (Option.map f) (h.get j)
  rwa [Option.map_map, Option.map_map, hcomp] at hget

theorem Alike.weight : Byrequests.weight ws' = Byrequests.weight ws := by
  funext j
  rw [Byrequests.weight, h.map fun _ => rfl]
  rfl

theorem Alike.part : Byrequests.part checkingStandby curLbset ws' =
    Byrequests.part checkingStandby curLbset ws := by
  unfold Byrequests.part
  rw [h.length]
  refine Finset.filter_congr fun j _ => ?_
  rw [h.map (f := Worker.takesPart checkingStandby curLbset) fun _ => rfl]

theorem Alike.factors : Byrequests.factors checkingStandby curLbset ws' =
    Byrequests.factors checkingStandby curLbset ws := by
  rw [← handedOut_part, ← handedOut_part, h.part, h.weight]

/-- Whatever holds of every worker but for its `lbstatus` still does. -/
theorem Alike.forall {P : Worker → Prop} (hP : ∀ w, P w.static ↔ P w) (hall : ∀ w ∈ ws, P w) :
    ∀ w ∈ ws', P w := by
  intro w hw
  have hmem : w.static ∈ ws.map Worker.static := h ▸ List.mem_map_of_mem hw
  obtain ⟨w₀, hw₀, hstatic⟩ := List.mem_map.1 hmem
  rw [← hP w, ← hstatic, hP w₀]
  exact hall w₀ hw₀

theorem Alike.steady (hsteady : Steady ws) : Steady ws' := h.forall (fun _ => Iff.rfl) hsteady

theorem Alike.firstSet (hfirst : FirstSet ws checkingStandby curLbset) :
    FirstSet ws' checkingStandby curLbset := by
  refine ⟨hfirst.nonneg, ?_, ?_⟩
  · obtain ⟨w, hw, htakes⟩ := hfirst.someone
    have hmem : w.static ∈ ws'.map Worker.static := by
      rw [h]
      exact List.mem_map_of_mem hw
    obtain ⟨w', hw', hstatic⟩ := List.mem_map.1 hmem
    have hsame := congrArg (Worker.takesPart checkingStandby curLbset) hstatic
    exact ⟨w', hw', hsame.trans htakes⟩
  · exact h.forall (fun _ => Iff.rfl) hfirst.earlier

end

theorem Alike.trans {ws'' : List Worker} (h : Alike ws ws') (h' : Alike ws' ws'') :
    Alike ws ws'' := Eq.trans h' h

/-- No `int` wraps at the next turn. -/
structure Fits (checkingStandby : Bool) (curLbset : ℤ) (ws : List Worker) : Prop where
  got : ∀ j ∈ part checkingStandby curLbset ws,
    -2 ^ 31 ≤ own ws j + weight ws j ∧ own ws j + weight ws j < 2 ^ 31
  paid : ∀ i, Most (part checkingStandby curLbset ws) (weight ws) (own ws) i →
    -2 ^ 31 ≤ own ws i + weight ws i - factors checkingStandby curLbset ws ∧
      own ws i + weight ws i - factors checkingStandby curLbset ws < 2 ^ 31

theorem Fits.bump (h : Fits checkingStandby curLbset ws) {j : ℕ} (hw : ws[j]? = some w)
    (htakes : w.takesPart checkingStandby curLbset = true) :
    w.bump.lbstatus = w.lbstatus + w.lbfactor := by
  have hgot := h.got j (mem_part.2 ⟨w, hw, htakes⟩)
  simp only [own, weight, hw, Option.map_some, Option.getD_some] at hgot
  exact int32_of_fits hgot.1 hgot.2

/-- **An election is a turn.** -/
theorem FirstSet.turn (hfirst : FirstSet ws checkingStandby curLbset) (hsteady : Steady ws)
    (hfits : Fits checkingStandby curLbset ws) (now : ℕ → ℤ) :
    ∃ i, (findBestByrequests now ws).1 = some i ∧
      Most (part checkingStandby curLbset ws) (weight ws) (own ws) i ∧
      Alike ws (findBestByrequests now ws).2 ∧
      own (findBestByrequests now ws).2 =
        WeightedTurns.turn (part checkingStandby curLbset ws) (weight ws) (own ws) i := by
  obtain ⟨i, w, helects, hw, htakes, hmost⟩ := hfirst.elects hsteady now
  have hturn : Most (part checkingStandby curLbset ws) (weight ws) (own ws) i := by
    refine ⟨mem_part.2 ⟨w, hw, htakes⟩, fun j hj => ?_⟩
    obtain ⟨w', hw', htakes'⟩ := mem_part.1 hj
    have hle := hmost j w' hw' htakes'
    rw [hfits.bump hw' htakes', hfits.bump hw htakes] at hle
    simpa only [own, weight, hw, hw', Option.map_some, Option.getD_some] using hle
  refine ⟨i, by rw [helects], hturn, ?_, ?_⟩
  · rw [helects, Alike]
    refine List.ext_getElem? fun j => ?_
    have hturned : ∀ w : Worker, (w.turned checkingStandby curLbset).static = w.static := by
      intro w
      unfold Worker.turned
      split_ifs <;> rfl
    simp only [List.getElem?_map, List.getElem?_modify]
    cases ws[j]? with
    | none => rfl
    | some w' =>
      by_cases hij : i = j
      · simp only [hij, if_true, Option.map_some]
        exact congrArg some (hturned w')
      · simp only [hij, if_false, Option.map_some]
        exact congrArg some (hturned w')
  · rw [helects]
    funext j
    simp only [own, WeightedTurns.turn, handedOut_part, List.getElem?_map, List.getElem?_modify]
    cases hj : ws[j]? with
    | none =>
      have hne : j ≠ i := by
        rintro rfl
        rw [hw] at hj
        cases hj
      have hout : j ∉ part checkingStandby curLbset ws := by
        intro hmem
        obtain ⟨w', hw', -⟩ := mem_part.1 hmem
        rw [hj] at hw'
        cases hw'
      rw [if_neg hout, if_neg hne]
      rfl
    | some w' =>
      have hin : j ∈ part checkingStandby curLbset ws ↔
          w'.takesPart checkingStandby curLbset = true := by
        rw [mem_part, hj]
        simp
      have hturned : (w'.turned checkingStandby curLbset).lbstatus = w'.lbstatus +
          if j ∈ part checkingStandby curLbset ws then weight ws j else 0 := by
        simp only [Worker.turned, weight, hj, hin, Option.map_some, Option.getD_some]
        split_ifs with htakes'
        · exact hfits.bump hj htakes'
        · exact (add_zero _).symm
      by_cases hij : i = j
      · subst hij
        have hpaid := hfits.paid i hturn
        have hown : own ws i = w'.lbstatus := by
          rw [own, hj]
          rfl
        rw [hown] at hpaid
        rw [if_pos hturn.1] at hturned
        simp only [if_true, if_pos hturn.1, Option.map_some, Option.map_eq_map, Option.getD_some,
          Worker.pay, hturned]
        exact int32_of_fits hpaid.1 hpaid.2
      · have hji : j ≠ i := Ne.symm hij
        simp only [hij, hji, if_false, sub_zero]
        exact hturned

/-! ## Runs -/

/-- A request is served, by the worker that is elected. -/
def serve (ws : List Worker) (now : ℕ → ℤ) : List Worker × Option ℕ :=
  ((findBestByrequests now ws).2, (findBestByrequests now ws).1)

/-- The workers after requests at these times. -/
def after (ws : List Worker) (nows : List (ℕ → ℤ)) : List Worker :=
  Machine.run (fun ws now => (serve ws now).1) ws nows

/-- What they have after turns from zero fits, when the workers are not too many, nor their
    factors too large. -/
theorem fits_of_turns {own₀ : ℕ → ℤ} {is : List ℕ}
    (hturns : Turns (part checkingStandby curLbset ws) (weight ws) own₀ is (own ws))
    (hzero : ∀ j, own₀ j = 0)
    (hweight : ∀ j ∈ part checkingStandby curLbset ws, 0 ≤ weight ws j)
    (htotal : 0 < handedOut (part checkingStandby curLbset ws) (weight ws))
    (hfits : ws.length * factors checkingStandby curLbset ws < 2 ^ 31) :
    Fits checkingStandby curLbset ws := by
  have hcard : (part checkingStandby curLbset ws).card ≤ ws.length := by
    have hle := Finset.card_filter_le (Finset.range ws.length) fun j =>
      (ws[j]?.map (Worker.takesPart checkingStandby curLbset)).getD false = true
    rwa [Finset.card_range] at hle
  have hmany : (part checkingStandby curLbset ws).card *
      factors checkingStandby curLbset ws < 2 ^ 31 := by
    rw [handedOut_part] at htotal
    exact lt_of_le_of_lt (mul_le_mul_of_nonneg_right (by exact_mod_cast hcard) htotal.le) hfits
  have hone : ∀ j ∈ part checkingStandby curLbset ws,
      factors checkingStandby curLbset ws < 2 ^ 31 := by
    intro j hj
    rw [handedOut_part] at htotal
    have hcard' : (1 : ℤ) ≤ (part checkingStandby curLbset ws).card := by
      exact_mod_cast Finset.card_pos.2 ⟨j, hj⟩
    exact lt_of_le_of_lt (le_mul_of_one_le_left htotal.le hcard') hmany
  have hlow := hturns.bounded hweight htotal fun j _ => hzero j
  have hhigh := hturns.bounded_above hweight htotal fun j _ => hzero j
  have hsum := hturns.sum
  rw [Finset.sum_eq_zero fun j _ => hzero j] at hsum
  have hpos := fun i (h : Most _ _ _ i) => h.pos hsum.ge htotal
  rw [handedOut_part] at hlow hhigh htotal
  refine ⟨fun j hj => ?_, fun i hmost => ?_⟩
  · have hleast := hlow j hj
    have hmost := hhigh j hj
    have hnonneg := hweight j hj
    have hall := hone j hj
    exact ⟨by omega, by omega⟩
  · have hsome := hpos i hmost
    have hmost' := hhigh i hmost.1
    have hall := hone i hmost.1
    exact ⟨by omega, by omega⟩

/-- **A run of elections is a run of turns.** -/
theorem elections (hfirst : FirstSet ws checkingStandby curLbset) (hsteady : Steady ws)
    (hzero : ∀ j, own ws j = 0) (hweight : ∀ j ∈ part checkingStandby curLbset ws, 0 ≤ weight ws j)
    (htotal : 0 < handedOut (part checkingStandby curLbset ws) (weight ws))
    (hfits : ws.length * factors checkingStandby curLbset ws < 2 ^ 31) (nows : List (ℕ → ℤ)) :
    ∃ is : List ℕ, Machine.outputs serve ws nows = is.map some ∧
      is.length = nows.length ∧ Alike ws (after ws nows) ∧
      Turns (part checkingStandby curLbset ws) (weight ws) (own ws) is (own (after ws nows)) := by
  induction nows using List.reverseRecOn with
  | nil => exact ⟨[], rfl, rfl, rfl, .nil _⟩
  | append_singleton nows now ih =>
    obtain ⟨is, houtputs, hlength, halike, hturns⟩ := ih
    have hnext : Fits checkingStandby curLbset (after ws nows) := by
      refine fits_of_turns (?_ : Turns _ _ (own ws) is _) hzero ?_ ?_ ?_
      · rwa [halike.part, halike.weight]
      · rwa [halike.part, halike.weight]
      · rwa [halike.part, halike.weight]
      · rwa [halike.length, halike.factors]
    obtain ⟨i, hi, hmost, halike', hown⟩ :=
      (halike.firstSet hfirst).turn (halike.steady hsteady) hnext now
    have hafter : after ws (nows ++ [now]) = (findBestByrequests now (after ws nows)).2 :=
      Machine.run_snoc _ ws nows now
    rw [halike.part, halike.weight] at hmost hown
    refine ⟨is ++ [i], ?_, ?_, ?_, ?_⟩
    · rw [Machine.outputs_snoc, houtputs, List.map_append]
      exact congrArg (fun o => is.map some ++ [o]) hi
    · rw [List.length_append, List.length_append, hlength]
      rfl
    · rw [hafter]
      exact halike.trans halike'
    · rw [hafter, hown]
      exact hturns.snoc hmost

/-- **Shares.** As long as no worker is in error and nothing else happens to them, from a reset on
    every request elects a worker of the first set that has one; none of them is ever ahead of its
    share by a whole request; and each round of as many requests as the factors are in all gives
    each one as many as its factor, and leaves all at zero. No `int` wraps when the factors that
    take part, once for each worker, are less than `2 ^ 31` in all. -/
theorem shares (ws : List Worker) (checkingStandby : Bool) (curLbset : ℤ)
    (hfirst : FirstSet ws checkingStandby curLbset) (hsteady : Steady ws)
    (hfactor : ∀ w ∈ ws, 1 ≤ w.lbfactor)
    (hfits : ws.length * factors checkingStandby curLbset ws < 2 ^ 31) (nows : List (ℕ → ℤ)) :
    ∃ is : List ℕ, Machine.outputs serve (reset ws) nows = is.map some ∧
      (∀ i ∈ is, ∃ w, ws[i]? = some w ∧ w.takesPart checkingStandby curLbset = true) ∧
      ∀ j w, ws[j]? = some w → w.takesPart checkingStandby curLbset = true →
        is.count j * factors checkingStandby curLbset ws <
          nows.length * w.lbfactor + factors checkingStandby curLbset ws ∧
        ∀ m : ℕ, (nows.length : ℤ) = m * factors checkingStandby curLbset ws →
          (is.count j : ℤ) = m * w.lbfactor ∧
            (after (reset ws) nows)[j]?.map Worker.lbstatus = some 0 := by
  have hreset : Alike ws (reset ws) := by
    rw [Alike, reset, List.map_map]
    rfl
  have hzero : ∀ j, own (reset ws) j = 0 := by
    intro j
    simp only [own, reset, List.getElem?_map]
    cases ws[j]? <;> rfl
  have hweight : ∀ j ∈ part checkingStandby curLbset ws, 0 ≤ weight ws j := by
    intro j hj
    obtain ⟨w, hw, -⟩ := mem_part.1 hj
    have hle := hfactor w (List.mem_of_getElem? hw)
    simp only [weight, hw, Option.map_some, Option.getD_some]
    omega
  have htotal : 0 < handedOut (part checkingStandby curLbset ws) (weight ws) := by
    obtain ⟨w, hw, htakes⟩ := hfirst.someone
    obtain ⟨k, hk⟩ := List.mem_iff_getElem?.1 hw
    have hle := Finset.single_le_sum hweight (mem_part.2 ⟨w, hk, htakes⟩)
    have hone := hfactor w hw
    simp only [weight, hk, Option.map_some, Option.getD_some] at hle
    exact lt_of_lt_of_le (by omega) hle
  obtain ⟨is, houtputs, hlength, halike, hturns⟩ :=
    elections (hreset.firstSet hfirst) (hreset.steady hsteady) hzero
      (by rwa [hreset.part, hreset.weight]) (by rwa [hreset.part, hreset.weight])
      (by rwa [hreset.length, hreset.factors]) nows
  rw [hreset.part, hreset.weight] at hturns
  refine ⟨is, houtputs, fun i hi => mem_part.1 (hturns.mem i hi), fun j w hw htakes => ?_⟩
  have hj := mem_part.2 ⟨w, hw, htakes⟩
  have hw' : weight ws j = w.lbfactor := by
    simp only [weight, hw, Option.map_some, Option.getD_some]
  have hshare := hturns.share hweight htotal (fun j _ => hzero j) hj
  rw [handedOut_part, hw', hlength] at hshare
  refine ⟨hshare, fun m hm => ?_⟩
  rw [← hlength, ← handedOut_part] at hm
  obtain ⟨hcount, hown⟩ := hturns.round hweight htotal (fun j _ => hzero j) hm hj
  rw [hw'] at hcount
  refine ⟨hcount, ?_⟩
  have hlt : j < (after (reset ws) nows).length := by
    rw [halike.length, hreset.length]
    exact (List.getElem?_eq_some_iff.1 hw).1
  rw [own, List.getElem?_eq_getElem hlt] at hown
  rw [List.getElem?_eq_getElem hlt]
  exact congrArg some hown

/-- Two workers of the same set, one with twice the factor of the other, and one that stands by. -/
def threeWorkers : List Worker :=
  [⟨0, 0, 1, 0x0001, 0, 60, 0⟩, ⟨0, 0, 2, 0x0001, 0, 60, 0⟩, ⟨0, 0, 1, 0x0101, 0, 60, 0⟩]

theorem threeWorkers_firstSet : FirstSet threeWorkers false 0 := by
  refine ⟨le_rfl, ⟨_, List.mem_cons_self, rfl⟩, ?_⟩
  rintro w - standby lbset hnonneg (hbefore | ⟨-, -, hstandby⟩)
  · omega
  · cases hstandby

theorem shares_three : ∃ is : List ℕ,
    Machine.outputs serve (reset threeWorkers) (List.replicate 6 fun _ => 0) = is.map some ∧
      (∀ i ∈ is, ∃ w, threeWorkers[i]? = some w ∧ w.takesPart false 0 = true) ∧
      ∀ j w, threeWorkers[j]? = some w → w.takesPart false 0 = true →
        is.count j * factors false 0 threeWorkers <
          (List.replicate 6 fun _ : ℕ => (0 : ℤ)).length * w.lbfactor +
            factors false 0 threeWorkers ∧
        ∀ m : ℕ, ((List.replicate 6 fun _ : ℕ => (0 : ℤ)).length : ℤ) =
            m * factors false 0 threeWorkers →
          (is.count j : ℤ) = m * w.lbfactor ∧
            (after (reset threeWorkers) (List.replicate 6 fun _ => 0))[j]?.map
              Worker.lbstatus = some 0 := by
  refine shares threeWorkers false 0 threeWorkers_firstSet ?_ ?_ (by decide)
    (List.replicate 6 fun _ => 0)
  · intro w hw
    simp only [threeWorkers, List.mem_cons, List.not_mem_nil, or_false] at hw
    rcases hw with rfl | rfl | rfl <;> rfl
  · intro w hw
    simp only [threeWorkers, List.mem_cons, List.not_mem_nil, or_false] at hw
    rcases hw with rfl | rfl | rfl
    · exact le_rfl
    · exact one_le_two
    · exact le_rfl

end Byrequests

end Httpd
