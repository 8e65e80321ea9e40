/-
  The names that are not carried on (`getAllRequestParamsAsHiddenParams` and
  `appendPostParamsToURL` of `urlfunc.inc.php`).

  Both functions look a parameter up among the excluded names with `==`, and its name may
  have become an integer as the key of an array.  A name can then be taken for another one:
  for an excluded text that denotes the same number (`SameNumber`).  Exactly the excluded
  names are left out when that never happens (`leavesOut_iff`).
-/
import Cnam.Yahd.Resume

namespace Yahd

open Php

/-- The parameters of one method, by name. -/
structure ParamMap where
  entries : List (Str × Str)
  nodup : (entries.map Prod.fst).Nodup

namespace ParamMap

/-- The names of the parameters. -/
def names (m : ParamMap) : List Str := m.entries.map Prod.fst

/-- The array that PHP makes of them: a decimal name becomes an integer. -/
def toArr (m : ParamMap) : Arr Str := m.entries.map (Prod.map Key.ofStr id)

/-- One entry for each name of either map, with the value of the first one. -/
def union (a b : ParamMap) : List (Str × Str) :=
  a.entries ++ b.entries.filter fun e => !a.names.contains e.1

end ParamMap

/-- The request with these parameters. -/
def withParams (req : Request) (get post : ParamMap) : Request :=
  { req with get := get.toArr, post := post.toArr }

/-- Exactly the excluded names are left out: the form has one hidden input for each other name but
    that of the session, and each other POST parameter is appended. -/
structure LeavesOut (req : Request) (get post : ParamMap) (excludeNames : List Str) : Prop where
  hidden : getAllRequestParamsAsHiddenParams (withParams req get post) excludeNames =
    ((get.union post).filter fun e =>
      e.1 ≠ "PHPSESSID".toList ∧ e.1 ∉ excludeNames).flatMap hiddenInput
  posted : keptParams (withParams req get post) excludeNames =
    post.entries.filter fun e => e.1 ∉ excludeNames

/-- No name is taken for an excluded one, or for that of the session. -/
def Told (get post : ParamMap) (excludeNames : List Str) : Prop :=
  ∀ e ∈ get.entries ++ post.entries, e.1 ∉ excludeNames →
    e.1 ≠ "0".toList ∧ ∀ excluded ∈ excludeNames, ¬SameNumber e.1 excluded

/-! ## The filters -/

/-- A part of a list that makes the same text is the whole list. -/
theorem eq_of_flatMap_eq {α β : Type} {f : α → List β} (hf : ∀ a, f a ≠ []) {s l : List α}
    (hsub : s.Sublist l) (h : s.flatMap f = l.flatMap f) : s = l := by
  induction hsub with
  | slnil => rfl
  | @cons s l a hsub ih =>
    -- the text of `a` is not in the part
    have hpos : 0 < (f a).length := List.length_pos_iff.2 (hf a)
    have hle : (s.flatMap f).length ≤ (l.flatMap f).length := (hsub.flatMap f).length_le
    have hlen := congrArg List.length h
    rw [List.flatMap_cons, List.length_append] at hlen
    omega
  | @cons_cons s l a hsub ih =>
    rw [List.flatMap_cons, List.flatMap_cons] at h
    rw [ih (List.append_cancel_left h)]

/-- The array of the parameters of both methods. -/
theorem arrayUnion_toArr (get post : ParamMap) :
    arrayUnion get.toArr post.toArr = (get.union post).map (Prod.map Key.ofStr id) := by
  have hkeys : get.toArr.map Prod.fst = get.names.map Key.ofStr := by
    unfold ParamMap.toArr ParamMap.names
    rw [List.map_map, List.map_map]
    rfl
  have hother : ∀ e : Str × Str,
      decide (Key.ofStr e.1 ∉ get.toArr.map Prod.fst) = !get.names.contains e.1 := by
    intro e
    rw [hkeys, Bool.eq_iff_iff, decide_eq_true_iff, Bool.not_eq_true', Bool.eq_false_iff,
      ne_eq, List.contains_iff_mem, List.mem_map_of_injective Key.ofStr_injective]
  unfold arrayUnion ParamMap.union
  rw [List.map_append]
  refine congrArg (get.toArr ++ ·) ?_
  show (post.entries.map (Prod.map Key.ofStr id)).filter _ = _
  rw [List.filter_map]
  exact congrArg _ (List.filter_congr fun e _ => hother e)

/-- The parameters that the two tests let through. -/
def passes (excludeNames : List Str) (e : Str × Str) : Bool :=
  !looseEq (Key.ofStr e.1).toVal (.str "PHPSESSID".toList) &&
    (arraySearch (Key.ofStr e.1) excludeNames).isNone

theorem passes_iff (excludeNames : List Str) (e : Str × Str) :
    passes excludeNames e = true ↔
      (e.1 ≠ "PHPSESSID".toList ∧ e.1 ∉ excludeNames) ∧
        e.1 ≠ "0".toList ∧ ∀ excluded ∈ excludeNames, ¬SameNumber e.1 excluded := by
  have hsession := looseEq_ofStr (notNumeric_excluded "PHPSESSID".toList List.mem_cons_self) e.1
  unfold passes
  rw [Bool.and_eq_true, Bool.not_eq_true', Bool.eq_false_iff, ne_eq, hsession,
    Option.isNone_iff_eq_none, arraySearch_ofStr_iff]
  tauto

theorem hiddenInput_ne_nil (e : Str × Str) : hiddenInput e ≠ [] := by
  unfold hiddenInput
  intro h
  exact absurd (List.append_eq_nil_iff.1 h).2 (by decide)

theorem hidden_withParams (req : Request) (get post : ParamMap) (excludeNames : List Str) :
    getAllRequestParamsAsHiddenParams (withParams req get post) excludeNames =
      ((get.union post).filter (passes excludeNames)).flatMap hiddenInput := by
  rw [getAllRequestParamsAsHiddenParams_filter]
  show ((arrayUnion get.toArr post.toArr).filter _).flatMap _ = _
  rw [arrayUnion_toArr, List.filter_map, List.flatMap_map]
  exact congrFun (congrArg List.flatMap (funext hiddenParam_ofStr)) _

theorem posted_withParams (req : Request) (get post : ParamMap) (excludeNames : List Str) :
    keptParams (withParams req get post) excludeNames =
      post.entries.filter fun e => (arraySearch (Key.ofStr e.1) excludeNames).isNone := by
  unfold keptParams
  show ((post.entries.map (Prod.map Key.ofStr id)).filter _).map _ = _
  rw [List.filter_map, List.map_map]
  refine (List.map_congr_left fun e _ => ?_).trans (List.map_id _)
  exact Prod.ext (Key.toStr_ofVal e.1) rfl

/-- Each name of the two maps has an entry in their union. -/
theorem exists_mem_union {get post : ParamMap} {e : Str × Str}
    (h : e ∈ get.entries ++ post.entries) : ∃ e' ∈ get.union post, e'.1 = e.1 := by
  unfold ParamMap.union
  by_cases hget : e.1 ∈ get.names
  · rcases List.mem_map.1 hget with ⟨e', he', hname⟩
    exact ⟨e', List.mem_append_left _ he', hname⟩
  · rcases List.mem_append.1 h with h | h
    · exact absurd (List.mem_map_of_mem h) hget
    · exact ⟨e, List.mem_append_right _ (List.mem_filter.2 ⟨h, by simpa using hget⟩), rfl⟩

theorem mem_of_mem_union {get post : ParamMap} {e : Str × Str} (h : e ∈ get.union post) :
    e ∈ get.entries ++ post.entries := by
  rcases List.mem_append.1 h with h | h
  · exact List.mem_append_left _ h
  · exact List.mem_append_right _ (List.mem_filter.1 h).1

/-- The name of the session denotes no number. -/
theorem not_sameNumber_session (excluded : Str) : ¬SameNumber "PHPSESSID".toList excluded := by
  have hkey : integerKey "PHPSESSID".toList = none := by decide
  have hnum : numeric? "PHPSESSID".toList = none := by decide
  unfold SameNumber
  rw [hkey]
  rintro ⟨x, y, hx, -⟩
  rw [hnum] at hx
  cases hx

/-- **Exactly the excluded names are left out** if and only if no other name is taken for one of
    them, or for that of the session. -/
theorem leavesOut_iff (req : Request) (get post : ParamMap) (excludeNames : List Str) :
    LeavesOut req get post excludeNames ↔ Told get post excludeNames := by
  constructor
  · rintro ⟨hhidden, -⟩ e he hname
    by_cases hsession : e.1 = "PHPSESSID".toList
    · rw [hsession]
      exact ⟨by decide, fun excluded _ => not_sameNumber_session excluded⟩
    · -- the hidden input of `e` is there, so that `e` passes
      rw [hidden_withParams] at hhidden
      have hsub : ((get.union post).filter (passes excludeNames)).Sublist
          ((get.union post).filter fun e => e.1 ≠ "PHPSESSID".toList ∧ e.1 ∉ excludeNames) :=
        List.monotone_filter_right _ fun e he =>
          decide_eq_true ((passes_iff excludeNames e).1 he).1
      have hsame := eq_of_flatMap_eq hiddenInput_ne_nil hsub hhidden
      obtain ⟨e', he', hname'⟩ := exists_mem_union he
      rw [← hname'] at hsession hname ⊢
      have hmem : e' ∈ (get.union post).filter (passes excludeNames) := by
        rw [hsame]
        exact List.mem_filter.2 ⟨he', decide_eq_true ⟨hsession, hname⟩⟩
      exact ((passes_iff excludeNames e').1 (List.mem_filter.1 hmem).2).2
  · intro htold
    constructor
    · rw [hidden_withParams]
      refine congrArg (List.flatMap hiddenInput) (List.filter_congr fun e he => ?_)
      rw [Bool.eq_iff_iff, passes_iff, decide_eq_true_iff]
      exact and_iff_left_of_imp fun h => htold e (mem_of_mem_union he) h.2
    · rw [posted_withParams]
      refine List.filter_congr fun e he => ?_
      rw [Bool.eq_iff_iff, Option.isNone_iff_eq_none, arraySearch_ofStr_iff, decide_eq_true_iff]
      exact and_iff_left_of_imp fun h => (htold e (List.mem_append_right _ he) h).2

/-- A parameter named `0` is taken for that of the session, although no name is excluded. -/
theorem not_leavesOut_zero :
    ¬LeavesOut loginRequest ⟨[("0".toList, "a".toList)], by decide⟩ ⟨[], by decide⟩ [] := by
  intro h
  have hhidden := h.hidden
  revert hhidden
  decide +kernel

end Yahd
