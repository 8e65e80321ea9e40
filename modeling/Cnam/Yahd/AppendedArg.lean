/-
  What appending an argument does to the URL.

  `appendURLArg` cuts the whole query up and prints it again.  The path stays, the
  appended name has the appended value and no other, and each other argument is
  printed once, with its last value, in the order in which the names come first
  (`appendURLArg_frame`).  A piece of the query without '=' is not an argument, and
  is not printed again.
-/
import Cnam.Yahd.UrlArgs

namespace Yahd

open Php Assoc

/-- The pieces of the query of a URL that have a '='. -/
def argPieces (URL : Str) : List Str := (explode '&' (queryOf URL)).filter ('=' ∈ ·)

theorem arg?_eq_none {p : Str} (h : '=' ∉ p) : arg? p = none := by
  cases hp : arg? p with
  | none => rfl
  | some e =>
    obtain ⟨rfl, -⟩ := arg?_eq_some hp
    exact absurd (by simp [argText]) h

theorem args_queryOf (URL : Str) :
    args (queryOf URL) = (argPieces URL).map fun p => (argName p, argValue p) := by
  unfold args argPieces
  induction explode '&' (queryOf URL) with
  | nil => rfl
  | cons p pieces ih =>
    by_cases hp : '=' ∈ p
    · rw [List.filterMap_cons_some (arg?_eq hp), ih, List.filter_cons_of_pos (by simpa using hp)]
      rfl
    · rw [List.filterMap_cons_none (arg?_eq_none hp), ih,
        List.filter_cons_of_neg (by simpa using hp)]

/-- The query after an argument is appended: the arguments there were and the new one, assigned
    one after the other. -/
theorem explode_queryOf_appendURLArg (URL : Str) {e : Str × Str} (h : ArgPlain e) :
    explode '&' (queryOf (appendURLArg URL (argText e))) =
      (put (puts [] (args (queryOf URL))) e.1 e.2).map argText := by
  obtain ⟨query, hquery, hargs⟩ := queryOf_appendURLArg URL (argText e)
  rw [args_argText h] at hargs
  have hput : puts [] (args query) = put (puts [] (args (queryOf URL))) e.1 e.2 := by
    rw [hargs, puts_snoc]
  have hne : puts [] (args query) ≠ [] := by
    rw [hput]
    exact List.ne_nil_of_mem (mem_put.2 (Or.inr rfl))
  rw [hquery, explode_removeDuplicateURLArgs hne, hput]

/-- Choosing pieces by their names. -/
theorem filter_map_argText {es : List (Str × Str)} (h : ∀ e ∈ es, '=' ∉ e.1) (q : Str → Bool) :
    (es.map argText).filter (fun p => q (argName p)) = (es.filter fun e => q e.1).map argText := by
  rw [List.filter_map]
  refine congrArg (List.map argText) (List.filter_congr fun e he => ?_)
  show q (argName (argText (e.1, e.2))) = q e.1
  rw [argName_argText (h e he)]

/-- **An appended argument overrides its own name and no other**: the path is kept, the name has
    the value once, and each other argument of the URL is there once, with its last value, in the
    order in which the names come first.  What has no '=' is not an argument. -/
theorem appendURLArg_frame (URL : Str) {name value : Str} (heq : '=' ∉ name) (hname : '&' ∉ name)
    (hvalue : '&' ∉ value) :
    pathOf (appendURLArg URL (argText (name, value))) = pathOf URL ∧
      (explode '&' (queryOf (appendURLArg URL (argText (name, value))))).filter
          (argName · = name) = [argText (name, value)] ∧
      (explode '&' (queryOf (appendURLArg URL (argText (name, value))))).filter
          (argName · ≠ name) =
        (((argPieces URL).map argName).eraseDups.filter (· ≠ name)).map fun n =>
          argText (n, lastValue (argPieces URL) n) := by
  have hnodup : ((puts [] (args (queryOf URL))).map Prod.fst).Nodup := nodup_puts (by simp) _
  have hentry : ∀ e ∈ put (puts [] (args (queryOf URL))) name value, '=' ∉ e.1 := by
    intro e he
    rcases mem_put.1 he with ⟨hmem, -⟩ | rfl
    · exact (argPlain_of_mem_args (subset_puts_nil hmem)).1
    · exact heq
  have hpieces := explode_queryOf_appendURLArg URL (e := (name, value)) ⟨heq, hname, hvalue⟩
  refine ⟨pathOf_appendURLArg _ _, ?_, ?_⟩
  · rw [hpieces, filter_map_argText hentry (fun n => decide (n = name)),
      filter_put_self hnodup]
    rfl
  · -- the other entries are those of the URL
    rw [hpieces, filter_map_argText hentry (fun n => decide (n ≠ name)), filter_put_ne,
      args_queryOf, puts_pieces, List.filter_map, List.map_map]
    rfl

/-- A URL with an own argument, a repeated one and one without value. -/
theorem appendURLArg_frame_page :
    appendURLArg "/a?x=1&page=2&debug&x=3".toList (argText ("page".toList, "4?".toList)) =
        "/a?x=3&page=4?".toList ∧
      (explode '&' (queryOf (appendURLArg "/a?x=1&page=2&debug&x=3".toList
        (argText ("page".toList, "4?".toList))))).filter (argName · = "page".toList) =
        ["page=4?".toList] := by
  refine ⟨by decide +kernel, ?_⟩
  exact (appendURLArg_frame _ (by decide +kernel) (by decide +kernel) (by decide +kernel)).2.1

/-- An argument without '=' is lost when another one is appended. -/
theorem appendURLArg_debug :
    "debug".toList ∈ explode '&' (queryOf "/a?x=1&debug".toList) ∧
      "debug".toList ∉
        explode '&' (queryOf (appendURLArg "/a?x=1&debug".toList "page=4".toList)) := by
  decide +kernel

end Yahd
