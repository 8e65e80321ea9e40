/-
  How the next page reads a query that was put together from texts `name=value`.

  Only names and values without separators and escapes come out as they went in.  In a map that
  comes out whole there are no others: one that does not come out of its own text would have to
  come out of that of a larger one.
-/
import Cnam.Php.Urldecode
import Cnam.Yahd.UrlArgs

namespace Yahd

open Php Assoc

/-- An argument as the next page reads it. -/
def decodeArg (e : Str × Str) : Str × Str := (urldecode e.1, urldecode e.2)

/-- No escapes in the name and in the value. -/
def EscapeFree (e : Str × Str) : Prop := UrlPlain e.1 ∧ UrlPlain e.2

/-- Neither separators nor escapes in the name and in the value. -/
def Plain (e : Str × Str) : Prop := ArgPlain e ∧ EscapeFree e

theorem decodeArg_of_escapeFree {e : Str × Str} (h : EscapeFree e) : decodeArg e = e := by
  rw [decodeArg, urldecode_of_urlPlain h.1, urldecode_of_urlPlain h.2]

/-- The text of an argument is read under its name, whatever is in the value. -/
theorem exists_arg_named {e : Str × Str} (heq : '=' ∉ e.1) (hamp : '&' ∉ e.1) :
    ∃ r ∈ args (argText e), r.1 = e.1 := by
  by_cases hvalue : '&' ∈ e.2
  · obtain ⟨a, b, hab, ha⟩ := List.eq_append_cons_of_mem hvalue
    have htext : argText e = argText (e.1, a) ++ '&' :: b := by
      rw [argText, hab]
      simp [argText]
    have hplain : ArgPlain (e.1, a) := ⟨heq, hamp, ha⟩
    refine ⟨(e.1, a), ?_, rfl⟩
    rw [htext, args_append, args_argText hplain]
    exact List.mem_cons_self
  · exact ⟨e, by rw [args_argText ⟨heq, hamp, hvalue⟩]; exact List.mem_cons_self, rfl⟩

/-! ## The weight of an argument -/

/-- The length of a name and a value, where the characters that cutting and decoding take away
    one by one count twice. -/
def argWeight (e : Str × Str) : ℕ := weight ['+', '='] e.1 + weight ['+'] e.2

/-- Decoding makes an argument smaller, unless there are no escapes in it. -/
theorem argWeight_decodeArg (e : Str × Str) :
    argWeight (decodeArg e) < argWeight e ∨ EscapeFree e := by
  have hname : weight ['+', '='] (urldecode e.1) < weight ['+', '='] e.1 ∨ UrlPlain e.1 :=
    weight_urldecode_lt (by decide) (by decide) e.1
  have hvalue : weight ['+'] (urldecode e.2) < weight ['+'] e.2 ∨ UrlPlain e.2 :=
    weight_urldecode_lt (by decide) (by decide) e.2
  rcases hname with hname | hname
  · left
    refine Nat.add_lt_add_of_lt_of_le hname ?_
    rcases hvalue with hvalue | hvalue
    · exact hvalue.le
    · rw [decodeArg, urldecode_of_urlPlain hvalue]
  · rcases hvalue with hvalue | hvalue
    · left
      refine Nat.add_lt_add_of_le_of_lt (le_of_eq ?_) hvalue
      rw [decodeArg, urldecode_of_urlPlain hname]
    · exact Or.inr ⟨hname, hvalue⟩

theorem argWeight_decodeArg_le (e : Str × Str) : argWeight (decodeArg e) ≤ argWeight e := by
  rcases argWeight_decodeArg e with h | h
  · exact h.le
  · rw [decodeArg_of_escapeFree h]

/-- A '=' counts twice in a name. -/
theorem weight_name (s : Str) :
    weight ['+'] s ≤ weight ['+', '='] s ∧
      ('=' ∈ s → weight ['+'] s < weight ['+', '='] s) ∧
      ('=' ∉ s → weight ['+', '='] s = weight ['+'] s) := by
  induction s with
  | nil => simp
  | cons c s ih =>
    rcases ih with ⟨hle, hlt, heq⟩
    rw [weight_cons _ c s, weight_cons ['+', '='] c s]
    have hc : c ≠ '=' → weight ['+', '='] [c] = weight ['+'] [c] := by
      intro hc
      simp [weight, hc]
    have hc' : weight ['+', '='] ['='] = weight ['+'] ['='] + 1 := by decide
    by_cases h : c = '='
    · subst h
      simp only [List.mem_cons, true_or, not_true_eq_false, false_implies, and_true, true_implies]
      omega
    · rw [hc h]
      simp only [List.mem_cons, Ne.symm h, false_or]
      refine ⟨by omega, fun hmem => ?_, fun hmem => ?_⟩
      · exact Nat.add_lt_add_left (hlt hmem) _
      · rw [heq hmem]

theorem weight_argText (e : Str × Str) :
    weight ['+'] (argText e) = weight ['+'] e.1 + 1 + weight ['+'] e.2 := by
  rw [argText, weight_append, weight_cons]
  have h : weight ['+'] ['='] = 1 := by decide
  omega

/-- An argument is smaller than the text it is cut from, by what is cut off. -/
theorem argWeight_lt {query : Str} {r : Str × Str} (h : r ∈ args query) :
    argWeight r + 1 + (query.length - (argText r).length) ≤ weight ['+'] query := by
  rcases List.mem_filterMap.1 h with ⟨p, hp, hr⟩
  rcases arg?_eq_some hr with ⟨rfl, hname⟩
  have hweight := weight_le_of_part ['+'] (mem_explode hp).1
  have h1 := weight_argText r
  have h2 := (weight_name r.1).2.2 hname
  unfold argWeight
  omega

/-- What is read from the text of an argument is the argument, without separators and escapes,
    or smaller. -/
theorem argWeight_lt_of_text {e r : Str × Str} (h : r ∈ args (argText e)) :
    argWeight (decodeArg r) < argWeight e ∨ r = e ∧ Plain e := by
  have hcut := argWeight_lt h
  have hdec := argWeight_decodeArg_le r
  have htext := weight_argText e
  rcases weight_name e.1 with ⟨hle, hlt, -⟩
  have hweight : argWeight e = weight ['+', '='] e.1 + weight ['+'] e.2 := rfl
  by_cases hname : '=' ∈ e.1
  · left
    have := hlt hname
    omega
  by_cases hamp : '&' ∈ argText e
  · -- a piece of the text is cut off
    left
    rcases List.mem_filterMap.1 h with ⟨p, hp, hr⟩
    rcases arg?_eq_some hr with ⟨rfl, -⟩
    rcases mem_explode hp with ⟨hin, hsep⟩
    have hlen : (argText r).length < (argText e).length := by
      refine lt_of_le_of_ne hin.length_le fun heq => hsep ?_
      rw [hin.eq_of_length heq]
      exact hamp
    omega
  · have hplain : ArgPlain e := by
      simp only [argText, List.mem_append, List.mem_cons, not_or] at hamp
      exact ⟨hname, hamp.1, hamp.2.2⟩
    rw [args_argText hplain, List.mem_singleton] at h
    subst h
    rcases argWeight_decodeArg r with hlt | hfree
    · exact Or.inl hlt
    · exact Or.inr ⟨rfl, hplain, hfree⟩

theorem queryOf_part (URL : Str) : queryOf URL <:+: URL :=
  ((List.tail_suffix _).trans (List.dropWhile_suffix _)).isInfix

/-- The same for what is read from the query of a URL that is the value of an argument. -/
theorem argWeight_lt_of_queryOf {name URL : Str} {r : Str × Str} (h : r ∈ args (queryOf URL)) :
    argWeight (decodeArg r) < argWeight (name, URL) := by
  have hcut := argWeight_lt h
  have hdec := argWeight_decodeArg_le r
  have hquery : weight ['+'] (queryOf URL) ≤ weight ['+'] URL :=
    le_trans (Nat.le_add_right _ _) (weight_le_of_part _ (queryOf_part URL))
  have hweight : argWeight (name, URL) = weight ['+', '='] name + weight ['+'] URL := rfl
  omega

theorem plain_of_queryOf {URL : Str} (hURL : UrlPlain URL) {r : Str × Str}
    (h : r ∈ args (queryOf URL)) : Plain r := by
  refine ⟨argPlain_of_mem_args h, ?_⟩
  rcases List.mem_filterMap.1 h with ⟨p, hp, hr⟩
  rcases arg?_eq_some hr with ⟨rfl, -⟩
  have hin := (mem_explode hp).1.trans (queryOf_part URL)
  have hname : r.1 <:+: argText r := (List.prefix_append _ _).isInfix
  have hvalue : r.2 <:+: argText r :=
    ((List.suffix_cons _ _).trans (List.suffix_append _ _)).isInfix
  exact ⟨hURL.of_part (hname.trans hin), hURL.of_part (hvalue.trans hin)⟩

theorem length_args_queryOf {URL : Str} (h : '&' ∉ URL) : (args (queryOf URL)).length ≤ 1 := by
  have hquery : '&' ∉ queryOf URL := fun hmem => h ((queryOf_part URL).subset hmem)
  rw [args, explode_of_notMem hquery]
  exact List.length_filterMap_le _ _

/-! ## Maps that come out whole -/

/-- **A map that comes out whole has neither separators nor escapes**, when its texts are appended
    to a URL that is itself one of its values. -/
theorem plain_of_whole {es : List (Str × Str)} {name URL : Str} (hURL : (name, URL) ∈ es)
    (h : ∀ e ∈ es, ∃ r ∈ args (queryOf URL) ++ es.flatMap (fun e => args (argText e)),
      decodeArg r = e) :
    ∀ e ∈ es, Plain e := by
  classical
  by_contra hbad
  simp only [not_forall] at hbad
  rcases hbad with ⟨e, he, hbad⟩
  -- the largest of those that are not plain
  obtain ⟨e, he, hmax⟩ := (es.toFinset.filter (¬Plain ·)).exists_max_image argWeight
    ⟨e, Finset.mem_filter.2 ⟨List.mem_toFinset.2 he, hbad⟩⟩
  rw [Finset.mem_filter, List.mem_toFinset] at he
  have hlt : ∀ e' ∈ es, argWeight e < argWeight e' → Plain e' := by
    intro e' he' hlt
    by_contra hbad'
    have := hmax e' (Finset.mem_filter.2 ⟨List.mem_toFinset.2 he', hbad'⟩)
    omega
  rcases h e he.1 with ⟨r, hr, rfl⟩
  rcases List.mem_append.1 hr with hr | hr
  · have hplain := hlt _ hURL (argWeight_lt_of_queryOf hr)
    have hr' := plain_of_queryOf hplain.2.2 hr
    rw [decodeArg_of_escapeFree hr'.2] at he
    exact he.2 hr'
  · rcases List.mem_flatMap.1 hr with ⟨e', he', hr⟩
    rcases argWeight_lt_of_text hr with hlt' | ⟨rfl, hplain⟩
    · have hplain := hlt e' he' hlt'
      rw [args_argText hplain.1, List.mem_singleton] at hr
      subst hr
      rw [decodeArg_of_escapeFree hplain.2] at he
      exact he.2 hplain
    · rw [decodeArg_of_escapeFree hplain.2] at he
      exact he.2 hplain

/-- The entries of `as`, then those of `es`, are the entries of `all`, when `es` are some of
    these. -/
theorem puts_iff_all {es all as : List (Str × Str)} (hall : (all.map Prod.fst).Nodup)
    (hsub : ∀ e ∈ es, e ∈ all) :
    (∀ e, e ∈ es ∨ e ∈ as ∧ e.1 ∉ es.map Prod.fst ↔ e ∈ all) ↔
      (∀ a ∈ as, a.1 ∈ es.map Prod.fst ∨ a ∈ all) ∧ ∀ e ∈ all, e ∈ es ∨ e ∈ as := by
  constructor
  · intro h
    refine ⟨fun a ha => ?_, fun e he => ?_⟩
    · by_cases hkey : a.1 ∈ es.map Prod.fst
      · exact Or.inl hkey
      · exact Or.inr ((h a).1 (Or.inr ⟨ha, hkey⟩))
    · rcases (h e).2 he with he | ⟨he, -⟩
      · exact Or.inl he
      · exact Or.inr he
  · rintro ⟨hargs, hrest⟩ e
    constructor
    · rintro (he | ⟨he, hkey⟩)
      · exact hsub e he
      · exact (hargs e he).resolve_left hkey
    · intro he
      by_cases hkey : e.1 ∈ es.map Prod.fst
      · -- the entry of `es` of this name is `e`
        left
        rcases List.mem_map.1 hkey with ⟨e', he', hkey'⟩
        rwa [← List.inj_on_of_nodup_map hall (hsub e' he') he hkey']
      · rcases hrest e he with he' | he'
        · exact Or.inl he'
        · exact Or.inr ⟨he', hkey⟩

/-- What the query of the redirection says when there are no separators and escapes. -/
theorem perm_whole {es all as : List (Str × Str)} (hes : (es.map Prod.fst).Nodup)
    (hall : (all.map Prod.fst).Nodup) (hsub : ∀ e ∈ es, e ∈ all) (hplain : ∀ e ∈ es, Plain e)
    (has : ∀ a ∈ as, Plain a) (hone : as.length ≤ 1) :
    ((puts [] (as ++ es.flatMap fun e => args (argText e))).map decodeArg).Perm all ↔
      (∀ a ∈ as, a.1 ∈ es.map Prod.fst ∨ a ∈ all) ∧ ∀ e ∈ all, e ∈ es ∨ e ∈ as := by
  have hflat : (es.flatMap fun e => args (argText e)) = es := by
    rw [List.flatMap_congr fun e he => args_argText (hplain e he).1]
    exact List.flatMap_singleton' es
  have hnodup : (as.map Prod.fst).Nodup := by
    rcases as with _ | ⟨a, _ | ⟨b, as⟩⟩
    · simp
    · simp
    · simp at hone
  have hmem : ∀ e, e ∈ puts [] (as ++ es) ↔ e ∈ es ∨ e ∈ as ∧ e.1 ∉ es.map Prod.fst := by
    intro e
    rw [puts_append, puts_nil_of_nodup hnodup, mem_puts hes]
  have hdecode : (puts [] (as ++ es)).map decodeArg = puts [] (as ++ es) := by
    refine (List.map_congr_left fun e he => ?_).trans (List.map_id _)
    rcases (hmem e).1 he with he | ⟨he, -⟩
    · exact decodeArg_of_escapeFree (hplain e he).2
    · exact decodeArg_of_escapeFree (has e he).2
  rw [hflat, hdecode, List.perm_ext_iff_of_nodup
    (List.Nodup.of_map _ (nodup_puts (by simp) _)) (List.Nodup.of_map _ hall)]
  simp only [hmem]
  exact puts_iff_all hall hsub

end Yahd
