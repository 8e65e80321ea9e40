/-
  Patterns with `*` and `?` (`ap_strcmp_match` and `ap_strcasecmp_match` of `util.c`): what the
  code answers with its early returns, against what a pattern means.
-/
import Cnam.Httpd.Bytes

namespace Httpd

/-- Any characters. -/
abbrev STAR : UInt8 := 42
/-- Any character. -/
abbrev QUESTION : UInt8 := 63

/-- `apr_tolower`, in the `C` locale. -/
def tolower (c : UInt8) : UInt8 := if 65 ≤ c && c ≤ 90 then c + 32 else c

/-- The loop over what follows a star, with the call for the rest of the pattern. -/
def starLoop (rest : Bytes → ℤ) : Bytes → ℤ
  | [] => -1
  | s :: str =>
    let ret := rest (s :: str)
    if ret ≠ 1 then ret else starLoop rest str

/-- `ap_strcmp_match`, with the comparison of two characters; stars in a row are skipped one by
    one. -/
def strMatch (differ : UInt8 → UInt8 → Bool) : Bytes → Bytes → ℤ
  | [], str => if str = [] then 0 else 1
  | e :: expected, str =>
    if e = STAR then
      if expected = [] then 0
      else if expected.head? = some STAR then strMatch differ expected str
      else starLoop (strMatch differ expected) str
    else
      match str with
      | [] => -1
      | s :: str => if e ≠ QUESTION ∧ differ s e = true then 1 else strMatch differ expected str

/-- `ap_strcmp_match`. -/
def apStrcmpMatch (str expected : Bytes) : ℤ := strMatch (fun s e => s != e) expected str

/-- `ap_strcasecmp_match`. -/
def apStrcasecmpMatch (str expected : Bytes) : ℤ :=
  strMatch (fun s e => tolower s != tolower e) expected str

/-! ## What a pattern means -/

/-- The pattern matches the text. -/
inductive Matches (differ : UInt8 → UInt8 → Bool) : Bytes → Bytes → Prop
  | nil : Matches differ [] []
  | none {expected str : Bytes} : Matches differ expected str →
      Matches differ (STAR :: expected) str
  | more {expected str : Bytes} (s : UInt8) : Matches differ (STAR :: expected) str →
      Matches differ (STAR :: expected) (s :: str)
  | one {expected str : Bytes} {e s : UInt8} : e ≠ STAR → (e = QUESTION ∨ differ s e = false) →
      Matches differ expected str → Matches differ (e :: expected) (s :: str)

variable {differ : UInt8 → UInt8 → Bool} {expected str : Bytes} {e s : UInt8}

/-- A star stands for any text. -/
theorem matches_star : Matches differ (STAR :: expected) str ↔
    ∃ t, t <:+ str ∧ Matches differ expected t := by
  constructor
  · intro h
    generalize hpattern : STAR :: expected = pattern at h
    induction h with
    | nil => cases hpattern
    | @none expected' str h _ =>
      obtain ⟨-, rfl⟩ := List.cons.inj hpattern
      exact ⟨str, List.suffix_rfl, h⟩
    | more s _ ih =>
      obtain ⟨t, hsuffix, ht⟩ := ih hpattern
      exact ⟨t, hsuffix.trans (List.suffix_cons s _), ht⟩
    | one hne _ _ _ =>
      obtain ⟨rfl, -⟩ := List.cons.inj hpattern
      exact absurd rfl hne
  · rintro ⟨t, ⟨front, rfl⟩, ht⟩
    induction front with
    | nil => exact .none ht
    | cons s front ih => exact .more s ih

/-- Two stars are one. -/
theorem matches_stars : Matches differ (STAR :: STAR :: expected) str ↔
    Matches differ (STAR :: expected) str := by
  rw [matches_star]
  constructor
  · rintro ⟨t, hsuffix, ht⟩
    obtain ⟨t', hsuffix', ht'⟩ := matches_star.1 ht
    exact matches_star.2 ⟨t', hsuffix'.trans hsuffix, ht'⟩
  · exact fun h => ⟨str, List.suffix_rfl, h⟩

theorem matches_cons (he : e ≠ STAR) : Matches differ (e :: expected) (s :: str) ↔
    (e = QUESTION ∨ differ s e = false) ∧ Matches differ expected str := by
  constructor
  · intro h
    cases h with
    | none => exact absurd rfl he
    | more => exact absurd rfl he
    | one _ hsame h => exact ⟨hsame, h⟩
  · rintro ⟨hsame, h⟩
    exact .one he hsame h

theorem not_matches_nil (he : e ≠ STAR) : ¬ Matches differ (e :: expected) [] := by
  intro h
  cases h
  exact he rfl

/-- A comparison that tells fewer characters apart matches more. -/
theorem Matches.mono {differ' : UInt8 → UInt8 → Bool} (h : Matches differ expected str)
    (hsame : ∀ s e, differ s e = false → differ' s e = false) : Matches differ' expected str := by
  induction h with
  | nil => exact .nil
  | none _ ih => exact .none ih
  | more s _ ih => exact .more s ih
  | one hne hone _ ih => exact .one hne (hone.imp_right (hsame _ _)) ih

/-- What an answer says about the texts that end the text: that it matches, that it does not, or
    that none of them does. -/
structure Answers (differ : UInt8 → UInt8 → Bool) (expected str : Bytes) (ret : ℤ) : Prop where
  range : ret = 0 ∨ ret = 1 ∨ ret = -1
  zero : ret = 0 ↔ Matches differ expected str
  abort : ret = -1 → ∀ t, t <:+ str → ¬ Matches differ expected t

theorem answers_miss (h : ¬ Matches differ expected str) : Answers differ expected str 1 :=
  ⟨Or.inr (Or.inl rfl), ⟨fun hret => absurd hret (by decide), fun hmatch => absurd hmatch h⟩,
    fun hret => absurd hret (by decide)⟩

theorem answers_abort (h : ∀ t, t <:+ str → ¬ Matches differ expected t) :
    Answers differ expected str (-1) := by
  refine ⟨Or.inr (Or.inr rfl), ⟨fun hret => absurd hret (by decide), fun hmatch => ?_⟩, fun _ => h⟩
  exact absurd hmatch (h str List.suffix_rfl)

theorem not_matches_star (h : ∀ t, t <:+ str → ¬ Matches differ expected t) :
    ∀ t, t <:+ str → ¬ Matches differ (STAR :: expected) t := by
  intro t hsuffix hstar
  obtain ⟨t', hsuffix', ht'⟩ := matches_star.1 hstar
  exact h t' (hsuffix'.trans hsuffix) ht'

/-- **The loop** over the texts that end the text may stop at the first one that matches, and at
    the first one where no later one can. -/
theorem starLoop_answers {rest : Bytes → ℤ} (hne : ¬ Matches differ expected [])
    (hrest : ∀ str, Answers differ expected str (rest str)) (str : Bytes) :
    Answers differ (STAR :: expected) str (starLoop rest str) := by
  induction str with
  | nil =>
    have hno : ∀ t, t <:+ ([] : Bytes) → ¬ Matches differ expected t := by
      intro t hsuffix
      rwa [List.suffix_nil.1 hsuffix]
    exact answers_abort (not_matches_star hno)
  | cons s str ih =>
    have hhere := hrest (s :: str)
    simp only [starLoop]
    by_cases hstop : rest (s :: str) = 1
    · rw [if_neg (not_not.2 hstop)]
      have hmiss : ¬ Matches differ expected (s :: str) := by
        intro h
        have hzero := hhere.zero.2 h
        omega
      have hlater : ∀ t, t <:+ s :: str → Matches differ (STAR :: expected) t →
          Matches differ (STAR :: expected) str := by
        intro t hsuffix h
        obtain ⟨t', hsuffix', ht'⟩ := matches_star.1 h
        rcases List.suffix_cons_iff.1 (hsuffix'.trans hsuffix) with rfl | hsuffix''
        · exact absurd ht' hmiss
        · exact matches_star.2 ⟨t', hsuffix'', ht'⟩
      refine ⟨ih.range, ⟨fun hzero => .more s (ih.zero.1 hzero), fun h => ?_⟩, ?_⟩
      · exact ih.zero.2 (hlater _ List.suffix_rfl h)
      · intro habort t hsuffix h
        exact ih.abort habort str List.suffix_rfl (hlater t hsuffix h)
    · rw [if_pos hstop]
      rcases hhere.range with hzero | hone | habort
      · refine ⟨hhere.range, ⟨fun _ => .none (hhere.zero.1 hzero), fun _ => hzero⟩, ?_⟩
        intro habort
        omega
      · exact absurd hone hstop
      · rw [habort]
        exact answers_abort (not_matches_star (hhere.abort habort))

/-- One character of each. -/
theorem one_answers {ret : ℤ} (he : e ≠ STAR) (hsame : e = QUESTION ∨ differ s e = false)
    (h : Answers differ expected str ret) :
    Answers differ (e :: expected) (s :: str) ret := by
  refine ⟨h.range, ?_, fun habort t hsuffix ht => ?_⟩
  · rw [matches_cons he, h.zero]
    exact (and_iff_right hsame).symm
  · cases t with
    | nil => exact not_matches_nil he ht
    | cons s' t =>
      obtain ⟨-, ht⟩ := (matches_cons he).1 ht
      refine h.abort habort t ?_ ht
      rcases List.suffix_cons_iff.1 hsuffix with heq | hsuffix
      · obtain ⟨-, rfl⟩ := List.cons.inj heq
        exact List.suffix_rfl
      · exact (List.suffix_cons s' t).trans hsuffix

theorem strMatch_star (expected str : Bytes) : strMatch differ (STAR :: expected) str =
    if expected = [] then 0
    else if expected.head? = some STAR then strMatch differ expected str
    else starLoop (strMatch differ expected) str := rfl

theorem strMatch_nil (he : e ≠ STAR) : strMatch differ (e :: expected) [] = -1 := by
  simp only [strMatch, if_neg he]

theorem strMatch_cons (he : e ≠ STAR) : strMatch differ (e :: expected) (s :: str) =
    if e ≠ QUESTION ∧ differ s e = true then 1 else strMatch differ expected str := by
  simp only [strMatch, if_neg he]

/-- **The answer is right**: zero when the pattern matches; and when it is minus one, no text that
    ends the text matches, so that the loop of an enclosing call may give up. -/
theorem strMatch_answers (differ : UInt8 → UInt8 → Bool) (expected str : Bytes) :
    Answers differ expected str (strMatch differ expected str) := by
  induction expected generalizing str with
  | nil =>
    rw [strMatch]
    split_ifs with hend
    · subst hend
      exact ⟨Or.inl rfl, ⟨fun _ => .nil, fun _ => rfl⟩, fun h => absurd h (by decide)⟩
    · refine answers_miss fun h => ?_
      cases h
      exact hend rfl
  | cons e expected ih =>
    by_cases he : e = STAR
    · subst he
      rw [strMatch_star]
      split_ifs with hlast hstars
      · subst hlast
        refine ⟨Or.inl rfl, ⟨fun _ => ?_, fun _ => rfl⟩, fun h => absurd h (by decide)⟩
        exact matches_star.2 ⟨[], List.nil_suffix, .nil⟩
      · obtain ⟨expected', rfl⟩ : ∃ expected', expected = STAR :: expected' := by
          cases expected with
          | nil => exact absurd rfl hlast
          | cons e' expected' => exact ⟨expected', by rw [Option.some.inj hstars]⟩
        have hrest := ih str
        refine ⟨hrest.range, hrest.zero.trans matches_stars.symm, fun habort t hsuffix ht => ?_⟩
        exact hrest.abort habort t hsuffix (matches_stars.1 ht)
      · refine starLoop_answers ?_ ih str
        cases expected with
        | nil => exact absurd rfl hlast
        | cons e' expected' =>
          refine not_matches_nil fun he' => ?_
          rw [he'] at hstars
          exact hstars rfl
    · cases str with
      | nil =>
        rw [strMatch_nil he]
        refine answers_abort ?_
        intro t hsuffix ht
        rw [List.suffix_nil.1 hsuffix] at ht
        exact not_matches_nil he ht
      | cons s str =>
        rw [strMatch_cons he]
        by_cases hdiffer : e ≠ QUESTION ∧ differ s e = true
        · rw [if_pos hdiffer]
          refine answers_miss ?_
          intro h
          rcases ((matches_cons he).1 h).1 with hquestion | hsame
          · exact absurd hquestion hdiffer.1
          · rw [hdiffer.2] at hsame
            cases hsame
        · rw [if_neg hdiffer]
          refine one_answers he ?_ (ih str)
          by_cases hquestion : e = QUESTION
          · exact Or.inl hquestion
          · refine Or.inr ?_
            rw [← Bool.not_eq_true]
            exact fun hno => hdiffer ⟨hquestion, hno⟩

/-- **The two functions** say that the text matches when it does. -/
theorem strcmpMatch_matches (str expected : Bytes) :
    (apStrcmpMatch str expected = 0 ↔ Matches (fun s e => s != e) expected str) ∧
      (apStrcasecmpMatch str expected = 0 ↔
        Matches (fun s e => tolower s != tolower e) expected str) ∧
      (apStrcmpMatch str expected = -1 → ∀ t, t <:+ str → apStrcmpMatch t expected ≠ 0) ∧
      (apStrcasecmpMatch str expected = -1 → ∀ t, t <:+ str → apStrcasecmpMatch t expected ≠ 0) ∧
      (apStrcmpMatch str expected = 0 → apStrcasecmpMatch str expected = 0) := by
  have hexact := fun str => strMatch_answers (fun s e => s != e) expected str
  have hfolded := fun str => strMatch_answers (fun s e => tolower s != tolower e) expected str
  refine ⟨(hexact str).zero, (hfolded str).zero, ?_, ?_, ?_⟩
  · intro habort t hsuffix hzero
    exact (hexact str).abort habort t hsuffix ((hexact t).zero.1 hzero)
  · intro habort t hsuffix hzero
    exact (hfolded str).abort habort t hsuffix ((hfolded t).zero.1 hzero)
  · intro hzero
    refine (hfolded str).zero.2 ?_
    refine ((hexact str).zero.1 hzero).mono ?_
    intro s e hsame
    rw [bne_eq_false_iff_eq] at hsame ⊢
    rw [hsame]

end Httpd
