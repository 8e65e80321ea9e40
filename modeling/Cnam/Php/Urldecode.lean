/-
  `urldecode`, and what it leaves as it is.
-/
import Cnam.Php.Value

namespace Php

/-- The byte that '%' and two characters stand for. -/
def percentByte (a b : Char) : Option Char :=
  match hexDigit a, hexDigit b with
  | some x, some y => some (Char.ofNat (16 * x + y))
  | _, _ => none

/-- `urldecode($s)` -/
def urldecode : Str → Str
  | '+' :: s => ' ' :: urldecode s
  | '%' :: a :: b :: s =>
    match percentByte a b with
    | some c => c :: urldecode s
    | none => '%' :: urldecode (a :: b :: s)
  | c :: s => c :: urldecode s
  | [] => []

/-- A text that stands for itself: no '+', and no '%' before two hexadecimal digits. -/
def UrlPlain (s : Str) : Prop :=
  '+' ∉ s ∧ ∀ a b, ['%', a, b] <:+: s → percentByte a b = none

theorem UrlPlain.of_part {s t : Str} (h : UrlPlain t) (hst : s <:+: t) : UrlPlain s :=
  ⟨fun hmem => h.1 (hst.subset hmem), fun a b hab => h.2 a b (hab.trans hst)⟩

theorem urlPlain_of_notMem {s : Str} (hplus : '+' ∉ s) (hpercent : '%' ∉ s) : UrlPlain s :=
  ⟨hplus, fun _ _ hab => absurd (hab.subset List.mem_cons_self) hpercent⟩

theorem urlPlain_cons {c : Char} {s : Str} (hc : c ≠ '+') (hs : UrlPlain s)
    (h : ∀ a b, ['%', a, b] <+: c :: s → percentByte a b = none) : UrlPlain (c :: s) := by
  constructor
  · intro hmem
    rcases List.mem_cons.1 hmem with h' | h'
    · exact hc h'.symm
    · exact hs.1 h'
  · intro a b hab
    rcases List.infix_cons_iff.1 hab with hpre | hin
    · exact h a b hpre
    · exact hs.2 a b hin

theorem urldecode_of_urlPlain {s : Str} (h : UrlPlain s) : urldecode s = s := by
  induction s using urldecode.induct with
  | case1 s ih => exact absurd List.mem_cons_self h.1
  | case2 a b s c hc ih =>
    have hnone := h.2 a b ⟨[], s, rfl⟩
    rw [hc] at hnone
    exact absurd hnone (by simp)
  | case3 a b s hnone ih =>
    rw [urldecode, hnone]
    exact congrArg _ (ih (h.of_part (List.suffix_cons _ _).isInfix))
  | case4 c s hplus hpercent ih =>
    rw [urldecode, ih (h.of_part (List.suffix_cons _ _).isInfix)]
    · exact hplus
    · exact hpercent
  | case5 => rfl

/-! ## Decoding makes a text smaller -/

/-- The length of a text, the characters of `cs` counted twice. -/
def weight (cs : List Char) (s : Str) : ℕ := s.length + s.countP (· ∈ cs)

@[simp] theorem weight_nil (cs : List Char) : weight cs [] = 0 := rfl

theorem weight_cons (cs : List Char) (c : Char) (s : Str) :
    weight cs (c :: s) = weight cs [c] + weight cs s := by
  simp [weight, List.countP_cons]
  omega

theorem weight_append (cs : List Char) (s t : Str) :
    weight cs (s ++ t) = weight cs s + weight cs t := by
  simp [weight, List.countP_append]
  omega

theorem weight_singleton_bounds (cs : List Char) (c : Char) :
    1 ≤ weight cs [c] ∧ weight cs [c] ≤ 2 := by
  by_cases h : c ∈ cs <;> simp [weight, h]

theorem length_le_weight (cs : List Char) (s : Str) : s.length ≤ weight cs s :=
  Nat.le_add_right _ _

theorem weight_le_of_part (cs : List Char) {s t : Str} (h : s <:+: t) :
    weight cs s + (t.length - s.length) ≤ weight cs t := by
  rcases h with ⟨a, b, rfl⟩
  have ha := length_le_weight cs a
  have hb := length_le_weight cs b
  simp only [weight_append, List.length_append]
  omega

/-- **Decoding makes a text smaller**, unless it stands for itself.  A '+' is to count twice. -/
theorem weight_urldecode_lt {cs : List Char} (hplus : '+' ∈ cs) (hspace : ' ' ∉ cs) (s : Str) :
    weight cs (urldecode s) < weight cs s ∨ UrlPlain s := by
  have hle : ∀ t : Str, weight cs (urldecode t) < weight cs t ∨ UrlPlain t →
      weight cs (urldecode t) ≤ weight cs t := by
    rintro t (ht | ht)
    · exact ht.le
    · rw [urldecode_of_urlPlain ht]
  induction s using urldecode.induct with
  | case1 s ih =>
    left
    have h1 : weight cs ['+'] = 2 := by simp [weight, hplus]
    have h2 : weight cs [' '] = 1 := by simp [weight, hspace]
    have h3 := hle s ih
    rw [urldecode, weight_cons, weight_cons cs '+']
    omega
  | case2 a b s c hc ih =>
    left
    have h1 := (weight_singleton_bounds cs c).2
    have h2 := length_le_weight cs ['%', a, b]
    have h3 := hle s ih
    have h4 : weight cs ('%' :: a :: b :: s) = weight cs ['%', a, b] + weight cs s :=
      weight_append cs ['%', a, b] s
    rw [urldecode, hc, weight_cons, h4]
    simp only [List.length_cons, List.length_nil] at h2
    omega
  | case3 a b s hnone ih =>
    rcases ih with ih | ih
    · left
      rw [urldecode, hnone, weight_cons, weight_cons cs '%' (a :: b :: s)]
      exact Nat.add_lt_add_left ih _
    · right
      refine urlPlain_cons (by decide) ih fun a' b' hpre => ?_
      simp only [List.cons_prefix_cons] at hpre
      rw [hpre.2.1, hpre.2.2.1, hnone]
  | case4 c s hne hpercent ih =>
    rcases ih with ih | ih
    · left
      rw [urldecode, weight_cons, weight_cons cs c s]
      · exact Nat.add_lt_add_left ih _
      · exact hne
      · exact hpercent
    · right
      refine urlPlain_cons hne ih fun a' b' hpre => ?_
      rcases hpre with ⟨t, ht⟩
      rw [List.cons_append, List.cons.injEq] at ht
      exact absurd ht.2.symm (hpercent a' b' t ht.1.symm)
  | case5 => exact Or.inr ⟨by simp, fun a b h => absurd h (by simp)⟩

end Php
