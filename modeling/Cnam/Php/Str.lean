/-
  PHP strings, and the functions of PHP's library that look into them and cut
  them up.

  A string of PHP is a sequence of bytes; here it is a list of characters, one
  for each byte.  None of the functions below depends on how a text is encoded.
-/
import Mathlib.Data.List.TakeWhile
import Mathlib.Tactic

namespace Php

/-- A string of PHP. -/
abbrev Str := List Char

/-- `explode($sep, $s)` for a one-byte separator. -/
def explode (sep : Char) (s : Str) : List Str := s.splitOn sep

/-- `implode($sep, $pieces)`. -/
def implode (sep : Char) (pieces : List Str) : Str := [sep].intercalate pieces

/-- `strpos($s, $c)` for a one-byte needle; `none` is PHP's `false`. -/
def strpos (s : Str) (c : Char) : Option ℕ := s.findIdx? (· = c)

/-- The bytes `trim` strips. -/
def blanks : List Char := [' ', '\t', '\n', '\r', Char.ofNat 0, Char.ofNat 11]

/-- `trim($s)`. -/
def trim (s : Str) : Str :=
  ((s.dropWhile (· ∈ blanks)).reverse.dropWhile (· ∈ blanks)).reverse

/-- An integer converted to a string. -/
def ofInt : Int → Str
  | .ofNat n => Nat.toDigits 10 n
  | .negSucc n => '-' :: Nat.toDigits 10 (n + 1)

/-! ## Looking for a character -/

theorem strpos_none {s : Str} {c : Char} (h : strpos s c = none) : c ∉ s := by
  intro hmem
  have hnot := List.findIdx?_eq_none_iff.1 h c hmem
  simp at hnot

/-- What precedes the first occurrence, and what follows it. -/
theorem strpos_some {s : Str} {c : Char} {pos : ℕ} (h : strpos s c = some pos) :
    s = s.take pos ++ c :: s.drop (pos + 1) ∧ c ∉ s.take pos := by
  obtain ⟨hlt, hc, hbefore⟩ := List.findIdx?_eq_some_iff_getElem.1 h
  have hget : s[pos] = c := by simpa using hc
  constructor
  · rw [← hget, List.getElem_cons_drop, List.take_append_drop]
  · intro hmem
    obtain ⟨j, hj, hcj⟩ := List.mem_take_iff_getElem.1 hmem
    exact hbefore j (by omega) (by simpa using hcj)

theorem decide_ne_of_notMem {s : Str} {c : Char} (h : c ∉ s) :
    ∀ x ∈ s, decide (x ≠ c) = true := by
  intro x hx
  rw [decide_eq_true_iff]
  rintro rfl
  exact h hx

/-! ## Splitting and joining -/

theorem explode_of_notMem {sep : Char} {s : Str} (h : sep ∉ s) : explode sep s = [s] :=
  List.splitOn_eq_singleton h

/-- The text before the first separator is the first piece, the rest is cut on its own. -/
theorem explode_append_cons {sep : Char} {a : Str} (ha : sep ∉ a) (s : Str) :
    explode sep (a ++ sep :: s) = a :: explode sep s :=
  List.splitOn_append_cons_self_of_not_mem ha s

theorem explode_append (sep : Char) (a s : Str) :
    explode sep (a ++ sep :: s) = explode sep a ++ explode sep s :=
  List.splitOn_append_cons_self a s

theorem explode_ne_nil (sep : Char) (s : Str) : explode sep s ≠ [] :=
  List.splitOn_ne_nil sep s

theorem explode_eq_singleton {sep : Char} {s p : Str} :
    explode sep s = [p] ↔ sep ∉ s ∧ s = p := by
  constructor
  · intro h
    by_cases hs : sep ∈ s
    · obtain ⟨a, b, rfl, ha⟩ := List.eq_append_cons_of_mem hs
      rw [explode_append_cons ha] at h
      exact absurd (List.cons.inj h).2 (explode_ne_nil sep b)
    · rw [explode_of_notMem hs] at h
      exact ⟨hs, List.singleton_inj.1 h⟩
  · rintro ⟨hs, rfl⟩
    exact explode_of_notMem hs

/-- A text without separator joins the first piece of what follows. -/
theorem explode_append_of_notMem {sep : Char} {a : Str} (ha : sep ∉ a) (s : Str) :
    ∃ p ps, explode sep s = p :: ps ∧ explode sep (a ++ s) = (a ++ p) :: ps := by
  by_cases hs : sep ∈ s
  · obtain ⟨b, c, rfl, hb⟩ := List.eq_append_cons_of_mem hs
    refine ⟨b, explode sep c, explode_append_cons hb c, ?_⟩
    rw [← List.append_assoc, explode_append_cons (by simp [ha, hb])]
  · refine ⟨s, [], explode_of_notMem hs, ?_⟩
    rw [explode_of_notMem (by simp [ha, hs])]

/-- The first piece is the whole string exactly when there is no separator in it. -/
theorem explode_getElem?_zero {sep : Char} {s : Str} :
    (explode sep s)[0]? = some s ↔ sep ∉ s := by
  constructor
  · intro hfirst hmem
    obtain ⟨a, b, rfl, ha⟩ := List.eq_append_cons_of_mem hmem
    rw [explode_append_cons ha] at hfirst
    simp at hfirst
  · intro h
    rw [explode_of_notMem h]
    rfl

@[simp] theorem implode_singleton (sep : Char) (a : Str) : implode sep [a] = a := by
  simp [implode, List.intercalate]

@[simp] theorem implode_cons_cons (sep : Char) (a b : Str) (ps : List Str) :
    implode sep (a :: b :: ps) = a ++ sep :: implode sep (b :: ps) := by
  simp [implode, List.intercalate, List.intersperse]

theorem explode_implode {sep : Char} {pieces : List Str} (h : ∀ p ∈ pieces, sep ∉ p)
    (hne : pieces ≠ []) : explode sep (implode sep pieces) = pieces :=
  List.splitOn_intercalate sep h hne

theorem implode_concat (sep : Char) {pieces : List Str} (hne : pieces ≠ []) (p : Str) :
    implode sep (pieces ++ [p]) = implode sep pieces ++ sep :: p := by
  induction pieces with
  | nil => exact absurd rfl hne
  | cons a ps ih =>
    cases ps with
    | nil => simp
    | cons b ps =>
      rw [List.cons_append, List.cons_append, implode_cons_cons, implode_cons_cons,
        ← List.cons_append, ih (by simp), List.append_assoc, List.cons_append]

/-- A piece of a cut-up string is a part of it without the separator. -/
theorem mem_explode {sep : Char} {s p : Str} (hp : p ∈ explode sep s) : p <:+: s ∧ sep ∉ p := by
  induction hn : s.length using Nat.strong_induction_on generalizing s with
  | _ n ih =>
    by_cases hs : sep ∈ s
    · obtain ⟨a, b, rfl, ha⟩ := List.eq_append_cons_of_mem hs
      rw [explode_append_cons ha] at hp
      rcases List.mem_cons.1 hp with rfl | hp
      · exact ⟨(List.prefix_append p _).isInfix, ha⟩
      · rcases ih b.length (by simp [← hn]; omega) hp rfl with ⟨hin, hsep⟩
        exact ⟨hin.trans ((List.suffix_cons _ _).trans (List.suffix_append _ _)).isInfix, hsep⟩
    · rw [explode_of_notMem hs, List.mem_singleton] at hp
      subst hp
      exact ⟨List.infix_rfl, hs⟩

/-- The first piece goes up to the first separator. -/
theorem explode_head (sep : Char) (s : Str) :
    (explode sep s)[0]? = some (s.takeWhile (· ≠ sep)) := by
  by_cases hs : sep ∈ s
  · obtain ⟨a, b, rfl, ha⟩ := List.eq_append_cons_of_mem hs
    rw [explode_append_cons ha, List.takeWhile_append_of_pos (decide_ne_of_notMem ha)]
    simp
  · rw [explode_of_notMem hs, ← List.append_nil s,
      List.takeWhile_append_of_pos (decide_ne_of_notMem hs)]
    simp

theorem mem_implode {sep c : Char} {pieces : List Str} (hc : c ≠ sep) :
    c ∈ implode sep pieces ↔ ∃ p ∈ pieces, c ∈ p := by
  induction pieces with
  | nil => simp [implode]
  | cons a ps ih =>
    cases ps with
    | nil => simp
    | cons b ps => rw [implode_cons_cons, List.mem_append, List.mem_cons, ih]; simp [hc]

/-! ## Trimming -/

/-- A text of which `trim` leaves nothing. -/
def Blank (s : Str) : Prop := ∀ c ∈ s, c ∈ blanks

instance (s : Str) : Decidable (Blank s) := List.decidableBAll _ s

theorem blank_nil : Blank [] := by simp [Blank]

theorem Blank.append {s w : Str} (hs : Blank s) (hw : Blank w) : Blank (s ++ w) := by
  intro c hc
  exact (List.mem_append.1 hc).elim (hs c) (hw c)

theorem Blank.reverse {s : Str} (hs : Blank s) : Blank s.reverse :=
  fun c hc => hs c (List.mem_reverse.1 hc)

theorem Blank.dropWhile {s : Str} (hs : Blank s) (t : Str) :
    (s ++ t).dropWhile (· ∈ blanks) = t.dropWhile (· ∈ blanks) :=
  List.dropWhile_append_of_pos fun c hc => decide_eq_true (hs c hc)

theorem trim_blank {s : Str} (hs : Blank s) : trim s = [] := by
  unfold trim
  rw [← List.append_nil s, hs.dropWhile]
  rfl

theorem trim_append_blank (s : Str) {w : Str} (hw : Blank w) : trim (s ++ w) = trim s := by
  by_cases hs : s.dropWhile (· ∈ blanks) = []
  · have hblank : Blank s := fun c hc => of_decide_eq_true (List.dropWhile_eq_nil_iff.1 hs c hc)
    rw [trim_blank hblank, trim_blank (hblank.append hw)]
  · unfold trim
    rw [List.dropWhile_append, if_neg (by simpa using hs), List.reverse_append,
      hw.reverse.dropWhile]

/-- `trim` takes a blank text off both ends. -/
theorem exists_trim (s : Str) : ∃ v w, Blank v ∧ Blank w ∧ s = v ++ trim s ++ w := by
  have hblank : ∀ t : Str, Blank (t.takeWhile (· ∈ blanks)) := fun t c hc => by
    have hp := List.mem_takeWhile_imp hc
    exact of_decide_eq_true hp
  refine ⟨s.takeWhile (· ∈ blanks),
    ((s.dropWhile (· ∈ blanks)).reverse.takeWhile (· ∈ blanks)).reverse,
    hblank s, (hblank _).reverse, ?_⟩
  unfold trim
  rw [List.append_assoc, ← List.reverse_append, List.takeWhile_append_dropWhile,
    List.reverse_reverse, List.takeWhile_append_dropWhile]

theorem mem_trim {c : Char} (hc : c ∉ blanks) (s : Str) : c ∈ trim s ↔ c ∈ s := by
  obtain ⟨v, w, hv, hw, hs⟩ := exists_trim s
  constructor
  · intro h
    rw [hs]
    simp [h]
  · intro h
    rw [hs, List.mem_append, List.mem_append] at h
    rcases h with (h | h) | h
    · exact absurd (hv c h) hc
    · exact h
    · exact absurd (hw c h) hc

/-! ## Decimal notation -/

/-- A character that is neither a digit nor a minus sign does not occur in a number. -/
theorem notMem_ofInt {n : Int} {c : Char} (hc : c.isDigit = false) (hm : c ≠ '-') :
    c ∉ ofInt n := by
  have hd : ∀ m : ℕ, c ∉ Nat.toDigits 10 m := fun m h => by
    have := Nat.isDigit_of_mem_toDigits (b := 10) (by decide) (by decide) h
    simp [hc] at this
  cases n with
  | ofNat n => exact hd n
  | negSucc n =>
    intro h
    rcases List.mem_cons.1 h with h | h
    · exact hm h
    · exact hd _ h

theorem toDigits_injective {m n : ℕ} (h : Nat.toDigits 10 m = Nat.toDigits 10 n) : m = n := by
  rw [← Nat.ofDigitChars_ten_toDigits (n := m), h, Nat.ofDigitChars_ten_toDigits]

end Php
