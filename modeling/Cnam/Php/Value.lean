/-
  Values of PHP 5: conversion to strings, numeric strings, the comparison `==`,
  and the keys of arrays.

  A numeric string is an integer of the machine, of 64 bits, or a double: Lean's `Float.Model`,
  the IEEE format binary64.  The comparison is that of PHP 5.4.4 and later, which does not take
  two integers too large for the machine for each other.
-/
import Cnam.Lib.Binary64
import Cnam.Php.Str

namespace Php

/-- The values that reach the comparisons and the output of a script. -/
inductive Val where
  | null
  | int (n : Int)
  | str (s : Str)
deriving DecidableEq

/-- A value converted to a string, as `.` and `echo` do. -/
def Val.toStr : Val → Str
  | .null => []
  | .int n => ofInt n
  | .str s => s

@[simp] theorem Val.toStr_str (s : Str) : (Val.str s).toStr = s := rfl

@[simp] theorem Val.toStr_int (n : Int) : (Val.int n).toStr = ofInt n := rfl

/-- `list($a, $b, …) = $pieces`: what the `n`-th variable gets, `null` when there is no
    such piece. -/
def column (pieces : List Str) (n : ℕ) : Val :=
  match pieces[n]? with
  | some s => .str s
  | none => .null

/-! ## Numeric strings -/

/-- White space that may precede a number. -/
def isSpace (c : Char) : Bool :=
  c ∈ [' ', '\t', '\n', '\r', Char.ofNat 11, Char.ofNat 12]

/-- The value of a sequence of decimal digits. -/
def ofDigits (ds : Str) : ℕ := Nat.ofDigitChars 10 ds 0

/-- An optional sign: whether it is a minus, and what follows. -/
def sign : Str → Bool × Str
  | '-' :: s => (true, s)
  | '+' :: s => (false, s)
  | s => (false, s)

/-- The digits after an optional decimal point.  A lone point is part of a number only
    after an integer part. -/
def fraction (hasInt : Bool) : Str → Str × Str
  | '.' :: s =>
    match s.span Char.isDigit with
    | ([], rest) => if hasInt then ([], rest) else ([], '.' :: s)
    | (ds, rest) => (ds, rest)
  | s => ([], s)

/-- An optional exponent, of which no more than 19999 counts. -/
def exponent : Str → Int × Str
  | [] => (0, [])
  | c :: s =>
    if c = 'e' ∨ c = 'E' then
      match (sign s).2.span Char.isDigit with
      | ([], _) => (0, c :: s)
      | (ds, rest) =>
        let e := min (ofDigits ds) 19999
        (if (sign s).1 then -(e : Int) else e, rest)
    else (0, c :: s)

/-- The integers of the machine, up to `PHP_INT_MAX`. -/
def IsLong (n : Int) : Prop := -9223372036854775808 ≤ n ∧ n ≤ 9223372036854775807

instance (n : Int) : Decidable (IsLong n) := inferInstanceAs (Decidable (_ ∧ _))

/-- What a numeric string stands for: an integer of the machine, or a double.  `oflow` is the sign
    of an integer too large for the machine that the double stands for, and 0 for another one. -/
inductive Number where
  | long (n : Int)
  | double (d : Float.Model) (oflow : Int)
deriving DecidableEq

/-- An integer in decimal notation. -/
def Number.integer (n : Int) : Number :=
  if IsLong n then .long n else .double (Float.Model.ofInt n) n.sign

/-- `± m · 10 ^ e`, rounded once. -/
def strtod (neg : Bool) (m : ℕ) (e : Int) : Float.Model :=
  if neg then -Float.Model.ofScientific m e else Float.Model.ofScientific m e

/-- The decimal number at the start of a string, and what follows it. -/
def decimal (s : Str) : Option (Number × Str) :=
  let (neg, s) := sign s
  let (ip, s₀) := s.span Char.isDigit
  let (fp, s₁) := fraction (!ip.isEmpty) s₀
  if ip = [] ∧ fp = [] then none
  else
    let (e, s₂) := exponent s₁
    if s₂ = s₀ then
      -- neither a point nor an exponent
      some (.integer (if neg then -(ofDigits ip : Int) else ofDigits ip), s₂)
    else
      -- from 20 digits on, the integer part alone is known to be too large
      let oflow := if 20 ≤ (ip.dropWhile (· = '0')).length then if neg then -1 else 1 else 0
      some (.double (strtod neg (ofDigits (ip ++ fp)) (e - fp.length)) oflow, s₂)

/-- The value of a hexadecimal digit. -/
def hexDigit (c : Char) : Option ℕ :=
  if c.isDigit then some (c.toNat - '0'.toNat)
  else if 'a' ≤ c ∧ c ≤ 'f' then some (c.toNat - 'a'.toNat + 10)
  else if 'A' ≤ c ∧ c ≤ 'F' then some (c.toNat - 'A'.toNat + 10)
  else none

/-- The value of a sequence of hexadecimal digits. -/
def ofHexDigits (ds : Str) : ℕ := ds.foldl (fun n c => 16 * n + (hexDigit c).getD 0) 0

/-- The double that a sequence of hexadecimal digits stands for: it is rounded after each digit. -/
def hexStrtod (ds : Str) : Float.Model :=
  ds.foldl (fun d c => d * Float.Model.ofNat 16 + Float.Model.ofNat ((hexDigit c).getD 0))
    (Float.Model.ofNat 0)

/-- The hexadecimal number at the start of a string, which PHP 5 reads as a number too. -/
def hexadecimal : Str → Option (Number × Str)
  | '0' :: x :: s =>
    if x = 'x' ∨ x = 'X' then
      match s.span fun c => (hexDigit c).isSome with
      | ([], _) => none
      | (ds, rest) =>
        some (if IsLong (ofHexDigits ds) then .long (ofHexDigits ds) else .double (hexStrtod ds) 1,
          rest)
    else none
  | _ => none

/-- The number at the start of a string, after white space, and what follows it. -/
def leadingNumber (s : Str) : Option (Number × Str) :=
  let s := s.dropWhile isSpace
  (hexadecimal s).or (decimal s)

/-- The number a numeric string stands for. -/
def numeric? (s : Str) : Option Number :=
  match leadingNumber s with
  | some (x, []) => some x
  | _ => none

/-- A string converted to a number: the number it starts with, or zero. -/
def toNumber (s : Str) : Number :=
  match leadingNumber s with
  | some (x, _) => x
  | none => .long 0

/-! ## The comparison `==` -/

/-- A number compared with an integer of the machine. -/
def Number.EqualsInt : Number → Int → Prop
  | .long m, n => m = n
  | .double d _, n => (d == Float.Model.ofInt n) = true

instance : (x : Number) → (n : Int) → Decidable (x.EqualsInt n)
  | .long m, n => inferInstanceAs (Decidable (m = n))
  | .double _ _, _ => inferInstanceAs (Decidable (_ = true))

/-- `$x >= n`. -/
def Number.AtLeast : Number → Int → Prop
  | .long m, n => n ≤ m
  | .double d _, n => Float.Model.ofInt n ≤ d

instance : (x : Number) → (n : Int) → Decidable (x.AtLeast n)
  | .long m, n => inferInstanceAs (Decidable (n ≤ m))
  | .double d _, n => inferInstanceAs (Decidable (Float.Model.ofInt n ≤ d))

/-- The numbers of two numeric strings are equal.  An integer of the machine is not equal to one too
    large for it; and two that are too large on the same side, or infinite, are not compared as
    numbers. -/
def Number.Equals : Number → Number → Prop
  | .long m, .long n => m = n
  | .long m, .double d oflow => oflow = 0 ∧ (Float.Model.ofInt m == d) = true
  | .double d oflow, .long n => oflow = 0 ∧ (d == Float.Model.ofInt n) = true
  | .double d oflow, .double d' oflow' =>
    ¬(oflow ≠ 0 ∧ oflow = oflow') ∧ d.isFinite = true ∧ (d == d') = true

instance : (x y : Number) → Decidable (x.Equals y)
  | .long m, .long n => inferInstanceAs (Decidable (m = n))
  | .long _, .double _ _ => inferInstanceAs (Decidable (_ ∧ _))
  | .double _ _, .long _ => inferInstanceAs (Decidable (_ ∧ _))
  | .double _ _, .double _ _ => inferInstanceAs (Decidable (_ ∧ _))

/-- An integer compared with a string.  PHP has no integer outside the machine's; the model keeps
    one by its decimal text. -/
def EqualsText (n : Int) (s : Str) : Prop :=
  if IsLong n then (toNumber s).EqualsInt n else s = ofInt n

instance (n : Int) (s : Str) : Decidable (EqualsText n s) :=
  inferInstanceAs (Decidable (if IsLong n then (toNumber s).EqualsInt n else s = ofInt n))

/-- `$a == $b`.  Two numeric strings are compared as numbers, and so is a string with an
    integer. -/
def looseEq : Val → Val → Bool
  | .null, .null => true
  | .null, .int n => n = 0
  | .int n, .null => n = 0
  | .null, .str s => s = []
  | .str s, .null => s = []
  | .int m, .int n => m = n
  | .int n, .str s => EqualsText n s
  | .str s, .int n => EqualsText n s
  | .str s, .str t =>
    match numeric? s, numeric? t with
    | some x, some y => x.Equals y ∨ s = t
    | _, _ => s = t

/-- Two strings are equal when they are one, or numeric strings of equal numbers. -/
theorem looseEq_str_iff (s t : Str) :
    looseEq (.str s) (.str t) = true ↔
      s = t ∨ ∃ x y, numeric? s = some x ∧ numeric? t = some y ∧ x.Equals y := by
  cases hs : numeric? s with
  | none => simp [looseEq, hs]
  | some x =>
    cases ht : numeric? t with
    | none => simp [looseEq, hs, ht]
    | some y => simp [looseEq, hs, ht, or_comm]

@[simp] theorem looseEq_int (m n : Int) : looseEq (.int m) (.int n) = decide (m = n) := rfl

theorem looseEq_str_int (s : Str) (n : Int) :
    looseEq (.str s) (.int n) = decide (EqualsText n s) := rfl

/-- Doubles are compared once rounded. -/
example : looseEq (.str "2.00000000000000001".toList) (.str "2.00000000000000002".toList) = true ∧
    looseEq (.int 9007199254740993) (.str "9007199254740992e0".toList) = true := by
  decide +kernel

/-- Only the empty string equals the empty string. -/
theorem looseEq_nil (s : Str) : looseEq (.str s) (.str []) = decide (s = []) := by
  have hnil : numeric? [] = none := rfl
  cases h : numeric? s <;> simp [looseEq, h, hnil]

/-! ### Numbers in decimal notation -/

theorem span_digits {ds : Str} (hd : ∀ c ∈ ds, c.isDigit = true) :
    ds.span Char.isDigit = (ds, []) := by
  have h1 : (ds ++ []).takeWhile Char.isDigit = ds ++ [].takeWhile Char.isDigit :=
    List.takeWhile_append_of_pos hd
  have h2 : (ds ++ []).dropWhile Char.isDigit = [].dropWhile Char.isDigit :=
    List.dropWhile_append_of_pos hd
  rw [List.append_nil] at h1 h2
  rw [List.span_eq_takeWhile_dropWhile, h1, h2]
  simp

theorem decimal_digits {ds : Str} (hne : ds ≠ []) (hd : ∀ c ∈ ds, c.isDigit = true) :
    decimal ds = some (.integer (ofDigits ds), []) := by
  have hs : sign ds = (false, ds) := by
    unfold sign
    split
    · exact absurd (hd '-' (by simp)) (by decide)
    · exact absurd (hd '+' (by simp)) (by decide)
    · rfl
  have hf : ∀ b, fraction b [] = ([], []) := fun _ => rfl
  unfold decimal
  rw [hs]
  simp only [span_digits hd, hf, exponent]
  simp [hne]

theorem hexadecimal_digits {ds : Str} (hd : ∀ c ∈ ds, c.isDigit = true) :
    hexadecimal ds = none := by
  unfold hexadecimal
  split
  · rename_i x s
    have hx := hd x (by simp)
    rw [if_neg]
    rintro (rfl | rfl) <;> exact absurd hx (by decide)
  · rfl

theorem not_isSpace_of_isDigit {c : Char} (hc : c.isDigit = true) : isSpace c = false := by
  by_contra h
  simp only [Bool.not_eq_false, isSpace, decide_eq_true_eq] at h
  revert hc
  fin_cases h <;> decide

theorem leadingNumber_digits {ds : Str} (hne : ds ≠ []) (hd : ∀ c ∈ ds, c.isDigit = true) :
    leadingNumber ds = some (.integer (ofDigits ds), []) := by
  have hsp : ds.dropWhile isSpace = ds := by
    cases ds with
    | nil => rfl
    | cons c ds =>
      rw [List.dropWhile_cons, if_neg (by simp [not_isSpace_of_isDigit (hd c (by simp))])]
  unfold leadingNumber
  simp only [hsp, hexadecimal_digits hd, decimal_digits hne hd, Option.none_or]

/-- A minus sign before the digits. -/
theorem leadingNumber_neg_digits {ds : Str} (hne : ds ≠ []) (hd : ∀ c ∈ ds, c.isDigit = true) :
    leadingNumber ('-' :: ds) = some (.integer (-(ofDigits ds : Int)), []) := by
  have hsp : ('-' :: ds).dropWhile isSpace = '-' :: ds := rfl
  have hx : hexadecimal ('-' :: ds) = none := by
    unfold hexadecimal
    split
    · rename_i heq
      exact absurd (List.cons.inj heq).1 (by decide)
    · rfl
  have hf : ∀ b, fraction b [] = ([], []) := fun _ => rfl
  have hdec : decimal ('-' :: ds) = some (.integer (-(ofDigits ds : Int)), []) := by
    unfold decimal
    have hs : sign ('-' :: ds) = (true, ds) := rfl
    rw [hs]
    simp only [span_digits hd, hf, exponent]
    simp [hne]
  unfold leadingNumber
  simp only [hsp, hx, hdec, Option.none_or]

theorem leadingNumber_ofInt (n : Int) : leadingNumber (ofInt n) = some (.integer n, []) := by
  have hd : ∀ (m : ℕ), ∀ c ∈ Nat.toDigits 10 m, c.isDigit = true := fun m c hc =>
    Nat.isDigit_of_mem_toDigits (by decide) (by decide) hc
  have hval : ∀ m : ℕ, ofDigits (Nat.toDigits 10 m) = m := fun m => Nat.ofDigitChars_ten_toDigits
  cases n with
  | ofNat m =>
    have h := leadingNumber_digits Nat.toDigits_ne_nil (hd m)
    rwa [hval] at h
  | negSucc m =>
    have h := leadingNumber_neg_digits Nat.toDigits_ne_nil (hd (m + 1))
    rwa [hval] at h

theorem numeric?_ofInt (n : Int) : numeric? (ofInt n) = some (.integer n) := by
  unfold numeric?; rw [leadingNumber_ofInt]

theorem toNumber_ofInt (n : Int) : toNumber (ofInt n) = .integer n := by
  unfold toNumber; rw [leadingNumber_ofInt]

theorem Number.integer_of_isLong {n : Int} (h : IsLong n) : Number.integer n = .long n :=
  if_pos h

/-- The text of an integer equals it. -/
theorem equalsText_ofInt (n : Int) : EqualsText n (ofInt n) := by
  unfold EqualsText
  split
  · rename_i h
    rw [toNumber_ofInt, Number.integer_of_isLong h]
    exact rfl
  · rfl

/-- A value equals the string that it is converted to. -/
theorem looseEq_toStr : ∀ v : Val, looseEq v (.str v.toStr) = true
  | .null => rfl
  | .int n => decide_eq_true (equalsText_ofInt n)
  | .str s => (looseEq_str_iff s s).2 (Or.inl rfl)

theorem looseEq_refl : ∀ v : Val, looseEq v v = true
  | .null => rfl
  | .int n => by rw [looseEq_int, decide_eq_true rfl]
  | .str s => looseEq_toStr (.str s)

/-- Integers with one text are one. -/
theorem ofInt_natCast_inj {m n : ℕ} : ofInt m = ofInt n ↔ m = n :=
  ⟨fun h => toDigits_injective h, fun h => by rw [h]⟩

/-- The text of an integer does not equal a greater one. Beyond the integers of the machine, a
    smaller one can equal the text: the double nearest to it. -/
theorem looseEq_ofInt_int {m n : ℕ} (h : m ≤ n) :
    looseEq (.str (ofInt m)) (.int n) = decide (m = n) := by
  rw [looseEq_str_int, decide_eq_decide]
  by_cases hn : IsLong n
  · have hm : IsLong m := by
      unfold IsLong at hn ⊢
      omega
    rw [EqualsText, if_pos hn, toNumber_ofInt, Number.integer_of_isLong hm]
    exact Int.ofNat_inj
  · rw [EqualsText, if_neg hn]
    exact ofInt_natCast_inj

/-- A natural number that is no integer of the machine is too large on the positive side. -/
theorem sign_of_not_isLong {n : ℕ} (h : ¬IsLong n) : (n : Int).sign = 1 := by
  unfold IsLong at h
  exact Int.sign_eq_one_of_pos (by omega)

/-- Numeric strings that denote integers are equal when the integers are, of any size. -/
theorem equals_integer {m n : ℕ} (h : (Number.integer m).Equals (Number.integer n)) : m = n := by
  unfold Number.integer at h
  by_cases hm : IsLong m
  · by_cases hn : IsLong n
    · rw [if_pos hm, if_pos hn] at h
      exact Int.ofNat_inj.1 h
    · -- only one of them is too large
      rw [if_pos hm, if_neg hn, sign_of_not_isLong hn] at h
      exact absurd h.1 one_ne_zero
  · by_cases hn : IsLong n
    · rw [if_neg hm, if_pos hn, sign_of_not_isLong hm] at h
      exact absurd h.1 one_ne_zero
    · -- both are too large, on the same side
      rw [if_neg hm, if_neg hn, sign_of_not_isLong hm, sign_of_not_isLong hn] at h
      exact absurd ⟨one_ne_zero, rfl⟩ h.1

theorem looseEq_ofInt_str (m n : ℕ) :
    looseEq (.str (ofInt m)) (.str (ofInt n)) = decide (m = n) := by
  rw [Bool.eq_iff_iff, looseEq_str_iff, decide_eq_true_iff, ofInt_natCast_inj,
    numeric?_ofInt, numeric?_ofInt]
  constructor
  · rintro (h | ⟨x, y, hx, hy, h⟩)
    · exact h
    · rw [← Option.some.inj hx, ← Option.some.inj hy] at h
      exact equals_integer h
  · exact Or.inl

/-- The text of a natural number does not equal minus one. -/
theorem looseEq_ofInt_neg_one (n : ℕ) : looseEq (.str (ofInt n)) (.int (-1)) = false := by
  have hlong : IsLong (-1) := by
    unfold IsLong
    omega
  rw [looseEq_str_int, decide_eq_false_iff_not, EqualsText, if_pos hlong, toNumber_ofInt]
  by_cases hn : IsLong n
  · rw [Number.integer_of_isLong hn]
    show ¬(n : Int) = -1
    omega
  · rw [Number.integer, if_neg hn]
    show ¬(Float.Model.ofInt n == Float.Model.ofInt (-1)) = true
    rw [Float.Model.ofInt_natCast_beq_neg_one]
    exact Bool.false_ne_true

/-! ## Arrays -/

/-- A key of an array. -/
inductive Key where
  | int (n : Int)
  | str (s : Str)
deriving DecidableEq

/-- The integer a string key is turned into: only the decimal notation of an integer of
    the machine is. -/
def integerKey (s : Str) : Option Int :=
  let (neg, ds) := match s with
    | '-' :: ds => (true, ds)
    | ds => (false, ds)
  let n : Int := if neg then -(ofDigits ds : Int) else ofDigits ds
  if ds ≠ [] ∧ ds.all Char.isDigit ∧ ofInt n = s ∧ IsLong n then some n else none

/-- The key a value is turned into. -/
def Key.ofVal : Val → Key
  | .null => .str []
  | .int n => .int n
  | .str s => match integerKey s with
    | some n => .int n
    | none => .str s

/-- A key as a value, as `foreach` hands it out. -/
def Key.toVal : Key → Val
  | .int n => .int n
  | .str s => .str s

theorem ofInt_of_integerKey {s : Str} {n : Int} (h : integerKey s = some n) : ofInt n = s := by
  unfold integerKey at h
  split at h
  simp only [Option.ite_none_right_eq_some] at h
  obtain ⟨⟨-, -, hs, -⟩, hn⟩ := h
  rw [← Option.some.inj hn]
  exact hs

theorem isLong_of_integerKey {s : Str} {n : Int} (h : integerKey s = some n) : IsLong n := by
  unfold integerKey at h
  split at h
  simp only [Option.ite_none_right_eq_some] at h
  obtain ⟨⟨-, -, -, hlong⟩, hn⟩ := h
  rw [← Option.some.inj hn]
  exact hlong

/-- A string that has become a key is printed as it was. -/
theorem Key.toStr_ofVal (s : Str) : (Key.ofVal (.str s)).toVal.toStr = s := by
  cases h : integerKey s with
  | none => simp only [Key.ofVal, h, Key.toVal, Val.toStr_str]
  | some n => simp only [Key.ofVal, h, Key.toVal, Val.toStr_int, ofInt_of_integerKey h]

/-- The key a string is turned into. -/
def Key.ofStr (s : Str) : Key := Key.ofVal (.str s)

theorem Key.ofStr_injective : Function.Injective Key.ofStr := by
  intro s t h
  rw [← Key.toStr_ofVal s, ← Key.toStr_ofVal t]
  exact congrArg (fun k => k.toVal.toStr) h

/-- A key made of `s` denotes the same number as the text `t`.  A decimal key is an integer, and is
    compared with the number that `t` starts with, zero when it starts with none; another key is
    only compared as a number when both texts are one. -/
def SameNumber (s t : Str) : Prop :=
  match integerKey s with
  | some n => (toNumber t).EqualsInt n
  | none => ∃ x y, numeric? s = some x ∧ numeric? t = some y ∧ x.Equals y

/-- **A key compares equal** to its own name and to the texts that denote the same number. -/
theorem looseEq_ofStr_iff (s t : Str) :
    looseEq (Key.ofStr s).toVal (.str t) = true ↔ s = t ∨ SameNumber s t := by
  unfold SameNumber
  cases hkey : integerKey s with
  | none =>
    simp only [Key.ofStr, Key.ofVal, hkey, Key.toVal]
    exact looseEq_str_iff s t
  | some n =>
    simp only [Key.ofStr, Key.ofVal, hkey, Key.toVal, looseEq, decide_eq_true_iff]
    have htext : EqualsText n t ↔ (toNumber t).EqualsInt n := by
      unfold EqualsText
      rw [if_pos (isLong_of_integerKey hkey)]
    constructor
    · intro h
      exact Or.inr (htext.1 h)
    · rintro (rfl | h)
      · rw [← ofInt_of_integerKey hkey]
        exact equalsText_ofInt n
      · exact htext.2 h

/-- An array: its entries, in order. -/
abbrev Arr (α : Type) := List (Key × α)

/-- `$array[$index]`. -/
def Arr.get? {α : Type} (a : Arr α) (index : Val) : Option α := a.lookup (Key.ofVal index)

/-- `$array[$k] = $x`: an entry that exists keeps its place. -/
def Arr.set {α : Type} (a : Arr α) (k : Key) (x : α) : Arr α :=
  if k ∈ a.map Prod.fst then a.map fun e => if e.1 = k then (k, x) else e else a ++ [(k, x)]

end Php
