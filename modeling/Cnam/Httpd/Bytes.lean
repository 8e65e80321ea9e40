/-
  Bytes, and how the C code classifies them (in the `C` locale); the `int`s of the machine.
-/
import Mathlib.Data.Int.ModEq
import Mathlib.Data.List.Basic
import Mathlib.Tactic.Common
import Mathlib.Tactic.IntervalCases

namespace Httpd

/-- Bytes, with their length. -/
abbrev Bytes := List UInt8

/-- An `int`, which wraps. -/
def int32 (n : ℤ) : ℤ := n.bmod (2 ^ 32)

theorem int32_modEq (n : ℤ) : int32 n ≡ n [ZMOD 2 ^ 32] := Int.bmod_emod

theorem int32_congr {m n : ℤ} (h : m ≡ n [ZMOD 2 ^ 32]) : int32 m = int32 n := by
  rw [int32, int32, Int.bmod_def, Int.bmod_def]
  have hmod : m % ((2 ^ 32 : ℕ) : ℤ) = n % ((2 ^ 32 : ℕ) : ℤ) := h
  rw [hmod]

theorem int32_of_fits {n : ℤ} (hlow : -2 ^ 31 ≤ n) (hhigh : n < 2 ^ 31) : int32 n = n := by
  rw [int32, Int.bmod_def]
  split_ifs <;> omega

/-- A tab. -/
abbrev TAB : UInt8 := 9
/-- A line feed. -/
abbrev LF : UInt8 := 10
/-- A carriage return. -/
abbrev CR : UInt8 := 13
/-- A space. -/
abbrev SP : UInt8 := 32

/-- `apr_isdigit`. -/
def isdigit (c : UInt8) : Bool := 48 ≤ c && c ≤ 57

/-- `apr_isxdigit`. -/
def isxdigit (c : UInt8) : Bool := isdigit c || 65 ≤ c && c ≤ 70 || 97 ≤ c && c ≤ 102

/-- `apr_iscntrl`. -/
def iscntrl (c : UInt8) : Bool := c < 32 || c == 127

/-- The value of a hexadecimal digit. -/
def xvalue (c : UInt8) : ℕ :=
  if isdigit c then c.toNat - 48 else if c ≤ 70 then c.toNat - 65 + 10 else c.toNat - 97 + 10

/-- The number that hexadecimal digits are, after a number `n`. -/
def hexFrom (n : ℕ) (digits : Bytes) : ℕ := digits.foldl (fun n c => n * 16 + xvalue c) n

/-- `%x` -/
def hexDigits (n : ℕ) : Bytes := (Nat.toDigits 16 n).map fun c => .ofNat c.toNat

@[simp] theorem hexFrom_cons (n : ℕ) (c : UInt8) (digits : Bytes) :
    hexFrom n (c :: digits) = hexFrom (n * 16 + xvalue c) digits := rfl

theorem hexFrom_append (n : ℕ) (digits digits' : Bytes) :
    hexFrom n (digits ++ digits') = hexFrom (hexFrom n digits) digits' := List.foldl_append

/-- What can be checked for each of the 256 bytes. -/
theorem forall_byte {P : UInt8 → Prop} (h : ∀ n < 256, P (.ofNat n)) (c : UInt8) : P c := by
  have hc := h c.toNat c.toNat_lt
  rwa [UInt8.ofNat_toNat] at hc

theorem xvalue_lt (c : UInt8) : isxdigit c = true → xvalue c < 16 :=
  forall_byte (P := fun c => isxdigit c = true → xvalue c < 16) (by decide +kernel) c

theorem xvalue_eq_zero (c : UInt8) : isxdigit c = true → (xvalue c = 0 ↔ c = '0'.toUInt8) :=
  forall_byte (P := fun c => isxdigit c = true → (xvalue c = 0 ↔ c = '0'.toUInt8))
    (by decide +kernel) c

theorem le_hexFrom (n : ℕ) (digits : Bytes) : n ≤ hexFrom n digits := by
  induction digits generalizing n with
  | nil => exact le_rfl
  | cons c digits ih => exact (show n ≤ n * 16 + xvalue c by omega).trans (ih _)

end Httpd
