/-
  The sign of a double.

  Lean's `Float.Model` is the IEEE format binary64, with rounding to the nearest number and ties
  to even.  A number that is not negative stays so when it is rounded, and does not equal a
  negative one.
-/
import Mathlib

namespace Float.Model

namespace UnpackedFloat

/-- The sign of an unpacked float; one that is not a number counts as positive. -/
def sign : UnpackedFloat → Sign
  | .infinity s => s
  | .notANumber => .positive
  | .zero s => s
  | .finite s _ _ _ => s

theorem sign_unpack_packComponents {spec : Format} {exponent : BitVec spec.exponentBits}
    {mantissa : BitVec spec.mantissaBitsWithoutImplicit} :
    (unpack spec (packComponents spec .positive exponent mantissa)).sign = .positive := by
  unfold unpack
  simp only [unpackSign_packComponents, Sign.ofBitVec_toBitVec]
  split
  · split <;> rfl
  · split
    · split <;> rfl
    · rfl

/-- A number that is not negative is not after it has been packed. -/
theorem sign_unpack_pack {spec : Format} {u : UnpackedFloat} (h : u.sign = .positive) :
    (unpack spec (pack spec u)).sign = .positive := by
  cases u with
  | infinity s =>
    obtain rfl : s = .positive := h
    exact sign_unpack_packComponents
  | notANumber => exact sign_unpack_packComponents
  | zero s =>
    obtain rfl : s = .positive := h
    exact sign_unpack_packComponents
  | finite s m e hm =>
    obtain rfl : s = .positive := h
    unfold pack
    simp only
    split
    · exact sign_unpack_packComponents
    · split <;> exact sign_unpack_packComponents

theorem sign_round (spec : Format) (s : Sign) (m : ℕ) (e : ℤ) : (round spec s m e).sign = s := by
  unfold round roundWithAccuracy
  simp only
  split <;> rfl

/-- A natural number is rounded to a number that is not negative. -/
theorem sign_ofInt_natCast (spec : Format) (n : ℕ) : (ofInt spec n).sign = .positive := by
  unfold ofInt normalize
  split
  · rename_i hlt
    rw [Int.compare_eq_lt] at hlt
    omega
  · rfl
  · exact sign_round ..

/-- A number that is not negative does not equal one below zero. -/
theorem beq_eq_false_of_sign {u : UnpackedFloat} (hu : u.sign = .positive) {m : ℕ} {e : ℤ}
    {hm : 0 < m} : u.beq (.finite .negative m e hm) = false := by
  cases u with
  | notANumber => rfl
  | infinity s =>
    obtain rfl : s = .positive := hu
    rfl
  | zero s =>
    obtain rfl : s = .positive := hu
    rfl
  | finite s m' e' hm' =>
    obtain rfl : s = .positive := hu
    rfl

end UnpackedFloat

/-- The double nearest to a natural number is not that of minus one. -/
theorem ofInt_natCast_beq_neg_one (n : ℕ) : (ofInt n == ofInt (-1)) = false := by
  have hneg : (ofInt (-1)).unpack = .finite .negative (2 ^ 52) (-52) (by decide) := by
    rfl
  have hpos : (ofInt n).unpack.sign = .positive :=
    UnpackedFloat.sign_unpack_pack (UnpackedFloat.sign_ofInt_natCast _ n)
  show (ofInt n).unpack.beq (ofInt (-1)).unpack = false
  rw [hneg]
  exact UnpackedFloat.beq_eq_false_of_sign hpos

end Float.Model
