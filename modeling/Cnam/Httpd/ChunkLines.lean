/-
  The lines that `parse_chunk_size` reads: a size in hexadecimal digits, at most ten blanks,
  extensions, and the end of the line. The lines it takes are exactly those whose size an
  `apr_off_t` holds, however they come in pieces.
-/
import Cnam.Httpd.HttpFilters
import Mathlib.Data.Nat.Digits.Lemmas
import Mathlib.Tactic.SplitIfs

namespace Httpd

/-! ## The grammar -/

/-- The end of a line; a lenient server takes a bare `LF`. -/
def Eol (strict : Bool) (eol : Bytes) : Prop := eol = [CR, LF] ∨ strict = false ∧ eol = [LF]

/-- No control character, but for the tab. -/
def ExtensionChar (c : UInt8) : Prop := c = TAB ∨ iscntrl c = false

instance : DecidablePred ExtensionChar := fun _ => inferInstanceAs (Decidable (_ ∨ _))

/-- Nothing, or a semicolon and what comes after it. -/
def Extensions (ext : Bytes) : Prop :=
  ext = [] ∨ ∃ chars, ext = ';'.toUInt8 :: chars ∧ ∀ c ∈ chars, ExtensionChar c

/-- At most ten of them. -/
def Blanks (blanks : Bytes) : Prop := blanks.length ≤ 10 ∧ ∀ c ∈ blanks, c = SP ∨ c = TAB

/-- The digits of a size. -/
structure Digits (size : ℕ) (digits : Bytes) : Prop where
  some : digits ≠ []
  xdigit : ∀ c ∈ digits, isxdigit c = true
  value : hexFrom 0 digits = size
  fits : size < 2 ^ 63

/-- The line of a chunk of this size. -/
def ChunkLine (strict : Bool) (size : ℕ) (line : Bytes) : Prop :=
  ∃ digits blanks ext eol, line = digits ++ (blanks ++ (ext ++ eol)) ∧ Digits size digits ∧
    Blanks blanks ∧ Extensions ext ∧ Eol strict eol

/-! ## Single bytes -/

/-- The bytes that a line may go on with, and what they make of the position. -/
inductive SizeStep (strict : Bool) (ctx : Position) : UInt8 → Position → Prop
  | lf : (strict = true → ctx.state = .chunkLf) →
      SizeStep strict ctx LF { ctx with state := if ctx.remaining ≠ 0 then .chunkData
                                                 else .chunkTrailer }
  | cr : ctx.state ≠ .chunkLf → SizeStep strict ctx CR { ctx with state := .chunkLf }
  | semicolon : ctx.state ≠ .chunkLf →
      SizeStep strict ctx ';'.toUInt8 { ctx with state := .chunkExt }
  | ext {c} : ctx.state = .chunkExt → ExtensionChar c → SizeStep strict ctx c ctx
  | blank {c} : ctx.state ≠ .chunkLf → ctx.state ≠ .chunkExt → c = SP ∨ c = TAB →
      ctx.chunkBws < 10 →
      SizeStep strict ctx c { ctx with state := .chunkCr, chunkBws := ctx.chunkBws + 1 }
  | zero : ctx.state = .chunkPart → ctx.remaining = 0 → SizeStep strict ctx '0'.toUInt8 ctx
  | digit {c} : ctx.state = .chunkPart → isxdigit c = true →
      ¬ (ctx.remaining = 0 ∧ c = '0'.toUInt8) → 4 ≤ ctx.chunkbits →
      0 ≤ off (ctx.remaining * 16 + xvalue c) →
      SizeStep strict ctx c { ctx with chunkbits := ctx.chunkbits - 4,
                                       remaining := off (ctx.remaining * 16 + xvalue c) }

theorem isxdigit_ne {c d : UInt8} (h : isxdigit c = true) (hd : isxdigit d = false) : c ≠ d := by
  rintro rfl
  exact absurd h (by simp [hd])

theorem extensionChar_ne {c : UInt8} (h : ExtensionChar c) : c ≠ LF ∧ c ≠ CR := by
  constructor <;>
  · rintro rfl
    exact absurd h (by decide)

section
variable {strict : Bool} {ctx ctx' : Position} {c : UInt8}

theorem SizeStep.sizeByte (h : SizeStep strict ctx c ctx') :
    sizeByte strict ctx c = (.success, ctx') := by
  cases h with
  | lf hstate =>
    have hok : ¬ (strict = true ∧ ctx.state ≠ .chunkLf) := fun h => h.2 (hstate h.1)
    rw [Httpd.sizeByte, if_pos rfl, if_neg hok]
    split_ifs <;> rfl
  | cr hstate => rw [Httpd.sizeByte, if_neg (by decide), if_neg hstate, if_pos rfl]
  | semicolon hstate =>
    rw [Httpd.sizeByte, if_neg (by decide), if_neg hstate, if_neg (by decide), if_pos rfl]
  | ext hstate hc =>
    obtain ⟨hlf, hcr⟩ := extensionChar_ne hc
    have hctx : { ctx with state := .chunkExt } = ctx := by rw [← hstate]
    have hok : ¬ (c ≠ TAB ∧ iscntrl c = true) := by
      rintro ⟨htab, hcntrl⟩
      rcases hc with rfl | hc
      · exact htab rfl
      · exact absurd hcntrl (by simp [hc])
    rw [Httpd.sizeByte, if_neg hlf, if_neg (by rw [hstate]; decide), if_neg hcr, if_pos hstate,
      if_neg hok, hctx, ite_self]
  | blank hlf hext hc hbws =>
    have hne : c ≠ LF ∧ c ≠ CR ∧ c ≠ ';'.toUInt8 := by rcases hc with rfl | rfl <;> decide
    rw [Httpd.sizeByte, if_neg hne.1, if_neg hlf, if_neg hne.2.1, if_neg hne.2.2, if_neg hext,
      if_pos hc]
    exact if_neg (by show ¬ ctx.chunkBws + 1 > 10; omega)
  | zero hstate hzero =>
    rw [Httpd.sizeByte, if_neg (by decide), if_neg (by rw [hstate]; decide), if_neg (by decide),
      if_neg (by decide), if_neg (by rw [hstate]; decide), if_neg (by decide),
      if_neg (by rw [hstate]; decide), if_pos hstate, if_pos ⟨hzero, rfl⟩]
  | digit hstate hdigit hsome hbits hoff =>
    have hne := fun d hd => isxdigit_ne (d := d) hdigit hd
    rw [Httpd.sizeByte, if_neg (hne LF (by decide)), if_neg (by rw [hstate]; decide),
      if_neg (hne CR (by decide)), if_neg (hne _ (by decide)), if_neg (by rw [hstate]; decide),
      if_neg (not_or.2 ⟨hne SP (by decide), hne TAB (by decide)⟩),
      if_neg (by rw [hstate]; decide), if_pos hstate, if_neg hsome]
    refine (if_neg (by show ¬ ctx.chunkbits - 4 < 0; omega)).trans ?_
    refine (if_neg (by simp [hdigit])).trans (if_neg ?_)
    show ¬ off (ctx.remaining * 16 + xvalue c) < 0
    omega

/-- **A byte of a line** is taken in these cases only. -/
theorem sizeByte_success :
    sizeByte strict ctx c = (.success, ctx') ↔ SizeStep strict ctx c ctx' := by
  refine ⟨fun h => ?_, SizeStep.sizeByte⟩
  rw [Httpd.sizeByte] at h
  by_cases hlf : c = LF
  · rw [if_pos hlf] at h
    subst hlf
    by_cases hbad : strict = true ∧ ctx.state ≠ .chunkLf
    · simp [hbad] at h
    · have hstate : strict = true → ctx.state = .chunkLf := by
        intro hstrict
        by_contra hne
        exact hbad ⟨hstrict, hne⟩
      have hstep : SizeStep strict ctx LF _ := .lf hstate
      rw [if_neg hbad] at h
      split_ifs at h hstep <;>
      · rw [← (Prod.mk.inj h).2]
        exact hstep
  rw [if_neg hlf] at h
  by_cases hstate : ctx.state = .chunkLf
  · simp [hstate] at h
  rw [if_neg hstate] at h
  by_cases hcr : c = CR
  · rw [if_pos hcr] at h
    rw [← (Prod.mk.inj h).2, hcr]
    exact .cr hstate
  rw [if_neg hcr] at h
  by_cases hsemi : c = ';'.toUInt8
  · rw [if_pos hsemi] at h
    rw [← (Prod.mk.inj h).2, hsemi]
    exact .semicolon hstate
  rw [if_neg hsemi] at h
  by_cases hext : ctx.state = .chunkExt
  · rw [if_pos hext] at h
    by_cases hcntrl : c ≠ TAB ∧ iscntrl c = true
    · simp [hcntrl] at h
    · rw [if_neg hcntrl] at h
      rw [← (Prod.mk.inj h).2]
      refine .ext hext ?_
      by_contra hc
      obtain ⟨htab, hc⟩ := not_or.1 hc
      exact hcntrl ⟨htab, by simpa using hc⟩
  rw [if_neg hext] at h
  by_cases hblank : c = SP ∨ c = TAB
  · rw [if_pos hblank] at h
    by_cases hbws : ctx.chunkBws + 1 > 10
    · simp [hbws] at h
    · simp only [hbws, if_false] at h
      rw [← (Prod.mk.inj h).2]
      exact .blank hstate hext hblank (by omega)
  rw [if_neg hblank] at h
  by_cases hcr' : ctx.state = .chunkCr
  · simp [hcr'] at h
  rw [if_neg hcr'] at h
  by_cases hpart : ctx.state = .chunkPart
  · rw [if_pos hpart] at h
    by_cases hzero : ctx.remaining = 0 ∧ c = '0'.toUInt8
    · rw [if_pos hzero] at h
      rw [← (Prod.mk.inj h).2, hzero.2]
      exact .zero hpart hzero.1
    · rw [if_neg hzero] at h
      by_cases hbits : ctx.chunkbits - 4 < 0
      · simp [hbits] at h
      by_cases hdigit : isxdigit c = true
      · by_cases hoff : off (ctx.remaining * 16 + xvalue c) < 0
        · simp [hbits, hdigit, hoff] at h
        · simp only [hbits, hdigit, hoff, not_true_eq_false, if_false] at h
          rw [← (Prod.mk.inj h).2]
          exact .digit hpart hdigit hzero (by omega) (by omega)
      · simp [hbits, hdigit] at h
  · simp [hpart] at h

end

/-! ## Turns of the loop -/

/-- The states of a line that has begun. -/
def BodyState.InLine (s : BodyState) : Prop :=
  s = .chunkPart ∨ s = .chunkExt ∨ s = .chunkCr ∨ s = .chunkLf

/-- The states in which the filter reads lines. -/
def BodyState.Lines (s : BodyState) : Prop :=
  s = .chunk ∨ s.InLine ∨ s = .chunkEnd ∨ s = .chunkEndLf

/-- The position at the first digit of a line. -/
def Position.lineStart : Position :=
  { state := .chunkPart, remaining := 0, chunkbits := 64, chunkUsed := 0, chunkBws := 0 }

section
variable {strict : Bool} {ctx ctx' : Position} {c : UInt8}

theorem lineByte_inLine (hstate : ctx.state.InLine) :
    lineByte strict ctx c = (.success, ctx') ↔ SizeStep strict ctx c ctx' := by
  rw [← sizeByte_success]
  rcases hstate with h | h | h | h <;> simp [lineByte, h]

theorem lineByte_chunk (hstate : ctx.state = .chunk) :
    lineByte strict ctx c = (.success, ctx') ↔
      isxdigit c = true ∧ SizeStep strict .lineStart c ctx' := by
  have hne : ¬ (ctx.state = .chunkEnd ∨ ctx.state = .chunkEndLf) := by simp [hstate]
  rw [lineByte, if_neg hne, if_pos hstate]
  by_cases hc : isxdigit c = true
  · rw [if_neg (not_not.2 hc), ← sizeByte_success]
    simp [hc, Position.lineStart]
  · simp [hc]

theorem lineByte_end (hstate : ctx.state = .chunkEnd ∨ ctx.state = .chunkEndLf) :
    lineByte strict ctx c = (.success, ctx') ↔
      c = LF ∧ (strict = true → ctx.state = .chunkEndLf) ∧ ctx' = { ctx with state := .chunk } ∨
        c = CR ∧ ctx.state = .chunkEnd ∧ ctx' = { ctx with state := .chunkEndLf } := by
  have hlfcr : (LF = CR) = False := by decide
  have hcrlf : (CR = LF) = False := by decide
  rw [lineByte, if_pos hstate]
  by_cases hlf : c = LF
  · rcases hstate with h | h
    · by_cases hs : strict = true <;> simp [h, hlf, hs, hlfcr, eq_comm (a := ctx')]
    · simp [h, hlf, eq_comm (a := ctx')]
  · by_cases hcr : c = CR
    · rcases hstate with h | h <;> simp [h, hcr, hcrlf, eq_comm (a := ctx')]
    · simp [hlf, hcr]

theorem SizeStep.chunkUsed (h : SizeStep strict ctx c ctx') : ctx'.chunkUsed = ctx.chunkUsed := by
  cases h <;> rfl

theorem SizeStep.inLine (h : SizeStep strict ctx c ctx') (hc : c ≠ LF)
    (hline : ctx.state.InLine) : ctx'.state.InLine := by
  cases h with
  | lf => exact absurd rfl hc
  | cr | semicolon | blank => simp [BodyState.InLine]
  | ext | zero | digit => exact hline

/-- The count of the bytes has no part in a step. -/
theorem SizeStep.count (h : SizeStep strict ctx c ctx') (n : ℤ) :
    SizeStep strict { ctx with chunkUsed := n } c { ctx' with chunkUsed := n } := by
  cases h with
  | lf h => exact .lf h
  | cr h => exact .cr h
  | semicolon h => exact .semicolon h
  | ext h hc => exact .ext h hc
  | blank hlf hext hc hbws => exact .blank hlf hext hc hbws
  | zero h hrem => exact .zero h hrem
  | digit h hc hnz hbits hoff => exact .digit h hc hnz hbits hoff

end

/-! ## The size -/

/-- The position holds the size of the digits so far. -/
structure Sized (ctx : Position) (size : ℕ) : Prop where
  remaining : ctx.remaining = size
  chunkbits : ctx.chunkbits = 64 - 4 * ((Nat.digits 16 size).length : ℤ)

theorem length_digits_step {size x : ℕ} (hx : x < 16) (hne : ¬ (size = 0 ∧ x = 0)) :
    (Nat.digits 16 (size * 16 + x)).length = (Nat.digits 16 size).length + 1 := by
  have hpos : 0 < size * 16 + x := by omega
  rw [Nat.digits_def' (by omega) hpos, List.length_cons]
  have hdiv : (size * 16 + x) / 16 = size := by omega
  rw [hdiv]

theorem off_of_lt {n : ℕ} (h : n < 2 ^ 63) : off n = n := by
  rw [off, Int.bmod_eq_of_le] <;> omega

theorem off_neg {n : ℕ} (hle : 2 ^ 63 ≤ n) (h : n < 2 ^ 64) : off n < 0 := by
  rw [off, Int.bmod_def]
  omega

/-- **A digit** is taken when the new size is one that an `apr_off_t` holds, and then the
    position holds it. -/
theorem sizeStep_digit {strict : Bool} {ctx ctx' : Position} {c : UInt8} {size : ℕ}
    (hstate : ctx.state = .chunkPart) (hs : Sized ctx size) (hfits : size < 2 ^ 63)
    (hc : isxdigit c = true) :
    SizeStep strict ctx c ctx' ↔ size * 16 + xvalue c < 2 ^ 63 ∧
      ctx' = { ctx with remaining := ((size * 16 + xvalue c : ℕ) : ℤ),
                        chunkbits := 64 - 4 * (Nat.digits 16 (size * 16 + xvalue c)).length } := by
  have hx := xvalue_lt c hc
  have hvalue : ctx.remaining * 16 + (xvalue c : ℤ) = ((size * 16 + xvalue c : ℕ) : ℤ) := by
    rw [hs.remaining]
    push_cast
    rfl
  by_cases hzero : size = 0 ∧ c = '0'.toUInt8
  · -- a leading zero
    obtain ⟨rfl, rfl⟩ := hzero
    have hctx : ctx = { ctx with
        remaining := ((0 * 16 + xvalue '0'.toUInt8 : ℕ) : ℤ),
        chunkbits := 64 - 4 * (Nat.digits 16 (0 * 16 + xvalue '0'.toUInt8)).length } := by
      rcases ctx
      simpa [xvalue, isdigit] using ⟨hs.remaining, hs.chunkbits⟩
    rw [← hctx]
    constructor
    · intro h
      refine ⟨by decide, ?_⟩
      have hother : SizeStep strict ctx '0'.toUInt8 ctx := .zero hstate hs.remaining
      exact (Prod.mk.inj (h.sizeByte.symm.trans hother.sizeByte)).2
    · rintro ⟨-, rfl⟩
      exact .zero hstate hs.remaining
  · have hnz : ¬ (ctx.remaining = 0 ∧ c = '0'.toUInt8) := by
      rw [hs.remaining]
      simpa using hzero
    have hlen : (Nat.digits 16 (size * 16 + xvalue c)).length = (Nat.digits 16 size).length + 1 :=
      length_digits_step hx fun h => hzero ⟨h.1, (xvalue_eq_zero c hc).1 h.2⟩
    have hiff : SizeStep strict ctx c ctx' ↔ 4 ≤ ctx.chunkbits ∧
        0 ≤ off (ctx.remaining * 16 + xvalue c) ∧
        ctx' = { ctx with chunkbits := ctx.chunkbits - 4,
                          remaining := off (ctx.remaining * 16 + xvalue c) } := by
      constructor
      · intro h
        cases h with
        | lf | cr _ | semicolon _ => exact absurd hc (by decide)
        | ext hext => exact absurd (hstate.symm.trans hext) (by decide)
        | blank _ _ hblank => exact absurd hc (by rcases hblank with rfl | rfl <;> decide)
        | zero _ hrem => exact absurd ⟨hrem, rfl⟩ hnz
        | digit _ _ _ hbits hoff => exact ⟨hbits, hoff, rfl⟩
      · rintro ⟨hbits, hoff, rfl⟩
        exact .digit hstate hc hnz hbits hoff
    rw [hiff, hvalue, hs.chunkbits]
    by_cases hdigits : (Nat.digits 16 size).length < 16
    · have hsize : size < 16 ^ 15 := by
        rw [← Nat.digits_length_le_iff (by omega)]
        omega
      by_cases hlt : size * 16 + xvalue c < 2 ^ 63
      · rw [off_of_lt hlt, hlen]
        push_cast
        constructor
        · rintro ⟨-, -, rfl⟩
          refine ⟨hlt, ?_⟩
          congr 1
          omega
        · rintro ⟨-, rfl⟩
          refine ⟨by omega, by omega, ?_⟩
          congr 1
          omega
      · have hneg := off_neg (Nat.le_of_not_lt hlt) (by omega)
        constructor
        · rintro ⟨-, hoff, -⟩
          omega
        · rintro ⟨h, -⟩
          exact absurd h hlt
    · have hsize : 16 ^ 15 ≤ size := by
        by_contra hlt
        have := (Nat.digits_length_le_iff (by omega) size).2 (Nat.lt_of_not_le hlt)
        omega
      constructor
      · rintro ⟨hbits, -⟩
        omega
      · rintro ⟨h, -⟩
        omega

end Httpd
