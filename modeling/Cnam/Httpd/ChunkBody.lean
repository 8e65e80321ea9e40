/-
  Chunked bodies, byte after byte. What `parse_chunk_size` and the filter make of the bytes,
  whatever pieces they come in, is to read chunks: every sequence of chunks is read as its
  data (`run_chunks`), and nothing else is (`run_progress`).
-/
import Cnam.Httpd.ChunkLines
import Cnam.Lib.Transducer

namespace Httpd

/-! ## A body, byte after byte -/

/-- What the filter makes of one byte, whatever pieces the bytes come in; `none` if it refuses
    it, or is not to read it. -/
def bodyByte (cfg : Config) (ctx : Position) (c : UInt8) : Option (Position × Bytes) :=
  match ctx.state with
  | .none | .chunkTrailer => none
  | .length =>
    if 0 < ctx.remaining then some ({ ctx with remaining := ctx.remaining - 1 }, [c]) else none
  | .chunkData =>
    if 1 < ctx.remaining then some ({ ctx with remaining := ctx.remaining - 1 }, [c])
    else some ({ ctx with state := .chunkEnd, remaining := 0, chunkUsed := 0 }, [c])
  | _ =>
    let r := lineByte cfg.strict ctx c
    if r.1 = .success ∧ r.2.chunkUsed + 1 ≤ cfg.limitReqFieldsize then
      some ({ r.2 with chunkUsed := r.2.chunkUsed + 1 }, [])
    else none

section
variable {cfg : Config} {ctx ctx' : Position} {c : UInt8}

/-- A byte of a line, counted. -/
theorem bodyByte_lines (hstate : ctx.state.Lines) {r : Position × Bytes} :
    bodyByte cfg ctx c = some r ↔ ∃ ctx₀, lineByte cfg.strict ctx c = (.success, ctx₀) ∧
      ctx₀.chunkUsed + 1 ≤ cfg.limitReqFieldsize ∧
      r = ({ ctx₀ with chunkUsed := ctx₀.chunkUsed + 1 }, []) := by
  have hbyte : bodyByte cfg ctx c =
      (if (lineByte cfg.strict ctx c).1 = .success ∧
          (lineByte cfg.strict ctx c).2.chunkUsed + 1 ≤ cfg.limitReqFieldsize then
        some ({ (lineByte cfg.strict ctx c).2 with
          chunkUsed := (lineByte cfg.strict ctx c).2.chunkUsed + 1 }, [])
      else none) := by
    rcases hstate with h | (h | h | h | h) | h | h <;> simp only [bodyByte, h]
  rw [hbyte]
  rcases lineByte cfg.strict ctx c with ⟨status, ctx₀⟩
  constructor
  · intro h
    by_cases hok : status = .success ∧ ctx₀.chunkUsed + 1 ≤ cfg.limitReqFieldsize
    · rw [if_pos hok] at h
      exact ⟨ctx₀, by rw [hok.1], hok.2, (Option.some.inj h).symm⟩
    · rw [if_neg hok] at h
      exact absurd h (Option.some_ne_none r).symm
  · rintro ⟨ctx₁, hline, hlimit, rfl⟩
    obtain ⟨rfl, rfl⟩ := Prod.mk.inj hline
    rw [if_pos ⟨rfl, hlimit⟩]

theorem bodyByte_inLine (hstate : ctx.state.InLine) {r : Position × Bytes} :
    bodyByte cfg ctx c = some r ↔ ∃ ctx₀, SizeStep cfg.strict ctx c ctx₀ ∧
      ctx.chunkUsed + 1 ≤ cfg.limitReqFieldsize ∧
      r = ({ ctx₀ with chunkUsed := ctx.chunkUsed + 1 }, []) := by
  rw [bodyByte_lines (Or.inr (Or.inl hstate))]
  refine exists_congr fun ctx₀ => ?_
  rw [lineByte_inLine hstate]
  refine and_congr_right fun hstep => ?_
  rw [hstep.chunkUsed]

theorem SizeStep.run (hstate : ctx.state.InLine) (h : SizeStep cfg.strict ctx c ctx')
    (hlimit : ctx.chunkUsed + 1 ≤ cfg.limitReqFieldsize) (bytes : Bytes) :
    Transducer.run (bodyByte cfg) ctx (c :: bytes) =
      Transducer.run (bodyByte cfg) { ctx' with chunkUsed := ctx.chunkUsed + 1 } bytes := by
  rw [Transducer.run_cons _ ((bodyByte_inLine hstate).2 ⟨ctx', h, hlimit, rfl⟩)]
  simp

theorem Sized.lineStart : Sized .lineStart 0 := ⟨rfl, rfl⟩

theorem bodyByte_chunk (hstate : ctx.state = .chunk) {r : Position × Bytes} :
    bodyByte cfg ctx c = some r ↔ isxdigit c = true ∧ bodyByte cfg .lineStart c = some r := by
  rw [bodyByte_lines (Or.inl hstate), bodyByte_inLine (Or.inl rfl)]
  simp only [lineByte_chunk hstate, and_assoc, exists_and_left]
  refine and_congr_right fun _ => exists_congr fun ctx₀ => and_congr_right fun hstep => ?_
  rw [hstep.chunkUsed]

/-! ## Lines are taken -/

/-- The position after some bytes of a line, in one of the states. -/
structure After (ctx : Position) (bytes : Bytes) (states : List BodyState) (ctx' : Position) :
    Prop where
  state : ctx'.state ∈ states
  remaining : ctx'.remaining = ctx.remaining
  chunkUsed : ctx'.chunkUsed = ctx.chunkUsed + bytes.length

theorem run_digits {digits : Bytes} {size : ℕ} (hstate : ctx.state = .chunkPart)
    (hs : Sized ctx size) (hdigits : ∀ c ∈ digits, isxdigit c = true)
    (hfits : hexFrom size digits < 2 ^ 63)
    (hlimit : ctx.chunkUsed + digits.length ≤ cfg.limitReqFieldsize) :
    ∃ ctx', Transducer.run (bodyByte cfg) ctx digits = some (ctx', []) ∧
      ctx'.state = .chunkPart ∧ Sized ctx' (hexFrom size digits) ∧
      ctx'.chunkBws = ctx.chunkBws ∧ ctx'.chunkUsed = ctx.chunkUsed + digits.length := by
  induction digits generalizing ctx size with
  | nil => exact ⟨ctx, rfl, hstate, hs, rfl, by simp⟩
  | cons c digits ih =>
    rw [hexFrom_cons] at hfits
    rw [List.length_cons] at hlimit
    have hsize := (le_hexFrom _ digits).trans_lt hfits
    have hstep : SizeStep cfg.strict ctx c _ :=
      (sizeStep_digit hstate hs (by omega) (hdigits c List.mem_cons_self)).2 ⟨hsize, rfl⟩
    have hnext : Sized { ctx with
        remaining := ((size * 16 + xvalue c : ℕ) : ℤ),
        chunkbits := 64 - 4 * (Nat.digits 16 (size * 16 + xvalue c)).length,
        chunkUsed := ctx.chunkUsed + 1 } (size * 16 + xvalue c) := ⟨rfl, rfl⟩
    obtain ⟨ctx', hrun, hstate', hs', hbws, hused⟩ := ih (by exact hstate) hnext
      (fun d hd => hdigits d (List.mem_cons_of_mem c hd)) hfits (by simp only; omega)
    refine ⟨ctx', ?_, hstate', hs', hbws, ?_⟩
    · rw [hstep.run (Or.inl hstate) (by omega), hrun]
    · rw [hused, List.length_cons]
      push_cast
      ring

theorem run_blanks {blanks : Bytes} (hstate : ctx.state = .chunkPart ∨ ctx.state = .chunkCr)
    (hblanks : ∀ c ∈ blanks, c = SP ∨ c = TAB) (hbws : ctx.chunkBws + blanks.length ≤ 10)
    (hlimit : ctx.chunkUsed + blanks.length ≤ cfg.limitReqFieldsize) :
    ∃ ctx', Transducer.run (bodyByte cfg) ctx blanks = some (ctx', []) ∧
      After ctx blanks [.chunkPart, .chunkCr] ctx' := by
  induction blanks generalizing ctx with
  | nil => exact ⟨ctx, rfl, by simpa using hstate, rfl, by simp⟩
  | cons c blanks ih =>
    rw [List.length_cons] at hbws hlimit
    push_cast at hbws hlimit
    have hstep : SizeStep cfg.strict ctx c
        { ctx with state := .chunkCr, chunkBws := ctx.chunkBws + 1 } := by
      refine .blank ?_ ?_ (hblanks c List.mem_cons_self) (by omega) <;>
      · rcases hstate with h | h <;> simp [h]
    have hline : ctx.state.InLine := by rcases hstate with h | h <;> simp [BodyState.InLine, h]
    obtain ⟨ctx', hrun, hstate', hrem, hused⟩ := @ih
      { ctx with state := .chunkCr, chunkBws := ctx.chunkBws + 1, chunkUsed := ctx.chunkUsed + 1 }
      (Or.inr rfl) (fun d hd => hblanks d (List.mem_cons_of_mem c hd))
      (by simp only; omega) (by simp only; omega)
    refine ⟨ctx', by rw [hstep.run hline (by omega), hrun], hstate', hrem, ?_⟩
    rw [hused, List.length_cons]
    push_cast
    ring

theorem run_extensionChars {chars : Bytes} (hstate : ctx.state = .chunkExt)
    (hchars : ∀ c ∈ chars, ExtensionChar c)
    (hlimit : ctx.chunkUsed + chars.length ≤ cfg.limitReqFieldsize) :
    ∃ ctx', Transducer.run (bodyByte cfg) ctx chars = some (ctx', []) ∧
      After ctx chars [.chunkExt] ctx' := by
  induction chars generalizing ctx with
  | nil => exact ⟨ctx, rfl, by simpa using hstate, rfl, by simp⟩
  | cons c chars ih =>
    rw [List.length_cons] at hlimit
    push_cast at hlimit
    have hstep : SizeStep cfg.strict ctx c ctx := .ext hstate (hchars c List.mem_cons_self)
    obtain ⟨ctx', hrun, hstate', hrem, hused⟩ := @ih { ctx with chunkUsed := ctx.chunkUsed + 1 }
      hstate (fun d hd => hchars d (List.mem_cons_of_mem c hd)) (by simp only; omega)
    refine ⟨ctx', ?_, hstate', hrem, ?_⟩
    · rw [hstep.run (Or.inr (Or.inl hstate)) (by omega), hrun]
    · rw [hused, List.length_cons]
      push_cast
      ring

theorem run_extensions {ext : Bytes} (hstate : ctx.state = .chunkPart ∨ ctx.state = .chunkCr)
    (hext : Extensions ext) (hlimit : ctx.chunkUsed + ext.length ≤ cfg.limitReqFieldsize) :
    ∃ ctx', Transducer.run (bodyByte cfg) ctx ext = some (ctx', []) ∧
      After ctx ext [.chunkPart, .chunkCr, .chunkExt] ctx' := by
  rcases hext with rfl | ⟨chars, rfl, hchars⟩
  · refine ⟨ctx, rfl, ?_, rfl, by simp⟩
    rcases hstate with h | h <;> simp [h]
  · rw [List.length_cons] at hlimit
    push_cast at hlimit
    have hstep : SizeStep cfg.strict ctx ';'.toUInt8 { ctx with state := .chunkExt } :=
      .semicolon (by rcases hstate with h | h <;> simp [h])
    have hline : ctx.state.InLine := by rcases hstate with h | h <;> simp [BodyState.InLine, h]
    obtain ⟨ctx', hrun, hafter⟩ := @run_extensionChars cfg
      { ctx with state := .chunkExt, chunkUsed := ctx.chunkUsed + 1 } chars rfl hchars
      (by simp only; omega)
    refine ⟨ctx', by rw [hstep.run hline (by omega), hrun], ?_, hafter.remaining, ?_⟩
    · rw [List.mem_singleton.1 hafter.state]
      simp
    · rw [hafter.chunkUsed, List.length_cons]
      push_cast
      ring

/-- The state in which data of this size, or no more, is expected. -/
def afterLine (size : ℕ) : BodyState := if size ≠ 0 then .chunkData else .chunkTrailer

theorem run_eol {eol : Bytes} {size : ℕ}
    (hstate : ctx.state ∈ [BodyState.chunkPart, .chunkCr, .chunkExt])
    (heol : Eol cfg.strict eol) (hrem : ctx.remaining = size)
    (hlimit : ctx.chunkUsed + eol.length ≤ cfg.limitReqFieldsize) :
    ∃ ctx', Transducer.run (bodyByte cfg) ctx eol = some (ctx', []) ∧
      After ctx eol [afterLine size] ctx' := by
  have hline : ctx.state.InLine := by
    simp only [List.mem_cons, List.not_mem_nil, or_false] at hstate
    rcases hstate with h | h | h <;> simp [BodyState.InLine, h]
  have hne : ctx.state ≠ .chunkLf := by
    simp only [List.mem_cons, List.not_mem_nil, or_false] at hstate
    rcases hstate with h | h | h <;> simp [h]
  rcases heol with rfl | ⟨hlenient, rfl⟩
  · have hcr : SizeStep cfg.strict ctx CR { ctx with state := .chunkLf } := .cr hne
    have hlf : SizeStep cfg.strict { ctx with state := .chunkLf, chunkUsed := ctx.chunkUsed + 1 }
      LF _ := .lf fun _ => rfl
    simp only [List.length_cons, List.length_nil, Nat.cast_add, Nat.cast_one] at hlimit
    refine ⟨_, (hcr.run hline (by omega) [LF]).trans
      (hlf.run (Or.inr (Or.inr (Or.inr rfl))) (by simp only; omega) []), ?_, rfl, ?_⟩
    · simp [hrem, afterLine]
    · simp [add_assoc]
  · have hlf : SizeStep cfg.strict ctx LF _ := .lf fun hs => absurd hs (by simp [hlenient])
    simp only [List.length_cons, List.length_nil, Nat.cast_add, Nat.cast_one] at hlimit
    refine ⟨_, hlf.run hline (by omega) [], ?_, rfl, ?_⟩
    · simp [hrem, afterLine]
    · simp

theorem After.trans {bytes bytes' : Bytes} {states states' : List BodyState} {ctx₁ ctx₂ : Position}
    (h : After ctx bytes states ctx₁) (h' : After ctx₁ bytes' states' ctx₂) :
    After ctx (bytes ++ bytes') states' ctx₂ := by
  refine ⟨h'.state, h'.remaining.trans h.remaining, ?_⟩
  rw [h'.chunkUsed, h.chunkUsed, List.length_append]
  push_cast
  ring

/-- **Lines are taken**: those of the grammar, when they are not too long. -/
theorem run_line {size : ℕ} {line : Bytes} (hstate : ctx.state = .chunk)
    (h : ChunkLine cfg.strict size line) (hlimit : line.length ≤ cfg.limitReqFieldsize) :
    ∃ ctx', Transducer.run (bodyByte cfg) ctx line = some (ctx', []) ∧
      ctx'.state = afterLine size ∧ ctx'.remaining = size ∧ ctx'.chunkUsed = line.length := by
  obtain ⟨digits, blanks, ext, eol, rfl, hdigits, hblanks, hext, heol⟩ := h
  simp only [List.length_append] at hlimit
  push_cast at hlimit
  have hstart : Position.lineStart.chunkUsed = 0 := rfl
  obtain ⟨ctx₁, hrun₁, hstate₁, hsized, hbws, hused⟩ := @run_digits cfg .lineStart digits 0 rfl
    .lineStart hdigits.xdigit (by rw [hdigits.value]; exact hdigits.fits) (by omega)
  rw [hdigits.value] at hsized
  have hbws₁ : ctx₁.chunkBws = 0 := hbws
  rw [hstart] at hused
  obtain ⟨ctx₂, hrun₂, hafter₂⟩ := @run_blanks cfg ctx₁ blanks (Or.inl hstate₁) hblanks.2
    (by have := hblanks.1; omega) (by omega)
  have hused₂ := hafter₂.chunkUsed
  obtain ⟨ctx₃, hrun₃, hafter₃⟩ := @run_extensions cfg ctx₂ ext (by simpa using hafter₂.state) hext
    (by omega)
  have hused₃ := hafter₃.chunkUsed
  obtain ⟨ctx₄, hrun₄, hafter₄⟩ := @run_eol cfg ctx₃ eol size hafter₃.state heol
    (hafter₃.remaining.trans (hafter₂.remaining.trans hsized.remaining)) (by omega)
  have hall := hafter₂.trans (hafter₃.trans hafter₄)
  refine ⟨ctx₄, ?_, by simpa using hall.state, hall.remaining.trans hsized.remaining, ?_⟩
  · -- the first digit resets the position
    obtain ⟨c, digits, rfl⟩ := List.exists_cons_of_ne_nil hdigits.some
    have hrun := Transducer.run_append hrun₁
      (Transducer.run_append hrun₂ (Transducer.run_append hrun₃ hrun₄))
    obtain ⟨ctx₀, out₁, out₂, hfirst, hrest, hout⟩ := Transducer.run_cons_some.1 hrun
    have hfirst' := (bodyByte_chunk hstate).2 ⟨hdigits.xdigit c List.mem_cons_self, hfirst⟩
    exact Transducer.run_cons_some.2 ⟨ctx₀, out₁, out₂, hfirst', hrest, hout⟩
  · rw [hall.chunkUsed, hused]
    simp only [List.length_append]
    push_cast
    ring

end

/-! ## Only lines are taken -/

/-- The bytes of a line so far, and the position after them. -/
inductive Partial (strict : Bool) (ctx : Position) : Bytes → Prop
  | digits {size : ℕ} {digits : Bytes} : ctx.state = .chunkPart → Sized ctx size →
      ctx.chunkBws = 0 → Digits size digits → Partial strict ctx digits
  | blanks {size : ℕ} {digits blanks : Bytes} : ctx.state = .chunkCr → ctx.remaining = size →
      ctx.chunkBws = blanks.length → Digits size digits → Blanks blanks →
      Partial strict ctx (digits ++ blanks)
  | ext {size : ℕ} {digits blanks chars : Bytes} : ctx.state = .chunkExt →
      ctx.remaining = size → Digits size digits → Blanks blanks →
      (∀ c ∈ chars, ExtensionChar c) →
      Partial strict ctx (digits ++ (blanks ++ ';'.toUInt8 :: chars))
  | lf {size : ℕ} {digits blanks ext : Bytes} : ctx.state = .chunkLf → ctx.remaining = size →
      Digits size digits → Blanks blanks → Extensions ext →
      Partial strict ctx (digits ++ (blanks ++ (ext ++ [CR])))
  | line {size : ℕ} {line : Bytes} : ctx.state = afterLine size → ctx.remaining = size →
      ChunkLine strict size line → Partial strict ctx line

section
variable {strict : Bool} {ctx ctx' : Position} {c : UInt8} {bytes : Bytes} {size : ℕ}

theorem Blanks.nil : Blanks [] := ⟨by simp, by simp⟩

theorem Blanks.snoc {blanks : Bytes} (h : Blanks blanks) (hlt : blanks.length < 10)
    (hc : c = SP ∨ c = TAB) : Blanks (blanks ++ [c]) := by
  refine ⟨by simpa using hlt, fun d hd => ?_⟩
  rcases List.mem_append.1 hd with hd | hd
  · exact h.2 d hd
  · rwa [List.mem_singleton.1 hd]

theorem Digits.snoc {digits : Bytes} (h : Digits size digits) (hc : isxdigit c = true)
    (hfits : size * 16 + xvalue c < 2 ^ 63) :
    Digits (size * 16 + xvalue c) (digits ++ [c]) := by
  refine ⟨by simp, fun d hd => ?_, ?_, hfits⟩
  · rcases List.mem_append.1 hd with hd | hd
    · exact h.xdigit d hd
    · rwa [List.mem_singleton.1 hd]
  · rw [hexFrom_append, h.value]
    rfl

theorem Extensions.snoc {ext : Bytes} (h : Extensions ext) (hne : ext ≠ [])
    (hc : ExtensionChar c) : ∃ chars, ext ++ [c] = ';'.toUInt8 :: chars ∧
      ∀ d ∈ chars, ExtensionChar d := by
  rcases h with rfl | ⟨chars, rfl, hchars⟩
  · exact absurd rfl hne
  · refine ⟨chars ++ [c], rfl, fun d hd => ?_⟩
    rcases List.mem_append.1 hd with hd | hd
    · exact hchars d hd
    · rwa [List.mem_singleton.1 hd]

theorem afterLine_ne {size : ℕ} {state : BodyState} (h : state = afterLine size) :
    ¬ state.InLine := by
  rw [h, afterLine]
  split_ifs <;> simp [BodyState.InLine]

/-- The digits, blanks and extensions that a line so far consists of. -/
theorem Partial.split (h : Partial strict ctx bytes)
    (hstate : ctx.state = .chunkPart ∨ ctx.state = .chunkCr ∨ ctx.state = .chunkExt) :
    ∃ (size : ℕ) (digits blanks ext : Bytes), bytes = digits ++ (blanks ++ ext) ∧
      ctx.remaining = size ∧ Digits size digits ∧ Blanks blanks ∧ Extensions ext ∧
      (ctx.state ≠ .chunkExt → ext = []) ∧
      (ctx.state ≠ .chunkExt → ctx.chunkBws = blanks.length) := by
  cases h with
  | digits _ hs hbws hdigits =>
    exact ⟨_, _, [], [], by simp, hs.remaining, hdigits, .nil, Or.inl rfl, fun _ => rfl,
      fun _ => by simpa using hbws⟩
  | blanks hcr hrem hbws hdigits hblanks =>
    exact ⟨_, _, _, [], by simp, hrem, hdigits, hblanks, Or.inl rfl, fun _ => rfl, fun _ => hbws⟩
  | ext hext hrem hdigits hblanks hchars =>
    exact ⟨_, _, _, _, rfl, hrem, hdigits, hblanks, Or.inr ⟨_, rfl, hchars⟩,
      fun h => absurd hext h, fun h => absurd hext h⟩
  | lf hlf => rcases hstate with h | h | h <;> exact absurd (h.symm.trans hlf) (by decide)
  | line hafter =>
    refine absurd ?_ (afterLine_ne hafter)
    rcases hstate with h | h | h <;> simp [BodyState.InLine, h]

/-- **One byte more** of a line. -/
theorem Partial.step (h : Partial strict ctx bytes) (hline : ctx.state.InLine)
    (hstep : SizeStep strict ctx c ctx') : Partial strict ctx' (bytes ++ [c]) := by
  have hsplit : ctx.state ≠ .chunkLf →
      ctx.state = .chunkPart ∨ ctx.state = .chunkCr ∨ ctx.state = .chunkExt := by
    rcases hline with h | h | h | h <;> simp [h]
  by_cases hdigit : ctx.state = .chunkPart ∧ isxdigit c = true
  · obtain ⟨hstate, hc⟩ := hdigit
    cases h with
    | digits _ hs hbws hdigits =>
      obtain ⟨hfits, rfl⟩ := (sizeStep_digit hstate hs hdigits.fits hc).1 hstep
      exact .digits hstate ⟨rfl, rfl⟩ hbws (hdigits.snoc hc hfits)
    | blanks h | ext h | lf h => exact absurd (hstate.symm.trans h) (by decide)
    | line h => exact absurd hline (afterLine_ne h)
  cases hstep with
  | lf hlf =>
    by_cases hstate : ctx.state = .chunkLf
    · cases h with
      | lf _ hrem hdigits hblanks hext =>
        refine .line ?_ hrem ⟨_, _, _, [CR, LF], ?_, hdigits, hblanks, hext, Or.inl rfl⟩
        · simp [afterLine, hrem]
        · simp
      | digits h | blanks h | ext h => exact absurd (hstate.symm.trans h) (by decide)
      | line h => exact absurd hline (afterLine_ne h)
    · obtain ⟨size, digits, blanks, ext, rfl, hrem, hdigits, hblanks, hext, -, -⟩ :=
        h.split (hsplit hstate)
      have hlenient : strict = false := by
        by_contra hs
        exact hstate (hlf (by simpa using hs))
      refine .line ?_ hrem
        ⟨_, _, _, [LF], ?_, hdigits, hblanks, hext, Or.inr ⟨hlenient, rfl⟩⟩
      · simp [afterLine, hrem]
      · simp
  | cr hstate =>
    obtain ⟨size, digits, blanks, ext, rfl, hrem, hdigits, hblanks, hext, -, -⟩ :=
      h.split (hsplit hstate)
    rw [List.append_assoc, List.append_assoc]
    exact .lf rfl hrem hdigits hblanks hext
  | semicolon hstate =>
    obtain ⟨size, digits, blanks, ext, rfl, hrem, hdigits, hblanks, hext, -, -⟩ :=
      h.split (hsplit hstate)
    rw [List.append_assoc, List.append_assoc]
    by_cases hnil : ext = []
    · subst hnil
      exact .ext rfl hrem hdigits hblanks (by simp)
    · obtain ⟨chars, hchars, hall⟩ := hext.snoc hnil (c := ';'.toUInt8) (by decide)
      rw [hchars]
      exact .ext rfl hrem hdigits hblanks hall
  | ext hstate hc =>
    cases h with
    | ext _ hrem hdigits hblanks hchars =>
      obtain ⟨chars, hchars', hall⟩ := Extensions.snoc (Or.inr ⟨_, rfl, hchars⟩) (by simp) hc
      rw [List.append_assoc, List.append_assoc, hchars']
      exact .ext hstate hrem hdigits hblanks hall
    | digits h | blanks h | lf h => exact absurd (hstate.symm.trans h) (by decide)
    | line h => exact absurd hline (afterLine_ne h)
  | blank hlf hext hc hbws =>
    obtain ⟨size, digits, blanks, ext, rfl, hrem, hdigits, hblanks, -, hnil, hcount⟩ :=
      h.split (hsplit hlf)
    rw [hcount hext] at hbws
    rw [hnil hext, List.append_nil, List.append_assoc]
    refine .blanks rfl hrem ?_ hdigits (hblanks.snoc (by omega) hc)
    rw [List.length_append, List.length_singleton, ← Nat.cast_one, Nat.cast_add]
    exact congrArg (· + 1) (hcount hext)
  | zero hstate => exact absurd ⟨hstate, by decide⟩ hdigit
  | digit hstate hc => exact absurd ⟨hstate, hc⟩ hdigit

end

/-! ## Chunks -/

/-- Chunks, each with its line, its data and its end, and the body they are. -/
inductive Chunks (cfg : Config) : Bytes → Bytes → Prop
  | nil : Chunks cfg [] []
  | snoc {wire body line data eol : Bytes} : Chunks cfg wire body →
      ChunkLine cfg.strict data.length line → line.length ≤ cfg.limitReqFieldsize → data ≠ [] →
      Eol cfg.strict eol → eol.length ≤ cfg.limitReqFieldsize →
      Chunks cfg (wire ++ (line ++ (data ++ eol))) (body ++ data)

/-- A whole body, up to its trailers. -/
def ChunkedBody (cfg : Config) (wire body : Bytes) : Prop :=
  ∃ chunks line, wire = chunks ++ line ∧ Chunks cfg chunks body ∧ ChunkLine cfg.strict 0 line ∧
    line.length ≤ cfg.limitReqFieldsize

/-- Where a body is after the bytes so far, and how much of it there is. -/
inductive Progress (cfg : Config) (ctx : Position) : Bytes → Bytes → Prop
  | chunk {wire body : Bytes} : ctx.state = .chunk → Chunks cfg wire body →
      Progress cfg ctx wire body
  | line {wire body bytes : Bytes} : ctx.state.InLine → Chunks cfg wire body →
      Partial cfg.strict ctx bytes → ctx.chunkUsed = bytes.length →
      Progress cfg ctx (wire ++ bytes) body
  | data {wire body line data : Bytes} {size : ℕ} : ctx.state = .chunkData →
      Chunks cfg wire body → ChunkLine cfg.strict size line →
      line.length ≤ cfg.limitReqFieldsize → ctx.remaining = size - data.length →
      data.length < size → Progress cfg ctx (wire ++ (line ++ data)) (body ++ data)
  | dataEnd {wire body line data eol : Bytes} :
      ctx.state = .chunkEnd ∧ eol = [] ∨ ctx.state = .chunkEndLf ∧ eol = [CR] →
      Chunks cfg wire body → ChunkLine cfg.strict data.length line →
      line.length ≤ cfg.limitReqFieldsize → data ≠ [] → ctx.chunkUsed = eol.length →
      Progress cfg ctx (wire ++ (line ++ (data ++ eol))) (body ++ data)
  | last {wire body : Bytes} : ctx.state = .chunkTrailer → ChunkedBody cfg wire body →
      Progress cfg ctx wire body

section
variable {cfg : Config} {ctx ctx' : Position} {c : UInt8}

/-- The bytes between the data of a chunk and the next line. -/
theorem bodyByte_end (hstate : ctx.state = .chunkEnd ∨ ctx.state = .chunkEndLf)
    {r : Position × Bytes} :
    bodyByte cfg ctx c = some r ↔ ctx.chunkUsed + 1 ≤ cfg.limitReqFieldsize ∧
      (c = LF ∧ (cfg.strict = true → ctx.state = .chunkEndLf) ∧
          r = ({ ctx with state := .chunk, chunkUsed := ctx.chunkUsed + 1 }, []) ∨
        c = CR ∧ ctx.state = .chunkEnd ∧
          r = ({ ctx with state := .chunkEndLf, chunkUsed := ctx.chunkUsed + 1 }, [])) := by
  rw [bodyByte_lines (Or.inr (Or.inr hstate))]
  constructor
  · rintro ⟨ctx₀, hline, hlimit, rfl⟩
    rcases (lineByte_end hstate).1 hline with ⟨hc, hs, rfl⟩ | ⟨hc, hs, rfl⟩
    · exact ⟨hlimit, Or.inl ⟨hc, hs, rfl⟩⟩
    · exact ⟨hlimit, Or.inr ⟨hc, hs, rfl⟩⟩
  · rintro ⟨hlimit, ⟨hc, hs, rfl⟩ | ⟨hc, hs, rfl⟩⟩
    · exact ⟨_, (lineByte_end hstate).2 (Or.inl ⟨hc, hs, rfl⟩), hlimit, rfl⟩
    · exact ⟨_, (lineByte_end hstate).2 (Or.inr ⟨hc, hs, rfl⟩), hlimit, rfl⟩

/-- A byte of data. -/
theorem bodyByte_data (hstate : ctx.state = .chunkData) :
    bodyByte cfg ctx c = some (if 1 < ctx.remaining then
      { ctx with remaining := ctx.remaining - 1 }
      else { ctx with state := .chunkEnd, remaining := 0, chunkUsed := 0 }, [c]) := by
  simp only [bodyByte, hstate]
  split_ifs <;> rfl

theorem Partial.start {strict : Bool} (hc : isxdigit c = true)
    (hstep : SizeStep strict .lineStart c ctx') : Partial strict ctx' [c] := by
  have hlt := xvalue_lt c hc
  obtain ⟨-, rfl⟩ := (sizeStep_digit rfl Sized.lineStart (by omega) hc).1 hstep
  refine .digits rfl ⟨rfl, rfl⟩ rfl ⟨by simp, by simpa using hc, by simp [hexFrom], by omega⟩

theorem Partial.inLine {strict : Bool} {bytes : Bytes} (h : Partial strict ctx bytes) :
    ctx.state.InLine ∨ ∃ size : ℕ, ctx.state = afterLine size ∧ ctx.remaining = size ∧
      ChunkLine strict size bytes := by
  cases h with
  | digits h | blanks h | ext h | lf h => exact Or.inl (by simp [BodyState.InLine, h])
  | line h hrem hline => exact Or.inr ⟨_, h, hrem, hline⟩

theorem Partial.used {strict : Bool} {bytes : Bytes} (h : Partial strict ctx bytes) (n : ℤ) :
    Partial strict { ctx with chunkUsed := n } bytes := by
  cases h with
  | digits hstate hs hbws hdigits => exact .digits hstate ⟨hs.remaining, hs.chunkbits⟩ hbws hdigits
  | blanks hstate hrem hbws hdigits hblanks => exact .blanks hstate hrem hbws hdigits hblanks
  | ext hstate hrem hdigits hblanks hchars => exact .ext hstate hrem hdigits hblanks hchars
  | lf hstate hrem hdigits hblanks hext => exact .lf hstate hrem hdigits hblanks hext
  | line hstate hrem hline => exact .line hstate hrem hline

/-- A byte that a line goes on with, or ends with. -/
theorem Progress.ofPartial {wire body bytes : Bytes} (hchunks : Chunks cfg wire body)
    (h : Partial cfg.strict ctx bytes) (hused : ctx.chunkUsed = bytes.length)
    (hlimit : bytes.length ≤ cfg.limitReqFieldsize) :
    Progress cfg ctx (wire ++ bytes) body := by
  rcases h.inLine with hline | ⟨size, hstate, hrem, hsize⟩
  · exact .line hline hchunks h hused
  · by_cases hzero : size = 0
    · subst hzero
      exact .last hstate ⟨wire, bytes, rfl, hchunks, hsize, hlimit⟩
    · have hdata : ctx.state = .chunkData := by rw [hstate, afterLine, if_pos hzero]
      have hbegin : Progress cfg ctx (wire ++ (bytes ++ [])) (body ++ []) :=
        .data hdata hchunks hsize hlimit (by simpa using hrem) (Nat.pos_of_ne_zero hzero)
      simpa using hbegin

/-- **One byte more** of a body. -/
theorem Progress.step {used out out' : Bytes} (h : Progress cfg ctx used out)
    (hstep : bodyByte cfg ctx c = some (ctx', out')) :
    Progress cfg ctx' (used ++ [c]) (out ++ out') := by
  cases h with
  | chunk hstate hchunks =>
    obtain ⟨hc, hstep⟩ := (bodyByte_chunk hstate).1 hstep
    obtain ⟨ctx₀, hsize, hlimit, hr⟩ := (bodyByte_inLine (Or.inl rfl)).1 hstep
    obtain ⟨rfl, rfl⟩ := Prod.mk.inj hr
    rw [List.append_nil]
    refine .ofPartial hchunks ((Partial.start hc hsize).used _) rfl ?_
    simpa [Position.lineStart] using hlimit
  | line hline hchunks hunfinished hused =>
    obtain ⟨ctx₀, hsize, hlimit, hr⟩ := (bodyByte_inLine hline).1 hstep
    obtain ⟨rfl, rfl⟩ := Prod.mk.inj hr
    rw [List.append_nil, List.append_assoc]
    refine .ofPartial hchunks ((hunfinished.step hline hsize).used _) ?_ ?_
    · simp [hused]
    · simpa [hused] using hlimit
  | @data wire body line data size hstate hchunks hline hlimit hrem hlt =>
    rw [bodyByte_data hstate] at hstep
    obtain ⟨rfl, rfl⟩ := Prod.mk.inj (Option.some.inj hstep)
    rw [List.append_assoc, List.append_assoc, List.append_assoc]
    have hlen : (data ++ [c]).length = data.length + 1 := by simp
    by_cases hlast : 1 < ctx.remaining
    · rw [if_pos hlast]
      refine .data hstate hchunks hline hlimit ?_ (by omega)
      rw [hlen]
      push_cast
      omega
    · have hsize : size = (data ++ [c]).length := by omega
      rw [hsize] at hline
      rw [if_neg hlast]
      have hend : Progress cfg { ctx with state := .chunkEnd, remaining := 0, chunkUsed := 0 }
          (wire ++ (line ++ (data ++ [c] ++ []))) (body ++ (data ++ [c])) :=
        .dataEnd (Or.inl ⟨rfl, rfl⟩) hchunks hline hlimit (by simp) rfl
      simpa using hend
  | @dataEnd wire body line data eol hstate hchunks hline hlimit hdata hused =>
    obtain ⟨hcount, h⟩ := (bodyByte_end (hstate.imp And.left And.left)).1 hstep
    rcases h with ⟨rfl, hstrict, hr⟩ | ⟨rfl, hend, hr⟩
    · obtain ⟨rfl, rfl⟩ := Prod.mk.inj hr
      rw [List.append_nil]
      have heol : Eol cfg.strict (eol ++ [LF]) := by
        rcases hstate with ⟨hstate, rfl⟩ | ⟨hstate, rfl⟩
        · refine Or.inr ⟨?_, rfl⟩
          by_contra hs
          exact absurd (hstate.symm.trans (hstrict (by simpa using hs))) (by decide)
        · exact Or.inl rfl
      have hall := Chunks.snoc hchunks hline hlimit hdata heol
        (by rw [hused] at hcount; simpa using hcount)
      exact .chunk rfl (by simpa using hall)
    · obtain ⟨rfl, rfl⟩ := Prod.mk.inj hr
      rcases hstate with ⟨hstate, rfl⟩ | ⟨hstate, rfl⟩
      · have hnext : Progress cfg { ctx with
            state := .chunkEndLf, chunkUsed := ctx.chunkUsed + 1 }
            (wire ++ (line ++ (data ++ [CR]))) (body ++ data) :=
          .dataEnd (Or.inr ⟨rfl, rfl⟩) hchunks hline hlimit hdata (by simp [hused])
        simpa using hnext
      · exact absurd (hend.symm.trans hstate) (by decide)
  | last hstate _ =>
    simp [bodyByte, hstate] at hstep

/-- **Only chunks are read**, and as their data. -/
theorem run_progress {used out : Bytes} (hstate : ctx.state = .chunk)
    (h : Transducer.run (bodyByte cfg) ctx used = some (ctx', out)) :
    Progress cfg ctx' used out :=
  Transducer.run_history (H := fun used ctx out => Progress cfg ctx used out)
    (.chunk hstate .nil) (fun _ _ _ _ _ _ h hstep => h.step hstep) h

/-! ## Chunks are read -/

theorem off_of_nonneg {n : ℤ} (h0 : 0 ≤ n) (h : n < 2 ^ 63) : off n = n := by
  rw [off, Int.bmod_eq_of_le] <;> omega

theorem afterRead_data {n : ℤ} (hstate : ctx.state = .chunkData) (h0 : 0 ≤ n)
    (hle : n ≤ ctx.remaining) (hfits : ctx.remaining < 2 ^ 63) :
    ctx.afterRead n = if n < ctx.remaining then { ctx with remaining := ctx.remaining - n }
      else { ctx with state := .chunkEnd, remaining := 0, chunkUsed := 0 } := by
  rw [Position.afterRead, if_neg (by rw [hstate]; decide), off_of_nonneg (by omega) (by omega)]
  by_cases hlt : n < ctx.remaining
  · rw [if_pos hlt]
    exact if_neg (by simp only [not_and]; omega)
  · have hzero : ctx.remaining - n = 0 := by omega
    rw [if_neg hlt, hzero]
    exact if_pos ⟨le_rfl, hstate⟩

/-- Data, in one piece. -/
theorem run_data {data : Bytes} (hstate : ctx.state = .chunkData) (hne : data ≠ [])
    (hle : data.length ≤ ctx.remaining) (hfits : ctx.remaining < 2 ^ 63) :
    Transducer.run (bodyByte cfg) ctx data = some (ctx.afterRead data.length, data) := by
  induction data generalizing ctx with
  | nil => exact absurd rfl hne
  | cons c data ih =>
    rw [afterRead_data hstate (by omega) hle hfits, Transducer.run_cons _ (bodyByte_data hstate)]
    rw [List.length_cons] at hle ⊢
    push_cast at hle ⊢
    rcases data with _ | ⟨d, data⟩
    · simp
    · have hmore : 1 < ctx.remaining := by
        rw [List.length_cons] at hle
        push_cast at hle
        omega
      have hrest : Transducer.run (bodyByte cfg) { ctx with remaining := ctx.remaining - 1 }
          (d :: data) = _ := ih hstate (by simp) (by simp only; omega) (by simp only; omega)
      have hafter := @afterRead_data { ctx with remaining := ctx.remaining - 1 }
        (d :: data).length hstate (by omega) (by simp only; omega) (by simp only; omega)
      rw [if_pos hmore, hrest, Option.map_some, hafter]
      simp only [List.singleton_append, Option.some.injEq, Prod.mk.injEq, and_true]
      by_cases hlt : ((d :: data).length : ℤ) + 1 < ctx.remaining
      · rw [if_pos (by omega), if_pos hlt, sub_sub, add_comm (1 : ℤ)]
      · rw [if_neg (by omega), if_neg hlt]

theorem run_dataEnd {eol : Bytes} (hstate : ctx.state = .chunkEnd) (hused : ctx.chunkUsed = 0)
    (heol : Eol cfg.strict eol) (hlimit : eol.length ≤ cfg.limitReqFieldsize) :
    ∃ ctx', Transducer.run (bodyByte cfg) ctx eol = some (ctx', []) ∧ ctx'.state = .chunk := by
  have hend : ctx.state = .chunkEnd ∨ ctx.state = .chunkEndLf := Or.inl hstate
  rcases heol with rfl | ⟨hlenient, rfl⟩ <;>
    simp only [List.length_cons, List.length_nil, Nat.cast_add, Nat.cast_one] at hlimit
  · have hcr : bodyByte cfg ctx CR = some (_, []) :=
      (bodyByte_end hend).2 ⟨by omega, Or.inr ⟨rfl, hstate, rfl⟩⟩
    have hlf : bodyByte cfg { ctx with state := .chunkEndLf, chunkUsed := ctx.chunkUsed + 1 } LF =
        some (_, []) :=
      (bodyByte_end (Or.inr rfl)).2 ⟨by simp only; omega, Or.inl ⟨rfl, fun _ => rfl, rfl⟩⟩
    exact ⟨_, by rw [Transducer.run_cons _ hcr, Transducer.run_cons _ hlf]; rfl, rfl⟩
  · have hlf : bodyByte cfg ctx LF = some (_, []) := (bodyByte_end hend).2
      ⟨by omega, Or.inl ⟨rfl, fun hs => absurd hs (by simp [hlenient]), rfl⟩⟩
    exact ⟨_, by rw [Transducer.run_cons _ hlf]; rfl, rfl⟩

/-- **Chunks are read** as their data. -/
theorem run_chunks {wire body : Bytes} (hstate : ctx.state = .chunk) (h : Chunks cfg wire body) :
    ∃ ctx', Transducer.run (bodyByte cfg) ctx wire = some (ctx', body) ∧ ctx'.state = .chunk := by
  induction h with
  | nil => exact ⟨ctx, rfl, hstate⟩
  | @snoc wire body line data eol _ hline hlimit hdata heol hlimit' ih =>
    obtain ⟨ctx₁, hrun₁, hstate₁⟩ := ih
    obtain ⟨ctx₂, hrun₂, hstate₂, hrem, -⟩ := run_line hstate₁ hline hlimit
    have hchunk : ctx₂.state = .chunkData := by
      rw [hstate₂, afterLine, if_pos (by simpa using hdata)]
    obtain ⟨_, _, _, _, _, hdigits, -⟩ := hline
    have hfits : ctx₂.remaining < 2 ^ 63 := by
      have := hdigits.fits
      omega
    have hrun₃ : Transducer.run (bodyByte cfg) ctx₂ data = _ :=
      run_data hchunk hdata hrem.ge hfits
    have hafter := afterRead_data hchunk (n := data.length) (by omega) hrem.ge hfits
    rw [if_neg (by omega)] at hafter
    rw [hafter] at hrun₃
    obtain ⟨ctx₄, hrun₄, hstate₄⟩ := @run_dataEnd cfg
      { ctx₂ with state := .chunkEnd, remaining := 0, chunkUsed := 0 } eol rfl rfl heol hlimit'
    have hall := Transducer.run_append hrun₁ (Transducer.run_append hrun₂
      (Transducer.run_append hrun₃ hrun₄))
    exact ⟨ctx₄, by simpa using hall, hstate₄⟩

/-- **A whole body is read**, up to its trailers. -/
theorem run_chunkedBody {wire body : Bytes} (hstate : ctx.state = .chunk)
    (h : ChunkedBody cfg wire body) :
    ∃ ctx', Transducer.run (bodyByte cfg) ctx wire = some (ctx', body) ∧
      ctx'.state = .chunkTrailer := by
  obtain ⟨chunks, line, rfl, hchunks, hline, hlimit⟩ := h
  obtain ⟨ctx₁, hrun₁, hstate₁⟩ := run_chunks hstate hchunks
  obtain ⟨ctx₂, hrun₂, hstate₂, -⟩ := run_line hstate₁ hline hlimit
  exact ⟨ctx₂, by simpa using Transducer.run_append hrun₁ hrun₂, hstate₂⟩

end

end Httpd
