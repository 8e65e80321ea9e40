/-
  The lines of a chunked body in pieces. `parse_chunk_size` makes of the buffers of a line what
  it makes of its bytes one by one (`run_parseLine`), so that it takes the lines of the grammar
  and no others, however they are cut (`parseLine_iff`).
-/
import Cnam.Httpd.ChunkBody

namespace Httpd

section
variable {cfg : Config} {ctx ctx' : Position} {c : UInt8} {r : Position × Bytes}

/-- The states of `Lines` but the first one, which resets the count of the bytes. -/
def BodyState.Counts (s : BodyState) : Prop := s.InLine ∨ s = .chunkEnd ∨ s = .chunkEndLf

theorem lineByte_counts {strict : Bool} (hstate : ctx.state.Counts)
    (h : lineByte strict ctx c = (.success, ctx')) :
    ctx'.chunkUsed = ctx.chunkUsed ∧ (c ≠ LF → ctx'.state.Counts) ∧
      ∀ n, lineByte strict { ctx with chunkUsed := n } c =
        (.success, { ctx' with chunkUsed := n }) := by
  rcases hstate with hline | hend
  · rw [lineByte_inLine hline] at h
    exact ⟨h.chunkUsed, fun hc => Or.inl (h.inLine hc hline),
      fun n => (lineByte_inLine (by exact hline)).2 (h.count n)⟩
  · rcases (lineByte_end hend).1 h with ⟨hc, hs, rfl⟩ | ⟨hc, hs, rfl⟩
    · exact ⟨rfl, fun hne => absurd hc hne,
        fun n => (lineByte_end (by exact hend)).2 (Or.inl ⟨hc, hs, rfl⟩)⟩
    · exact ⟨rfl, fun _ => Or.inr (Or.inr rfl),
        fun n => (lineByte_end (by exact hend)).2 (Or.inr ⟨hc, hs, rfl⟩)⟩

theorem lineLoop_cons {strict : Bool} {buffer : Bytes} :
    lineLoop strict ctx (c :: buffer) = (.success, ctx') ↔
      ∃ ctx₀, lineByte strict ctx c = (.success, ctx₀) ∧
        lineLoop strict ctx₀ buffer = (.success, ctx') := by
  rw [lineLoop]
  rcases lineByte strict ctx c with ⟨status, ctx₀⟩
  by_cases hok : status = .success
  · simp [hok]
  · simp [hok]

/-- The loop over a buffer, against the bytes one by one, with `n` bytes of the line before. -/
theorem run_lineLoop {buffer : Bytes} (hlf : LF ∉ buffer.dropLast)
    (hstate : buffer ≠ [] → ctx.state.Counts) {n : ℤ} :
    Transducer.run (bodyByte cfg) { ctx with chunkUsed := n } buffer = some r ↔
      ∃ ctx₀, lineLoop cfg.strict ctx buffer = (.success, ctx₀) ∧
        (buffer ≠ [] → n + buffer.length ≤ cfg.limitReqFieldsize) ∧
        r = ({ ctx₀ with chunkUsed := n + buffer.length }, []) := by
  induction buffer generalizing ctx n r with
  | nil => simp [lineLoop, eq_comm (a := r)]
  | cons c buffer ih =>
    have hcounts := hstate (by simp)
    have hlines : ctx.state.Lines := Or.inr hcounts
    have hlf' : LF ∉ buffer.dropLast := by
      rcases buffer with _ | ⟨d, buffer⟩
      · simp
      · exact fun h => hlf (List.mem_cons_of_mem c h)
    have hc : buffer ≠ [] → c ≠ LF := by
      rintro hne rfl
      rw [List.dropLast_cons_of_ne_nil hne] at hlf
      exact hlf List.mem_cons_self
    have hlen : n + 1 + buffer.length = n + (c :: buffer).length := by
      rw [List.length_cons]
      push_cast
      ring
    constructor
    · intro h
      obtain ⟨u, out⟩ := r
      obtain ⟨t, out₁, out₂, hbyte, hrun, rfl⟩ := Transducer.run_cons_some.1 h
      obtain ⟨ctx₁, hline, hlimit, hr⟩ := (bodyByte_lines (by exact hlines)).1 hbyte
      obtain ⟨hused, hnext, hback⟩ := lineByte_counts (by exact hcounts) hline
      obtain ⟨rfl, rfl⟩ := Prod.mk.inj hr
      have hsplit := @ih { ctx₁ with chunkUsed := ctx.chunkUsed } (u, out₂)
      obtain ⟨ctx₂, hloop, hlimit', hr'⟩ := (hsplit hlf' fun hne => hnext (hc hne)).1 hrun
      obtain ⟨rfl, rfl⟩ := Prod.mk.inj hr'
      refine ⟨ctx₂, lineLoop_cons.2 ⟨_, hback ctx.chunkUsed, hloop⟩, fun _ => ?_, ?_⟩
      · by_cases hnil : buffer = []
        · subst hnil
          simpa [hused] using hlimit
        · rw [← hlen]
          rw [hused] at hlimit'
          exact hlimit' hnil
      · rw [hused, ← hlen]
        rfl
    · rintro ⟨ctx₂, hloop, hlimit, rfl⟩
      obtain ⟨ctx₁, hline, hloop⟩ := lineLoop_cons.1 hloop
      obtain ⟨hused, hnext, hcount⟩ := lineByte_counts hcounts hline
      have hlimit' := hlimit (by simp)
      rw [← hlen] at hlimit' ⊢
      have hbyte : bodyByte cfg { ctx with chunkUsed := n } c = some (_, []) :=
        (bodyByte_lines (by exact hlines)).2 ⟨_, hcount n, by simp only; omega, rfl⟩
      rw [Transducer.run_cons _ hbyte]
      have hrest := (ih (n := n + 1) hlf' fun hne => hnext (hc hne)).2
        ⟨ctx₂, hloop, fun _ => hlimit', rfl⟩
      rw [hrest]
      rfl

theorem lineLoop_used {strict : Bool} {buffer : Bytes} (hlf : LF ∉ buffer.dropLast)
    (hstate : buffer ≠ [] → ctx.state.Counts)
    (h : lineLoop strict ctx buffer = (.success, ctx')) : ctx'.chunkUsed = ctx.chunkUsed := by
  induction buffer generalizing ctx with
  | nil => rw [← (Prod.mk.inj h).2]
  | cons c buffer ih =>
    obtain ⟨ctx₁, hline, hloop⟩ := lineLoop_cons.1 h
    obtain ⟨hused, hnext, -⟩ := lineByte_counts (hstate (by simp)) hline
    rcases buffer with _ | ⟨d, buffer⟩
    · rw [← (Prod.mk.inj hloop).2, hused]
    · rw [List.dropLast_cons_of_ne_nil (by simp), List.mem_cons, not_or] at hlf
      rw [ih hlf.2 (fun _ => hnext (Ne.symm hlf.1)) hloop, hused]

theorem run_buffer_counts {buffer : Bytes} (hlf : LF ∉ buffer.dropLast)
    (hstate : buffer ≠ [] → ctx.state.Counts) :
    Transducer.run (bodyByte cfg) ctx buffer = some r ↔
      ∃ ctx₀, lineLoop cfg.strict ctx buffer = (.success, ctx₀) ∧
        (buffer ≠ [] → ctx₀.chunkUsed + buffer.length ≤ cfg.limitReqFieldsize) ∧
        r = ({ ctx₀ with chunkUsed := ctx₀.chunkUsed + buffer.length }, []) := by
  rw [run_lineLoop (n := ctx.chunkUsed) hlf hstate]
  refine exists_congr fun ctx₀ => and_congr_right fun hloop => ?_
  rw [lineLoop_used hlf hstate hloop]

theorem run_chunk {buffer : Bytes} (hstate : ctx.state = .chunk) :
    Transducer.run (bodyByte cfg) ctx (c :: buffer) = some r ↔
      isxdigit c = true ∧ Transducer.run (bodyByte cfg) .lineStart (c :: buffer) = some r := by
  obtain ⟨u, out⟩ := r
  simp only [Transducer.run_cons_some, bodyByte_chunk hstate, and_assoc, exists_and_left]

theorem lineLoop_chunk {strict : Bool} {buffer : Bytes} (hstate : ctx.state = .chunk) :
    lineLoop strict ctx (c :: buffer) = (.success, ctx') ↔
      isxdigit c = true ∧ lineLoop strict .lineStart (c :: buffer) = (.success, ctx') := by
  have hstart : Position.lineStart.state.InLine := Or.inl rfl
  simp only [lineLoop_cons, lineByte_chunk hstate, lineByte_inLine hstart, and_assoc,
    exists_and_left]

/-- A buffer of a line, with the count that a first digit resets. -/
theorem run_buffer {buffer : Bytes} (hlf : LF ∉ buffer.dropLast)
    (hstate : buffer ≠ [] → ctx.state.Lines) :
    Transducer.run (bodyByte cfg) ctx buffer = some r ↔
      ∃ ctx₀, lineLoop cfg.strict ctx buffer = (.success, ctx₀) ∧
        (buffer ≠ [] → ctx₀.chunkUsed + buffer.length ≤ cfg.limitReqFieldsize) ∧
        r = ({ ctx₀ with chunkUsed := ctx₀.chunkUsed + buffer.length }, []) := by
  rcases buffer with _ | ⟨c, buffer⟩
  · exact run_buffer_counts hlf fun h => absurd rfl h
  rcases hstate (by simp) with hchunk | hcounts
  · simp only [run_chunk hchunk, lineLoop_chunk hchunk, and_assoc, exists_and_left]
    exact and_congr_right fun _ => run_buffer_counts hlf fun _ => Or.inl (Or.inl rfl)
  · exact run_buffer_counts hlf fun _ => hcounts

/-- What a buffer leaves of the count is not negative, and not more than it was. -/
theorem lineLoop_counted {strict : Bool} {buffer : Bytes} (hlf : LF ∉ buffer.dropLast)
    (hstate : buffer ≠ [] → ctx.state.Lines) (h0 : 0 ≤ ctx.chunkUsed)
    (h : lineLoop strict ctx buffer = (.success, ctx')) :
    0 ≤ ctx'.chunkUsed ∧ ctx'.chunkUsed ≤ ctx.chunkUsed := by
  rcases buffer with _ | ⟨c, buffer⟩
  · rw [lineLoop_used hlf (fun h => absurd rfl h) h]
    exact ⟨h0, le_rfl⟩
  rcases hstate (by simp) with hchunk | hcounts
  · rw [lineLoop_used hlf (fun _ => Or.inl (Or.inl rfl)) ((lineLoop_chunk hchunk).1 h).2]
    exact ⟨le_rfl, h0⟩
  · rw [lineLoop_used hlf (fun _ => hcounts) h]
    exact ⟨h0, le_rfl⟩

theorem int32_le {n limit : ℤ} (h0 : 0 ≤ n) (hn : n < 2 ^ 32) (hlimit : limit < 2 ^ 31) :
    ¬ (int32 n < 0 ∨ int32 n > limit) ↔ n ≤ limit := by
  rw [int32, Int.bmod_def]
  split_ifs <;> omega

theorem int32_of_le {n limit : ℤ} (h0 : 0 ≤ n) (hn : n ≤ limit) (hlimit : limit < 2 ^ 31) :
    int32 n = n := by
  rw [int32, Int.bmod_def]
  split_ifs <;> omega

/-- The bytes of the line so far are counted, and not too many. -/
def Position.Counted (cfg : Config) (ctx : Position) : Prop :=
  0 ≤ ctx.chunkUsed ∧ ctx.chunkUsed ≤ cfg.limitReqFieldsize

instance : Decidable (ctx.Counted cfg) := inferInstanceAs (Decidable (_ ∧ _))

theorem parseChunkSize_success {buffer : Bytes} :
    parseChunkSize cfg ctx buffer = (.success, ctx') ↔ ∃ ctx₀,
      lineLoop cfg.strict ctx buffer = (.success, ctx₀) ∧
      ¬ (int32 (ctx₀.chunkUsed + buffer.length) < 0 ∨
        int32 (ctx₀.chunkUsed + buffer.length) > cfg.limitReqFieldsize) ∧
      ctx' = { ctx₀ with chunkUsed := int32 (ctx₀.chunkUsed + buffer.length) } := by
  unfold parseChunkSize
  rcases lineLoop cfg.strict ctx buffer with ⟨status, ctx₀⟩
  by_cases hok : status = .success
  · subst hok
    simp only [if_true]
    by_cases hlimit : int32 (ctx₀.chunkUsed + buffer.length) < 0 ∨
        int32 (ctx₀.chunkUsed + buffer.length) > cfg.limitReqFieldsize
    · rw [if_pos hlimit]
      constructor
      · exact fun h => absurd (Prod.mk.inj h).1 (by decide)
      · rintro ⟨_, h, hok, -⟩
        obtain ⟨-, rfl⟩ := Prod.mk.inj h
        exact absurd hlimit hok
    · rw [if_neg hlimit]
      constructor
      · exact fun h => ⟨ctx₀, rfl, hlimit, (Prod.mk.inj h).2.symm⟩
      · rintro ⟨_, h, -, rfl⟩
        obtain ⟨-, rfl⟩ := Prod.mk.inj h
        rfl
  · simp [hok]

/-- **A buffer of a line** is taken exactly when its bytes are, one by one. -/
theorem run_parseChunkSize {buffer : Bytes} (hlimit : cfg.limitReqFieldsize < 2 ^ 31)
    (hlf : LF ∉ buffer.dropLast) (hlen : buffer.length < 2 ^ 31) (hcounted : ctx.Counted cfg)
    (hstate : buffer ≠ [] → ctx.state.Lines) :
    Transducer.run (bodyByte cfg) ctx buffer = some r ↔
      ∃ ctx₀, parseChunkSize cfg ctx buffer = (.success, ctx₀) ∧ r = (ctx₀, []) := by
  rw [run_buffer hlf hstate]
  simp only [parseChunkSize_success]
  have hiff : ∀ ctx₀, lineLoop cfg.strict ctx buffer = (.success, ctx₀) →
      ((buffer ≠ [] → ctx₀.chunkUsed + buffer.length ≤ cfg.limitReqFieldsize) ↔
        ctx₀.chunkUsed + buffer.length ≤ cfg.limitReqFieldsize) := by
    intro ctx₀ hloop
    obtain ⟨-, hle⟩ := lineLoop_counted hlf hstate hcounted.1 hloop
    refine ⟨fun h => ?_, fun h _ => h⟩
    by_cases hnil : buffer = []
    · subst hnil
      simpa using hle.trans hcounted.2
    · exact h hnil
  constructor
  · rintro ⟨ctx₀, hloop, hle, rfl⟩
    obtain ⟨h0, hle₀⟩ := lineLoop_counted hlf hstate hcounted.1 hloop
    have hle' := (hiff ctx₀ hloop).1 hle
    have hcount := int32_of_le (by omega) hle' hlimit
    refine ⟨_, ⟨ctx₀, hloop, (int32_le (by omega) (by omega) hlimit).2 hle', rfl⟩, ?_⟩
    rw [hcount]
  · rintro ⟨_, ⟨ctx₀, hloop, hok, rfl⟩, rfl⟩
    obtain ⟨h0, hle₀⟩ := lineLoop_counted hlf hstate hcounted.1 hloop
    have hfew : ctx₀.chunkUsed + buffer.length < 2 ^ 32 := by
      have := hcounted.2
      omega
    have hle := (int32_le (by omega) hfew hlimit).1 hok
    exact ⟨ctx₀, hloop, (hiff ctx₀ hloop).2 hle, by rw [int32_of_le (by omega) hle hlimit]⟩

theorem lineLoop_lines {strict : Bool} {buffer : Bytes} (hlf : LF ∉ buffer)
    (hstate : ctx.state.Lines) (h : lineLoop strict ctx buffer = (.success, ctx')) :
    ctx'.state.Lines := by
  induction buffer generalizing ctx with
  | nil =>
    rw [← (Prod.mk.inj h).2]
    exact hstate
  | cons c buffer ih =>
    obtain ⟨hc, hlf⟩ := not_or.1 (List.mem_cons.not.1 hlf)
    obtain ⟨ctx₁, hline, hloop⟩ := lineLoop_cons.1 h
    refine ih hlf ?_ hloop
    rcases hstate with hchunk | hcounts
    · obtain ⟨-, hstep⟩ := (lineByte_chunk hchunk).1 hline
      exact Or.inr (Or.inl (hstep.inLine (Ne.symm hc) (Or.inl rfl)))
    · exact Or.inr ((lineByte_counts hcounts hline).2.1 (Ne.symm hc))

theorem parseChunkSize_counted {buffer : Bytes}
    (h : parseChunkSize cfg ctx buffer = (.success, ctx')) : ctx'.Counted cfg := by
  obtain ⟨ctx₀, -, hok, rfl⟩ := parseChunkSize_success.1 h
  rw [not_or] at hok
  exact ⟨by simp only; omega, by simp only; omega⟩

/-- A buffer that does not end its line. -/
theorem parseChunkSize_lines {buffer : Bytes} (hlf : LF ∉ buffer) (hstate : ctx.state.Lines)
    (h : parseChunkSize cfg ctx buffer = (.success, ctx')) : ctx'.state.Lines := by
  obtain ⟨ctx₀, hloop, -, rfl⟩ := parseChunkSize_success.1 h
  exact (lineLoop_lines hlf hstate hloop :)

theorem parseLine_cons {buffer : Bytes} {pieces : List Bytes} :
    parseLine cfg ctx (buffer :: pieces) = (.success, ctx') ↔
      ∃ ctx₀, parseChunkSize cfg ctx buffer = (.success, ctx₀) ∧
        parseLine cfg ctx₀ pieces = (.success, ctx') := by
  rw [parseLine]
  rcases parseChunkSize cfg ctx buffer with ⟨status, ctx₀⟩
  by_cases hok : status = .success
  · simp [hok]
  · simp [hok]

/-- **A line in pieces** is taken exactly when its bytes are, one by one. -/
theorem run_parseLine {pieces : List Bytes} (hlimit : cfg.limitReqFieldsize < 2 ^ 31)
    (hlf : LF ∉ pieces.flatten.dropLast) (hlen : pieces.flatten.length < 2 ^ 31)
    (hcounted : ctx.Counted cfg) (hstate : pieces.flatten ≠ [] → ctx.state.Lines) :
    Transducer.run (bodyByte cfg) ctx pieces.flatten = some r ↔
      ∃ ctx₀, parseLine cfg ctx pieces = (.success, ctx₀) ∧ r = (ctx₀, []) := by
  induction pieces generalizing ctx r with
  | nil => simp [parseLine, eq_comm (a := r)]
  | cons buffer pieces ih =>
    rw [List.flatten_cons] at hlf hlen hstate ⊢
    rw [List.length_append] at hlen
    have hsplit : LF ∉ buffer.dropLast ∧ LF ∉ pieces.flatten.dropLast ∧
        (pieces.flatten ≠ [] → LF ∉ buffer) := by
      by_cases hnil : pieces.flatten = []
      · rw [hnil, List.append_nil] at hlf
        exact ⟨hlf, by simp [hnil], fun h => absurd hnil h⟩
      · rw [List.dropLast_append_of_ne_nil hnil, List.mem_append, not_or] at hlf
        exact ⟨fun h => hlf.1 (List.dropLast_subset _ h), hlf.2, fun _ => hlf.1⟩
    obtain ⟨hlf₁, hlf₂, hno⟩ := hsplit
    have hbuffer : ∀ r, Transducer.run (bodyByte cfg) ctx buffer = some r ↔
        ∃ ctx₀, parseChunkSize cfg ctx buffer = (.success, ctx₀) ∧ r = (ctx₀, []) := fun r =>
      run_parseChunkSize hlimit hlf₁ (by omega) hcounted fun hne => hstate (by simp [hne])
    have hrest : ∀ ctx₀, parseChunkSize cfg ctx buffer = (.success, ctx₀) → ∀ r,
        Transducer.run (bodyByte cfg) ctx₀ pieces.flatten = some r ↔
          ∃ ctx₁, parseLine cfg ctx₀ pieces = (.success, ctx₁) ∧ r = (ctx₁, []) := by
      intro ctx₀ hparse r
      refine ih hlf₂ (by omega) (parseChunkSize_counted hparse) fun hne => ?_
      exact parseChunkSize_lines (hno hne) (hstate (by simp [hne])) hparse
    obtain ⟨u, out⟩ := r
    rw [Transducer.run_append_some]
    constructor
    · rintro ⟨t, out₁, out₂, his, hjs, rfl⟩
      obtain ⟨ctx₀, hparse, hr⟩ := (hbuffer _).1 his
      obtain ⟨rfl, rfl⟩ := Prod.mk.inj hr
      obtain ⟨ctx₁, hline, hr⟩ := (hrest _ hparse _).1 hjs
      obtain ⟨rfl, rfl⟩ := Prod.mk.inj hr
      exact ⟨_, parseLine_cons.2 ⟨_, hparse, hline⟩, rfl⟩
    · rintro ⟨ctx₁, hline, hr⟩
      obtain ⟨rfl, rfl⟩ := Prod.mk.inj hr
      obtain ⟨ctx₀, hparse, hline⟩ := parseLine_cons.1 hline
      have hall := (hrest _ hparse _).2 ⟨_, hline, rfl⟩
      exact ⟨ctx₀, [], [], (hbuffer _).2 ⟨_, hparse, rfl⟩, hall, rfl⟩

theorem Chunks.eq_nil {wire body : Bytes} (h : Chunks cfg wire body) (hbody : body = []) :
    wire = [] := by
  cases h with
  | nil => rfl
  | snoc _ _ _ hdata => exact absurd (List.append_eq_nil_iff.1 hbody).2 hdata

/-- The first line of a body. -/
theorem Progress.firstLine {used out : Bytes} {size : ℕ} (h : Progress cfg ctx used out)
    (hout : out = []) (hstate : ctx.state = afterLine size) (hrem : ctx.remaining = size) :
    ChunkLine cfg.strict size used ∧ used.length ≤ cfg.limitReqFieldsize := by
  have hcases : ctx.state = .chunkData ∨ ctx.state = .chunkTrailer ∧ size = 0 := by
    rw [hstate, afterLine]
    split_ifs with hzero
    · exact Or.inl rfl
    · exact Or.inr ⟨rfl, not_not.1 hzero⟩
  cases h with
  | chunk h => simp [h] at hcases
  | line h => exact absurd h (afterLine_ne hstate)
  | data _ hchunks hline hlimit hrem' =>
    obtain ⟨hbody, hdata⟩ := List.append_eq_nil_iff.1 hout
    obtain rfl := hchunks.eq_nil hbody
    subst hdata
    rw [List.length_nil, Nat.cast_zero, sub_zero, hrem, Nat.cast_inj] at hrem'
    rw [List.nil_append, List.append_nil, hrem']
    exact ⟨hline, hlimit⟩
  | dataEnd h => rcases h with ⟨h, -⟩ | ⟨h, -⟩ <;> simp [h] at hcases
  | last h hbody =>
    rw [h] at hcases
    obtain ⟨chunks, line, rfl, hchunks, hline, hlimit⟩ := hbody
    obtain rfl := hchunks.eq_nil hout
    obtain rfl : size = 0 := by simpa using hcases
    exact ⟨hline, hlimit⟩

/-- **The lines that are taken** are those of the grammar that are not too long, and the position
    holds the size. Sizes that an `apr_off_t` does not hold are refused. -/
theorem parseLine_iff (hlimit : cfg.limitReqFieldsize < 2 ^ 31) {pieces : List Bytes}
    (hlf : LF ∉ pieces.flatten.dropLast) (hlen : pieces.flatten.length < 2 ^ 31)
    (hcounted : ctx.Counted cfg) (hstate : ctx.state = .chunk) {size : ℕ} :
    (∃ ctx', parseLine cfg ctx pieces = (.success, ctx') ∧ ctx'.state = afterLine size ∧
        ctx'.remaining = size) ↔
      ChunkLine cfg.strict size pieces.flatten ∧
        pieces.flatten.length ≤ cfg.limitReqFieldsize := by
  have hrun := fun r => run_parseLine (r := r) hlimit hlf hlen hcounted fun _ => Or.inl hstate
  constructor
  · rintro ⟨ctx', hparse, hafter, hrem⟩
    exact (run_progress hstate ((hrun (ctx', [])).2 ⟨ctx', hparse, rfl⟩)).firstLine rfl hafter hrem
  · rintro ⟨hline, hfew⟩
    obtain ⟨ctx', hrun', hafter, hrem, -⟩ := run_line hstate hline hfew
    obtain ⟨ctx₀, hparse, hr⟩ := (hrun _).1 hrun'
    obtain ⟨rfl, -⟩ := Prod.mk.inj hr
    exact ⟨ctx', hparse, hafter, hrem⟩

end

/-- The limit of `LimitRequestFieldSize`, unless it is configured. -/
def defaultConfig : Config := ⟨true, 8190, false⟩

theorem parseLine_extension :
    ∃ ctx', parseLine defaultConfig ⟨.chunk, 0, 0, 0, 0⟩ [[48, 49], [102, 59, 120, 13], [10]] =
      (.success, ctx') ∧ ctx'.state = afterLine 31 ∧ ctx'.remaining = (31 : ℕ) := by
  have hext : ∀ c ∈ ([120] : Bytes), ExtensionChar c := by
    intro c hc
    obtain rfl := List.mem_singleton.1 hc
    exact Or.inr rfl
  have hline : ChunkLine true 31 [48, 49, 102, 59, 120, 13, 10] :=
    ⟨[48, 49, 102], [], [59, 120], [13, 10], rfl,
      ⟨by simp, List.all_eq_true.1 rfl, rfl, by norm_num⟩, ⟨by decide, by simp⟩,
      Or.inr ⟨[120], rfl, hext⟩, Or.inl rfl⟩
  exact (parseLine_iff (by decide) (by decide) (by decide) (by decide) rfl).2
    ⟨hline, by decide⟩

end Httpd
