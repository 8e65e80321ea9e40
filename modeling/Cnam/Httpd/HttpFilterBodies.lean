/-
  Whole bodies through the input filter: chunked ones, and those of a known length.
-/
import Cnam.Httpd.HttpFilterRuns
import Mathlib.Data.List.Infix

namespace Httpd

section
variable {ctx : Position} {used out wire body : Bytes}

theorem ChunkLine.ends {strict : Bool} {size : ℕ} {line : Bytes} (h : ChunkLine strict size line) :
    line.getLast? = some LF := by
  obtain ⟨digits, blanks, ext, eol, rfl, -, -, -, rfl | ⟨-, rfl⟩⟩ := h <;> simp

theorem ChunkedBody.ends {cfg : Config} (h : ChunkedBody cfg wire body) :
    wire.getLast? = some LF := by
  obtain ⟨chunks, line, rfl, -, hline, -⟩ := h
  rw [List.getLast?_append, hline.ends]
  rfl

end

namespace Transfer

variable {W : Type} {t : Transfer W} {w : W} {keepalive : Bool} {bs : List Brigade}
  {failed : Bool} {z : Reading W} {ctx : Position} {used out wire body rest : Bytes} {limit : ℤ}

theorem Lawful.sane_chunked (hlaw : t.Lawful) (hstart : t.start = Ctx.chunked limit) :
    t.start.Sane t.cfg := by
  rw [hstart]
  exact ⟨by simp [Ctx.chunked], le_rfl, by simp [Ctx.chunked], by simp [Ctx.chunked], le_rfl,
    hlaw.fieldsize⟩

/-- Nothing was read yet. -/
theorem reads_nil (hw : t.pending w = t.wire) (heos : t.start.eosSent = false)
    (hused : t.start.limitUsed = 0) (hlimit : 0 ≤ t.start.limit)
    (hmore : t.start.state ≠ .chunkTrailer) : t.Reads ⟨t.start, w, keepalive⟩ [] [] :=
  ⟨hw, rfl, hmore, heos, rfl, fun _ => ⟨by simpa using hused, by simpa using hlimit⟩⟩

theorem Read.progress (hstart : t.start = Ctx.chunked limit) (h : t.Read ctx used out) :
    Progress t.cfg ctx used out := run_progress (by rw [hstart]; rfl) h

/-- Where a session is in a chunked body. -/
theorem Session.inChunked (hlaw : t.Lawful) (hstart : t.start = Ctx.chunked limit)
    (hlimit : 0 ≤ limit) (hsize : t.wire.length < 2 ^ 63) (hw : t.pending w = t.wire)
    (h : Session t ⟨t.start, w, keepalive⟩ bs failed z) :
    Where t ⟨t.start, w, keepalive⟩ z bs failed := by
  have hreads : t.Reads ⟨t.start, w, keepalive⟩ [] [] :=
    reads_nil hw (by rw [hstart]; rfl) (by rw [hstart]; rfl) (by rw [hstart]; exact hlimit)
      (by simp [hstart, Ctx.chunked])
  exact h.outcome hlaw (hlaw.sane_chunked hstart) hsize hreads

/-- What was read is part of a body that is on the connection. -/
theorem read_prefix {ctx' : Position} {v : Bytes} (hwire : t.Read ctx' wire body)
    (hend : ctx'.state = .chunkTrailer) (hread : t.Read ctx used out)
    (hfront : used ++ v = wire ++ rest) :
    ∃ left out', wire = used ++ left ∧ body = out ++ out' ∧
      Transducer.run (bodyByte t.cfg) ctx left = some (ctx', out') := by
  have hused : used <+: wire ++ rest := hfront ▸ List.prefix_append used v
  rcases List.prefix_or_prefix_of_prefix hused (List.prefix_append wire rest) with h | h
  · obtain ⟨left, rfl⟩ := h
    obtain ⟨ctx₁, out₁, out₂, hrun, hleft, rfl⟩ := Transducer.run_append_some.1 hwire
    obtain ⟨rfl, rfl⟩ := Prod.mk.inj (Option.some.inj (hread.symm.trans hrun))
    exact ⟨left, out₂, rfl, rfl, hleft⟩
  · obtain ⟨more, rfl⟩ := h
    obtain ⟨ctx₁, out₁, out₂, hrun, hmore, rfl⟩ := Transducer.run_append_some.1 hread
    obtain ⟨rfl, rfl⟩ := Prod.mk.inj (Option.some.inj (hwire.symm.trans hrun))
    rcases more with _ | ⟨c, more⟩
    · obtain ⟨rfl, rfl⟩ := Prod.mk.inj (Option.some.inj hmore)
      exact ⟨[], [], by simp, by simp, by simp⟩
    · rw [Transducer.run_cons_none _ (by simp [bodyByte, hend])] at hmore
      simp at hmore

/-- A body of the grammar is on the connection, within the limit, and something after it: its
    trailers can be read from there. -/
structure HasBody (t : Transfer W) (wire body rest : Bytes) : Prop where
  grammar : ChunkedBody t.cfg wire body
  onWire : t.wire = wire ++ rest
  within : t.start.limit ≠ 0 → body.length ≤ t.start.limit
  more : rest ≠ []
  trailers : ∀ w, t.pending w = rest → (t.getMimeHeaders w).1 = true

theorem HasBody.read (h : t.HasBody wire body rest) (hstart : t.start = Ctx.chunked limit) :
    ∃ ctx, t.Read ctx wire body ∧ ctx.state = .chunkTrailer :=
  run_chunkedBody (by rw [hstart]; rfl) h.grammar

/-- Nothing is wrong with it. -/
theorem HasBody.not_fails (h : t.HasBody wire body rest) (hstart : t.start = Ctx.chunked limit) :
    ¬ t.Fails used := by
  obtain ⟨ctx, hwire, hend⟩ := h.read hstart
  obtain ⟨hbody, hall, hlimit, -, htrailers⟩ := h
  rintro (⟨hread, hlines, hlf, hsplit, hrefused⟩ | ⟨hread, hsplit, hne, hlong⟩ |
    ⟨hread, hstate, hsplit, hbad⟩) <;> rw [hall] at hsplit
  · rename_i ctx₁ out₁ line rest'
    rw [List.append_assoc] at hsplit
    obtain ⟨left, out', hleft, -, hrun⟩ := read_prefix hwire hend hread hsplit
    rw [hleft, List.append_assoc] at hsplit
    -- the line is not all in the body
    have hout : ∀ more, left ≠ line ++ more := by
      rintro more rfl
      rw [hleft, ← List.append_assoc] at hwire
      obtain ⟨ctx₂, out₂, -, hin, -⟩ := Transducer.run_append_some.1 hwire
      exact hrefused ctx₂ out₂ hin
    rcases List.append_eq_append_iff.1 (List.append_cancel_left hsplit) with
      ⟨more, hmore, -⟩ | ⟨more, hmore, -⟩
    · exact hout more hmore
    · -- and does not go on after it
      have hnil : left ≠ [] := by
        rintro rfl
        obtain ⟨rfl, -⟩ := Prod.mk.inj (Option.some.inj hrun)
        rw [hend] at hlines
        rcases hlines with h | (h | h | h | h) | h | h <;> exact absurd h (by decide)
      have hmem : LF ∈ left := by
        have hlast := hbody.ends
        rw [hleft, List.getLast?_append_of_ne_nil _ hnil] at hlast
        exact List.mem_of_getLast? hlast
      have hmore' : more ≠ [] := by
        rintro rfl
        exact hout [] (by simpa using hmore.symm)
      rw [hmore, List.dropLast_append_of_ne_nil hmore'] at hlf
      exact hlf (List.mem_append_left _ hmem)
  · obtain ⟨left, out', -, hout, -⟩ := read_prefix hwire hend hread hsplit
    have hlen := congrArg List.length hout
    rw [List.length_append] at hlen
    have := hlimit hne
    omega
  · obtain ⟨left, out', hleft, -, hrun⟩ := read_prefix hwire hend hread hsplit
    rcases left with _ | ⟨c, left⟩
    · rw [List.append_nil] at hleft
      subst hleft
      exact absurd (htrailers _ (List.append_cancel_left hsplit)) (by simp [hbad])
    · rw [Transducer.run_cons_none _ (by simp [bodyByte, hstate])] at hrun
      simp at hrun

/-- The connection does not end before it does. -/
theorem HasBody.not_starved (h : t.HasBody wire body rest) (hstart : t.start = Ctx.chunked limit) :
    ¬ t.Starved := by
  obtain ⟨ctx, hwire, hend⟩ := h.read hstart
  rintro ⟨x, used, out, hx, hnil, -⟩
  have hsplit := hx.wire
  rw [hnil, h.onWire] at hsplit
  obtain ⟨left, -, hleft, -⟩ := read_prefix hwire hend hx.read hsplit
  have hlen := congrArg List.length hsplit
  have hlen' := congrArg List.length hleft
  have hpos := List.length_pos_of_ne_nil h.more
  simp only [List.length_append, List.length_nil] at hlen hlen'
  omega

/-- A call gets some bytes of a body that nothing is wrong with, or its end, or has to wait. -/
theorem Reads.gets (hlaw : t.Lawful) (hsane : t.start.Sane t.cfg) (hsize : t.wire.length < 2 ^ 63)
    (hmore : ¬ t.Starved) (hbroken : ¬ t.Broken) (hok : ∀ used, ¬ t.Fails used)
    (h : t.Reads z used out) {call : Call} (hmode : call.mode = .readbytes)
    (hcall : 0 < call.readbytes) {fuel : ℕ} (hfuel : (t.pending z.next).length < fuel) :
    ∃ status b z',
      apHttpFilter t.cfg t.get t.brigadeLength t.getMimeHeaders fuel call z =
          some (.ret status b, z') ∧
        (status = .success ∧ (Brigade.content b ≠ [] ∨ .eos ∈ b) ∨
          status = .eagain ∧ call.nonblock = true) := by
  obtain ⟨reply, z', hreply⟩ := filterLoop_some hlaw hsane hsize hmore h hmode hcall hfuel
  rw [apHttpFilter_open hmode h.eosSent, hreply]
  cases filterLoop_outcome hlaw hsane hsize h hmode hcall hreply with
  | stays _ _ hwhy _ =>
    rcases hwhy with ⟨hnon, hagain⟩ | hstarved | hb
    · exact ⟨_, _, _, rfl, Or.inr ⟨hagain, hnon⟩⟩
    · exact absurd hstarved hmore
    · exact absurd hb hbroken
  | data _ _ hsome _ => exact ⟨_, _, _, rfl, Or.inl ⟨rfl, Or.inl (hsome.resolve_right hmore)⟩⟩
  | ends _ hb _ => exact ⟨_, _, _, rfl, Or.inl ⟨rfl, Or.inr hb⟩⟩
  | fails hfails _ => exact absurd hfails (hok _)

/-- A call gets some bytes of it, or its end, or has to wait. -/
theorem HasBody.gets (hbody : t.HasBody wire body rest) (hlaw : t.Lawful)
    (hstart : t.start = Ctx.chunked limit) (hlimit : 0 ≤ limit) (hsize : t.wire.length < 2 ^ 63)
    (hw : t.pending w = t.wire) (h : Session t ⟨t.start, w, keepalive⟩ bs failed z)
    (hbroken : ¬ t.Broken) {call : Call} (hmode : call.mode = .readbytes)
    (hcall : 0 < call.readbytes) {fuel : ℕ} (hfuel : (t.pending z.next).length < fuel) :
    ∃ status b z',
      apHttpFilter t.cfg t.get t.brigadeLength t.getMimeHeaders fuel call z =
          some (.ret status b, z') ∧
        (status = .success ∧ (Brigade.content b ≠ [] ∨ .eos ∈ b) ∨
          status = .eagain ∧ call.nonblock = true) := by
  cases h.inChunked hlaw hstart hlimit hsize hw with
  | reads _ _ _ hz =>
    exact hz.gets hlaw (hlaw.sane_chunked hstart) hsize (hbody.not_starved hstart) hbroken
      (fun _ => hbody.not_fails hstart) hmode hcall hfuel
  | ends _ _ _ hz =>
    exact ⟨_, _, _, apHttpFilter_eos hmode hz.eosSent, Or.inl ⟨rfl, Or.inr (by simp)⟩⟩
  | stopped _ hz =>
    obtain ⟨used, hfails⟩ := hz.fails
    exact absurd hfails (hbody.not_fails hstart)

end Transfer

end Httpd
