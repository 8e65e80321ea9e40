/-
  The input filter over any next filter that hands over the bytes of the connection, in
  whatever pieces. What it delivers is the body, what it takes from the connection is the body
  and its trailers, and it is done with them when it says so.
-/
import Cnam.Httpd.ChunkPieces

namespace Httpd

/-! ## Positions -/

section
variable {cfg : Config} {ctx ctx' : Position} {c : UInt8} {data out : Bytes}

/-- What holds of every position: nothing is negative, and a chunk whose data is expected has
    some. -/
structure Position.Sane (cfg : Config) (ctx : Position) : Prop where
  state : ctx.state ≠ .none
  nonneg : 0 ≤ ctx.remaining
  fits : ctx.remaining < 2 ^ 63
  some : ctx.state = .chunkData → 0 < ctx.remaining
  counted : ctx.Counted cfg

theorem off_lt (n : ℤ) : off n < 2 ^ 63 := by
  rw [off, Int.bmod_def]
  split_ifs <;> omega

theorem SizeStep.sane {strict : Bool} (hs : ctx.Sane cfg) (h : SizeStep strict ctx c ctx') :
    ctx'.Sane cfg := by
  cases h with
  | lf h =>
    refine ⟨?_, hs.nonneg, hs.fits, ?_, hs.counted⟩
    · simp only
      split_ifs <;> simp
    · have := hs.nonneg
      simp only
      split_ifs with hzero
      · omega
      · simp
  | cr | semicolon | blank => exact ⟨by simp, hs.nonneg, hs.fits, by simp, hs.counted⟩
  | ext | zero => exact hs
  | digit h _ _ _ hoff => exact ⟨hs.state, hoff, off_lt _, by simp [h], hs.counted⟩

theorem lineByte_sane (hlimit : 0 ≤ cfg.limitReqFieldsize) (hs : ctx.Sane cfg)
    (hlines : ctx.state.Lines) (h : lineByte cfg.strict ctx c = (.success, ctx')) :
    ctx'.Sane cfg := by
  rcases hlines with hchunk | hline | hend
  · have hstart : Position.lineStart.Sane cfg :=
      ⟨by decide, by decide, by decide, by decide, by decide, hlimit⟩
    exact ((lineByte_chunk hchunk).1 h).2.sane hstart
  · exact ((lineByte_inLine hline).1 h).sane hs
  · rcases (lineByte_end hend).1 h with ⟨-, -, rfl⟩ | ⟨-, -, rfl⟩ <;>
      exact ⟨by simp, hs.nonneg, hs.fits, by simp, hs.counted⟩

theorem BodyState.cases (s : BodyState) :
    s.Lines ∨ s = .none ∨ s = .length ∨ s = .chunkData ∨ s = .chunkTrailer := by
  cases s <;> simp [BodyState.Lines, BodyState.InLine]

theorem bodyByte_sane (hlimit : 0 ≤ cfg.limitReqFieldsize) (hs : ctx.Sane cfg)
    (h : bodyByte cfg ctx c = some (ctx', out)) : ctx'.Sane cfg := by
  have hnonneg := hs.nonneg
  have hfits := hs.fits
  rcases ctx.state.cases with hlines | hstate | hstate | hstate | hstate
  · obtain ⟨ctx₀, hline, hcount, hr⟩ := (bodyByte_lines hlines).1 h
    obtain ⟨rfl, -⟩ := Prod.mk.inj hr
    have hs₀ := lineByte_sane hlimit hs hlines hline
    have h0 := hs₀.counted.1
    exact ⟨hs₀.state, hs₀.nonneg, hs₀.fits, hs₀.some, by simp only; omega, hcount⟩
  · simp [bodyByte, hstate] at h
  · simp only [bodyByte, hstate] at h
    split_ifs at h with hpos
    obtain ⟨rfl, -⟩ := Prod.mk.inj (Option.some.inj h)
    exact ⟨by simp, by simp only; omega, by simp only; omega, by simp, hs.counted⟩
  · rw [bodyByte_data hstate] at h
    obtain ⟨rfl, -⟩ := Prod.mk.inj (Option.some.inj h)
    by_cases hmore : 1 < ctx.remaining
    · rw [if_pos hmore]
      exact ⟨hs.state, by simp only; omega, by simp only; omega, fun _ => by simp only; omega,
        hs.counted⟩
    · rw [if_neg hmore]
      exact ⟨by simp, le_rfl, by simp, by simp, le_rfl, hlimit⟩
  · simp [bodyByte, hstate] at h

theorem run_sane (hlimit : 0 ≤ cfg.limitReqFieldsize) (hs : ctx.Sane cfg)
    (h : Transducer.run (bodyByte cfg) ctx data = some (ctx', out)) : ctx'.Sane cfg :=
  Transducer.run_history (H := fun _ ctx _ => ctx.Sane cfg) hs
    (fun _ _ _ _ _ _ hs hstep => bodyByte_sane hlimit hs hstep) h

theorem run_length (hstate : ctx.state = .length) (hle : data.length ≤ ctx.remaining)
    (hfits : ctx.remaining < 2 ^ 63) :
    Transducer.run (bodyByte cfg) ctx data =
      some ({ ctx with remaining := ctx.remaining - data.length }, data) := by
  induction data generalizing ctx with
  | nil => simp
  | cons c data ih =>
    rw [List.length_cons] at hle ⊢
    push_cast at hle ⊢
    have hbyte : bodyByte cfg ctx c = some ({ ctx with remaining := ctx.remaining - 1 }, [c]) := by
      simp only [bodyByte, hstate]
      exact if_pos (by omega)
    have hrest : Transducer.run (bodyByte cfg) { ctx with remaining := ctx.remaining - 1 } data =
        _ := ih hstate (by simp only; omega) (by simp only; omega)
    rw [Transducer.run_cons _ hbyte, hrest, Option.map_some, sub_sub, add_comm (1 : ℤ)]
    rfl

/-- **A piece of data** is read as it is. -/
theorem run_piece (hs : ctx.Sane cfg) (hstate : ctx.state = .length ∨ ctx.state = .chunkData)
    (hle : data.length ≤ ctx.remaining) :
    Transducer.run (bodyByte cfg) ctx data = some (ctx.afterRead data.length, data) := by
  rcases hstate with hstate | hstate
  · rw [run_length hstate hle hs.fits, Position.afterRead, if_neg (by rw [hstate]; decide),
      off_of_nonneg (by omega) (by have := hs.fits; omega)]
    simp [hstate]
  · by_cases hnil : data = []
    · subst hnil
      have hpos := hs.some hstate
      rw [List.length_nil, Nat.cast_zero, afterRead_data hstate le_rfl hs.nonneg hs.fits,
        if_pos hpos, sub_zero]
      rfl
    · exact run_data hstate hnil hle hs.fits

end

/-! ## What does not parse -/

/-- A line does not parse: its first pieces do, and the one after them, with those that follow, is
    what is left. -/
def LeftFrom (cfg : Config) (ctx : Position) (pieces left : List Bytes) : Prop :=
  ∃ before, pieces = before ++ left ∧ left ≠ [] ∧ (parseLine cfg ctx before).1 = .success

theorem LeftFrom.cons {cfg : Config} {ctx : Position} {buffer : Bytes} {pieces left : List Bytes}
    (hok : (parseChunkSize cfg ctx buffer).1 = .success)
    (h : LeftFrom cfg (parseChunkSize cfg ctx buffer).2 pieces left) :
    LeftFrom cfg ctx (buffer :: pieces) left := by
  obtain ⟨before, rfl, hne, hparsed⟩ := h
  refine ⟨buffer :: before, rfl, hne, ?_⟩
  rw [parseLine, if_pos hok]
  exact hparsed

theorem leftFrom_self {cfg : Config} {ctx : Position} {pieces : List Bytes} (h : pieces ≠ []) :
    LeftFrom cfg ctx pieces pieces := ⟨[], rfl, h, rfl⟩

/-- **What a line that does not parse leaves in the brigade.** -/
theorem leftFrom_unparsed {cfg : Config} {ctx : Position} {b : Brigade}
    (h : (parseLine cfg ctx b.pieces).1 ≠ .success) :
    LeftFrom cfg ctx b.pieces (Brigade.pieces (unparsed cfg ctx b)) := by
  induction b generalizing ctx with
  | nil => exact absurd rfl h
  | cons e b ih =>
    cases e with
    | data bytes =>
      rw [unparsed]
      change (parseLine cfg ctx (bytes :: Brigade.pieces b)).1 ≠ .success at h
      change LeftFrom cfg ctx (bytes :: Brigade.pieces b) _
      rw [parseLine] at h
      by_cases hok : (parseChunkSize cfg ctx bytes).1 = .success
      · simp only [if_pos hok] at h ⊢
        exact (ih h).cons hok
      · simp only [if_neg hok]
        exact leftFrom_self (List.cons_ne_nil _ _)
    | pipe reads =>
      rw [unparsed]
      change (parseLine cfg ctx (reads.map Subtype.val ++ Brigade.pieces b)).1 ≠ .success at h
      change LeftFrom cfg ctx (reads.map Subtype.val ++ Brigade.pieces b) _
      induction reads generalizing ctx with
      | nil => exact ih h
      | cons bytes reads ihreads =>
        rw [List.map_cons, List.cons_append, parseLine] at h
        rw [List.map_cons, List.cons_append, unparsedPipe]
        by_cases hok : (parseChunkSize cfg ctx bytes.1).1 = .success
        · simp only [if_pos hok] at h ⊢
          exact (ihreads h).cons hok
        · simp only [if_neg hok]
          exact leftFrom_self (List.cons_ne_nil _ _)
    | _ => exact ih h

/-! ## A body on a connection -/

/-- The filter with the next one, the bytes that are pending in each state of that, and where
    the body starts. -/
structure Transfer (W : Type) where
  cfg : Config
  get : NextFilter W
  brigadeLength : Brigade → ℤ
  getMimeHeaders : W → Bool × W
  pending : W → Bytes
  start : Ctx
  wire : Bytes

variable {W : Type} {t : Transfer W}

namespace Transfer

/-- The calls of the next filter. -/
def Asks (call : Call) : Prop :=
  call.mode = .getline ∨ call.mode = .readbytes ∧ 0 < call.readbytes

/-- What `http_filters.c` relies on: the next filter hands over the bytes that are pending on
    the connection, in order, no more than it is asked for and nothing past the end of a line;
    at least one, or a reason, while there are any, in buckets whose length is known when an
    amount is asked for; it takes nothing when the reader has to wait; and the trailers are read
    from there. -/
structure Lawful (t : Transfer W) : Prop where
  waits : ∀ call w, Asks call → (t.get call w).1 = .eagain →
    t.pending (t.get call w).2.2 = t.pending w
  bytes : ∀ call w, Asks call → (t.get call w).1 = .success →
    Brigade.content (t.get call w).2.1 ++ t.pending (t.get call w).2.2 = t.pending w
  line : ∀ call w, call.mode = .getline → (t.get call w).1 = .success →
    LF ∉ (Brigade.content (t.get call w).2.1).dropLast ∧
      (Brigade.content (t.get call w).2.1).length < 2 ^ 31
  amount : ∀ call w, call.mode = .readbytes → 0 < call.readbytes →
    (t.get call w).1 = .success →
    t.brigadeLength (t.get call w).2.1 = (Brigade.content (t.get call w).2.1).length ∧
      (Brigade.content (t.get call w).2.1).length ≤ call.readbytes
  progress : ∀ call w, Asks call → (t.get call w).1 = .success → t.pending w ≠ [] →
    Bucket.eos ∉ (t.get call w).2.1 ∧ (Brigade.content (t.get call w).2.1 ≠ [] ∨
      call.nonblock = true ∧ (t.get call w).2.1 = [])
  eosLast : ∀ call w, Asks call → (t.get call w).1 = .success →
    Bucket.eos ∈ (t.get call w).2.1 → (t.get call w).2.1.getLast? = some .eos
  trailers : ∀ w, (t.getMimeHeaders w).1 = true →
    ∃ fields, fields ++ t.pending (t.getMimeHeaders w).2 = t.pending w
  strict : t.cfg.limitReqFieldsize < 2 ^ 31
  fieldsize : 0 ≤ t.cfg.limitReqFieldsize

/-- The bytes that were read, and what they were delivered as. -/
def Read (t : Transfer W) (ctx : Position) (used out : Bytes) : Prop :=
  Transducer.run (bodyByte t.cfg) t.start.toPosition used = some (ctx, out)

/-- In the body: some bytes were read, and what they are was delivered. -/
structure Reads (t : Transfer W) (x : Reading W) (used out : Bytes) : Prop where
  wire : used ++ t.pending x.next = t.wire
  read : t.Read x.ctx.toPosition used out
  more : x.ctx.state ≠ .chunkTrailer
  eosSent : x.ctx.eosSent = false
  sameLimit : x.ctx.limit = t.start.limit
  limitUsed : t.start.limit ≠ 0 →
    x.ctx.limitUsed = out.length ∧ out.length ≤ t.start.limit

/-- At the end of the body, after its trailers. -/
structure Ends (t : Transfer W) (x : Reading W) (used out : Bytes) : Prop where
  eosSent : x.ctx.eosSent = true
  limitUsed : t.start.limit ≠ 0 → out.length ≤ t.start.limit
  body : ∃ ctx, t.Read ctx used out ∧
    (ctx.state = .length ∧ ctx.remaining = 0 ∧ used ++ t.pending x.next = t.wire ∨
      ctx.state = .chunkTrailer ∧ ∃ w, used ++ t.pending w = t.wire ∧
        t.getMimeHeaders w = (true, x.next))

/-- Why a body cannot be read. -/
inductive Fails (t : Transfer W) (used : Bytes) : Prop
  /-- a line is none of a chunked body, or too long -/
  | line {ctx out line rest} : t.Read ctx used out → ctx.state.Lines → LF ∉ line.dropLast →
      used ++ line ++ rest = t.wire → (∀ ctx' out', ¬ t.Read ctx' (used ++ line) out') →
      Fails t used
  /-- the body is too long -/
  | limit {ctx out rest} : t.Read ctx used out → used ++ rest = t.wire → t.start.limit ≠ 0 →
      t.start.limit < out.length → Fails t used
  /-- something is wrong with the trailers -/
  | trailers {ctx out w} : t.Read ctx used out → ctx.state = .chunkTrailer →
      used ++ t.pending w = t.wire → (t.getMimeHeaders w).1 = false → Fails t used

/-- The reply is no success, and no request to wait; after an error page nothing more is read from
    the connection, which is not kept. -/
def Reply.IsError (x : Reading W) : Reply → Prop
  | .ret status _ => status ≠ .success ∧ status ≠ .eagain
  | .error _ _ => x.ctx.eosSent = true ∧ x.keepalive = false

/-- The connection can end before the body does. -/
def Starved (t : Transfer W) : Prop :=
  ∃ x used out, t.Reads x used out ∧ t.pending x.next = [] ∧
    (x.ctx.state = .length → 0 < x.ctx.remaining)

/-- The next filter gives up, though bytes are pending. -/
def Broken (t : Transfer W) : Prop :=
  ∃ call w, Asks call ∧ t.pending w ≠ [] ∧ (t.get call w).1 ≠ .success ∧
    ¬ (call.nonblock = true ∧ (t.get call w).1 = .eagain)

/-- What a call comes to, after `used` was read and `out` delivered. -/
inductive Outcome (t : Transfer W) (call : Call) (x : Reading W) (used out : Bytes) :
    Reply → Reading W → Prop
  | stays {status b x'} : status ≠ .success →
      (status = .eagain → ∃ u, t.Reads x' (used ++ u) out) →
      call.nonblock = true ∧ status = .eagain ∨ t.Starved ∨ t.Broken →
      x'.keepalive = x.keepalive → Outcome t call x used out (.ret status b) x'
  | data {b u x'} : t.Reads x' (used ++ u) (out ++ Brigade.content b) → .eos ∉ b →
      Brigade.content b ≠ [] ∨ t.Starved → x'.keepalive = x.keepalive →
      Outcome t call x used out (.ret .success b) x'
  | ends {b u x'} : t.Ends x' (used ++ u) (out ++ Brigade.content b) → .eos ∈ b →
      x'.keepalive = x.keepalive → Outcome t call x used out (.ret .success b) x'
  | fails {reply u x'} : t.Fails (used ++ u) → Reply.IsError x' reply →
      Outcome t call x used out reply x'

section
variable {x : Reading W} {used out : Bytes} {call : Call}

theorem Reads.sane (hlaw : t.Lawful) (hstart : t.start.Sane t.cfg) (h : t.Reads x used out) :
    x.ctx.Sane t.cfg := run_sane hlaw.fieldsize hstart h.read

/-- Nothing was read, and another state of the next filter has the same bytes. -/
theorem Reads.next (h : t.Reads x used out) {w : W} (hw : t.pending w = t.pending x.next) :
    ∃ u, t.Reads { x with next := w } (used ++ u) out := by
  refine ⟨[], ?_⟩
  rw [List.append_nil]
  exact ⟨by rw [hw]; exact h.wire, h.read, h.more, h.eosSent, h.sameLimit, h.limitUsed⟩

/-- A call that would block leaves everything pending. -/
theorem Lawful.same (hlaw : t.Lawful) {call : Call} (hasks : Asks call) (w : W)
    (h : wouldBlock call (t.get call w).1 (t.get call w).2.1 = true ∨
      (t.get call w).1 = .eagain) : t.pending (t.get call w).2.2 = t.pending w := by
  by_cases hwait : (t.get call w).1 = .eagain
  · exact hlaw.waits call w hasks hwait
  · have hempty : call.nonblock = true ∧ (t.get call w).1 = .success ∧
        (t.get call w).2.1 = [] := by
      simpa [wouldBlock, hwait] using h.resolve_right hwait
    have hbytes := hlaw.bytes call w hasks hempty.2.1
    rw [hempty.2.2] at hbytes
    exact hbytes

theorem length_out_le {cfg : Config} {ctx ctx' : Position} {data out : Bytes}
    (h : Transducer.run (bodyByte cfg) ctx data = some (ctx', out)) :
    out.length ≤ data.length := by
  refine Transducer.run_history (H := fun data _ out => out.length ≤ data.length) le_rfl ?_ h
  intro data ctx out c ctx' out' hle hstep
  have hone : out'.length ≤ 1 := by
    rcases ctx.state.cases with hlines | hstate | hstate | hstate | hstate
    · obtain ⟨_, _, _, hr⟩ := (bodyByte_lines hlines).1 hstep
      simp [(Prod.mk.inj hr).2]
    · simp [bodyByte, hstate] at hstep
    · simp only [bodyByte, hstate] at hstep
      split_ifs at hstep
      simp [← (Prod.mk.inj (Option.some.inj hstep)).2]
    · rw [bodyByte_data hstate] at hstep
      simp [← (Prod.mk.inj (Option.some.inj hstep)).2]
    · simp [bodyByte, hstate] at hstep
  simp only [List.length_append, List.length_singleton]
  omega

theorem nonblock_of_wouldBlock {status : AprStatus} {b : Brigade}
    (h : wouldBlock call status b = true) : call.nonblock = true := (Bool.and_eq_true_iff.1 h).1

/-- Why the next filter gave nothing. -/
theorem stays_of_not_ok (h : t.Reads x used out) {call' : Call} (hasks : Asks call')
    (hnon : call'.nonblock = call.nonblock) {status : AprStatus} {b : Brigade} {next : W}
    (hget : t.get call' x.next = (status, b, next)) (hblock : wouldBlock call status b ≠ true)
    (hok : status ≠ .success) (hmore : x.ctx.state = .length → 0 < x.ctx.remaining) :
    t.Starved ∨ t.Broken := by
  by_cases hnil : t.pending x.next = []
  · exact Or.inl ⟨x, used, out, h, hnil, hmore⟩
  · refine Or.inr ⟨call', x.next, hasks, hnil, by rwa [hget], fun hwait => hblock ?_⟩
    rw [hget, hnon] at hwait
    have hagain : status = .eagain := hwait.2
    simp [wouldBlock, hwait.1, hagain]

/-- After a piece of data. -/
theorem lengthEnd_outcome {x' : Reading W} {u : Bytes} {b : Brigade}
    (h : t.Reads x' (used ++ u) (out ++ Brigade.content b)) (hkeep : x'.keepalive = x.keepalive)
    (hb : .eos ∉ b) (hsome : x'.ctx.state = .length ∧ x'.ctx.remaining = 0 ∨
      Brigade.content b ≠ [] ∨ t.Starved) :
    Outcome t call x used out (lengthEnd x' b).1 (lengthEnd x' b).2 := by
  unfold lengthEnd
  by_cases hend : x'.ctx.state = .length ∧ x'.ctx.remaining = 0
  · rw [if_pos hend]
    have hcontent : Brigade.content (b ++ [.eos]) = Brigade.content b := by
      simp [Brigade.content_snoc, Bucket.pieces]
    refine .ends (u := u) ⟨rfl, ?_, x'.ctx.toPosition, ?_, Or.inl ⟨hend.1, hend.2, h.wire⟩⟩
      (by simp) hkeep
    · rw [hcontent]
      exact fun hlimit => (h.limitUsed hlimit).2
    · rw [hcontent]
      exact h.read
  · rw [if_neg hend]
    exact .data h hb (hsome.resolve_left hend) hkeep

theorem bailOut_outcome {x' : Reading W} {u : Bytes} {b : Brigade} {code : ℕ}
    (h : t.Fails (used ++ u)) :
    Outcome t call x used out (bailOutOnError t.cfg x' b code).1
      (bailOutOnError t.cfg x' b code).2 := by
  refine .fails h ?_
  unfold bailOutOnError
  split_ifs
  · simp only [Reply.IsError]
    split <;> simp
  · exact ⟨rfl, rfl⟩

theorem afterRead_more {ctx : Position} {n : ℤ} (h : ctx.state ≠ .chunkTrailer) :
    (ctx.afterRead n).state ≠ .chunkTrailer := by
  unfold Position.afterRead
  split_ifs
  · exact h
  · simp only
    split_ifs
    · simp
    · exact h

/-- **A turn in the data** of a body. -/
theorem dataTurn_outcome (hlaw : t.Lawful) (hstart : t.start.Sane t.cfg)
    (hsize : t.wire.length < 2 ^ 63) (h : t.Reads x used out)
    (hstate : x.ctx.state = .length ∨ x.ctx.state = .chunkData) (hmode : call.mode = .readbytes)
    (hcall : 0 < call.readbytes) :
    Outcome t call x used out (dataTurn t.cfg t.get t.brigadeLength call x).1
      (dataTurn t.cfg t.get t.brigadeLength call x).2 := by
  have hs := h.sane hlaw hstart
  have hne : x.ctx.state ≠ .none := hs.state
  unfold dataTurn
  set readbytes := if x.ctx.state ≠ .none ∧ x.ctx.remaining < call.readbytes then
    x.ctx.remaining else call.readbytes with hread
  have hle : readbytes ≤ x.ctx.remaining := by
    rw [hread]
    split_ifs with hlt
    · exact le_rfl
    · exact not_lt.1 fun h => hlt ⟨hne, h⟩
  by_cases hpos : readbytes > 0
  · rw [if_pos hpos]
    have hasks : Asks { call with readbytes := readbytes } := Or.inr ⟨hmode, hpos⟩
    have hmore : x.ctx.state = .length → 0 < x.ctx.remaining := fun _ => hpos.trans_le hle
    have hsame := hlaw.same hasks x.next
    have hbytes := hlaw.bytes _ x.next hasks
    have hamount := hlaw.amount { call with readbytes := readbytes } x.next hmode hpos
    have hprogress := hlaw.progress _ x.next hasks
    have hlast := hlaw.eosLast _ x.next hasks
    rcases hget : t.get { call with readbytes := readbytes } x.next with ⟨rv, b, next⟩
    rw [hget] at hsame hbytes hamount hprogress hlast
    simp only at hsame hbytes hamount hprogress hlast ⊢
    by_cases hblock : wouldBlock call rv b = true
    · rw [if_pos hblock]
      exact .stays (by simp) (fun _ => h.next (hsame (Or.inl hblock)))
        (Or.inl ⟨nonblock_of_wouldBlock hblock, rfl⟩) rfl
    rw [if_neg hblock]
    by_cases heof : rv = .eof ∧ x.ctx.state ≠ .none ∧ x.ctx.remaining > 0
    · rw [if_pos heof]
      have hno : rv ≠ .success := by simp [heof.1]
      exact .stays (by simp) (by simp) (Or.inr (stays_of_not_ok h hasks rfl hget hblock hno hmore))
        rfl
    rw [if_neg heof]
    by_cases hok : rv = .success
    · rw [if_neg (not_not.2 hok)]
      obtain ⟨hlen, hfew⟩ := hamount hok
      have hrun : Transducer.run (bodyByte t.cfg) x.ctx.toPosition (Brigade.content b) =
          some (x.ctx.afterRead (t.brigadeLength b), Brigade.content b) := by
        rw [hlen]
        exact run_piece hs hstate (hfew.trans hle)
      have hread' : t.Read (x.ctx.afterRead (t.brigadeLength b)) (used ++ Brigade.content b)
          (out ++ Brigade.content b) := Transducer.run_append h.read hrun
      have hwire : used ++ Brigade.content b ++ t.pending next = t.wire := by
        rw [List.append_assoc, hbytes hok, h.wire]
      have hnext : (x.ctx.afterRead (t.brigadeLength b)).state ≠ .chunkTrailer :=
        afterRead_more h.more
      -- without anything pending, nothing was read
      have hnone : t.pending x.next = [] → Brigade.content b = [] := by
        intro hnil
        have hempty := hbytes hok
        rw [hnil] at hempty
        exact (List.append_eq_nil_iff.1 hempty).1
      by_cases hcut : x.ctx.state ≠ .none ∧ (x.ctx.afterRead (t.brigadeLength b)).remaining > 0 ∧
          b.getLast? = some .eos
      · rw [if_pos hcut]
        have hnil : t.pending x.next = [] := by
          by_contra hne'
          exact (hprogress hok hne').1 (List.mem_of_getLast? hcut.2.2)
        exact .stays (by simp) (by simp) (Or.inr (Or.inl ⟨x, used, out, h, hnil, hmore⟩)) rfl
      rw [if_neg hcut]
      have hb : Bucket.eos ∉ b := by
        intro heos
        have hnil : t.pending x.next = [] := by
          by_contra hne'
          exact (hprogress hok hne').1 heos
        rw [hnone hnil, Transducer.run_nil] at hrun
        have hctx := (Prod.mk.inj (Option.some.inj hrun)).1
        exact hcut ⟨hne, by rw [← hctx]; exact hpos.trans_le hle, hlast hok heos⟩
      have hsome : Brigade.content b ≠ [] ∨ t.Starved := by
        by_cases hnil : t.pending x.next = []
        · exact Or.inr ⟨x, used, out, h, hnil, hmore⟩
        · refine (hprogress hok hnil).2.imp id fun hwait => absurd ?_ hblock
          simp [wouldBlock, hok, hwait]
      by_cases hlimit : x.ctx.limit ≠ 0
      · rw [if_pos hlimit]
        rw [h.sameLimit] at hlimit ⊢
        have hused : off (x.ctx.limitUsed + t.brigadeLength b) =
            ((out ++ Brigade.content b).length : ℕ) := by
          have hout := length_out_le hread'
          have hwire' := congrArg List.length hwire
          rw [(h.limitUsed hlimit).1, hlen]
          simp only [List.length_append] at hout hwire' ⊢
          rw [off_of_nonneg (by omega) (by omega)]
          push_cast
          rfl
        rw [hused]
        by_cases hlong : t.start.limit < ((out ++ Brigade.content b).length : ℕ)
        · rw [if_pos hlong]
          exact bailOut_outcome (.limit hread' hwire hlimit hlong)
        · rw [if_neg hlong]
          exact lengthEnd_outcome (u := Brigade.content b) ⟨hwire, hread', hnext, h.eosSent,
            rfl, fun _ => ⟨rfl, not_lt.1 hlong⟩⟩ rfl hb (Or.inr hsome)
      · rw [if_neg hlimit]
        refine lengthEnd_outcome (u := Brigade.content b) ⟨hwire, hread', hnext, h.eosSent,
          h.sameLimit, fun hl => absurd (h.sameLimit ▸ hl) hlimit⟩ rfl hb (Or.inr hsome)
    · rw [if_pos hok]
      exact .stays hok (fun hwait => h.next (hsame (Or.inr hwait)))
        (Or.inr (stays_of_not_ok h hasks rfl hget hblock hok hmore)) rfl
  · rw [if_neg hpos]
    have hzero : x.ctx.state = .length ∧ x.ctx.remaining = 0 := by
      have hnonneg := hs.nonneg
      have hrem : x.ctx.remaining = 0 := by
        rw [hread] at hpos
        split_ifs at hpos <;> omega
      refine ⟨hstate.resolve_right fun hdata => ?_, hrem⟩
      exact absurd (hs.some hdata) (by omega)
    have hnothing : t.Reads x (used ++ []) (out ++ Brigade.content []) := by
      simpa [Brigade.content, Brigade.pieces] using h
    exact lengthEnd_outcome hnothing rfl (by simp) (Or.inl hzero)

/-- What a turn that goes on has done. -/
def Again (t : Transfer W) (x : Reading W) (used out : Bytes) (x' : Reading W) : Prop :=
  ∃ u, t.Reads x' (used ++ u) out ∧ x'.keepalive = x.keepalive ∧
    (u ≠ [] ∨ t.Starved)

/-- What a turn does: it replies, or it goes on. -/
def TurnOutcome (t : Transfer W) (call : Call) (x : Reading W) (used out : Bytes) :
    Option Reply × Reading W → Prop
  | (some reply, x') => Outcome t call x used out reply x'
  | (none, x') => Again t x used out x'

/-- **A turn in a line** of a body. -/
theorem lineTurn_outcome (hlaw : t.Lawful) (hstart : t.start.Sane t.cfg) (h : t.Reads x used out)
    (hlines : x.ctx.state.Lines) :
    TurnOutcome t call x used out (lineTurn t.cfg t.get t.getMimeHeaders call x) := by
  have hs := h.sane hlaw hstart
  have hmore : x.ctx.state = .length → 0 < x.ctx.remaining := by
    intro hstate
    rw [hstate] at hlines
    exact absurd hlines (by simp [BodyState.Lines, BodyState.InLine])
  unfold lineTurn
  have hasks : Asks { call with mode := .getline, readbytes := 0 } := Or.inl rfl
  have hsame := hlaw.same hasks x.next
  have hbytes := hlaw.bytes _ x.next hasks
  have hline := hlaw.line { call with mode := .getline, readbytes := 0 } x.next rfl
  have hprogress := hlaw.progress _ x.next hasks
  rcases hget : t.get { call with mode := .getline, readbytes := 0 } x.next with ⟨rv, b, next⟩
  rw [hget] at hsame hbytes hline hprogress
  simp only at hsame hbytes hline hprogress ⊢
  by_cases hblock : wouldBlock call rv b = true
  · rw [if_pos hblock]
    exact .stays (by simp) (fun _ => h.next (hsame (Or.inl hblock)))
      (Or.inl ⟨nonblock_of_wouldBlock hblock, rfl⟩) rfl
  rw [if_neg hblock]
  by_cases heof : rv = .eof
  · rw [if_pos heof]
    have hno : rv ≠ .success := by simp [heof]
    exact .stays (by simp) (by simp) (Or.inr (stays_of_not_ok h hasks rfl hget hblock hno hmore))
      rfl
  rw [if_neg heof]
  by_cases hok : rv = .success
  · rw [if_neg (not_not.2 hok)]
    obtain ⟨hlf, hlen⟩ := hline hok
    have hparse := fun r => run_parseLine (r := r) hlaw.strict hlf hlen hs.counted fun _ => hlines
    have hwire : used ++ Brigade.content b ++ t.pending next = t.wire := by
      rw [List.append_assoc, hbytes hok, h.wire]
    have hsome : Brigade.content b ≠ [] ∨ t.Starved := by
      by_cases hnil : t.pending x.next = []
      · exact Or.inr ⟨x, used, out, h, hnil, hmore⟩
      · refine Or.inl ((hprogress hok hnil).2.resolve_right fun hwait => absurd ?_ hblock)
        simp [wouldBlock, hok, hwait]
    rcases hresult : parseLine t.cfg x.ctx.toPosition b.pieces with ⟨status, ctx⟩
    by_cases hparsed : status = .success
    · subst hparsed
      have hread : t.Read ctx (used ++ Brigade.content b) out := by
        have hrun := Transducer.run_append h.read ((hparse _).2 ⟨ctx, hresult, rfl⟩)
        rwa [List.append_nil] at hrun
      simp only [ne_eq, not_true_eq_false, if_false]
      by_cases htrailer : ctx.state = .chunkTrailer
      · rw [if_pos htrailer]
        unfold readChunkedTrailers
        rcases hmime : t.getMimeHeaders next with ⟨ok, next'⟩
        have heos : Brigade.content [.eos] = [] := rfl
        rcases ok with _ | _
        · exact .fails (.trailers hread htrailer hwire (by rw [hmime])) ⟨by simp, by simp⟩
        · refine .ends ⟨rfl, fun hlimit => ?_, ctx, ?_, Or.inr ⟨htrailer, next, hwire, hmime⟩⟩
            (by simp) rfl
          · rw [heos, List.append_nil]
            exact (h.limitUsed hlimit).2
          · rw [heos, List.append_nil]
            exact hread
      · rw [if_neg htrailer]
        exact ⟨Brigade.content b, ⟨hwire, hread, htrailer, h.eosSent, h.sameLimit, h.limitUsed⟩,
          rfl, hsome⟩
    · simp only [ne_eq, hparsed, not_false_eq_true, if_true]
      refine bailOut_outcome (u := []) (.line (by simpa using h.read) hlines hlf
        (by simpa using hwire) fun ctx' out' hread => hparsed ?_)
      rw [List.append_nil] at hread
      obtain ⟨ctx₁, out₁, out₂, hbefore, hline, -⟩ := Transducer.run_append_some.1 hread
      obtain ⟨rfl, rfl⟩ := Prod.mk.inj (Option.some.inj (h.read.symm.trans hbefore))
      obtain ⟨ctx₂, hok', -⟩ := (hparse _).1 hline
      exact (Prod.mk.inj (hresult.symm.trans hok')).1
  · rw [if_pos hok]
    exact .stays hok (fun hwait => h.next (hsame (Or.inr hwait)))
      (Or.inr (stays_of_not_ok h hasks rfl hget hblock hok hmore)) rfl

theorem filterTurn_outcome (hlaw : t.Lawful) (hstart : t.start.Sane t.cfg)
    (hsize : t.wire.length < 2 ^ 63) (h : t.Reads x used out) (hmode : call.mode = .readbytes)
    (hcall : 0 < call.readbytes) :
    TurnOutcome t call x used out
      (filterTurn t.cfg t.get t.brigadeLength t.getMimeHeaders call x) := by
  have hdata := fun hstate => dataTurn_outcome hlaw hstart hsize h hstate hmode hcall
  rcases x.ctx.state.cases with hlines | hstate | hstate | hstate | hstate
  · have hturn : filterTurn t.cfg t.get t.brigadeLength t.getMimeHeaders call x =
        lineTurn t.cfg t.get t.getMimeHeaders call x := by
      rcases hlines with h | (h | h | h | h) | h | h <;> simp only [filterTurn, h]
    rw [hturn]
    exact lineTurn_outcome hlaw hstart h hlines
  · exact absurd hstate (h.sane hlaw hstart).state
  · simp only [filterTurn, hstate]
    exact hdata (Or.inl hstate)
  · simp only [filterTurn, hstate]
    exact hdata (Or.inr hstate)
  · exact absurd hstate h.more

/-- What a call comes to after some turns. -/
theorem Outcome.before {x' z : Reading W} {u : Bytes} {reply : Reply}
    (h : Outcome t call x' (used ++ u) out reply z) (hkeep : x'.keepalive = x.keepalive) :
    Outcome t call x used out reply z := by
  cases h with
  | stays hstatus hreads hwhy hkeep' =>
    refine .stays hstatus (fun hwait => ?_) hwhy (hkeep'.trans hkeep)
    obtain ⟨v, hv⟩ := hreads hwait
    exact ⟨u ++ v, by rwa [List.append_assoc] at hv⟩
  | data hreads hb hsome hkeep' =>
    rw [List.append_assoc] at hreads
    exact .data hreads hb hsome (hkeep'.trans hkeep)
  | ends hends hb hkeep' =>
    rw [List.append_assoc] at hends
    exact .ends hends hb (hkeep'.trans hkeep)
  | fails hfails herror =>
    rw [List.append_assoc] at hfails
    exact .fails hfails herror

/-- **A call** in the body. -/
theorem filterLoop_outcome (hlaw : t.Lawful) (hstart : t.start.Sane t.cfg)
    (hsize : t.wire.length < 2 ^ 63) (h : t.Reads x used out) (hmode : call.mode = .readbytes)
    (hcall : 0 < call.readbytes) {fuel : ℕ} {reply : Reply} {z : Reading W}
    (hloop : filterLoop t.cfg t.get t.brigadeLength t.getMimeHeaders call fuel x =
      some (reply, z)) :
    Outcome t call x used out reply z := by
  induction fuel generalizing x used with
  | zero => simp [filterLoop] at hloop
  | succ fuel ih =>
    have hturn := filterTurn_outcome hlaw hstart hsize h hmode hcall
    rw [filterLoop] at hloop
    rcases hresult : filterTurn t.cfg t.get t.brigadeLength t.getMimeHeaders call x with
      ⟨_ | reply', x'⟩
    · rw [hresult] at hturn hloop
      obtain ⟨u, hreads, hkeep, -⟩ := hturn
      exact (ih hreads hloop).before hkeep
    · rw [hresult] at hturn hloop
      obtain ⟨rfl, rfl⟩ := Prod.mk.inj (Option.some.inj hloop)
      exact hturn

/-- A call in the body comes to something, with enough fuel and bytes that are pending. -/
theorem filterLoop_some (hlaw : t.Lawful) (hstart : t.start.Sane t.cfg)
    (hsize : t.wire.length < 2 ^ 63)
    (hmore : ¬ t.Starved) (h : t.Reads x used out) (hmode : call.mode = .readbytes)
    (hcall : 0 < call.readbytes)
    {fuel : ℕ} (hfuel : (t.pending x.next).length < fuel) :
    ∃ reply z, filterLoop t.cfg t.get t.brigadeLength t.getMimeHeaders call fuel x =
      some (reply, z) := by
  induction fuel generalizing x used with
  | zero => omega
  | succ fuel ih =>
    have hturn := filterTurn_outcome hlaw hstart hsize h hmode hcall
    rw [filterLoop]
    rcases hresult : filterTurn t.cfg t.get t.brigadeLength t.getMimeHeaders call x with
      ⟨_ | reply, x'⟩
    · rw [hresult] at hturn
      obtain ⟨u, hreads, -, hsome⟩ := hturn
      refine ih hreads ?_
      have hu := List.length_pos_of_ne_nil (hsome.resolve_right hmore)
      have hwire := congrArg List.length (h.wire.trans hreads.wire.symm)
      simp only [List.length_append] at hwire
      omega
    · exact ⟨reply, x', rfl⟩

end

/-! ## Sessions -/

/-- A reader that asks for some bytes, again and again, as long as it gets some, has to wait or
    gets an error page: the brigades it got, whether there was an error page, and where it is. -/
inductive Session (t : Transfer W) (x : Reading W) : List Brigade → Bool → Reading W → Prop
  | start : Session t x [] false x
  | gets {bs failed b y z call fuel} : Session t x bs failed y → call.mode = .readbytes →
      0 < call.readbytes →
      apHttpFilter t.cfg t.get t.brigadeLength t.getMimeHeaders fuel call y =
        some (.ret .success b, z) → Session t x (bs ++ [b]) failed z
  | waits {bs failed b y z call fuel} : Session t x bs failed y → call.mode = .readbytes →
      0 < call.readbytes →
      apHttpFilter t.cfg t.get t.brigadeLength t.getMimeHeaders fuel call y =
        some (.ret .eagain b, z) → Session t x bs failed z
  | fails {bs failed b y z call fuel httpError} : Session t x bs failed y →
      call.mode = .readbytes → 0 < call.readbytes →
      apHttpFilter t.cfg t.get t.brigadeLength t.getMimeHeaders fuel call y =
        some (.error httpError b, z) → Session t x bs true z

/-- The bytes of the brigades. -/
def received (bs : List Brigade) : Bytes := bs.flatMap Brigade.content

/-- The end of the body was seen. -/
def Ended (bs : List Brigade) : Prop := ∃ b ∈ bs, Bucket.eos ∈ b

theorem received_snoc (bs : List Brigade) (b : Brigade) :
    received (bs ++ [b]) = received bs ++ Brigade.content b := by
  simp [received]

theorem ended_snoc {bs : List Brigade} {b : Brigade} :
    Ended (bs ++ [b]) ↔ Ended bs ∨ Bucket.eos ∈ b := by
  simp [Ended, or_and_right, exists_or]

theorem apHttpFilter_eos {x : Reading W} {call : Call} {fuel : ℕ} (hmode : call.mode = .readbytes)
    (heos : x.ctx.eosSent = true) :
    apHttpFilter t.cfg t.get t.brigadeLength t.getMimeHeaders fuel call x =
      some (.ret .success [.eos], x) := by
  rw [apHttpFilter, if_neg (by simp [hmode]), if_pos heos]

theorem apHttpFilter_open {x : Reading W} {call : Call} {fuel : ℕ} (hmode : call.mode = .readbytes)
    (heos : x.ctx.eosSent = false) :
    apHttpFilter t.cfg t.get t.brigadeLength t.getMimeHeaders fuel call x =
      filterLoop t.cfg t.get t.brigadeLength t.getMimeHeaders call fuel x := by
  rw [apHttpFilter, if_neg (by simp [hmode]), if_neg (by simp [heos])]

/-- Once the end was sent, every read reports it, and nothing is delivered. -/
theorem Session.sent {x z : Reading W} {bs : List Brigade} {failed : Bool}
    (heos : x.ctx.eosSent = true) (h : Session t x bs failed z) : z = x ∧ received bs = [] := by
  induction h with
  | start => exact ⟨rfl, rfl⟩
  | gets _ hmode _ hreply ih =>
    obtain ⟨rfl, hnone⟩ := ih
    rw [apHttpFilter_eos hmode heos] at hreply
    obtain ⟨hb, rfl⟩ := Prod.mk.inj (Option.some.inj hreply)
    obtain ⟨-, rfl⟩ := Reply.ret.inj hb
    exact ⟨rfl, by rw [received_snoc, hnone]; rfl⟩
  | waits _ hmode _ hreply ih =>
    obtain ⟨rfl, -⟩ := ih
    rw [apHttpFilter_eos hmode heos] at hreply
    simp at hreply
  | fails _ hmode _ hreply ih =>
    obtain ⟨rfl, -⟩ := ih
    rw [apHttpFilter_eos hmode heos] at hreply
    simp at hreply

/-- After an error page: what was delivered is what was read before. -/
structure Stopped (t : Transfer W) (x : Reading W) (out : Bytes) : Prop where
  eosSent : x.ctx.eosSent = true
  keepalive : x.keepalive = false
  limitUsed : t.start.limit ≠ 0 → out.length ≤ t.start.limit
  read : ∃ ctx used rest, t.Read ctx used out ∧ used ++ rest = t.wire
  fails : ∃ used, t.Fails used

theorem Stopped.same {x : Reading W} {out out' : Bytes} (h : t.Stopped x out) (hout : out' = out) :
    t.Stopped x out' := by
  rwa [hout]

/-- Where a session is: in the body, at its end, or after an error page. -/
inductive Where (t : Transfer W) (x z : Reading W) (bs : List Brigade) (failed : Bool) : Prop
  | reads {used} : failed = false → z.keepalive = x.keepalive → ¬ Ended bs →
      t.Reads z used (received bs) → Where t x z bs failed
  | ends {used} : failed = false → z.keepalive = x.keepalive → Ended bs →
      t.Ends z used (received bs) → Where t x z bs failed
  | stopped : failed = true → t.Stopped z (received bs) → Where t x z bs failed

/-- **Sessions.** What was delivered is what was read, and the end is seen at the end, but for the
    reads after an error page. -/
theorem Session.outcome (hlaw : t.Lawful) (hstart : t.start.Sane t.cfg)
    (hsize : t.wire.length < 2 ^ 63) {x z : Reading W} (hx : t.Reads x [] []) {bs : List Brigade}
    {failed : Bool} (h : Session t x bs failed z) : Where t x z bs failed := by
  induction h with
  | start => exact .reads rfl rfl (by simp [Ended]) hx
  | @gets bs failed b y z call fuel _ hmode hcall hreply ih =>
    have heos : ∀ {y : Reading W}, y.ctx.eosSent = true →
        apHttpFilter t.cfg t.get t.brigadeLength t.getMimeHeaders fuel call y =
          some (.ret .success b, z) → z = y ∧ received (bs ++ [b]) = received bs := by
      intro y hsent hreply
      rw [apHttpFilter_eos hmode hsent] at hreply
      obtain ⟨hb, rfl⟩ := Prod.mk.inj (Option.some.inj hreply)
      obtain ⟨-, rfl⟩ := Reply.ret.inj hb
      refine ⟨rfl, ?_⟩
      rw [received_snoc]
      exact List.append_nil _
    cases ih with
    | reads hfine hkeep hopen hreads =>
      rw [apHttpFilter_open hmode hreads.eosSent] at hreply
      cases filterLoop_outcome hlaw hstart hsize hreads hmode hcall hreply with
      | stays hstatus => exact absurd rfl hstatus
      | data hreads' hb _ hkeep' =>
        rw [← received_snoc] at hreads'
        exact .reads hfine (hkeep'.trans hkeep) (ended_snoc.not.2 (not_or.2 ⟨hopen, hb⟩)) hreads'
      | ends hends hb hkeep' =>
        rw [← received_snoc] at hends
        exact .ends hfine (hkeep'.trans hkeep) (ended_snoc.2 (Or.inr hb)) hends
      | fails _ herror => exact absurd rfl herror.1
    | ends hfine hkeep hended hends =>
      obtain ⟨rfl, hsame⟩ := heos hends.eosSent hreply
      rw [← hsame] at hends
      exact .ends hfine hkeep (ended_snoc.2 (Or.inl hended)) hends
    | stopped hfailed hstopped =>
      obtain ⟨rfl, hsame⟩ := heos hstopped.eosSent hreply
      exact .stopped hfailed (hstopped.same hsame)
  | waits _ hmode hcall hreply ih =>
    cases ih with
    | reads hfine hkeep hopen hreads =>
      rw [apHttpFilter_open hmode hreads.eosSent] at hreply
      cases filterLoop_outcome hlaw hstart hsize hreads hmode hcall hreply with
      | stays _ hreads' _ hkeep' =>
        obtain ⟨u, hu⟩ := hreads' rfl
        exact .reads hfine (hkeep'.trans hkeep) hopen hu
      | fails _ herror => exact absurd rfl herror.2
    | ends _ _ _ hends =>
      rw [apHttpFilter_eos hmode hends.eosSent] at hreply
      simp at hreply
    | stopped _ hstopped =>
      rw [apHttpFilter_eos hmode hstopped.eosSent] at hreply
      simp at hreply
  | fails _ hmode hcall hreply ih =>
    cases ih with
    | reads hfine hkeep hopen hreads =>
      rw [apHttpFilter_open hmode hreads.eosSent] at hreply
      cases filterLoop_outcome hlaw hstart hsize hreads hmode hcall hreply with
      | fails hfails herror =>
        exact .stopped rfl ⟨herror.1, herror.2, fun hlimit => (hreads.limitUsed hlimit).2,
          ⟨_, _, _, hreads.read, hreads.wire⟩, ⟨_, hfails⟩⟩
    | ends _ _ _ hends =>
      rw [apHttpFilter_eos hmode hends.eosSent] at hreply
      simp at hreply
    | stopped _ hstopped =>
      rw [apHttpFilter_eos hmode hstopped.eosSent] at hreply
      simp at hreply

end Transfer

end Httpd
