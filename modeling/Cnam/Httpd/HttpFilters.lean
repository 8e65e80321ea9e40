/-
  The input filter for message bodies (`http_filters.c`): `parse_chunk_size` and
  `ap_http_filter`, over whatever the next filter of the chain hands over. An `apr_off_t` has
  64 bits and an `apr_int32_t` has 32.
-/
import Cnam.Httpd.Bytes

namespace Httpd

/-! ## Brigades -/

/-- An `apr_status_t`. -/
inductive AprStatus
  | success
  | eagain
  | eof
  | incomplete
  | einval
  | egeneral
  | enospc
  | enotimpl
  | other (code : ℕ)
deriving DecidableEq, Repr

/-- A bucket; one of unknown length is a `pipe`, with what each read of it gives. -/
inductive Bucket
  | data (bytes : Bytes)
  | pipe (reads : List {bytes : Bytes // bytes ≠ []})
  | flush
  | eos
  | error (status : ℕ)
deriving DecidableEq

/-- An `apr_bucket_brigade`. -/
abbrev Brigade := List Bucket

/-- The bytes of a bucket, read after read. -/
def Bucket.pieces : Bucket → List Bytes
  | data bytes => [bytes]
  | pipe reads => reads.map Subtype.val
  | _ => []

/-- The bytes of a brigade, read after read. -/
def Brigade.pieces (b : Brigade) : List Bytes := b.flatMap Bucket.pieces

/-- The bytes of a brigade. -/
def Brigade.content (b : Brigade) : Bytes := b.pieces.flatten

theorem Brigade.content_cons (e : Bucket) (b : Brigade) :
    Brigade.content (e :: b) = e.pieces.flatten ++ Brigade.content b := by
  simp [Brigade.content, Brigade.pieces]

theorem Brigade.content_snoc (b : Brigade) (e : Bucket) :
    Brigade.content (b ++ [e]) = Brigade.content b ++ e.pieces.flatten := by
  simp [Brigade.content, Brigade.pieces]

/-! ## Chunk lines -/

/-- Where in the body the next byte is. -/
inductive BodyState
  | none
  | length
  | chunk
  | chunkPart
  | chunkExt
  | chunkCr
  | chunkLf
  | chunkData
  | chunkEnd
  | chunkEndLf
  | chunkTrailer
deriving DecidableEq, Repr

/-- The fields of `http_ctx_t` that say where in the body the filter is. -/
structure Position where
  state : BodyState
  remaining : ℤ
  chunkUsed : ℤ
  chunkBws : ℤ
  chunkbits : ℤ
deriving DecidableEq, Repr

/-- `http_ctx_t`, without the brigade that error pages are put in. -/
structure Ctx extends Position where
  limit : ℤ
  limitUsed : ℤ
  eosSent : Bool
deriving DecidableEq, Repr

/-- The configuration of the server, and whether the body is that of a proxied response. -/
structure Config where
  strict : Bool
  limitReqFieldsize : ℤ
  proxyResponse : Bool

/-- An `apr_off_t`, which wraps. -/
def off (n : ℤ) : ℤ := n.bmod (2 ^ 64)

/-- A byte of a chunk line, once it has begun. The low bits of a shifted number are free:
    `|` is an addition. -/
def sizeByte (strict : Bool) (ctx : Position) (c : UInt8) : AprStatus × Position :=
  if c = LF then
    if strict ∧ ctx.state ≠ .chunkLf then (.einval, ctx)
    else if ctx.remaining ≠ 0 then (.success, { ctx with state := .chunkData })
    else (.success, { ctx with state := .chunkTrailer })
  else if ctx.state = .chunkLf then (.einval, ctx)
  else if c = CR then (.success, { ctx with state := .chunkLf })
  else if c = ';'.toUInt8 then (.success, { ctx with state := .chunkExt })
  else if ctx.state = .chunkExt then
    if c ≠ TAB ∧ iscntrl c then (.einval, ctx) else (.success, ctx)
  else if c = SP ∨ c = TAB then
    let ctx := { ctx with state := .chunkCr, chunkBws := ctx.chunkBws + 1 }
    if ctx.chunkBws > 10 then (.einval, ctx) else (.success, ctx)
  else if ctx.state = .chunkCr then (.einval, ctx)
  else if ctx.state = .chunkPart then
    -- leading zeros
    if ctx.remaining = 0 ∧ c = '0'.toUInt8 then (.success, ctx)
    else
      let ctx := { ctx with chunkbits := ctx.chunkbits - 4 }
      if ctx.chunkbits < 0 then (.enospc, ctx)
      else if ¬ isxdigit c then (.einval, ctx)
      else
        let ctx := { ctx with remaining := off (ctx.remaining * 16 + xvalue c) }
        if ctx.remaining < 0 then (.enospc, ctx) else (.success, ctx)
  else (.egeneral, ctx)

/-- A turn of the loop of `parse_chunk_size`. -/
def lineByte (strict : Bool) (ctx : Position) (c : UInt8) : AprStatus × Position :=
  if ctx.state = .chunkEnd ∨ ctx.state = .chunkEndLf then
    if c = LF then
      if strict ∧ ctx.state ≠ .chunkEndLf then (.einval, ctx)
      else (.success, { ctx with state := .chunk })
    else if c = CR ∧ ctx.state = .chunkEnd then (.success, { ctx with state := .chunkEndLf })
    else (.einval, ctx)
  else if ctx.state = .chunk then
    if ¬ isxdigit c then (.einval, ctx)
    else sizeByte strict { state := .chunkPart, remaining := 0, chunkbits := 64, chunkUsed := 0,
                           chunkBws := 0 } c
  else sizeByte strict ctx c

/-- The loop of `parse_chunk_size`. -/
def lineLoop (strict : Bool) : Position → Bytes → AprStatus × Position
  | ctx, [] => (.success, ctx)
  | ctx, c :: buffer =>
    let r := lineByte strict ctx c
    if r.1 = .success then lineLoop strict r.2 buffer else r

/-- `parse_chunk_size`. -/
def parseChunkSize (cfg : Config) (ctx : Position) (buffer : Bytes) : AprStatus × Position :=
  let r := lineLoop cfg.strict ctx buffer
  if r.1 = .success then
    let ctx : Position := { r.2 with chunkUsed := int32 (r.2.chunkUsed + buffer.length) }
    if ctx.chunkUsed < 0 ∨ ctx.chunkUsed > cfg.limitReqFieldsize then (.enospc, ctx)
    else (.success, ctx)
  else r

/-- The buckets of a line, one after the other. -/
def parseLine (cfg : Config) : Position → List Bytes → AprStatus × Position
  | ctx, [] => (.success, ctx)
  | ctx, buffer :: buffers =>
    let r := parseChunkSize cfg ctx buffer
    if r.1 = .success then parseLine cfg r.2 buffers else r

/-- What the loop over the buckets of a line leaves of a `pipe` that has `after` behind it: from
    the read on that does not parse. -/
def unparsedPipe (cfg : Config) (after : Brigade) (next : Position → Brigade) :
    Position → List {bytes : Bytes // bytes ≠ []} → Brigade
  | ctx, [] => next ctx
  | ctx, bytes :: reads =>
    let r := parseChunkSize cfg ctx bytes.1
    if r.1 = .success then unparsedPipe cfg after next r.2 reads
    else .data bytes.1 :: .pipe reads :: after

/-- What the loop over the buckets of a line leaves in the brigade. -/
def unparsed (cfg : Config) : Position → Brigade → Brigade
  | _, [] => []
  | ctx, e :: b =>
    match e with
    | .data bytes =>
      let r := parseChunkSize cfg ctx bytes
      if r.1 = .success then unparsed cfg r.2 b else .data bytes :: b
    | .pipe reads => unparsedPipe cfg b (fun ctx => unparsed cfg ctx b) ctx reads
    | _ => unparsed cfg ctx b

/-! ## The filter -/

/-- An `ap_input_mode_t`. -/
inductive InputMode
  | readbytes
  | getline
  | eatcrlf
  | speculative
  | exhaustive
  | init
deriving DecidableEq, Repr

/-- The arguments of a call of the filter. -/
structure Call where
  mode : InputMode
  nonblock : Bool
  readbytes : ℤ

/-- The next filter of the chain, with states of type `W`: what `ap_get_brigade` does. -/
abbrev NextFilter (W : Type) := Call → W → AprStatus × Brigade × W

/-- What a call comes to: a status and a brigade, or, with what is left in the brigade, an error
    page for the output filters. -/
inductive Reply
  | ret (status : AprStatus) (b : Brigade)
  | error (httpError : ℕ) (b : Brigade)

/-- The request whose body is read: the context of the filter, the state of the next one, and
    whether the connection may be kept. -/
structure Reading (W : Type) where
  ctx : Ctx
  next : W
  keepalive : Bool

/-- `HTTP_REQUEST_ENTITY_TOO_LARGE`. -/
def httpRequestEntityTooLarge : ℕ := 413

/-- `HTTP_BAD_REQUEST`. -/
def httpBadRequest : ℕ := 400

section
variable {W : Type} (cfg : Config) (get : NextFilter W) (brigadeLength : Brigade → ℤ)
  (getMimeHeaders : W → Bool × W)

/-- `bail_out_on_error`. -/
def bailOutOnError (x : Reading W) (b : Brigade) (httpError : ℕ) : Reply × Reading W :=
  if cfg.proxyResponse then
    (.ret (match httpError with
      | 413 => .enospc
      | 408 => .incomplete
      | 501 => .enotimpl
      | _ => .egeneral) b, x)
  else (.error httpError b, { x with ctx := { x.ctx with eosSent := true }, keepalive := false })

/-- `read_chunked_trailers`; `getMimeHeaders` says whether the status is `HTTP_OK` after the
    trailers. -/
def readChunkedTrailers (x : Reading W) : Reply × Reading W :=
  let r := getMimeHeaders x.next
  if r.1 then
    (.ret .success [.eos], { x with ctx := { x.ctx with eosSent := true }, next := r.2 })
  else (.ret .einval [], { x with next := r.2 })

/-- The call has to wait. -/
def wouldBlock (call : Call) (status : AprStatus) (b : Brigade) : Bool :=
  call.nonblock && (status == .success && b.isEmpty || status == .eagain)

/-- A turn of the loop in the states of a chunk line; it goes on when there is no reply. -/
def lineTurn (call : Call) (x : Reading W) : Option Reply × Reading W :=
  let (rv, b, next) := get { call with mode := .getline, readbytes := 0 } x.next
  let x := { x with next := next }
  if wouldBlock call rv b then (some (.ret .eagain b), x)
  else if rv = .eof then (some (.ret .incomplete b), x)
  else if rv ≠ .success then (some (.ret rv b), x)
  else
    let before := x.ctx.toPosition
    let r := parseLine cfg before b.pieces
    let x := { x with ctx := { x.ctx with toPosition := r.2 } }
    if r.1 ≠ .success then
      let r := bailOutOnError cfg x (unparsed cfg before b)
        (if r.1 ≠ .enospc then httpBadRequest else httpRequestEntityTooLarge)
      (some r.1, r.2)
    else if x.ctx.state = .chunkTrailer then
      let r := readChunkedTrailers getMimeHeaders x
      (some r.1, r.2)
    else (none, x)

/-- The state after `totalread` bytes of the body. -/
def Position.afterRead (ctx : Position) (totalread : ℤ) : Position :=
  if ctx.state = .none then ctx
  else
    let ctx := { ctx with remaining := off (ctx.remaining - totalread) }
    if ctx.remaining ≤ 0 ∧ ctx.state = .chunkData then
      { ctx with state := .chunkEnd, chunkUsed := 0 }
    else ctx

/-- The end of a body of known length, once nothing remains. -/
def lengthEnd (x : Reading W) (b : Brigade) : Reply × Reading W :=
  if x.ctx.state = .length ∧ x.ctx.remaining = 0 then
    (.ret .success (b ++ [.eos]), { x with ctx := { x.ctx with eosSent := true } })
  else (.ret .success b, x)

/-- The turn of the loop in the states of data; `brigadeLength` is what `apr_brigade_length` says,
    without reading. -/
def dataTurn (call : Call) (x : Reading W) : Reply × Reading W :=
  let readbytes := if x.ctx.state ≠ .none ∧ x.ctx.remaining < call.readbytes then x.ctx.remaining
    else call.readbytes
  if readbytes > 0 then
    let (rv, b, next) := get { call with readbytes := readbytes } x.next
    let before := x.ctx
    let x := { x with next := next }
    if wouldBlock call rv b then (.ret .eagain b, x)
    else if rv = .eof ∧ before.state ≠ .none ∧ before.remaining > 0 then (.ret .incomplete b, x)
    else if rv ≠ .success then (.ret rv b, x)
    else
      let totalread := brigadeLength b
      let x := { x with ctx := { x.ctx with toPosition := x.ctx.afterRead totalread } }
      if before.state ≠ .none ∧ x.ctx.remaining > 0 ∧ b.getLast? = some .eos then
        (.ret .incomplete b.dropLast, x)
      else if x.ctx.limit ≠ 0 then
        let x := { x with ctx := { x.ctx with limitUsed := off (x.ctx.limitUsed + totalread) } }
        if x.ctx.limit < x.ctx.limitUsed then
          bailOutOnError cfg x b httpRequestEntityTooLarge
        else lengthEnd x b
      else lengthEnd x b
  else lengthEnd x []

/-- A turn of the loop of `ap_http_filter`. -/
def filterTurn (call : Call) (x : Reading W) : Option Reply × Reading W :=
  match x.ctx.state with
  | .chunk | .chunkPart | .chunkExt | .chunkCr | .chunkLf | .chunkEnd | .chunkEndLf =>
    lineTurn cfg get getMimeHeaders call x
  | .none | .length | .chunkData =>
    let r := dataTurn cfg get brigadeLength call x
    (some r.1, r.2)
  | .chunkTrailer =>
    let (rv, b, next) := get call x.next
    let x := { x with next := next }
    if wouldBlock call rv b then (some (.ret .eagain b), x)
    else (some (.ret rv b), x)

/-- The loop of `ap_http_filter`, with fuel. -/
def filterLoop (call : Call) : ℕ → Reading W → Option (Reply × Reading W)
  | 0, _ => none
  | fuel + 1, x =>
    match filterTurn cfg get brigadeLength getMimeHeaders call x with
    | (some reply, x) => some (reply, x)
    | (none, x) => filterLoop call fuel x

/-- `ap_http_filter`, after its first call has found out how the body is delimited. -/
def apHttpFilter (fuel : ℕ) (call : Call) (x : Reading W) : Option (Reply × Reading W) :=
  if call.mode ≠ .readbytes ∧ call.mode ≠ .getline then
    let r := get call x.next
    some (.ret r.1 r.2.1, { x with next := r.2.2 })
  else if x.ctx.eosSent then some (.ret .success [.eos], x)
  else filterLoop cfg get brigadeLength getMimeHeaders call fuel x

end

/-- The context of a chunked body, with the limit on bodies. -/
def Ctx.chunked (limit : ℤ) : Ctx := ⟨⟨.chunk, 0, 0, 0, 0⟩, limit, 0, false⟩

end Httpd
