/-
  The output filter that sends a body in chunks (`chunk_filter.c`), over any next filter.
-/
import Cnam.Httpd.ChunkBody

namespace Httpd

/-! ## The filter -/

/-- What the reads of a bucket of unknown length give. -/
abbrev Pipe := List {bytes : Bytes // bytes ≠ []}

/-- `HTTP_BAD_GATEWAY`. -/
def httpBadGateway : ℕ := 502

/-- What the scan of a brigade comes to: the buckets of a chunk, those after its end, whether an
    `eos` is among them, and the rest. -/
structure Scan where
  chunk : Brigade
  tail : Brigade
  eos : Bool
  more : Option Brigade

/-- Another bucket of the chunk. -/
def scanCons (e : Bucket) (r : Bool × Except AprStatus Scan) : Bool × Except AprStatus Scan :=
  (r.1, r.2.map fun s => { s with chunk := e :: s.chunk })

/-- The loop over the buckets, with the status of a read of a pipe, and whether the gateway was
    seen to be bad. -/
def scan (read : Pipe → AprStatus) : Bool → Brigade → Bool × Except AprStatus Scan
  | seen, [] => (seen, .ok ⟨[], [], false, none⟩)
  | seen, .eos :: b => (seen, .ok ⟨[], .eos :: b, true, none⟩)
  | seen, .error status :: b =>
    scanCons (.error status) (scan read (seen || status == httpBadGateway) b)
  | seen, .flush :: b => (seen, .ok ⟨[], [.flush], false, if b = [] then none else some b⟩)
  | seen, .pipe reads :: b =>
    if read reads ≠ .success then (seen, .error (read reads))
    else
      match reads with
      | [] => scanCons (.data []) (scan read seen b)
      | bytes :: reads => (seen, .ok ⟨[.data bytes.1], [], false, some (.pipe reads :: b)⟩)
  | seen, .data bytes :: b => scanCons (.data bytes) (scan read seen b)

/-- `chunk_hdr`, which has room for 20 characters. -/
def chunkHdr (bytes : ℕ) : Bytes := (hexDigits bytes ++ [CR, LF]).take 19

/-- The last chunk, without trailers. -/
def lastChunk : Bytes := ['0'.toUInt8, CR, LF, CR, LF]

/-- The content bytes, if there are any, wrapped in a chunk. -/
def Scan.wrapped (s : Scan) : Brigade :=
  let bytes := (Brigade.content s.chunk).length
  if bytes > 0 then .data (chunkHdr bytes) :: (s.chunk ++ [.data [CR, LF]]) else s.chunk

/-- The brigade that is passed on. -/
def Scan.chunked (seen : Bool) (s : Scan) : Brigade :=
  (if s.eos && !seen then s.wrapped ++ [.data lastChunk] else s.wrapped) ++ s.tail

/-- The next filter of the chain, with states of type `W`: what `ap_pass_brigade` does. -/
abbrev OutputFilter (W : Type) := Brigade → W → AprStatus × W

/-- The turns of the loop that a brigade can take, a read of a pipe each. -/
def Bucket.turns : Bucket → ℕ
  | .pipe reads => reads.length + 1
  | _ => 1

/-- Those of all its buckets. -/
def Brigade.turns (b : Brigade) : ℕ := (b.map Bucket.turns).sum

section
variable {W : Type} (read : Pipe → AprStatus) (pass : OutputFilter W)

/-- The loop of `ap_http_chunk_filter`, with fuel; the context says that the gateway was seen to
    be bad. -/
def chunkFilterLoop : ℕ → Bool → Brigade → W → Option (AprStatus × Bool × W)
  | 0, _, _, _ => none
  | fuel + 1, seen, b, w =>
    let r := scan read seen b
    match r.2 with
    | .error rv => some (rv, r.1, w)
    | .ok s =>
      let (rv, w) := pass (s.chunked r.1) w
      if rv ≠ .success ∨ s.eos then some (rv, r.1, w)
      else
        match s.more with
        | none => some (.success, r.1, w)
        | some more => chunkFilterLoop fuel r.1 more w

/-- `ap_http_chunk_filter`: the status, whether the gateway was seen to be bad, and the state of
    the next filter. -/
def apHttpChunkFilter (seen : Bool) (b : Brigade) (w : W) : AprStatus × Bool × W :=
  (chunkFilterLoop read pass (b.turns + 1) seen b w).getD (.success, seen, w)

end

/-! ## What it passes on -/

section
variable {cfg : Config} {b : Brigade} {seen : Bool} {read : Pipe → AprStatus}

/-- Nothing comes after the end of the body. -/
def Brigade.EosLast (b : Brigade) : Prop := Bucket.eos ∉ List.dropLast b

theorem Brigade.EosLast.tail {e : Bucket} (h : Brigade.EosLast (e :: b)) : b.EosLast := by
  rcases b with _ | ⟨e', b⟩
  · simp [Brigade.EosLast]
  · exact fun hmem => h (by rw [List.dropLast_cons_cons]; exact List.mem_cons_of_mem _ hmem)

theorem Brigade.EosLast.cons {e : Bucket} (h : b.EosLast) (he : e ≠ .eos) :
    Brigade.EosLast (e :: b) := by
  rcases b with _ | ⟨e', b⟩
  · simp [Brigade.EosLast]
  · rw [Brigade.EosLast, List.dropLast_cons_cons, List.mem_cons, not_or]
    exact ⟨he.symm, h⟩

theorem Brigade.EosLast.eos (h : Brigade.EosLast (.eos :: b)) : b = [] := by
  rcases b with _ | ⟨e, b⟩
  · rfl
  · exact absurd (by simp) h

/-- What the scan of a brigade has found. -/
structure ScanOf (seen : Bool) (b : Brigade) (seen' : Bool) (s : Scan) : Prop where
  bytes : Brigade.content s.chunk ++ Brigade.content (s.more.getD []) = Brigade.content b
  tail : Brigade.content s.tail = []
  ends : s.eos = true → s.more = none ∧ .eos ∈ b
  goes : s.eos = false → (.eos ∈ s.more.getD [] ↔ .eos ∈ b)
  bad : (seen' = true ∨ .error httpBadGateway ∈ s.more.getD []) ↔
    (seen = true ∨ .error httpBadGateway ∈ b)
  turns : ∀ m, s.more = some m → Brigade.turns m < Brigade.turns b
  eosLast : Brigade.EosLast (s.more.getD [])

/-- A bucket before the others, or what a read has made of it. -/
theorem ScanOf.cons {seen₀ seen' : Bool} {s : Scan} (h : ScanOf seen b seen' s) (e e' : Bucket)
    (hbytes : e'.pieces.flatten = e.pieces.flatten) (heos : e ≠ .eos)
    (hseen : seen = true ↔ seen₀ = true ∨ e = .error httpBadGateway) :
    ScanOf seen₀ (e :: b) seen' { s with chunk := e' :: s.chunk } := by
  refine ⟨?_, h.tail, fun hend => ⟨(h.ends hend).1, List.mem_cons_of_mem _ (h.ends hend).2⟩,
    fun hgo => ?_, ?_, fun m hm => ?_, h.eosLast⟩
  · rw [Brigade.content_cons, Brigade.content_cons, hbytes, List.append_assoc, h.bytes]
  · rw [h.goes hgo, List.mem_cons]
    exact ⟨Or.inr, fun h => h.resolve_left heos.symm⟩
  · rw [h.bad, hseen, List.mem_cons, or_assoc, @eq_comm _ e]
  · have hlt := h.turns m hm
    simp only [Brigade.turns, List.map_cons, List.sum_cons] at hlt ⊢
    omega

theorem Chunks.append {wire body wire' body' : Bytes} (h : Chunks cfg wire body)
    (h' : Chunks cfg wire' body') : Chunks cfg (wire ++ wire') (body ++ body') := by
  induction h' with
  | nil => simpa using h
  | snoc _ hline hlimit hdata heol hlimit' ih =>
    rw [← List.append_assoc, ← List.append_assoc body]
    exact ih.snoc hline hlimit hdata heol hlimit'

variable {W : Type} {pass : OutputFilter W} {sent : W → Bytes}

/-- Where the sender of a response is: the next filter, whether the gateway was seen to be bad,
    whether a call has failed, and whether one that succeeded had the end of the body. -/
structure Sending (W : Type) where
  next : W
  seen : Bool
  failed : Bool
  ended : Bool

/-- The sender passes a brigade. -/
def Sending.passes (read : Pipe → AprStatus) (pass : OutputFilter W) (b : Brigade)
    (s : Sending W) : Sending W :=
  let r := apHttpChunkFilter read pass s.seen b s.next
  ⟨r.2.2, r.2.1, s.failed || decide (r.1 ≠ .success), decide (r.1 = .success ∧ .eos ∈ b)⟩

/-- A body that is passed to the filter brigade after brigade, until its end; a call may fail when
    a pipe does, and others come after it. -/
inductive Response (read : Pipe → AprStatus) (pass : OutputFilter W) (w : W) :
    List Brigade → Sending W → Prop
  | start : Response read pass w [] ⟨w, false, false, false⟩
  | passes {bs b s} : Response read pass w bs s → s.ended = false → b.EosLast →
      Response read pass w (bs ++ [b]) (s.passes read pass b)

end

end Httpd
