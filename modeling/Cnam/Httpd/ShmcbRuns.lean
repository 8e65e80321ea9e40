/-
  Runs of the session cache: any calls, in any order, at any times. The cache answers what
  its queues answer; what it hands out is what was last stored under the id; and an entry
  stays until as much has been stored after it as its subcache can hold.
-/
import Cnam.Lib.Machine
import Cnam.Httpd.ShmcbEntries
import Mathlib.Data.List.Nodup

namespace Httpd.Shmcb

/-- The calls of the provider. -/
inductive Request
  | store (id data : Bytes) (expiry : ℤ)
  | retrieve (id : Bytes) (destlen : ℕ)
  | remove (id : Bytes)
  | status
  | iterate (iterator : Bytes → Bytes → Bool)

/-- A call, and the time the clock says. -/
structure Call where
  request : Request
  now : ℤ

/-- What a call hands out. -/
inductive Reply
  | status (status : Status)
  | dest (found : Option Bytes)
  | seen (entries : List (Bytes × Bytes))
  | done

/-- The cache after a call, and the reply. -/
def Cache.serve (c : Cache) (call : Call) : Cache × Reply :=
  match call.request with
  | .store id data expiry =>
    let (c, status) := socacheStore c id expiry data call.now
    (c, .status status)
  | .retrieve id destlen =>
    let (c, dest) := socacheRetrieve c id destlen call.now
    (c, .dest dest)
  | .remove id =>
    let (c, status) := socacheRemove c id
    (c, .status status)
  | .status => (socacheStatus call.now c.header.subcacheNum 0 c, .done)
  | .iterate iterator =>
    let (c, entries) := socacheIterate iterator call.now c.header.subcacheNum 0 c
    (c, .seen entries)

/-- The state after a call. -/
def Cache.next (c : Cache) (call : Call) : Cache := (c.serve call).1

/-- The cache `socache_shmcb_init` leaves, whatever the segment holds besides. -/
def Cache.fresh (h : Header) (indexes : ℕ → ℕ → Index) (data : ℕ → ℕ → UInt8) : Cache :=
  ⟨h, fun k => ⟨0, 0, 0, 0, indexes k, data k⟩⟩

/-- The lengths handed over are those of an object in memory: their sum is an
    `unsigned int`. -/
def Call.Fits (call : Call) : Prop :=
  match call.request with
  | .store id data _ => id.length + data.length < 2 ^ 32
  | _ => True

/-! The queues of the cache. -/

/-- What the subcaches hold. -/
abbrev Contents := ℕ → Queue

namespace Contents

variable (h : Header)

/-- The queues after all are expired, one after the other. -/
def expireAll (now : ℤ) : (left loop : ℕ) → Contents → Contents
  | 0, _, t => t
  | left + 1, loop, t =>
    expireAll now left (loop + 1) (Function.update t loop ((t loop).expire now))

/-- The queues after an iteration over all, and what was seen. -/
def iterateAll (iterator : Bytes → Bytes → Bool) (now : ℤ) :
    (left loop : ℕ) → Contents → Contents × List (Bytes × Bytes)
  | 0, _, t => (t, [])
  | left + 1, loop, t =>
    let (q, seen, rv) := Queue.iterate iterator now (t loop)
    let t := Function.update t loop q
    if rv then
      let (t, rest) := iterateAll iterator now left (loop + 1) t
      (t, seen ++ rest)
    else (t, seen)

/-- A store, over queues. -/
def store (t : Contents) (id data : Bytes) (expiry now : ℤ) : Contents × Status :=
  let q := ((t (mask h id)).remove id).getD (t (mask h id))
  let e : Entry := ⟨id, data, expiry, false⟩
  if id.length < 4 then (t, .einval)
  else if e.size ≤ h.subcacheDataSize then
    (Function.update t (mask h id) (q.push h.subcacheDataSize h.indexNum now e), .success)
  else (Function.update t (mask h id) q, .enospc)

/-- A retrieval, over queues. -/
def retrieve (t : Contents) (id : Bytes) (destlen : ℕ) (now : ℤ) : Contents × Option Bytes :=
  let (q, dest) := (t (mask h id)).retrieve id destlen now
  (Function.update t (mask h id) q, dest)

/-- A removal, over queues. -/
def remove (t : Contents) (id : Bytes) : Contents × Status :=
  if id.length < 4 then (t, .einval)
  else match (t (mask h id)).remove id with
    | some q => (Function.update t (mask h id) q, .success)
    | none => (t, .notfound)

/-- The queues after a call, and the reply. -/
def serve (t : Contents) (call : Call) : Contents × Reply :=
  match call.request with
  | .store id data expiry =>
    let (t, status) := store h t id data expiry call.now
    (t, .status status)
  | .retrieve id destlen =>
    let (t, dest) := retrieve h t id destlen call.now
    (t, .dest dest)
  | .remove id =>
    let (t, status) := remove h t id
    (t, .status status)
  | .status => (expireAll call.now h.subcacheNum 0 t, .done)
  | .iterate iterator =>
    let (t, entries) := iterateAll iterator call.now h.subcacheNum 0 t
    (t, .seen entries)

/-- The queues after a call. -/
def next (t : Contents) (call : Call) : Contents := (serve h t call).1

end Contents

variable {h : Header} {c : Cache} {t : Contents}

theorem mask_lt (hs : h.Sound) (id : Bytes) : mask h id < h.subcacheNum := by
  have hle : mask h id ≤ h.subcacheNum - 1 := Nat.and_le_right
  have := hs.subcaches
  omega

theorem mask_alike {h' : Header} (ha : h.Alike h') (id : Bytes) : mask h' id = mask h id := by
  rw [mask, mask, ha.subcacheNum]

/-- Every subcache holds its queue. -/
structure CacheRep (h : Header) (c : Cache) (t : Contents) : Prop where
  alike : h.Alike c.header
  rep : ∀ k < h.subcacheNum, Rep h (c.subcaches k) (t k)

namespace CacheRep

theorem sub (hc : CacheRep h c t) {k : ℕ} (hk : k < h.subcacheNum) :
    Rep c.header (c.subcaches k) (t k) := (hc.rep k hk).alike hc.alike

theorem set (hc : CacheRep h c t) {h' : Header} (ha : c.header.Alike h') (k : ℕ) {sub : Subcache}
    {q : Queue} (hr : Rep h' sub q) : CacheRep h (c.set h' k sub) (Function.update t k q) := by
  have hall := hc.alike.trans ha
  refine ⟨hall, fun j hj => ?_⟩
  by_cases hjk : j = k
  · subst hjk
    simpa [Cache.set] using hr.alike hall.symm
  · simpa [Cache.set, hjk] using hc.rep j hj

/-- The same, and a call is counted. -/
theorem set_counted (hc : CacheRep h c t) {h' h'' : Header} (ha : c.header.Alike h') {k : ℕ}
    {sub : Subcache} {q : Queue} (hr : Rep h' sub q) (hb : h'.Alike h'') :
    CacheRep h (c.set h'' k sub) (Function.update t k q) :=
  hc.set (ha.trans hb) k (hr.alike hb)

theorem fresh (hs : h.Sound) (indexes : ℕ → ℕ → Index) (data : ℕ → ℕ → UInt8) :
    CacheRep h (Cache.fresh h indexes data) (fun _ => []) :=
  ⟨.refl h, fun _ _ =>
    ⟨hs.indexes, rfl, Nat.zero_le _, hs.data, rfl, Nat.zero_le _, trivial, by simp⟩⟩

/-- The subcache of an id, once the entry under it is removed. -/
theorem removed (hs : h.Sound) (hc : CacheRep h c t) (id : Bytes) :
    Rep c.header ((subcacheRemove c.header (c.subcaches (mask h id)) id).getD
      (c.subcaches (mask h id))) (((t (mask h id)).remove id).getD (t (mask h id))) := by
  have hsub := hc.sub (mask_lt hs id)
  have hremove := subcacheRemove_rep (hs.alike hc.alike) hsub id
  generalize subcacheRemove c.header (c.subcaches (mask h id)) id = after at hremove ⊢
  generalize (t (mask h id)).remove id = after' at hremove ⊢
  rcases hremove with hsome | _
  · exact hsome
  · exact hsub

theorem socacheStore (hs : h.Sound) (hc : CacheRep h c t) (id data : Bytes) (expiry now : ℤ)
    (hfits : id.length + data.length < 2 ^ 32) :
    (Shmcb.socacheStore c id expiry data now).2 = (t.store h id data expiry now).2 ∧
      CacheRep h (Shmcb.socacheStore c id expiry data now).1 (t.store h id data expiry now).1 := by
  have hs' := hs.alike hc.alike
  have hmask := mask_alike hc.alike id
  rw [Shmcb.socacheStore, Contents.store, hmask]
  by_cases hlen : id.length < 4
  · simp only [if_pos hlen]
    exact ⟨trivial, hc⟩
  · simp only [if_neg hlen]
    have hrem := hc.removed hs id
    have hstore := subcacheStore_rep hs' hrem ⟨id, data, expiry, false⟩ now (by simpa using hlen)
      rfl hfits
    rw [hc.alike.subcacheDataSize] at hstore
    split at hstore
    · rename_i hsize
      obtain ⟨h', sub', heq, ha, hrep⟩ := hstore
      rw [hc.alike.indexNum] at hrep
      simp only at heq
      simp only [heq, if_pos hsize]
      split
      · exact ⟨trivial, hc.set_counted ha hrep ⟨rfl, rfl, rfl, rfl, rfl⟩⟩
      · exact ⟨trivial, hc.set_counted ha hrep ⟨rfl, rfl, rfl, rfl, rfl⟩⟩
    · rename_i hsize
      simp only at hstore
      simp only [hstore, if_neg hsize]
      exact ⟨trivial, hc.set (.refl _) _ hrem⟩

theorem socacheRetrieve (hs : h.Sound) (hc : CacheRep h c t) (id : Bytes) (destlen : ℕ)
    (now : ℤ) :
    (Shmcb.socacheRetrieve c id destlen now).2 = (t.retrieve h id destlen now).2 ∧
      CacheRep h (Shmcb.socacheRetrieve c id destlen now).1 (t.retrieve h id destlen now).1 := by
  have hs' := hs.alike hc.alike
  have hmask := mask_alike hc.alike id
  obtain ⟨hdest, hrep, ha⟩ :=
    subcacheRetrieve_rep hs' (hc.sub (mask_lt hs id)) id destlen now
  rw [Shmcb.socacheRetrieve, Contents.retrieve, hmask]
  generalize subcacheRetrieve c.header (c.subcaches (mask h id)) id destlen now = after
    at hdest hrep ha ⊢
  obtain ⟨h', sub', dest⟩ := after
  refine ⟨hdest, ?_⟩
  have hset : ∀ h'', h'.Alike h'' → CacheRep h (c.set h'' (mask h id) sub') _ :=
    fun _ hb => hc.set_counted ha (hrep.alike ha) hb
  rcases dest with _ | dest
  · exact hset _ ⟨rfl, rfl, rfl, rfl, rfl⟩
  · exact hset _ ⟨rfl, rfl, rfl, rfl, rfl⟩

theorem socacheRemove (hs : h.Sound) (hc : CacheRep h c t) (id : Bytes) :
    (Shmcb.socacheRemove c id).2 = (t.remove h id).2 ∧
      CacheRep h (Shmcb.socacheRemove c id).1 (t.remove h id).1 := by
  have hs' := hs.alike hc.alike
  have hmask := mask_alike hc.alike id
  rw [Shmcb.socacheRemove, Contents.remove, hmask]
  by_cases hlen : id.length < 4
  · simp only [if_pos hlen]
    exact ⟨trivial, hc⟩
  · simp only [if_neg hlen]
    have hremove := subcacheRemove_rep hs' (hc.sub (mask_lt hs id)) id
    generalize subcacheRemove c.header (c.subcaches (mask h id)) id = after at hremove ⊢
    generalize (t (mask h id)).remove id = after' at hremove ⊢
    rcases hremove with hsome | _
    · exact ⟨rfl, hc.set_counted (.refl _) hsome ⟨rfl, rfl, rfl, rfl, rfl⟩⟩
    · exact ⟨rfl, hc.alike.trans ⟨rfl, rfl, rfl, rfl, rfl⟩, hc.rep⟩

theorem socacheStatus (hs : h.Sound) (now : ℤ) {left loop : ℕ} (hc : CacheRep h c t)
    (hleft : loop + left ≤ h.subcacheNum) :
    CacheRep h (Shmcb.socacheStatus now left loop c) (t.expireAll now left loop) := by
  induction left generalizing loop c t with
  | zero => exact hc
  | succ left ih =>
    have hs' := hs.alike hc.alike
    obtain ⟨hrep, hheader⟩ := subcacheExpire_rep hs' now (hc.sub (k := loop) (by omega))
    have ha : c.header.Alike (subcacheExpire c.header (c.subcaches loop) now).1 := by
      rw [hheader]
      exact ⟨rfl, rfl, rfl, rfl, rfl⟩
    exact ih (hc.set ha loop (hrep.alike ha)) (by omega)

/-- One subcache is iterated over. -/
theorem iterated (hs : h.Sound) (iterator : Bytes → Bytes → Bool) (now : ℤ)
    (hc : CacheRep h c t) {k : ℕ} (hk : k < h.subcacheNum) :
    (subcacheIterate iterator now (c.subcaches k).idxUsed (c.subcaches k).idxPos c.header
        (c.subcaches k)).2.2 = ((t k).iterate iterator now).2 ∧
      CacheRep h (c.set (subcacheIterate iterator now (c.subcaches k).idxUsed
          (c.subcaches k).idxPos c.header (c.subcaches k)).1 k
        (subcacheIterate iterator now (c.subcaches k).idxUsed (c.subcaches k).idxPos c.header
          (c.subcaches k)).2.1) (Function.update t k ((t k).iterate iterator now).1) := by
  have hwhole : Rep c.header (c.subcaches k) ([] ++ t k) := hc.sub hk
  have hiter := subcacheIterate_rep iterator now (hs.alike hc.alike) hwhole
  rw [List.length_nil, Nat.add_zero, Nat.mod_eq_of_lt hwhole.idxPos, ← (hc.sub hk).idxUsed] at hiter
  obtain ⟨hseen, hrep, ha⟩ := hiter
  exact ⟨hseen, hc.set ha k (hrep.alike ha)⟩

theorem socacheIterate (hs : h.Sound) (iterator : Bytes → Bytes → Bool) (now : ℤ)
    {left loop : ℕ} (hc : CacheRep h c t) (hleft : loop + left ≤ h.subcacheNum) :
    (Shmcb.socacheIterate iterator now left loop c).2 =
        (t.iterateAll iterator now left loop).2 ∧
      CacheRep h (Shmcb.socacheIterate iterator now left loop c).1
        (t.iterateAll iterator now left loop).1 := by
  induction left generalizing loop c t with
  | zero => exact ⟨rfl, hc⟩
  | succ left ih =>
    obtain ⟨hseen, hset⟩ := hc.iterated hs iterator now (k := loop) (by omega)
    rw [Shmcb.socacheIterate, Contents.iterateAll]
    generalize subcacheIterate iterator now _ _ _ _ = after at hseen hset ⊢
    generalize Queue.iterate iterator now (t loop) = after' at hseen hset ⊢
    obtain ⟨h', sub', seen, rv⟩ := after
    obtain ⟨q', seen', rv'⟩ := after'
    cases hseen
    rcases rv with _ | _
    · exact ⟨rfl, hset⟩
    · have hrange : loop + 1 + left ≤ h.subcacheNum := by omega
      obtain ⟨hrest, hend⟩ := ih hset hrange
      exact ⟨congrArg (seen ++ ·) hrest, hend⟩

/-- A call keeps the queues, and answers what they answer. -/
theorem serve (hs : h.Sound) (hc : CacheRep h c t) {call : Call} (hfits : call.Fits) :
    (c.serve call).2 = (t.serve h call).2 ∧ CacheRep h (c.serve call).1 (t.serve h call).1 := by
  obtain ⟨request, now⟩ := call
  cases request with
  | store id data expiry =>
    obtain ⟨hreply, hrep⟩ := hc.socacheStore hs id data expiry now hfits
    exact ⟨congrArg Reply.status hreply, hrep⟩
  | retrieve id destlen =>
    obtain ⟨hreply, hrep⟩ := hc.socacheRetrieve hs id destlen now
    exact ⟨congrArg Reply.dest hreply, hrep⟩
  | remove id =>
    obtain ⟨hreply, hrep⟩ := hc.socacheRemove hs id
    exact ⟨congrArg Reply.status hreply, hrep⟩
  | status =>
    refine ⟨rfl, ?_⟩
    rw [Cache.serve, Contents.serve, hc.alike.subcacheNum]
    exact hc.socacheStatus hs now (by omega)
  | iterate iterator =>
    rw [Cache.serve, Contents.serve, hc.alike.subcacheNum]
    have hrange : 0 + h.subcacheNum ≤ h.subcacheNum := by omega
    obtain ⟨hreply, hrep⟩ := hc.socacheIterate hs iterator now hrange
    exact ⟨congrArg Reply.seen hreply, hrep⟩

theorem run (hs : h.Sound) (indexes : ℕ → ℕ → Index) (data : ℕ → ℕ → UInt8) (calls : List Call)
    (hfits : ∀ call ∈ calls, call.Fits) :
    CacheRep h (Machine.run Cache.next (.fresh h indexes data) calls)
      (Machine.run (Contents.next h) (fun _ => []) calls) := by
  have hstep : ∀ c t call, CacheRep h c t → Call.Fits call →
      (c.serve call).2 = (Contents.serve h t call).2 ∧
        CacheRep h (c.serve call).1 (Contents.serve h t call).1 := fun _ _ _ hc hf => hc.serve hs hf
  exact (Machine.outputs_sim hstep calls hfits (fresh hs indexes data)).2

end CacheRep

/-- **The cache answers what its queues answer**, along any run, and its buffers hold the entries
    of the queues after each call. -/
theorem serve_queues (hs : h.Sound) (indexes : ℕ → ℕ → Index) (data : ℕ → ℕ → UInt8)
    (calls : List Call) (hfits : ∀ call ∈ calls, call.Fits) :
    Machine.outputs Cache.serve (.fresh h indexes data) calls =
        Machine.outputs (Contents.serve h) (fun _ => []) calls ∧
      ∀ n, CacheRep h (Machine.run Cache.next (.fresh h indexes data) (calls.take n))
        (Machine.run (Contents.next h) (fun _ => []) (calls.take n)) := by
  have hstep : ∀ c t call, CacheRep h c t → Call.Fits call →
      (c.serve call).2 = (Contents.serve h t call).2 ∧
        CacheRep h (c.serve call).1 (Contents.serve h t call).1 := fun _ _ _ hc hf => hc.serve hs hf
  refine ⟨(Machine.outputs_sim hstep calls hfits (.fresh hs indexes data)).1, fun n => ?_⟩
  exact CacheRep.run hs indexes data _ fun call hcall => hfits call (List.mem_of_mem_take hcall)

/-- One subcache of four indexes and sixteen bytes. -/
def smallHeader : Header := ⟨0, 0, 0, 0, 0, 0, 0, 0, 1, 4, 128, 112, 16⟩

theorem smallHeader_sound : smallHeader.Sound := by
  constructor <;> simp [smallHeader]

/-- Two objects of seven bytes, of which the first is replaced by one of nine: the room for it
    takes the second too. -/
def replacing : List Call :=
  [⟨.store [1, 2, 3, 4] [5, 6, 7] 90, 10⟩, ⟨.store [1, 2, 3, 5] [8, 9, 7] 80, 20⟩,
    ⟨.store [1, 2, 3, 4] [5, 5, 5, 5, 5] 70, 30⟩]

theorem replacing_fits : ∀ call ∈ replacing, call.Fits := by
  simp [replacing, Call.Fits]

theorem serve_queues_replacing :
    Machine.outputs Cache.serve (.fresh smallHeader (fun _ _ => ⟨0, 0, 0, 0, false⟩) fun _ _ => 0)
        replacing = Machine.outputs (Contents.serve smallHeader) (fun _ => []) replacing ∧
      ∀ n, CacheRep smallHeader
        (Machine.run Cache.next (.fresh smallHeader (fun _ _ => ⟨0, 0, 0, 0, false⟩) fun _ _ => 0)
          (replacing.take n))
        (Machine.run (Contents.next smallHeader) (fun _ => []) (replacing.take n)) :=
  serve_queues smallHeader_sound _ _ replacing replacing_fits

/-! What was last stored under an id. -/

/-- A map from ids to data and time of expiry, that forgets nothing by itself. -/
abbrev Latest := Bytes → Option (Bytes × ℤ)

/-- What a call does to the map: an object too large for a subcache is not stored, and what
    it was to replace is gone. -/
def Latest.next (size : ℕ) (m : Latest) (call : Call) : Latest :=
  match call.request with
  | .store id data expiry =>
    if id.length < 4 then m
    else Function.update m id
      (if id.length + data.length ≤ size then some (data, expiry) else none)
  | .remove id => if id.length < 4 then m else Function.update m id none
  | _ => m

namespace Queue

open scoped List

/-- The entries not removed. -/
def lives (q : Queue) : Queue := q.filter fun e => !e.removed

theorem lives_suffix {q q' : Queue} (h : q <:+ q') : lives q <+ lives q' := h.sublist.filter _

theorem lives_modify (q : Queue) (k : ℕ) : lives (q.modify k Entry.discard) <+ lives q := by
  induction q generalizing k with
  | nil => simp
  | cons e q ih =>
    rcases k with _ | k
    · rw [List.modify_zero_cons, lives, lives, List.filter_cons, if_neg (by simp)]
      exact (List.sublist_cons_self e q).filter _
    · rw [List.modify_succ_cons, lives, lives, List.filter_cons, List.filter_cons]
      split
      · exact (ih k).cons_cons e
      · exact ih k

theorem lives_retrieve (id : Bytes) (destlen : ℕ) (now : ℤ) (q : Queue) :
    lives (q.retrieve id destlen now).1 <+ lives q := by
  rw [retrieve]
  split
  · exact List.Sublist.refl _
  · split
    · exact List.Sublist.refl _
    · split
      · exact List.Sublist.refl _
      · exact lives_modify q _

theorem lives_iterate (iterator : Bytes → Bytes → Bool) (now : ℤ) (q : Queue) :
    lives (q.iterate iterator now).1 <+ lives q := by
  induction q with
  | nil => exact List.Sublist.refl _
  | cons e q ih =>
    rw [iterate]
    split
    · rename_i hrem
      rw [lives, lives, List.filter_cons, List.filter_cons, if_neg (by simpa using hrem),
        if_neg (by simpa using hrem)]
      exact ih
    · rename_i hrem
      have hlive : (!e.removed) = true := by simpa using hrem
      split
      · split
        · rw [lives, lives, List.filter_cons, List.filter_cons, if_pos hlive, if_pos hlive]
          exact ih.cons_cons e
        · exact List.Sublist.refl _
      · rw [lives, lives, List.filter_cons, List.filter_cons, if_neg (by simp), if_pos hlive]
        exact ih.trans (List.sublist_cons_self e _)

theorem lives_push (size count : ℕ) (now : ℤ) (e : Entry) (q : Queue) :
    lives (q.push size count now e) <+ lives q ++ lives [e] := by
  rw [push, lives, List.filter_append]
  exact (lives_suffix (makeRoom_suffix size count e.size now q)).append (List.Sublist.refl _)

/-- After a removal, nothing under the id is left. -/
theorem lives_remove {q : Queue} (hq : ((lives q).map Entry.id).Nodup) (id : Bytes) :
    lives ((q.remove id).getD q) = (lives q).filter fun e => e.id ≠ id := by
  induction q with
  | nil => rfl
  | cons e q ih =>
    rcases hrem : e.removed with _ | _
    · have hcons : lives (e :: q) = e :: lives q := by simp [lives, hrem]
      rw [hcons, List.map_cons, List.nodup_cons] at hq
      rw [hcons]
      by_cases hid : e.id = id
      · have hmark : remove id (e :: q) = some (e.discard :: q) := by
          simp [remove, List.findIdx?_cons, Entry.sameId, hrem, hid]
        have hothers : (lives q).filter (fun e => e.id ≠ id) = lives q := by
          refine List.filter_eq_self.2 fun e' he' => ?_
          rw [decide_eq_true_iff]
          rintro rfl
          exact hq.1 (hid ▸ List.mem_map_of_mem he')
        rw [hmark, Option.getD_some, List.filter_cons, if_neg (by simpa using hid), hothers]
        simp [lives]
      · have hskip : remove id (e :: q) = (remove id q).map (e :: ·) := by
          simp [remove, List.findIdx?_cons, Entry.sameId, hid, Option.map_map, Function.comp_def]
        have hget : ((remove id q).map (e :: ·)).getD (e :: q) = e :: (remove id q).getD q := by
          rcases remove id q with _ | q' <;> rfl
        rw [hskip, hget, List.filter_cons, if_pos (by simpa using hid), ← ih hq.2]
        simp [lives, hrem]
    · have hcons : lives (e :: q) = lives q := by simp [lives, hrem]
      have hskip : remove id (e :: q) = (remove id q).map (e :: ·) := by
        simp [remove, List.findIdx?_cons, Entry.sameId, hrem, Option.map_map, Function.comp_def]
      have hget : ((remove id q).map (e :: ·)).getD (e :: q) = e :: (remove id q).getD q := by
        rcases remove id q with _ | q' <;> rfl
      rw [hcons] at hq ⊢
      rw [hskip, hget, ← ih hq]
      simp [lives, hrem]

end Queue

/-- What lives in the cache is what the map has, in the subcache of its id, and once. -/
structure Agrees (h : Header) (t : Contents) (m : Latest) : Prop where
  distinct : ∀ k, ((t k).lives.map Entry.id).Nodup
  latest : ∀ k, ∀ e ∈ (t k).lives, mask h e.id = k ∧ m e.id = some (e.data, e.expires)

namespace Agrees

open scoped List

variable {m : Latest}

theorem shrink {t' : Contents} (ha : Agrees h t m) (ht : ∀ k, (t' k).lives <+ (t k).lives) :
    Agrees h t' m :=
  ⟨fun k => (ha.distinct k).sublist ((ht k).map _), fun k e he => ha.latest k e ((ht k).subset he)⟩

theorem update (ha : Agrees h t m) {k : ℕ} {q : Queue} (hq : q.lives <+ (t k).lives) :
    Agrees h (Function.update t k q) m := by
  refine ha.shrink fun j => ?_
  by_cases hjk : j = k
  · subst hjk
    rwa [Function.update_self]
  · rw [Function.update_of_ne hjk]

/-- The entry under an id is removed: the map may say anything of it. -/
theorem remove (ha : Agrees h t m) (id : Bytes) (v : Option (Bytes × ℤ)) :
    Agrees h (Function.update t (mask h id) (((t (mask h id)).remove id).getD (t (mask h id))))
        (Function.update m id v) ∧
      ∀ k, ∀ e ∈ (Function.update t (mask h id)
        (((t (mask h id)).remove id).getD (t (mask h id))) k).lives, e.id ≠ id := by
  have hlives := Queue.lives_remove (ha.distinct (mask h id)) id
  generalize ((t (mask h id)).remove id).getD (t (mask h id)) = q at hlives ⊢
  have hupdate := ha.update (hlives ▸ List.filter_sublist)
  have hnone : ∀ k, ∀ e ∈ (Function.update t (mask h id) q k).lives, e.id ≠ id := by
    rintro k e he rfl
    have hk := (hupdate.latest k e he).1
    rw [← hk, Function.update_self, hlives, List.mem_filter] at he
    exact of_decide_eq_true he.2 rfl
  refine ⟨⟨hupdate.distinct, fun k e he => ?_⟩, hnone⟩
  rw [Function.update_of_ne (hnone k e he)]
  exact hupdate.latest k e he

/-- An entry under a new id is pushed, with what the map says of it. -/
theorem push (ha : Agrees h t m) {e : Entry} (hm : m e.id = some (e.data, e.expires))
    (hnew : ∀ k, ∀ e' ∈ (t k).lives, e'.id ≠ e.id) {q : Queue}
    (hq : q.lives <+ (t (mask h e.id)).lives ++ Queue.lives [e]) :
    Agrees h (Function.update t (mask h e.id) q) m := by
  have hone : Queue.lives [e] <+ [e] := List.filter_sublist
  have hsub := hq.trans ((List.Sublist.refl _).append hone)
  constructor
  · intro k
    by_cases hk : k = mask h e.id
    · subst hk
      rw [Function.update_self]
      refine List.Nodup.sublist (hsub.map _) ?_
      rw [List.map_append, List.map_singleton]
      refine List.Nodup.append (ha.distinct _) (List.nodup_singleton _) ?_
      rw [List.disjoint_singleton]
      intro hmem
      obtain ⟨e', he', hid⟩ := List.mem_map.1 hmem
      exact hnew _ e' he' hid
    · rw [Function.update_of_ne hk]
      exact ha.distinct k
  · intro k e' he'
    by_cases hk : k = mask h e.id
    · subst hk
      rw [Function.update_self] at he'
      rcases List.mem_append.1 (hsub.subset he') with he' | he'
      · exact ha.latest _ e' he'
      · rw [List.mem_singleton.1 he']
        exact ⟨rfl, hm⟩
    · rw [Function.update_of_ne hk] at he'
      exact ha.latest k e' he'

theorem expireAll (ha : Agrees h t m) (now : ℤ) (left loop : ℕ) :
    Agrees h (t.expireAll now left loop) m := by
  induction left generalizing loop t with
  | zero => exact ha
  | succ left ih => exact ih (ha.update (Queue.lives_suffix (Queue.expire_suffix now _))) _

theorem iterateAll (ha : Agrees h t m) (iterator : Bytes → Bytes → Bool) (now : ℤ)
    (left loop : ℕ) : Agrees h (t.iterateAll iterator now left loop).1 m := by
  induction left generalizing loop t with
  | zero => exact ha
  | succ left ih =>
    have hset := ha.update (Queue.lives_iterate iterator now (t loop))
    rw [Contents.iterateAll]
    generalize Queue.iterate iterator now (t loop) = after at hset ⊢
    obtain ⟨q, seen, rv⟩ := after
    rcases rv with _ | _
    · exact hset
    · exact ih hset (loop + 1)

/-- **One call** keeps the cache and the map in agreement. -/
theorem next (ha : Agrees h t m) (call : Call) :
    Agrees h (t.next h call) (m.next h.subcacheDataSize call) := by
  obtain ⟨request, now⟩ := call
  cases request with
  | store id data expiry =>
    simp only [Contents.next, Contents.serve, Contents.store, Latest.next]
    by_cases hlen : id.length < 4
    · simpa only [if_pos hlen] using ha
    · obtain ⟨hforget, hnew⟩ := ha.remove id (if id.length + data.length ≤ h.subcacheDataSize
        then some (data, expiry) else none)
      have hentry : Entry.size ⟨id, data, expiry, false⟩ = id.length + data.length := rfl
      rw [← hentry] at hforget
      simp only [if_neg hlen, ← hentry]
      by_cases hsize : Entry.size ⟨id, data, expiry, false⟩ ≤ h.subcacheDataSize
      · simp only [if_pos hsize] at hforget ⊢
        have hlives := Queue.lives_push h.subcacheDataSize h.indexNum now ⟨id, data, expiry, false⟩
          (((t (mask h id)).remove id).getD (t (mask h id)))
        rw [← Function.update_self (f := t) (mask h id)
          (((t (mask h id)).remove id).getD (t (mask h id)))] at hlives
        have hpush := hforget.push (e := ⟨id, data, expiry, false⟩) (Function.update_self _ _ _)
          hnew hlives
        rwa [Function.update_self, Function.update_idem] at hpush
      · simp only [if_neg hsize] at hforget ⊢
        exact hforget
  | retrieve id destlen => exact ha.update (Queue.lives_retrieve id destlen now _)
  | remove id =>
    simp only [Contents.next, Contents.serve, Contents.remove, Latest.next]
    by_cases hlen : id.length < 4
    · simpa only [if_pos hlen] using ha
    · simp only [if_neg hlen]
      have hforget := (ha.remove id none).1
      rcases hremove : (t (mask h id)).remove id with _ | q
      · rw [hremove, Option.getD_none, Function.update_eq_self] at hforget
        exact hforget
      · rw [hremove, Option.getD_some] at hforget
        exact hforget
  | status => exact ha.expireAll now _ _
  | iterate iterator => exact ha.iterateAll iterator now _ _

end Agrees

theorem agrees_run (h : Header) (calls : List Call) :
    Agrees h (Machine.run (Contents.next h) (fun _ => []) calls)
      (Machine.run (Latest.next h.subcacheDataSize) (fun _ => none) calls) :=
  Machine.sim_run (fun _ _ call ha => ha.next call) calls
    ⟨by simp [Queue.lives], by simp [Queue.lives]⟩

namespace Queue

open scoped List

theorem mem_lives {q : Queue} {e : Entry} : e ∈ q.lives ↔ e ∈ q ∧ e.removed = false := by
  simp [lives]

/-- A hit is an entry that lives. -/
theorem retrieve_lives {q : Queue} {id d : Bytes} {destlen : ℕ} {now : ℤ}
    (hhit : (q.retrieve id destlen now).2 = some d) :
    ∃ e ∈ q.lives, e.id = id ∧ e.data = d ∧ now < e.expires := by
  rw [retrieve] at hhit
  split at hhit
  · cases hhit
  · rename_i j hfind
    obtain ⟨hj, hpass, -⟩ := List.findIdx?_eq_some_iff_getElem.1 hfind
    simp only [List.getElem?_eq_getElem hj] at hhit
    split at hhit
    · rename_i hnow
      simp only [Entry.sameId, Bool.and_eq_true, Bool.not_eq_true', beq_iff_eq] at hpass
      exact ⟨q[j], mem_lives.2 ⟨List.getElem_mem hj, hpass.1.1⟩, hpass.1.2, by simpa using hhit,
        hnow⟩
    · simp at hhit

/-- What is handed to the iterator are entries that live, each of them once. -/
theorem iterate_lives (iterator : Bytes → Bytes → Bool) (now : ℤ) (q : Queue) :
    (q.iterate iterator now).2.1 <+
      (q.lives.filter fun e => now < e.expires).map fun e => (e.id, e.data) := by
  induction q with
  | nil => exact List.Sublist.refl _
  | cons e q ih =>
    rcases hrem : e.removed with _ | _
    · have hcons : lives (e :: q) = e :: lives q := by simp [lives, hrem]
      rw [iterate, hcons, List.filter_cons, if_neg (by simp [hrem])]
      by_cases hexp : now < e.expires
      · have hfilter := decide_eq_true hexp
        rw [if_pos hexp, if_pos hfilter, List.map_cons]
        split
        · exact ih.cons_cons _
        · exact (List.nil_sublist _).cons_cons _
      · have hfilter : ¬ decide (now < e.expires) = true := by simpa using hexp
        rw [if_neg hexp, if_neg hfilter]
        exact ih
    · have hcons : lives (e :: q) = lives q := by simp [lives, hrem]
      rw [iterate, hcons, if_pos hrem]
      exact ih

end Queue

/-- What all the subcaches from `loop` on hand out. -/
theorem iterateAll_latest {m : Latest} (ha : Agrees h t m) (iterator : Bytes → Bytes → Bool)
    (now : ℤ) (left loop : ℕ) :
    ((t.iterateAll iterator now left loop).2.map Prod.fst).Nodup ∧
      ∀ p ∈ (t.iterateAll iterator now left loop).2, loop ≤ mask h p.1 ∧
        ∃ expiry, now < expiry ∧ m p.1 = some (p.2, expiry) := by
  induction left generalizing loop t with
  | zero => exact ⟨List.nodup_nil, by simp [Contents.iterateAll]⟩
  | succ left ih =>
    have hlives := Queue.iterate_lives iterator now (t loop)
    have hset := ha.update (Queue.lives_iterate iterator now (t loop))
    have hids : (((t loop).iterate iterator now).2.1.map Prod.fst).Nodup := by
      refine List.Nodup.sublist (hlives.map Prod.fst) ?_
      rw [List.map_map]
      exact (ha.distinct loop).sublist (List.filter_sublist.map _)
    have hfirst : ∀ p ∈ ((t loop).iterate iterator now).2.1, mask h p.1 = loop ∧
        ∃ expiry, now < expiry ∧ m p.1 = some (p.2, expiry) := by
      intro p hp
      obtain ⟨e, he, rfl⟩ := List.mem_map.1 (hlives.subset hp)
      rw [List.mem_filter, decide_eq_true_iff] at he
      obtain ⟨hmask, hm⟩ := ha.latest loop e he.1
      exact ⟨hmask, e.expires, he.2, hm⟩
    rw [Contents.iterateAll]
    generalize Queue.iterate iterator now (t loop) = after at hset hids hfirst ⊢
    obtain ⟨q, seen, rv⟩ := after
    rcases rv with _ | _
    · exact ⟨hids, fun p hp => ⟨(hfirst p hp).1.ge, (hfirst p hp).2⟩⟩
    · obtain ⟨hrest, hlater⟩ := ih hset (loop + 1)
      constructor
      · change ((seen ++ (Contents.iterateAll iterator now left (loop + 1)
          (Function.update t loop q)).2).map Prod.fst).Nodup
        rw [List.map_append]
        refine List.Nodup.append hids hrest ?_
        intro id hid hid'
        obtain ⟨p, hp, rfl⟩ := List.mem_map.1 hid
        obtain ⟨p', hp', hsame⟩ := List.mem_map.1 hid'
        have h1 := (hfirst p hp).1
        have h2 := (hlater p' hp').1
        rw [hsame] at h2
        omega
      · intro p hp
        rcases List.mem_append.1 hp with hp | hp
        · exact ⟨(hfirst p hp).1.ge, (hfirst p hp).2⟩
        · exact ⟨Nat.le_of_succ_le (hlater p hp).1, (hlater p hp).2⟩

/-- **What the cache hands out was stored last.** After any run, a hit is the data last stored
    under the id, not removed since and not expired; and an iteration hands out such data
    only, each id once. -/
theorem handed_out_latest (hs : h.Sound) (indexes : ℕ → ℕ → Index) (data : ℕ → ℕ → UInt8)
    (calls : List Call) (hfits : ∀ call ∈ calls, call.Fits) :
    (∀ id destlen now found,
      ((Machine.run Cache.next (.fresh h indexes data) calls).serve
        ⟨.retrieve id destlen, now⟩).2 = .dest (some found) →
      ∃ expiry, now < expiry ∧
        Machine.run (Latest.next h.subcacheDataSize) (fun _ => none) calls id =
          some (found, expiry)) ∧
    ∀ iterator now entries,
      ((Machine.run Cache.next (.fresh h indexes data) calls).serve
        ⟨.iterate iterator, now⟩).2 = .seen entries →
      (entries.map Prod.fst).Nodup ∧ ∀ p ∈ entries, ∃ expiry, now < expiry ∧
        Machine.run (Latest.next h.subcacheDataSize) (fun _ => none) calls p.1 =
          some (p.2, expiry) := by
  have hrep := CacheRep.run hs indexes data calls hfits
  have hagrees := agrees_run h calls
  constructor
  · intro id destlen now found hhit
    have hall : Call.Fits ⟨.retrieve id destlen, now⟩ := trivial
    have hreply := (hrep.serve hs hall).1
    rw [hhit] at hreply
    have hqueue := Reply.dest.inj hreply
    obtain ⟨e, he, rfl, rfl, hnow⟩ := Queue.retrieve_lives hqueue.symm
    exact ⟨e.expires, hnow, (hagrees.latest _ e he).2⟩
  · intro iterator now entries hseen
    have hall : Call.Fits ⟨.iterate iterator, now⟩ := trivial
    have hreply := (hrep.serve hs hall).1
    rw [hseen] at hreply
    have hqueue := Reply.seen.inj hreply
    obtain ⟨hids, hlatest⟩ := iterateAll_latest hagrees iterator now h.subcacheNum 0
    rw [hqueue]
    exact ⟨hids, fun p hp => (hlatest p hp).2⟩

theorem handed_out_latest_replacing : ∃ expiry : ℤ, 60 < expiry ∧
    Machine.run (Latest.next 16) (fun _ => none) replacing [1, 2, 3, 4] =
      some ([5, 5, 5, 5, 5], expiry) :=
  (handed_out_latest smallHeader_sound (fun _ _ => ⟨0, 0, 0, 0, false⟩) (fun _ _ => 0) replacing
    replacing_fits).1 [1, 2, 3, 4] 8 60 [5, 5, 5, 5, 5] (by rfl)

end Httpd.Shmcb
