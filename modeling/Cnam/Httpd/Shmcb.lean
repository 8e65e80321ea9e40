/-
  The shared memory session cache (`mod_socache_shmcb.c`): a header, and subcaches that
  each hold a cyclic queue of indexes and a cyclic buffer of bytes. The times are those the
  calls read from the clock. The counters of the header are `unsigned long` and are not
  reduced; everything that is an `unsigned int` is.
-/
import Cnam.Httpd.Bytes
import Cnam.Lib.Cyclic

namespace Httpd

/-! Arithmetic of `unsigned int`. -/

/-- A sum of two `unsigned int`s. -/
def add32 (a b : ℕ) : ℕ := (a + b) % 2 ^ 32

/-- A difference of two `unsigned int`s. -/
def sub32 (a b : ℕ) : ℕ := (2 ^ 32 + a - b) % 2 ^ 32

theorem add32_eq {a b : ℕ} (h : a + b < 2 ^ 32) : add32 a b = a + b := Nat.mod_eq_of_lt h

theorem sub32_eq {a b : ℕ} (h : b ≤ a) (ha : a < 2 ^ 32) : sub32 a b = a - b := by
  have : 2 ^ 32 + a - b = a - b + 2 ^ 32 := by omega
  rw [sub32, this, Nat.add_mod_right, Nat.mod_eq_of_lt (by omega)]

namespace Shmcb

/-- `SHMCBHeader`. -/
structure Header where
  statStores : ℕ
  statReplaced : ℕ
  statExpiries : ℕ
  statScrolled : ℕ
  statRetrievesHit : ℕ
  statRetrievesMiss : ℕ
  statRemovesHit : ℕ
  statRemovesMiss : ℕ
  subcacheNum : ℕ
  indexNum : ℕ
  subcacheSize : ℕ
  subcacheDataOffset : ℕ
  subcacheDataSize : ℕ
deriving DecidableEq, Repr

/-- `SHMCBIndex`. -/
structure Index where
  expires : ℤ
  dataPos : ℕ
  dataUsed : ℕ
  idLen : ℕ
  removed : Bool
deriving DecidableEq, Repr

/-- A subcache with its array of indexes and its data area. -/
structure Subcache where
  idxPos : ℕ
  idxUsed : ℕ
  dataPos : ℕ
  dataUsed : ℕ
  indexes : ℕ → Index
  data : ℕ → UInt8

/-- The whole segment. -/
structure Cache where
  header : Header
  subcaches : ℕ → Subcache

/-- `SHMCB_CYCLIC_INCREMENT`. -/
def cyclicIncrement (val inc mod : ℕ) : ℕ := add32 val inc % mod

/-- `SHMCB_CYCLIC_SPACE`. -/
def cyclicSpace (val1 val2 mod : ℕ) : ℕ :=
  if val2 ≥ val1 then sub32 val2 val1 else sub32 (add32 val2 mod) val1

/-- `shmcb_cyclic_ntoc_memcpy`. -/
def cyclicNtocMemcpy (bufSize : ℕ) (data : ℕ → UInt8) (destOffset : ℕ) (src : Bytes) :
    ℕ → UInt8 :=
  if add32 destOffset src.length < bufSize then Cyclic.blit data destOffset src
  else
    let split := sub32 bufSize destOffset
    Cyclic.blit (Cyclic.blit data destOffset (src.take split)) 0
      ((src.drop split).take (sub32 (add32 src.length destOffset) bufSize))

/-- `shmcb_cyclic_cton_memcpy`. -/
def cyclicCtonMemcpy (bufSize : ℕ) (data : ℕ → UInt8) (srcOffset srcLen : ℕ) : Bytes :=
  if add32 srcOffset srcLen < bufSize then Cyclic.slice data srcOffset srcLen
  else
    Cyclic.slice data srcOffset (sub32 bufSize srcOffset) ++
      Cyclic.slice data 0 (sub32 (add32 srcLen srcOffset) bufSize)

/-- `memcmp` of two pieces of one length: the first bytes that differ decide. -/
def memcmp : Bytes → Bytes → Ordering
  | a :: as, b :: bs => (compare a b).then (memcmp as bs)
  | _, _ => .eq

/-- `shmcb_cyclic_memcmp`. -/
def cyclicMemcmp (bufSize : ℕ) (data : ℕ → UInt8) (destOffset : ℕ) (src : Bytes)
    (srcLen : ℕ) : Ordering :=
  if add32 destOffset srcLen < bufSize then
    memcmp (Cyclic.slice data destOffset srcLen) (src.take srcLen)
  else
    let split := sub32 bufSize destOffset
    (memcmp (Cyclic.slice data destOffset split) (src.take split)).then
      (memcmp (Cyclic.slice data 0 (sub32 (add32 srcLen destOffset) bufSize))
        ((src.drop split).take (sub32 (add32 srcLen destOffset) bufSize)))

/-- `idx->removed = 1`. -/
def Subcache.discard (sub : Subcache) (pos : ℕ) : Subcache :=
  { sub with indexes :=
      Function.update sub.indexes pos { sub.indexes pos with removed := true } }

/-- The loop of `shmcb_subcache_expire`, with `left` indexes still in use: how many it
    passes, how many of them had expired, and the position it stops at. -/
def expireLoop (header : Header) (sub : Subcache) (now : ℤ) :
    (left loop expired newIdxPos : ℕ) → ℕ × ℕ × ℕ
  | 0, loop, expired, newIdxPos => (loop, expired, newIdxPos)
  | left + 1, loop, expired, newIdxPos =>
    let idx := sub.indexes newIdxPos
    let next := cyclicIncrement newIdxPos 1 header.indexNum
    if idx.removed then expireLoop header sub now left (loop + 1) expired next
    else if idx.expires ≤ now then expireLoop header sub now left (loop + 1) (expired + 1) next
    else (loop, expired, newIdxPos)

/-- `shmcb_subcache_expire`. -/
def subcacheExpire (header : Header) (sub : Subcache) (now : ℤ) : Header × Subcache :=
  let (loop, expired, newIdxPos) := expireLoop header sub now sub.idxUsed 0 0 sub.idxPos
  if loop = 0 then (header, sub)
  else
    let header' := { header with statExpiries := header.statExpiries + expired }
    if loop = sub.idxUsed then (header', { sub with idxUsed := 0, dataUsed := 0 })
    else
      let idx := sub.indexes newIdxPos
      let diff := cyclicSpace sub.dataPos idx.dataPos header.subcacheDataSize
      (header', { sub with
        idxUsed := sub32 sub.idxUsed loop
        idxPos := newIdxPos
        dataUsed := sub32 sub.dataUsed diff
        dataPos := idx.dataPos })

/-- The loop of `shmcb_subcache_store` that drops the oldest indexes: one at least, then as
    long as the room is short. It is entered with one index in use at least. -/
def forceExpire (totalLen : ℕ) : (used : ℕ) → Header → Subcache → Header × Subcache
  | 0, header, sub => (header, sub)
  | used + 1, header, sub =>
    let idx := sub.indexes sub.idxPos
    let idxPos := cyclicIncrement sub.idxPos 1 header.indexNum
    if used = 0 then
      (header, { sub with idxPos := idxPos, idxUsed := used, dataUsed := 0 })
    else
      let idx2 := sub.indexes idxPos
      let dataUsed := sub32 sub.dataUsed
        (cyclicSpace idx.dataPos idx2.dataPos header.subcacheDataSize)
      let sub' : Subcache :=
        { sub with
          idxPos := idxPos, idxUsed := used, dataUsed := dataUsed, dataPos := idx2.dataPos }
      let header' := { header with statScrolled := header.statScrolled + 1 }
      if sub32 header.subcacheDataSize dataUsed < totalLen then
        forceExpire totalLen used header' sub'
      else (header', sub')

/-- The second half of `shmcb_subcache_store`: the entry goes on the end. -/
def insertEntry (header : Header) (sub : Subcache) (data id : Bytes) (expiry : ℤ) : Subcache :=
  let idOffset := cyclicIncrement sub.dataPos sub.dataUsed header.subcacheDataSize
  let withId := cyclicNtocMemcpy header.subcacheDataSize sub.data idOffset id
  let used := add32 sub.dataUsed id.length
  let dataOffset := cyclicIncrement sub.dataPos used header.subcacheDataSize
  let withData := cyclicNtocMemcpy header.subcacheDataSize withId dataOffset data
  let newIdx := cyclicIncrement sub.idxPos sub.idxUsed header.indexNum
  { sub with
    data := withData
    dataUsed := add32 used data.length
    indexes := Function.update sub.indexes newIdx
      { expires := expiry
        dataPos := idOffset
        dataUsed := add32 id.length data.length
        idLen := id.length
        removed := false }
    idxUsed := add32 sub.idxUsed 1 }

/-- The first half of `shmcb_subcache_store`: dead entries go, then the oldest ones if the
    room is short or all indexes are in use. -/
def makeRoom (header : Header) (sub : Subcache) (totalLen : ℕ) (now : ℤ) : Header × Subcache :=
  let (header, sub) := subcacheExpire header sub now
  if sub32 header.subcacheDataSize sub.dataUsed < totalLen ∨ sub.idxUsed = header.indexNum
  then forceExpire totalLen sub.idxUsed header sub
  else (header, sub)

/-- `none` is the status -1, before which nothing is written. -/
def subcacheStore (header : Header) (sub : Subcache) (data id : Bytes) (expiry now : ℤ) :
    Option (Header × Subcache) :=
  let totalLen := add32 id.length data.length
  if totalLen > header.subcacheDataSize then none
  else
    let (header, sub) := makeRoom header sub totalLen now
    some (header, insertEntry header sub data id expiry)

/-- The loop `shmcb_subcache_retrieve` and `shmcb_subcache_remove` share: the position of the
    first of the `left` indexes from `pos` on that passes. -/
def scan (header : Header) (indexes : ℕ → Index) (p : Index → Bool) :
    (left pos : ℕ) → Option ℕ
  | 0, _ => none
  | left + 1, pos =>
    if p (indexes pos) then some pos
    else scan header indexes p left (cyclicIncrement pos 1 header.indexNum)

/-- The index is not removed, and its entry has this id. -/
def sameId (header : Header) (sub : Subcache) (id : Bytes) (idx : Index) : Bool :=
  !idx.removed && idx.idLen == id.length &&
    cyclicMemcmp header.subcacheDataSize sub.data idx.dataPos id idx.idLen == .eq

/-- A hit is the bytes copied to `dest`, of the length left in `destlen`. -/
def subcacheRetrieve (header : Header) (sub : Subcache) (id : Bytes) (destlen : ℕ) (now : ℤ) :
    Header × Subcache × Option Bytes :=
  let passes := fun idx : Index =>
    sameId header sub id idx && decide (sub32 idx.dataUsed idx.idLen ≤ destlen)
  match scan header sub.indexes passes sub.idxUsed sub.idxPos with
  | none => (header, sub, none)
  | some pos =>
    let idx := sub.indexes pos
    if idx.expires > now then
      let dataOffset := cyclicIncrement idx.dataPos idx.idLen header.subcacheDataSize
      (header, sub, some (cyclicCtonMemcpy header.subcacheDataSize sub.data dataOffset
        (sub32 idx.dataUsed idx.idLen)))
    else
      ({ header with statExpiries := header.statExpiries + 1 }, sub.discard pos, none)

/-- `none` is the status -1. -/
def subcacheRemove (header : Header) (sub : Subcache) (id : Bytes) : Option Subcache :=
  (scan header sub.indexes (sameId header sub id) sub.idxUsed sub.idxPos).map sub.discard

/-- `shmcb_subcache_iterate`: the entries handed to the iterator, which stops the loop where
    it does not answer `APR_SUCCESS`, and whether it never did. -/
def subcacheIterate (iterator : Bytes → Bytes → Bool) (now : ℤ) :
    (left pos : ℕ) → Header → Subcache → Header × Subcache × List (Bytes × Bytes) × Bool
  | 0, _, header, sub => (header, sub, [], true)
  | left + 1, pos, header, sub =>
    let idx := sub.indexes pos
    let next := cyclicIncrement pos 1 header.indexNum
    if idx.removed then subcacheIterate iterator now left next header sub
    else if idx.expires > now then
      let dataOffset := cyclicIncrement idx.dataPos idx.idLen header.subcacheDataSize
      let id := cyclicCtonMemcpy header.subcacheDataSize sub.data idx.dataPos idx.idLen
      let dest := cyclicCtonMemcpy header.subcacheDataSize sub.data dataOffset
        (sub32 idx.dataUsed idx.idLen)
      if iterator id dest then
        let (header, sub, seen, rv) := subcacheIterate iterator now left next header sub
        (header, sub, (id, dest) :: seen, rv)
      else (header, sub, [(id, dest)], false)
    else
      subcacheIterate iterator now left next
        { header with statExpiries := header.statExpiries + 1 } (sub.discard pos)

/-! The calls of the provider. -/

/-- What a call returns. -/
inductive Status
  | success
  | einval
  | enospc
  | notfound
deriving DecidableEq, Repr

/-- `SHMCB_MASK`: the subcache of an id, which has one byte at least. -/
def mask (header : Header) (id : Bytes) : ℕ := (id.headD 0).toNat &&& (header.subcacheNum - 1)

/-- A subcache is written back. -/
def Cache.set (c : Cache) (header : Header) (num : ℕ) (sub : Subcache) : Cache :=
  { header := header, subcaches := Function.update c.subcaches num sub }

/-- `socache_shmcb_store`. -/
def socacheStore (c : Cache) (id : Bytes) (expiry : ℤ) (encoded : Bytes) (now : ℤ) :
    Cache × Status :=
  let num := mask c.header id
  if id.length < 4 then (c, .einval)
  else
    let tryreplace := subcacheRemove c.header (c.subcaches num) id
    let sub := tryreplace.getD (c.subcaches num)
    match subcacheStore c.header sub encoded id expiry now with
    | none => (c.set c.header num sub, .enospc)
    | some (header, sub) =>
      let header := if tryreplace.isSome
        then { header with statReplaced := header.statReplaced + 1 }
        else { header with statStores := header.statStores + 1 }
      (c.set header num sub, .success)

/-- `socache_shmcb_retrieve`. -/
def socacheRetrieve (c : Cache) (id : Bytes) (destlen : ℕ) (now : ℤ) : Cache × Option Bytes :=
  let num := mask c.header id
  let (header, sub, dest) := subcacheRetrieve c.header (c.subcaches num) id destlen now
  let header := if dest.isSome
    then { header with statRetrievesHit := header.statRetrievesHit + 1 }
    else { header with statRetrievesMiss := header.statRetrievesMiss + 1 }
  (c.set header num sub, dest)

/-- `socache_shmcb_remove`. -/
def socacheRemove (c : Cache) (id : Bytes) : Cache × Status :=
  let num := mask c.header id
  if id.length < 4 then (c, .einval)
  else match subcacheRemove c.header (c.subcaches num) id with
    | some sub =>
      (c.set { c.header with statRemovesHit := c.header.statRemovesHit + 1 } num sub, .success)
    | none =>
      ({ c with header :=
          { c.header with statRemovesMiss := c.header.statRemovesMiss + 1 } }, .notfound)

/-- The loop of `socache_shmcb_status`: every subcache is expired. -/
def socacheStatus (now : ℤ) : (left loop : ℕ) → Cache → Cache
  | 0, _, c => c
  | left + 1, loop, c =>
    let (header, sub) := subcacheExpire c.header (c.subcaches loop) now
    socacheStatus now left (loop + 1) (c.set header loop sub)

/-- `socache_shmcb_iterate`, over the `left` subcaches from `loop` on. -/
def socacheIterate (iterator : Bytes → Bytes → Bool) (now : ℤ) :
    (left loop : ℕ) → Cache → Cache × List (Bytes × Bytes)
  | 0, _, c => (c, [])
  | left + 1, loop, c =>
    let sub := c.subcaches loop
    let (header, sub, seen, rv) :=
      subcacheIterate iterator now sub.idxUsed sub.idxPos c.header sub
    let c := c.set header loop sub
    if rv then
      let (c, rest) := socacheIterate iterator now left (loop + 1) c
      (c, seen ++ rest)
    else (c, seen)

end Shmcb

end Httpd
