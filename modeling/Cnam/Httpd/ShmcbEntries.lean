/-
  What a subcache of the shared memory cache holds: a queue of entries, the oldest first.
  `Rep` relates the indexes and the bytes to the queue, and each operation on the subcache
  does to it what its counterpart does to the queue.
-/
import Cnam.Httpd.Shmcb

namespace Httpd.Shmcb

/-- An entry of the cache. -/
structure Entry where
  id : Bytes
  data : Bytes
  expires : ℤ
  removed : Bool
deriving DecidableEq, Repr

namespace Entry

/-- What it takes in the data area. -/
def bytes (e : Entry) : Bytes := e.id ++ e.data

/-- How much it takes of the data area. -/
def size (e : Entry) : ℕ := e.id.length + e.data.length

/-- It is marked as removed. -/
def discard (e : Entry) : Entry := { e with removed := true }

/-- Not removed, and stored under this id. -/
def sameId (id : Bytes) (e : Entry) : Bool := !e.removed && e.id == id

/-- Neither removed nor expired. -/
def live (now : ℤ) (e : Entry) : Bool := !e.removed && decide (now < e.expires)

@[simp] theorem length_bytes (e : Entry) : e.bytes.length = e.size := List.length_append

@[simp] theorem discard_size (e : Entry) : e.discard.size = e.size := rfl

@[simp] theorem discard_bytes (e : Entry) : e.discard.bytes = e.bytes := rfl

@[simp] theorem discard_id (e : Entry) : e.discard.id = e.id := rfl

@[simp] theorem discard_removed (e : Entry) : e.discard.removed = true := rfl

end Entry

/-- A queue of entries, the oldest first. -/
abbrev Queue := List Entry

namespace Queue

/-- The bytes of the entries, dead ones included. -/
def total (q : Queue) : ℕ := (q.map Entry.size).sum

/-- The dead entries at the head go. -/
def expire (now : ℤ) (q : Queue) : Queue := q.dropWhile fun e => !e.live now

/-- The oldest entry goes, then others as long as the room for `len` bytes is short. -/
def scroll (size len : ℕ) : Queue → Queue
  | [] => []
  | _ :: q => if q ≠ [] ∧ size - total q < len then scroll size len q else q

/-- Room for `len` bytes and for an entry. -/
def makeRoom (size count len : ℕ) (now : ℤ) (q : Queue) : Queue :=
  let q := q.expire now
  if size - q.total < len ∨ q.length = count then q.scroll size len else q

/-- The entry at the end, once there is room for it. -/
def push (size count : ℕ) (now : ℤ) (e : Entry) (q : Queue) : Queue :=
  q.makeRoom size count e.size now ++ [e]

/-- The oldest entry under the id that is not removed is marked so. -/
def remove (id : Bytes) (q : Queue) : Option Queue :=
  (q.findIdx? (Entry.sameId id)).map fun k => q.modify k Entry.discard

/-- The data of the oldest entry under the id that is not removed and fits; one that has
    expired is marked removed instead. -/
def retrieve (id : Bytes) (destlen : ℕ) (now : ℤ) (q : Queue) : Queue × Option Bytes :=
  match q.findIdx? fun e => e.sameId id && decide (e.data.length ≤ destlen) with
  | none => (q, none)
  | some k => match q[k]? with
    | none => (q, none)
    | some e => if now < e.expires then (q, some e.data) else (q.modify k Entry.discard, none)

/-- The entries handed to the iterator, up to the one it refuses; those met on the way that
    had expired are marked removed. -/
def iterate (iterator : Bytes → Bytes → Bool) (now : ℤ) :
    Queue → Queue × List (Bytes × Bytes) × Bool
  | [] => ([], [], true)
  | e :: q =>
    if e.removed then
      let (q, seen, rv) := iterate iterator now q
      (e :: q, seen, rv)
    else if now < e.expires then
      if iterator e.id e.data then
        let (q, seen, rv) := iterate iterator now q
        (e :: q, (e.id, e.data) :: seen, rv)
      else (e :: q, [(e.id, e.data)], false)
    else
      let (q, seen, rv) := iterate iterator now q
      (e.discard :: q, seen, rv)

@[simp] theorem total_nil : total [] = 0 := rfl

@[simp] theorem total_cons (e : Entry) (q : Queue) : total (e :: q) = e.size + total q := rfl

@[simp] theorem total_append (q q' : Queue) : total (q ++ q') = total q + total q' := by
  simp [total]

@[simp] theorem total_modify (q : Queue) (k : ℕ) :
    total (q.modify k Entry.discard) = total q := by
  induction q generalizing k with
  | nil => simp
  | cons e q ih => cases k <;> simp [List.modify_cons, ih]

theorem scroll_suffix (size len : ℕ) : ∀ q : Queue, scroll size len q <:+ q
  | [] => List.suffix_rfl
  | e :: q => by
    rw [scroll]
    split
    · exact (scroll_suffix size len q).trans (List.suffix_cons e q)
    · exact List.suffix_cons e q

theorem scroll_room {size len : ℕ} (hlen : len ≤ size) :
    ∀ q : Queue, len ≤ size - total (scroll size len q)
  | [] => hlen
  | e :: q => by
    rw [scroll]
    split
    · exact scroll_room hlen q
    · rename_i hstop
      rcases q with _ | ⟨e', q⟩
      · exact hlen
      · simp only [ne_eq, reduceCtorEq, not_false_eq_true, true_and, not_lt] at hstop
        exact hstop

theorem scroll_length (size len : ℕ) (q : Queue) : (scroll size len q).length ≤ q.length - 1 := by
  rcases q with _ | ⟨e, q⟩
  · simp [scroll]
  · rw [scroll]
    split
    · simpa using (scroll_suffix size len q).length_le
    · simp

theorem expire_suffix (now : ℤ) (q : Queue) : expire now q <:+ q := List.dropWhile_suffix _

theorem total_suffix {q q' : Queue} (h : q <:+ q') : total q ≤ total q' := by
  obtain ⟨p, rfl⟩ := h
  rw [total_append]
  exact Nat.le_add_left _ _

theorem makeRoom_suffix (size count len : ℕ) (now : ℤ) (q : Queue) :
    makeRoom size count len now q <:+ q := by
  have hexpire := expire_suffix now q
  rw [makeRoom]
  split
  · exact (scroll_suffix size len _).trans hexpire
  · exact hexpire

theorem makeRoom_room {size count len : ℕ} {q : Queue} (hlen : len ≤ size) (now : ℤ)
    (hcount : 0 < count) (hle : q.length ≤ count) (hsum : q.total ≤ size) :
    (q.makeRoom size count len now).total + len ≤ size ∧
      (q.makeRoom size count len now).length < count := by
  have hexpire := expire_suffix now q
  have hlength := hexpire.length_le
  have htotal := total_suffix hexpire
  rw [makeRoom]
  split
  · have hroom := scroll_room hlen (expire now q)
    have hshort := scroll_length size len (expire now q)
    have hless := total_suffix (scroll_suffix size len (expire now q))
    omega
  · rename_i hfree
    omega

end Queue

/-- What the configuration gives: areas that are not empty, small enough for the sums of two
    offsets to be `unsigned int`. -/
structure Header.Sound (h : Header) : Prop where
  subcaches : 0 < h.subcacheNum
  indexes : 0 < h.indexNum
  indexes_small : 2 * h.indexNum ≤ 2 ^ 32
  data : 0 < h.subcacheDataSize
  data_small : 2 * h.subcacheDataSize ≤ 2 ^ 32

/-- Only the counters differ. -/
structure Header.Alike (h h' : Header) : Prop where
  subcacheNum : h'.subcacheNum = h.subcacheNum
  indexNum : h'.indexNum = h.indexNum
  subcacheSize : h'.subcacheSize = h.subcacheSize
  subcacheDataOffset : h'.subcacheDataOffset = h.subcacheDataOffset
  subcacheDataSize : h'.subcacheDataSize = h.subcacheDataSize

theorem Header.Alike.refl (h : Header) : h.Alike h := ⟨rfl, rfl, rfl, rfl, rfl⟩

theorem Header.Alike.trans {h h' h'' : Header} (ha : h.Alike h') (hb : h'.Alike h'') :
    h.Alike h'' :=
  ⟨hb.1.trans ha.1, hb.2.trans ha.2, hb.3.trans ha.3, hb.4.trans ha.4, hb.5.trans ha.5⟩

theorem Header.Alike.symm {h h' : Header} (ha : h.Alike h') : h'.Alike h :=
  ⟨ha.1.symm, ha.2.symm, ha.3.symm, ha.4.symm, ha.5.symm⟩

theorem Header.Sound.alike {h h' : Header} (hs : h.Sound) (ha : h.Alike h') : h'.Sound :=
  ⟨ha.1 ▸ hs.1, ha.2 ▸ hs.2, ha.2 ▸ hs.3, ha.5 ▸ hs.4, ha.5 ▸ hs.5⟩

variable {h : Header} {sub : Subcache}

/-- The index at `k` and the bytes at `pos` are those of the entry. -/
structure Holds (h : Header) (sub : Subcache) (pos k : ℕ) (e : Entry) : Prop where
  index : sub.indexes (k % h.indexNum) =
    ⟨e.expires, pos % h.subcacheDataSize, e.size, e.id.length, e.removed⟩
  bytes : Cyclic.read h.subcacheDataSize sub.data pos e.size = e.bytes

/-- The entries of the queue, one after the other from `pos` and from the index `k` on. -/
def Layout (h : Header) (sub : Subcache) : ℕ → ℕ → Queue → Prop
  | _, _, [] => True
  | pos, k, e :: q => Holds h sub pos k e ∧ Layout h sub (pos + e.size) (k + 1) q

/-- The subcache holds the queue. -/
structure Rep (h : Header) (sub : Subcache) (q : Queue) : Prop where
  idxPos : sub.idxPos < h.indexNum
  idxUsed : sub.idxUsed = q.length
  idxRoom : q.length ≤ h.indexNum
  dataPos : sub.dataPos < h.subcacheDataSize
  dataUsed : sub.dataUsed = q.total
  dataRoom : q.total ≤ h.subcacheDataSize
  layout : Layout h sub sub.dataPos sub.idxPos q
  long : ∀ e ∈ q, 4 ≤ e.id.length

/-! The cyclic arithmetic, within the areas. -/

theorem Header.Sound.increment (hs : h.Sound) {k : ℕ} (hk : k < h.indexNum) :
    cyclicIncrement k 1 h.indexNum = (k + 1) % h.indexNum := by
  have := hs.indexes_small
  rw [cyclicIncrement, add32_eq (by omega)]

theorem cyclicSpace_eq {size p d : ℕ} (hsmall : 2 * size ≤ 2 ^ 32) (hp : p < size)
    (hd : d < size) : cyclicSpace p ((p + d) % size) size = d := by
  by_cases hturn : p + d < size
  · rw [Nat.mod_eq_of_lt hturn, cyclicSpace, if_pos (Nat.le_add_right p d),
      sub32_eq (Nat.le_add_right p d) (by omega), Nat.add_sub_cancel_left]
  · have hmod : (p + d) % size = p + d - size := by
      rw [Nat.mod_eq_sub_mod (by omega), Nat.mod_eq_of_lt (by omega)]
    have hlt : ¬ (p + d - size ≥ p) := by omega
    rw [hmod, cyclicSpace, if_neg hlt, add32_eq (by omega), sub32_eq (by omega) (by omega)]
    omega

/-- Copying into the data area is writing the ring. -/
theorem cyclicNtocMemcpy_eq {size off : ℕ} (hsmall : 2 * size ≤ 2 ^ 32) (data : ℕ → UInt8)
    {src : Bytes} (hoff : off < size) (hsrc : src.length ≤ size) :
    cyclicNtocMemcpy size data off src = Cyclic.write size data off src := by
  have hsum : add32 off src.length = off + src.length := add32_eq (by omega)
  rw [cyclicNtocMemcpy, hsum]
  split
  · exact (Cyclic.write_blit src (by omega)).symm
  · rename_i hover
    have hsplit : sub32 size off = size - off := sub32_eq hoff.le (by omega)
    have hlen : sub32 (add32 src.length off) size = src.length + off - size := by
      rw [add32_eq (by omega), sub32_eq (by omega) (by omega)]
    have hall : (src.drop (size - off)).take (src.length + off - size) = src.drop (size - off) := by
      refine List.take_of_length_le ?_
      rw [List.length_drop]; omega
    simp only [hsplit, hlen, hall]
    exact (Cyclic.write_split data hoff.le (by omega) hsrc).symm

/-- Copying out of the data area is reading the ring. -/
theorem cyclicCtonMemcpy_eq {size off len : ℕ} (hsmall : 2 * size ≤ 2 ^ 32)
    (data : ℕ → UInt8) (hoff : off < size) (hlen : len ≤ size) :
    cyclicCtonMemcpy size data off len = Cyclic.read size data off len := by
  have hsum : add32 off len = off + len := add32_eq (by omega)
  rw [cyclicCtonMemcpy, hsum]
  split
  · exact (Cyclic.read_slice data (by omega)).symm
  · rename_i hover
    have hsplit : sub32 size off = size - off := sub32_eq hoff.le (by omega)
    have hrest : sub32 (add32 len off) size = len + off - size := by
      rw [add32_eq (by omega), sub32_eq (by omega) (by omega)]
    rw [hsplit, hrest]
    exact (Cyclic.read_split data hoff.le (by omega) hlen).symm

theorem memcmp_eq : ∀ {a b : Bytes}, a.length = b.length → (memcmp a b = .eq ↔ a = b)
  | [], [], _ => by simp [memcmp]
  | x :: a, y :: b, hlen => by
    have ih := memcmp_eq (a := a) (b := b) (by simpa using hlen)
    rw [memcmp, Ordering.then_eq_eq, ih, List.cons.injEq]
    simp

/-- Comparing with the data area is comparing with what the ring reads. -/
theorem cyclicMemcmp_eq {size off : ℕ} (hsmall : 2 * size ≤ 2 ^ 32) (data : ℕ → UInt8)
    {src : Bytes} (hoff : off < size) (hsrc : src.length ≤ size) :
    cyclicMemcmp size data off src src.length = .eq ↔
      Cyclic.read size data off src.length = src := by
  have hsum : add32 off src.length = off + src.length := add32_eq (by omega)
  rw [cyclicMemcmp, hsum]
  split
  · rw [Cyclic.read_slice data (by omega), List.take_length, memcmp_eq (by simp)]
  · rename_i hover
    have hsplit : sub32 size off = size - off := sub32_eq hoff.le (by omega)
    have hrest : sub32 (add32 src.length off) size = src.length + off - size := by
      rw [add32_eq (by omega), sub32_eq (by omega) (by omega)]
    have hall : (src.drop (size - off)).take (src.length + off - size) = src.drop (size - off) := by
      refine List.take_of_length_le ?_
      rw [List.length_drop]; omega
    simp only [hsplit, hrest, hall]
    have hfirst : (Cyclic.slice data off (size - off)).length = (src.take (size - off)).length := by
      rw [Cyclic.length_slice, List.length_take]; omega
    have hsecond : (Cyclic.slice data 0 (src.length + off - size)).length =
        (src.drop (size - off)).length := by
      rw [Cyclic.length_slice, List.length_drop]; omega
    rw [Ordering.then_eq_eq, memcmp_eq hfirst, memcmp_eq hsecond,
      Cyclic.read_split data hoff.le (by omega) hsrc]
    constructor
    · rintro ⟨h1, h2⟩
      rw [h1, h2, List.take_append_drop]
    · intro hall
      exact List.append_inj (hall.trans (List.take_append_drop _ _).symm) hfirst

/-! The layout of a queue. -/

theorem Layout.congr {p p' k k' : ℕ} {q : Queue}
    (hp : p % h.subcacheDataSize = p' % h.subcacheDataSize)
    (hk : k % h.indexNum = k' % h.indexNum) (hl : Layout h sub p k q) : Layout h sub p' k' q := by
  induction q generalizing p p' k k' with
  | nil => trivial
  | cons e q ih =>
    obtain ⟨⟨hindex, hbytes⟩, hrest⟩ := hl
    refine ⟨⟨by rw [← hk, hindex, hp], ?_⟩, ih ?_ ?_ hrest⟩
    · rw [← hbytes, Cyclic.read_congr sub.data hp]
    · rw [Nat.add_mod p, Nat.add_mod p', hp]
    · rw [Nat.add_mod k, Nat.add_mod k', hk]

theorem layout_append {p k : ℕ} {q q' : Queue} :
    Layout h sub p k (q ++ q') ↔
      Layout h sub p k q ∧ Layout h sub (p + q.total) (k + q.length) q' := by
  induction q generalizing p k with
  | nil => simp [Layout]
  | cons e q ih =>
    simp only [List.cons_append, Layout, ih, Queue.total_cons, List.length_cons, and_assoc,
      Nat.add_assoc, Nat.add_comm 1]

/-- Writing past the queue, in its turn, leaves it in place. -/
theorem Layout.frame {p k b j : ℕ} {q : Queue} {src : Bytes} (idx : Index)
    (hl : Layout h sub p k q) (hb : p + q.total ≤ b)
    (hturn : b + src.length ≤ p + h.subcacheDataSize) (hj : k + q.length ≤ j)
    (hjturn : j < k + h.indexNum) :
    Layout h { sub with
      data := Cyclic.write h.subcacheDataSize sub.data b src
      indexes := Function.update sub.indexes (j % h.indexNum) idx } p k q := by
  induction q generalizing p k with
  | nil => trivial
  | cons e q ih =>
    rw [Queue.total_cons] at hb
    rw [List.length_cons] at hj
    obtain ⟨⟨hindex, hbytes⟩, hrest⟩ := hl
    refine ⟨⟨?_, ?_⟩, ih hrest (by omega) (by omega) (by omega) (by omega)⟩
    · rw [← hindex]
      exact Function.update_of_ne (Cyclic.mod_ne (by omega) (by omega)) _ _
    · rw [← hbytes]
      exact Cyclic.read_write_disjoint (by omega) hturn

/-- A view that only the indexes and the bytes matter to. -/
theorem Layout.of_eq {sub' : Subcache} {p k : ℕ} {q : Queue} (hl : Layout h sub p k q)
    (hi : sub'.indexes = sub.indexes) (hd : sub'.data = sub.data) : Layout h sub' p k q := by
  induction q generalizing p k with
  | nil => trivial
  | cons e q ih => exact ⟨⟨by rw [hi, hl.1.index], by rw [hd, hl.1.bytes]⟩, ih hl.2⟩

namespace Rep

variable {q q₁ q₂ : Queue}

/-- The entries at the head go, and others remain. -/
theorem drop (hr : Rep h sub (q₁ ++ q₂)) :
    Rep h { sub with
      idxPos := (sub.idxPos + q₁.length) % h.indexNum
      idxUsed := q₂.length
      dataPos := (sub.dataPos + q₁.total) % h.subcacheDataSize
      dataUsed := q₂.total } q₂ := by
  have hsum := hr.dataRoom
  rw [Queue.total_append] at hsum
  have hlen := hr.idxRoom
  rw [List.length_append] at hlen
  have hpos := hr.dataPos
  have hidx := hr.idxPos
  refine ⟨Nat.mod_lt _ (by omega), rfl, by omega, Nat.mod_lt _ (by omega), rfl, by omega, ?_, ?_⟩
  · have hl := (layout_append.1 hr.layout).2
    exact (hl.congr (Nat.mod_mod _ _).symm (Nat.mod_mod _ _).symm).of_eq rfl rfl
  · exact fun e he => hr.long e (List.mem_append_right _ he)

/-- All entries go. -/
theorem clear {k : ℕ} (hr : Rep h sub q) (hk : k < h.indexNum) :
    Rep h { sub with idxPos := k, idxUsed := 0, dataUsed := 0 } [] :=
  ⟨hk, rfl, Nat.zero_le _, hr.dataPos, rfl, Nat.zero_le _, trivial, by simp⟩

/-- The header's counters do not matter. -/
theorem alike {h' : Header} (hr : Rep h sub q) (ha : h.Alike h') : Rep h' sub q := by
  have hn := ha.indexNum
  have hd := ha.subcacheDataSize
  have hl : ∀ {p k : ℕ} {q : Queue}, Layout h sub p k q → Layout h' sub p k q := by
    intro p k q
    induction q generalizing p k with
    | nil => exact id
    | cons e q ih => exact fun hl => ⟨⟨by rw [hn, hd, hl.1.index], by rw [hd, hl.1.bytes]⟩, ih hl.2⟩
  exact ⟨hn ▸ hr.idxPos, hr.idxUsed, hn ▸ hr.idxRoom, hd ▸ hr.dataPos, hr.dataUsed,
    hd ▸ hr.dataRoom, hl hr.layout, hr.long⟩

/-- The index of the entry `k`, and what its bytes read. -/
theorem entry (hr : Rep h sub q) {k : ℕ} (hk : k < q.length) :
    Holds h sub (sub.dataPos + Queue.total (q.take k)) (sub.idxPos + k) q[k] := by
  have hl := hr.layout
  have hlen : (q.take k).length = k := by rw [List.length_take]; omega
  rw [← List.take_append_drop k q, List.drop_eq_getElem_cons hk, layout_append, hlen] at hl
  exact hl.2.1

end Rep

/-! `shmcb_subcache_expire`. -/

/-- The entries the loop passes. -/
def dead (now : ℤ) (q : Queue) : Queue := q.takeWhile fun e => !e.live now

theorem dead_append_expire (now : ℤ) (q : Queue) : dead now q ++ q.expire now = q :=
  List.takeWhile_append_dropWhile

theorem expireLoop_eq (hs : h.Sound) (now : ℤ) (loop expired : ℕ) {p k : ℕ} {q : Queue}
    (hl : Layout h sub p k q) :
    expireLoop h sub now q.length loop expired (k % h.indexNum) =
      (loop + (dead now q).length, expired + (dead now q).countP (!·.removed),
        (k + (dead now q).length) % h.indexNum) := by
  induction q generalizing p k loop expired with
  | nil => rfl
  | cons e q ih =>
    obtain ⟨⟨hindex, -⟩, hrest⟩ := hl
    have hnext : cyclicIncrement (k % h.indexNum) 1 h.indexNum = (k + 1) % h.indexNum := by
      rw [hs.increment (Nat.mod_lt k hs.indexes), Nat.mod_add_mod]
    rw [List.length_cons, expireLoop, hindex, hnext]
    by_cases hrem : e.removed = true
    · have hdead : dead now (e :: q) = e :: dead now q := by
        simp [dead, Entry.live, hrem]
      rw [if_pos hrem, ih _ _ hrest, hdead]
      simp [hrem, Nat.add_assoc, Nat.add_comm 1]
    · by_cases hexp : e.expires ≤ now
      · have hdead : dead now (e :: q) = e :: dead now q := by
          simp [dead, Entry.live, hexp]
        rw [if_neg hrem, if_pos hexp, ih _ _ hrest, hdead]
        simp [hrem, Nat.add_assoc, Nat.add_comm 1]
      · have hdead : dead now (e :: q) = [] := by
          simp [dead, Entry.live, hrem, Int.not_le.1 hexp]
        rw [if_neg hrem, if_neg hexp, hdead]
        simp

/-- **Expiring** drops the dead entries at the head, and counts those not removed before. -/
theorem subcacheExpire_rep (hs : h.Sound) (now : ℤ) {q : Queue} (hr : Rep h sub q) :
    Rep h (subcacheExpire h sub now).2 (q.expire now) ∧
      (subcacheExpire h sub now).1 = { h with
        statExpiries := h.statExpiries + (dead now q).countP (!·.removed) } := by
  have hloop := expireLoop_eq hs now 0 0 hr.layout
  rw [Nat.mod_eq_of_lt hr.idxPos, ← hr.idxUsed, Nat.zero_add, Nat.zero_add] at hloop
  have hsplit := dead_append_expire now q
  rcases hdead : dead now q with _ | ⟨d, ds⟩
  · rw [hdead, List.nil_append] at hsplit
    rw [hdead] at hloop
    rw [subcacheExpire, hloop, hsplit]
    exact ⟨hr, rfl⟩
  · rw [← hdead]
    have hne : (dead now q).length ≠ 0 := by simp [hdead]
    rcases hrest : q.expire now with _ | ⟨e, es⟩
    · have hall : (dead now q).length = sub.idxUsed := by
        rw [hrest, List.append_nil] at hsplit
        rw [hsplit, hr.idxUsed]
      rw [subcacheExpire, hloop]
      simp only [if_neg hne, if_pos hall]
      exact ⟨(hr.clear hr.idxPos).alike ⟨rfl, rfl, rfl, rfl, rfl⟩, trivial⟩
    · rw [hrest] at hsplit
      rw [← hsplit] at hr
      have hsum := hr.dataRoom
      have hlong := hr.long e (by simp)
      have hlen := hr.idxUsed
      have hused := hr.dataUsed
      have hroom := hr.idxRoom
      have hdrop := hr.drop
      have hhead := (layout_append.1 hr.layout).2.1.index
      simp only [Queue.total_append, Queue.total_cons, List.length_append, List.length_cons,
        Entry.size] at hsum hlen hused hroom
      have hdata := hs.data_small
      have hidx := hs.indexes_small
      have hspace : cyclicSpace sub.dataPos ((sub.dataPos + Queue.total (dead now q)) %
          h.subcacheDataSize) h.subcacheDataSize = Queue.total (dead now q) :=
        cyclicSpace_eq hs.data_small hr.dataPos (by omega)
      have hnall : (dead now q).length ≠ sub.idxUsed := by omega
      have hleft : sub32 sub.idxUsed (dead now q).length = (e :: es).length := by
        rw [sub32_eq (by omega) (by omega), List.length_cons]
        omega
      have hbytes : sub32 sub.dataUsed (Queue.total (dead now q)) = Queue.total (e :: es) := by
        rw [sub32_eq (by omega) (by omega), Queue.total_cons, Entry.size]
        omega
      rw [subcacheExpire, hloop]
      simp only [if_neg hne, if_neg hnall, hhead, hspace, hleft, hbytes]
      exact ⟨hdrop.alike ⟨rfl, rfl, rfl, rfl, rfl⟩, trivial⟩

/-! `shmcb_subcache_store`. -/

theorem forceExpire_rep (hs : h.Sound) (len : ℕ) {q : Queue} (hr : Rep h sub q) :
    Rep h (forceExpire len q.length h sub).2 (q.scroll h.subcacheDataSize len) ∧
      h.Alike (forceExpire len q.length h sub).1 := by
  induction q generalizing h sub with
  | nil => exact ⟨hr, .refl h⟩
  | cons e q ih =>
    have hidx := hs.increment hr.idxPos
    rw [List.length_cons, forceExpire, hidx, Queue.scroll]
    rcases q with _ | ⟨e', q⟩
    · have hclear := hr.clear (Nat.mod_lt (sub.idxPos + 1) hs.indexes)
      exact ⟨hclear, .refl h⟩
    · have hsum := hr.dataRoom
      have hlong := hr.long e' (by simp)
      have hused := hr.dataUsed
      have hdata := hs.data_small
      simp only [Queue.total_cons, Entry.size] at hsum hused
      have hfirst : (sub.indexes sub.idxPos).dataPos = sub.dataPos := by
        have hhead := hr.layout.1.index
        rw [Nat.mod_eq_of_lt hr.idxPos, Nat.mod_eq_of_lt hr.dataPos] at hhead
        rw [hhead]
      have hsecond : (sub.indexes ((sub.idxPos + 1) % h.indexNum)).dataPos =
          (sub.dataPos + e.size) % h.subcacheDataSize := by
        rw [hr.layout.2.1.index]
      have hspace : cyclicSpace sub.dataPos ((sub.dataPos + e.size) % h.subcacheDataSize)
          h.subcacheDataSize = e.size :=
        cyclicSpace_eq hs.data_small hr.dataPos (by rw [Entry.size]; omega)
      have hbytes : sub32 sub.dataUsed e.size = Queue.total (e' :: q) := by
        rw [Entry.size, sub32_eq (by omega) (by omega), Queue.total_cons, Entry.size]
        omega
      have hroom : sub32 h.subcacheDataSize (Queue.total (e' :: q)) =
          h.subcacheDataSize - Queue.total (e' :: q) := by
        refine sub32_eq ?_ (by omega)
        rw [Queue.total_cons, Entry.size]
        omega
      have hdrop : Rep h { sub with
          idxPos := (sub.idxPos + 1) % h.indexNum
          idxUsed := (e' :: q).length
          dataUsed := Queue.total (e' :: q)
          dataPos := (sub.dataPos + e.size) % h.subcacheDataSize } (e' :: q) := by
        have hcons : Rep h sub ([e] ++ e' :: q) := hr
        exact hcons.drop
      have halike : h.Alike { h with statScrolled := h.statScrolled + 1 } :=
        ⟨rfl, rfl, rfl, rfl, rfl⟩
      simp only [hfirst, hsecond, hspace, hbytes, hroom, List.length_cons, Nat.add_eq_zero_iff,
        Nat.one_ne_zero, and_false, if_false, ne_eq, reduceCtorEq, not_false_eq_true, true_and]
      split
      · have hnext := ih (hs.alike halike) (hdrop.alike halike)
        exact ⟨hnext.1.alike ⟨rfl, rfl, rfl, rfl, rfl⟩, halike.trans hnext.2⟩
      · exact ⟨hdrop, halike⟩

/-- What inserting comes to: the bytes are written after those in use, and the index after the
    last one. -/
theorem insertEntry_eq (hs : h.Sound) {q : Queue} (hr : Rep h sub q) (e : Entry)
    (hcount : q.length < h.indexNum) (hroom : q.total + e.size ≤ h.subcacheDataSize) :
    insertEntry h sub e.data e.id e.expires = { sub with
      data := Cyclic.write h.subcacheDataSize sub.data (sub.dataPos + q.total) e.bytes
      dataUsed := q.total + e.size
      indexes := Function.update sub.indexes ((sub.idxPos + q.length) % h.indexNum)
        ⟨e.expires, (sub.dataPos + q.total) % h.subcacheDataSize, e.size, e.id.length, false⟩
      idxUsed := q.length + 1 } := by
  have hdata := hs.data_small
  have hidx := hs.indexes_small
  have hpos := hr.dataPos
  have hipos := hr.idxPos
  have hsize : e.size = e.id.length + e.data.length := rfl
  have hidOffset : cyclicIncrement sub.dataPos sub.dataUsed h.subcacheDataSize =
      (sub.dataPos + q.total) % h.subcacheDataSize := by
    rw [cyclicIncrement, hr.dataUsed, add32_eq (by omega)]
  have hused : add32 sub.dataUsed e.id.length = q.total + e.id.length := by
    rw [hr.dataUsed, add32_eq (by omega)]
  have hdataOffset : cyclicIncrement sub.dataPos (q.total + e.id.length) h.subcacheDataSize =
      (sub.dataPos + q.total + e.id.length) % h.subcacheDataSize := by
    rw [cyclicIncrement, add32_eq (by omega), Nat.add_assoc]
  have hnewIdx : cyclicIncrement sub.idxPos sub.idxUsed h.indexNum =
      (sub.idxPos + q.length) % h.indexNum := by
    rw [cyclicIncrement, hr.idxUsed, add32_eq (by omega)]
  have hwrite : cyclicNtocMemcpy h.subcacheDataSize
      (cyclicNtocMemcpy h.subcacheDataSize sub.data
        ((sub.dataPos + q.total) % h.subcacheDataSize) e.id)
      ((sub.dataPos + q.total + e.id.length) % h.subcacheDataSize) e.data =
      Cyclic.write h.subcacheDataSize sub.data (sub.dataPos + q.total) e.bytes := by
    rw [cyclicNtocMemcpy_eq hdata _ (Nat.mod_lt _ hs.data) (by omega),
      cyclicNtocMemcpy_eq hdata _ (Nat.mod_lt _ hs.data) (by omega),
      Cyclic.write_congr e.id (Nat.mod_mod _ _), Cyclic.write_congr e.data (Nat.mod_mod _ _),
      Entry.bytes, Cyclic.write_append]
  have htotal : add32 e.id.length e.data.length = e.size := add32_eq (by omega)
  have husedAll : add32 (q.total + e.id.length) e.data.length = q.total + e.size := by
    rw [add32_eq (by omega)]; omega
  have hcountAll : add32 sub.idxUsed 1 = q.length + 1 := by
    rw [hr.idxUsed, add32_eq (by omega)]
  rw [insertEntry]
  simp only [hidOffset, hused, hdataOffset, hnewIdx, hwrite, htotal, husedAll, hcountAll]

/-- The entry goes on the end. -/
theorem insertEntry_rep (hs : h.Sound) {q : Queue} (hr : Rep h sub q) (e : Entry)
    (hid : 4 ≤ e.id.length) (hlive : e.removed = false) (hcount : q.length < h.indexNum)
    (hroom : q.total + e.size ≤ h.subcacheDataSize) :
    Rep h (insertEntry h sub e.data e.id e.expires) (q ++ [e]) := by
  have hidx := hs.indexes_small
  have hpos := hr.dataPos
  have hipos := hr.idxPos
  have hfits : e.bytes.length ≤ h.subcacheDataSize := by rw [Entry.length_bytes]; omega
  have hturn : sub.dataPos + q.total + e.bytes.length ≤ sub.dataPos + h.subcacheDataSize := by
    rw [Entry.length_bytes]; omega
  rw [insertEntry_eq hs hr e hcount hroom]
  refine ⟨hipos, by simp, ?_, hpos, by simp, by simpa using hroom, ?_, ?_⟩
  · rw [List.length_append, List.length_singleton]; omega
  · refine layout_append.2 ⟨?_, ⟨?_, ?_⟩, trivial⟩
    · exact (hr.layout.frame _ le_rfl hturn le_rfl (by omega)).of_eq rfl rfl
    · simp [hlive]
    · have hback := Cyclic.read_write_self sub.data (sub.dataPos + q.total) hfits
      rwa [Entry.length_bytes] at hback
  · intro e' he'
    rcases List.mem_append.1 he' with he' | he'
    · exact hr.long e' he'
    · rwa [List.mem_singleton.1 he']

theorem makeRoom_rep (hs : h.Sound) {q : Queue} (hr : Rep h sub q) (len : ℕ) (now : ℤ) :
    Rep h (makeRoom h sub len now).2 (q.makeRoom h.subcacheDataSize h.indexNum len now) ∧
      h.Alike (makeRoom h sub len now).1 := by
  obtain ⟨hr₁, hh₁⟩ := subcacheExpire_rep hs now hr
  have ha₁ : h.Alike (subcacheExpire h sub now).1 := by
    rw [hh₁]
    exact ⟨rfl, rfl, rfl, rfl, rfl⟩
  rw [makeRoom, Queue.makeRoom]
  generalize subcacheExpire h sub now = expired at hr₁ ha₁ ⊢
  obtain ⟨h₁, sub₁⟩ := expired
  have hs₁ := hs.alike ha₁
  have hr₁ := hr₁.alike ha₁
  have hdata := hs₁.data_small
  have hfree : sub32 h₁.subcacheDataSize sub₁.dataUsed =
      h.subcacheDataSize - Queue.total (q.expire now) := by
    rw [hr₁.dataUsed, sub32_eq hr₁.dataRoom (by omega), ha₁.subcacheDataSize]
  have hcount : sub₁.idxUsed = h₁.indexNum ↔ (q.expire now).length = h.indexNum := by
    rw [hr₁.idxUsed, ha₁.indexNum]
  simp only [hfree, hcount]
  split
  · obtain ⟨hr₂, ha₂⟩ := forceExpire_rep hs₁ len hr₁
    rw [← hr₁.idxUsed, ha₁.subcacheDataSize] at hr₂
    rw [← hr₁.idxUsed] at ha₂
    exact ⟨hr₂.alike ha₁.symm, ha₁.trans ha₂⟩
  · exact ⟨hr₁.alike ha₁.symm, ha₁⟩

/-- **Storing** pushes the entry, unless it is larger than the data area. -/
theorem subcacheStore_rep (hs : h.Sound) {q : Queue} (hr : Rep h sub q) (e : Entry) (now : ℤ)
    (hid : 4 ≤ e.id.length) (hlive : e.removed = false) (hsmall : e.size < 2 ^ 32) :
    if e.size ≤ h.subcacheDataSize then
      ∃ h' sub', subcacheStore h sub e.data e.id e.expires now = some (h', sub') ∧ h.Alike h' ∧
        Rep h' sub' (q.push h.subcacheDataSize h.indexNum now e)
    else subcacheStore h sub e.data e.id e.expires now = none := by
  have htotal : add32 e.id.length e.data.length = e.size := add32_eq hsmall
  rw [subcacheStore]
  simp only [htotal]
  split
  · rename_i hfits
    obtain ⟨hr', ha⟩ := makeRoom_rep hs hr e.size now
    obtain ⟨hroom, hcount⟩ :=
      Queue.makeRoom_room hfits now hs.indexes hr.idxRoom hr.dataRoom
    rw [if_neg (Nat.not_lt.2 hfits)]
    refine ⟨_, _, rfl, ha, insertEntry_rep (hs.alike ha) (hr'.alike ha) e hid hlive ?_ ?_⟩
    · rwa [ha.indexNum]
    · rwa [ha.subcacheDataSize]
  · rename_i hlarge
    rw [if_pos (Nat.not_le.1 hlarge)]

/-! `shmcb_subcache_retrieve` and `shmcb_subcache_remove`. -/

namespace Holds

variable {pos k : ℕ} {e : Entry}

theorem id_data (hh : Holds h sub pos k e) :
    Cyclic.read h.subcacheDataSize sub.data pos e.id.length = e.id ∧
      Cyclic.read h.subcacheDataSize sub.data (pos + e.id.length) e.data.length = e.data := by
  have hbytes := hh.bytes
  rw [Entry.size, Cyclic.read_append, Entry.bytes] at hbytes
  exact List.append_inj hbytes (by simp)

theorem sameId (hs : h.Sound) (hh : Holds h sub pos k e) (hsize : e.size ≤ h.subcacheDataSize)
    (id : Bytes) : Shmcb.sameId h sub id (sub.indexes (k % h.indexNum)) = e.sameId id := by
  rw [Shmcb.sameId, hh.index, Entry.sameId]
  by_cases hlen : e.id.length = id.length
  · have hpos := Nat.mod_lt pos hs.data
    have hcmp : cyclicMemcmp h.subcacheDataSize sub.data (pos % h.subcacheDataSize) id
        e.id.length = .eq ↔ e.id = id := by
      rw [hlen, cyclicMemcmp_eq hs.data_small sub.data hpos (by rw [Entry.size] at hsize; omega),
        Cyclic.read_mod, ← hlen, hh.id_data.1]
    rw [Bool.eq_iff_iff]
    simp only [Bool.and_eq_true, beq_iff_eq, hcmp]
    exact ⟨fun ⟨⟨hr, _⟩, hid⟩ => ⟨hr, hid⟩, fun ⟨hr, hid⟩ => ⟨⟨hr, hlen⟩, hid⟩⟩
  · have hne : e.id ≠ id := fun heq => hlen (congrArg _ heq)
    rw [Bool.eq_iff_iff]
    simp only [Bool.and_eq_true, beq_iff_eq, hlen, hne, and_false, false_and]

end Holds

/-- The loop finds the position of the first entry that passes. -/
theorem scan_eq (hs : h.Sound) {pIdx : Index → Bool} {pEntry : Entry → Bool} {pos k : ℕ}
    {q : Queue} (hl : Layout h sub pos k q)
    (hp : ∀ pos k, ∀ e ∈ q, Holds h sub pos k e → pIdx (sub.indexes (k % h.indexNum)) = pEntry e) :
    scan h sub.indexes pIdx q.length (k % h.indexNum) =
      (q.findIdx? pEntry).map fun j => (k + j) % h.indexNum := by
  induction q generalizing pos k with
  | nil => rfl
  | cons e q ih =>
    have hnext : cyclicIncrement (k % h.indexNum) 1 h.indexNum = (k + 1) % h.indexNum := by
      rw [hs.increment (Nat.mod_lt k hs.indexes), Nat.mod_add_mod]
    have htail := ih hl.2 fun pos k e he => hp pos k e (List.mem_cons_of_mem _ he)
    rw [List.length_cons, scan, hp pos k e List.mem_cons_self hl.1, List.findIdx?_cons, hnext,
      htail]
    by_cases he : pEntry e = true
    · simp [he]
    · simp [he, Option.map_map, Function.comp_def, Nat.add_assoc, Nat.add_comm 1]

theorem Layout.discard {p k j : ℕ} {q : Queue} (hl : Layout h sub p k q) (hj : j < q.length)
    (hlen : q.length ≤ h.indexNum) (hsum : q.total ≤ h.subcacheDataSize) :
    Layout h (sub.discard ((k + j) % h.indexNum)) p k (q.modify j Entry.discard) := by
  induction q generalizing p k j with
  | nil => simp at hj
  | cons e q ih =>
    rw [List.length_cons] at hj hlen
    rw [Queue.total_cons] at hsum
    obtain ⟨hhead, hrest⟩ := hl
    rcases j with _ | j
    · rw [List.modify_zero_cons, Nat.add_zero]
      refine ⟨⟨?_, hhead.bytes⟩, ?_⟩
      · simp only [Subcache.discard, Function.update_self, hhead.index]
        rfl
      · have hturn : (k + h.indexNum) % h.indexNum = k % h.indexNum := Nat.add_mod_right _ _
        have hroom : p + e.size + Queue.total q + ([] : Bytes).length ≤
            p + e.size + h.subcacheDataSize := by
          rw [List.length_nil]; omega
        have hpast : k + 1 + q.length ≤ k + h.indexNum := by omega
        have hframe := hrest.frame { sub.indexes (k % h.indexNum) with removed := true } le_rfl
          hroom hpast (by omega)
        rw [hturn] at hframe
        exact hframe
    · have hstep : k + (j + 1) = k + 1 + j := by omega
      rw [List.modify_succ_cons, hstep]
      refine ⟨⟨?_, hhead.bytes⟩, ih hrest (by omega) (by omega) (by omega)⟩
      rw [← hhead.index]
      exact Function.update_of_ne (Cyclic.mod_ne (by omega) (by omega)) _ _

/-- Marking the index of an entry marks the entry. -/
theorem Rep.discard {q : Queue} (hr : Rep h sub q) {j : ℕ} (hj : j < q.length) :
    Rep h (sub.discard ((sub.idxPos + j) % h.indexNum)) (q.modify j Entry.discard) := by
  refine ⟨hr.idxPos, ?_, ?_, hr.dataPos, ?_, ?_, hr.layout.discard hj hr.idxRoom hr.dataRoom, ?_⟩
  · rw [List.length_modify]
    exact hr.idxUsed
  · rw [List.length_modify]
    exact hr.idxRoom
  · rw [Queue.total_modify]
    exact hr.dataUsed
  · rw [Queue.total_modify]
    exact hr.dataRoom
  · intro e he
    obtain ⟨i, hi, rfl⟩ := List.getElem_of_mem he
    rw [List.length_modify] at hi
    have hlong := hr.long _ (List.getElem_mem hi)
    rw [List.getElem_modify]
    split <;> exact hlong

theorem Rep.size_le {q : Queue} (hr : Rep h sub q) {e : Entry} (he : e ∈ q) :
    e.size ≤ h.subcacheDataSize := by
  have hsum := hr.dataRoom
  obtain ⟨q₁, q₂, rfl⟩ := List.append_of_mem he
  rw [Queue.total_append, Queue.total_cons] at hsum
  omega

/-- The bytes copied out for an entry are its data. -/
theorem Holds.data_out (hs : h.Sound) {pos k : ℕ} {e : Entry} (hh : Holds h sub pos k e)
    (hsize : e.size ≤ h.subcacheDataSize) :
    cyclicCtonMemcpy h.subcacheDataSize sub.data
      (cyclicIncrement (pos % h.subcacheDataSize) e.id.length h.subcacheDataSize)
      (sub32 e.size e.id.length) = e.data := by
  have hpos := Nat.mod_lt pos hs.data
  have hdata := hs.data_small
  rw [Entry.size] at hsize
  have hlen : sub32 e.size e.id.length = e.data.length := by
    rw [Entry.size, sub32_eq (by omega) (by omega), Nat.add_sub_cancel_left]
  have hoff : cyclicIncrement (pos % h.subcacheDataSize) e.id.length h.subcacheDataSize =
      (pos + e.id.length) % h.subcacheDataSize := by
    rw [cyclicIncrement, add32_eq (by omega), Nat.mod_add_mod]
  rw [hlen, hoff, cyclicCtonMemcpy_eq hdata _ (Nat.mod_lt _ hs.data) (by omega), Cyclic.read_mod]
  exact hh.id_data.2

theorem Holds.id_out (hs : h.Sound) {pos k : ℕ} {e : Entry} (hh : Holds h sub pos k e)
    (hsize : e.size ≤ h.subcacheDataSize) :
    cyclicCtonMemcpy h.subcacheDataSize sub.data (pos % h.subcacheDataSize) e.id.length = e.id := by
  rw [Entry.size] at hsize
  rw [cyclicCtonMemcpy_eq hs.data_small _ (Nat.mod_lt _ hs.data) (by omega), Cyclic.read_mod]
  exact hh.id_data.1

theorem scan_rep (hs : h.Sound) {q : Queue} (hr : Rep h sub q) (pIdx : Index → Bool)
    (pEntry : Entry → Bool) (hp : ∀ pos k, ∀ e ∈ q, Holds h sub pos k e →
      pIdx (sub.indexes (k % h.indexNum)) = pEntry e) :
    scan h sub.indexes pIdx sub.idxUsed sub.idxPos =
      (q.findIdx? pEntry).map fun j => (sub.idxPos + j) % h.indexNum := by
  have hscan := scan_eq hs hr.layout hp
  rwa [Nat.mod_eq_of_lt hr.idxPos, ← hr.idxUsed] at hscan

/-- **Removing** marks the entry the queue marks. -/
theorem subcacheRemove_rep (hs : h.Sound) {q : Queue} (hr : Rep h sub q) (id : Bytes) :
    Option.Rel (Rep h) (subcacheRemove h sub id) (q.remove id) := by
  have hscan := scan_rep hs hr (sameId h sub id) (Entry.sameId id) fun pos k e he hh =>
    hh.sameId hs (hr.size_le he) id
  rw [subcacheRemove, hscan, Queue.remove]
  rcases hfind : q.findIdx? (Entry.sameId id) with _ | j
  · exact .none
  · obtain ⟨hj, -⟩ := List.findIdx?_eq_some_iff_getElem.1 hfind
    exact .some (hr.discard hj)

/-- **Retrieving** answers what the queue answers, and marks what the queue marks. -/
theorem subcacheRetrieve_rep (hs : h.Sound) {q : Queue} (hr : Rep h sub q) (id : Bytes)
    (destlen : ℕ) (now : ℤ) :
    (subcacheRetrieve h sub id destlen now).2.2 = (q.retrieve id destlen now).2 ∧
      Rep h (subcacheRetrieve h sub id destlen now).2.1 (q.retrieve id destlen now).1 ∧
      h.Alike (subcacheRetrieve h sub id destlen now).1 := by
  have hscan := scan_rep hs hr
    (fun idx => sameId h sub id idx && decide (sub32 idx.dataUsed idx.idLen ≤ destlen))
    (fun e => e.sameId id && decide (e.data.length ≤ destlen)) fun pos k e he hh => by
      have hsize := hr.size_le he
      have hdata := hs.data_small
      have hlen : sub32 e.size e.id.length = e.data.length := by
        rw [Entry.size] at hsize ⊢
        rw [sub32_eq (by omega) (by omega), Nat.add_sub_cancel_left]
      rw [hh.sameId hs hsize, hh.index, hlen]
  rw [subcacheRetrieve, Queue.retrieve]
  simp only [hscan]
  rcases hfind : q.findIdx? _ with _ | j
  · exact ⟨rfl, hr, .refl h⟩
  · obtain ⟨hj, -⟩ := List.findIdx?_eq_some_iff_getElem.1 hfind
    have hh := hr.entry hj
    have hsize := hr.size_le (List.getElem_mem hj)
    simp only [Option.map_some, List.getElem?_eq_getElem hj, hh.index, hh.data_out hs hsize]
    by_cases hexp : now < q[j].expires
    · simp only [gt_iff_lt, if_pos hexp]
      exact ⟨trivial, hr, .refl h⟩
    · simp only [gt_iff_lt, if_neg hexp]
      exact ⟨trivial, hr.discard hj, ⟨rfl, rfl, rfl, rfl, rfl⟩⟩

/-- **Iterating** hands out the entries of the queue that live, in their order. -/
theorem subcacheIterate_rep (iterator : Bytes → Bytes → Bool) (now : ℤ) (hs : h.Sound)
    {pre q : Queue} (hr : Rep h sub (pre ++ q)) :
    (subcacheIterate iterator now q.length ((sub.idxPos + pre.length) % h.indexNum) h sub).2.2 =
        (q.iterate iterator now).2 ∧
      Rep h (subcacheIterate iterator now q.length
        ((sub.idxPos + pre.length) % h.indexNum) h sub).2.1 (pre ++ (q.iterate iterator now).1) ∧
      h.Alike (subcacheIterate iterator now q.length
        ((sub.idxPos + pre.length) % h.indexNum) h sub).1 := by
  induction q generalizing pre h sub with
  | nil => exact ⟨rfl, hr, .refl h⟩
  | cons e q ih =>
    have hpre : pre.length < (pre ++ e :: q).length := by simp
    have hh := hr.entry hpre
    have hsize := hr.size_le (List.getElem_mem hpre)
    simp only [List.getElem_append_right le_rfl, Nat.sub_self, List.getElem_cons_zero] at hh hsize
    have hcons : ∀ (e' : Entry) (q' : Queue), pre ++ e' :: q' = pre ++ [e'] ++ q' := by simp
    have hnext : cyclicIncrement ((sub.idxPos + pre.length) % h.indexNum) 1 h.indexNum =
        (sub.idxPos + (pre ++ [e]).length) % h.indexNum := by
      rw [hs.increment (Nat.mod_lt _ hs.indexes), Nat.mod_add_mod, List.length_append,
        List.length_singleton, Nat.add_assoc]
    have hlast : (pre ++ [e]).length = (pre ++ [e.discard]).length := by simp
    rw [List.length_cons, subcacheIterate, Queue.iterate]
    simp only [hnext, hh.index, hh.id_out hs hsize, hh.data_out hs hsize, gt_iff_lt]
    by_cases hrem : e.removed = true
    · simp only [if_pos hrem]
      rw [hcons] at hr
      obtain ⟨hseen, hrep, halike⟩ := ih hs hr
      generalize subcacheIterate iterator now q.length _ h sub = after at hseen hrep halike ⊢
      generalize Queue.iterate iterator now q = after' at hseen hrep ⊢
      rw [← hcons] at hrep
      exact ⟨hseen, hrep, halike⟩
    · simp only [if_neg hrem]
      by_cases hexp : now < e.expires
      · simp only [if_pos hexp]
        by_cases hgo : iterator e.id e.data = true
        · simp only [if_pos hgo]
          rw [hcons] at hr
          obtain ⟨hseen, hrep, halike⟩ := ih hs hr
          generalize subcacheIterate iterator now q.length _ h sub = after at hseen hrep halike ⊢
          generalize Queue.iterate iterator now q = after' at hseen hrep ⊢
          rw [← hcons] at hrep
          refine ⟨?_, hrep, halike⟩
          obtain ⟨_, _, _, _⟩ := after
          obtain ⟨_, _, _⟩ := after'
          cases hseen
          rfl
        · simp only [if_neg hgo]
          exact ⟨trivial, hr, .refl h⟩
      · simp only [if_neg hexp]
        have halike₁ : h.Alike { h with statExpiries := h.statExpiries + 1 } :=
          ⟨rfl, rfl, rfl, rfl, rfl⟩
        have hmark := (hr.discard hpre).alike halike₁
        have hmiddle : (pre ++ e :: q).modify pre.length Entry.discard =
            pre ++ [e.discard] ++ q := by
          rw [List.modify_eq_take_cons_drop hpre]
          simp
        rw [hmiddle] at hmark
        obtain ⟨hseen, hrep, halike⟩ := ih (hs.alike halike₁) hmark
        rw [hlast]
        generalize Queue.iterate iterator now q = after' at hseen hrep ⊢
        rw [← hcons] at hrep
        exact ⟨hseen, hrep.alike ⟨rfl, rfl, rfl, rfl, rfl⟩, halike₁.trans halike⟩

end Httpd.Shmcb
