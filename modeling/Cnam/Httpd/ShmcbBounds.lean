/-
  What the session cache writes: in every run, nothing outside the data areas, the arrays of
  indexes and the subcaches the header counts.
-/
import Cnam.Httpd.ShmcbRuns

namespace Httpd.Shmcb

variable {h : Header} {sub sub' sub'' : Subcache} {c : Cache} {t : Contents}

/-- Past the areas of a subcache, everything is as it was. -/
structure Inside (h : Header) (sub sub' : Subcache) : Prop where
  data : ∀ i, h.subcacheDataSize ≤ i → sub'.data i = sub.data i
  indexes : ∀ i, h.indexNum ≤ i → sub'.indexes i = sub.indexes i

namespace Inside

theorem refl (h : Header) (sub : Subcache) : Inside h sub sub := ⟨fun _ _ => rfl, fun _ _ => rfl⟩

theorem trans (h₁ : Inside h sub sub') (h₂ : Inside h sub' sub'') : Inside h sub sub'' :=
  ⟨fun i hi => (h₂.data i hi).trans (h₁.data i hi),
    fun i hi => (h₂.indexes i hi).trans (h₁.indexes i hi)⟩

/-- The areas themselves are untouched. -/
theorem of_eq (hd : sub'.data = sub.data) (hi : sub'.indexes = sub.indexes) : Inside h sub sub' :=
  ⟨fun i _ => congrFun hd i, fun i _ => congrFun hi i⟩

theorem alike {h' : Header} (hin : Inside h sub sub') (ha : h.Alike h') : Inside h' sub sub' :=
  ⟨ha.subcacheDataSize ▸ hin.data, ha.indexNum ▸ hin.indexes⟩

theorem discard {pos : ℕ} (hpos : pos < h.indexNum) : Inside h sub (sub.discard pos) :=
  ⟨fun _ _ => rfl, fun _ hi => Function.update_of_ne (by omega) _ _⟩

theorem subcacheExpire (header : Header) (now : ℤ) :
    Inside h sub (Shmcb.subcacheExpire header sub now).2 := by
  rw [Shmcb.subcacheExpire]
  generalize expireLoop header sub now sub.idxUsed 0 0 sub.idxPos = after
  obtain ⟨loop, expired, newIdxPos⟩ := after
  simp only
  split
  · exact refl h sub
  · split
    · exact of_eq rfl rfl
    · exact of_eq rfl rfl

theorem forceExpire (len used : ℕ) (header : Header) :
    Inside h sub (Shmcb.forceExpire len used header sub).2 := by
  induction used generalizing header sub with
  | zero => exact refl h sub
  | succ used ih =>
    rw [Shmcb.forceExpire]
    simp only
    split
    · exact of_eq rfl rfl
    · split
      · refine trans (of_eq ?_ ?_) (ih _) <;> rfl
      · exact of_eq rfl rfl

theorem makeRoom (header : Header) (len : ℕ) (now : ℤ) :
    Inside h sub (Shmcb.makeRoom header sub len now).2 := by
  have hexpire : Inside h sub (Shmcb.subcacheExpire header sub now).2 :=
    subcacheExpire header now
  rw [Shmcb.makeRoom]
  generalize Shmcb.subcacheExpire header sub now = after at hexpire ⊢
  obtain ⟨header', sub'⟩ := after
  simp only
  split
  · exact hexpire.trans (forceExpire _ _ _)
  · exact hexpire

theorem insertEntry (hs : h.Sound) {q : Queue} (hr : Rep h sub q) (e : Entry)
    (hcount : q.length < h.indexNum) (hroom : q.total + e.size ≤ h.subcacheDataSize) :
    Inside h sub (Shmcb.insertEntry h sub e.data e.id e.expires) := by
  rw [insertEntry_eq hs hr e hcount hroom]
  refine ⟨fun i hi => Cyclic.write_outside hs.data _ _ _ hi, fun i hi => ?_⟩
  have := Nat.mod_lt (sub.idxPos + q.length) hs.indexes
  exact Function.update_of_ne (by omega) _ _

theorem subcacheStore (hs : h.Sound) {q : Queue} (hr : Rep h sub q) (e : Entry) (now : ℤ)
    (hsmall : e.size < 2 ^ 32) {h' : Header}
    (hstore : Shmcb.subcacheStore h sub e.data e.id e.expires now = some (h', sub')) :
    Inside h sub sub' := by
  have htotal : add32 e.id.length e.data.length = e.size := add32_eq hsmall
  rw [Shmcb.subcacheStore] at hstore
  simp only [htotal] at hstore
  split at hstore
  · cases hstore
  · rename_i hfits
    obtain ⟨hr', ha⟩ := makeRoom_rep hs hr e.size now
    obtain ⟨hroom, hcount⟩ :=
      Queue.makeRoom_room (Nat.not_lt.1 hfits) now hs.indexes hr.idxRoom hr.dataRoom
    have hinsert := insertEntry (hs.alike ha) (hr'.alike ha) e
      (hcount.trans_eq ha.indexNum.symm) (hroom.trans_eq ha.subcacheDataSize.symm)
    cases hstore
    exact (makeRoom h e.size now).trans (hinsert.alike ha.symm)

theorem scan (hs : h.Sound) {q : Queue} (hr : Rep h sub q) (p : Index → Bool) {pos : ℕ}
    (hscan : Shmcb.scan h sub.indexes p sub.idxUsed sub.idxPos = some pos) :
    Inside h sub (sub.discard pos) := by
  refine discard ?_
  have hbound : ∀ {left pos' : ℕ}, pos' < h.indexNum →
      Shmcb.scan h sub.indexes p left pos' = some pos → pos < h.indexNum := by
    intro left
    induction left with
    | zero => intro pos' _ hnone; cases hnone
    | succ left ih =>
      intro pos' hpos' hsome
      rw [Shmcb.scan] at hsome
      split at hsome
      · cases hsome
        exact hpos'
      · rw [hs.increment hpos'] at hsome
        exact ih (Nat.mod_lt _ hs.indexes) hsome
  exact hbound hr.idxPos hscan

theorem subcacheRemove (hs : h.Sound) {q : Queue} (hr : Rep h sub q) (id : Bytes) :
    Inside h sub ((Shmcb.subcacheRemove h sub id).getD sub) := by
  rw [Shmcb.subcacheRemove]
  rcases hscan : Shmcb.scan h sub.indexes (sameId h sub id) sub.idxUsed sub.idxPos with _ | pos
  · exact refl h sub
  · exact scan hs hr _ hscan

theorem subcacheRetrieve (hs : h.Sound) {q : Queue} (hr : Rep h sub q) (id : Bytes)
    (destlen : ℕ) (now : ℤ) :
    Inside h sub (Shmcb.subcacheRetrieve h sub id destlen now).2.1 := by
  rw [Shmcb.subcacheRetrieve]
  simp only
  split
  · exact refl h sub
  · rename_i pos hscan
    split
    · exact refl h sub
    · exact scan hs hr _ hscan

theorem subcacheIterate (hs : h.Sound) (iterator : Bytes → Bytes → Bool) (now : ℤ)
    {left pos : ℕ} (hpos : pos < h.indexNum) {header : Header} (ha : h.Alike header) :
    Inside h sub (Shmcb.subcacheIterate iterator now left pos header sub).2.1 := by
  induction left generalizing pos header sub with
  | zero => exact refl h sub
  | succ left ih =>
    have hnext : cyclicIncrement pos 1 header.indexNum < h.indexNum := by
      rw [ha.indexNum, hs.increment hpos]
      exact Nat.mod_lt _ hs.indexes
    rw [Shmcb.subcacheIterate]
    simp only
    split
    · exact ih hnext ha
    · split
      · split
        · exact ih hnext ha
        · exact refl h sub
      · exact (discard hpos).trans (ih hnext (ha.trans ⟨rfl, rfl, rfl, rfl, rfl⟩))

end Inside

/-- The same of the whole segment. -/
structure CacheInside (h : Header) (c c' : Cache) : Prop where
  sub : ∀ k, Inside h (c.subcaches k) (c'.subcaches k)
  others : ∀ k, h.subcacheNum ≤ k → c'.subcaches k = c.subcaches k

namespace CacheInside

variable {c' c'' : Cache}

theorem refl (h : Header) (c : Cache) : CacheInside h c c :=
  ⟨fun _ => .refl h _, fun _ _ => rfl⟩

theorem trans (h₁ : CacheInside h c c') (h₂ : CacheInside h c' c'') : CacheInside h c c'' :=
  ⟨fun k => (h₁.sub k).trans (h₂.sub k), fun k hk => (h₂.others k hk).trans (h₁.others k hk)⟩

theorem set {k : ℕ} (hk : k < h.subcacheNum) (hin : Inside h (c.subcaches k) sub)
    (header : Header) : CacheInside h c (c.set header k sub) := by
  constructor
  · intro j
    by_cases hjk : j = k
    · subst hjk
      simpa [Cache.set] using hin
    · simpa [Cache.set, hjk] using Inside.refl h (c.subcaches j)
  · intro j hj
    exact Function.update_of_ne (by omega) _ _

theorem socacheStatus (now : ℤ) {left loop : ℕ} (hleft : loop + left ≤ h.subcacheNum) :
    CacheInside h c (Shmcb.socacheStatus now left loop c) := by
  induction left generalizing loop c with
  | zero => exact refl h c
  | succ left ih =>
    have hloop : loop < h.subcacheNum := by omega
    have hexpire : Inside h (c.subcaches loop)
        (Shmcb.subcacheExpire c.header (c.subcaches loop) now).2 := .subcacheExpire c.header now
    exact (set hloop hexpire _).trans (ih (by omega))

theorem socacheIterate (hs : h.Sound) (iterator : Bytes → Bytes → Bool) (now : ℤ)
    {left loop : ℕ} (hc : CacheRep h c t) (hleft : loop + left ≤ h.subcacheNum) :
    CacheInside h c (Shmcb.socacheIterate iterator now left loop c).1 := by
  induction left generalizing loop c t with
  | zero => exact refl h c
  | succ left ih =>
    have hloop : loop < h.subcacheNum := by omega
    have hin : Inside h (c.subcaches loop) (Shmcb.subcacheIterate iterator now
        (c.subcaches loop).idxUsed (c.subcaches loop).idxPos c.header (c.subcaches loop)).2.1 :=
      .subcacheIterate hs iterator now (hc.rep loop hloop).idxPos hc.alike
    obtain ⟨-, hset⟩ := hc.iterated hs iterator now hloop
    have hfirst := set hloop hin
    rw [Shmcb.socacheIterate]
    generalize Shmcb.subcacheIterate iterator now _ _ _ _ = after at hset hfirst ⊢
    obtain ⟨h', sub', seen, rv⟩ := after
    rcases rv with _ | _
    · exact hfirst h'
    · have hrange : loop + 1 + left ≤ h.subcacheNum := by omega
      exact (hfirst h').trans (ih hset hrange)

/-- A call writes inside the areas. -/
theorem serve (hs : h.Sound) (hc : CacheRep h c t) {call : Call} (hfits : call.Fits) :
    CacheInside h c (c.next call) := by
  have hs' := hs.alike hc.alike
  have hback := hc.alike.symm
  obtain ⟨request, now⟩ := call
  cases request with
  | store id data expiry =>
    have hmask := mask_lt hs id
    have hremove := (Inside.subcacheRemove hs' (hc.sub hmask) id).alike hback
    have hremoved := hc.removed hs id
    change CacheInside h c (Shmcb.socacheStore c id expiry data now).1
    rw [Shmcb.socacheStore, mask_alike hc.alike id]
    simp only
    split
    · exact refl h c
    · split
      · exact set hmask hremove _
      · rename_i header sub hstore
        have hin := Inside.subcacheStore hs' hremoved ⟨id, data, expiry, false⟩ now hfits hstore
        exact set hmask (hremove.trans (hin.alike hback)) _
  | retrieve id destlen =>
    have hmask := mask_lt hs id
    have hin := (Inside.subcacheRetrieve hs' (hc.sub hmask) id destlen now).alike hback
    change CacheInside h c (Shmcb.socacheRetrieve c id destlen now).1
    rw [Shmcb.socacheRetrieve, mask_alike hc.alike id]
    exact set hmask hin _
  | remove id =>
    have hmask := mask_lt hs id
    have hin := (Inside.subcacheRemove hs' (hc.sub hmask) id).alike hback
    change CacheInside h c (Shmcb.socacheRemove c id).1
    rw [Shmcb.socacheRemove, mask_alike hc.alike id]
    simp only
    split
    · exact refl h c
    · split
      · rename_i sub hsub
        rw [hsub, Option.getD_some] at hin
        exact set hmask hin _
      · exact ⟨fun _ => .refl h _, fun _ _ => rfl⟩
  | status =>
    have hrange : 0 + c.header.subcacheNum ≤ h.subcacheNum := by
      rw [hc.alike.subcacheNum, Nat.zero_add]
    exact socacheStatus now hrange
  | iterate iterator =>
    have hrange : 0 + c.header.subcacheNum ≤ h.subcacheNum := by
      rw [hc.alike.subcacheNum, Nat.zero_add]
    exact socacheIterate hs iterator now hc hrange

end CacheInside

/-- **Nothing else is written**: after any run, what lies past the data areas and the arrays of
    indexes, and past the subcaches, is what the segment held. -/
theorem writes_inside (hs : h.Sound) (indexes : ℕ → ℕ → Index) (data : ℕ → ℕ → UInt8)
    (calls : List Call) (hfits : ∀ call ∈ calls, call.Fits) :
    CacheInside h (.fresh h indexes data)
      (Machine.run Cache.next (.fresh h indexes data) calls) := by
  have hrun : ∃ t, CacheRep h (Machine.run Cache.next (.fresh h indexes data) calls) t ∧
      CacheInside h (.fresh h indexes data)
        (Machine.run Cache.next (.fresh h indexes data) calls) := by
    refine Machine.run_history (C := Call.Fits) (H := fun _ c => ∃ t, CacheRep h c t ∧
      CacheInside h (.fresh h indexes data) c) ⟨_, .fresh hs indexes data, .refl h _⟩ ?_ calls hfits
    rintro _ c call ⟨t, hc, hin⟩ hcall
    exact ⟨_, (hc.serve hs hcall).2, hin.trans (.serve hs hc hcall)⟩
  obtain ⟨t, -, hin⟩ := hrun
  exact hin

theorem writes_inside_replacing :
    CacheInside smallHeader (.fresh smallHeader (fun _ _ => ⟨0, 0, 0, 0, false⟩) fun _ _ => 0)
      (Machine.run Cache.next
        (.fresh smallHeader (fun _ _ => ⟨0, 0, 0, 0, false⟩) fun _ _ => 0) replacing) :=
  writes_inside smallHeader_sound _ _ replacing replacing_fits

end Httpd.Shmcb
