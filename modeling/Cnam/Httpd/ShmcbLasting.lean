/-
  How long an entry of the session cache lasts: until others have filled its subcache.
-/
import Cnam.Httpd.ShmcbRuns

namespace Httpd.Shmcb

/-- The queue still has the entry, the first under its id, with `count` entries of `bytes`
    bytes behind it at most. -/
def Keeps (e : Entry) (bytes count : ℕ) (q : Queue) : Prop :=
  ∃ older newer, q = older ++ e :: newer ∧ (∀ x ∈ older, x.sameId e.id = false) ∧
    Queue.total newer ≤ bytes ∧ newer.length ≤ count

theorem modify_append_left {older : Queue} {j : ℕ} (hj : j < older.length) (q : Queue) :
    (older ++ q).modify j Entry.discard = older.modify j Entry.discard ++ q := by
  induction older generalizing j with
  | nil => simp at hj
  | cons x older ih =>
    rcases j with _ | j
    · rfl
    · rw [List.cons_append, List.modify_succ_cons, List.modify_succ_cons, List.cons_append,
        ih (by simpa using hj)]

variable {e : Entry} {bytes count : ℕ} {q : Queue} {now : ℤ}

namespace Keeps

theorem expire (hk : Keeps e bytes count q) (hlive : e.live now = true) :
    Keeps e bytes count (q.expire now) := by
  obtain ⟨older, newer, rfl, hold, hbytes, hcount⟩ := hk
  induction older with
  | nil =>
    refine ⟨[], newer, ?_, by simp, hbytes, hcount⟩
    simp [Queue.expire, hlive]
  | cons x older ih =>
    rw [Queue.expire, List.cons_append, List.dropWhile_cons]
    split
    · exact ih fun y hy => hold y (List.mem_cons_of_mem _ hy)
    · exact ⟨x :: older, newer, rfl, hold, hbytes, hcount⟩

theorem scroll {size len : ℕ} {older newer : Queue} (hold : ∀ x ∈ older, x.sameId e.id = false)
    (hbytes : Queue.total newer ≤ bytes) (hcount : newer.length ≤ count)
    (hroom : e.size + bytes + len ≤ size) (hne : older ≠ []) :
    Keeps e bytes count (Queue.scroll size len (older ++ e :: newer)) := by
  induction older with
  | nil => exact absurd rfl hne
  | cons x older ih =>
    have hrest : ∀ y ∈ older, y.sameId e.id = false :=
      fun y hy => hold y (List.mem_cons_of_mem _ hy)
    rw [List.cons_append, Queue.scroll]
    split
    · rename_i hshort
      refine ih hrest ?_
      rintro rfl
      rw [List.nil_append, Queue.total_cons] at hshort
      omega
    · exact ⟨older, newer, rfl, hrest, hbytes, hcount⟩

/-- Another entry is pushed, with room for it behind this one. -/
theorem push {size num : ℕ} {e' : Entry} (hk : Keeps e bytes count q) (hlive : e.live now = true)
    (hroom : e.size + bytes + e'.size ≤ size) (hnum : count + 1 < num) :
    Keeps e (bytes + e'.size) (count + 1) (q.push size num now e') := by
  have hback : ∀ {q : Queue}, Keeps e bytes count q →
      Keeps e (bytes + e'.size) (count + 1) (q ++ [e']) := by
    rintro q ⟨older, newer, rfl, hold, hbytes, hcount⟩
    refine ⟨older, newer ++ [e'], by simp, hold, ?_, by simpa using hcount⟩
    rw [Queue.total_append, Queue.total_cons, Queue.total_nil]
    omega
  have hexpire := hk.expire hlive
  rw [Queue.push, Queue.makeRoom]
  split
  · rename_i hshort
    refine hback ?_
    obtain ⟨older, newer, hq, hold, hbytes, hcount⟩ := hexpire
    rw [hq] at hshort ⊢
    refine scroll hold hbytes hcount hroom ?_
    rintro rfl
    rw [List.nil_append, Queue.total_cons, List.length_cons] at hshort
    omega
  · exact hback hexpire

/-- Another entry is marked. -/
theorem modify (hk : Keeps e bytes count q) {j : ℕ} (hj : q[j]? ≠ some e) :
    Keeps e bytes count (q.modify j Entry.discard) := by
  obtain ⟨older, newer, rfl, hold, hbytes, hcount⟩ := hk
  rcases Nat.lt_trichotomy j older.length with hlt | rfl | hgt
  · refine ⟨older.modify j Entry.discard, newer, ?_, ?_, hbytes, hcount⟩
    · exact modify_append_left hlt _
    · intro x hx
      obtain ⟨i, hi, rfl⟩ := List.getElem_of_mem hx
      rw [List.length_modify] at hi
      have hfirst := hold _ (List.getElem_mem hi)
      rw [List.getElem_modify]
      split
      · simp [Entry.sameId]
      · exact hfirst
  · simp at hj
  · obtain ⟨i, rfl⟩ : ∃ i, j = older.length + (i + 1) := ⟨j - older.length - 1, by omega⟩
    refine ⟨older, newer.modify i Entry.discard, ?_, hold, ?_, ?_⟩
    · exact List.modifyTailIdx_add _ (i + 1) older (e :: newer)
    · rwa [Queue.total_modify]
    · rwa [List.length_modify]

theorem remove (hk : Keeps e bytes count q) {id : Bytes} (hid : e.id ≠ id) :
    Keeps e bytes count ((q.remove id).getD q) := by
  rw [Queue.remove]
  rcases hfind : q.findIdx? (Entry.sameId id) with _ | j
  · exact hk
  · obtain ⟨hj, hpass, -⟩ := List.findIdx?_eq_some_iff_getElem.1 hfind
    refine hk.modify ?_
    rw [List.getElem?_eq_getElem hj, ne_eq, Option.some.injEq]
    rintro heq
    rw [heq] at hpass
    simp [Entry.sameId, hid] at hpass

theorem retrieve (hk : Keeps e bytes count q) (hlive : e.live now = true) (id : Bytes)
    (destlen : ℕ) : Keeps e bytes count (q.retrieve id destlen now).1 := by
  rw [Queue.retrieve]
  split
  · exact hk
  · rename_i j hfind
    split
    · exact hk
    · rename_i x hx
      split
      · exact hk
      · rename_i hexp
        refine hk.modify ?_
        rw [hx, ne_eq, Option.some.injEq]
        rintro rfl
        simp [Entry.live, hexp] at hlive

theorem iterate (hk : Keeps e bytes count q) (hlive : e.live now = true)
    (iterator : Bytes → Bytes → Bool) : Keeps e bytes count (q.iterate iterator now).1 := by
  have hsame : ∀ q : Queue, (q.iterate iterator now).1.total = q.total ∧
      (q.iterate iterator now).1.length = q.length := by
    intro q
    induction q with
    | nil => exact ⟨rfl, rfl⟩
    | cons x q ih =>
      rw [Queue.iterate]
      split
      · simp [ih]
      · split
        · split <;> simp [ih]
        · simp [ih]
  obtain ⟨older, newer, rfl, hold, hbytes, hcount⟩ := hk
  simp only [Entry.live, Bool.and_eq_true, Bool.not_eq_true', decide_eq_true_eq] at hlive
  induction older with
  | nil =>
    rw [List.nil_append, Queue.iterate, if_neg (by simp [hlive.1]), if_pos hlive.2]
    split
    · exact ⟨[], _, rfl, by simp, (hsame newer).1.le.trans hbytes, (hsame newer).2.le.trans hcount⟩
    · exact ⟨[], newer, rfl, by simp, hbytes, hcount⟩
  | cons x older ih =>
    have hbefore := ih fun y hy => hold y (List.mem_cons_of_mem _ hy)
    have hx := hold x List.mem_cons_self
    rw [List.cons_append, Queue.iterate]
    generalize Queue.iterate iterator now (older ++ e :: newer) = after at hbefore ⊢
    obtain ⟨q, seen, rv⟩ := after
    obtain ⟨older', newer', rfl, hold', hbytes', hcount'⟩ := hbefore
    have hmarked : x.discard.sameId e.id = false := by simp [Entry.sameId]
    split
    · exact ⟨x :: older', newer', rfl, List.forall_mem_cons.2 ⟨hx, hold'⟩, hbytes', hcount'⟩
    · split
      · split
        · exact ⟨x :: older', newer', rfl, List.forall_mem_cons.2 ⟨hx, hold'⟩, hbytes', hcount'⟩
        · exact ⟨x :: older, newer, rfl, hold, hbytes, hcount⟩
      · exact ⟨x.discard :: older', newer', rfl, List.forall_mem_cons.2 ⟨hmarked, hold'⟩, hbytes',
          hcount'⟩

/-- As long as it is kept, it is found. -/
theorem found (hk : Keeps e bytes count q) (hlive : e.live now = true) {destlen : ℕ}
    (hdest : e.data.length ≤ destlen) : (q.retrieve e.id destlen now).2 = some e.data := by
  obtain ⟨older, newer, rfl, hold, -, -⟩ := hk
  simp only [Entry.live, Bool.and_eq_true, Bool.not_eq_true', decide_eq_true_eq] at hlive
  have hfind : (older ++ e :: newer).findIdx?
      (fun x => x.sameId e.id && decide (x.data.length ≤ destlen)) = some older.length := by
    have hnone : older.findIdx? (fun x => x.sameId e.id && decide (x.data.length ≤ destlen)) =
        none := by
      rw [List.findIdx?_eq_none_iff]
      intro x hx
      rw [hold x hx, Bool.false_and]
    rw [List.findIdx?_append, hnone, List.findIdx?_cons]
    simp [Entry.sameId, hlive.1, hdest]
  rw [Queue.retrieve, hfind]
  simp [hlive.2]

end Keeps

/-- The call stores or removes under the id. -/
def Call.Touches (id : Bytes) (call : Call) : Prop :=
  match call.request with
  | .store id' _ _ => id' = id
  | .remove id' => id' = id
  | _ => False

/-- The bytes a call puts into a subcache. -/
def Call.load (h : Header) (num : ℕ) (call : Call) : Option ℕ :=
  match call.request with
  | .store id data _ =>
    if 4 ≤ id.length ∧ mask h id = num ∧ id.length + data.length ≤ h.subcacheDataSize
    then some (id.length + data.length) else none
  | _ => none

variable {h : Header} {t : Contents}

namespace Keeps

theorem update {j k : ℕ} (hk : Keeps e bytes count (t k)) {q : Queue}
    (hq : j = k → Keeps e bytes count q) : Keeps e bytes count (Function.update t j q k) := by
  by_cases hjk : j = k
  · subst hjk
    rw [Function.update_self]
    exact hq rfl
  · rwa [Function.update_of_ne (Ne.symm hjk)]

theorem expireAll {k : ℕ} (hk : Keeps e bytes count (t k)) (hlive : e.live now = true)
    (left loop : ℕ) : Keeps e bytes count (t.expireAll now left loop k) := by
  induction left generalizing loop t with
  | zero => exact hk
  | succ left ih =>
    refine ih (hk.update ?_) (loop + 1)
    rintro rfl
    exact hk.expire hlive

theorem iterateAll {k : ℕ} (hk : Keeps e bytes count (t k)) (hlive : e.live now = true)
    (iterator : Bytes → Bytes → Bool) (left loop : ℕ) :
    Keeps e bytes count ((t.iterateAll iterator now left loop).1 k) := by
  induction left generalizing loop t with
  | zero => exact hk
  | succ left ih =>
    have hupdate : Keeps e bytes count
        (Function.update t loop ((t loop).iterate iterator now).1 k) := by
      refine hk.update ?_
      rintro rfl
      exact hk.iterate hlive iterator
    rw [Contents.iterateAll]
    generalize Queue.iterate iterator now (t loop) = after at hupdate ⊢
    obtain ⟨q, seen, rv⟩ := after
    rcases rv with _ | _
    · exact hupdate
    · exact ih hupdate (loop + 1)

/-- What one call, which does not touch the id, leaves of the room. -/
theorem next {call : Call} (hk : Keeps e bytes count (t (mask h e.id)))
    (hquiet : ¬ call.Touches e.id) (hlive : e.live call.now = true)
    (hroom : e.size + bytes + (call.load h (mask h e.id)).toList.sum ≤ h.subcacheDataSize)
    (hnum : count + (call.load h (mask h e.id)).toList.length < h.indexNum) :
    Keeps e (bytes + (call.load h (mask h e.id)).toList.sum)
      (count + (call.load h (mask h e.id)).toList.length) (t.next h call (mask h e.id)) := by
  obtain ⟨request, now⟩ := call
  cases request with
  | store id data expiry =>
    have hid : e.id ≠ id := fun heq => hquiet heq.symm
    simp only [Contents.next, Contents.serve, Contents.store, Call.load] at hroom hnum ⊢
    by_cases hlen : id.length < 4
    · simpa [hlen, Nat.not_le.2 hlen] using hk
    · by_cases hmask : mask h id = mask h e.id
      · have hremove := hk.remove hid
        by_cases hsize : id.length + data.length ≤ h.subcacheDataSize
        · have hload : 4 ≤ id.length ∧ mask h id = mask h e.id ∧
              id.length + data.length ≤ h.subcacheDataSize := ⟨by omega, hmask, hsize⟩
          have hentry : Entry.size ⟨id, data, expiry, false⟩ ≤ h.subcacheDataSize := hsize
          simp only [if_pos hload, Option.toList_some, List.sum_singleton, List.length_singleton]
            at hroom hnum ⊢
          simp only [if_neg hlen, if_pos hentry, hmask, Function.update_self]
          exact hremove.push hlive hroom hnum
        · have hload : ¬ (4 ≤ id.length ∧ mask h id = mask h e.id ∧
              id.length + data.length ≤ h.subcacheDataSize) := fun hall => hsize hall.2.2
          have hentry : ¬ Entry.size ⟨id, data, expiry, false⟩ ≤ h.subcacheDataSize := hsize
          simp only [if_neg hload, if_neg hlen, if_neg hentry]
          rw [hmask, Function.update_self]
          exact hremove
      · have hload : ¬ (4 ≤ id.length ∧ mask h id = mask h e.id ∧
            id.length + data.length ≤ h.subcacheDataSize) := fun hall => hmask hall.2.1
        simp only [if_neg hload, if_neg hlen]
        split
        · exact hk.update fun heq => absurd heq hmask
        · exact hk.update fun heq => absurd heq hmask
  | retrieve id destlen =>
    refine hk.update ?_
    intro heq
    rw [heq]
    exact hk.retrieve hlive id destlen
  | remove id =>
    have hid : e.id ≠ id := fun heq => hquiet heq.symm
    simp only [Contents.next, Contents.serve, Contents.remove, Call.load]
    split
    · exact hk
    · rcases hremove : (t (mask h id)).remove id with _ | q
      · exact hk
      · refine hk.update ?_
        intro heq
        have hkeep := hk.remove hid
        rwa [← heq, hremove] at hkeep
  | status => exact hk.expireAll hlive _ _
  | iterate iterator => exact hk.iterateAll hlive iterator _ _

/-- **A run** of such calls. -/
theorem run : ∀ (later : List Call) {t : Contents} {bytes count : ℕ},
    Keeps e bytes count (t (mask h e.id)) → (∀ call ∈ later, ¬ call.Touches e.id) →
    (∀ call ∈ later, e.live call.now = true) →
    e.size + bytes + (later.filterMap (Call.load h (mask h e.id))).sum ≤ h.subcacheDataSize →
    count + (later.filterMap (Call.load h (mask h e.id))).length < h.indexNum →
    ∃ bytes' count', Keeps e bytes' count' (Machine.run (Contents.next h) t later (mask h e.id))
  | [], _, bytes, count, hk, _, _, _, _ => ⟨bytes, count, hk⟩
  | call :: later, t, bytes, count, hk, hquiet, hlive, hroom, hnum => by
    have hsplit : (call :: later).filterMap (Call.load h (mask h e.id)) =
        (call.load h (mask h e.id)).toList ++ later.filterMap (Call.load h (mask h e.id)) := by
      rw [List.filterMap_cons]
      rcases call.load h (mask h e.id) with _ | len <;> rfl
    rw [hsplit, List.sum_append] at hroom
    rw [hsplit, List.length_append] at hnum
    have hnext := hk.next (hquiet call List.mem_cons_self) (hlive call List.mem_cons_self)
      (by omega) (by omega)
    exact run later hnext (fun c hc => hquiet c (List.mem_cons_of_mem _ hc))
      (fun c hc => hlive c (List.mem_cons_of_mem _ hc)) (by omega) (by omega)

end Keeps

/-- **An entry lasts** until its subcache is full of later ones: after any run, a stored object
    is found again as long as no call stored or removed under its id, it has not expired, and
    what was stored into its subcache meanwhile fits behind it. -/
theorem found_again (hs : h.Sound) (indexes : ℕ → ℕ → Index) (bytes : ℕ → ℕ → UInt8)
    (before later : List Call) (id data : Bytes) (expiry stored now : ℤ) (destlen : ℕ)
    (hfits : ∀ call ∈ before ++ ⟨.store id data expiry, stored⟩ :: later, call.Fits)
    (hid : 4 ≤ id.length) (hdest : data.length ≤ destlen)
    (hquiet : ∀ call ∈ later, ¬ call.Touches id) (hlater : ∀ call ∈ later, call.now < expiry)
    (hnow : now < expiry)
    (hroom : id.length + data.length + (later.filterMap (Call.load h (mask h id))).sum ≤
      h.subcacheDataSize)
    (hnum : (later.filterMap (Call.load h (mask h id))).length < h.indexNum) :
    ((Machine.run Cache.next (.fresh h indexes bytes)
      (before ++ ⟨.store id data expiry, stored⟩ :: later)).serve
        ⟨.retrieve id destlen, now⟩).2 = .dest (some data) := by
  have hrep := CacheRep.run hs indexes bytes _ hfits
  have hall : Call.Fits ⟨.retrieve id destlen, now⟩ := trivial
  rw [(hrep.serve hs hall).1]
  have hagrees := agrees_run h before
  obtain ⟨hforget, hnew⟩ := hagrees.remove id none
  rw [Machine.run_append, Machine.run_cons]
  generalize Machine.run (Contents.next h) (fun _ => []) before = t at hforget hnew ⊢
  have hkeeps : Keeps ⟨id, data, expiry, false⟩ 0 0
      (t.next h ⟨.store id data expiry, stored⟩ (mask h id)) := by
    have hlen : ¬ id.length < 4 := by omega
    have hentry : Entry.size ⟨id, data, expiry, false⟩ ≤ h.subcacheDataSize :=
      (Nat.le_add_right _ _).trans hroom
    have hsuffix := Queue.makeRoom_suffix h.subcacheDataSize h.indexNum
      (Entry.size ⟨id, data, expiry, false⟩) stored
      (((t (mask h id)).remove id).getD (t (mask h id)))
    simp only [Contents.next, Contents.serve, Contents.store, if_neg hlen, if_pos hentry,
      Function.update_self]
    refine ⟨_, [], rfl, fun x hx => ?_, le_rfl, le_rfl⟩
    have hother := hnew (mask h id) x
    rw [Function.update_self, Queue.mem_lives] at hother
    have hin := hsuffix.subset hx
    rcases hrem : x.removed with _ | _
    · simpa [Entry.sameId, hrem] using hother ⟨hin, hrem⟩
    · simp [Entry.sameId, hrem]
  have hend := Keeps.run later hkeeps hquiet (by simpa [Entry.live] using hlater)
    (by simpa [Entry.size] using hroom) (by simpa using hnum)
  obtain ⟨b, n, hk⟩ := hend
  have hlive : Entry.live now ⟨id, data, expiry, false⟩ = true := by simpa [Entry.live] using hnow
  have hfound := hk.found hlive hdest
  exact congrArg Reply.dest hfound

/-- An object of seven bytes lasts over one of eight. -/
theorem found_again_later :
    ((Machine.run Cache.next
      (.fresh smallHeader (fun _ _ => ⟨0, 0, 0, 0, false⟩) fun _ _ => 0)
      (replacing ++ ⟨.store [1, 1, 1, 1] [2, 2, 2] 90, 30⟩ ::
        [⟨.store [3, 3, 3, 3] [4, 4, 4, 4] 50, 40⟩])).serve
      ⟨.retrieve [1, 1, 1, 1] 3, 60⟩).2 = .dest (some [2, 2, 2]) :=
  found_again smallHeader_sound _ _ replacing [⟨.store [3, 3, 3, 3] [4, 4, 4, 4] 50, 40⟩]
    [1, 1, 1, 1] [2, 2, 2] 90 30 60 3 (by simp [replacing, Call.Fits]) (by simp) (by simp)
    (by simp [Call.Touches]) (by simp) (by omega) (by simp [Call.load, mask, smallHeader])
    (by simp [Call.load, mask, smallHeader])

end Httpd.Shmcb
