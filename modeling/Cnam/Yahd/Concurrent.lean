/-
  Submissions that overlap. `AppService::saveTicket` counts the lines of the store when it
  builds its `TicketDAO`, and appends the line of the ticket later; between the two, other
  requests may count and append.

  No ticket is lost in any interleaving, and two of them get one ID exactly when none was
  stored between their counts (`interleaved_saves`).
-/
import Cnam.Lib.Interleave
import Cnam.Yahd.AppService

namespace Yahd

open Php TicketDAO AppService

namespace Concurrent

variable {κ : Type} [DecidableEq κ]

/-- The two halves of `saveTicket`. -/
inductive Half where
  /-- `new TicketDAO()` -/
  | construct
  /-- `$ticketDAO->save($ticket)` -/
  | save (ticket : Ticket)

/-- The files and the tickets saved so far, and the instance of a request. -/
def serve (desk : Desk) (dao : Option TicketDAO) : Half → Desk × Option TicketDAO
  | .construct => (desk, some (TicketDAO.new desk.fs))
  | .save ticket => match dao with
    | none => (desk, none)
    | some dao =>
      let (fs, ticket, _) := dao.save .ok desk.fs ticket
      (⟨fs, desk.saved ++ [ticket]⟩, none)

/-- The desks of the visitors, over the shared store. -/
abbrev World (κ : Type) := Interleave.World κ Desk (Option TicketDAO)

/-- The world after halves of requests, in any order. -/
def World.run (fs : FileSystem) (halves : List (κ × Half)) : World κ :=
  Machine.run (Interleave.step serve) ⟨⟨fs, []⟩, fun _ => none⟩ halves

/-! ## When a ticket was counted -/

/-- How many tickets were saved, and for each of them how many had been when its request
    counted. -/
structure Counts where
  saved : ℕ
  stamps : List ℕ

/-- The same halves, of which only the order matters. -/
def count (c : Counts) (stamp : Option ℕ) : Half → Counts × Option ℕ
  | .construct => (c, some c.saved)
  | .save _ => match stamp with
    | none => (c, none)
    | some n => (⟨c.saved + 1, c.stamps ++ [n]⟩, none)

/-- For each saved ticket, how many had been saved when its request counted. -/
def stamps (halves : List (κ × Half)) : List ℕ :=
  (Machine.run (Interleave.step count) ⟨⟨0, []⟩, fun _ => none⟩ halves).shared.stamps

/-- The lines of tickets, as `save` writes them. -/
def text (tickets : List Ticket) : Str := tickets.flatMap fun t => record t ++ ['\n']

/-- The ID that a count gives once `n` of the tickets are in the store. -/
def idAt (fs : FileSystem) (tickets : List Ticket) (n : ℕ) : ℕ :=
  if fs ticketsCsv = none ∧ n = 0 then 0
  else ((fs ticketsCsv).getD []).count '\n' + (text (tickets.take n)).count '\n' + 1

theorem text_append (ts ts' : List Ticket) : text (ts ++ ts') = text ts ++ text ts' :=
  List.flatMap_append

theorem count_text_lt (ts : List Ticket) (t : Ticket) :
    (text ts).count '\n' < (text (ts ++ [t])).count '\n' := by
  rw [text_append, List.count_append]
  have hone : 0 < (text [t]).count '\n' := by
    rw [List.count_pos_iff]
    simp [text]
  omega

/-- The IDs of later counts are greater. -/
theorem idAt_lt {fs : FileSystem} {tickets : List Ticket} {m n : ℕ} (hmn : m < n)
    (hn : n ≤ tickets.length) : idAt fs tickets m < idAt fs tickets n := by
  have hstep : ∀ k, k < tickets.length →
      (text (tickets.take k)).count '\n' < (text (tickets.take (k + 1))).count '\n' := by
    intro k hk
    rw [List.take_succ_eq_append_getElem hk]
    exact count_text_lt _ _
  have hmono : ∀ d, m + d < tickets.length →
      (text (tickets.take m)).count '\n' < (text (tickets.take (m + d + 1))).count '\n' := by
    intro d
    induction d with
    | zero => exact fun hd => hstep m hd
    | succ d ih => exact fun hd => (ih (by omega)).trans (hstep (m + d + 1) (by omega))
  have hlt := hmono (n - m - 1) (by omega)
  rw [show m + (n - m - 1) + 1 = n by omega] at hlt
  rw [idAt, idAt]
  split_ifs <;> omega

theorem idAt_snoc (fs : FileSystem) {tickets : List Ticket} (t : Ticket) {n : ℕ}
    (hn : n ≤ tickets.length) : idAt fs (tickets ++ [t]) n = idAt fs tickets n := by
  rw [idAt, idAt, List.take_append_of_le_length hn]

/-- The store holds the saved tickets after what it held, and the instances and the IDs are
    those of the counts. -/
structure Counted (fs : FileSystem) (w : World κ) (c : Interleave.World κ Counts (Option ℕ)) :
    Prop where
  saved : w.shared.saved.length = c.shared.saved
  file : w.shared.fs ticketsCsv = if fs ticketsCsv = none ∧ w.shared.saved.length = 0 then none
    else some ((fs ticketsCsv).getD [] ++ text w.shared.saved)
  ids : w.shared.saved.map Ticket.ticketID =
    c.shared.stamps.map fun n => .int (idAt fs w.shared.saved n)
  stamps : ∀ n ∈ c.shared.stamps, n ≤ c.shared.saved
  own : ∀ k, w.own k =
    (c.own k).map fun n => ⟨ticketsCsv, idAt fs w.shared.saved n⟩
  ownStamp : ∀ k, ∀ n ∈ c.own k, n ≤ c.shared.saved

namespace Counted

variable {fs : FileSystem} {w : World κ} {c : Interleave.World κ Counts (Option ℕ)}

omit [DecidableEq κ] in
theorem start (fs : FileSystem) :
    Counted fs (⟨⟨fs, []⟩, fun _ => none⟩ : World κ) ⟨⟨0, []⟩, fun _ => none⟩ := by
  refine ⟨rfl, ?_, rfl, by simp, fun _ => rfl, by simp⟩
  rcases hfs : fs ticketsCsv with _ | fd
  · simpa using hfs
  · simpa [text] using hfs

omit [DecidableEq κ] in
theorem store (h : Counted fs w c) :
    (w.shared.fs ticketsCsv).getD [] = (fs ticketsCsv).getD [] ++ text w.shared.saved := by
  have hfile := h.file
  split at hfile
  · rename_i hnone
    rw [hfile, hnone.1, List.length_eq_zero_iff.1 hnone.2]
    rfl
  · rw [hfile]
    rfl

omit [DecidableEq κ] in
/-- What the next instance counts. -/
theorem nextTicketID (h : Counted fs w c) (hfd : Terminated ((fs ticketsCsv).getD [])) :
    TicketDAO.new w.shared.fs = ⟨ticketsCsv, idAt fs w.shared.saved c.shared.saved⟩ := by
  have hcount : getNumberOfLines w.shared.fs ticketsCsv + 1 =
      idAt fs w.shared.saved c.shared.saved := by
    rw [idAt, ← h.saved, List.take_length]
    have hfile := h.file
    split at hfile
    · rename_i hnone
      rw [getNumberOfLines_none hfile, if_pos hnone]
      rfl
    · rename_i hsome
      have hterm : Terminated (text w.shared.saved) := by
        rcases List.eq_nil_or_concat w.shared.saved with hnil | ⟨ts, t, heq⟩
        · rw [hnil]
          exact Or.inl rfl
        · right
          rw [heq, List.concat_eq_append, text_append]
          simp [text]
      obtain ⟨ls, hls⟩ := exists_lines hfd
      obtain ⟨ms, hms⟩ := exists_lines hterm
      rw [hls, hms, ← contents_append] at hfile
      rw [getNumberOfLines_lines hfile, if_neg hsome, hls, hms, count_contents, count_contents,
        List.length_append]
      push_cast
      ring
  exact congrArg (TicketDAO.mk ticketsCsv) hcount

/-- The ticket of an instance that counted when `n` tickets were in the store is appended. -/
theorem save (h : Counted fs w c) {k : κ} {n : ℕ} {t : Ticket}
    (hown : w.own k = some ⟨ticketsCsv, idAt fs w.shared.saved n⟩) (hstamp : c.own k = some n)
    (hnew : t.IsNew) :
    Counted fs (Interleave.step serve w (k, .save t)) (Interleave.step count c (k, .save t)) := by
  have hn : n ≤ w.shared.saved.length := by
    rw [h.saved]
    exact h.ownStamp k n hstamp
  have hticket : initTicketID ⟨ticketsCsv, idAt fs w.shared.saved n⟩ t =
      t.setTicketID (.int (idAt fs w.shared.saved n)) := initTicketID_new _ hnew
  have hfile := save_ok_file w.shared.fs ⟨ticketsCsv, idAt fs w.shared.saved n⟩ t
  rw [hticket, h.store] at hfile
  have hw : Interleave.step serve w (k, .save t) =
      ⟨⟨(TicketDAO.save .ok w.shared.fs ⟨ticketsCsv, idAt fs w.shared.saved n⟩ t).1,
        w.shared.saved ++ [t.setTicketID (.int (idAt fs w.shared.saved n))]⟩,
        Function.update w.own k none⟩ := by
    rw [Interleave.step, hown, ← hticket, ← save_ok_ticket w.shared.fs]
    rfl
  have hc : Interleave.step count c (k, .save t) =
      ⟨⟨c.shared.saved + 1, c.shared.stamps ++ [n]⟩, Function.update c.own k none⟩ := by
    rw [Interleave.step, hstamp]
    rfl
  have hkept : ∀ m ≤ c.shared.saved, idAt fs (w.shared.saved ++
      [t.setTicketID (.int (idAt fs w.shared.saved n))]) m = idAt fs w.shared.saved m := by
    intro m hm
    exact idAt_snoc fs _ (h.saved ▸ hm)
  rw [hw, hc]
  refine ⟨?_, ?_, ?_, ?_, fun j => ?_, fun j => ?_⟩
  · rw [List.length_append, h.saved]
    rfl
  · refine hfile.trans ?_
    rw [if_neg (by simp), text_append, List.append_assoc]
    simp [text]
  · rw [List.map_append, List.map_append, h.ids]
    refine congrArg₂ (· ++ ·) ?_ ?_
    · refine List.map_congr_left fun m hm => ?_
      rw [hkept m (h.stamps m hm)]
    · rw [List.map_singleton, List.map_singleton, hkept n (h.ownStamp k n hstamp)]
      rfl
  · intro m hm
    rcases List.mem_append.1 hm with hm | hm
    · exact Nat.le_succ_of_le (h.stamps m hm)
    · rw [List.mem_singleton.1 hm]
      exact Nat.le_succ_of_le (h.ownStamp k n hstamp)
  · by_cases hj : j = k
    · subst hj
      simp
    · simp only [Function.update_of_ne hj]
      rw [h.own j]
      rcases hstamp' : c.own j with _ | m
      · rfl
      · rw [Option.map_some, Option.map_some, hkept m (h.ownStamp j m hstamp')]
  · intro m hm
    by_cases hj : j = k
    · subst hj
      simp at hm
    · simp only [Function.update_of_ne hj] at hm
      exact Nat.le_succ_of_le (h.ownStamp j m hm)

/-- **Counting** and, later, **appending**. -/
theorem step (h : Counted fs w c) (hfd : Terminated ((fs ticketsCsv).getD [])) {r : κ × Half}
    (hnew : ∀ t, r.2 = .save t → t.IsNew) :
    Counted fs (Interleave.step serve w r) (Interleave.step count c r) := by
  obtain ⟨k, half⟩ := r
  cases half with
  | construct =>
    refine ⟨h.saved, h.file, h.ids, h.stamps, fun j => ?_, fun j => ?_⟩
    · by_cases hj : k = j
      · subst hj
        rw [Interleave.step_own_self, Interleave.step_own_self]
        exact congrArg some (h.nextTicketID hfd)
      · rw [Interleave.step_own_ne _ hj, Interleave.step_own_ne _ hj]
        exact h.own j
    · by_cases hj : k = j
      · subst hj
        rw [Interleave.step_own_self]
        intro n hn
        cases hn
        exact le_rfl
      · rw [Interleave.step_own_ne _ hj]
        exact h.ownStamp j
  | save t =>
    have hown := h.own k
    rcases hstamp : c.own k with _ | n
    · rw [hstamp, Option.map_none] at hown
      have hw : Interleave.step serve w (k, .save t) = w := by
        rw [Interleave.step, hown]
        exact congrArg (Interleave.World.mk w.shared) (hown ▸ Function.update_eq_self k w.own)
      have hc : Interleave.step count c (k, .save t) = c := by
        rw [Interleave.step, hstamp]
        exact congrArg (Interleave.World.mk c.shared) (hstamp ▸ Function.update_eq_self k c.own)
      rwa [hw, hc]
    · rw [hstamp, Option.map_some] at hown
      exact h.save hown hstamp (hnew t rfl)

end Counted

theorem Counted.run (fs : FileSystem) (hfd : Terminated ((fs ticketsCsv).getD []))
    (halves : List (κ × Half)) (hnew : ∀ r ∈ halves, ∀ t, r.2 = .save t → t.IsNew) :
    Counted fs (World.run fs halves)
      (Machine.run (Interleave.step count) ⟨⟨0, []⟩, fun _ => none⟩ halves) := by
  refine Machine.run_history (s := (⟨⟨fs, []⟩, fun _ => none⟩ : World κ))
    (C := fun r : κ × Half => ∀ t, r.2 = .save t → t.IsNew)
    (H := fun halves w => Counted fs w
      (Machine.run (Interleave.step count) ⟨⟨0, []⟩, fun _ => none⟩ halves))
    (.start fs) ?_ halves hnew
  intro halves w r h hr
  rw [Machine.run_snoc]
  exact h.step hfd hr

/-- **Overlapping submissions.** Whatever the order in which requests count the store and
    append to it, every ticket is in the store, in the order of the appends, and two tickets
    get one ID exactly when no ticket was appended between the counts of their requests. -/
theorem interleaved_saves (fs : FileSystem) (hfd : Terminated ((fs ticketsCsv).getD []))
    (halves : List (κ × Half)) (hnew : ∀ r ∈ halves, ∀ t, r.2 = .save t → t.IsNew) :
    ((World.run fs halves).shared.fs ticketsCsv).getD [] =
        (fs ticketsCsv).getD [] ++ text (World.run fs halves).shared.saved ∧
      (World.run fs halves).shared.saved.length = (stamps halves).length ∧
      ∀ (i j : ℕ) (m n : ℕ), (stamps halves)[i]? = some m → (stamps halves)[j]? = some n →
        (((World.run fs halves).shared.saved.map Ticket.ticketID)[i]? =
            ((World.run fs halves).shared.saved.map Ticket.ticketID)[j]? ↔ m = n) := by
  have h := Counted.run fs hfd halves hnew
  have hids : (World.run fs halves).shared.saved.map Ticket.ticketID =
      (stamps halves).map fun n => .int (idAt fs (World.run fs halves).shared.saved n) := h.ids
  have hlen : (World.run fs halves).shared.saved.length = (stamps halves).length := by
    have := congrArg List.length hids
    rwa [List.length_map, List.length_map] at this
  have hle : ∀ n ∈ stamps halves, n ≤ (World.run fs halves).shared.saved.length :=
    fun n hn => h.saved ▸ h.stamps n hn
  refine ⟨h.store, hlen, fun i j m n hi hj => ?_⟩
  rw [hids, List.getElem?_map, List.getElem?_map, hi, hj]
  simp only [Option.map_some, Option.some.injEq, Val.int.injEq, Nat.cast_inj]
  constructor
  · intro heq
    have hm := hle m (List.mem_of_getElem? hi)
    have hn := hle n (List.mem_of_getElem? hj)
    rcases Nat.lt_trichotomy m n with hmn | hmn | hmn
    · exact absurd heq (idAt_lt hmn hn).ne
    · exact hmn
    · exact absurd heq (idAt_lt hmn hm).ne'
  · rintro rfl
    rfl

/-- Two requests that count before either appends. -/
def overlapping : List (Bool × Half) :=
  [(true, .construct), (false, .construct), (true, .save sampleTicket.toTicket),
    (false, .save sampleTicket.toTicket)]

theorem interleaved_saves_overlapping :
    ((World.run (fun _ => none) overlapping).shared.saved.map Ticket.ticketID)[0]? =
      ((World.run (fun _ => none) overlapping).shared.saved.map Ticket.ticketID)[1]? := by
  have hnew : ∀ r ∈ overlapping, ∀ t, r.2 = .save t → t.IsNew := by
    simp only [overlapping, List.forall_mem_cons]
    refine ⟨by simp, by simp, ?_, ?_, by simp⟩ <;>
    · rintro t ⟨⟩
      exact sampleTicket.isNew
  exact ((interleaved_saves (fun _ => none) (Or.inl rfl) overlapping hnew).2.2 0 1 0 0 rfl rfl).2
    rfl

end Concurrent

end Yahd
