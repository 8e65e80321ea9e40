/-
  The last ID of a store (`TicketDAO::getLastID`).

  `getLastID` counts the lines of the file.  That is the greatest ID when an ID was given that is
  the number of lines, or when the last ticket is a new one of one line and not the first
  (`getLastID_iff`).
-/
import Cnam.Yahd.AppService

namespace Yahd

open Php TicketDAO

/-- The ID of the ticket is `n`, as an integer or in decimal notation. -/
def Ticket.HasID (t : Ticket) (n : ℕ) : Prop := t.ticketID.toStr = ofInt n

instance (t : Ticket) (n : ℕ) : Decidable (t.HasID n) := inferInstanceAs (Decidable (_ = _))

/-- One `save` in the file at `path`, through an instance of its own. -/
def Desk.save (path : Str) (s : Desk) (t : Ticket) : Desk :=
  let (fs, ticket, _) := TicketDAO.save .ok s.fs (TicketDAO.new s.fs path) t
  ⟨fs, s.saved ++ [ticket]⟩

/-- `id` is the greatest ID of the tickets. -/
def IsLastID (saved : List Ticket) (id : Int) : Prop :=
  (∃ t ∈ saved, t.ticketID.toStr = ofInt id) ∧ ∀ t ∈ saved, ∀ n : ℕ, t.HasID n → (n : Int) ≤ id

/-- The line feeds in the texts of a ticket. -/
def Ticket.lineFeeds (t : Ticket) : ℕ := (t.texts.map fun s => s.count '\n').sum

/-- The lines that tickets take in the store. -/
def lines (ts : List Ticket) : ℕ := (ts.map fun t => t.lineFeeds + 1).sum

/-- The last ticket is new, in one line, and not the first. -/
def EndsNew (ts : List Ticket) : Prop :=
  ∃ before t, ts = before ++ [t] ∧ before ≠ [] ∧ t.IsNew ∧ t.lineFeeds = 0

theorem lines_snoc (ts : List Ticket) (t : Ticket) :
    lines (ts ++ [t]) = lines ts + (t.lineFeeds + 1) := by
  simp [lines]

theorem HasID.unique {t : Ticket} {m n : ℕ} (hm : t.HasID m) (hn : t.HasID n) : m = n :=
  toDigits_injective (hm.symm.trans hn)

/-- A ticket with an ID is not new. -/
theorem HasID.not_isNew {t : Ticket} {n : ℕ} (h : t.HasID n) : ¬t.IsNew := by
  have hid : t.ticketID.toStr = Nat.toDigits 10 n := h
  unfold Ticket.IsNew
  cases hv : t.ticketID with
  | null =>
    rw [hv] at hid
    exact absurd hid.symm Nat.toDigits_ne_nil
  | int m =>
    rw [looseEq_int, decide_eq_true_iff]
    rintro rfl
    rw [hv] at hid
    have hminus : '-' ∈ Nat.toDigits 10 n := by
      rw [← hid]
      decide
    have hdigit := Nat.isDigit_of_mem_toDigits (by decide) (by decide) hminus
    exact absurd hdigit (by decide)
  | str s =>
    rw [hv] at hid
    have hs : s = ofInt n := hid
    rw [hs, looseEq_ofInt_neg_one]
    exact Bool.false_ne_true

/-! ## One `save` -/

theorem count_implode {sep c : Char} (hc : c ≠ sep) (pieces : List Str) :
    (implode sep pieces).count c = (pieces.map fun p => p.count c).sum := by
  induction pieces with
  | nil => simp [implode, List.intercalate]
  | cons a ps ih =>
    cases ps with
    | nil => simp
    | cons b ps =>
      rw [implode_cons_cons, List.count_append, List.count_cons, ih]
      simp [Ne.symm hc]

/-- The lines of a record. -/
theorem count_record {t : Ticket} {n : ℕ} (h : t.HasID n) :
    (record t).count '\n' = t.lineFeeds := by
  have hid : (t.ticketID.toStr).count '\n' = 0 := by
    rw [h]
    exact List.count_eq_zero.2 (ofInt_fits n).2
  rw [record_eq_implode, count_implode (by decide)]
  show ((t.ticketID.toStr :: t.texts).map fun s => s.count '\n').sum = _
  rw [List.map_cons, List.sum_cons, hid, zero_add]
  rfl

/-- What a file and the saved tickets are after the tickets `ts` have been saved in a file that did
    not exist. -/
structure Saved (path : Str) (ts : List Ticket) (s : Desk) : Prop where
  absent : ts = [] → s.fs path = none
  file : ts ≠ [] → ∃ ls : List Line, s.fs path = some (contents ls) ∧ ls.length = lines ts
  /-- An ID was given, or is that of a new ticket: at most the number of lines, and equal to it
      only at the end. -/
  ids : ∀ t ∈ s.saved, ∃ n : ℕ, t.HasID n ∧
    ((∃ t' ∈ ts, t'.HasID n) ∨ n ≤ lines ts ∧ (n = lines ts → EndsNew ts))
  given : ∀ t' ∈ ts, ∀ n : ℕ, t'.HasID n → ∃ t ∈ s.saved, t.HasID n
  last : EndsNew ts → ∃ t ∈ s.saved, t.HasID (lines ts)

namespace Saved
variable {path : Str} {ts : List Ticket} {s : Desk}

theorem start {fs : FileSystem} (h : fs path = none) : Saved path [] ⟨fs, []⟩ where
  absent _ := h
  file hne := absurd rfl hne
  ids _ ht := absurd ht List.not_mem_nil
  given _ ht := absurd ht List.not_mem_nil
  last := by
    rintro ⟨before, t, hnil, -⟩
    exact absurd hnil.symm (by simp)

/-- The ID that a new ticket gets. -/
theorem nextTicketID (h : Saved path ts s) :
    (TicketDAO.new s.fs path).nextTicketID = if ts = [] then 0 else (lines ts + 1 : ℕ) := by
  show getNumberOfLines s.fs path + 1 = _
  split
  · rename_i hts
    rw [getNumberOfLines_none (h.absent hts)]
    rfl
  · rename_i hts
    rcases h.file hts with ⟨ls, hfile, hlen⟩
    rw [getNumberOfLines_lines hfile, hlen]
    rfl

theorem getLastID (h : Saved path ts s) (hts : ts ≠ []) :
    TicketDAO.getLastID s.fs path = (lines ts : ℕ) := by
  rcases h.file hts with ⟨ls, hfile, hlen⟩
  exact (getNumberOfLines_lines hfile).trans (congrArg Nat.cast hlen)

/-- The ticket as it is saved, with an ID. -/
theorem hasID_initTicketID (h : Saved path ts s) {t : Ticket} (ht : t.IsNew ∨ ∃ n, t.HasID n) :
    ∃ n, (initTicketID (TicketDAO.new s.fs path) t).HasID n ∧
      (t.HasID n ∨ t.IsNew ∧ n = if ts = [] then 0 else lines ts + 1) := by
  rcases ht with hnew | ⟨n, hn⟩
  · refine ⟨_, ?_, Or.inr ⟨hnew, rfl⟩⟩
    rw [initTicketID_new _ hnew, h.nextTicketID]
    show (Val.int _).toStr = _
    split <;> rfl
  · refine ⟨n, ?_, Or.inl hn⟩
    have hnot : looseEq t.ticketID (.int (-1)) = false :=
      Bool.eq_false_iff.2 (HasID.not_isNew hn)
    unfold initTicketID
    rw [hnot]
    exact hn

/-- The file is made of the lines of the tickets. -/
theorem contents_file (h : Saved path ts s) :
    ∃ ls : List Line, (s.fs path).getD [] = contents ls ∧ ls.length = lines ts := by
  rcases eq_or_ne ts [] with rfl | hts
  · exact ⟨[], by rw [h.absent rfl]; rfl, rfl⟩
  · rcases h.file hts with ⟨ls, hfile, hlen⟩
    exact ⟨ls, by rw [hfile]; rfl, hlen⟩

theorem file_save (h : Saved path ts s) {t : Ticket} {n : ℕ}
    (hn : (initTicketID (TicketDAO.new s.fs path) t).HasID n) :
    ∃ ls : List Line, (s.save path t).fs path = some (contents ls) ∧
      ls.length = lines (ts ++ [t]) := by
  have hfeeds : (initTicketID (TicketDAO.new s.fs path) t).lineFeeds = t.lineFeeds := by
    rw [Ticket.lineFeeds, initTicketID_texts]
    rfl
  rcases h.contents_file with ⟨ls, hls, hlen⟩
  rcases exists_lines (terminated_record (initTicketID (TicketDAO.new s.fs path) t))
    with ⟨ms, hms⟩
  refine ⟨ls ++ ms, ?_, ?_⟩
  · rw [contents_append, ← hls, ← hms]
    exact save_ok_file s.fs (TicketDAO.new s.fs path) t
  · rw [List.length_append, hlen, lines_snoc, ← count_contents ms, ← hms, List.count_append,
      count_record hn, hfeeds]
    rfl

/-- **One `save`.** -/
theorem save (h : Saved path ts s) {t : Ticket} (ht : t.IsNew ∨ ∃ n, t.HasID n) :
    Saved path (ts ++ [t]) (s.save path t) := by
  rcases h.hasID_initTicketID ht with ⟨n, hn, hcase⟩
  have hlines := lines_snoc ts t
  have hsaved : (s.save path t).saved = s.saved ++ [initTicketID (TicketDAO.new s.fs path) t] :=
    congrArg (s.saved ++ [·]) (save_ok_ticket s.fs (TicketDAO.new s.fs path) t)
  constructor
  · exact fun hnil => absurd hnil (by simp)
  · exact fun _ => h.file_save hn
  · intro t' ht'
    rw [hsaved, List.mem_append, List.mem_singleton] at ht'
    rcases ht' with ht' | rfl
    · rcases h.ids t' ht' with ⟨m, hm, ⟨t₀, ht₀, hm₀⟩ | ⟨hle, -⟩⟩
      · exact ⟨m, hm, Or.inl ⟨t₀, List.mem_append_left _ ht₀, hm₀⟩⟩
      · refine ⟨m, hm, Or.inr ⟨by omega, fun heq => ?_⟩⟩
        omega
    · rcases hcase with hgiven | ⟨hnew, hnext⟩
      · exact ⟨n, hn, Or.inl ⟨t, by simp, hgiven⟩⟩
      · refine ⟨n, hn, Or.inr ?_⟩
        split at hnext
        · exact ⟨by omega, fun heq => by omega⟩
        · rename_i hts
          refine ⟨by omega, fun heq => ⟨ts, t, rfl, hts, hnew, by omega⟩⟩
  · intro t' ht' m hm
    rw [hsaved]
    rcases List.mem_append.1 ht' with ht' | ht'
    · rcases h.given t' ht' m hm with ⟨t₀, ht₀, hm₀⟩
      exact ⟨t₀, List.mem_append_left _ ht₀, hm₀⟩
    · rw [List.mem_singleton.1 ht'] at hm
      rcases hcase with hgiven | ⟨hnew, -⟩
      · rw [HasID.unique hm hgiven]
        exact ⟨_, by simp, hn⟩
      · exact absurd hnew (HasID.not_isNew hm)
  · rintro ⟨before, t', heq, hne, hnew, hzero⟩
    rcases List.append_inj' heq rfl with ⟨rfl, htt'⟩
    rw [List.singleton_inj] at htt'
    subst htt'
    rcases hcase with hgiven | ⟨-, hnext⟩
    · exact absurd hnew (HasID.not_isNew hgiven)
    · rw [if_neg hne] at hnext
      refine ⟨initTicketID (TicketDAO.new s.fs path) t, by rw [hsaved]; simp, ?_⟩
      rwa [hlines, hzero, zero_add, ← hnext]

/-- What a run of `save` calls reaches. -/
theorem run {fs : FileSystem} (hfs : fs path = none) (ts : List Ticket)
    (hids : ∀ t ∈ ts, t.IsNew ∨ ∃ n, t.HasID n) :
    Saved path ts (Machine.run (Desk.save path) ⟨fs, []⟩ ts) :=
  Machine.run_history (start hfs) (fun _ _ _ hs ht => hs.save ht) ts hids

end Saved

/-- **When the last ID is the greatest one**, and the ID that follows is not taken: no ID that was
    given exceeds the number of lines, and one equals it or the last ticket is a new one. -/
theorem getLastID_iff {fs : FileSystem} {path : Str} (hfs : fs path = none) {ts : List Ticket}
    (hts : ts ≠ []) (hids : ∀ t ∈ ts, t.IsNew ∨ ∃ n, t.HasID n) :
    (IsLastID (Machine.run (Desk.save path) ⟨fs, []⟩ ts).saved
        (TicketDAO.getLastID (Machine.run (Desk.save path) ⟨fs, []⟩ ts).fs path) ∧
      ∀ t ∈ (Machine.run (Desk.save path) ⟨fs, []⟩ ts).saved, t.ticketID.toStr ≠
        ofInt (TicketDAO.new (Machine.run (Desk.save path) ⟨fs, []⟩ ts).fs path).nextTicketID) ↔
    (∀ t ∈ ts, ∀ n : ℕ, t.HasID n → n ≤ lines ts) ∧
      ((∃ t ∈ ts, t.HasID (lines ts)) ∨ EndsNew ts) := by
  have h := Saved.run hfs ts hids
  generalize Machine.run (Desk.save path) ⟨fs, []⟩ ts = s at h
  rw [h.getLastID hts, h.nextTicketID, if_neg hts]
  constructor
  · rintro ⟨⟨⟨t, ht, hlast⟩, hle⟩, -⟩
    constructor
    · intro t' ht' n hn
      rcases h.given t' ht' n hn with ⟨t₀, ht₀, hn₀⟩
      exact_mod_cast hle t₀ ht₀ n hn₀
    · rcases h.ids t ht with ⟨n, hn, ⟨t', ht', hn'⟩ | ⟨-, hends⟩⟩
      · rw [HasID.unique hn hlast] at hn'
        exact Or.inl ⟨t', ht', hn'⟩
      · exact Or.inr (hends (HasID.unique hn hlast))
  · rintro ⟨hle, hlast⟩
    have hall : ∀ t ∈ s.saved, ∀ n : ℕ, t.HasID n → n ≤ lines ts := by
      intro t ht n hn
      rcases h.ids t ht with ⟨m, hm, ⟨t', ht', hm'⟩ | ⟨hle', -⟩⟩
      · rw [HasID.unique hn hm]
        exact hle t' ht' m hm'
      · rwa [HasID.unique hn hm]
    refine ⟨⟨?_, fun t ht n hn => by exact_mod_cast hall t ht n hn⟩, fun t ht hnext => ?_⟩
    · rcases hlast with ⟨t', ht', hn'⟩ | hends
      · exact h.given t' ht' _ hn'
      · exact h.last hends
    · have := hall t ht (lines ts + 1) hnext
      omega

/-- After two new tickets of one line each, the last ID is that of the second. -/
theorem getLastID_two :
    IsLastID
      (Machine.run (Desk.save ticketsCsv) ⟨fun _ => none, []⟩
        [sampleTicket.toTicket, sampleTicket.toTicket]).saved
      (TicketDAO.getLastID (Machine.run (Desk.save ticketsCsv) ⟨fun _ => none, []⟩
        [sampleTicket.toTicket, sampleTicket.toTicket]).fs ticketsCsv) := by
  have hnew : ∀ t ∈ [sampleTicket.toTicket, sampleTicket.toTicket], t.IsNew := by decide
  have hnone : ∀ t ∈ [sampleTicket.toTicket, sampleTicket.toTicket], ∀ n : ℕ, t.HasID n →
      n ≤ lines [sampleTicket.toTicket, sampleTicket.toTicket] :=
    fun t ht n hn => absurd (hnew t ht) (HasID.not_isNew hn)
  refine ((getLastID_iff rfl (by simp) fun t ht => Or.inl (hnew t ht)).2 ⟨hnone, Or.inr ?_⟩).1
  exact ⟨[sampleTicket.toTicket], sampleTicket.toTicket, rfl, by simp, sampleTicket.isNew,
    by decide⟩

/-- The first ticket has the ID 0, and the last ID is 1. -/
theorem not_isLastID_first :
    ¬IsLastID
      (Machine.run (Desk.save ticketsCsv) ⟨fun _ => none, []⟩ [sampleTicket.toTicket]).saved
      (TicketDAO.getLastID (Machine.run (Desk.save ticketsCsv) ⟨fun _ => none, []⟩
        [sampleTicket.toTicket]).fs ticketsCsv) := by
  rintro ⟨hlast, -⟩
  revert hlast
  decide +kernel

end Yahd
