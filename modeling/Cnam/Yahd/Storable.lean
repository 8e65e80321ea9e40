/-
  Tickets that fit the store: no column contains the separator or a line feed.

  On such tickets the writer and the reader are inverse to each other but for the last
  column, which comes back with the line feed that ends the line (`ofLine_line`); a file
  of the store is then a list of `Storable` tickets (`Holds`), which `save` extends by one.
-/
import Cnam.Yahd.TicketDAO

namespace Yahd

open Php

/-- A ticket no column of which contains `;` or a line feed. -/
structure Storable extends Ticket where
  fits : ∀ s ∈ toTicket.columns, ';' ∉ s ∧ '\n' ∉ s

/-- The ticket as it comes back from the store: its columns as strings, the last one with
    the line feed of the line. -/
def Ticket.readBack (t : Ticket) : Ticket :=
  ⟨.str t.ticketID.toStr, .str t.applicationName.toStr, .str t.login.toStr,
    .str t.priority.toStr, .str t.type.toStr, .str t.creationDate.toStr, .str t.oneLiner.toStr,
    .str t.detailedDescription.toStr, .str (t.attachmentName.toStr ++ ['\n'])⟩

namespace TicketDAO

/-- The pieces of a record, whatever its columns contain. -/
theorem explode_record (t : Ticket) :
    explode ';' (record t ++ ['\n']) =
      explode ';' t.ticketID.toStr ++ (explode ';' t.applicationName.toStr ++
      (explode ';' t.login.toStr ++ (explode ';' t.priority.toStr ++ (explode ';' t.type.toStr ++
      (explode ';' t.creationDate.toStr ++ (explode ';' t.oneLiner.toStr ++
      (explode ';' t.detailedDescription.toStr ++
      explode ';' (t.attachmentName.toStr ++ ['\n'])))))))) := by
  simp only [← explode_append]
  simp [record]

theorem ofLine_record {t : Ticket} (h : ∀ s ∈ t.columns, ';' ∉ s) :
    ofLine (record t ++ ['\n']) = t.readBack := by
  simp only [Ticket.columns, List.forall_mem_cons, List.not_mem_nil, false_imp_iff,
    implies_true, and_true] at h
  obtain ⟨h0, h1, h2, h3, h4, h5, h6, h7, h8⟩ := h
  have h8' : ';' ∉ t.attachmentName.toStr ++ ['\n'] := by simpa using h8
  unfold ofLine
  rw [explode_record, explode_of_notMem h0, explode_of_notMem h1, explode_of_notMem h2,
    explode_of_notMem h3, explode_of_notMem h4, explode_of_notMem h5, explode_of_notMem h6,
    explode_of_notMem h7, explode_of_notMem h8']
  rfl

theorem record_oneLine {t : Ticket} (h : ∀ s ∈ t.columns, '\n' ∉ s) : '\n' ∉ record t := by
  rw [record_eq_implode, mem_implode (by decide)]
  rintro ⟨s, hs, hn⟩
  exact h s hs hn

end TicketDAO

open TicketDAO

/-- A number fits the store. -/
theorem ofInt_fits (n : Int) : ';' ∉ ofInt n ∧ '\n' ∉ ofInt n :=
  ⟨notMem_ofInt rfl (by decide), notMem_ofInt rfl (by decide)⟩

/-- A ticket whose texts fit does so with any number for an ID. -/
theorem columns_setTicketID {t : Ticket} (h : t.Clean) (n : Int) :
    ∀ s ∈ (t.setTicketID (.int n)).columns, ';' ∉ s ∧ '\n' ∉ s := by
  intro s hs
  rcases List.mem_cons.1 hs with rfl | hs
  · exact ofInt_fits n
  · exact h s hs

/-- A ticket keeps fitting when `save` gives it an ID. -/
theorem columns_initTicketID {dao : TicketDAO} {t : Ticket}
    (h : ∀ s ∈ t.columns, ';' ∉ s ∧ '\n' ∉ s) :
    ∀ s ∈ (initTicketID dao t).columns, ';' ∉ s ∧ '\n' ∉ s := by
  unfold initTicketID
  split
  · exact h
  · exact columns_setTicketID (fun s hs => h s (List.mem_cons_of_mem _ hs)) _

namespace Storable

/-- The line of a ticket in the store. -/
def line (t : Storable) : Line := ⟨record t.toTicket, record_oneLine fun s hs => (t.fits s hs).2⟩

/-- **Reading back a line of the store.** -/
theorem ofLine_line (t : Storable) : ofLine t.line.bytes = t.readBack :=
  ofLine_record fun s hs => (t.fits s hs).1

end Storable

/-- A ticket that has no ID yet and whose texts fit. -/
structure NewTicket extends Ticket where
  isNew : toTicket.IsNew
  clean : toTicket.Clean

/-- A ticket as the edit page makes one. -/
def sampleTicket : NewTicket where
  toTicket := Ticket.new (.str "Paye".toList) (.str "unittest".toList) (.str "3".toList)
    (.str "anomalie".toList) (.str "06/02/2008".toList) (.str "oneLiner 1".toList)
    (.str "detailed description 1".toList)
  isNew := by decide
  clean := by decide

/-- A new ticket once `save` has given it the ID `n`. -/
def NewTicket.withID (t : NewTicket) (n : Int) : Storable where
  toTicket := t.setTicketID (.int n)
  fits := columns_setTicketID t.clean n

/-- The ID given to a new ticket when `n` tickets are stored: the count of lines plus one,
    but zero for the first ticket of a file that does not exist. -/
def idAfter (absent : Bool) (n : ℕ) : ℕ := if absent ∧ n = 0 then 0 else n + 1

theorem idAfter_injective (absent : Bool) : Function.Injective (idAfter absent) := by
  intro m n h
  unfold idAfter at h
  split_ifs at h with hm hn hn
  · rw [hm.2, hn.2]
  all_goals omega

theorem idAfter_mono (absent : Bool) {m n : ℕ} (h : m ≤ n) : idAfter absent m ≤ idAfter absent n := by
  unfold idAfter
  split_ifs with hm hn hn
  · exact le_rfl
  · exact Nat.zero_le _
  · exact absurd ⟨hn.1, by omega⟩ hm
  · omega

/-- The file at `path` holds the tickets `ts`, one line each; a missing file holds none. -/
def Holds (fs : FileSystem) (path : Str) (ts : List Storable) : Prop :=
  (fs path).getD [] = contents (ts.map Storable.line)

namespace Holds
variable {fs : FileSystem} {path : Str} {ts : List Storable}

theorem of_empty (h : fs path = none ∨ fs path = some []) : Holds fs path [] := by
  rcases h with h | h <;> simp [Holds, h]

theorem findAll (h : Holds fs path ts) {dao : TicketDAO} (hd : dao.filePath = path) :
    findAll fs dao = ts.map fun t => t.readBack := by
  subst hd
  rw [findAll_lines h, List.map_map]
  exact List.map_congr_left fun t _ => t.ofLine_line

theorem findById (h : Holds fs path ts) {dao : TicketDAO} (hd : dao.filePath = path) (id : Val) :
    findById fs dao id =
      (ts.find? fun t => looseEq (.str t.ticketID.toStr) id).map fun t => t.readBack := by
  subst hd
  have hcol : ∀ t : Storable, column (explode ';' t.line.bytes) 0 = .str t.ticketID.toStr :=
    fun t => by rw [← ofLine_ticketID, t.ofLine_line]; rfl
  rw [findById_lines h, List.find?_map, Option.map_map]
  simp only [Function.comp_def, hcol, Storable.ofLine_line]

/-- The number that `getNumberOfLines` returns, which is that of the tickets unless there
    is no file. -/
theorem getNumberOfLines (h : Holds fs path ts) :
    getNumberOfLines fs path = if fs path = none then -1 else (ts.length : Int) := by
  split_ifs with hn
  · exact getNumberOfLines_none hn
  · obtain ⟨fd, hfd⟩ := Option.ne_none_iff_exists'.1 hn
    have hfd' : fs path = some (contents (ts.map Storable.line)) := by
      rw [← h, hfd]; rfl
    simp [getNumberOfLines_lines hfd']

/-- The ID that a new instance will give. -/
theorem nextTicketID (h : Holds fs path ts) :
    (new fs path).nextTicketID = idAfter (fs path = none) ts.length := by
  have hn : (new fs path).nextTicketID = TicketDAO.getNumberOfLines fs path + 1 := rfl
  rw [hn, h.getNumberOfLines]
  by_cases hf : fs path = none
  · have : ts = [] := by
      unfold Holds at h
      rw [hf] at h
      cases ts with
      | nil => rfl
      | cons t ts => simp [Line.bytes] at h
    subst this
    simp [hf, idAfter]
  · simp [hf, idAfter]

/-- **`save` adds one line.** -/
theorem save (h : Holds fs path ts) {dao : TicketDAO} (hd : dao.filePath = path)
    (t : NewTicket) :
    Holds (save .ok fs dao t.toTicket).1 path (ts ++ [t.withID dao.nextTicketID]) := by
  subst hd
  unfold Holds at h ⊢
  rw [save_ok_file, Option.getD_some, h, initTicketID_new dao t.isNew, List.map_append,
    contents_append]
  simp [Storable.line, Line.bytes, NewTicket.withID]

end Holds

end Yahd
