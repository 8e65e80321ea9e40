/-
  A `save` that fails, and what its caller makes of it.

  `save` gives a new ticket its ID before it opens the file, and leaves what it could write of
  the line.  The page takes no notice of the failure: it moves the attachment and confirms
  the ticket (`confirms_failed`).
-/
import Cnam.Yahd.EditTicketAction

namespace Yahd

open Php TicketDAO AppService EditTicketAction

/-- `save` cannot open the file, or writes less than the line. -/
def SaveFails (disk : Disk) (dao : TicketDAO) (t : Ticket) : Prop :=
  match disk with
  | .ok => False
  | .cannotOpen => True
  | .short n => n < (record (initTicketID dao t) ++ ['\n']).length

/-- The file and the ticket are after `save` as they were before. -/
def ChangesNothing (disk : Disk) (fs : FileSystem) (dao : TicketDAO) (t : Ticket) : Prop :=
  (save disk fs dao t).1 dao.filePath = fs dao.filePath ∧ (save disk fs dao t).2.1 = t

/-- The page does not show a ticket as received, and leaves the destination of the attachment
    as it was. -/
def Withholds (srv : Server) (fs : FileSystem) (userId : Str) (req : Request) : Prop :=
  (∀ ticket echoed row,
    (editTicketAction srv fs (some userId) req).2 ≠ .received ticket echoed row) ∧
  ∀ file, req.userfile = some file →
    (editTicketAction srv fs (some userId) req).1 (attachmentPath file) =
      fs (attachmentPath file)

/-- Who calls `save`: a script with an instance that was made when the files were `fs₀`, or the
    page, for the form of a session. -/
inductive Caller where
  | script (fs₀ : FileSystem) (filePath : Str) (ticket : Ticket)
  | page (today : Date) (writable : Bool) (userId : Str) (req : Request)

namespace Caller

/-- The instance that is called. -/
def dao (fs : FileSystem) : Caller → TicketDAO
  | script fs₀ filePath _ => TicketDAO.new fs₀ filePath
  | page .. => TicketDAO.new fs

/-- The ticket that is saved. -/
def ticket : Caller → Ticket
  | script _ _ ticket => ticket
  | page today _ userId req => EditTicketAction.ticket today userId req

/-- Nothing shows of the call. -/
def NoTrace (disk : Disk) (fs : FileSystem) (c : Caller) : Prop :=
  ChangesNothing disk fs (c.dao fs) c.ticket ∧
  match c with
  | script .. => True
  | page today writable userId req => Withholds ⟨today, disk, writable⟩ fs userId req

/-- A script saves a ticket that has an ID, and either the file cannot be opened or it exists
    and nothing is written to it. -/
def Spared (disk : Disk) (fs : FileSystem) : Caller → Prop
  | script _ filePath ticket =>
    ¬ticket.IsNew ∧ (disk = .cannotOpen ∨ disk = .short 0 ∧ fs filePath ≠ none)
  | page .. => False

end Caller

/-! ## The store and the ticket -/

section
variable {disk : Disk} {fs : FileSystem} {dao : TicketDAO} {t : Ticket}

/-- The ticket of a `save` has its ID, whatever becomes of the file. -/
theorem save_ticket (disk : Disk) (fs : FileSystem) (dao : TicketDAO) (t : Ticket) :
    (save disk fs dao t).2.1 = initTicketID dao t := by
  cases disk <;> rfl

/-- `initTicketID` changes the new tickets. -/
theorem initTicketID_eq_self (hdao : 0 ≤ dao.nextTicketID) :
    initTicketID dao t = t ↔ ¬t.IsNew := by
  constructor
  · intro heq hnew
    rw [initTicketID_new dao hnew] at heq
    have hid : t.ticketID = .int dao.nextTicketID := (congrArg Ticket.ticketID heq).symm
    rw [Ticket.IsNew, hid, looseEq_int, decide_eq_true_iff] at hnew
    omega
  · intro hnot
    have hfalse : looseEq t.ticketID (.int (-1)) = false := Bool.eq_false_iff.2 hnot
    rw [initTicketID, hfalse]
    rfl

/-- What a failing `save` leaves of the line. -/
theorem save_short (n : ℕ) :
    (save (.short n) fs dao t).1 dao.filePath =
      some ((fs dao.filePath).getD [] ++ (record (initTicketID dao t) ++ ['\n']).take n) := by
  simp [save, fopenAppend, fputs]

/-- The file is as it was when it could not be opened, or it exists and nothing was written. -/
theorem save_file_eq_self (h : SaveFails disk dao t) :
    (save disk fs dao t).1 dao.filePath = fs dao.filePath ↔
      disk = .cannotOpen ∨ disk = .short 0 ∧ fs dao.filePath ≠ none := by
  cases disk with
  | ok => exact h.elim
  | cannotOpen => exact iff_of_true rfl (Or.inl rfl)
  | short n =>
    rw [save_short]
    constructor
    · intro heq
      have hlen := congrArg (fun file : Option Str => (file.getD []).length) heq
      have hshort : n < (record (initTicketID dao t) ++ ['\n']).length := h
      simp only [Option.getD_some, List.length_append, List.length_take] at hlen hshort
      obtain rfl : n = 0 := by omega
      exact Or.inr ⟨rfl, by rw [← heq]; exact Option.some_ne_none _⟩
    · rintro (hopen | ⟨hzero, hfd⟩)
      · cases hopen
      · cases hzero
        rcases Option.ne_none_iff_exists'.1 hfd with ⟨fd, hfd⟩
        rw [hfd]
        simp

theorem changesNothing_iff (hdao : 0 ≤ dao.nextTicketID) (h : SaveFails disk dao t) :
    ChangesNothing disk fs dao t ↔
      ¬t.IsNew ∧ (disk = .cannotOpen ∨ disk = .short 0 ∧ fs dao.filePath ≠ none) := by
  rw [ChangesNothing, save_file_eq_self h, save_ticket, initTicketID_eq_self hdao]
  exact and_comm

end

/-! ## The page -/

section
variable {srv : Server} {fs : FileSystem} {userId : Str} {req : Request}

/-- **The page confirms a ticket that it could not store.**  It echoes a message when nothing
    was written, and none when the line was cut short. -/
theorem confirms_failed (h : SaveFails srv.disk (TicketDAO.new fs)
      (EditTicketAction.ticket srv.today userId req)) :
    ∃ ticket echoed row,
      (editTicketAction srv fs (some userId) req).2 = .received ticket echoed row ∧
        (echoed = [] ↔ srv.disk ≠ .cannotOpen ∧ srv.disk ≠ .short 0) := by
  refine ⟨_, _, _, editTicketAction_reply srv fs userId req, ?_⟩
  generalize EditTicketAction.ticket srv.today userId req = t at h
  cases hdisk : srv.disk with
  | ok =>
    rw [hdisk] at h
    exact h.elim
  | cannotOpen => simp [saveTicket, save, fopenAppend]
  | short n =>
    rw [hdisk] at h
    have hlen : n < (record (initTicketID (TicketDAO.new fs) t) ++ ['\n']).length := h
    have hwritten : (save (.short n) fs (TicketDAO.new fs) t).2.2 = some n := by
      show some ((record (initTicketID (TicketDAO.new fs) t) ++ ['\n']).take n).length = some n
      rw [List.length_take, min_eq_left hlen.le]
    cases n with
    | zero => simp [saveTicket, hwritten]
    | succ n => simp [saveTicket, hwritten]

/-- The attachment is moved all the same. -/
theorem moves_attachment {file : Upload} (hfile : req.userfile = some file) {content : Str}
    (htmp : file.tmp = some content) (hdir : srv.writable = true) :
    (editTicketAction srv fs (some userId) req).1 (attachmentPath file) = some content := by
  simp [editTicketAction, looseEq_refl, hfile, saveAttachedFile, moveUploadedFile, htmp, hdir]

end

/-- **When a failing `save` leaves no trace**: never when the page calls it; otherwise when the
    ticket has an ID, and the file cannot be opened or is there and nothing is written. -/
theorem noTrace_iff {disk : Disk} {fs : FileSystem} {c : Caller}
    (h : SaveFails disk (c.dao fs) c.ticket) : c.NoTrace disk fs ↔ c.Spared disk fs := by
  cases c with
  | script fs₀ filePath t =>
    have hchanges : ChangesNothing disk fs (TicketDAO.new fs₀ filePath) t ↔
        ¬t.IsNew ∧ (disk = .cannotOpen ∨ disk = .short 0 ∧ fs filePath ≠ none) :=
      changesNothing_iff (nextTicketID_nonneg fs₀ filePath) h
    exact (and_iff_left trivial).trans hchanges
  | page today writable userId req =>
    refine iff_of_false ?_ id
    rintro ⟨-, hreply, -⟩
    exact hreply _ _ _ (editTicketAction_reply ⟨today, disk, writable⟩ fs userId req)

/-- A ticket that has an ID, and a file that cannot be opened. -/
theorem noTrace_33 :
    (Caller.script (fun _ => none) ticketsCsv (sampleTicket.setTicketID (.int 33))).NoTrace
      .cannotOpen (fun _ => none) := by
  have hfails : SaveFails .cannotOpen (TicketDAO.new (fun _ => none) ticketsCsv)
      (sampleTicket.setTicketID (.int 33)) := trivial
  exact (noTrace_iff (c := .script (fun _ => none) ticketsCsv _) hfails).2
    ⟨by decide, Or.inl rfl⟩

/-- A form whose ticket cannot be stored is confirmed. -/
theorem not_noTrace_paye :
    ¬ ∀ (disk : Disk) (fs : FileSystem) (c : Caller),
      SaveFails disk (c.dao fs) c.ticket → c.NoTrace disk fs := by
  intro h
  obtain ⟨-, hreply, -⟩ := h .cannotOpen (fun _ => none)
    (.page ⟨6, 2, 2008⟩ true "unittest".toList
      (form "Paye" "" "3" "anomalie" "oneLiner 1" "contents")) trivial
  exact hreply _ _ _ (editTicketAction_reply ⟨⟨6, 2, 2008⟩, .cannotOpen, true⟩ _ _ _)

end Yahd
