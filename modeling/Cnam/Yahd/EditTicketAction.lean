/-
  The page that receives the form (`editTicketAction.php`).

  The page stores one record for a submission and the store reads one ticket back, with the
  author's login, exactly when the texts of the form do not break the record (`Unbroken`).
-/
import Cnam.Php.Request
import Cnam.Yahd.AppService

namespace Yahd

open Php TicketDAO AppService

/-- What the server brings to a request besides its files: the date, and what becomes of
    writing to the store and to the directory of attachments. -/
structure Server where
  today : Date
  disk : Disk
  writable : Bool

namespace EditTicketAction

/-- What the page answers. -/
inductive Reply where
  | redirect (location : Str)
  | refused (text : Str)
  /-- The confirmation: the ticket, what `saveTicket` echoes, and the row of the table. -/
  | received (ticket : Ticket) (echoed row : Str)

/-- The colour of each priority. -/
def priorityColorMap : Arr Str :=
  [(.int 5, "red".toList),
   (.int 4, "orange".toList),
   (.int 3, "yellow".toList),
   (.int 2, "blue".toList),
   (.int 1, "green".toList)]

/-- The class of the cells of a record. -/
def tableRecordClass (priority : Val) : Str :=
  "tab_bg_".toList ++ (priorityColorMap.get? priority).getD []

/-- The first two numbers of the address of the browser. -/
def domain (remoteAddr : Str) : Str :=
  let ips := explode '.' remoteAddr
  (column ips 0).toStr ++ ".".toList ++ (column ips 1).toStr

/-- The application: the one of the list, or the one typed in when none was chosen. -/
def application (req : Request) : Val :=
  if looseEq (req.param "application") (.str "-1".toList) then req.param "applicationOther"
  else req.param "application"

/-- The name of the uploaded file, empty when there is none. -/
def attachmentName (req : Request) : Str :=
  match req.userfile with
  | some file => file.name
  | none => []

/-- The ticket made of the form. -/
def ticket (today : Date) (userId : Str) (req : Request) : Ticket :=
  Ticket.new (application req) (.str userId) (req.param "priority") (req.param "type")
    (.str today.dmY) (req.param "oneLiner") (req.param "contents") (.str (attachmentName req))

/-- PHP keeps only the last part of the name of an uploaded file, so that the path stays in
    the directory. -/
def attachmentPath (file : Upload) : Str := "../attachements/".toList ++ file.name

/-- `saveAttachedFile`. -/
def saveAttachedFile (writable : Bool) (fs : FileSystem) (file : Upload) : FileSystem :=
  moveUploadedFile writable fs file (attachmentPath file)

end EditTicketAction

open EditTicketAction

/-- `editTicketAction.php` for the session `userId`. -/
def editTicketAction (srv : Server) (fs : FileSystem) (userId : Option Str) (req : Request) :
    FileSystem × Reply :=
  match userId with
  | none => (fs, .redirect "editTicket.php".toList)
  | some userId =>
    let expectedDomain := domain req.remoteAddr
    if !looseEq (.str (domain req.remoteAddr)) (.str expectedDomain) then
      (fs, .refused "Accès interdit".toList)
    else
      let (fs, ticket, echoed) := saveTicket srv.disk fs (ticket srv.today userId req)
      let fs := match req.userfile with
        | some file => saveAttachedFile srv.writable fs file
        | none => fs
      (fs, .received ticket echoed
        (printTicketAsTableRow ticket (tableRecordClass (req.param "priority"))))

/-! ## What the page does to the store -/

section
variable (srv : Server) (fs : FileSystem) (userId : Str) (req : Request)

theorem attachmentPath_ne (file : Upload) : ticketsCsv ≠ attachmentPath file := by
  intro h
  have hdir : "../attachements/".toList <+: ticketsCsv := ⟨file.name, h.symm⟩
  exact absurd hdir (by decide +kernel)

/-- Moving the attachment leaves the store alone. -/
theorem editTicketAction_store :
    (editTicketAction srv fs (some userId) req).1 ticketsCsv =
      (saveTicket srv.disk fs (ticket srv.today userId req)).1 ticketsCsv := by
  unfold editTicketAction
  simp only [looseEq_refl, Bool.not_true, Bool.false_eq_true, if_false]
  generalize saveTicket srv.disk fs (ticket srv.today userId req) = saved
  obtain ⟨fs', ticket', echoed⟩ := saved
  cases req.userfile with
  | none => rfl
  | some file => exact moveUploadedFile_other _ _ _ (attachmentPath_ne file)

/-- A submission of a session is always received. -/
theorem editTicketAction_reply :
    (editTicketAction srv fs (some userId) req).2 =
      .received (saveTicket srv.disk fs (ticket srv.today userId req)).2.1
        (saveTicket srv.disk fs (ticket srv.today userId req)).2.2
        (printTicketAsTableRow (saveTicket srv.disk fs (ticket srv.today userId req)).2.1
          (tableRecordClass (req.param "priority"))) := by
  simp [editTicketAction, looseEq_refl]

theorem ticket_isNew : (ticket srv.today userId req).IsNew := rfl

end

/-! ## One submission, one record -/

/-- The submission is received, and the store then has the tickets it had, in order, followed
    by one more, whose login is the session's and whose ID is the one given to the ticket. -/
def OneRecord (srv : Server) (fs : FileSystem) (userId : Str) (req : Request) : Prop :=
  ∃ (saved : Ticket) (echoed row : Str) (t' : Ticket),
    (editTicketAction srv fs (some userId) req).2 = .received saved echoed row ∧
    getAllTickets (editTicketAction srv fs (some userId) req).1 = getAllTickets fs ++ [t'] ∧
    t'.login = .str userId ∧ t'.ticketID = .str saved.ticketID.toStr

/-- No text of the submission has a line feed, and the login stays the third column: no
    separator precedes or cuts it, or the second piece of the application is that login. -/
def Unbroken (userId : Str) (req : Request) : Prop :=
  (∀ s ∈ [(application req).toStr, userId, (req.param "priority").toStr,
      (req.param "type").toStr, (req.param "oneLiner").toStr, (req.param "contents").toStr,
      attachmentName req], '\n' ∉ s) ∧
  (';' ∉ (application req).toStr ∧ ';' ∉ userId ∨
    (explode ';' (application req).toStr)[1]? = some userId)

/-- The second piece of `a;b;…`, where `a` and `b` may contain separators themselves. -/
theorem column_explode_one {sep : Char} (a b : Str) (rest : List Str) :
    column (explode sep a ++ (explode sep b ++ rest)) 1 = .str b ↔
      sep ∉ a ∧ sep ∉ b ∨ (explode sep a)[1]? = some b := by
  have hcol : ∀ ps : List Str, column ps 1 = .str b ↔ ps[1]? = some b := by
    intro ps
    unfold column
    cases ps[1]? <;> simp
  rw [hcol]
  by_cases ha : sep ∈ a
  · obtain ⟨a₁, a₂, rfl, ha₁⟩ := List.eq_append_cons_of_mem ha
    rw [explode_append_cons ha₁]
    cases h : explode sep a₂ with
    | nil => exact absurd h (explode_ne_nil _ _)
    | cons p ps => simp
  · rw [explode_of_notMem ha]
    cases h : explode sep b with
    | nil => exact absurd h (explode_ne_nil _ _)
    | cons p ps =>
      have hfirst : (explode sep b)[0]? = some b ↔ sep ∉ b := explode_getElem?_zero
      rw [h] at hfirst
      simpa [ha] using hfirst

/-- The record of a submission is one line when its texts are. -/
theorem record_submission_oneLine {today : Date} {userId : Str} {req : Request} {n : Int} :
    '\n' ∉ record ((ticket today userId req).setTicketID (.int n)) ↔
      ∀ s ∈ [(application req).toStr, userId, (req.param "priority").toStr,
        (req.param "type").toStr, (req.param "oneLiner").toStr, (req.param "contents").toStr,
        attachmentName req], '\n' ∉ s := by
  have hid : '\n' ∉ ofInt n := (ofInt_fits n).2
  have hdate : '\n' ∉ today.dmY := today.notMem_dmY (by decide) (by decide) (by decide)
  rw [record_eq_implode, mem_implode (by decide)]
  simp only [Ticket.columns, Ticket.setTicketID, ticket, Ticket.new, List.mem_cons,
    List.not_mem_nil, or_false, exists_eq_or_imp, exists_eq_left, Val.toStr_int, Val.toStr_str,
    hid, hdate, false_or, not_or, forall_eq_or_imp, forall_eq]

/-- What the reader makes of the record of a submission, in one line. -/
theorem ofLine_submission (today : Date) (userId : Str) (req : Request) (n : Int) :
    (ofLine (record ((ticket today userId req).setTicketID (.int n)) ++ ['\n'])).ticketID =
        .str (ofInt n) ∧
      ((ofLine (record ((ticket today userId req).setTicketID (.int n)) ++ ['\n'])).login =
          .str userId ↔
        ';' ∉ (application req).toStr ∧ ';' ∉ userId ∨
          (explode ';' (application req).toStr)[1]? = some userId) := by
  have hid : explode ';' (ofInt n) = [ofInt n] := explode_of_notMem (ofInt_fits n).1
  have hpieces := explode_record ((ticket today userId req).setTicketID (.int n))
  simp only [Ticket.setTicketID, Val.toStr_int, hid] at hpieces
  unfold ofLine
  simp only [Ticket.setTicketID, hpieces]
  exact ⟨rfl, column_explode_one _ _ _⟩

/-- **One submission, one record**, exactly when the texts do not break it. -/
theorem oneRecord_iff {srv : Server} {fs : FileSystem} (hdisk : srv.disk = .ok)
    (hfd : Terminated ((fs ticketsCsv).getD [])) (userId : Str) (req : Request) :
    OneRecord srv fs userId req ↔ Unbroken userId req := by
  have hnew := initTicketID_new (TicketDAO.new fs) (ticket_isNew srv userId req)
  have hsaved : (saveTicket srv.disk fs (ticket srv.today userId req)).2.1 =
      initTicketID (TicketDAO.new fs) (ticket srv.today userId req) := by
    rw [hdisk, saveTicket_ticket, save_ok_ticket]
  generalize (TicketDAO.new fs).nextTicketID = n at hnew
  obtain ⟨hid, hlogin⟩ := ofLine_submission srv.today userId req n
  have hone : ∀ t', getAllTickets (editTicketAction srv fs (some userId) req).1 =
        getAllTickets fs ++ [t'] ↔
      '\n' ∉ record ((ticket srv.today userId req).setTicketID (.int n)) ∧
        ofLine (record ((ticket srv.today userId req).setTicketID (.int n)) ++ ['\n']) = t' := by
    intro t'
    rw [getAllTickets_congr (editTicketAction_store srv fs userId req),
      getAllTickets_saveTicket, hdisk, ← hnew]
    exact findAll_save_one hfd
  constructor
  · rintro ⟨saved, echoed, row, t', -, hall, hlog, -⟩
    obtain ⟨hline, rfl⟩ := (hone t').1 hall
    exact ⟨record_submission_oneLine.1 hline, hlogin.1 hlog⟩
  · rintro ⟨hline, hsep⟩
    refine ⟨_, _, _, _, editTicketAction_reply srv fs userId req,
      (hone _).2 ⟨record_submission_oneLine.2 hline, rfl⟩, hlogin.2 hsep, ?_⟩
    rw [hid, hsaved, hnew]
    rfl

/-! ## Submissions, whatever their texts -/

/-- A form posted within the session of `userId`, and what the server brings to it. -/
structure Post where
  srv : Server
  userId : Str
  req : Request

namespace Post

/-- The ticket that the page makes of the form. -/
def ticket (p : Post) : Ticket := EditTicketAction.ticket p.srv.today p.userId p.req

/-- The files after the request. -/
def submit (fs : FileSystem) (p : Post) : FileSystem :=
  (editTicketAction p.srv fs (some p.userId) p.req).1

/-- No line is cut short: the store takes the whole line, or cannot be opened. -/
def Whole (p : Post) : Prop := p.srv.disk = .ok ∨ p.srv.disk = .cannotOpen

theorem isNew (p : Post) : p.ticket.IsNew := rfl

variable {fs : FileSystem} {p : Post}

theorem submit_cannotOpen (h : p.srv.disk = .cannotOpen) :
    submit fs p ticketsCsv = fs ticketsCsv := by
  rw [submit, editTicketAction_store, h]
  rfl

theorem submit_ok (h : p.srv.disk = .ok) :
    submit fs p ticketsCsv = some ((fs ticketsCsv).getD [] ++
      (record (p.ticket.setTicketID (.int (TicketDAO.new fs).nextTicketID)) ++ ['\n'])) := by
  rw [submit, editTicketAction_store, h, saveTicket_files,
    ← initTicketID_new (TicketDAO.new fs) p.isNew]
  exact save_ok_file fs (TicketDAO.new fs) p.ticket

theorem terminated_submit (h : p.Whole) (hfd : Terminated ((fs ticketsCsv).getD [])) :
    Terminated ((submit fs p ticketsCsv).getD []) := by
  rcases h with h | h
  · rw [submit_ok h, Option.getD_some]
    right
    simp
  · rwa [submit_cannotOpen h]

/-- **One submission**: a ticket for each line of the text of the record. -/
theorem getAllTickets_submit (h : p.srv.disk = .ok)
    (hfd : Terminated ((fs ticketsCsv).getD [])) :
    getAllTickets (submit fs p) = getAllTickets fs ++
      (explode '\n' (record (p.ticket.setTicketID (.int (TicketDAO.new fs).nextTicketID)))).map
        fun l => ofLine (l ++ ['\n']) := by
  rw [submit, getAllTickets_congr (editTicketAction_store p.srv fs p.userId p.req),
    getAllTickets_saveTicket, h,
    ← initTicketID_new (TicketDAO.new fs) p.isNew]
  exact findAll_save p.ticket hfd

theorem getAllTickets_submit_cannotOpen (h : p.srv.disk = .cannotOpen) :
    getAllTickets (submit fs p) = getAllTickets fs := getAllTickets_congr (submit_cannotOpen h)

end Post

/-- The form of the edit page, filled in and posted without an attachment. -/
def form (application applicationOther priority type oneLiner contents : String) : Request where
  get := []
  post := [(.str "application".toList, application.toList),
    (.str "applicationOther".toList, applicationOther.toList),
    (.str "priority".toList, priority.toList), (.str "type".toList, type.toList),
    (.str "oneLiner".toList, oneLiner.toList), (.str "contents".toList, contents.toList)]
  userfile := none
  requestURI := "/tp4/editTicketAction.php".toList
  phpSelf := "/tp4/editTicketAction.php".toList
  remoteAddr := "163.173.1.1".toList

/-- A server on a given day, whose files can be written. -/
def writableServer : Server := ⟨⟨6, 2, 2008⟩, .ok, true⟩

/-- A store of two tickets. -/
def twoTickets : FileSystem := fun path =>
  if path = ticketsCsv then
    some ("0;Paye;dupont;3;anomalie;1/2/2008;oneLiner 0;contents;\n" ++
      "2;Achats;martin;5;evolution;3/2/2008;oneLiner 1;see;screen.png\n").toList
  else none

/-- A third one is added, although its description has separators. -/
theorem oneRecord_iff_paye :
    OneRecord writableServer twoTickets "unittest".toList
      (form "Paye" "" "3" "anomalie" "oneLiner 1" "first; second") := by
  have hfd : Terminated ((twoTickets ticketsCsv).getD []) := by
    right
    decide +kernel
  refine (oneRecord_iff rfl hfd _ _).2 ⟨by decide +kernel, Or.inl ⟨?_, ?_⟩⟩
  · decide +kernel
  · decide +kernel

/-- A description of two lines makes two records. -/
theorem not_oneRecord_of_two_lines :
    ¬ ∀ (srv : Server) (fs : FileSystem) (userId : Str) (req : Request), srv.disk = .ok →
      Terminated ((fs ticketsCsv).getD []) → OneRecord srv fs userId req := by
  intro h
  obtain ⟨saved, echoed, row, t', -, hall, -⟩ := h writableServer (fun _ => none)
    "unittest".toList (form "Paye" "" "3" "anomalie" "oneLiner 1" "first line\nsecond line") rfl
    (Or.inl rfl)
  have hlen := congrArg List.length hall
  rw [List.length_append, List.length_singleton] at hlen
  revert hlen
  decide +kernel

end Yahd
