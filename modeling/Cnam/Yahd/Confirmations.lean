/-
  The list of tickets against the confirmations.

  A confirmation prints the ticket in memory, the list prints what went through the store and
  back, each with its own copy of the colours.  After any run of submissions whose texts fit
  the store, the list is made of the rows the confirmations printed (`rows_eq_printed`).
-/
import Cnam.Yahd.Pages

namespace Yahd

open Php TicketDAO AppService EditTicketAction

/-! ## A row and the ticket read back -/

/-- The key of a parameter is the key of its text. -/
theorem key_param (req : Request) (name : String) :
    Key.ofVal (.str (req.param name).toStr) = Key.ofVal (req.param name) := by
  unfold Request.param
  cases req.param? name with
  | some s => rfl
  | none => rfl

/-- The two copies of the colours agree, whatever the priority. -/
theorem tableRecordClass_eq (priority : Val) :
    ShowAllTickets.tableRecordClass priority = EditTicketAction.tableRecordClass priority := rfl

/-- **The row of a ticket that was read back** is that of the ticket, if its priority still
    has the same key. -/
theorem row_readBack {t : Ticket}
    (h : Key.ofVal (.str t.priority.toStr) = Key.ofVal t.priority) :
    printTicketAsTableRow t.readBack (ShowAllTickets.tableRecordClass t.readBack.priority) =
      printTicketAsTableRow t (EditTicketAction.tableRecordClass t.priority) := by
  have hget : ∀ {α : Type} (a : Arr α),
      a.get? (.str t.priority.toStr) = a.get? t.priority := by
    intro α a
    unfold Arr.get?
    rw [h]
  have htext : t.readBack.getPriorityText = t.getPriorityText := by
    show Ticket.priorityCodeToText (.str t.priority.toStr) = Ticket.priorityCodeToText t.priority
    unfold Ticket.priorityCodeToText
    rw [hget]
  have hclass : EditTicketAction.tableRecordClass (.str t.priority.toStr) =
      EditTicketAction.tableRecordClass t.priority := by
    unfold EditTicketAction.tableRecordClass
    rw [hget]
  rw [tableRecordClass_eq]
  show printTicketAsTableRow t.readBack (EditTicketAction.tableRecordClass
    (.str t.priority.toStr)) = _
  rw [hclass]
  unfold printTicketAsTableRow
  rw [htext]
  rfl

/-! ## Runs of submissions -/

/-- A form submitted within a session, on a server that stores the ticket: no field of the
    ticket has a `;` or a line feed. -/
structure Submission where
  srv : Server
  userId : Str
  req : Request
  stores : srv.disk = .ok
  clean : (ticket srv.today userId req).Clean

/-- The ticket of a submission. -/
def Submission.newTicket (sub : Submission) : NewTicket where
  toTicket := ticket sub.srv.today sub.userId sub.req
  isNew := ticket_isNew sub.srv sub.userId sub.req
  clean := sub.clean

/-- The rows that an answer prints. -/
def EditTicketAction.Reply.rows : Reply → List Str
  | .received _ _ row => [row]
  | _ => []

/-- The files, and the rows that the confirmations have printed. -/
structure Helpdesk where
  fs : FileSystem
  printed : List Str

/-- One submission. -/
def Helpdesk.submit (s : Helpdesk) (sub : Submission) : Helpdesk :=
  let (fs, reply) := editTicketAction sub.srv s.fs (some sub.userId) sub.req
  ⟨fs, s.printed ++ reply.rows⟩

/-- The store holds the tickets submitted, and the list prints the rows printed. -/
structure Agrees (absent : Bool) (s : Helpdesk) (subs : List Submission) : Prop where
  order : InOrder absent s.fs (subs.map Submission.newTicket)
  rows : ShowAllTickets.rows s.fs = s.printed

theorem InOrder.rows {absent : Bool} {fs : FileSystem} {ts : List NewTicket}
    (h : InOrder absent fs ts) :
    ShowAllTickets.rows fs = (numbered absent ts).map fun t =>
      printTicketAsTableRow t.readBack
        (ShowAllTickets.tableRecordClass t.readBack.priority) := by
  unfold ShowAllTickets.rows
  rw [h.getAllTickets, List.map_map]
  rfl

theorem Agrees.start {fs : FileSystem} (h : fs ticketsCsv = none ∨ fs ticketsCsv = some []) :
    Agrees (fs ticketsCsv = none) ⟨fs, []⟩ [] :=
  ⟨InOrder.start h, by rw [(InOrder.start h).rows]; rfl⟩

/-- **One submission** adds the same row to both. -/
theorem Agrees.submit {absent : Bool} {s : Helpdesk} {subs : List Submission}
    (h : Agrees absent s subs) (sub : Submission) :
    Agrees absent (s.submit sub) (subs ++ [sub]) := by
  have hstore := editTicketAction_store sub.srv s.fs sub.userId sub.req
  have hreply := editTicketAction_reply sub.srv s.fs sub.userId sub.req
  have horder : InOrder absent (s.submit sub).fs
      (subs.map Submission.newTicket ++ [sub.newTicket]) := by
    refine (h.order.saveTicket sub.newTicket).congr ?_
    rw [← sub.stores]
    exact hstore
  have hticket := h.order.saveTicket_ticket sub.newTicket
  rw [← sub.stores] at hticket
  constructor
  · rw [List.map_append]
    exact horder
  · have hold := h.rows
    rw [h.order.rows] at hold
    have hprinted : (s.submit sub).printed = s.printed ++
        [printTicketAsTableRow (sub.newTicket.withID
          (idAfter absent (subs.map Submission.newTicket).length)).toTicket
          (EditTicketAction.tableRecordClass (sub.req.param "priority"))] := by
      show s.printed ++ (editTicketAction sub.srv s.fs (some sub.userId) sub.req).2.rows = _
      rw [hreply]
      unfold Reply.rows
      exact congrArg (fun t => s.printed ++ [printTicketAsTableRow t _]) hticket
    rw [horder.rows, numbered_snoc, List.map_append, hold, hprinted]
    refine congrArg (fun r => s.printed ++ [r]) ?_
    exact row_readBack (key_param sub.req "priority")

/-- One row is printed for each submission. -/
theorem Agrees.length_printed {absent : Bool} {s : Helpdesk} {subs : List Submission}
    (h : Agrees absent s subs) : s.printed.length = subs.length := by
  rw [← h.rows, h.order.rows, List.length_map, numbered, List.length_mapIdx, List.length_map]

/-- **The list agrees with the confirmations**: after a run of submissions, the list shows the
    rows that the confirmations printed, one for each submission, in the same order, none missing
    and none added. -/
theorem rows_eq_printed {fs : FileSystem} (h0 : fs ticketsCsv = none ∨ fs ticketsCsv = some [])
    (subs : List Submission) (userId : Str) :
    Page.content (Machine.run Helpdesk.submit ⟨fs, []⟩ subs).fs userId .showAllTickets =
      .showAllTickets (Machine.run Helpdesk.submit ⟨fs, []⟩ subs).printed ∧
    (Machine.run Helpdesk.submit ⟨fs, []⟩ subs).printed.length = subs.length := by
  have h : Agrees (fs ticketsCsv = none) (Machine.run Helpdesk.submit ⟨fs, []⟩ subs) subs :=
    Machine.run_history (H := fun subs s => Agrees (fs ticketsCsv = none) s subs)
      (C := fun _ => True) (Agrees.start h0) (fun _ _ sub hs _ => hs.submit sub) subs
      fun _ _ => trivial
  exact ⟨congrArg Content.showAllTickets h.rows, h.length_printed⟩

/-- A submission of the form. -/
def sampleSubmission : Submission where
  srv := writableServer
  userId := "unittest".toList
  req := form "-1" "Paye" "4" "anomalie" "oneLiner 1" "contents"
  stores := rfl
  clean := by decide +kernel

theorem rows_eq_printed_twice :
    Page.content (Machine.run Helpdesk.submit ⟨fun _ => none, []⟩
        [sampleSubmission, sampleSubmission]).fs "unittest".toList .showAllTickets =
      .showAllTickets (Machine.run Helpdesk.submit ⟨fun _ => none, []⟩
        [sampleSubmission, sampleSubmission]).printed ∧
    (Machine.run Helpdesk.submit ⟨fun _ => none, []⟩
      [sampleSubmission, sampleSubmission]).printed.length = 2 :=
  rows_eq_printed (Or.inl rfl) [sampleSubmission, sampleSubmission] _

end Yahd
