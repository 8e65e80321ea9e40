/-
  Tickets of the help desk (`Ticket.class.php`).
-/
import Cnam.Php.Value

namespace Yahd

open Php

/-- A ticket.  The fields hold what the constructor was given: strings and integers, or
    `null` for a column that a line of the store does not have. -/
structure Ticket where
  ticketID : Val
  applicationName : Val
  login : Val
  priority : Val
  type : Val
  creationDate : Val
  oneLiner : Val
  detailedDescription : Val
  attachmentName : Val
deriving DecidableEq

namespace Ticket

/-- `new Ticket(…)`, with the constructor's defaults. -/
def new (applicationName login priority type creationDate oneLiner detailedDescription : Val)
    (attachmentName : Val := .str []) (ticketID : Val := .int (-1)) : Ticket :=
  ⟨ticketID, applicationName, login, priority, type, creationDate, oneLiner,
    detailedDescription, attachmentName⟩

/-- `setTicketID`. -/
def setTicketID (t : Ticket) (ticketID : Val) : Ticket := { t with ticketID := ticketID }

/-- The texts of the priority codes. -/
def priorityTextMap : Arr Str :=
  [(.int 5, "Très urgente".toList),
   (.int 4, "Urgente".toList),
   (.int 3, "Moyenne".toList),
   (.int 2, "Faible".toList),
   (.int 1, "Très faible".toList)]

/-- An undefined code has no text: the lookup gives `null`. -/
def priorityCodeToText (priorityCode : Val) : Val :=
  match priorityTextMap.get? priorityCode with
  | some text => .str text
  | none => .null

/-- `getPriorityText`. -/
def getPriorityText (t : Ticket) : Val := priorityCodeToText t.priority

/-- The ticket has not been given an ID yet. -/
def IsNew (t : Ticket) : Prop := looseEq t.ticketID (.int (-1)) = true

instance (t : Ticket) : Decidable t.IsNew := inferInstanceAs (Decidable (_ = true))

/-- The columns of a ticket in the store, as strings. -/
def columns (t : Ticket) : List Str :=
  [t.ticketID.toStr, t.applicationName.toStr, t.login.toStr, t.priority.toStr, t.type.toStr,
   t.creationDate.toStr, t.oneLiner.toStr, t.detailedDescription.toStr, t.attachmentName.toStr]

/-- The columns of a ticket after its ID. -/
def texts (t : Ticket) : List Str :=
  [t.applicationName.toStr, t.login.toStr, t.priority.toStr, t.type.toStr,
   t.creationDate.toStr, t.oneLiner.toStr, t.detailedDescription.toStr, t.attachmentName.toStr]

/-- The texts of a ticket but for the name of its attachment. -/
def mainTexts (t : Ticket) : List Str :=
  [t.applicationName.toStr, t.login.toStr, t.priority.toStr, t.type.toStr,
   t.creationDate.toStr, t.oneLiner.toStr, t.detailedDescription.toStr]

/-- No field contains the separator of the columns or a line feed; the ID is left aside. -/
def Clean (t : Ticket) : Prop := ∀ s ∈ t.texts, ';' ∉ s ∧ '\n' ∉ s

instance (t : Ticket) : Decidable t.Clean :=
  inferInstanceAs (Decidable (∀ s ∈ t.texts, ';' ∉ s ∧ '\n' ∉ s))

@[simp] theorem texts_setTicketID (t : Ticket) (id : Val) : (t.setTicketID id).texts = t.texts :=
  rfl

end Ticket

end Yahd
