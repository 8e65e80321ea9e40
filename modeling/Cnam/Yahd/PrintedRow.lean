/-
  The row that shows a ticket (`printTicketAsTableRow`), read as HTML.

  The fields are printed as they are, without escaping: the row shows the ticket exactly when
  none of its texts has anything that HTML reads as something else (`row_printTicketAsTableRow`).
-/
import Cnam.Lib.Html
import Cnam.Yahd.FormRules

namespace Yahd

open Php AppService

namespace Ticket

/-- What the cells of the row of a ticket should show. -/
def shown (t : Ticket) : List Str :=
  [t.applicationName.toStr, t.getPriorityText.toStr, t.type.toStr, t.creationDate.toStr,
   t.oneLiner.toStr, t.detailedDescription.toStr]

/-- The texts of the cells that are free. -/
def freeTexts (t : Ticket) : List Str :=
  [t.applicationName.toStr, t.type.toStr, t.creationDate.toStr, t.oneLiner.toStr,
   t.detailedDescription.toStr]

end Ticket

/-- The row of the list of tickets. -/
def rowOf (t : Ticket) : Str :=
  printTicketAsTableRow t (ShowAllTickets.tableRecordClass t.priority)

/-! ## The tags of the row -/

/-- The start tag of a centred cell, and of one that is not. -/
def center : Str := "\n      <td class=\"center\">".toList

/-- The tag before a cell. -/
def left : Str := "\n      <td class=\"left\">".toList

theorem tag_cell : ∀ opening ∈ [center, left],
    Html.tag (Html.skipSpaces opening) = some (.start Html.td, []) := by
  decide +kernel

theorem tag_tr : ∀ e ∈ ShowAllTickets.priorityColorMap,
    Html.tag (Html.skipSpaces ("    <tr class=\"".toList ++ ("tab_bg_".toList ++ e.2) ++
      "\">".toList)) = some (.start Html.tr, []) := by
  decide +kernel

theorem tag_stop : Html.tag (Html.skipSpaces "\n    </tr>".toList) = some (.stop Html.tr, []) := by
  decide +kernel

/-- The cells of the row, with their start tags. -/
def Ticket.cells (t : Ticket) : List (Str × Str) :=
  [(center, t.applicationName.toStr), (center, t.getPriorityText.toStr), (center, t.type.toStr),
   (center, t.creationDate.toStr), (left, t.oneLiner.toStr), (left, t.detailedDescription.toStr)]

/-- The row is its cells between two tags. -/
theorem rowOf_eq (t : Ticket) :
    rowOf t = "    <tr class=\"".toList ++ ShowAllTickets.tableRecordClass t.priority ++
      "\">".toList ++ (Html.printCells t.cells ++ "\n    </tr>".toList) := by
  have hcenter : center = "\n".toList ++ "      <td class=\"center\">".toList := by decide +kernel
  have hleft : left = "\n".toList ++ "      <td class=\"left\">".toList := by decide +kernel
  have hstart : "\">\n".toList = "\">".toList ++ "\n".toList := by decide +kernel
  have hclose : "</td>\n".toList = "</td>".toList ++ "\n".toList := by decide +kernel
  have hstop : "\n    </tr>".toList = "\n".toList ++ "    </tr>".toList := by decide +kernel
  unfold rowOf printTicketAsTableRow Ticket.cells Html.printCells
  rw [hcenter, hleft, hstart, hclose, hstop]
  simp only [List.flatMap_cons, List.flatMap_nil, List.append_assoc, List.nil_append]

/-! ## The row read back -/

theorem mem_of_get? {α : Type} {a : Arr α} {index : Val} (h : (a.get? index).isSome) :
    ∃ x, a.get? index = some x ∧ (Key.ofVal index, x) ∈ a := by
  obtain ⟨x, hx⟩ := Option.isSome_iff_exists.1 h
  obtain ⟨before, after, hsplit, -⟩ := List.lookup_eq_some_iff.1 hx
  refine ⟨x, hx, ?_⟩
  rw [hsplit]
  simp

/-- The colour of a known priority makes a start tag. -/
theorem tag_rowOf {t : Ticket} (h : KnownPriority t.priority) :
    Html.tag (Html.skipSpaces ("    <tr class=\"".toList ++
      ShowAllTickets.tableRecordClass t.priority ++ "\">".toList)) =
        some (.start Html.tr, []) := by
  obtain ⟨colour, hcolour, hmem⟩ := mem_of_get? h.2
  unfold ShowAllTickets.tableRecordClass
  rw [hcolour, Option.getD_some]
  exact tag_tr _ hmem

/-- The text of a known priority needs no escaping. -/
theorem literal_getPriorityText (refs : Html.Refs) {t : Ticket} (h : KnownPriority t.priority) :
    Html.Literal refs t.getPriorityText.toStr := by
  have hplain : ∀ e ∈ Ticket.priorityTextMap,
      '\r' ∉ e.2 ∧ Char.ofNat 0 ∉ e.2 ∧ '&' ∉ e.2 ∧ '<' ∉ e.2 := by decide +kernel
  obtain ⟨text, htext, hmem⟩ := mem_of_get? h.1
  unfold Ticket.getPriorityText Ticket.priorityCodeToText
  rw [htext]
  obtain ⟨hcr, hnul, hamp, hlt⟩ := hplain _ hmem
  exact Html.literal_of_notMem hcr hnul hamp hlt

/-- **A printed row shows the ticket** if and only if nothing in its texts is read as something
    else. -/
theorem row_printTicketAsTableRow (refs : Html.Refs) {ticket : Ticket}
    (h : KnownPriority ticket.priority) :
    Html.row refs (rowOf ticket) = some ticket.shown ↔
      ∀ s ∈ ticket.freeTexts, Html.Literal refs s := by
  have hopen : ∀ c ∈ ticket.cells, Html.tag (Html.skipSpaces c.1) = some (.start Html.td, []) := by
    intro c hc
    have hstart : c.1 ∈ ticket.cells.map Prod.fst := List.mem_map_of_mem hc
    refine tag_cell c.1 ?_
    simpa [Ticket.cells] using hstart
  have hshown : ticket.shown = ticket.cells.map Prod.snd := rfl
  have hrow := Html.row_printCells hopen refs (tag_rowOf h) tag_stop
  rw [rowOf_eq, hshown, hrow]
  have htext := literal_getPriorityText refs h
  simp only [Ticket.cells, Ticket.freeTexts, List.forall_mem_cons, List.not_mem_nil,
    false_implies, implies_true, and_true]
  constructor
  · rintro ⟨happlication, -, hrest⟩
    exact ⟨happlication, hrest⟩
  · rintro ⟨happlication, hrest⟩
    exact ⟨happlication, htext, hrest⟩

/-- The named references that XML has too, but for one. -/
def xmlRefs : Html.Refs where
  table := [("amp;".toList, ['&']), ("lt;".toList, ['<']), ("gt;".toList, ['>']),
    ("quot;".toList, ['"'])]
  noTag := by decide +kernel
  short := by decide +kernel

/-- A ticket with a given summary. -/
def summarised (oneLiner : Str) : Ticket :=
  Ticket.new (.str "Access 2016".toList) (.str "dupont".toList) (.int 3) (.str "panne".toList)
    (.str "2016-03-01 10:00".toList) (.str oneLiner) (.str "depuis hier".toList)

theorem row_printTicketAsTableRow_plain :
    Html.row xmlRefs (rowOf (summarised "total > 5 & < 9".toList)) =
      some (summarised "total > 5 & < 9".toList).shown :=
  (row_printTicketAsTableRow xmlRefs (by decide +kernel)).2 (by decide +kernel)

/-- A summary with a `<` before a letter: the rest of the cell is lost in a tag. -/
theorem row_printTicketAsTableRow_markup :
    ¬∀ ticket : Ticket, KnownPriority ticket.priority →
      Html.row xmlRefs (rowOf ticket) = some ticket.shown := by
  intro h
  have hrow := h (summarised "si a<b".toList) (by decide +kernel)
  revert hrow
  decide +kernel

end Yahd
