/-
  What the reader makes of what the writer wrote.

  `save` ends the line with a line feed and `findAll` does not take it off, so the last of
  the nine columns never comes back as it was saved (`not_decodesBack`).
-/
import Cnam.Yahd.Storable

namespace Yahd

open Php TicketDAO

/-- `findAll` after `save` returns the tickets there were, and one that has the nine columns
    of the saved ticket. -/
def DecodesBack (fs : FileSystem) (dao : TicketDAO) (t : Ticket) : Prop :=
  ∃ t', findAll (save .ok fs dao t).1 dao = findAll fs dao ++ [t'] ∧
    t'.columns = (save .ok fs dao t).2.1.columns

section
variable {fs : FileSystem} {dao : TicketDAO} {t : Ticket}

/-- **Decoding a saved ticket.**  Every column comes back, the last one with the line feed. -/
theorem findAll_save_readBack (hfd : Terminated ((fs dao.filePath).getD []))
    (ht : ∀ s ∈ t.columns, ';' ∉ s ∧ '\n' ∉ s) :
    findAll (save .ok fs dao t).1 dao =
      findAll fs dao ++ [(initTicketID dao t).readBack] := by
  have hfits : ∀ s ∈ (initTicketID dao t).columns, ';' ∉ s ∧ '\n' ∉ s := columns_initTicketID ht
  refine (findAll_save_one hfd).2 ⟨record_oneLine fun s hs => (hfits s hs).2, ?_⟩
  exact ofLine_record fun s hs => (hfits s hs).1

theorem columns_readBack_ne (t : Ticket) : t.readBack.columns ≠ t.columns := by
  intro h
  have hlast := congrArg List.getLast? h
  simp [Ticket.columns, Ticket.readBack] at hlast

/-- **No ticket is decoded as it was saved.** -/
theorem not_decodesBack {fd : Str} (hfs : fs dao.filePath = some fd) (hfd : Terminated fd)
    (ht : ∀ s ∈ t.columns, ';' ∉ s ∧ '\n' ∉ s) : ¬ DecodesBack fs dao t := by
  rintro ⟨t', hall, hcols⟩
  rw [findAll_save_readBack (by rw [hfs]; exact hfd) ht] at hall
  obtain rfl : (initTicketID dao t).readBack = t' := by simpa using hall
  rw [save_ok_ticket] at hcols
  exact columns_readBack_ne _ hcols

end

/-- A ticket with an attachment, and the empty file it is saved in. -/
def attached : Ticket :=
  Ticket.new (.str "Paye".toList) (.str "unittest".toList) (.str "3".toList)
    (.str "anomalie".toList) (.str "06/02/2008".toList) (.str "oneLiner 1".toList)
    (.str "detailed description 1".toList) (.str "ecran.png".toList)

/-- Nothing but an empty store. -/
def emptyFile : FileSystem := fun path => if path = ticketsCsv then some [] else none

theorem not_decodesBack_attached : ¬ DecodesBack emptyFile (TicketDAO.new emptyFile) attached :=
  not_decodesBack (show emptyFile ticketsCsv = some [] from rfl) (by decide) (by decide)

theorem attachment_comes_back_with_line_feed :
    ¬ ∀ (fs : FileSystem) (dao : TicketDAO) (fd : Str) (t : Ticket),
      fs dao.filePath = some fd → Terminated fd → (∀ s ∈ t.columns, ';' ∉ s ∧ '\n' ∉ s) →
        DecodesBack fs dao t := by
  intro h
  obtain ⟨t', hall, hcols⟩ :=
    h emptyFile (TicketDAO.new emptyFile) [] attached rfl (by decide) (by decide)
  have hread : findAll (save .ok emptyFile (TicketDAO.new emptyFile) attached).1
      (TicketDAO.new emptyFile) =
      findAll emptyFile (TicketDAO.new emptyFile) ++
        [(attached.setTicketID (.int 1)).readBack] := by decide +kernel
  rw [hread] at hall
  obtain rfl : (attached.setTicketID (.int 1)).readBack = t' := by simpa using hall
  revert hcols
  decide +kernel

end Yahd
