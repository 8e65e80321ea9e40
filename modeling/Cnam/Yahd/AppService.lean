/-
  The service between the pages and the store (`AppService.class.php`), and the search for
  tickets that were saved through it.

  Each call builds its own instance of `TicketDAO`, so calls made one after the other number
  their tickets in order (`InOrder`).
-/
import Cnam.Lib.Machine
import Cnam.Yahd.Storable

namespace Yahd

open Php TicketDAO

namespace AppService

/-- The text `printTicketAsTableRow` echoes. -/
def printTicketAsTableRow (ticket : Ticket) (tableRecordClass : Str) : Str :=
  "    <tr class=\"".toList ++ tableRecordClass ++ "\">\n".toList ++
  "      <td class=\"center\">".toList ++ ticket.applicationName.toStr ++ "</td>\n".toList ++
  "      <td class=\"center\">".toList ++ ticket.getPriorityText.toStr ++ "</td>\n".toList ++
  "      <td class=\"center\">".toList ++ ticket.type.toStr ++ "</td>\n".toList ++
  "      <td class=\"center\">".toList ++ ticket.creationDate.toStr ++ "</td>\n".toList ++
  "      <td class=\"left\">".toList ++ ticket.oneLiner.toStr ++ "</td>\n".toList ++
  "      <td class=\"left\">".toList ++ ticket.detailedDescription.toStr ++ "</td>\n".toList ++
  "    </tr>".toList

/-- `saveTicket($ticket)`: the files, the ticket with its ID, and what is echoed. -/
def saveTicket (disk : Disk) (fs : FileSystem) (ticket : Ticket) :
    FileSystem × Ticket × Str :=
  let ticketDAO := TicketDAO.new fs
  let (fs, ticket, isOK) := ticketDAO.save disk fs ticket
  (fs, ticket, if isOK.getD 0 = 0 then "***Debug*** sauvegarde interdite".toList else [])

/-- `getAllTickets`: the tickets of the store. -/
def getAllTickets (fs : FileSystem) : List Ticket :=
  let ticketDAO := TicketDAO.new fs
  ticketDAO.findAll fs

/-- `findTicketById`. -/
def findTicketById (fs : FileSystem) (ticketId : Val) : Option Ticket :=
  let ticketDAO := TicketDAO.new fs
  ticketDAO.findById fs ticketId

theorem saveTicket_files (disk : Disk) (fs : FileSystem) (ticket : Ticket) :
    (saveTicket disk fs ticket).1 = (TicketDAO.save disk fs (TicketDAO.new fs) ticket).1 := rfl

theorem saveTicket_ticket (disk : Disk) (fs : FileSystem) (ticket : Ticket) :
    (saveTicket disk fs ticket).2.1 =
      (TicketDAO.save disk fs (TicketDAO.new fs) ticket).2.1 := rfl

/-- Nothing but the store decides what the service finds. -/
theorem getAllTickets_congr {fs fs' : FileSystem} (h : fs ticketsCsv = fs' ticketsCsv) :
    getAllTickets fs = getAllTickets fs' := by
  simp only [getAllTickets, TicketDAO.findAll, TicketDAO.new, h]

theorem getAllTickets_saveTicket (disk : Disk) (fs : FileSystem) (ticket : Ticket) :
    getAllTickets (saveTicket disk fs ticket).1 =
      findAll (TicketDAO.save disk fs (TicketDAO.new fs) ticket).1 (TicketDAO.new fs) := by
  rw [saveTicket_files]
  rfl

section
variable {fs : FileSystem} (h : fs ticketsCsv = none ∨ fs ticketsCsv = some [])
include h

theorem terminated_of_empty : Terminated ((fs ticketsCsv).getD []) := by
  rcases h with h | h <;> rw [h] <;> exact Or.inl rfl

theorem getAllTickets_of_empty : getAllTickets fs = [] := (Holds.of_empty h).findAll rfl

end

end AppService

open AppService

/-! ## Tickets saved one after the other -/

/-- The tickets `ts` with the IDs they get when they are saved in this order in a file that
    did not exist (`absent`) or was empty. -/
def numbered (absent : Bool) (ts : List NewTicket) : List Storable :=
  ts.mapIdx fun i t => t.withID (idAfter absent i)

@[simp] theorem length_numbered (absent : Bool) (ts : List NewTicket) :
    (numbered absent ts).length = ts.length := List.length_mapIdx

theorem numbered_snoc (absent : Bool) (ts : List NewTicket) (t : NewTicket) :
    numbered absent (ts ++ [t]) = numbered absent ts ++ [t.withID (idAfter absent ts.length)] := by
  simp [numbered, List.mapIdx_append]

/-- The store holds the tickets `ts`, numbered in order. -/
structure InOrder (absent : Bool) (fs : FileSystem) (ts : List NewTicket) : Prop where
  holds : Holds fs ticketsCsv (numbered absent ts)
  missing : fs ticketsCsv = none ↔ absent = true ∧ ts = []

namespace InOrder
variable {absent : Bool} {fs : FileSystem} {ts : List NewTicket}

theorem congr {fs' : FileSystem} (h : InOrder absent fs ts)
    (hfs : fs' ticketsCsv = fs ticketsCsv) : InOrder absent fs' ts := by
  constructor
  · have hholds := h.holds
    unfold Holds at hholds ⊢
    rwa [hfs]
  · rw [hfs]
    exact h.missing

theorem start (h : fs ticketsCsv = none ∨ fs ticketsCsv = some []) :
    InOrder (fs ticketsCsv = none) fs [] :=
  ⟨Holds.of_empty h, by simp⟩

theorem nextTicketID (h : InOrder absent fs ts) :
    (TicketDAO.new fs).nextTicketID = idAfter absent ts.length := by
  have hmissing := h.missing
  rw [h.holds.nextTicketID, length_numbered]
  cases absent with
  | false => simp [hmissing, idAfter]
  | true => simp [hmissing, idAfter]

theorem saveTicket_ticket (h : InOrder absent fs ts) (t : NewTicket) :
    (saveTicket .ok fs t.toTicket).2.1 = (t.withID (idAfter absent ts.length)).toTicket := by
  rw [AppService.saveTicket_ticket, save_ok_ticket, initTicketID_new _ t.isNew, h.nextTicketID]
  rfl

/-- **One `saveTicket`** puts the ticket after the others. -/
theorem saveTicket (h : InOrder absent fs ts) (t : NewTicket) :
    InOrder absent (saveTicket .ok fs t.toTicket).1 (ts ++ [t]) := by
  constructor
  · have hholds := h.holds.save (show (TicketDAO.new fs).filePath = ticketsCsv from rfl) t
    rw [h.nextTicketID] at hholds
    rw [numbered_snoc]
    exact hholds
  · have hfile := save_ok_file fs (TicketDAO.new fs) t.toTicket
    have hsome : ((AppService.saveTicket .ok fs t.toTicket).1 ticketsCsv).isSome := by
      rw [saveTicket_files]
      exact Option.isSome_iff_exists.2 ⟨_, hfile⟩
    simp [Option.isSome_iff_ne_none.1 hsome]

theorem getAllTickets (h : InOrder absent fs ts) :
    getAllTickets fs = (numbered absent ts).map fun t => t.readBack := h.holds.findAll rfl

end InOrder

/-! ## Finding a ticket again -/

/-- The files, and the tickets saved so far as `save` left them. -/
structure Desk where
  fs : FileSystem
  saved : List Ticket

/-- One call of `saveTicket`. -/
def Desk.saveTicket (s : Desk) (t : NewTicket) : Desk :=
  let (fs, ticket, _) := AppService.saveTicket .ok s.fs t.toTicket
  ⟨fs, s.saved ++ [ticket]⟩

/-- What a run of `saveTicket` calls reaches. -/
theorem Desk.run_saveTicket {absent : Bool} {fs : FileSystem} (h : InOrder absent fs [])
    (ts : List NewTicket) :
    (Machine.run Desk.saveTicket ⟨fs, []⟩ ts).saved = (numbered absent ts).map Storable.toTicket ∧
      InOrder absent (Machine.run Desk.saveTicket ⟨fs, []⟩ ts).fs ts := by
  refine Machine.run_history (C := fun _ => True)
    (H := fun ts (s : Desk) => s.saved = (numbered absent ts).map Storable.toTicket ∧
      InOrder absent s.fs ts) ⟨rfl, h⟩ ?_ ts fun _ _ => trivial
  rintro ts s t ⟨hsaved, horder⟩ -
  constructor
  · rw [numbered_snoc, List.map_append, ← hsaved]
    show _ ++ [(AppService.saveTicket .ok _ t.toTicket).2.1] = _
    rw [horder.saveTicket_ticket]
    rfl
  · exact horder.saveTicket t

/-- A search that accepts the `i`-th element and none before it finds it. -/
theorem find?_of_first {α : Type} {p : α → Bool} {l : List α} {i : ℕ} {a : α}
    (ha : l[i]? = some a) (hp : ∀ (j : ℕ) (hj : j < l.length), j ≤ i → p l[j] = decide (j = i)) :
    l.find? p = some a := by
  obtain ⟨hi, rfl⟩ := List.getElem?_eq_some_iff.1 ha
  rw [List.find?_eq_some_iff_getElem]
  refine ⟨by simp [hp i hi le_rfl], i, hi, rfl, ?_⟩
  intro j hj
  have hne : j ≠ i := by omega
  simp [hp j (by omega) (by omega), hne]

theorem InOrder.findTicketById {absent : Bool} {fs : FileSystem} {ts : List NewTicket}
    (h : InOrder absent fs ts) {i : ℕ} (hi : i < ts.length) {id : Val}
    (hid : ∀ j ≤ i, looseEq (.str (ofInt (idAfter absent j))) id = decide (j = i)) :
    findTicketById fs id = some (ts[i].withID (idAfter absent i)).readBack := by
  have hfind : (numbered absent ts).find? (fun t => looseEq (.str t.ticketID.toStr) id) =
      some (ts[i].withID (idAfter absent i)) := by
    refine find?_of_first (i := i) (by simp [numbered, hi]) ?_
    intro j hj hle
    simp only [numbered, List.getElem_mapIdx]
    exact hid j hle
  have hdao := h.holds.findById (show (TicketDAO.new fs).filePath = ticketsCsv from rfl) id
  rw [hfind] at hdao
  exact hdao

/-- **Every saved ticket can be found again**, by its ID as an integer or as a string. -/
theorem findTicketById_of_saved {fs : FileSystem}
    (h0 : fs ticketsCsv = none ∨ fs ticketsCsv = some []) (ts : List NewTicket) {i : ℕ}
    (hi : i < ts.length) :
    ∃ n : ℕ, ∃ t' : Ticket,
      ((Machine.run Desk.saveTicket ⟨fs, []⟩ ts).saved.map Ticket.ticketID)[i]? = some (.int n) ∧
      (∀ j : ℕ, ((Machine.run Desk.saveTicket ⟨fs, []⟩ ts).saved.map Ticket.ticketID)[j]? =
        some (.int n) → j = i) ∧
      findTicketById (Machine.run Desk.saveTicket ⟨fs, []⟩ ts).fs (.int n) = some t' ∧
      findTicketById (Machine.run Desk.saveTicket ⟨fs, []⟩ ts).fs (.str (ofInt n)) = some t' ∧
      t'.ticketID.toStr = ofInt n ∧ t'.mainTexts = ts[i].mainTexts := by
  obtain ⟨hsaved, horder⟩ := Desk.run_saveTicket (InOrder.start h0) ts
  generalize Machine.run Desk.saveTicket ⟨fs, []⟩ ts = s at hsaved horder
  generalize decide (fs ticketsCsv = none) = absent at hsaved horder
  have hids : s.saved.map Ticket.ticketID = ts.mapIdx fun i _ => .int (idAfter absent i) := by
    rw [hsaved, numbered]
    ext j : 1
    simp only [List.getElem?_map, List.getElem?_mapIdx, Option.map_map]
    rfl
  have hinj : ∀ j : ℕ, (idAfter absent j = idAfter absent i) ↔ j = i :=
    fun j => (idAfter_injective absent).eq_iff
  refine ⟨idAfter absent i, (ts[i].withID (idAfter absent i)).readBack, ?_, ?_, ?_, ?_, rfl, rfl⟩
  · rw [hids]
    simp [hi]
  · intro j hj
    rw [hids, List.getElem?_mapIdx] at hj
    obtain ⟨_, -, hj⟩ := Option.map_eq_some_iff.1 hj
    have hcast : (idAfter absent j : Int) = idAfter absent i := Val.int.inj hj
    exact (hinj j).1 (by exact_mod_cast hcast)
  · refine horder.findTicketById hi fun j hj => ?_
    rw [looseEq_ofInt_int (idAfter_mono absent hj)]
    exact decide_eq_decide.2 (hinj j)
  · refine horder.findTicketById hi fun j _ => ?_
    rw [looseEq_ofInt_str]
    exact decide_eq_decide.2 (hinj j)

/-- The second of two tickets, in a file that did not exist. -/
theorem findTicketById_of_saved_second :
    ∃ n : ℕ, ∃ t' : Ticket,
      ((Machine.run Desk.saveTicket ⟨fun _ => none, []⟩
        [sampleTicket, sampleTicket]).saved.map Ticket.ticketID)[1]? = some (.int n) ∧
      (∀ j : ℕ, ((Machine.run Desk.saveTicket ⟨fun _ => none, []⟩
        [sampleTicket, sampleTicket]).saved.map Ticket.ticketID)[j]? = some (.int n) → j = 1) ∧
      findTicketById (Machine.run Desk.saveTicket ⟨fun _ => none, []⟩
        [sampleTicket, sampleTicket]).fs (.int n) = some t' ∧
      findTicketById (Machine.run Desk.saveTicket ⟨fun _ => none, []⟩
        [sampleTicket, sampleTicket]).fs (.str (ofInt n)) = some t' ∧
      t'.ticketID.toStr = ofInt n ∧ t'.mainTexts = sampleTicket.mainTexts :=
  findTicketById_of_saved (Or.inl rfl) [sampleTicket, sampleTicket] (show 1 < 2 by decide)

end Yahd
