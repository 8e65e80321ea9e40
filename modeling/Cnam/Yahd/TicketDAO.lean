/-
  The store of tickets (`TicketDAO.class.php`): a text file with one line for each
  ticket and nine columns separated by `;`.
-/
import Cnam.Php.Stream
import Cnam.Yahd.Ticket

namespace Yahd

open Php

/-- An instance of `TicketDAO`. -/
structure TicketDAO where
  filePath : Str
  nextTicketID : Int
deriving DecidableEq

namespace TicketDAO

/-- The file used when the constructor is given none. -/
def ticketsCsv : Str := "tickets.csv".toList

/-- `getNumberOfLines`. -/
def getNumberOfLines (fs : FileSystem) (filePath : Str) : Int :=
  match fs filePath with
  | none => -1
  | some fd => whileFgets (fun _ result => .yield (result + 1)) fd 0

/-- `getLastID`. -/
def getLastID (fs : FileSystem) (filePath : Str) : Int := getNumberOfLines fs filePath

/-- `new TicketDAO($filePath)`. -/
def new (fs : FileSystem) (filePath : Str := ticketsCsv) : TicketDAO :=
  let lastTicketID := getLastID fs filePath
  ⟨filePath, lastTicketID + 1⟩

/-- The ticket that `findAll` and `findById` make of a line. -/
def ofLine (line : Str) : Ticket :=
  let pieces := explode ';' line
  Ticket.new (column pieces 1) (column pieces 2) (column pieces 3) (column pieces 4)
    (column pieces 5) (column pieces 6) (column pieces 7) (column pieces 8) (column pieces 0)

/-- `findAll`: a ticket for each line. -/
def findAll (fs : FileSystem) (dao : TicketDAO) : List Ticket :=
  match fs dao.filePath with
  | none => []
  | some fd => whileFgets (fun line result => .yield (result ++ [ofLine line])) fd []

/-- `findById`: the ticket of the first line with the ID. -/
def findById (fs : FileSystem) (dao : TicketDAO) (searchedTicketId : Val) : Option Ticket :=
  match fs dao.filePath with
  | none => none
  | some fd =>
    whileFgets (fun line result =>
      if looseEq (column (explode ';' line) 0) searchedTicketId then .done (some (ofLine line))
      else .yield result) fd none

/-- `initTicketID`: a new ticket gets the next ID. -/
def initTicketID (dao : TicketDAO) (ticket : Ticket) : Ticket :=
  if !looseEq ticket.ticketID (.int (-1)) then ticket
  else ticket.setTicketID (.int dao.nextTicketID)

/-- The text that `save` writes for a ticket, without the line feed. -/
def record (ticket : Ticket) : Str :=
  ticket.ticketID.toStr ++ ";".toList ++ ticket.applicationName.toStr ++ ";".toList ++
  ticket.login.toStr ++ ";".toList ++ ticket.priority.toStr ++ ";".toList ++
  ticket.type.toStr ++ ";".toList ++ ticket.creationDate.toStr ++ ";".toList ++
  ticket.oneLiner.toStr ++ ";".toList ++ ticket.detailedDescription.toStr ++ ";".toList ++
  ticket.attachmentName.toStr

/-- `save($ticket)`: the files, the ticket with its ID, and the number of bytes written
    (`none` is PHP's `false`). -/
def save (disk : Disk) (fs : FileSystem) (dao : TicketDAO) (ticket : Ticket) :
    FileSystem × Ticket × Option ℕ :=
  let ticket := initTicketID dao ticket
  let line := record ticket
  match fopenAppend disk fs dao.filePath with
  | none => (fs, ticket, none)
  | some fs =>
    let line := line ++ "\n".toList
    let (fs, isOK) := fputs disk fs dao.filePath line
    (fs, ticket, some isOK)

/-! ## What the methods do -/

theorem initTicketID_new (dao : TicketDAO) {t : Ticket} (h : t.IsNew) :
    initTicketID dao t = t.setTicketID (.int dao.nextTicketID) := by
  unfold initTicketID; rw [h]; rfl

@[simp] theorem initTicketID_texts (dao : TicketDAO) (t : Ticket) :
    (initTicketID dao t).texts = t.texts := by
  unfold initTicketID; split <;> rfl

theorem ofLine_ticketID (line : Str) : (ofLine line).ticketID = column (explode ';' line) 0 := rfl

theorem record_eq_implode (t : Ticket) : record t = implode ';' t.columns := by
  simp [record, Ticket.columns]

theorem terminated_record (t : Ticket) : Terminated (record t ++ ['\n']) := by
  right; simp

/-- **`save` on a disk that accepts the line**: the record and a line feed are appended. -/
theorem save_ok (fs : FileSystem) (dao : TicketDAO) (t : Ticket) :
    save .ok fs dao t =
      (Function.update fs dao.filePath
        (some ((fs dao.filePath).getD [] ++ (record (initTicketID dao t) ++ ['\n']))),
       initTicketID dao t, some (record (initTicketID dao t) ++ ['\n']).length) := by
  simp [save, fopenAppend, fputs]

theorem save_ok_ticket (fs : FileSystem) (dao : TicketDAO) (t : Ticket) :
    (save .ok fs dao t).2.1 = initTicketID dao t := by
  rw [save_ok]

theorem save_ok_file (fs : FileSystem) (dao : TicketDAO) (t : Ticket) :
    (save .ok fs dao t).1 dao.filePath =
      some ((fs dao.filePath).getD [] ++ (record (initTicketID dao t) ++ ['\n'])) := by
  rw [save_ok]; exact Function.update_self ..

/-- **`getNumberOfLines`** counts the lines that the loop reads. -/
theorem getNumberOfLines_eq {fs : FileSystem} {path fd : Str} (h : fs path = some fd) :
    getNumberOfLines fs path = (readLines fd).length := by
  have hcount : ∀ (lines : List Str) (n : Int),
      lines.foldl (fun s _ => s + 1) n = n + lines.length := by
    intro lines
    induction lines with
    | nil => simp
    | cons line lines ih => intro n; simp [ih]; omega
  unfold getNumberOfLines
  rw [h]
  show whileFgets (fun _ result => .yield (result + 1)) fd 0 = _
  rw [whileFgets_forLines, forLines_yield (fun _ result => result + 1), hcount, zero_add]

theorem getNumberOfLines_none {fs : FileSystem} {path : Str} (h : fs path = none) :
    getNumberOfLines fs path = -1 := by
  unfold getNumberOfLines; rw [h]

theorem getNumberOfLines_lines {fs : FileSystem} {path : Str} {ls : List Line}
    (h : fs path = some (contents ls)) : getNumberOfLines fs path = ls.length := by
  rw [getNumberOfLines_eq h, readLines_lines, List.length_map]

/-- The ID that an instance gives is never that of a new ticket. -/
theorem nextTicketID_nonneg (fs : FileSystem) (path : Str) : 0 ≤ (new fs path).nextTicketID := by
  show 0 ≤ getNumberOfLines fs path + 1
  cases hfd : fs path with
  | none => rw [getNumberOfLines_none hfd]; rfl
  | some fd => rw [getNumberOfLines_eq hfd]; omega

/-- **`findAll`** makes one ticket of each line that the loop reads. -/
theorem findAll_eq (fs : FileSystem) (dao : TicketDAO) :
    findAll fs dao = (readLines ((fs dao.filePath).getD [])).map ofLine := by
  unfold findAll
  cases fs dao.filePath with
  | none => rfl
  | some fd =>
    show whileFgets (fun line result => .yield (result ++ [ofLine line])) fd [] = _
    rw [whileFgets_forLines, forLines_yield (fun line result => result ++ [ofLine line]),
      foldl_concat_map, List.nil_append, Option.getD_some]

/-- **`findById`** makes a ticket of the first of these lines whose first column equals the ID. -/
theorem findById_eq (fs : FileSystem) (dao : TicketDAO) (id : Val) :
    findById fs dao id =
      ((readLines ((fs dao.filePath).getD [])).find?
        fun line => looseEq (column (explode ';' line) 0) id).map ofLine := by
  unfold findById
  cases fs dao.filePath with
  | none => rfl
  | some fd =>
    simp only [whileFgets_forLines, Option.getD_some]
    rw [forLines_find (fun line => looseEq (column (explode ';' line) 0) id)
      fun line => some (ofLine line)]
    cases (readLines fd).find? _ <;> rfl

section
variable {fs : FileSystem} {dao : TicketDAO} {ls : List Line}
  (h : (fs dao.filePath).getD [] = contents ls)
include h

theorem findAll_lines : findAll fs dao = ls.map fun l => ofLine l.bytes := by
  rw [findAll_eq, h, readLines_lines, List.map_map]
  rfl

theorem findById_lines (id : Val) :
    findById fs dao id =
      (ls.find? fun l => looseEq (column (explode ';' l.bytes) 0) id).map
        fun l => ofLine l.bytes := by
  rw [findById_eq, h, readLines_lines, List.find?_map, Option.map_map]
  rfl

end

/-- **`findAll` after `save`**: the tickets there were, then one for each line of the text of the
    record. -/
theorem findAll_save {fs : FileSystem} {dao : TicketDAO} (t : Ticket)
    (hfd : Terminated ((fs dao.filePath).getD [])) :
    findAll (save .ok fs dao t).1 dao = findAll fs dao ++
      (explode '\n' (record (initTicketID dao t))).map fun l => ofLine (l ++ ['\n']) := by
  obtain ⟨ls, hls⟩ := exists_lines hfd
  obtain ⟨ms, hms⟩ := exists_lines (terminated_record (initTicketID dao t))
  have h : ((save .ok fs dao t).1 dao.filePath).getD [] = contents (ls ++ ms) := by
    rw [save_ok_file, Option.getD_some, hls, hms, contents_append]
  rw [findAll_lines h, findAll_lines hls, List.map_append, ← map_val_of_contents hms, List.map_map]
  rfl

/-- **One more ticket**: `save` adds exactly one when the record is one line, and then it is
    what the reader makes of that line. -/
theorem findAll_save_one {fs : FileSystem} {dao : TicketDAO} {t t' : Ticket}
    (hfd : Terminated ((fs dao.filePath).getD [])) :
    findAll (save .ok fs dao t).1 dao = findAll fs dao ++ [t'] ↔
      '\n' ∉ record (initTicketID dao t) ∧ ofLine (record (initTicketID dao t) ++ ['\n']) = t' := by
  rw [findAll_save t hfd, List.append_cancel_left_eq]
  constructor
  · intro hone
    obtain ⟨l, hl, hread⟩ := List.map_eq_singleton_iff.1 hone
    obtain ⟨hline, rfl⟩ := explode_eq_singleton.1 hl
    exact ⟨hline, hread⟩
  · rintro ⟨hline, rfl⟩
    rw [explode_of_notMem hline]
    rfl

/-! ## The readers agree -/

/-- **The readers agree** on every file: `findById` finds the first ticket of `findAll` whose ID
    equals the searched one, and `findAll` finds as many as `getNumberOfLines` counts. -/
theorem readers_agree {fs : FileSystem} {dao : TicketDAO} {fd : Str}
    (h : fs dao.filePath = some fd) (searchedTicketId : Val) :
    findById fs dao searchedTicketId =
        (findAll fs dao).find? (fun t => looseEq t.ticketID searchedTicketId) ∧
      ((findAll fs dao).length : Int) = getNumberOfLines fs dao.filePath := by
  have hall := findAll_eq fs dao
  rw [h, Option.getD_some] at hall
  constructor
  · -- the ID of a ticket is the first column of its line
    rw [findById_eq, h, Option.getD_some, hall, List.find?_map]
    rfl
  · rw [hall, List.length_map, getNumberOfLines_eq h]

/-- A blank line, a line without separator, and a last line that counts as false. -/
theorem readers_agree_malformed :
    findById (fun _ => some "1;a\n\n02\n2;b\n0".toList) ⟨[], 0⟩ (.str ['2']) =
        (findAll (fun _ => some "1;a\n\n02\n2;b\n0".toList) ⟨[], 0⟩).find?
          (fun t => looseEq t.ticketID (.str ['2'])) ∧
      ((findAll (fun _ => some "1;a\n\n02\n2;b\n0".toList) ⟨[], 0⟩).length : Int) =
        getNumberOfLines (fun _ => some "1;a\n\n02\n2;b\n0".toList) [] :=
  @readers_agree (fun _ => some "1;a\n\n02\n2;b\n0".toList) ⟨[], 0⟩ _ rfl (.str ['2'])

end TicketDAO

end Yahd
