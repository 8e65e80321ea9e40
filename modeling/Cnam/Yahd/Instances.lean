/-
  Several instances of `TicketDAO` on one file, in any interleaving.

  An instance counts the lines when it is built and keeps the ID it computes from that
  count for every ticket it saves.  `World.step` runs the instances; `Schedule.step` only
  counts, and what it counts decides which IDs collide (`intact_iff`).
-/
import Cnam.Lib.Machine
import Cnam.Yahd.Storable

namespace Yahd

open Php TicketDAO

/-- What a request does with the store: build an instance, or save a new ticket through
    the `d`-th instance built. -/
inductive Act where
  | construct
  | save (d : ℕ) (t : NewTicket)

/-- The files, the instances built so far, and the tickets they have saved, with the IDs
    that `save` gave them. -/
structure World where
  fs : FileSystem
  daos : List TicketDAO
  saved : List Ticket

namespace World
variable (path : Str)

/-- One constructor or one `save`, each as one atomic step.  An instance that has not been
    built cannot save. -/
def step (w : World) : Act → World
  | .construct => { w with daos := w.daos ++ [TicketDAO.new w.fs path] }
  | .save d t => match w.daos[d]? with
    | none => w
    | some dao =>
      let (fs, ticket, _) := TicketDAO.save .ok w.fs dao t.toTicket
      ⟨fs, w.daos, w.saved ++ [ticket]⟩

/-- The tickets `ts` are stored: each is saved once, in order, the file consists of one line
    for each, and the IDs in the file are pairwise distinct. -/
def Intact (w : World) (ts : List NewTicket) : Prop :=
  w.saved.map Ticket.texts = ts.map (fun t => t.texts) ∧
  (w.fs path).getD [] = w.saved.flatMap (fun t => record t ++ ['\n']) ∧
  ((findAll w.fs (TicketDAO.new w.fs path)).map Ticket.ticketID).Nodup

end World

/-- What a schedule says before it is run: for each instance the number of saves that
    precede its construction, and the saves, each with that number for its instance. -/
structure Schedule where
  built : List ℕ
  saves : List (ℕ × NewTicket)

/-- What an act does to the schedule. -/
def Schedule.step (s : Schedule) : Act → Schedule
  | .construct => { s with built := s.built ++ [s.saves.length] }
  | .save d t => match s.built[d]? with
    | none => s
    | some n => { s with saves := s.saves ++ [(n, t)] }

/-- The schedule of a sequence of constructions and saves. -/
def Schedule.of (acts : List Act) : Schedule := Machine.run Schedule.step ⟨[], []⟩ acts

/-- The world has done what the schedule says, on a file that did not exist (`absent`) or
    was empty. -/
structure Follows (path : Str) (absent : Bool) (w : World) (s : Schedule) : Prop where
  daos : w.daos = s.built.map fun n => ⟨path, idAfter absent n⟩
  saved : w.saved = s.saves.map fun p => p.2.setTicketID (.int (idAfter absent p.1))
  holds : Holds w.fs path (s.saves.map fun p => p.2.withID (idAfter absent p.1))
  missing : w.fs path = none ↔ absent = true ∧ s.saves = []

namespace Follows
variable {path : Str} {absent : Bool} {w : World} {s : Schedule}

theorem start {fs : FileSystem} (h : fs path = none ∨ fs path = some []) :
    Follows path (fs path = none) ⟨fs, [], []⟩ ⟨[], []⟩ :=
  ⟨rfl, rfl, Holds.of_empty h, by simp⟩

/-- A new instance computes its ID from the number of saves before it. -/
theorem construct (h : Follows path absent w s) :
    (TicketDAO.new w.fs path).nextTicketID = idAfter absent s.saves.length := by
  rw [h.holds.nextTicketID, List.length_map]
  cases absent with
  | false => simp [h.missing, idAfter]
  | true =>
    have : w.fs path = none ↔ s.saves.length = 0 := by rw [h.missing]; simp
    simp [idAfter, this]

theorem step (h : Follows path absent w s) (a : Act) :
    Follows path absent (w.step path a) (s.step a) := by
  cases a with
  | construct =>
    refine ⟨?_, h.saved, h.holds, h.missing⟩
    have hnew : TicketDAO.new w.fs path = ⟨path, idAfter absent s.saves.length⟩ := by
      rw [← h.construct]; rfl
    simp [World.step, Schedule.step, h.daos, hnew]
  | save d t =>
    have hd : w.daos[d]? = s.built[d]?.map fun n => (⟨path, idAfter absent n⟩ : TicketDAO) := by
      rw [h.daos, List.getElem?_map]
    simp only [World.step, Schedule.step, hd]
    cases s.built[d]? with
    | none => exact h
    | some n =>
      refine ⟨h.daos, ?_, ?_, ?_⟩
      · simp [h.saved, save_ok_ticket, initTicketID_new _ t.isNew]
      · rw [List.map_append]; exact h.holds.save rfl t
      · have hfile := save_ok_file w.fs ⟨path, idAfter absent n⟩ t.toTicket
        simp only at hfile
        simp [hfile]

end Follows

/-- **Distinct IDs.**  Whatever the interleaving, every saved ticket has its line; the IDs
    are pairwise distinct exactly when no two saves go through instances that were built
    after the same number of saves. -/
theorem intact_iff {fs : FileSystem} {path : Str} (h0 : fs path = none ∨ fs path = some [])
    (acts : List Act) :
    (Machine.run (World.step path) ⟨fs, [], []⟩ acts).Intact path
        ((Schedule.of acts).saves.map Prod.snd) ↔
      ((Schedule.of acts).saves.map Prod.fst).Nodup := by
  have h : Follows path (fs path = none) (Machine.run (World.step path) ⟨fs, [], []⟩ acts)
      (Schedule.of acts) :=
    Machine.sim_run (fun w s a h => h.step a) acts (Follows.start h0)
  generalize Machine.run (World.step path) ⟨fs, [], []⟩ acts = w at h
  generalize Schedule.of acts = s at h
  generalize decide (fs path = none) = absent at h
  have hids : (findAll w.fs (TicketDAO.new w.fs path)).map Ticket.ticketID =
      (s.saves.map Prod.fst).map fun n => .str (ofInt (idAfter absent n)) := by
    rw [h.holds.findAll rfl]
    simp [Function.comp_def, Ticket.readBack, NewTicket.withID, Ticket.setTicketID]
  have hinj : Function.Injective fun n : ℕ => Val.str (ofInt (idAfter absent n)) := by
    intro m n he
    exact idAfter_injective absent (toDigits_injective (Val.str.inj he))
  have hfile : (w.fs path).getD [] = w.saved.flatMap fun t => record t ++ ['\n'] := by
    rw [h.holds, h.saved]
    simp [contents, List.flatMap_map, Storable.line, Line.bytes, NewTicket.withID]
  have htexts : w.saved.map Ticket.texts = (s.saves.map Prod.snd).map fun t => t.texts := by
    rw [h.saved]; simp [Function.comp_def]
  rw [World.Intact, hids, List.nodup_map_iff hinj]
  exact ⟨fun h => h.2.2, fun h => ⟨htexts, hfile, h⟩⟩

/-- Two instances, each built when the saves before it are done. -/
theorem intact_of_sequence :
    (Machine.run (World.step ticketsCsv) ⟨fun _ => none, [], []⟩
      [.construct, .save 0 sampleTicket, .construct, .save 1 sampleTicket]).Intact ticketsCsv
        [sampleTicket, sampleTicket] :=
  (intact_iff (Or.inl rfl) [.construct, .save 0 sampleTicket, .construct, .save 1 sampleTicket]).2
    (by decide)

/-- One instance that saves twice gives the same ID twice. -/
theorem not_intact_of_reuse :
    ¬ ∀ (fs : FileSystem) (path : Str), fs path = none ∨ fs path = some [] → ∀ acts : List Act,
      (Machine.run (World.step path) ⟨fs, [], []⟩ acts).Intact path
        ((Schedule.of acts).saves.map Prod.snd) := by
  intro h
  have := (h (fun _ => none) ticketsCsv (Or.inl rfl)
    [.construct, .save 0 sampleTicket, .save 0 sampleTicket]).2.2
  revert this
  decide +kernel

end Yahd
