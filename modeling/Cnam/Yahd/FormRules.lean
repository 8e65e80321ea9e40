/-
  The rules of the form (`editTicketForm.php`), and the tickets of the store.

  Only the browser checks them.  When the texts of a submission do not break its record, the
  stored ticket obeys the rules exactly when the submitted one does (`obeys_ofLine`), so that
  the list of tickets never looks up an unknown priority (`obeys_run`).
-/
import Cnam.Yahd.Confirmations

namespace Yahd

open Php TicketDAO AppService EditTicketAction

/-- A priority that has a text, and a colour in the list of tickets. -/
def KnownPriority (priorityCode : Val) : Prop :=
  (Ticket.priorityTextMap.get? priorityCode).isSome ∧
    (ShowAllTickets.priorityColorMap.get? priorityCode).isSome

instance (priorityCode : Val) : Decidable (KnownPriority priorityCode) :=
  inferInstanceAs (Decidable (_ ∧ _))

/-- The rules of the form: the priority is one of the list, and neither the application nor the
    summary is empty. -/
structure Ticket.Obeys (t : Ticket) : Prop where
  priority : KnownPriority t.priority
  applicationName : t.applicationName.toStr ≠ []
  oneLiner : t.oneLiner.toStr ≠ []

instance (t : Ticket) : Decidable t.Obeys :=
  decidable_of_iff (KnownPriority t.priority ∧ t.applicationName.toStr ≠ [] ∧ t.oneLiner.toStr ≠ [])
    ⟨fun h => ⟨h.1, h.2.1, h.2.2⟩, fun h => ⟨h.priority, h.applicationName, h.oneLiner⟩⟩

/-- The record of the ticket is one line, and no separator stands in the columns before the
    summary, or begins it. -/
structure Ticket.KeepsColumns (t : Ticket) : Prop where
  oneLine : ∀ s ∈ t.texts, '\n' ∉ s
  separated : ∀ s ∈ [t.applicationName.toStr, t.login.toStr, t.priority.toStr, t.type.toStr],
    ';' ∉ s
  summary : t.oneLiner.toStr.head? ≠ some ';'

/-- The page can store the ticket, if at all, as one that obeys the rules. -/
structure Post.FollowsForm (p : Post) : Prop where
  whole : p.Whole
  keepsColumns : p.srv.disk = .ok → p.ticket.KeepsColumns
  obeys : p.srv.disk = .ok → p.ticket.Obeys

/-- The first piece of a text that does not begin with the separator. -/
theorem explode_head {sep : Char} {s : Str} (h : s.head? ≠ some sep) :
    ∃ p ps, explode sep s = p :: ps ∧ (p = [] ↔ s = []) := by
  cases s with
  | nil => exact ⟨[], [], rfl, Iff.rfl⟩
  | cons c s =>
    have hc : sep ∉ [c] := by
      rw [List.mem_singleton]
      rintro rfl
      exact h rfl
    rcases explode_append_of_notMem hc s with ⟨p, ps, -, hcut⟩
    exact ⟨[c] ++ p, ps, hcut, by simp⟩

theorem knownPriority_toStr (req : Request) (name : String) :
    KnownPriority (.str (req.param name).toStr) ↔ KnownPriority (req.param name) := by
  unfold KnownPriority Arr.get?
  rw [key_param]

namespace Post
variable {p : Post}

/-- What the reader makes of the columns that the rules are about. -/
theorem ofLine_submitted (h : p.ticket.KeepsColumns) (n : Int) :
    ∃ first : Str, (first = [] ↔ p.ticket.oneLiner.toStr = []) ∧
      (ofLine (record (p.ticket.setTicketID (.int n)) ++ ['\n'])).priority =
        .str p.ticket.priority.toStr ∧
      (ofLine (record (p.ticket.setTicketID (.int n)) ++ ['\n'])).applicationName =
        .str p.ticket.applicationName.toStr ∧
      (ofLine (record (p.ticket.setTicketID (.int n)) ++ ['\n'])).oneLiner = .str first := by
  have hsep := h.separated
  simp only [List.forall_mem_cons, List.not_mem_nil, false_imp_iff, implies_true, and_true] at hsep
  obtain ⟨happ, hlogin, hpriority, htype⟩ := hsep
  have hid : explode ';' (ofInt n) = [ofInt n] := explode_of_notMem (ofInt_fits n).1
  have hdate : ';' ∉ p.srv.today.dmY := p.srv.today.notMem_dmY (by decide) (by decide) (by decide)
  rcases explode_head h.summary with ⟨first, ps, hsummary, hempty⟩
  have hpieces := explode_record (p.ticket.setTicketID (.int n))
  simp only [Ticket.setTicketID, Val.toStr_int] at hpieces
  have hdate' : p.ticket.creationDate.toStr = p.srv.today.dmY := rfl
  rw [hid, explode_of_notMem happ, explode_of_notMem hlogin, explode_of_notMem hpriority,
    explode_of_notMem htype, hdate', explode_of_notMem hdate, hsummary] at hpieces
  refine ⟨first, hempty, ?_, ?_, ?_⟩ <;>
  · unfold ofLine
    simp only [Ticket.setTicketID, hpieces]
    rfl

/-- **A stored ticket obeys the rules** exactly when the submitted one does. -/
theorem obeys_ofLine (h : p.ticket.KeepsColumns) (n : Int) :
    (ofLine (record (p.ticket.setTicketID (.int n)) ++ ['\n'])).Obeys ↔ p.ticket.Obeys := by
  rcases ofLine_submitted h n with ⟨first, hfirst, hpriority, happ, hsummary⟩
  have hknown : KnownPriority (.str p.ticket.priority.toStr) ↔ KnownPriority p.ticket.priority :=
    knownPriority_toStr p.req "priority"
  constructor
  · rintro ⟨hp, ha, ho⟩
    rw [hpriority, hknown] at hp
    rw [happ] at ha
    rw [hsummary] at ho
    exact ⟨hp, ha, fun hnil => ho (hfirst.2 hnil)⟩
  · rintro ⟨hp, ha, ho⟩
    constructor
    · rwa [hpriority, hknown]
    · rwa [happ]
    · rw [hsummary]
      exact fun hnil => ho (hfirst.1 hnil)

/-- **One submission that keeps the columns** adds one ticket, which obeys the rules exactly
    when the submitted one does. -/
theorem getAllTickets_submit_one {fs : FileSystem} (hdisk : p.srv.disk = .ok)
    (hfd : Terminated ((fs ticketsCsv).getD [])) (h : p.ticket.KeepsColumns) :
    ∃ t, getAllTickets (submit fs p) = getAllTickets fs ++ [t] ∧ (t.Obeys ↔ p.ticket.Obeys) := by
  have hline : ∀ n : Int, '\n' ∉ record (p.ticket.setTicketID (.int n)) := by
    intro n
    refine record_oneLine fun s hs => ?_
    rcases List.mem_cons.1 hs with rfl | hs
    · exact (ofInt_fits n).2
    · exact h.oneLine s hs
  rw [getAllTickets_submit hdisk hfd, explode_of_notMem (hline _)]
  exact ⟨_, rfl, obeys_ofLine h _⟩

end Post

/-- The store is made of whole lines, and its tickets obey the rules. -/
structure Regular (fs : FileSystem) : Prop where
  terminated : Terminated ((fs ticketsCsv).getD [])
  obeys : ∀ t ∈ getAllTickets fs, t.Obeys

namespace Regular
variable {fs : FileSystem}

theorem start (h : fs ticketsCsv = none ∨ fs ticketsCsv = some []) : Regular fs where
  terminated := terminated_of_empty h
  obeys := by
    rw [getAllTickets_of_empty h]
    exact fun t ht => absurd ht List.not_mem_nil

/-- **One submission.** -/
theorem submit (h : Regular fs) {p : Post} (hp : p.FollowsForm) : Regular (Post.submit fs p) where
  terminated := Post.terminated_submit hp.whole h.terminated
  obeys := by
    rcases hp.whole with hdisk | hdisk
    · rcases Post.getAllTickets_submit_one hdisk h.terminated (hp.keepsColumns hdisk)
        with ⟨t, hall, ht⟩
      rw [hall]
      intro t' ht'
      rcases List.mem_append.1 ht' with ht' | ht'
      · exact h.obeys t' ht'
      · rw [List.mem_singleton.1 ht']
        exact ht.2 (hp.obeys hdisk)
    · rw [Post.getAllTickets_submit_cannotOpen hdisk]
      exact h.obeys

end Regular

/-- **The tickets of the store obey the rules of the form**, in every state of a run of
    submissions that follow it. -/
theorem obeys_run {fs : FileSystem} (h0 : fs ticketsCsv = none ∨ fs ticketsCsv = some [])
    {posts : List Post}
    (hposts : Machine.Along Post.submit (fun _ p => p.FollowsForm) fs posts) :
    ∀ s ∈ Machine.states Post.submit fs posts, ∀ t ∈ getAllTickets s, t.Obeys := by
  intro s hs
  exact (Machine.inv_along (P := Regular) (fun _ _ hreg hp => hreg.submit hp)
    (Regular.start h0) hposts s hs).obeys

/-- A form sent by a session, without an attachment. -/
def sent (oneLiner contents : String) : Post where
  srv := writableServer
  userId := "unittest".toList
  req := form "Paye" "" "3" "anomalie" oneLiner contents

/-- Two submissions, the second with a ';' in its description, make two tickets that obey. -/
theorem obeys_run_paye :
    ∃ t t', getAllTickets (Machine.run Post.submit (fun _ => none)
        [sent "oneLiner 1" "contents", sent "oneLiner 2" "first; second"]) = [t, t'] ∧
      t.Obeys ∧ t'.Obeys := by
  have hfollows : (sent "oneLiner 1" "contents").FollowsForm :=
    { whole := Or.inl rfl
      keepsColumns := fun _ =>
        { oneLine := by decide +kernel
          separated := by decide +kernel
          summary := by decide +kernel }
      obeys := fun _ => by decide +kernel }
  have hfollows' : (sent "oneLiner 2" "first; second").FollowsForm :=
    { whole := Or.inl rfl
      keepsColumns := fun _ =>
        { oneLine := by decide +kernel
          separated := by decide +kernel
          summary := by decide +kernel }
      obeys := fun _ => by decide +kernel }
  have halong : Machine.Along Post.submit (fun _ p => p.FollowsForm) (fun _ => none)
      [sent "oneLiner 1" "contents", sent "oneLiner 2" "first; second"] :=
    ⟨hfollows, hfollows', trivial⟩
  have hobeys := obeys_run (Or.inl rfl) halong _ (Machine.run_mem_states _ _ _)
  have hlen : (getAllTickets (Machine.run Post.submit (fun _ => none)
      [sent "oneLiner 1" "contents", sent "oneLiner 2" "first; second"])).length = 2 := by
    decide +kernel
  rcases List.length_eq_two.1 hlen with ⟨t, t', hall⟩
  rw [hall] at hobeys
  exact ⟨t, t', hall, hobeys t (by simp), hobeys t' (by simp)⟩

/-- The second line of a description is a ticket without priority. -/
theorem not_obeys_of_two_lines :
    ¬ ∀ (fs : FileSystem) (posts : List Post),
      fs ticketsCsv = none ∨ fs ticketsCsv = some [] → (∀ p ∈ posts, p.Whole) →
        ∀ s ∈ Machine.states Post.submit fs posts, ∀ t ∈ getAllTickets s, t.Obeys := by
  intro h
  have hall := h (fun _ => none) [sent "oneLiner 1" "first line\nsecond line"] (Or.inl rfl)
    (fun p hp => by rw [List.mem_singleton.1 hp]; exact Or.inl rfl) _ (Machine.run_mem_states _ _ _)
  revert hall
  decide +kernel

end Yahd
