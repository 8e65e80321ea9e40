/-
  The attachments of the tickets (`saveAttachedFile`).

  The store keeps the names of the attachments, a directory the files.  A ticket finds its
  attachment when the last file moved under the name that its line ends with is its own
  (`attached_iff`).  That name is read back with the line feed, so that a ticket without
  separators in its texts does not (`not_attached`).
-/
import Cnam.Yahd.EditTicketAction

namespace Yahd

open Php TicketDAO AppService EditTicketAction

/-- The path of a name in the directory of attachments. -/
def inDirectory (name : Str) : Str := "../attachements/".toList ++ name

/-- The attachment that a line of the store names: what follows its eighth separator, with the
    line feed if that is the last piece. -/
def namedBy (line : Str) : Str := (column (explode ';' (line ++ ['\n'])) 8).toStr

theorem namedBy_eq (line : Str) :
    namedBy line = (ofLine (line ++ ['\n'])).attachmentName.toStr := rfl

namespace Post

/-- The content of the file that is uploaded. -/
def carried (p : Post) : Option Str :=
  match p.req.userfile with
  | some file => file.tmp
  | none => none

/-- What the request moves into the directory under a name. -/
def moved (p : Post) (name : Str) : Option Str :=
  match p.req.userfile with
  | some file => if p.srv.writable ∧ file.name = name then file.tmp else none
  | none => none

/-- The attachments that the lines of the record name, if it is stored. -/
def names (p : Post) : List Str :=
  match p.srv.disk with
  | .ok => (explode '\n' (record p.ticket)).map namedBy
  | _ => []

end Post

/-- The file of a name in the directory after the submissions: the last one moved there. -/
def attachmentAfter (fs : FileSystem) (posts : List Post) (name : Str) : Option Str :=
  (posts.reverse.findSome? fun p => p.moved name).or (fs (inDirectory name))

/-- The files, and the submission that each ticket of the store comes from. -/
structure Filing where
  fs : FileSystem
  owners : List Post

namespace Filing

/-- One submission.  The tickets that the store has more are its own. -/
def submit (s : Filing) (p : Post) : Filing :=
  let fs := Post.submit s.fs p
  ⟨fs, s.owners ++ List.replicate ((getAllTickets fs).length - (getAllTickets s.fs).length) p⟩

/-- Every ticket whose submission carried a file finds that file under its attachment name. -/
def Attached (s : Filing) : Prop :=
  ∀ owned ∈ (getAllTickets s.fs).zip s.owners, ∀ content, owned.2.carried = some content →
    s.fs (inDirectory owned.1.attachmentName.toStr) = some content

end Filing

/-! ## One submission -/

theorem save_other {disk : Disk} {fs : FileSystem} {dao : TicketDAO} {path : Str}
    (h : path ≠ dao.filePath) (t : Ticket) : (save disk fs dao t).1 path = fs path := by
  cases disk with
  | cannotOpen => rfl
  | ok => simp [save, fopenAppend, fputs, Function.update_of_ne h]
  | short n => simp [save, fopenAppend, fputs, Function.update_of_ne h]

namespace Post
variable {fs : FileSystem} {p : Post}

/-- The directory after a submission. -/
theorem submit_inDirectory (name : Str) :
    submit fs p (inDirectory name) = (p.moved name).or (fs (inDirectory name)) := by
  have hsave : (saveTicket p.srv.disk fs p.ticket).1 (inDirectory name) =
      fs (inDirectory name) := by
    rw [saveTicket_files]
    exact save_other (attachmentPath_ne ⟨name, none⟩).symm p.ticket
  unfold submit editTicketAction moved
  simp only [looseEq_refl, Bool.not_true, Bool.false_eq_true, if_false]
  cases huser : p.req.userfile with
  | none => exact hsave
  | some file =>
    show moveUploadedFile p.srv.writable (saveTicket p.srv.disk fs p.ticket).1 file
        (inDirectory file.name) (inDirectory name) =
      (if p.srv.writable ∧ file.name = name then file.tmp else none).or (fs (inDirectory name))
    by_cases hname : file.name = name
    · subst hname
      rw [moveUploadedFile_self, hsave]
      simp
    · have hpath : inDirectory name ≠ inDirectory file.name :=
        fun heq => hname (List.append_cancel_left heq).symm
      rw [moveUploadedFile_other _ _ _ hpath, hsave, if_neg fun hboth => hname hboth.2]
      rfl

/-- Only the first column of the first line depends on the ID. -/
theorem map_namedBy_record (t : Ticket) (m n : Int) :
    (explode '\n' (record (t.setTicketID (.int m)))).map namedBy =
      (explode '\n' (record (t.setTicketID (.int n)))).map namedBy := by
  have hrecord : ∀ k : Int, record (t.setTicketID (.int k)) =
      (ofInt k ++ [';']) ++ implode ';' t.texts := by
    intro k
    rw [record_eq_implode]
    show implode ';' (ofInt k :: t.texts) = _
    rw [List.append_assoc]
    exact implode_cons_cons ';' (ofInt k) _ _
  have hnamed : ∀ (k : Int) (l : Str), namedBy (ofInt k ++ [';'] ++ l) =
      (column (explode ';' (l ++ ['\n'])) 7).toStr := by
    intro k l
    unfold namedBy
    rw [List.append_assoc, List.append_assoc, List.singleton_append,
      explode_append_cons (ofInt_fits k).1]
    rfl
  have hid : ∀ k : Int, '\n' ∉ ofInt k ++ [';'] := by
    intro k
    simpa using (ofInt_fits k).2
  rcases explode_append_of_notMem (hid m) (implode ';' t.texts) with ⟨l, ls, htexts, hm⟩
  rcases explode_append_of_notMem (hid n) (implode ';' t.texts) with ⟨l', ls', htexts', hn⟩
  obtain ⟨rfl, rfl⟩ := List.cons.inj (htexts.symm.trans htexts')
  rw [hrecord, hrecord, hm, hn, List.map_cons, List.map_cons, hnamed, hnamed]

/-- The names of the attachments of the tickets that a submission adds. -/
theorem names_submit (h : p.srv.disk = .ok) (n : Int) :
    ((explode '\n' (record (p.ticket.setTicketID (.int n)))).map
      fun l => ofLine (l ++ ['\n'])).map (fun t => t.attachmentName.toStr) = p.names := by
  have hnamed : (fun t : Ticket => t.attachmentName.toStr) ∘ (fun l => ofLine (l ++ ['\n'])) =
      namedBy := rfl
  rw [List.map_map, hnamed, names, h]
  exact map_namedBy_record p.ticket n (-1)

theorem names_cannotOpen (h : p.srv.disk = .cannotOpen) : p.names = [] := by
  rw [names, h]

end Post

/-! ## Runs of submissions -/

theorem attachmentAfter_snoc (fs : FileSystem) (posts : List Post) (p : Post) (name : Str) :
    attachmentAfter fs (posts ++ [p]) name = (p.moved name).or (attachmentAfter fs posts name) := by
  unfold attachmentAfter
  rw [List.reverse_append, List.reverse_singleton, List.singleton_append, List.findSome?_cons]
  cases p.moved name <;> simp

/-- What a run of the submissions `posts` from the files `fs₀` reaches. -/
structure Filed (fs₀ : FileSystem) (posts : List Post) (s : Filing) : Prop where
  terminated : Terminated ((s.fs ticketsCsv).getD [])
  owned : s.owners.length = (getAllTickets s.fs).length
  /-- The names in the store, each with its submission. -/
  names : ((getAllTickets s.fs).map fun t => t.attachmentName.toStr).zip s.owners =
    posts.flatMap fun p => p.names.map fun name => (name, p)
  files : ∀ name, s.fs (inDirectory name) = attachmentAfter fs₀ posts name

namespace Filed
variable {fs₀ : FileSystem} {posts : List Post} {s : Filing}

theorem start (h : fs₀ ticketsCsv = none ∨ fs₀ ticketsCsv = some []) :
    Filed fs₀ [] ⟨fs₀, []⟩ where
  terminated := terminated_of_empty h
  owned := by
    rw [getAllTickets_of_empty h]
    rfl
  names := List.zip_nil_right
  files _ := rfl

/-- **One submission.** -/
theorem submit (h : Filed fs₀ posts s) {p : Post} (hp : p.Whole) :
    Filed fs₀ (posts ++ [p]) (s.submit p) := by
  have hterminated := Post.terminated_submit hp h.terminated
  have hfiles : ∀ name, Post.submit s.fs p (inDirectory name) =
      attachmentAfter fs₀ (posts ++ [p]) name := by
    intro name
    rw [Post.submit_inDirectory, attachmentAfter_snoc, h.files]
  have hnew : ∃ new : List Ticket, getAllTickets (Post.submit s.fs p) = getAllTickets s.fs ++ new ∧
      new.map (fun t => t.attachmentName.toStr) = p.names := by
    rcases hp with hdisk | hdisk
    · exact ⟨_, Post.getAllTickets_submit hdisk h.terminated, Post.names_submit hdisk _⟩
    · refine ⟨[], ?_, (Post.names_cannotOpen hdisk).symm⟩
      rw [Post.getAllTickets_submit_cannotOpen hdisk, List.append_nil]
  rcases hnew with ⟨new, hall, hnames⟩
  have howners : (s.submit p).owners = s.owners ++ List.replicate new.length p := by
    show s.owners ++ List.replicate (_ - _) p = _
    rw [hall, List.length_append, Nat.add_sub_cancel_left]
  refine ⟨hterminated, ?_, ?_, hfiles⟩
  · rw [howners, List.length_append, List.length_replicate, h.owned]
    show _ = (getAllTickets (Post.submit s.fs p)).length
    rw [hall, List.length_append]
  · rw [howners]
    show ((getAllTickets (Post.submit s.fs p)).map _).zip _ = _
    rw [hall, List.map_append, List.zip_append (by rw [List.length_map, h.owned]), h.names,
      List.flatMap_append, List.flatMap_singleton, ← List.map_const', List.zip_map', ← hnames,
      List.map_map]
    rfl

/-- What a run of submissions reaches. -/
theorem run (h : fs₀ ticketsCsv = none ∨ fs₀ ticketsCsv = some []) (posts : List Post)
    (hwhole : ∀ p ∈ posts, p.Whole) :
    Filed fs₀ posts (Machine.run Filing.submit ⟨fs₀, []⟩ posts) :=
  Machine.run_history (start h) (fun _ _ _ hs hp => hs.submit hp) posts hwhole

theorem attached (h : Filed fs₀ posts s) :
    s.Attached ↔ ∀ p ∈ posts, ∀ content, p.carried = some content → ∀ name ∈ p.names,
      attachmentAfter fs₀ posts name = some content := by
  have hpairs : s.Attached ↔ ∀ pair ∈ ((getAllTickets s.fs).map
      fun t => t.attachmentName.toStr).zip s.owners,
        ∀ content, pair.2.carried = some content →
          attachmentAfter fs₀ posts pair.1 = some content := by
    rw [List.zip_map_left, List.forall_mem_map]
    simp only [Filing.Attached, h.files]
    rfl
  rw [hpairs, h.names]
  constructor
  · intro hall p hp content hcontent name hname
    exact hall (name, p) (List.mem_flatMap.2 ⟨p, hp, List.mem_map_of_mem hname⟩) content hcontent
  · intro hall pair hpair content hcontent
    rcases List.mem_flatMap.1 hpair with ⟨p, hp, hpair⟩
    rcases List.mem_map.1 hpair with ⟨name, hname, rfl⟩
    exact hall p hp content hcontent name hname

end Filed

/-- **When the attachments stay with their tickets**: for each stored submission that carried a
    file, the last file moved under a name that its record gives is its own. -/
theorem attached_iff {fs : FileSystem} (h0 : fs ticketsCsv = none ∨ fs ticketsCsv = some [])
    {posts : List Post} (hwhole : ∀ p ∈ posts, p.Whole) :
    (Machine.run Filing.submit ⟨fs, []⟩ posts).Attached ↔
      ∀ p ∈ posts, ∀ content, p.carried = some content → ∀ name ∈ p.names,
        attachmentAfter fs posts name = some content :=
  (Filed.run h0 posts hwhole).attached

/-- A form with an attachment. -/
def attaching (contents name content : String) : Post where
  srv := writableServer
  userId := "unittest".toList
  req :=
    { form "Paye" "" "3" "anomalie" "oneLiner 1" contents with
      userfile := some ⟨name.toList, some content.toList⟩ }

/-- The names are found when a separator in the description puts them in the place of the last
    column, and each ticket has a file of its own. -/
theorem attached_screen :
    (Machine.run Filing.submit ⟨fun _ => none, []⟩
      [attaching "see;screen.png" "screen.png" "pixels",
        attaching "see;plan.png" "plan.png" "lines"]).Attached := by
  refine (attached_iff (Or.inl rfl) fun p hp => ?_).2 fun p hp content hcontent => ?_
  · fin_cases hp <;> exact Or.inl rfl
  · fin_cases hp <;> cases hcontent <;> decide +kernel

/-! ## Tickets without separators -/

/-- A ticket whose texts fit names its attachment with a line feed. -/
theorem Post.names_clean {p : Post} (hdisk : p.srv.disk = .ok) (h : p.ticket.Clean) :
    p.names = [attachmentName p.req ++ ['\n']] := by
  have hfits : ∀ s ∈ p.ticket.columns, ';' ∉ s ∧ '\n' ∉ s := columns_setTicketID h (-1)
  have hread := ofLine_record fun s hs => (hfits s hs).1
  rw [names, hdisk]
  simp only
  rw [explode_of_notMem (record_oneLine fun s hs => (hfits s hs).2), List.map_singleton,
    namedBy_eq, hread]
  rfl

/-- **A ticket without separators never finds its attachment**, as long as no file has a line
    feed in its name. -/
theorem not_attached {fs : FileSystem} (h0 : fs ticketsCsv = none ∨ fs ticketsCsv = some [])
    (hdirectory : ∀ name, '\n' ∈ name → fs (inDirectory name) = none) {posts : List Post}
    (hwhole : ∀ p ∈ posts, p.Whole)
    (hnames : ∀ p ∈ posts, '\n' ∉ attachmentName p.req) {p : Post} (hp : p ∈ posts)
    (hdisk : p.srv.disk = .ok) (hclean : p.ticket.Clean) {content : Str}
    (hcarried : p.carried = some content) :
    ¬(Machine.run Filing.submit ⟨fs, []⟩ posts).Attached := by
  rw [(Filed.run h0 posts hwhole).attached]
  intro hall
  have hfound := hall p hp content hcarried (attachmentName p.req ++ ['\n'])
    (by rw [Post.names_clean hdisk hclean]; exact List.mem_singleton_self _)
  have hfeed : '\n' ∈ attachmentName p.req ++ ['\n'] := by simp
  have hmoved : ∀ q ∈ posts.reverse, q.moved (attachmentName p.req ++ ['\n']) = none := by
    intro q hq
    have hq' := hnames q (List.mem_reverse.1 hq)
    unfold Post.moved
    cases huser : q.req.userfile with
    | none => rfl
    | some file =>
      have hname : file.name ≠ attachmentName p.req ++ ['\n'] := by
        intro heq
        have hown : attachmentName q.req = file.name := by rw [attachmentName, huser]
        rw [hown, heq] at hq'
        exact hq' hfeed
      exact if_neg fun hboth => hname hboth.2
  rw [attachmentAfter, List.findSome?_eq_none_iff.2 hmoved, hdirectory _ hfeed] at hfound
  cases hfound

/-- The file of a form is not found under the name that comes back. -/
theorem not_attached_screen :
    ¬ ∀ (fs : FileSystem) (posts : List Post),
      fs ticketsCsv = none ∨ fs ticketsCsv = some [] → (∀ p ∈ posts, p.Whole) →
        (Machine.run Filing.submit ⟨fs, []⟩ posts).Attached := by
  have hmem : attaching "contents" "screen.png" "pixels" ∈
      [attaching "contents" "screen.png" "pixels"] := List.mem_singleton_self _
  have hwhole : ∀ p ∈ [attaching "contents" "screen.png" "pixels"], p.Whole := by
    intro p hp
    rw [List.mem_singleton.1 hp]
    exact Or.inl rfl
  have hnames : ∀ p ∈ [attaching "contents" "screen.png" "pixels"],
      '\n' ∉ attachmentName p.req := by
    intro p hp
    rw [List.mem_singleton.1 hp]
    decide
  intro h
  exact not_attached (Or.inl rfl) (fun _ _ => rfl) hwhole hnames hmem rfl (by decide +kernel) rfl
    (h (fun _ => none) _ (Or.inl rfl) hwhole)

end Yahd
