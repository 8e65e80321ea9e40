/-
  The help desk and its users: the requests of any number of browsers, in any order, each
  with the session its cookie names, on the same files.

  A browser's session holds the first login it has presented since its last logout
  (`session_own`), and the store only grows, by lines whose author is the login of the session
  that the request came with (`store_grows`).
-/
import Cnam.Lib.Interleave
import Cnam.Yahd.Pages

namespace Yahd

open Php TicketDAO AppService EditTicketAction

variable {β : Type} [DecidableEq β]

/-- The files, and the `userId` of the session of each browser. -/
abbrev Host (β : Type) := Interleave.World β FileSystem (Option Str)

/-- Nobody has logged in yet. -/
def Host.start (fs : FileSystem) : Host β := ⟨fs, fun _ => none⟩

/-- What one browser sees of the host. -/
def Host.site (host : Host β) (browser : β) : Site := ⟨host.shared, host.own browser⟩

/-- One request of one browser. -/
def Host.serve (ctl : LoginController) : Host β → β × Visit → Host β :=
  Interleave.step fun fs session v =>
    ((serveStep ctl ⟨fs, session⟩ v).fs, (serveStep ctl ⟨fs, session⟩ v).session)

/-- The host after the requests. -/
def Host.run (ctl : LoginController) (fs : FileSystem) (requests : List (β × Visit)) : Host β :=
  Machine.run (Host.serve ctl) (Host.start fs) requests

section
variable {ctl : LoginController}

theorem Host.run_snoc (fs : FileSystem) (requests : List (β × Visit)) (r : β × Visit) :
    Host.run ctl fs (requests ++ [r]) = (Host.run ctl fs requests).serve ctl r :=
  Machine.run_snoc ..

variable (ctl) in
theorem Host.serve_site (host : Host β) (browser : β) (v : Visit) :
    (host.serve ctl (browser, v)).site browser = serveStep ctl (host.site browser) v := by
  have hown : (host.serve ctl (browser, v)).own browser =
      (serveStep ctl (host.site browser) v).session := Interleave.step_own_self ..
  rw [Host.site, hown]
  rfl

theorem Host.serve_other (host : Host β) {browser : β} {r : β × Visit} (h : r.1 ≠ browser) :
    (host.serve ctl r).own browser = host.own browser := Interleave.step_own_ne host h

end

/-- The request comes from this browser, and does `P`. -/
def By (browser : β) (P : Visit → Prop) (r : β × Visit) : Prop := r.1 = browser ∧ P r.2

/-- The session of one browser is a latch among the requests of all. -/
theorem Host.latch (ctl : LoginController) (browser : β) :
    Machine.Latch (Host.serve ctl) (fun host => host.own browser)
      (fun r login => By browser (·.Presents ctl login) r) (By browser Visit.LogsOut) where
  clear := by
    rintro host ⟨_, v⟩ ⟨rfl, hout⟩
    exact (congrArg Site.session (Host.serve_site ctl host _ v)).trans (serve_ends hout)
  keep := by
    rintro host ⟨browser', v⟩ login hout hheld
    by_cases hb : browser' = browser
    · subst hb
      refine (congrArg Site.session (Host.serve_site ctl host _ v)).trans (serve_keeps hheld ?_)
      exact fun hlog => hout ⟨rfl, hlog⟩
    · exact (Host.serve_other host hb).trans hheld
  set := by
    rintro host ⟨browser', v⟩ login hout hheld
    by_cases hb : browser' = browser
    · subst hb
      have hsession : (host.serve ctl (browser', v)).own browser' =
          (serveStep ctl (host.site browser') v).session :=
        congrArg Site.session (Host.serve_site ctl host _ v)
      have hstarts : (serveStep ctl (host.site browser') v).session = some login ↔
          v.Presents ctl login := serve_starts hheld fun hlog => hout ⟨rfl, hlog⟩
      rw [hsession, hstarts]
      exact (and_iff_right rfl).symm
    · rw [Host.serve_other host hb, hheld]
      exact iff_of_false (by simp) fun hpresents => hb hpresents.1

/-- **A session holds the first login** that its browser has presented, and the controller has
    accepted, since its last logout; what the other browsers do in between, and the logins the
    browser presents while the session holds one, change nothing. -/
theorem session_own (ctl : LoginController) (fs : FileSystem) (requests : List (β × Visit))
    (browser : β) (login : Str) :
    (Host.run ctl fs requests).own browser = some login ↔
      Machine.FirstSet (fun r login => By browser (·.Presents ctl login) r)
        (By browser Visit.LogsOut) requests login :=
  (Host.latch ctl browser).run_some rfl requests login

/-! ## Who is shown something -/

section
variable {ctl : LoginController} {fs : FileSystem} {requests : List (β × Visit)} {browser : β}
  {login : Str}

/-- The session of a browser after a request, of whatever browser. -/
theorem Host.serve_session (host : Host β) (r : β × Visit)
    (h : (host.serve ctl r).own browser = some login) :
    ¬ By browser Visit.LogsOut r ∧
      (host.own browser = some login ∨ By browser (·.Presents ctl login) r) := by
  obtain ⟨browser', v⟩ := r
  by_cases hb : browser' = browser
  · subst hb
    have hsite := congrArg Site.session (Host.serve_site ctl host browser' v)
    obtain ⟨hout, hin⟩ := Yahd.serve_session (hsite.symm.trans h)
    exact ⟨fun hlog => hout hlog.2, hin.imp id fun hpresents => ⟨rfl, hpresents⟩⟩
  · rw [Host.serve_other host hb] at h
    exact ⟨fun hlog => hb hlog.1, Or.inl h⟩

/-- A session goes back to a login that its browser presented, and has not logged out of. -/
theorem session_from_login (h : (Host.run ctl fs requests).own browser = some login) :
    ∃ (j : ℕ) (hj : j < requests.length), By browser (·.Presents ctl login) requests[j] ∧
      ∀ (k : ℕ) (hk : k < requests.length), j < k → ¬ By browser Visit.LogsOut requests[k] := by
  obtain ⟨j, hj, hpresents, -, hsince⟩ := Machine.run_since
    (P := fun host : Host β => host.own browser = some login)
    (E := By browser (·.Presents ctl login)) (K := By browser Visit.LogsOut)
    (fun host r => Host.serve_session host r) (s := Host.start fs)
    (by simp [Host.start]) requests h
  exact ⟨j, hj, hpresents, hsince⟩

/-- A request that presented the login, from the browser of the last one, and no logout of this
    browser since. -/
def LoggedIn (ctl : LoginController) (requests : List (β × Visit)) (i : ℕ) (login : Str) : Prop :=
  ∃ (hi : i < requests.length) (j : ℕ) (hj : j < i),
    By requests[i].1 (·.Presents ctl login) requests[j] ∧
    ∀ (k : ℕ) (hk : k < requests.length), j < k → k ≤ i →
      ¬ By requests[i].1 Visit.LogsOut requests[k]

theorem loggedIn_of_session {i : ℕ} (hi : i < requests.length)
    (hsession : (Host.run ctl fs (requests.take i)).own requests[i].1 = some login)
    (hout : ¬ requests[i].2.LogsOut) : LoggedIn ctl requests i login := by
  obtain ⟨j, hj, hpresents, hsince⟩ := session_from_login hsession
  rw [List.length_take] at hj
  refine ⟨hi, j, by omega, by simpa using hpresents, fun k hk hjk hki => ?_⟩
  rcases Nat.lt_or_eq_of_le hki with hki | rfl
  · have hk' := hsince k (by rw [List.length_take]; omega) hjk
    simpa using hk'
  · exact fun hlog => hout hlog.2

end

/-- What the browser of a request gets. -/
def Host.answer (ctl : LoginController) (host : Host β) (r : β × Visit) : Answer :=
  (Yahd.serve ctl (host.site r.1) r.2).2

/-- **Nothing is shown or written for another's login.** In any interleaving of the requests of
    any browsers, one that shows something protected or writes a file comes from a browser
    that has itself presented an accepted login and not logged out since. -/
theorem shown_to_own_login (ctl : LoginController) (fs : FileSystem)
    (requests : List (β × Visit)) {i : ℕ} (hi : i < requests.length)
    (h : ((Host.run ctl fs (requests.take i)).answer ctl requests[i]).Shows ∨
      (Host.run ctl fs (requests.take (i + 1))).shared ≠
        (Host.run ctl fs (requests.take i)).shared) :
    ∃ login, LoggedIn ctl requests i login ∧
      (Host.run ctl fs (requests.take i)).own requests[i].1 = some login := by
  have hnext : Host.run ctl fs (requests.take (i + 1)) =
      (Host.run ctl fs (requests.take i)).serve ctl requests[i] := by
    rw [List.take_succ_eq_append_getElem hi, Host.run_snoc]
  rw [hnext] at h
  obtain ⟨hout, login, hlogin⟩ := serve_shows h
  exact ⟨login, loggedIn_of_session hi hlogin hout, hlogin⟩

/-- Two browsers: the first one signs in, the other one and then the first one look at the
    tickets. -/
def twoBrowsers : List (Bool × Visit) :=
  [(true, signIn), (false, look .showAllTickets), (true, look .showAllTickets)]

theorem shown_to_own_login_two :
    ∃ login, LoggedIn acceptAllExceptZZZLoginController twoBrowsers 2 login ∧
      (Host.run acceptAllExceptZZZLoginController (fun _ => none) (twoBrowsers.take 2)).own
        true = some login := by
  have hshows : ((Host.run acceptAllExceptZZZLoginController (fun _ => none)
      (twoBrowsers.take 2)).answer acceptAllExceptZZZLoginController twoBrowsers[2]).Shows :=
    trivial
  exact shown_to_own_login acceptAllExceptZZZLoginController (fun _ => none) twoBrowsers (i := 2)
    (by decide) (Or.inl hshows)

/-! ## What becomes of the store -/

/-- The text of the store; a file that does not exist has none. -/
def storeText (fs : FileSystem) : Str := (fs ticketsCsv).getD []

/-- What a submission writes to the store: the line of its ticket, or what the disk takes of
    it. -/
theorem editTicketAction_appends (srv : Server) (fs : FileSystem) (userId : Str) (req : Request) :
    ∃ text, storeText (editTicketAction srv fs (some userId) req).1 = storeText fs ++ text ∧
      text <+: record ((ticket srv.today userId req).setTicketID
        (.int (TicketDAO.new fs).nextTicketID)) ++ ['\n'] := by
  have hstore := editTicketAction_store srv fs userId req
  have hid := initTicketID_new (TicketDAO.new fs) (ticket_isNew srv userId req)
  rw [storeText, hstore, saveTicket_files]
  rcases hdisk : srv.disk with _ | _ | n
  · refine ⟨_, ?_, List.prefix_refl _⟩
    rw [← hid]
    exact congrArg (Option.getD · []) (save_ok_file fs (TicketDAO.new fs) _)
  · exact ⟨[], (List.append_nil _).symm, List.nil_prefix⟩
  · refine ⟨_, ?_, List.take_prefix n _⟩
    rw [← hid]
    simp [save, fopenAppend, fputs, TicketDAO.new, storeText]

/-- The tickets of the whole lines of a store remain when text is appended. -/
theorem whole_lines_remain {fs fs' : FileSystem} {text : Str}
    (h : storeText fs' = storeText fs ++ text) :
    ∃ (ls : List Line) (rest : Str), storeText fs = contents ls ++ rest ∧ '\n' ∉ rest ∧
      (ls.map fun l => ofLine l.bytes) <+: getAllTickets fs' := by
  obtain ⟨ls, rest, hls, hrest⟩ := exists_lines_rest (storeText fs)
  obtain ⟨ms, rest', hms, hrest'⟩ := exists_lines_rest (rest ++ text)
  refine ⟨ls, rest, hls, hrest, ?_⟩
  have hwhole : storeText fs' = contents (ls ++ ms) ++ rest' := by
    rw [h, hls, List.append_assoc, hms, contents_append, List.append_assoc]
  have hall : getAllTickets fs' = (readLines (storeText fs')).map ofLine := findAll_eq fs' _
  rw [hall, hwhole, readLines_contents _ hrest', List.map_append, List.map_append, List.map_append,
    List.append_assoc, List.map_map, List.map_map]
  exact List.prefix_append _ _

section
variable (ctl : LoginController)

/-- **One request** appends to the store, within a session only. -/
theorem Host.serve_appends (host : Host β) (r : β × Visit) :
    ∃ text, storeText (host.serve ctl r).shared = storeText host.shared ++ text ∧
      (text ≠ [] → ¬ r.2.LogsOut ∧ ∃ login, host.own r.1 = some login ∧
        text <+: record ((ticket r.2.srv.today login r.2.req).setTicketID
          (.int (TicketDAO.new host.shared).nextTicketID)) ++ ['\n']) := by
  obtain ⟨browser, ⟨script, req, srv⟩⟩ := r
  cases script with
  | page page =>
    refine ⟨[], ?_, fun hne => absurd rfl hne⟩
    rw [List.append_nil]
    rfl
  | editTicketAction =>
    rcases hsession : host.own browser with _ | login
    · refine ⟨[], ?_, fun hne => absurd rfl hne⟩
      have hsame : (host.serve ctl (browser, ⟨.editTicketAction, req, srv⟩)).shared =
          (editTicketAction srv host.shared (host.own browser) req).1 := rfl
      rw [hsame, hsession, List.append_nil]
      rfl
    · obtain ⟨text, htext, hprefix⟩ := editTicketAction_appends srv host.shared login req
      refine ⟨text, ?_, fun _ => ⟨fun hlog => hlog.1 rfl, login, rfl, hprefix⟩⟩
      rw [← htext, ← hsession]
      rfl

/-- The store after more requests is an extension. -/
theorem Host.run_appends (fs : FileSystem) (before later : List (β × Visit)) :
    ∃ text, storeText (Host.run ctl fs (before ++ later)).shared =
      storeText (Host.run ctl fs before).shared ++ text := by
  induction later using List.reverseRecOn with
  | nil => exact ⟨[], by simp⟩
  | append_singleton later r ih =>
    obtain ⟨text, htext⟩ := ih
    obtain ⟨text', htext', -⟩ :=
      Host.serve_appends ctl (Host.run ctl fs (before ++ later)) r
    refine ⟨text ++ text', ?_⟩
    rw [← List.append_assoc, Host.run_snoc, htext', htext, List.append_assoc]

end

/-- **The store only grows**, whatever the browsers do, in whatever order, and whatever the disk
    takes: the tickets of whole lines remain, and what a request adds is text of the line of a
    ticket whose author is the login of its browser's session, which the browser has presented
    itself and not logged out of since. -/
theorem store_grows (ctl : LoginController) (fs : FileSystem) (requests : List (β × Visit)) :
    (∀ i, ∃ (ls : List Line) (rest : Str),
      storeText (Host.run ctl fs (requests.take i)).shared = contents ls ++ rest ∧ '\n' ∉ rest ∧
        (ls.map fun l => ofLine l.bytes) <+: getAllTickets (Host.run ctl fs requests).shared) ∧
    ∀ (i : ℕ) (hi : i < requests.length), ∃ text,
      storeText (Host.run ctl fs (requests.take (i + 1))).shared =
        storeText (Host.run ctl fs (requests.take i)).shared ++ text ∧
      (text ≠ [] → ∃ login, LoggedIn ctl requests i login ∧
        (Host.run ctl fs (requests.take i)).own requests[i].1 = some login ∧
        text <+: record ((ticket requests[i].2.srv.today login requests[i].2.req).setTicketID
          (.int (TicketDAO.new (Host.run ctl fs (requests.take i)).shared).nextTicketID)) ++
            ['\n']) := by
  constructor
  · intro i
    obtain ⟨text, htext⟩ := Host.run_appends ctl fs (requests.take i) (requests.drop i)
    rw [List.take_append_drop] at htext
    exact whole_lines_remain htext
  · intro i hi
    rw [List.take_succ_eq_append_getElem hi, Host.run_snoc]
    obtain ⟨text, htext, hauthor⟩ :=
      Host.serve_appends ctl (Host.run ctl fs (requests.take i)) requests[i]
    refine ⟨text, htext, fun hne => ?_⟩
    obtain ⟨hout, login, hlogin, hprefix⟩ := hauthor hne
    exact ⟨login, loggedIn_of_session hi hlogin hout, hlogin, hprefix⟩

end Yahd
