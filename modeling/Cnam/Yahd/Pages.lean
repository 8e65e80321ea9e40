/-
  The pages behind the login (`index.php`, `editTicket.php`, `showAllTickets.php`,
  `testLogin1.php`), `editTicketAction.php` beside them, and the requests of one session.

  Whatever the requests are, a page that shows something, or a ticket that is stored, goes
  back to a login that the controller accepted (`shown_after_login`).
-/
import Cnam.Yahd.EditTicketAction
import Cnam.Yahd.LoginAccess

namespace Yahd

open Php AppService

/-! ## The list of applications of the form -/

/-- `getAppListFromFile($filePath)`; the script dies when the file cannot be opened. -/
def getAppListFromFile (fs : FileSystem) (filePath : Str) : Except Str (List Str) :=
  match fs filePath with
  | some fd => .ok (whileNotFeof (fun read result =>
      let line := trim (read.getD [])
      if truthy line then result ++ [trim (column (explode ';' line) 1).toStr] else result) fd [])
  | none =>
    .error ("Ouverture du fichier <b>".toList ++ filePath ++ "</b> impossible.".toList)

/-- `getAppList`. -/
def getAppList (fs : FileSystem) : Except Str (List Str) := getAppListFromFile fs "app.csv".toList

/-- `getAllApplisAsOptions`. -/
def getAllApplisAsOptions (fs : FileSystem) : Except Str Str :=
  (getAppList fs).map fun apps => apps.foldl
    (fun result app => result ++ "<option>".toList ++ app ++ "</option>\n".toList)
    "<option value=\"-1\">--Autre--</option>".toList

/-! ## The pages -/

namespace ShowAllTickets

/-- The colour of each priority, a copy of the one of `editTicketAction.php`. -/
def priorityColorMap : Arr Str :=
  [(.int 5, "red".toList),
   (.int 4, "orange".toList),
   (.int 3, "yellow".toList),
   (.int 2, "blue".toList),
   (.int 1, "green".toList)]

/-- The class of the cells of a record. -/
def tableRecordClass (priority : Val) : Str :=
  "tab_bg_".toList ++ (priorityColorMap.get? priority).getD []

/-- The rows that the loop prints. -/
def rows (fs : FileSystem) : List Str :=
  (getAllTickets fs).map fun ticket =>
    printTicketAsTableRow ticket (tableRecordClass ticket.priority)

end ShowAllTickets

/-- The pages that include `loginAccess.inc.php`. -/
inductive Page where
  | index
  | editTicket
  | showAllTickets
  | testLogin1
deriving DecidableEq

/-- What a page shows once the user has got in. -/
inductive Content where
  | index
  | editTicket (allApplisAsOptions : Str)
  /-- the list of applications could not be read -/
  | died (message : Str)
  | showAllTickets (rows : List Str)
  | testLogin1 (userId : Str)

/-- The rest of a page, after the gate. -/
def Page.content (fs : FileSystem) (userId : Str) : Page → Content
  | .index => .index
  | .editTicket => match getAllApplisAsOptions fs with
    | .ok options => .editTicket options
    | .error message => .died message
  | .showAllTickets => .showAllTickets (ShowAllTickets.rows fs)
  | .testLogin1 => .testLogin1 userId

/-! ## The requests of a session -/

/-- The scripts that are requested. -/
inductive Script where
  | page (page : Page)
  | editTicketAction
deriving DecidableEq

/-- A request to a script, and what the server brings to it. -/
structure Visit where
  script : Script
  req : Request
  srv : Server

/-- The files, and the `userId` of the stored session. -/
structure Site where
  fs : FileSystem
  session : Option Str

/-- What the browser gets. -/
inductive Answer where
  | login (page : LoginPage)
  | content (content : Content)
  | action (reply : EditTicketAction.Reply)

/-- One request.  Only `editTicketAction.php` writes files, and it neither opens nor closes a
    session. -/
def serve (ctl : LoginController) (site : Site) (v : Visit) : Site × Answer :=
  match v.script with
  | .page page =>
    let (session, access) := loginAccess ctl site.session v.req
    (⟨site.fs, session⟩, match access with
      | .ok userId => .content (page.content site.fs userId)
      | .error loginPage => .login loginPage)
  | .editTicketAction =>
    let (fs, reply) := editTicketAction v.srv site.fs site.session v.req
    (⟨fs, site.session⟩, .action reply)

/-- The site after a visit. -/
def serveStep (ctl : LoginController) (site : Site) (v : Visit) : Site := (serve ctl site v).1

/-- Something is shown that only users may see. -/
def Answer.Shows : Answer → Prop
  | .login _ => False
  | .content _ => True
  | .action (.received _ _ _) => True
  | .action _ => False

/-- A request to a protected page with `logout == 1`. -/
def Visit.LogsOut (v : Visit) : Prop := v.script ≠ .editTicketAction ∧ logsOut v.req = true

/-- A request to a protected page with a non-empty login and a password that the controller
    accepts. -/
def Visit.Presents (ctl : LoginController) (v : Visit) (login : Str) : Prop :=
  v.script ≠ .editTicketAction ∧ Yahd.Presents ctl v.req login

section
variable {ctl : LoginController} {site : Site} {v : Visit}

/-- The action takes place only within a session, and changes nothing without one. -/
theorem editTicketAction_needs_session {srv : Server} {fs : FileSystem} {userId : Option Str}
    {req : Request} (h : (Answer.action (editTicketAction srv fs userId req).2).Shows ∨
      (editTicketAction srv fs userId req).1 ≠ fs) : ∃ l, userId = some l := by
  cases userId with
  | some l => exact ⟨l, rfl⟩
  | none =>
    rcases h with h | h
    · exact h.elim
    · exact absurd rfl h

/-- **The gate of a request**: it shows something or writes a file only within a session that
    it does not close. -/
theorem serve_shows (h : (serve ctl site v).2.Shows ∨ (serve ctl site v).1.fs ≠ site.fs) :
    ¬ v.LogsOut ∧ ∃ l, site.session = some l := by
  obtain ⟨script, req, srv⟩ := v
  cases script with
  | page page =>
    have haccess : ∃ l, (loginAccess ctl site.session req).2 = .ok l := by
      rcases h with h | h
      · simp only [serve] at h
        cases hacc : (loginAccess ctl site.session req).2 with
        | ok l => exact ⟨l, rfl⟩
        | error loginPage => rw [hacc] at h; exact h.elim
      · exact absurd rfl h
    obtain ⟨l, hl⟩ := haccess
    obtain ⟨hsession, hout⟩ := loginAccess_ok.1 hl
    exact ⟨fun hlog => absurd hlog.2 (by simp [hout]), l, hsession⟩
  | editTicketAction =>
    exact ⟨fun hlog => hlog.1 rfl, editTicketAction_needs_session h⟩

/-- **The session after a request** is the one there was or that of a presented login, and the
    request does not log out. -/
theorem serve_session {l : Str} (h : (serveStep ctl site v).session = some l) :
    ¬ v.LogsOut ∧ (site.session = some l ∨ v.Presents ctl l) := by
  obtain ⟨script, req, srv⟩ := v
  cases script with
  | page page =>
    obtain ⟨hout, hsession⟩ := loginAccess_session h
    refine ⟨fun hlog => absurd hlog.2 (by simp [hout]), ?_⟩
    rcases hsession with hsession | hlogin
    · exact Or.inl hsession
    · exact Or.inr ⟨by simp, hlogin⟩
  | editTicketAction => exact ⟨fun hlog => hlog.1 rfl, Or.inl h⟩

theorem serve_keeps {l : Str} (h : site.session = some l) (hout : ¬ v.LogsOut) :
    (serveStep ctl site v).session = some l := by
  obtain ⟨script, req, srv⟩ := v
  cases script with
  | page page =>
    have hnot : logsOut req = false := by
      by_contra hlog
      exact hout ⟨by simp, by simpa using hlog⟩
    show (loginAccess ctl site.session req).1 = some l
    rw [h]
    exact loginAccess_keeps hnot
  | editTicketAction => exact h

theorem serve_starts {l : Str} (h : site.session = none) (hout : ¬ v.LogsOut) :
    (serveStep ctl site v).session = some l ↔ v.Presents ctl l := by
  obtain ⟨script, req, srv⟩ := v
  cases script with
  | page page =>
    have hnot : logsOut req = false := by
      by_contra hlog
      exact hout ⟨by simp, by simpa using hlog⟩
    show (loginAccess ctl site.session req).1 = some l ↔ _
    rw [h, loginAccess_starts hnot]
    exact (and_iff_right (by simp)).symm
  | editTicketAction =>
    refine iff_of_false ?_ fun hpresents => hpresents.1 rfl
    show ¬site.session = some l
    simp [h]

theorem serve_ends (hout : v.LogsOut) : (serveStep ctl site v).session = none := by
  obtain ⟨script, req, srv⟩ := v
  cases script with
  | page page => exact loginAccess_ends hout.2
  | editTicketAction => exact absurd rfl hout.1

end

/-- **Nothing is shown or stored without a login.**  If a request of a session that starts
    logged out shows something protected or writes a file, then an earlier request presented
    an accepted login, no request has logged out since, and the `userId` of the session is
    that login from then on until a request logs out. -/
theorem shown_after_login (ctl : LoginController) (fs : FileSystem) (visits : List Visit) {i : ℕ}
    (hi : i < visits.length)
    (h : (serve ctl (Machine.run (serveStep ctl) ⟨fs, none⟩ (visits.take i)) visits[i]).2.Shows ∨
      (serve ctl (Machine.run (serveStep ctl) ⟨fs, none⟩ (visits.take i)) visits[i]).1.fs ≠
        (Machine.run (serveStep ctl) ⟨fs, none⟩ (visits.take i)).fs) :
    ∃ (j : ℕ) (hj : j < i) (login : Str),
      visits[j].Presents ctl login ∧
      (∀ (k : ℕ) (hk : k < visits.length), j < k → k ≤ i → ¬ visits[k].LogsOut) ∧
      ∀ m ≤ visits.length, j < m →
        (∀ (k : ℕ) (hk : k < visits.length), j < k → k < m → ¬ visits[k].LogsOut) →
        (Machine.run (serveStep ctl) ⟨fs, none⟩ (visits.take m)).session = some login := by
  obtain ⟨hout, login, hlogin⟩ := serve_shows h
  obtain ⟨j, hj, hpresents, hset, hsince⟩ := Machine.run_since
    (P := fun site : Site => site.session = some login) (E := fun v => v.Presents ctl login)
    (K := Visit.LogsOut) (fun site v => serve_session) (by simp) _ hlogin
  rw [List.length_take] at hj
  rw [List.take_take, min_eq_left (by omega)] at hset
  refine ⟨j, by omega, login, by simpa using hpresents, ?_, ?_⟩
  · intro k hk hjk hki
    by_cases hlast : k = i
    · subst hlast
      exact hout
    · have hk' := hsince k (by rw [List.length_take]; omega) hjk
      simpa using hk'
  · intro m hm hjm hquiet
    have hsplit := List.take_append_drop (j + 1) (visits.take m)
    rw [List.take_take, min_eq_left (by omega)] at hsplit
    rw [← hsplit, Machine.run_append]
    refine Machine.run_until (P := fun site : Site => site.session = some login)
      (K := Visit.LogsOut) (fun site v => serve_keeps) hset ?_
    intro v hv
    obtain ⟨k, hk, rfl⟩ := List.getElem_of_mem hv
    rw [List.length_drop, List.length_take] at hk
    rw [List.getElem_drop, List.getElem_take]
    exact hquiet _ (by omega) (by omega) (by omega)

/-- The login form of the index page, sent. -/
def signIn : Visit where
  script := .page .index
  req :=
    { get := []
      post := [(.str "login".toList, "unittest".toList), (.str "password".toList, "u".toList)]
      userfile := none
      requestURI := "/tp4/index.php".toList
      phpSelf := "/tp4/index.php".toList
      remoteAddr := "163.173.1.1".toList }
  srv := writableServer

/-- The same session looks at a page. -/
def look (page : Page) : Visit :=
  { signIn with script := .page page, req := { signIn.req with post := [] } }

theorem shown_after_login_list :
    ∃ login : Str, signIn.Presents acceptAllExceptZZZLoginController login ∧
      (Machine.run (serveStep acceptAllExceptZZZLoginController) ⟨fun _ => none, none⟩
        [signIn]).session = some login := by
  have hshows : (serve acceptAllExceptZZZLoginController
      (Machine.run (serveStep acceptAllExceptZZZLoginController) ⟨fun _ => none, none⟩ [signIn])
      (look .showAllTickets)).2.Shows := trivial
  obtain ⟨j, hj, login, hpresents, -, hsession⟩ :=
    shown_after_login acceptAllExceptZZZLoginController (fun _ => none)
      [signIn, look .showAllTickets] (i := 1) (by decide) (Or.inl hshows)
  obtain rfl : j = 0 := by omega
  exact ⟨login, hpresents, hsession 1 (by decide) (by decide) fun k _ hk hk' => by omega⟩

end Yahd
