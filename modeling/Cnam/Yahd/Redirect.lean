/-
  Where a login sends the browser (`loginControl.php`).

  The redirection starts from the `nextURL` of the request, as the form proposes it, and
  carries the POST parameters on.
-/
import Cnam.Yahd.LoginAccess
import Cnam.Yahd.UrlArgs

namespace Yahd

open Php Assoc

/-- The URL that the redirection starts from. -/
def baseURL (req : Request) : Str :=
  getHttpParameter req "nextURL" (getCurrentScriptFullPath req)

section
variable {ctl : LoginController} {session : Option Str} {req : Request} {login : Str}

/-- A login that is accepted, and what the page makes of it. -/
theorem loginControl_presents (hlogin : Presents ctl req login) (userId : Option Str)
    (nextURL : Str) :
    ∃ message form, loginControl ctl userId req nextURL =
      (some login, ⟨if getHttpParameter req "nextURL" nextURL = [] then .welcome message
        else .redirect
          (appendPostParamsToURL req (getHttpParameter req "nextURL" nextURL) excludeNames),
        form⟩) := by
  rcases hlogin with ⟨hparam, hne, hvalid, hpass⟩
  unfold loginControl
  simp only [hparam, Option.getD_some, looseEq_nil, hne, hvalid, hpass, decide_false,
    Bool.not_false, Bool.not_true, Bool.false_eq_true, if_true, if_false, decide_eq_true_eq]
  by_cases hnext : getHttpParameter req "nextURL" nextURL = []
  · exact ⟨_, _, by rw [if_pos hnext, if_pos hnext]⟩
  · exact ⟨[], _, by rw [if_neg hnext, if_neg hnext]⟩

/-- Without a session, or when it is given up, an accepted login leads to the redirection. -/
theorem loginAccess_presents (hlogin : Presents ctl req login)
    (hsession : session = none ∨ logsOut req = true) :
    ∃ message form, (loginAccess ctl session req).2 =
      .error ⟨if baseURL req = [] then .welcome message
        else .redirect (appendPostParamsToURL req (baseURL req) excludeNames), form⟩ := by
  rcases loginControl_presents hlogin session (getCurrentScriptFullPath req)
    with ⟨message, form, hpage⟩
  refine ⟨message, form, ?_⟩
  unfold loginAccess
  rcases hsession with rfl | hout
  · simp only [hpage]
    rfl
  · simp only [hout, hpage]
    cases session <;> rfl

end

/-! ## The query of the redirection -/

/-- The text `name=value` of a parameter, cut at its '&', has a piece with one of the names that
    are not carried on. -/
def Smuggles (e : Str × Str) : Prop := ∃ p ∈ explode '&' (argText e), argName p ∈ excludeNames

/-- A parameter without separators is the one piece it looks like. -/
theorem not_smuggles {e : Str × Str} (h : ArgPlain e) (hname : e.1 ∉ excludeNames) :
    ¬Smuggles e := by
  rintro ⟨p, hp, hmem⟩
  rw [explode_of_notMem (notMem_argText h), List.mem_singleton] at hp
  rw [hp, argName_argText h.1] at hmem
  exact hname hmem

theorem arg?_argName {arg : Str} {e : Str × Str} (h : arg? arg = some e) : argName arg = e.1 := by
  rcases arg?_eq_some h with ⟨rfl, hname⟩
  exact argName_argText hname e.2

/-- The names of the arguments of a query are names of its pieces. -/
theorem exists_piece_of_mem_args {query : Str} {e : Str × Str} (h : e ∈ args query) :
    ∃ p ∈ explode '&' query, argName p = e.1 := by
  rcases List.mem_filterMap.1 h with ⟨p, hp, he⟩
  exact ⟨p, hp, arg?_argName he⟩

/-- One appended text brings no name that neither the URL nor the text has. -/
theorem argName_queryOf_appendURLArg {URL text p : Str}
    (hp : p ∈ explode '&' (queryOf (appendURLArg URL text))) :
    argName p = [] ∨ (∃ q ∈ explode '&' (queryOf URL), argName q = argName p) ∨
      ∃ q ∈ explode '&' text, argName q = argName p := by
  rcases queryOf_appendURLArg URL text with ⟨query, hquery, hargs⟩
  rw [hquery] at hp
  rcases mem_explode_removeDuplicateURLArgs hp with rfl | ⟨e, he, rfl⟩
  · exact Or.inl rfl
  · have hname : argName (argText e) = e.1 := argName_argText (argPlain_of_mem_args he).1 e.2
    rw [hname]
    rw [hargs, List.mem_append] at he
    rcases he with he | he
    · exact Or.inr (Or.inl (exists_piece_of_mem_args he))
    · exact Or.inr (Or.inr (exists_piece_of_mem_args he))

/-- The excluded names stay out of the query, one parameter after the other. -/
theorem argName_queryOf_foldl {es : List (Str × Str)} (hes : ∀ e ∈ es, ¬Smuggles e) {URL : Str}
    (hURL : ∀ p ∈ explode '&' (queryOf URL), argName p ∉ excludeNames) :
    ∀ p ∈ explode '&' (queryOf (es.foldl (fun URL e => appendURLArg URL (argText e)) URL)),
      argName p ∉ excludeNames := by
  induction es generalizing URL with
  | nil => exact hURL
  | cons e es ih =>
    refine ih (fun e' he' => hes e' (List.mem_cons_of_mem _ he')) fun p hp hmem => ?_
    rcases argName_queryOf_appendURLArg hp with hname | ⟨q, hq, hname⟩ | ⟨q, hq, hname⟩
    · rw [hname] at hmem
      exact absurd hmem (by decide)
    · rw [← hname] at hmem
      exact hURL q hq hmem
    · rw [← hname] at hmem
      exact hes e List.mem_cons_self ⟨q, hq, hmem⟩

/-! ## Where the login leads -/

/-- **The redirection is confined** to the path of `nextURL`, and to that of the requested script
    when there is no such parameter.  The names of the login come into its query only from that of
    `nextURL` and from parameters with separators in them: the search keeps them out. -/
theorem redirect_confined {ctl : LoginController} {session : Option Str} {req : Request}
    {login : Str} (hlogin : Presents ctl req login)
    (hsession : session = none ∨ logsOut req = true) :
    ∃ page, (loginAccess ctl session req).2 = .error page ∧
      ∀ url, page.result = .redirect url →
        pathOf url = pathOf (baseURL req) ∧
        (req.param? "nextURL" = none → pathOf url = getCurrentScriptFullPath req) ∧
        ((∀ p ∈ explode '&' (queryOf (baseURL req)), argName p ∉ excludeNames) →
          (∀ e ∈ keptParams req excludeNames, ArgPlain e) →
          ∀ p ∈ explode '&' (queryOf url), argName p ∉ excludeNames) := by
  rcases loginAccess_presents hlogin hsession with ⟨message, form, hpage⟩
  refine ⟨_, hpage, fun url hurl => ?_⟩
  by_cases hbase : baseURL req = []
  · simp [hbase] at hurl
  · simp only [hbase, if_false, LoginResult.redirect.injEq] at hurl
    subst hurl
    refine ⟨pathOf_appendPostParamsToURL .., fun hnone => ?_, fun hquery hkept => ?_⟩
    · rw [pathOf_appendPostParamsToURL, baseURL, getHttpParameter, hnone, Option.getD_none,
        getCurrentScriptFullPath_eq]
      exact pathOf_of_notMem fun hmem => by simpa using List.mem_takeWhile_imp hmem
    · rw [appendPostParamsToURL_eq]
      refine argName_queryOf_foldl (fun e he => ?_) hquery
      exact not_smuggles (hkept e he) (notMem_excludeNames_of_mem_keptParams he)

/-- A login that goes back to a page, with a parameter of its own. -/
def loginRequest : Request where
  get := []
  post := [(.str "nextURL".toList, "/yahd/index.php?page=2".toList), (.str "x".toList, "1".toList),
    (.str "login".toList, "dupont".toList), (.str "password".toList, "secret".toList)]
  userfile := none
  requestURI := "/yahd/index.php".toList
  phpSelf := "/yahd/index.php".toList
  remoteAddr := "127.0.0.1".toList

theorem presents_loginRequest :
    Presents acceptAllExceptZZZLoginController loginRequest "dupont".toList := by
  unfold Presents
  decide +kernel

theorem keptParams_loginRequest : ∀ e ∈ keptParams loginRequest excludeNames, ArgPlain e := by
  unfold ArgPlain
  decide +kernel

/-- The login goes back to the page it came from, without the name and the password. -/
theorem redirect_confined_loginRequest :
    ∃ page, (loginAccess acceptAllExceptZZZLoginController none loginRequest).2 = .error page ∧
      ∀ url, page.result = .redirect url → pathOf url = "/yahd/index.php".toList ∧
        ∀ p ∈ explode '&' (queryOf url), argName p ∉ excludeNames := by
  rcases redirect_confined presents_loginRequest (Or.inl rfl) with ⟨page, hpage, hurl⟩
  refine ⟨page, hpage, fun url hredirect => ?_⟩
  rcases hurl url hredirect with ⟨hpath, -, hquery⟩
  exact ⟨hpath.trans (by decide +kernel), hquery (by decide +kernel) keptParams_loginRequest⟩

/-- A login with a `nextURL` of another site and a parameter with a '&'. -/
def forgedRequest : Request :=
  { loginRequest with
    post := [(.str "nextURL".toList, "http://ailleurs/index.php".toList),
      (.str "x".toList, "1&login=martin".toList), (.str "login".toList, "dupont".toList)] }

/-- It is sent there, and the parameter becomes a login. -/
theorem redirect_forgedRequest :
    ∃ login page url, Presents acceptAllExceptZZZLoginController forgedRequest login ∧
      (loginAccess acceptAllExceptZZZLoginController none forgedRequest).2 = .error page ∧
      page.result = .redirect url ∧ pathOf url ≠ getCurrentScriptFullPath forgedRequest ∧
      ∃ p ∈ explode '&' (queryOf url), argName p ∈ excludeNames := by
  have hlogin : Presents acceptAllExceptZZZLoginController forgedRequest "dupont".toList := by
    unfold Presents
    decide +kernel
  have hnone : (none : Option Str) = none ∨ logsOut forgedRequest = true := Or.inl rfl
  rcases loginAccess_presents hlogin hnone with ⟨message, form, hpage⟩
  have hbase : baseURL forgedRequest ≠ [] := by decide +kernel
  rw [if_neg hbase] at hpage
  refine ⟨_, _, _, hlogin, hpage, rfl, ?_, ?_⟩
  · decide +kernel
  · decide +kernel

end Yahd
