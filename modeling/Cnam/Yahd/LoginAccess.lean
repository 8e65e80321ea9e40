/-
  The gate of the protected pages (`loginAccess.inc.php`), and the page shown in their place
  when there is no session (`loginControl.php`, `loginForm.php`).

  `$_SESSION` holds one variable, the `userId`.
-/
import Cnam.Yahd.Url

namespace Yahd

open Php

/-- A login controller.  What its methods return is used as a condition. -/
structure LoginController where
  isValidLogin : Str → Bool
  isValidPassword : Str → Str → Bool

/-- The controller that `loginAccess.conf.php` chooses. -/
def acceptAllExceptZZZLoginController : LoginController where
  isValidLogin login := !looseEq (.str login) (.str "ZZZ".toList)
  isValidPassword _ _ := true

/-- The texts that the login form is filled with. -/
structure LoginForm where
  action : Str
  hiddenParams : Str
  nextURL : Str
  login : Str

/-- What became of the login and the password of a request. -/
inductive LoginResult where
  | noLogin
  | unknownLogin (message : Str)
  | wrongPassword (message : Str)
  | welcome (message : Str)
  /-- the URL given to `redirectLocation` -/
  | redirect (fullURL : Str)

/-- The page of the login control: what became of the login, then the form. -/
structure LoginPage where
  result : LoginResult
  form : LoginForm

/-- The names that neither the form nor the redirection carries on. -/
def excludeNames : List Str := ["password".toList, "login".toList, "logout".toList]

/-- `loginForm.php`, with the parameters of the request as hidden ones. -/
def loginForm (req : Request) (nextURL login : Str) : LoginForm where
  action := req.phpSelf
  hiddenParams := getAllRequestParamsAsHiddenParams req excludeNames
  nextURL := nextURL
  login := login

/-- `loginControl.php`: the `userId` of `$_SESSION` after it, and the page. -/
def loginControl (ctl : LoginController) (userId : Option Str) (req : Request) (nextURL : Str) :
    Option Str × LoginPage :=
  let login := (req.param? "login").getD []
  let password := (req.param? "password").getD []
  let nextURL := getHttpParameter req "nextURL" nextURL
  if !looseEq (.str login) (.str []) then
    if ctl.isValidLogin login then
      if !ctl.isValidPassword login password then
        (userId, ⟨.wrongPassword ("<center><BR><font color=\"#FF0000\" size=\"+1\">".toList ++
          "Mot de passe invalide.</font></center>".toList), loginForm req nextURL login⟩)
      else if looseEq (.str nextURL) (.str []) then
        (some login, ⟨.welcome ("Bienvenue ".toList ++ login ++ " (***TBD*** vérif)".toList),
          loginForm req nextURL login⟩)
      else
        let nextURL := appendPostParamsToURL req nextURL excludeNames
        (some login, ⟨.redirect nextURL, loginForm req nextURL login⟩)
    else
      (userId, ⟨.unknownLogin ("<center><BR><font color=\"#FF0000\" size=\"+1\">Login ".toList ++
        login ++ " inconnu.</font></center>".toList), loginForm req nextURL login⟩)
  else (userId, ⟨.noLogin, loginForm req nextURL login⟩)

/-- `$logout == 1`, where an absent parameter counts as `0`. -/
def logsOut (req : Request) : Bool :=
  let logout := match req.param? "logout" with
    | some s => .str s
    | none => .int 0
  looseEq logout (.int 1)

/-- `loginAccess.inc.php`: the stored session after it, and the `$userId` for the rest of the
    page, or the page shown instead.  `session_destroy` drops the stored session but leaves
    `$_SESSION` as it is; what is written to it afterwards is not kept. -/
def loginAccess (ctl : LoginController) (session : Option Str) (req : Request) :
    Option Str × Except LoginPage Str :=
  let destroyed := logsOut req
  match session, destroyed with
  | some userId, false => (session, .ok userId)
  | _, _ =>
    let nextURL := getCurrentScriptFullPath req
    let (userId, page) := loginControl ctl session req nextURL
    (if destroyed then none else userId, .error page)

/-! ## Who gets in -/

/-- The request presents a non-empty login and a password that the controller accepts. -/
def Presents (ctl : LoginController) (req : Request) (login : Str) : Prop :=
  req.param? "login" = some login ∧ login ≠ [] ∧ ctl.isValidLogin login = true ∧
    ctl.isValidPassword login ((req.param? "password").getD []) = true

section
variable {ctl : LoginController} {req : Request} {l : Str}

/-- The `userId` is set to a login the request presents, or is the one there was. -/
theorem loginControl_userId {userId : Option Str} {nextURL : Str}
    (h : (loginControl ctl userId req nextURL).1 = some l) :
    userId = some l ∨ Presents ctl req l := by
  unfold loginControl at h
  simp only [looseEq_nil] at h
  by_cases hempty : (req.param? "login").getD [] = []
  · simp only [hempty, decide_true, Bool.not_true, Bool.false_eq_true, if_false] at h
    exact Or.inl h
  · simp only [hempty, decide_false, Bool.not_false, if_true] at h
    by_cases hlogin : ctl.isValidLogin ((req.param? "login").getD []) = true
    · by_cases hpass : ctl.isValidPassword ((req.param? "login").getD [])
          ((req.param? "password").getD []) = true
      · right
        have hl : (req.param? "login").getD [] = l := by
          simp only [hlogin, hpass, Bool.not_true, Bool.false_eq_true, if_true, if_false] at h
          split at h <;> exact Option.some.inj h
        rw [hl] at hempty hlogin hpass
        refine ⟨?_, hempty, hlogin, hpass⟩
        cases hp : req.param? "login" with
        | none => rw [hp] at hl; exact absurd hl.symm hempty
        | some s => rw [hp] at hl; exact congrArg some hl
      · simp only [hlogin, hpass, Bool.not_false, if_true] at h
        exact Or.inl h
    · simp only [hlogin] at h
      exact Or.inl h

/-- **The gate**: a page goes on for the user of the session, unless the request logs out. -/
theorem loginAccess_ok {session : Option Str} :
    (loginAccess ctl session req).2 = .ok l ↔ session = some l ∧ logsOut req = false := by
  unfold loginAccess
  cases session with
  | none => simp
  | some u =>
    cases logsOut req with
    | true => simp
    | false => simp

/-- **The session after the gate** is the one there was or the one of a presented login, and
    a request that logs out leaves none. -/
theorem loginAccess_session {session : Option Str}
    (h : (loginAccess ctl session req).1 = some l) :
    logsOut req = false ∧ (session = some l ∨ Presents ctl req l) := by
  unfold loginAccess at h
  cases hout : logsOut req with
  | true =>
    rw [hout] at h
    cases session <;> simp at h
  | false =>
    rw [hout] at h
    refine ⟨rfl, ?_⟩
    cases session with
    | none => exact loginControl_userId h
    | some u => exact Or.inl h

/-- A presented login becomes the `userId`. -/
theorem loginControl_presented {userId : Option Str} {nextURL : Str} (h : Presents ctl req l) :
    (loginControl ctl userId req nextURL).1 = some l := by
  rcases h with ⟨hparam, hne, hvalid, hpass⟩
  unfold loginControl
  simp only [hparam, Option.getD_some, looseEq_nil, hne, hvalid, hpass, decide_false,
    Bool.not_false, Bool.not_true, Bool.false_eq_true, if_true, if_false, decide_eq_true_eq]
  split <;> rfl

/-- A request without a session that does not log out starts one when it presents a login. -/
theorem loginAccess_starts (hout : logsOut req = false) :
    (loginAccess ctl none req).1 = some l ↔ Presents ctl req l := by
  constructor
  · intro h
    exact (loginAccess_session h).2.resolve_left (by simp)
  · intro h
    simp only [loginAccess, hout]
    exact loginControl_presented h

/-- A session ends when a request logs out. -/
theorem loginAccess_ends {session : Option Str} (hout : logsOut req = true) :
    (loginAccess ctl session req).1 = none := by
  cases session <;> simp [loginAccess, hout]

/-- A session stays until a request logs out. -/
theorem loginAccess_keeps (hout : logsOut req = false) :
    (loginAccess ctl (some l) req).1 = some l := by
  simp [loginAccess, hout]

end

end Yahd
