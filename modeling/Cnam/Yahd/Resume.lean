/-
  The request that a login interrupts, and its resumption (`loginAccess.inc.php`,
  `loginForm.php`, `loginControl.php`).

  A GET request without a session shows the login form, whose hidden inputs carry the parameters.
  When it is submitted they come back as POST parameters, and the redirection appends them to
  `nextURL`.

  A browser, with what PHP makes of the body it posts, takes the text of the hidden inputs of a
  form to names and values.
-/
import Cnam.Yahd.Decoded
import Cnam.Yahd.Redirect

namespace Yahd

open Php Assoc

/-- What the submission of the hidden inputs of a form brings: names and values. -/
abbrev Browser := Str → List (Str × Str)

/-- A GET request with the given parameters. -/
def getRequest (params : List (Str × Str)) (requestURI phpSelf remoteAddr : Str) : Request where
  get := params.map (Prod.map Key.ofStr id)
  post := []
  userfile := none
  requestURI := requestURI
  phpSelf := phpSelf
  remoteAddr := remoteAddr

/-- The hidden inputs of the login form: those of the parameters, and its own. -/
def LoginForm.hiddenInputs (form : LoginForm) : Str :=
  form.hiddenParams ++ "      <INPUT name=\"nextURL\" type=\"hidden\"  value=\"".toList ++
    form.nextURL ++ "\"> ".toList

/-- The submission of the login form. -/
def submission (browser : Browser) (form : LoginForm) (login password remoteAddr : Str) :
    Request where
  get := []
  post := (browser form.hiddenInputs ++
      [("login".toList, login), ("password".toList, password)]).foldl
    (fun post e => Arr.set post (Key.ofStr e.1) e.2) []
  userfile := none
  requestURI := form.action
  phpSelf := form.action
  remoteAddr := remoteAddr

/-- The URL of the redirection, when the form that a request shows is submitted. -/
def resumedURL (browser : Browser) (ctl : LoginController) (req : Request) (login password : Str) :
    Option Str :=
  match loginAccess ctl none req with
  | (session, .error page) =>
    match (loginAccess ctl session
      (submission browser page.form login password req.remoteAddr)).2 with
    | .error ⟨.redirect url, _⟩ => some url
    | _ => none
  | _ => none

/-- The parameters that belong to the page, not to the login and the session. -/
def originalParams (params : List (Str × Str)) : List (Str × Str) :=
  params.filter fun e =>
    e.1 ∉ ["login".toList, "password".toList, "logout".toList, "PHPSESSID".toList]

/-- The login continues the request: it leads to the same script, with the same parameters. -/
def Resumes (browser : Browser) (ctl : LoginController) (req : Request)
    (params : List (Str × Str)) (login password : Str) : Prop :=
  ∃ url, resumedURL browser ctl req login password = some url ∧
    pathOf url = getCurrentScriptFullPath req ∧
    ((args (queryOf url)).map decodeArg).Perm (originalParams params)

/-! ## The hidden inputs -/

/-- The parameters for which the form has a hidden input.  The key `0` compares equal to the
    names that are left out. -/
def carriedParams (params : List (Str × Str)) : List (Str × Str) :=
  (originalParams params).filter fun e => e.1 ≠ "0".toList

/-- A hidden input, as it is printed. -/
def hiddenInput (e : Str × Str) : Str :=
  " <INPUT name=\"".toList ++ e.1 ++ "\" type=\"hidden\"  value=\"".toList ++ e.2 ++ "\"> ".toList

/-- The browser reads the hidden inputs of a login form as they were written. -/
def ReadsBack (browser : Browser) (es : List (Str × Str)) (URL : Str) : Prop :=
  browser (es.flatMap hiddenInput ++ "     ".toList ++ hiddenInput ("nextURL".toList, URL)) =
    es ++ [("nextURL".toList, URL)]

/-- A text that is not taken for a number. -/
def NotNumeric (t : Str) : Prop :=
  numeric? t = none ∧ toNumber t = .long 0 ∧ integerKey t = none

instance (t : Str) : Decidable (NotNumeric t) := inferInstanceAs (Decidable (_ ∧ _ ∧ _))

theorem notNumeric_excluded : ∀ t ∈ "PHPSESSID".toList :: excludeNames, NotNumeric t := by
  decide +kernel

/-- Of the keys, only `0` denotes the number of such a text. -/
theorem sameNumber_notNumeric {t : Str} (ht : NotNumeric t) (name : Str) :
    SameNumber name t ↔ name = "0".toList := by
  rcases ht with ⟨hnum, hzero, -⟩
  have h0 : integerKey "0".toList = some 0 := by decide
  unfold SameNumber
  cases h : integerKey name with
  | none =>
    have hname : name ≠ "0".toList := by
      rintro rfl
      rw [h0] at h
      exact absurd h (by simp)
    simp only [hnum, hname, reduceCtorEq, false_and, and_false, exists_false]
  | some n =>
    simp only [hzero]
    constructor
    · intro hn
      have hn : 0 = n := hn
      rw [← ofInt_of_integerKey h, ← hn]
      rfl
    · rintro rfl
      rw [h0] at h
      rw [← Option.some.inj h]
      rfl

/-- A key compares equal to such a text when it is that text, or `0`. -/
theorem looseEq_ofStr {t : Str} (ht : NotNumeric t) (name : Str) :
    looseEq (Key.ofStr name).toVal (.str t) = true ↔ name = t ∨ name = "0".toList := by
  rw [looseEq_ofStr_iff, sameNumber_notNumeric ht]

theorem arraySearch_ofStr (name : Str) :
    arraySearch (Key.ofStr name) excludeNames = none ↔
      name ∉ excludeNames ∧ name ≠ "0".toList := by
  have hsame : ∀ t ∈ excludeNames, (¬SameNumber name t ↔ name ≠ "0".toList) := fun t ht =>
    not_congr (sameNumber_notNumeric (notNumeric_excluded t (List.mem_cons_of_mem _ ht)) name)
  rw [arraySearch_ofStr_iff]
  refine and_congr_right fun _ => ⟨fun h => ?_, fun h t ht => (hsame t ht).2 h⟩
  exact (hsame "login".toList (by decide)).1 (h _ (by decide))

theorem notMem_controls (name : Str) :
    name ∉ ["login".toList, "password".toList, "logout".toList, "PHPSESSID".toList] ↔
      name ∉ excludeNames ∧ name ≠ "PHPSESSID".toList := by
  unfold excludeNames
  generalize "login".toList = login, "password".toList = password
  simp only [List.mem_cons, List.not_mem_nil, or_false, not_or]
  constructor
  · rintro ⟨hlogin, hpassword, hlogout, hother⟩
    exact ⟨⟨hpassword, hlogin, hlogout⟩, hother⟩
  · rintro ⟨⟨hpassword, hlogin, hlogout⟩, hother⟩
    exact ⟨hlogin, hpassword, hlogout, hother⟩

theorem mem_originalParams {params : List (Str × Str)} {e : Str × Str} :
    e ∈ originalParams params ↔ e ∈ params ∧ e.1 ∉ excludeNames ∧ e.1 ≠ "PHPSESSID".toList := by
  unfold originalParams
  rw [List.mem_filter, decide_eq_true_iff, notMem_controls]

theorem mem_carriedParams {params : List (Str × Str)} {e : Str × Str} :
    e ∈ carriedParams params ↔ e ∈ originalParams params ∧ e.1 ≠ "0".toList := by
  simp [carriedParams]

theorem hiddenParam_ofStr (e : Str × Str) : hiddenParam (Key.ofStr e.1) e.2 = hiddenInput e := by
  unfold hiddenParam hiddenInput Key.ofStr
  rw [Key.toStr_ofVal]

/-- **The form has a hidden input for each carried parameter.** -/
theorem getAllRequestParamsAsHiddenParams_eq (params : List (Str × Str))
    (requestURI phpSelf remoteAddr : Str) :
    getAllRequestParamsAsHiddenParams (getRequest params requestURI phpSelf remoteAddr)
      excludeNames = (carriedParams params).flatMap hiddenInput := by
  have hunion : arrayUnion (params.map (Prod.map Key.ofStr id)) [] =
      params.map (Prod.map Key.ofStr id) := List.append_nil _
  rw [getAllRequestParamsAsHiddenParams_filter]
  show ((arrayUnion (params.map (Prod.map Key.ofStr id)) []).filter _).flatMap _ = _
  rw [hunion, List.filter_map, List.flatMap_map]
  have hkept : params.filter ((fun e : Key × Str =>
      !looseEq e.1.toVal (.str "PHPSESSID".toList) && (arraySearch e.1 excludeNames).isNone) ∘
        Prod.map Key.ofStr id) = carriedParams params := by
    unfold carriedParams originalParams
    rw [List.filter_filter]
    refine List.filter_congr fun e _ => Bool.eq_iff_iff.2 ?_
    have hsession := looseEq_ofStr (notNumeric_excluded "PHPSESSID".toList List.mem_cons_self) e.1
    show (!looseEq (Key.ofStr e.1).toVal (.str "PHPSESSID".toList) &&
      (arraySearch (Key.ofStr e.1) excludeNames).isNone) = true ↔ _
    rw [Bool.and_eq_true, Bool.not_eq_true', Bool.eq_false_iff, ne_eq, hsession, not_or,
      Option.isNone_iff_eq_none, arraySearch_ofStr, Bool.and_eq_true, decide_eq_true_iff,
      decide_eq_true_iff, notMem_controls]
    constructor
    · rintro ⟨⟨hother, hzero⟩, hname, -⟩
      exact ⟨hzero, hname, hother⟩
    · rintro ⟨hzero, hname, hother⟩
      exact ⟨⟨hother, hzero⟩, hname, hzero⟩
  rw [hkept]
  exact congrFun (congrArg List.flatMap (funext hiddenParam_ofStr)) _

/-- What the browser reads of the form. -/
theorem hiddenInputs_loginForm (params : List (Str × Str))
    (requestURI phpSelf remoteAddr URL login : Str) :
    (loginForm (getRequest params requestURI phpSelf remoteAddr) URL login).hiddenInputs =
      (carriedParams params).flatMap hiddenInput ++ "     ".toList ++
        hiddenInput ("nextURL".toList, URL) := by
  have htext : "      <INPUT name=\"nextURL\" type=\"hidden\"  value=\"".toList =
      "     ".toList ++ (" <INPUT name=\"".toList ++ ("nextURL".toList ++
        "\" type=\"hidden\"  value=\"".toList)) := by decide
  have hown : "      <INPUT name=\"nextURL\" type=\"hidden\"  value=\"".toList ++ URL ++ "\"> ".toList =
      "     ".toList ++ hiddenInput ("nextURL".toList, URL) := by
    unfold hiddenInput
    rw [htext]
    simp only [List.append_assoc]
  unfold LoginForm.hiddenInputs loginForm
  dsimp only
  rw [getAllRequestParamsAsHiddenParams_eq, List.append_assoc (List.flatMap _ _) "     ".toList,
    ← hown]
  simp only [List.append_assoc]

/-! ## The submission -/

section
variable {browser : Browser} {params : List (Str × Str)} {form : LoginForm}
  {URL login password remoteAddr : Str}

/-- The parameters that the submission appends to the URL. -/
def appendedParams (params : List (Str × Str)) (URL : Str) : List (Str × Str) :=
  puts [] (carriedParams params ++ [("nextURL".toList, URL)])

theorem name_appendedParams {e : Str × Str} (h : e ∈ appendedParams params URL) :
    e.1 ∉ excludeNames ∧ e.1 ≠ "0".toList := by
  rcases List.mem_append.1 (subset_puts_nil h) with h | h
  · rcases mem_carriedParams.1 h with ⟨h, hzero⟩
    exact ⟨(mem_originalParams.1 h).2.1, hzero⟩
  · rw [List.mem_singleton.1 h]
    show "nextURL".toList ∉ excludeNames ∧ "nextURL".toList ≠ "0".toList
    decide

/-- `$_POST` is filled by assignments. -/
theorem post_eq_puts :
    (submission browser form login password remoteAddr).post =
      puts [] ((browser form.hiddenInputs ++
        [("login".toList, login), ("password".toList, password)]).map (Prod.map Key.ofStr id)) := by
  unfold submission puts
  rw [List.foldl_map]
  rfl

/-- `$_POST` at the submission, with names in place of keys. -/
def postedParams (params : List (Str × Str)) (URL login password : Str) : List (Str × Str) :=
  appendedParams params URL ++ [("login".toList, login), ("password".toList, password)]

theorem puts_postedParams :
    puts [] ((carriedParams params ++ [("nextURL".toList, URL)]) ++
      [("login".toList, login), ("password".toList, password)]) =
        postedParams params URL login password := by
  have hlogin : "login".toList ∉ (appendedParams params URL).map Prod.fst := by
    intro hmem
    rcases List.mem_map.1 hmem with ⟨e, he, hname⟩
    exact (name_appendedParams he).1 (by rw [hname]; decide)
  have hpassword : "password".toList ∉
      (appendedParams params URL ++ [("login".toList, login)]).map Prod.fst := by
    intro hmem
    rcases List.mem_map.1 hmem with ⟨e, he, hname⟩
    rcases List.mem_append.1 he with he | he
    · exact (name_appendedParams he).1 (by rw [hname]; decide)
    · rw [List.mem_singleton.1 he] at hname
      exact absurd (show "login".toList = "password".toList from hname) (by decide)
  rw [puts_append]
  show put (put (appendedParams params URL) _ _) _ _ = _
  rw [put_of_notMem hlogin, put_of_notMem hpassword, List.append_assoc]
  rfl

theorem nodup_postedParams : ((postedParams params URL login password).map Prod.fst).Nodup := by
  rw [← puts_postedParams]
  exact nodup_puts (by simp) _

theorem post_submission (hread : browser form.hiddenInputs =
    carriedParams params ++ [("nextURL".toList, URL)]) :
    (submission browser form login password remoteAddr).post =
      (postedParams params URL login password).map (Prod.map Key.ofStr id) := by
  rw [post_eq_puts, hread, ← puts_postedParams, map_puts Key.ofStr_injective]
  rfl

/-- What the submission carries on is what the browser read. -/
theorem keptParams_submission (hread : browser form.hiddenInputs =
    carriedParams params ++ [("nextURL".toList, URL)]) :
    keptParams (submission browser form login password remoteAddr) excludeNames =
      appendedParams params URL := by
  have hsearch : ∀ name : Str, (arraySearch (Key.ofStr name) excludeNames).isNone = true ↔
      name ∉ excludeNames ∧ name ≠ "0".toList := by
    intro name
    rw [Option.isNone_iff_eq_none, arraySearch_ofStr]
  have hkeep : ∀ e ∈ appendedParams params URL,
      ((fun e : Key × Str => (arraySearch e.1 excludeNames).isNone) ∘
        Prod.map Key.ofStr id) e = true :=
    fun e he => (hsearch e.1).2 (name_appendedParams he)
  have hdrop : ∀ e ∈ [("login".toList, login), ("password".toList, password)],
      ¬((fun e : Key × Str => (arraySearch e.1 excludeNames).isNone) ∘
        Prod.map Key.ofStr id) e = true := by
    intro e he h
    refine ((hsearch e.1).1 h).1 ?_
    rcases List.mem_cons.1 he with rfl | he
    · exact (by decide : "login".toList ∈ excludeNames)
    · rw [List.mem_singleton.1 he]
      exact (by decide : "password".toList ∈ excludeNames)
  unfold keptParams
  rw [post_submission hread, postedParams, List.filter_map, List.filter_append,
    List.filter_eq_self.2 hkeep, List.filter_eq_nil_iff.2 hdrop, List.append_nil, List.map_map]
  refine (List.map_congr_left fun e _ => ?_).trans (List.map_id _)
  exact Prod.ext (Key.toStr_ofVal e.1) rfl

/-- A parameter of the submission. -/
theorem param?_submission (hread : browser form.hiddenInputs =
    carriedParams params ++ [("nextURL".toList, URL)]) (name : String) :
    (submission browser form login password remoteAddr).param? name =
      (postedParams params URL login password).lookup name.toList := by
  have hparams : (submission browser form login password remoteAddr).params =
      (submission browser form login password remoteAddr).post := by
    refine puts_nil_of_nodup ?_
    rw [post_eq_puts]
    exact nodup_puts (by simp) _
  rw [Request.param?, hparams, post_submission hread]
  exact lookup_map Key.ofStr_injective _ _

theorem param?_submission_of_mem (hread : browser form.hiddenInputs =
    carriedParams params ++ [("nextURL".toList, URL)]) {name : String} {value : Str}
    (h : (name.toList, value) ∈ postedParams params URL login password) :
    (submission browser form login password remoteAddr).param? name = some value := by
  rw [param?_submission hread]
  exact (lookup_eq_some_iff_mem nodup_postedParams).2 h

/-- The submission logs in. -/
theorem presents_submission {ctl : LoginController} (hread : browser form.hiddenInputs =
    carriedParams params ++ [("nextURL".toList, URL)]) (hlogin : login ≠ [])
    (hvalid : ctl.isValidLogin login = true) (hpass : ctl.isValidPassword login password = true) :
    Presents ctl (submission browser form login password remoteAddr) login := by
  refine ⟨param?_submission_of_mem hread (by simp [postedParams]), hlogin, hvalid, ?_⟩
  have hmem : ("password".toList, password) ∈ postedParams params URL login password := by
    simp [postedParams]
  rw [param?_submission_of_mem hread hmem]
  exact hpass

/-- The submission does not log out. -/
theorem logsOut_submission (hread : browser form.hiddenInputs =
    carriedParams params ++ [("nextURL".toList, URL)]) :
    logsOut (submission browser form login password remoteAddr) = false := by
  have hnone : (submission browser form login password remoteAddr).param? "logout" = none := by
    rw [param?_submission hread]
    refine lookup_of_notMem fun hmem => ?_
    rcases List.mem_map.1 hmem with ⟨e, he, hname⟩
    rcases List.mem_append.1 he with he | he
    · exact (name_appendedParams he).1 (by rw [hname]; decide)
    · have hne : "login".toList ≠ "logout".toList ∧ "password".toList ≠ "logout".toList := by
        decide
      rcases List.mem_cons.1 he with rfl | he
      · exact hne.1 hname
      · rw [List.mem_singleton.1 he] at hname
        exact hne.2 hname
  unfold logsOut
  rw [hnone]
  rfl

/-- It starts from the `nextURL` of the form. -/
theorem baseURL_submission (hread : browser form.hiddenInputs =
    carriedParams params ++ [("nextURL".toList, URL)]) :
    baseURL (submission browser form login password remoteAddr) = URL := by
  have hmem : ("nextURL".toList, URL) ∈ postedParams params URL login password := by
    refine List.mem_append_left _ ?_
    rw [appendedParams, puts_snoc]
    exact mem_put.2 (Or.inr rfl)
  rw [baseURL, getHttpParameter, param?_submission_of_mem hread hmem]
  rfl

end

/-! ## The two requests -/

section
variable {browser : Browser} {req : Request} {login password : Str}

theorem loginControl_form (ctl : LoginController) (hpost : req.post = []) (userId : Option Str)
    (nextURL : Str) :
    ∃ login, (loginControl ctl userId req nextURL).2.form =
      loginForm req (getHttpParameter req "nextURL" nextURL) login := by
  have hURL : ∀ URL, appendPostParamsToURL req URL excludeNames = URL := by
    intro URL
    rw [appendPostParamsToURL, hpost]
    rfl
  refine ⟨(req.param? "login").getD [], ?_⟩
  unfold loginControl
  simp only [hURL]
  split
  · split
    · split
      · rfl
      · split <;> rfl
    · rfl
  · rfl

/-- Without a session a request shows the form. -/
theorem loginAccess_form (ctl : LoginController) (hpost : req.post = []) :
    ∃ page login, (loginAccess ctl none req).2 = .error page ∧
      page.form = loginForm req (baseURL req) login := by
  rcases loginControl_form ctl hpost none (getCurrentScriptFullPath req) with ⟨l, hform⟩
  exact ⟨_, l, rfl, hform⟩

/-- When the request itself logs in. -/
theorem loginAccess_none {ctl : LoginController} :
    (loginAccess ctl none req).1 = none ↔ logsOut req = true ∨ ∀ l, ¬Presents ctl req l := by
  constructor
  · intro hnone
    by_cases hout : logsOut req = true
    · exact Or.inl hout
    · right
      intro l hl
      rcases loginControl_presents hl none (getCurrentScriptFullPath req) with ⟨m, form, hpage⟩
      unfold loginAccess at hnone
      simp only [hout, hpage] at hnone
      exact absurd hnone (by simp)
  · intro h
    cases hsession : (loginAccess ctl none req).1 with
    | none => rfl
    | some l =>
      rcases loginAccess_session hsession with ⟨hout, hl | hl⟩
      · exact absurd hl (by simp)
      · rcases h with h | h
        · rw [hout] at h
          exact absurd h (by simp)
        · exact absurd hl (h l)

/-- **The URL of the redirection**, when the browser reads the form as it was written: there is
    none after a request that itself logs in, or when `nextURL` is empty. -/
theorem resumedURL_eq_some {ctl : LoginController} {params : List (Str × Str)}
    (hpost : req.post = [])
    (hread : ∀ l, browser (loginForm req (baseURL req) l).hiddenInputs =
      carriedParams params ++ [("nextURL".toList, baseURL req)])
    (hlogin : login ≠ []) (hvalid : ctl.isValidLogin login = true)
    (hpass : ctl.isValidPassword login password = true) {url : Str} :
    resumedURL browser ctl req login password = some url ↔
      (logsOut req = true ∨ ∀ l, ¬Presents ctl req l) ∧ baseURL req ≠ [] ∧
        url = (appendedParams params (baseURL req)).foldl
          (fun URL e => appendURLArg URL (argText e)) (baseURL req) := by
  rcases loginAccess_form ctl hpost with ⟨page, l, hpage, hform⟩
  have hread' := hread l
  rw [← hform] at hread'
  rw [← loginAccess_none]
  unfold resumedURL
  cases hfirst : loginAccess ctl none req with
  | mk session result =>
    rw [hfirst] at hpage
    dsimp only at hpage
    subst hpage
    dsimp only
    cases session with
    | some u =>
      have hok : (loginAccess ctl (some u)
          (submission browser page.form login password req.remoteAddr)).2 = .ok u :=
        loginAccess_ok.2 ⟨rfl, logsOut_submission hread'⟩
      rw [hok]
      simp
    | none =>
      have hnone : (none : Option Str) = none ∨
          logsOut (submission browser page.form login password req.remoteAddr) = true := Or.inl rfl
      rcases loginAccess_presents (presents_submission hread' hlogin hvalid hpass) hnone
        with ⟨message, form, hsecond⟩
      rw [hsecond, baseURL_submission hread', appendPostParamsToURL_eq,
        keptParams_submission hread']
      by_cases hbase : baseURL req = []
      · simp [hbase]
      · simp [hbase, eq_comm]

end

/-! ## When the login continues the request -/

/-- What the parameters must be like for the login to continue the request. -/
structure ResumesWhen (ctl : LoginController) (req : Request) (params : List (Str × Str)) :
    Prop where
  /-- The request does not itself log in. -/
  noLogin : logsOut req = true ∨ ∀ l, ¬Presents ctl req l
  /-- No separators and no escapes in what the form carries. -/
  plain : ∀ e ∈ carriedParams params, Plain e
  /-- The form's own field is a parameter of the request, for the requested script.  Its query
      names a parameter that is carried, or is the parameter `0` as it is. -/
  nextURL : ∃ URL, ("nextURL".toList, URL) ∈ params ∧ URL ≠ [] ∧
    pathOf URL = getCurrentScriptFullPath req ∧
    (∀ a ∈ args (queryOf URL),
      a.1 ∈ (carriedParams params).map Prod.fst ∨ a ∈ originalParams params) ∧
    ∀ e ∈ originalParams params, e.1 = "0".toList → e ∈ args (queryOf URL)

section
variable {params : List (Str × Str)} {requestURI phpSelf remoteAddr URL : Str}

theorem baseURL_getRequest (hparams : (params.map Prod.fst).Nodup)
    (hURL : ("nextURL".toList, URL) ∈ params) :
    baseURL (getRequest params requestURI phpSelf remoteAddr) = URL := by
  have hparam : (getRequest params requestURI phpSelf remoteAddr).param? "nextURL" =
      params.lookup "nextURL".toList := lookup_map Key.ofStr_injective _ _
  rw [baseURL, getHttpParameter, hparam, (lookup_eq_some_iff_mem hparams).2 hURL]
  rfl

theorem nodup_originalParams (hparams : (params.map Prod.fst).Nodup) :
    ((originalParams params).map Prod.fst).Nodup :=
  hparams.sublist (List.filter_sublist.map Prod.fst)

theorem nodup_carriedParams (hparams : (params.map Prod.fst).Nodup) :
    ((carriedParams params).map Prod.fst).Nodup :=
  (nodup_originalParams hparams).sublist (List.filter_sublist.map Prod.fst)

theorem nextURL_mem_carriedParams (hURL : ("nextURL".toList, URL) ∈ params) :
    ("nextURL".toList, URL) ∈ carriedParams params := by
  have hname : "nextURL".toList ∉ excludeNames ∧ "nextURL".toList ≠ "PHPSESSID".toList ∧
      "nextURL".toList ≠ "0".toList := by decide
  exact mem_carriedParams.2 ⟨mem_originalParams.2 ⟨hURL, hname.1, hname.2.1⟩, hname.2.2⟩

/-- A `nextURL` of the request is read back in the form's own field. -/
theorem appendedParams_of_mem (hparams : (params.map Prod.fst).Nodup)
    (hURL : ("nextURL".toList, URL) ∈ params) :
    appendedParams params URL = carriedParams params := by
  have hnodup := nodup_carriedParams hparams
  rw [appendedParams, puts_snoc, puts_nil_of_nodup hnodup]
  exact put_of_mem hnodup (nextURL_mem_carriedParams hURL)

theorem args_redirection (params : List (Str × Str)) (URL : Str) :
    args (queryOf ((appendedParams params URL).foldl
      (fun URL e => appendURLArg URL (argText e)) URL)) =
      puts [] (args (queryOf URL) ++
        (appendedParams params URL).flatMap fun e => args (argText e)) := by
  refine args_queryOf_appendPostParams _ ?_ URL
  have hmem : ("nextURL".toList, URL) ∈ appendedParams params URL := by
    rw [appendedParams, puts_snoc]
    exact mem_put.2 (Or.inr rfl)
  exact List.ne_nil_of_mem hmem

theorem pathOf_redirection (es : List (Str × Str)) (URL : Str) :
    pathOf (es.foldl (fun URL e => appendURLArg URL (argText e)) URL) = pathOf URL := by
  induction es generalizing URL with
  | nil => rfl
  | cons e es ih => exact (ih _).trans (pathOf_appendURLArg URL _)

/-- The redirection has a `nextURL`, so the request must have had one. -/
theorem nextURL_of_perm
    (h : ((args (queryOf ((appendedParams params URL).foldl
      (fun URL e => appendURLArg URL (argText e)) URL))).map decodeArg).Perm
        (originalParams params)) :
    ∃ value, ("nextURL".toList, value) ∈ params := by
  have hname : '=' ∉ "nextURL".toList ∧ '&' ∉ "nextURL".toList ∧
      urldecode "nextURL".toList = "nextURL".toList := by decide
  have hmem : ("nextURL".toList, URL) ∈ appendedParams params URL := by
    rw [appendedParams, puts_snoc]
    exact mem_put.2 (Or.inr rfl)
  have harg : ∃ r ∈ args (argText ("nextURL".toList, URL)), r.1 = "nextURL".toList :=
    exists_arg_named hname.1 hname.2.1
  rcases harg with ⟨r, hr, hrname⟩
  have hkey : "nextURL".toList ∈ (args (queryOf ((appendedParams params URL).foldl
      (fun URL e => appendURLArg URL (argText e)) URL))).map Prod.fst := by
    rw [args_redirection, keys_puts_nil, List.mem_eraseDups, ← hrname]
    exact List.mem_map_of_mem
      (List.mem_append_right _ (List.mem_flatMap.2 ⟨_, hmem, hr⟩))
  rcases List.mem_map.1 hkey with ⟨r', hr', hname'⟩
  have horiginal := (mem_originalParams.1 (h.subset (List.mem_map_of_mem hr'))).1
  refine ⟨urldecode r'.2, ?_⟩
  have hdecode : decodeArg r' = ("nextURL".toList, urldecode r'.2) := by
    rw [decodeArg, hname', hname.2.2]
  rwa [← hdecode]

/-- The parameters that come out of the redirection are those of the request exactly when nothing
    has to be encoded and the query of `nextURL` adds nothing. -/
theorem perm_redirection_iff (hparams : (params.map Prod.fst).Nodup)
    (hURL : ("nextURL".toList, URL) ∈ params) :
    ((args (queryOf ((appendedParams params URL).foldl
      (fun URL e => appendURLArg URL (argText e)) URL))).map decodeArg).Perm
        (originalParams params) ↔
      (∀ e ∈ carriedParams params, Plain e) ∧
      (∀ a ∈ args (queryOf URL),
        a.1 ∈ (carriedParams params).map Prod.fst ∨ a ∈ originalParams params) ∧
      ∀ e ∈ originalParams params, e.1 = "0".toList → e ∈ args (queryOf URL) := by
  rw [args_redirection, appendedParams_of_mem hparams hURL]
  have hmem := nextURL_mem_carriedParams hURL
  have hsub : ∀ e ∈ carriedParams params, e ∈ originalParams params :=
    fun e he => (mem_carriedParams.1 he).1
  have hwhole (hplain : ∀ e ∈ carriedParams params, Plain e) :=
    perm_whole (nodup_carriedParams hparams) (nodup_originalParams hparams) hsub hplain
      (fun a ha => plain_of_queryOf (hplain _ hmem).2.2 ha)
      (length_args_queryOf (hplain _ hmem).1.2.2)
  have hzero : (∀ e ∈ originalParams params,
      e ∈ carriedParams params ∨ e ∈ args (queryOf URL)) ↔
        ∀ e ∈ originalParams params, e.1 = "0".toList → e ∈ args (queryOf URL) := by
    refine forall₂_congr fun e he => ?_
    rw [mem_carriedParams, and_iff_right he, or_iff_not_imp_left, not_not]
  constructor
  · intro h
    have hplain : ∀ e ∈ carriedParams params, Plain e := by
      refine plain_of_whole hmem fun e he => ?_
      rcases List.mem_map.1 (h.symm.subset (hsub e he)) with ⟨r, hr, hre⟩
      exact ⟨r, subset_puts_nil hr, hre⟩
    refine ⟨hplain, ?_⟩
    rw [← hzero]
    exact (hwhole hplain).1 h
  · rintro ⟨hplain, hquery⟩
    rw [← hzero] at hquery
    exact (hwhole hplain).2 hquery

end

/-- **When the login continues the request**, for a browser that reads the hidden inputs of the
    form as they were written. -/
theorem resumes_iff {browser : Browser} {ctl : LoginController} {params : List (Str × Str)}
    {requestURI phpSelf remoteAddr login password : Str} (hparams : (params.map Prod.fst).Nodup)
    (hlogin : login ≠ []) (hvalid : ctl.isValidLogin login = true)
    (hpass : ctl.isValidPassword login password = true)
    (hread : ReadsBack browser (carriedParams params)
      (baseURL (getRequest params requestURI phpSelf remoteAddr))) :
    Resumes browser ctl (getRequest params requestURI phpSelf remoteAddr) params login password ↔
      ResumesWhen ctl (getRequest params requestURI phpSelf remoteAddr) params := by
  have hforms : ∀ l, browser (loginForm (getRequest params requestURI phpSelf remoteAddr)
      (baseURL (getRequest params requestURI phpSelf remoteAddr)) l).hiddenInputs =
        carriedParams params ++
          [("nextURL".toList, baseURL (getRequest params requestURI phpSelf remoteAddr))] := by
    intro l
    rw [hiddenInputs_loginForm]
    exact hread
  unfold Resumes
  simp only [resumedURL_eq_some rfl hforms hlogin hvalid hpass]
  constructor
  · rintro ⟨url, ⟨hnoLogin, hbase, rfl⟩, hpath, hperm⟩
    rcases nextURL_of_perm hperm with ⟨URL, hURL⟩
    rw [baseURL_getRequest hparams hURL] at hbase hpath hperm
    rw [pathOf_redirection] at hpath
    rcases (perm_redirection_iff hparams hURL).1 hperm with ⟨hplain, hargs, hzero⟩
    exact ⟨hnoLogin, hplain, URL, hURL, hbase, hpath, hargs, hzero⟩
  · rintro ⟨hnoLogin, hplain, URL, hURL, hne, hpath, hargs, hzero⟩
    rw [baseURL_getRequest hparams hURL]
    refine ⟨_, ⟨hnoLogin, hne, rfl⟩, ?_, ?_⟩
    · rw [pathOf_redirection, hpath]
    · exact (perm_redirection_iff hparams hURL).2 ⟨hplain, hargs, hzero⟩

/-- The names and the values between the quotes of hidden inputs. -/
def quotedPairs : List Str → List (Str × Str)
  | _ :: name :: _ :: _ :: _ :: value :: rest => (name, value) :: quotedPairs rest
  | _ => []

/-- A reader of hidden inputs without entities. -/
def quotedInputs : Browser := fun html => quotedPairs (explode '"' html)

/-- A login continues a request whose `nextURL` is the script itself. -/
theorem resumes_nextURL :
    Resumes quotedInputs acceptAllExceptZZZLoginController
      (getRequest [("page".toList, "2".toList), ("nextURL".toList, "/yahd/index.php".toList)]
        "/yahd/index.php?page=2&nextURL=/yahd/index.php".toList "/yahd/index.php".toList
        "127.0.0.1".toList)
      [("page".toList, "2".toList), ("nextURL".toList, "/yahd/index.php".toList)]
      "dupont".toList "secret".toList := by
  have hplain : ∀ e ∈ carriedParams
      [("page".toList, "2".toList), ("nextURL".toList, "/yahd/index.php".toList)],
      ArgPlain e ∧ ('+' ∉ e.1 ∧ '%' ∉ e.1) ∧ '+' ∉ e.2 ∧ '%' ∉ e.2 := by
    unfold ArgPlain
    decide +kernel
  refine (resumes_iff (by decide) (by decide) (by decide +kernel) rfl ?_).2 ⟨?_, ?_, ?_⟩
  · unfold ReadsBack
    decide +kernel
  · refine Or.inr ?_
    rintro l ⟨hlogin, -⟩
    exact absurd (hlogin.symm.trans (by decide +kernel : Request.param? _ "login" = none))
      (by simp)
  · intro e he
    rcases hplain e he with ⟨harg, hname, hvalue⟩
    exact ⟨harg, urlPlain_of_notMem hname.1 hname.2, urlPlain_of_notMem hvalue.1 hvalue.2⟩
  · exact ⟨"/yahd/index.php".toList, by decide +kernel⟩

/-- The form's own field comes back as a parameter that the request did not have. -/
theorem not_resumes_page :
    ReadsBack quotedInputs (carriedParams [("page".toList, "2".toList)])
      (baseURL (getRequest [("page".toList, "2".toList)] "/yahd/index.php?page=2".toList
        "/yahd/index.php".toList "127.0.0.1".toList)) ∧
    ¬Resumes quotedInputs acceptAllExceptZZZLoginController
      (getRequest [("page".toList, "2".toList)] "/yahd/index.php?page=2".toList
        "/yahd/index.php".toList "127.0.0.1".toList)
      [("page".toList, "2".toList)] "dupont".toList "secret".toList := by
  constructor
  · unfold ReadsBack
    decide +kernel
  · have hurl : resumedURL quotedInputs acceptAllExceptZZZLoginController
        (getRequest [("page".toList, "2".toList)] "/yahd/index.php?page=2".toList
          "/yahd/index.php".toList "127.0.0.1".toList) "dupont".toList "secret".toList =
        some "/yahd/index.php?page=2&nextURL=/yahd/index.php".toList := by decide +kernel
    rintro ⟨url, h, -, hperm⟩
    rw [hurl] at h
    rw [← Option.some.inj h] at hperm
    exact absurd hperm (by decide +kernel)

end Yahd
