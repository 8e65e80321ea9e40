/-
  The first two pages that show a submitted ticket: `editTicketAction.php` of the exercise and
  its version of tp2.

  Both read the form `saisieTicket.html` and print one row.  The first takes the application
  typed in whenever there is one, the second only when none of the list is chosen; the first
  finds the text of the priority in a chain of tests, the second in a table.  They show the
  same ticket exactly when the form names one application (`pagesAgree_iff`).
-/
import Cnam.Yahd.EditTicketAction

namespace Yahd

open Php

/-- What a page shows: the address of the browser, and the row of the table. -/
structure TicketTable where
  remoteAddr : Str
  /-- the `<tr>` tags that are printed -/
  rowTag : Str
  application : Val
  priority : Val
  type : Val
  date : Str
  summary : Val
  description : Val

/-- The names of the months, as `date` prints them. -/
def monthNames : List Str :=
  ["January".toList, "February".toList, "March".toList, "April".toList, "May".toList,
   "June".toList, "July".toList, "August".toList, "September".toList, "October".toList,
   "November".toList, "December".toList]

/-- `date('d F Y')` -/
def dFY (d : Date) : Str :=
  (ofInt d.day).leftpad 2 '0' ++ " ".toList ++ (monthNames[d.month - 1]?).getD [] ++ " ".toList ++
    (ofInt d.year).leftpad 4 '0'

/-! ## The page of the exercise -/

namespace FirstPage

/-- `empty($v)` -/
def empty : Val → Bool
  | .null => true
  | .int n => n = 0
  | .str s => !truthy s

/-- The application of the form, or the other one that was typed in. -/
def application (req : Request) : Val :=
  if empty (req.param "applicationOther") then req.param "application"
  else req.param "applicationOther"

/-- The description, cut to the length of its field. -/
def description (req : Request) : Val :=
  match req.param? "contents" with
  | some contents => .str (contents.take 40)
  | none => .null

/-- The branches for the priority: the code, its text, and the tag that is printed. -/
def branches : List (Int × Str × Str) :=
  [(1, "Très faible".toList, "<tr class=\"tab_bg_1\">".toList),
   (2, "Faible".toList, "<tr class=\"tab_bg_2\">".toList),
   (3, "Moyenne".toList, "<tr class=\"tab_bg_yellow\">".toList),
   (4, "Urgente".toList, "<tr class=\"tab_bg_orange\">".toList),
   (5, "Très urgente".toList, "<tr class=\"tab_bg_red\">".toList)]

/-- One branch.  The text replaces the code in the variable that the next branch tests. -/
def branch (shown : Val × Str) (b : Int × Str × Str) : Val × Str :=
  if looseEq shown.1 (.int b.1) then (.str b.2.1, shown.2 ++ b.2.2) else shown

/-- The text of a priority, and the tags printed on the way. -/
def priority (code : Val) : Val × Str := branches.foldl branch (code, [])

end FirstPage

/-- `editTicketAction.php` of the exercise.  A parameter that is not set leaves its variable
    undefined, which shows nothing. -/
def FirstPage.editTicketAction (today : Date) (req : Request) : TicketTable where
  remoteAddr := req.remoteAddr
  rowTag := (priority (req.param "priority")).2
  application := application req
  priority := (priority (req.param "priority")).1
  type := req.param "type"
  date := dFY today
  summary := req.param "oneLiner"
  description := description req

/-! ## The page of tp2 -/

namespace Tp2

/-- What the page answers. -/
inductive Reply where
  | refused (text : Str)
  | shown (table : TicketTable)

/-- The colour of each priority, and that of a missing one. -/
def priorityColorMap : Arr Str :=
  [(.str [], "red".toList),
   (.int 5, "red".toList),
   (.int 4, "orange".toList),
   (.int 3, "yellow".toList),
   (.int 2, "blue".toList),
   (.int 1, "green".toList)]

/-- The class of the cells of a record. -/
def tableRecordClass (priority : Val) : Str :=
  "tab_bg_".toList ++ (priorityColorMap.get? priority).getD []

/-- The application and the text of the priority are found as in the page of tp4; the date is
    not there yet. -/
def table (req : Request) : TicketTable where
  remoteAddr := req.remoteAddr
  rowTag := "<tr class=\"".toList ++ tableRecordClass (req.param "priority") ++ "\">".toList
  application := EditTicketAction.application req
  priority := Ticket.priorityCodeToText (req.param "priority")
  type := req.param "type"
  date := "?".toList
  summary := req.param "oneLiner"
  description := .str ((req.param "contents").toStr.take 40)

/-- The address of the browser is only looked at when it has four parts. -/
def editTicketAction (req : Request) : Reply :=
  let array := explode '.' req.remoteAddr
  if array.length ≥ 4 then
    let domain := EditTicketAction.domain req.remoteAddr
    let expectedDomain := domain
    if !looseEq (.str domain) (.str expectedDomain) then .refused "Accès interdit".toList
    else .shown (table req)
  else .shown (table req)

theorem editTicketAction_shown (req : Request) : editTicketAction req = .shown (table req) := by
  simp [editTicketAction, looseEq_refl]

end Tp2

/-! ## The form -/

/-- The codes of the list of priorities. -/
def priorityCodes : List Str := ["5".toList, "4".toList, "3".toList, "2".toList, "1".toList]

/-- What the browser sends of `saisieTicket.html`. -/
structure TicketForm where
  application : Str
  applicationOther : Str
  priority : Str
  type : Str
  oneLiner : Str
  contents : Str

namespace TicketForm

/-- `checkForm()`: a summary, and an application when `--Autre--` is chosen. -/
def checkForm (form : TicketForm) : Bool :=
  if form.oneLiner.length = 0 then false
  else if form.application = "-1".toList ∧ form.applicationOther.length = 0 then false
  else true

/-- The form can be sent: the application is `--Autre--` or a name that is not this number, the
    priority is one of the list, and `checkForm` lets it through. -/
structure Sendable (form : TicketForm) : Prop where
  application : form.application = "-1".toList ∨
    looseEq (.str form.application) (.str "-1".toList) = false
  priority : form.priority ∈ priorityCodes
  checked : form.checkForm = true

/-- The request brings the fields of the form. -/
structure Sent (form : TicketForm) (req : Request) : Prop where
  application : req.param? "application" = some form.application
  applicationOther : req.param? "applicationOther" = some form.applicationOther
  priority : req.param? "priority" = some form.priority
  type : req.param? "type" = some form.type
  oneLiner : req.param? "oneLiner" = some form.oneLiner
  contents : req.param? "contents" = some form.contents

/-- The form names one application: the one typed in is not `0` when none is chosen, and none is
    typed in, or `0`, or the chosen one, when one is. -/
def NamesOne (form : TicketForm) : Prop :=
  if form.application = "-1".toList then form.applicationOther ≠ "0".toList
  else form.applicationOther ∈ [[], "0".toList, form.application]

instance (form : TicketForm) : Decidable form.NamesOne := inferInstanceAs (Decidable (ite _ _ _))

end TicketForm

/-! ## The two pages -/

/-- The tables show the same ticket; the date and the colour of the row are left aside. -/
structure TicketTable.SameTicket (a b : TicketTable) : Prop where
  application : a.application.toStr = b.application.toStr
  priority : a.priority.toStr = b.priority.toStr
  type : a.type.toStr = b.type.toStr
  summary : a.summary.toStr = b.summary.toStr
  description : a.description.toStr = b.description.toStr

/-- Both pages show a table, with the same ticket. -/
def PagesAgree (today : Date) (req : Request) : Prop :=
  ∃ t, Tp2.editTicketAction req = .shown t ∧ (FirstPage.editTicketAction today req).SameTicket t

theorem param_eq {req : Request} {name : String} {s : Str} (h : req.param? name = some s) :
    req.param name = .str s := by
  unfold Request.param
  rw [h]

/-- The chain of tests finds the text of the table. -/
theorem priority_eq {code : Str} (h : code ∈ priorityCodes) :
    (FirstPage.priority (.str code)).1 = Ticket.priorityCodeToText (.str code) := by
  revert code
  decide +kernel

theorem empty_str (s : Str) : FirstPage.empty (.str s) = true ↔ s = [] ∨ s = "0".toList := by
  show (!(s != [] && s != ['0'])) = true ↔ _
  rw [Bool.not_eq_true', Bool.and_eq_false_iff, bne_eq_false_iff_eq, bne_eq_false_iff_eq]
  rfl

section
variable {form : TicketForm} {req : Request} (hsent : form.Sent req)
include hsent

/-- Only the application may differ. -/
theorem pagesAgree_application (hpriority : form.priority ∈ priorityCodes) (today : Date) :
    PagesAgree today req ↔
      (FirstPage.application req).toStr = (EditTicketAction.application req).toStr := by
  constructor
  · rintro ⟨t, ht, hsame⟩
    rw [Tp2.editTicketAction_shown] at ht
    cases ht
    exact hsame.application
  · intro happ
    refine ⟨Tp2.table req, Tp2.editTicketAction_shown req, happ, ?_, rfl, rfl, ?_⟩
    · show (FirstPage.priority (req.param "priority")).1.toStr = _
      rw [param_eq hsent.priority, priority_eq hpriority, ← param_eq hsent.priority]
      rfl
    · show (FirstPage.description req).toStr = ((req.param "contents").toStr.take 40)
      unfold FirstPage.description
      rw [hsent.contents, param_eq hsent.contents]
      rfl

theorem firstPage_application : FirstPage.application req =
    .str (if form.applicationOther = [] ∨ form.applicationOther = "0".toList then form.application
      else form.applicationOther) := by
  unfold FirstPage.application
  rw [param_eq hsent.applicationOther, param_eq hsent.application]
  simp only [empty_str]
  split_ifs <;> rfl

theorem tp2_application : EditTicketAction.application req =
    .str (if looseEq (.str form.application) (.str "-1".toList) then form.applicationOther
      else form.application) := by
  unfold EditTicketAction.application
  rw [param_eq hsent.applicationOther, param_eq hsent.application]
  split_ifs <;> rfl

end

/-- Without an application of the list, `checkForm` wants one to be typed in. -/
theorem applicationOther_ne_nil {form : TicketForm} (h : form.checkForm = true)
    (hother : form.application = "-1".toList) : form.applicationOther ≠ [] := by
  intro hnil
  have hmissing : form.application = "-1".toList ∧ form.applicationOther.length = 0 :=
    ⟨hother, by rw [hnil]; rfl⟩
  unfold TicketForm.checkForm at h
  rw [if_pos hmissing] at h
  split_ifs at h

/-- **The two pages agree** on a form that `checkForm` lets through if and only if it names one
    application. -/
theorem pagesAgree_iff {form : TicketForm} (hsend : form.Sendable) {req : Request}
    (hsent : form.Sent req) (today : Date) : PagesAgree today req ↔ form.NamesOne := by
  rw [pagesAgree_application hsent hsend.priority, firstPage_application hsent,
    tp2_application hsent, TicketForm.NamesOne]
  show (if form.applicationOther = [] ∨ form.applicationOther = "0".toList then form.application
    else form.applicationOther) = (if looseEq (.str form.application) (.str "-1".toList) then
      form.applicationOther else form.application) ↔ _
  by_cases hother : form.application = "-1".toList
  · -- none of the list: `checkForm` has seen a name
    have htyped := applicationOther_ne_nil hsend.checked hother
    rw [if_pos hother, hother, looseEq_refl, if_pos rfl]
    by_cases hzero : form.applicationOther = "0".toList
    · rw [if_pos (Or.inr hzero), hzero]
      exact iff_of_false (by decide) fun h => h rfl
    · rw [if_neg (not_or.2 ⟨htyped, hzero⟩)]
      exact iff_of_true rfl hzero
  · have hchosen := hsend.application.resolve_left hother
    rw [if_neg hother, hchosen, if_neg Bool.false_ne_true, List.mem_cons, List.mem_cons,
      List.mem_singleton]
    by_cases hempty : form.applicationOther = [] ∨ form.applicationOther = "0".toList
    · rw [if_pos hempty]
      exact iff_of_true rfl (by tauto)
    · rw [if_neg hempty]
      tauto

/-! ## A form that names two applications -/

/-- An application of the list and another one. -/
def twoNames : TicketForm where
  application := "Paye".toList
  applicationOther := "Achats".toList
  priority := "3".toList
  type := "anomalie".toList
  oneLiner := "Panne".toList
  contents := "Rien ne va plus".toList

/-- The request that the browser makes of a form. -/
def TicketForm.request (form : TicketForm) : Request where
  get := [(.str "application".toList, form.application),
    (.str "applicationOther".toList, form.applicationOther),
    (.str "priority".toList, form.priority), (.str "type".toList, form.type),
    (.str "oneLiner".toList, form.oneLiner), (.str "contents".toList, form.contents)]
  post := []
  userfile := none
  requestURI := "/editTicketAction.php".toList
  phpSelf := "/editTicketAction.php".toList
  remoteAddr := "127.0.0.1".toList

theorem sendable_twoNames : twoNames.Sendable := by
  constructor <;> decide +kernel

theorem sent_request (form : TicketForm) : form.Sent form.request := by
  constructor <;> rfl

/-- The pages show `Achats` and `Paye`. -/
theorem not_pagesAgree_twoNames :
    twoNames.Sendable ∧ twoNames.Sent twoNames.request ∧
      ¬PagesAgree ⟨1, 9, 2010⟩ twoNames.request := by
  refine ⟨sendable_twoNames, sent_request twoNames, ?_⟩
  rw [pagesAgree_application (sent_request twoNames) sendable_twoNames.priority]
  decide +kernel

/-- The same form with `--Autre--` chosen. -/
def oneName : TicketForm := { twoNames with application := "-1".toList }

theorem sendable_oneName : oneName.Sendable := by
  constructor <;> decide +kernel

/-- The pages show `Achats`. -/
theorem pagesAgree_oneName : PagesAgree ⟨1, 9, 2010⟩ oneName.request :=
  (pagesAgree_iff sendable_oneName (sent_request oneName) _).2 (by decide +kernel)

end Yahd
