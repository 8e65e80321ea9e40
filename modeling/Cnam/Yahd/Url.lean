/-
  URLs, and the parameters of a request that the login form and the redirection carry on
  (`urlfunc.inc.php`).
-/
import Mathlib.Data.List.TakeWhile
import Cnam.Php.Request

namespace Yahd

open Php

/-- One turn of the loop that fills `$map`. -/
def storeArg (map : Arr Str) (arg : Str) : Arr Str :=
  match strpos arg '=' with
  | none => map
  | some pos =>
    let argName := arg.take pos
    let argValue := arg.drop (pos + 1)
    map.set (Key.ofVal (.str argName)) argValue

/-- One turn of the loop that builds the result. -/
def printArg (result : Str) (arg : Key × Str) : Str :=
  let result := if result ≠ [] then result ++ "&".toList else result
  result ++ arg.1.toVal.toStr ++ "=".toList ++ arg.2

/-- remove duplicate arguments -/
def removeDuplicateURLArgs (argsStr : Str) : Str :=
  let argsArray := explode '&' argsStr
  let map := argsArray.foldl storeArg []
  map.foldl printArg []

/-- `appendURLArg`. -/
def appendURLArg (URL args : Str) : Str :=
  let (requestURI, currentURIargs) := match strpos URL '?' with
    | none => (URL, args)
    | some pos => (URL.take pos, URL.drop (pos + 1) ++ "&".toList ++ args)
  let URIargs := removeDuplicateURLArgs currentURIargs
  requestURI ++ "?".toList ++ URIargs

/-- `getCurrentScriptFullPath`. -/
def getCurrentScriptFullPath (req : Request) : Str :=
  let requestURI := req.requestURI
  match strpos requestURI '?' with
  | none => requestURI
  | some pos => requestURI.take pos

/-- returns the value of an HTTP parameter -/
def getHttpParameter (req : Request) (paramName : String) (defaultValue : Str) : Str :=
  (req.param? paramName).getD defaultValue

/-- `array_search($key, $names)`; `none` is PHP's `false`. -/
def arraySearch (key : Key) (names : List Str) : Option ℕ :=
  names.findIdx? fun name => looseEq key.toVal (.str name)

/-- `$a + $b`: the entries of `b` whose keys `a` does not have come last. -/
def arrayUnion (a b : Arr Str) : Arr Str := a ++ b.filter fun e => e.1 ∉ a.map Prod.fst

/-- A hidden input for a parameter. -/
def hiddenParam (key : Key) (value : Str) : Str :=
  " <INPUT name=\"".toList ++ key.toVal.toStr ++ "\" type=\"hidden\"  value=\"".toList ++ value ++
  "\"> ".toList

/-- `getAllRequestParamsAsHiddenParams`. -/
def getAllRequestParamsAsHiddenParams (req : Request) (excludeNames : List Str) : Str :=
  (arrayUnion req.get req.post).foldl (fun res e =>
    if looseEq e.1.toVal (.str "PHPSESSID".toList) then res
    else match arraySearch e.1 excludeNames with
      | none => res ++ hiddenParam e.1 e.2
      | some _ => res) []

/-- `appendPostParamsToURL`. -/
def appendPostParamsToURL (req : Request) (URL : Str) (excludeNames : List Str) : Str :=
  req.post.foldl (fun URL e =>
    match arraySearch e.1 excludeNames with
    | none => appendURLArg URL (e.1.toVal.toStr ++ "=".toList ++ e.2)
    | some _ => URL) URL

/-! ## The path of a URL -/

/-- The part of a URL before its query. -/
def pathOf (URL : Str) : Str := URL.takeWhile (· ≠ '?')

theorem pathOf_append {a : Str} (h : '?' ∉ a) (b : Str) : pathOf (a ++ '?' :: b) = a := by
  unfold pathOf
  rw [List.takeWhile_append_of_pos (decide_ne_of_notMem h)]
  simp

theorem pathOf_of_notMem {a : Str} (h : '?' ∉ a) : pathOf a = a :=
  List.takeWhile_eq_self_iff.2 (decide_ne_of_notMem h)

/-- **An argument leaves the path alone.** -/
theorem pathOf_appendURLArg (URL args : Str) : pathOf (appendURLArg URL args) = pathOf URL := by
  unfold appendURLArg
  cases hpos : strpos URL '?' with
  | none =>
    have hURL := strpos_none hpos
    rw [pathOf_of_notMem hURL]
    simp only [List.append_assoc]
    exact pathOf_append hURL _
  | some pos =>
    obtain ⟨hURL, hpath⟩ := strpos_some hpos
    simp only [List.append_assoc]
    refine (pathOf_append hpath _).trans ?_
    conv_rhs => rw [hURL]
    exact (pathOf_append hpath _).symm

theorem pathOf_appendPostParamsToURL (req : Request) (URL : Str) (excludeNames : List Str) :
    pathOf (appendPostParamsToURL req URL excludeNames) = pathOf URL := by
  unfold appendPostParamsToURL
  generalize req.post = post
  induction post generalizing URL with
  | nil => rfl
  | cons e post ih =>
    rw [List.foldl_cons, ih]
    cases arraySearch e.1 excludeNames with
    | none => exact pathOf_appendURLArg _ _
    | some _ => rfl

theorem getCurrentScriptFullPath_eq (req : Request) :
    getCurrentScriptFullPath req = pathOf req.requestURI := by
  simp only [getCurrentScriptFullPath]
  cases hpos : strpos req.requestURI '?' with
  | none => exact (pathOf_of_notMem (strpos_none hpos)).symm
  | some pos =>
    obtain ⟨hURI, hpath⟩ := strpos_some hpos
    conv_rhs => rw [hURI]
    exact (pathOf_append hpath _).symm

end Yahd
