/-
  What a request brings to a script: its parameters, an uploaded file, and the date of the
  server.
-/
import Cnam.Php.Stream
import Cnam.Php.Value

namespace Php

/-- An entry of `$_FILES`: the name the browser gives, and what was uploaded.  `tmp` is
    `none` when the field of the form was left empty. -/
structure Upload where
  name : Str
  tmp : Option Str

/-- A request.  Cookies carry nothing but the session. -/
structure Request where
  /-- `$_GET` -/
  get : Arr Str
  /-- `$_POST` -/
  post : Arr Str
  /-- `$_FILES['userfile']` -/
  userfile : Option Upload
  requestURI : Str
  phpSelf : Str
  remoteAddr : Str

namespace Request

/-- `$_REQUEST`: the parameters of both methods, a posted one over one of the URL. -/
def params (r : Request) : Arr Str := r.post.foldl (fun a e => a.set e.1 e.2) r.get

/-- `$_REQUEST[$name]`, if it is set. -/
def param? (r : Request) (name : String) : Option Str := r.params.get? (.str name.toList)

/-- `$_REQUEST[$name]`; an undefined one is `null`. -/
def param (r : Request) (name : String) : Val :=
  match r.param? name with
  | some s => .str s
  | none => .null

end Request

/-- `move_uploaded_file($_FILES[…]['tmp_name'], $destination)`, where `writable` says whether
    the server may write the destination.  Nothing happens when no file was uploaded. -/
def moveUploadedFile (writable : Bool) (fs : FileSystem) (file : Upload) (destination : Str) :
    FileSystem :=
  match file.tmp with
  | some content => if writable then Function.update fs destination (some content) else fs
  | none => fs

theorem moveUploadedFile_other (writable : Bool) (fs : FileSystem) (file : Upload)
    {destination path : Str} (h : path ≠ destination) :
    moveUploadedFile writable fs file destination path = fs path := by
  unfold moveUploadedFile
  cases file.tmp with
  | none => rfl
  | some content =>
    cases writable with
    | false => rfl
    | true => exact Function.update_of_ne h ..

/-- The destination has the file, unless nothing is moved. -/
theorem moveUploadedFile_self (writable : Bool) (fs : FileSystem) (file : Upload)
    (destination : Str) :
    moveUploadedFile writable fs file destination destination =
      (if writable then file.tmp else none).or (fs destination) := by
  unfold moveUploadedFile
  cases file.tmp with
  | none => simp
  | some content =>
    cases writable with
    | false => rfl
    | true => exact Function.update_self ..

/-! ## Dates -/

/-- A date of the calendar. -/
structure Date where
  day : ℕ
  month : ℕ
  year : ℕ

/-- `date('d/m/Y')` -/
def Date.dmY (d : Date) : Str :=
  (ofInt d.day).leftpad 2 '0' ++ "/".toList ++ (ofInt d.month).leftpad 2 '0' ++ "/".toList ++
    (ofInt d.year).leftpad 4 '0'

/-- A date is made of digits and slashes. -/
theorem Date.notMem_dmY (d : Date) {c : Char} (hc : c.isDigit = false) (hs : c ≠ '/')
    (hm : c ≠ '-') : c ∉ d.dmY := by
  have hpad : ∀ (n k : ℕ), c ∉ (ofInt k).leftpad n '0' := by
    intro n k hmem
    rcases List.mem_append.1 hmem with hmem | hmem
    · obtain ⟨-, rfl⟩ := List.mem_replicate.1 hmem
      simp at hc
    · exact notMem_ofInt hc hm hmem
  simp only [Date.dmY, List.mem_append, not_or]
  exact ⟨⟨⟨⟨hpad 2 d.day, by simpa using hs⟩, hpad 2 d.month⟩, by simpa using hs⟩, hpad 4 d.year⟩

end Php
