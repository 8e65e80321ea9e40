/-
  The file of applications that the form offers (`app.csv`), as `getAppListFromFile`
  of `editTicket.php` reads it (tp3 and tp4 have the same function).

  A line is blank or names an application in its second field.  The loop tests for
  the end of the file before it reads, so that it may read an empty line last, and
  trims each line before it is cut and the name after: none of this shows in the
  list (`getAppListFromFile_lines`).
-/
import Cnam.Yahd.Pages

namespace Yahd

open Php

/-- The text of a line after its first `;`, up to the second one or to its end. -/
def secondField (line : Str) : Str := (line.dropWhile (· ≠ ';')).tail.takeWhile (· ≠ ';')

/-- The application that a line names. -/
def appNameOf (line : Str) : Str := trim (secondField line)

theorem secondField_append {a : Str} (ha : ';' ∉ a) (b : Str) :
    secondField (a ++ ';' :: b) = b.takeWhile (· ≠ ';') := by
  unfold secondField
  rw [List.dropWhile_append_of_pos (decide_ne_of_notMem ha)]
  simp

theorem notMem_of_blank {s : Str} (hs : Blank s) : ';' ∉ s := by
  intro h
  have hblank := hs ';' h
  simp [blanks] at hblank

/-- The second piece of a line that has one. -/
theorem column_one {line : Str} (h : ';' ∈ line) :
    column (explode ';' line) 1 = .str (secondField line) := by
  obtain ⟨a, b, rfl, ha⟩ := List.eq_append_cons_of_mem h
  rw [explode_append_cons ha, secondField_append ha]
  unfold column
  rw [List.getElem?_cons_succ, explode_head]

/-- Blank texts around a line do not change the application it names. -/
theorem appNameOf_blank {v w line : Str} (hv : Blank v) (hw : Blank w) (h : ';' ∈ line) :
    appNameOf (v ++ line ++ w) = appNameOf line := by
  obtain ⟨a, b, rfl, ha⟩ := List.eq_append_cons_of_mem h
  have hva : ';' ∉ v ++ a := by
    rw [List.mem_append, not_or]
    exact ⟨notMem_of_blank hv, ha⟩
  have hline : v ++ (a ++ ';' :: b) ++ w = (v ++ a) ++ ';' :: (b ++ w) := by simp
  unfold appNameOf
  rw [hline, secondField_append hva, secondField_append ha, List.takeWhile_append]
  split_ifs with hb
  · -- no other separator: the name goes up to the end of the line
    have hbw : b.takeWhile (· ≠ ';') = b := (List.takeWhile_prefix _).eq_of_length hb
    have hw' : w.takeWhile (· ≠ ';') = w := by
      rw [← List.append_nil w, List.takeWhile_append_of_pos
        (decide_ne_of_notMem (notMem_of_blank hw))]
      simp
    rw [hw', hbw, trim_append_blank b hw]
  · rfl

/-! ## The loop -/

/-- One turn of the loop, on what `fgets` has read. -/
def readApp (read : Option Str) (result : List Str) : List Str :=
  let line := trim (read.getD [])
  if truthy line then result ++ [trim (column (explode ';' line) 1).toStr] else result

theorem getAppListFromFile_eq {fs : FileSystem} {filePath fd : Str} (h : fs filePath = some fd) :
    getAppListFromFile fs filePath = .ok (whileNotFeof readApp fd []) := by
  unfold getAppListFromFile; rw [h]; rfl

/-- **One turn**: a blank line is passed over, another one gives the application it names. -/
theorem readApp_line {line stop : Str} (hstop : Blank stop) (hline : Blank line ∨ ';' ∈ line)
    (result : List Str) :
    readApp (some (line ++ stop)) result =
      if Blank line then result else result ++ [appNameOf line] := by
  unfold readApp
  rw [Option.getD_some, trim_append_blank line hstop]
  by_cases hb : Blank line
  · rw [if_pos hb, trim_blank hb]
    rfl
  · have hsep : ';' ∈ trim line := (mem_trim (by decide) line).2 (hline.resolve_left hb)
    -- the name does not depend on what `trim` takes off the line
    obtain ⟨v, w, hv, hw, htrim⟩ := exists_trim line
    have hname : appNameOf line = appNameOf (trim line) := by
      conv_lhs => rw [htrim]
      exact appNameOf_blank hv hw hsep
    simp only [truthy_of_mem hsep (by decide), if_true, if_neg hb, column_one hsep, hname]
    rfl

/-- The turns on the whole lines. -/
theorem foldl_readApp : ∀ {ls : List Line} (result : List Str),
    (∀ l ∈ ls, Blank l.val ∨ ';' ∈ l.val) →
    ls.foldl (fun s l => readApp (some l.bytes) s) result =
      (ls.map Line.val).foldl (fun s l => if Blank l then s else s ++ [appNameOf l]) result
  | [], _, _ => rfl
  | l :: ls, result, h => by
    rw [List.foldl_cons, List.map_cons, List.foldl_cons, Line.bytes,
      readApp_line (by decide) (h l (by simp))]
    exact foldl_readApp _ fun l' hl' => h l' (List.mem_cons_of_mem _ hl')

/-- The last turn, which may read nothing. -/
theorem readApp_rest {rest : Str} (h : Blank rest ∨ ';' ∈ rest) (result : List Str) :
    readApp (if rest = [] then none else some rest) result =
      if Blank rest then result else result ++ [appNameOf rest] := by
  rw [← readApp_line blank_nil h, List.append_nil]
  split_ifs with hne
  · rw [hne]; rfl
  · rfl

/-- A loop that skips some of its elements. -/
theorem foldl_filter_map {α β : Type} (p : α → Prop) [DecidablePred p] (f : α → β) :
    ∀ (l : List α) (s : List β),
      l.foldl (fun s a => if p a then s else s ++ [f a]) s = s ++ (l.filter (¬ p ·)).map f
  | [], s => by simp
  | a :: l, s => by
    rw [List.foldl_cons, foldl_filter_map p f l]
    by_cases ha : p a <;> simp [ha]

/-- **The application list is read whole**: one entry for each line that is not blank, in the order
    of the file, the text between its first `;` and its second one or its end, trimmed. -/
theorem getAppListFromFile_lines {fs : FileSystem} {filePath fd : Str}
    (h : fs filePath = some fd) (hlines : ∀ line ∈ explode '\n' fd, Blank line ∨ ';' ∈ line) :
    getAppListFromFile fs filePath =
      .ok (((explode '\n' fd).filter (¬ Blank ·)).map appNameOf) := by
  obtain ⟨ls, rest, rfl, hrest⟩ := exists_lines_rest fd
  have hcut : explode '\n' (contents ls ++ rest) = ls.map Line.val ++ [rest] := by
    rw [explode_contents, explode_of_notMem hrest]
  rw [hcut] at hlines ⊢
  have hls : ∀ l ∈ ls, Blank l.val ∨ ';' ∈ l.val :=
    fun l hl => hlines l.val (List.mem_append_left _ (List.mem_map_of_mem hl))
  have hskip := foldl_filter_map Blank appNameOf (ls.map Line.val ++ [rest]) []
  rw [List.foldl_append, List.nil_append] at hskip
  rw [getAppListFromFile_eq h, whileNotFeof,
    whileNotFeofFuel_contents readApp hrest ls _ [] (by omega), foldl_readApp [] hls,
    readApp_rest (hlines rest (by simp)), ← hskip]
  rfl

/-- The file of the tests with a carriage return, a blank line, a third column and no last line
    feed. -/
theorem getAppListFromFile_sample :
    getAppListFromFile
        (fun _ => some "1;    Paye\r\n \n3;  Achats;x\n4;Messagerie\t\t".toList) [] =
      .ok ["Paye".toList, "Achats".toList, "Messagerie".toList] :=
  (@getAppListFromFile_lines
    (fun _ => some "1;    Paye\r\n \n3;  Achats;x\n4;Messagerie\t\t".toList) [] _ rfl
    (by decide +kernel)).trans (by decide +kernel)

end Yahd
