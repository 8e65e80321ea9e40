/-
  What is written to the logs (`ap_escape_logitem` and `ap_escape_errorlog_item` of `util.c`),
  against a reader of the items.
-/
import Cnam.Httpd.UnescapeUrl
import Cnam.Lib.Transducer

namespace Httpd

namespace EscapeLogitem

open UnescapeUrl (x2c c2x)
open Transducer

/-- A double quote. -/
abbrev QUOTE : UInt8 := 34
/-- A backslash. -/
abbrev BACKSLASH : UInt8 := 92

/-- `apr_isprint` -/
def isprint (c : UInt8) : Bool := 32 ≤ c && c ≤ 126

/-- `T_ESCAPE_LOGITEM` -/
def tEscapeLogitem (c : UInt8) : Bool :=
  c != 0 && (!isprint c || c == QUOTE || c == BACKSLASH || iscntrl c)

/-- The letters of `\b`, `\n`, `\r`, `\t` and `\v`. -/
def letter (c : UInt8) : Option UInt8 :=
  if c = 8 then some 98
  else if c = LF then some 110
  else if c = CR then some 114
  else if c = TAB then some 116
  else if c = 11 then some 118
  else none

/-- What `ap_escape_logitem` writes for a character. -/
def logitem (c : UInt8) : Bytes :=
  if tEscapeLogitem c then
    BACKSLASH :: match letter c with
      | some l => [l]
      | none => if c = BACKSLASH ∨ c = QUOTE then [c] else c2x c 120
  else [c]

/-- `ap_escape_logitem`. -/
def apEscapeLogitem (str : Bytes) : Bytes := str.flatMap logitem

/-- The loop of `ap_escape_errorlog_item`, with the room that is left. -/
def errorlogLoop : ℕ → Bytes → Bytes
  | 0, _ => []
  | _ + 1, [] => []
  | room + 1, c :: s =>
    if tEscapeLogitem c then
      if room = 0 then []
      else match letter c with
        | some l => BACKSLASH :: l :: errorlogLoop (room - 1) s
        | none =>
          if c = BACKSLASH then BACKSLASH :: c :: errorlogLoop (room - 1) s
          else if c = QUOTE then c :: errorlogLoop room s
          else if room ≤ 2 then []
          else BACKSLASH :: (c2x c 120 ++ errorlogLoop (room - 3) s)
    else c :: errorlogLoop room s

/-- `ap_escape_errorlog_item`, without the zero at the end. -/
def apEscapeErrorlogItem (source : Bytes) (buflen : ℕ) : Bytes :=
  errorlogLoop (buflen - 1) source

/-! ## Reading an item -/

/-- Whether a backslash was read just before. -/
inductive Reader where
  | text
  | escaped
  | hex
  | hexLow (high : UInt8)
  | closed
  deriving DecidableEq

/-- The character that a letter after a backslash stands for. -/
def unletter (l : UInt8) : Option UInt8 :=
  if l = 98 then some 8
  else if l = 110 then some LF
  else if l = 114 then some CR
  else if l = 116 then some TAB
  else if l = 118 then some 11
  else if l = BACKSLASH ∨ l = QUOTE then some l
  else none

/-- One character of an item in quotes; a control character and what follows the quote at the end
    are refused. -/
def Reader.step : Reader → UInt8 → Option (Reader × Bytes)
  | text, c =>
    if c = QUOTE then some (closed, [])
    else if c = BACKSLASH then some (escaped, [])
    else if isprint c then some (text, [c])
    else none
  | escaped, c => if c = 120 then some (hex, []) else (unletter c).map fun d => (text, [d])
  | hex, c => if isxdigit c then some (hexLow c, []) else none
  | hexLow high, c => if isxdigit c then some (text, [x2c high c]) else none
  | closed, _ => none

theorem run_logitem {c : UInt8} (hc : c ≠ 0) :
    run Reader.step .text (logitem c) = some (.text, [c]) :=
  forall_byte (P := fun c => c ≠ 0 → run Reader.step .text (logitem c) = some (.text, [c]))
    (by decide +kernel) c hc

theorem run_apEscapeLogitem {str : Bytes} (hzero : 0 ∉ str) :
    run Reader.step .text (apEscapeLogitem str) = some (.text, str) := by
  induction str with
  | nil => rfl
  | cons c str ih =>
    exact run_append (run_logitem (List.ne_of_not_mem_cons hzero).symm)
      (ih (List.not_mem_of_not_mem_cons hzero))

theorem isprint_logitem {c : UInt8} (hc : c ≠ 0) : (logitem c).all isprint = true :=
  forall_byte (P := fun c => c ≠ 0 → (logitem c).all isprint = true) (by decide +kernel) c hc

/-- A closed item takes nothing more. -/
theorem not_closed {t u : Reader} {is out : Bytes} (h : run Reader.step t is = some (u, out))
    (hu : u ≠ .closed) : t ≠ .closed := by
  rintro rfl
  cases is with
  | nil =>
    rw [run_nil] at h
    exact hu (Prod.mk.inj (Option.some.inj h)).1.symm
  | cons c is =>
    rw [run_cons_none Reader.step rfl] at h
    cases h

/-- **A logged item is one item, whoever chose its text**: it has printable characters only, so that
    it never starts a line; none of them ends the item, the quote after it does; and what is read is
    what was logged. -/
theorem logitem_read_back (str : Bytes) (hzero : 0 ∉ str) :
    (∀ c ∈ apEscapeLogitem str, isprint c = true) ∧
      (∀ front, front <+: apEscapeLogitem str →
        ∃ t out, run Reader.step .text front = some (t, out) ∧ t ≠ .closed) ∧
      run Reader.step .text (apEscapeLogitem str ++ [QUOTE]) = some (.closed, str) := by
  have hrun := run_apEscapeLogitem hzero
  refine ⟨?_, ?_, ?_⟩
  · intro c hc
    obtain ⟨d, hd, hc⟩ := List.mem_flatMap.1 hc
    have hne : d ≠ 0 := by
      rintro rfl
      exact hzero hd
    exact List.all_eq_true.1 (isprint_logitem hne) c hc
  · rintro front ⟨rest, hrest⟩
    rw [← hrest] at hrun
    obtain ⟨t, out, out', hfront, hafter, -⟩ := run_append_some.1 hrun
    refine ⟨t, out, hfront, not_closed hafter ?_⟩
    intro h
    cases h
  · have hquote : run Reader.step .text [QUOTE] = some (.closed, []) := rfl
    have hclose := run_append hrun hquote
    rwa [List.append_nil] at hclose

theorem logitem_read_back_forged :
    (0 : UInt8) ∉ [QUOTE, LF, 200] ∧
      run Reader.step .text (apEscapeLogitem [QUOTE, LF, 200] ++ [QUOTE]) =
        some (.closed, [QUOTE, LF, 200]) :=
  ⟨by decide, (logitem_read_back [QUOTE, LF, 200] (by decide)).2.2⟩

/-! ## The error log -/

/-- What `ap_escape_errorlog_item` writes for a character; a quote is written as it is. -/
def errorlogItem (c : UInt8) : Bytes := if c = QUOTE then [c] else logitem c

variable {room : ℕ} {c : UInt8} {s : Bytes}

/-- A character is written as a whole or not at all. -/
theorem errorlogLoop_cons (room : ℕ) (c : UInt8) (s : Bytes) :
    (errorlogLoop (room + 1) (c :: s) = [] ∧ room + 1 ≤ (errorlogItem c).length) ∨
      (errorlogLoop (room + 1) (c :: s) =
          errorlogItem c ++ errorlogLoop (room + 1 - (errorlogItem c).length) s ∧
        (errorlogItem c).length ≤ room + 1) := by
  by_cases hquote : c = QUOTE
  · have hloop : errorlogLoop (room + 1) (QUOTE :: s) =
        if room = 0 then [] else QUOTE :: errorlogLoop room s := by
      rw [errorlogLoop]
      rfl
    rw [hquote, hloop]
    split_ifs with hroom
    · exact Or.inl ⟨rfl, by simp [hroom, errorlogItem]⟩
    · exact Or.inr ⟨rfl, by simp [errorlogItem]⟩
  · have hitem : errorlogItem c = logitem c := if_neg hquote
    rw [errorlogLoop, hitem, logitem]
    by_cases htest : tEscapeLogitem c = true
    · rw [if_pos htest, if_pos htest]
      by_cases hroom : room = 0
      · rw [if_pos hroom]
        exact Or.inl ⟨rfl, by simp [hroom]⟩
      · rw [if_neg hroom]
        cases letter c with
        | some l => exact Or.inr ⟨rfl, by simp; omega⟩
        | none =>
          by_cases hbackslash : c = BACKSLASH
          · simp only [hbackslash, if_true, true_or]
            exact Or.inr ⟨rfl, by simp; omega⟩
          · simp only [hbackslash, hquote, if_false, or_self]
            by_cases hlong : room ≤ 2
            · rw [if_pos hlong]
              exact Or.inl ⟨rfl, by simp [c2x]; omega⟩
            · rw [if_neg hlong]
              exact Or.inr ⟨rfl, by simp [c2x]; omega⟩
    · rw [if_neg htest, if_neg htest]
      exact Or.inr ⟨rfl, by simp⟩

theorem errorlogLoop_pieces (room : ℕ) (s : Bytes) :
    ∃ front, front <+: s ∧ errorlogLoop room s = front.flatMap errorlogItem ∧
      (front.flatMap errorlogItem).length ≤ room ∧
      ((s.flatMap errorlogItem).length < room → front = s) := by
  induction s generalizing room with
  | nil =>
    refine ⟨[], List.prefix_rfl, ?_, by simp, fun _ => rfl⟩
    cases room <;> rfl
  | cons c s ih =>
    cases room with
    | zero => exact ⟨[], List.nil_prefix, rfl, by simp, by simp⟩
    | succ room =>
      rcases errorlogLoop_cons room c s with ⟨hnil, hlong⟩ | ⟨hcons, hfits⟩
      · refine ⟨[], List.nil_prefix, hnil, by simp, ?_⟩
        intro hlength
        rw [List.flatMap_cons, List.length_append] at hlength
        omega
      · obtain ⟨front, hstart, hloop, hroom, hall⟩ := ih (room + 1 - (errorlogItem c).length)
        refine ⟨c :: front, List.cons_prefix_cons.2 ⟨rfl, hstart⟩, ?_, ?_, ?_⟩
        · rw [hcons, hloop, List.flatMap_cons]
        · rw [List.flatMap_cons, List.length_append]
          omega
        · intro hlength
          rw [List.flatMap_cons, List.length_append] at hlength
          rw [hall (by omega)]

theorem isprint_errorlogItem (hc : c ≠ 0) : (errorlogItem c).all isprint = true := by
  rw [errorlogItem]
  split_ifs with hquote
  · rw [hquote]
    rfl
  · exact isprint_logitem hc

/-- **An item of the error log** fits in the buffer with the zero after it; it is what a start of
    the source is escaped to, so that no escape is cut, and all of the source where there is room
    for one character more; and it has printable characters only. -/
theorem errorlog_item_fits (source : Bytes) (buflen : ℕ) :
    ∃ front, front <+: source ∧
      apEscapeErrorlogItem source buflen = front.flatMap errorlogItem ∧
      (0 < buflen → (apEscapeErrorlogItem source buflen).length < buflen) ∧
      ((source.flatMap errorlogItem).length + 1 < buflen → front = source) ∧
      (0 ∉ source → ∀ c ∈ apEscapeErrorlogItem source buflen, isprint c = true) := by
  obtain ⟨front, hstart, hloop, hroom, hall⟩ := errorlogLoop_pieces (buflen - 1) source
  refine ⟨front, hstart, hloop, ?_, ?_, ?_⟩
  · intro hpos
    rw [apEscapeErrorlogItem, hloop]
    omega
  · intro hlength
    exact hall (by omega)
  · intro hzero c hc
    rw [apEscapeErrorlogItem, hloop] at hc
    obtain ⟨d, hd, hc⟩ := List.mem_flatMap.1 hc
    have hne : d ≠ 0 := by
      rintro rfl
      exact hzero (hstart.subset hd)
    exact List.all_eq_true.1 (isprint_errorlogItem hne) c hc

end EscapeLogitem

end Httpd
