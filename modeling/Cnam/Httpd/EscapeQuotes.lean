/-
  `ap_escape_quotes` of `util.c`: the room it counts, against what it writes.
-/
import Cnam.Httpd.EscapeLogitem

namespace Httpd

namespace EscapeQuotes

open EscapeLogitem (QUOTE BACKSLASH)

/-- The bytes that the first loop counts for a character. -/
def width (c : UInt8) : ℕ := if c = QUOTE then 2 else 1

/-- The first loop: the length that the memory is taken for, without the zero. -/
def newlen : Bytes → ℕ
  | [] => 0
  | [c] => width c
  | c :: d :: rest =>
    if c = BACKSLASH then 2 + newlen rest else width c + newlen (d :: rest)

/-- A character, with a backslash before it if it is a quote. -/
def quoted (c : UInt8) : Bytes := if c = QUOTE then [BACKSLASH, c] else [c]

/-- The second loop. After an escape the character that follows is copied in the same turn, and is
    not looked at as the start of an escape. -/
def apEscapeQuotes : Bytes → Bytes
  | [] => []
  | [c] => quoted c
  | [c, d] => if c = BACKSLASH then [c, d] else quoted c ++ quoted d
  | c :: d :: e :: rest =>
    if c = BACKSLASH then c :: d :: (quoted e ++ apEscapeQuotes rest)
    else quoted c ++ apEscapeQuotes (d :: e :: rest)

/-- No escape comes right after another one. -/
def Apart : Bytes → Prop
  | [] => True
  | [_] => True
  | c :: d :: rest =>
    if c = BACKSLASH then rest.head? ≠ some BACKSLASH ∧ Apart rest else Apart (d :: rest)

variable {c : UInt8} {s : Bytes}

theorem apEscapeQuotes_plain (hc : c ≠ BACKSLASH) (rest : Bytes) :
    apEscapeQuotes (c :: rest) = quoted c ++ apEscapeQuotes rest := by
  match rest with
  | [] => exact (List.append_nil _).symm
  | [d] => simp only [apEscapeQuotes, if_neg hc]
  | d :: e :: rest => rw [apEscapeQuotes, if_neg hc]

theorem length_quoted (c : UInt8) : (quoted c).length = width c := by
  rw [quoted, width]
  split_ifs
  · rfl
  · rfl

theorem length_of_apart (h : Apart s) : (apEscapeQuotes s).length = newlen s := by
  induction s using newlen.induct with
  | case1 => rfl
  | case2 c => exact length_quoted c
  | case3 d rest ih =>
    rw [Apart, if_pos rfl] at h
    have hrest := ih h.2
    cases rest with
    | nil => rfl
    | cons e rest =>
      have he : e ≠ BACKSLASH := by
        rintro rfl
        exact h.1 rfl
      rw [apEscapeQuotes_plain he] at hrest
      rw [apEscapeQuotes, if_pos rfl, newlen, if_pos rfl, ← hrest, List.length_cons,
        List.length_cons]
      omega
  | case4 c d rest hc ih =>
    rw [Apart, if_neg hc] at h
    rw [apEscapeQuotes_plain hc, List.length_append, ih h, length_quoted, newlen, if_neg hc]

/-- `\a\"`, again and again. -/
def twice : ℕ → Bytes
  | 0 => []
  | n + 1 => BACKSLASH :: 97 :: BACKSLASH :: QUOTE :: twice n

theorem newlen_twice (n : ℕ) : newlen (twice n) = 4 * n := by
  induction n with
  | zero => rfl
  | succ n ih =>
    rw [twice, newlen, if_pos rfl, newlen, if_pos rfl, ih]
    omega

theorem length_twice (n : ℕ) : (apEscapeQuotes (twice n)).length = 5 * n := by
  induction n with
  | zero => rfl
  | succ n ih =>
    have hstep : apEscapeQuotes (twice (n + 1)) =
        BACKSLASH :: 97 :: BACKSLASH :: BACKSLASH :: QUOTE :: apEscapeQuotes (twice n) := by
      rw [twice, apEscapeQuotes, if_pos rfl, apEscapeQuotes_plain (by decide)]
      rfl
    rw [hstep]
    simp only [List.length_cons, ih]
    omega

theorem zero_notMem_twice (n : ℕ) : 0 ∉ twice n := by
  induction n with
  | zero => exact List.not_mem_nil
  | succ n ih =>
    simp only [twice, List.mem_cons, ih, or_false]
    decide

/-- **The two loops of `ap_escape_quotes` count differently.** They agree where no escape comes
    right after another; without this, what is written may go beyond the memory that was taken, by
    a byte for each copy of `\a\"`. -/
theorem escape_quotes_room :
    (∀ s, Apart s → (apEscapeQuotes s).length = newlen s) ∧
      ∀ n, 0 ∉ twice n ∧ (apEscapeQuotes (twice n)).length = newlen (twice n) + n := by
  refine ⟨fun s => length_of_apart, fun n => ⟨zero_notMem_twice n, ?_⟩⟩
  rw [length_twice, newlen_twice]
  omega

end EscapeQuotes

end Httpd
