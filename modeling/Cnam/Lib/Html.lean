/-
  Reading a row of an HTML table.

  * `text` reads characters up to the next tag: line ends are normalised, `NUL` is dropped, and
    character references stand for the characters they name (`reference`).  The table of the
    named ones is a parameter (`Refs`).
  * `row` reads one `tr` element with its `td` cells.  It gives up on anything else: another
    element, a comment, a tag that browsers pass over, text between the cells.
  * A printed row shows the texts of its cells exactly when they have nothing that is read as
    something else (`Literal`): `row_printCells`.
-/
import Mathlib.Data.List.MinMax
import Mathlib.Tactic

namespace Html

/-- Texts, character by character. -/
abbrev Str := List Char

/-- White space. -/
def isSpace (c : Char) : Bool := c ∈ [' ', '\t', '\n', '\r', Char.ofNat 12]

/-- What is left after the spaces. -/
def skipSpaces (s : Str) : Str := s.dropWhile isSpace

/-! ## Character references -/

/-- The named character references: a name, with the semicolon that ends it, if any, and the text
    it stands for. -/
structure Refs where
  table : List (Str × Str)
  noTag : ∀ e ∈ table, '<' ∉ e.1
  short : ∀ e ∈ table, e.2.length ≤ e.1.length

/-- The reference with the longest name that `s` starts with, and what is left of `s`. -/
def named (refs : Refs) (s : Str) : Option (Str × Str) :=
  ((refs.table.filter fun e => e.1 <+: s).argmax fun e => e.1.length).map fun e =>
    (e.2, s.drop e.1.length)

/-- The value of a digit. -/
def digit (base : ℕ) (c : Char) : Option ℕ :=
  let n :=
    if c.isDigit then c.toNat - '0'.toNat
    else if 'a' ≤ c ∧ c ≤ 'f' then c.toNat - 'a'.toNat + 10
    else if 'A' ≤ c ∧ c ≤ 'F' then c.toNat - 'A'.toNat + 10
    else base
  if n < base then some n else none

/-- What the numbers from 128 to 159 stand for. -/
def controls : List ℕ :=
  [0x20AC, 0x81, 0x201A, 0x192, 0x201E, 0x2026, 0x2020, 0x2021, 0x2C6, 0x2030, 0x160, 0x2039,
   0x152, 0x8D, 0x17D, 0x8F, 0x90, 0x2018, 0x2019, 0x201C, 0x201D, 0x2022, 0x2013, 0x2014,
   0x2DC, 0x2122, 0x161, 0x203A, 0x153, 0x9D, 0x17E, 0x178]

/-- The character of a number; U+FFFD when there is none. -/
def charOf (n : ℕ) : Char :=
  if n = 0 ∨ ¬n.isValidChar then Char.ofNat 0xFFFD
  else if 0x80 ≤ n ∧ n ≤ 0x9F then Char.ofNat ((controls[n - 0x80]?).getD n)
  else Char.ofNat n

/-- The semicolon that may end a reference. -/
def dropSemicolon : Str → Str
  | ';' :: s => s
  | s => s

/-- At least one digit, and what is left. -/
def digits (base : ℕ) (s : Str) : Option (Str × Str) :=
  let ds := s.takeWhile fun c => (digit base c).isSome
  if ds = [] then none
  else
    let n := ds.foldl (fun n c => base * n + (digit base c).getD 0) 0
    some ([charOf n], dropSemicolon (s.dropWhile fun c => (digit base c).isSome))

/-- The base of a number, and what is left. -/
def numberBase : Str → ℕ × Str
  | 'x' :: s => (16, s)
  | 'X' :: s => (16, s)
  | s => (10, s)

/-- `#` and a number. -/
def numeric : Str → Option (Str × Str)
  | '#' :: s => digits (numberBase s).1 (numberBase s).2
  | _ => none

/-- What follows a `&`: the text of the reference, and what is left.  Without a reference there the
    `&` stands for itself. -/
def reference (refs : Refs) (s : Str) : Option (Str × Str) := (numeric s).or (named refs s)

/-! ## Text -/

/-- What follows a `<` that is not text: the start of a tag, a comment or a declaration. -/
def opensMarkup : Str → Bool
  | c :: _ => c.isAlpha || c ∈ ['/', '!', '?']
  | [] => false

/-- A line feed at the start is dropped. -/
def dropLineFeed : Str → Str
  | '\n' :: s => s
  | s => s

/-- The next piece of text and what is left, `none` at a tag and at the end. -/
def next (refs : Refs) : Str → Option (Str × Str)
  | [] => none
  | c :: s =>
    if c = '\r' then some (['\n'], dropLineFeed s)
    else if c = Char.ofNat 0 then some ([], s)
    else if c = '&' then some ((reference refs s).getD (['&'], s))
    else if c = '<' ∧ opensMarkup s then none
    else some ([c], s)

/-- The text up to the next tag, in at most `n` pieces, and what is left. -/
def textFuel (refs : Refs) : ℕ → Str → Str × Str
  | 0, s => ([], s)
  | n + 1, s => match next refs s with
    | none => ([], s)
    | some (d, rest) => (d ++ (textFuel refs n rest).1, (textFuel refs n rest).2)

/-- The text up to the next tag, and what is left.  Each piece takes at least one character. -/
def text (refs : Refs) (s : Str) : Str × Str := textFuel refs s.length s

/-! ## Tags -/

/-- The tags that matter. -/
inductive Tag where
  | start (name : Str)
  | stop (name : Str)
deriving DecidableEq

/-- Where the reader is in a tag, after its name. -/
inductive InTag where
  | beforeName
  | name
  | beforeValue
  | unquoted
  | double
  | single
deriving DecidableEq

/-- One character of a tag; `none` at the `>` that ends it. -/
def InTag.step : InTag → Char → Option InTag
  | beforeName, c =>
    if isSpace c ∨ c = '/' then some beforeName else if c = '>' then none else some name
  | name, c =>
    if c = '/' then some beforeName else if c = '>' then none
    else if c = '=' then some beforeValue else some name
  | beforeValue, c =>
    if isSpace c then some beforeValue else if c = '"' then some double
    else if c = '\'' then some single else if c = '>' then none else some unquoted
  | unquoted, c => if isSpace c then some beforeName else if c = '>' then none else some unquoted
  | double, c => if c = '"' then some beforeName else some double
  | single, c => if c = '\'' then some beforeName else some single

/-- What is left after the end of the tag. -/
def afterTag : InTag → Str → Option Str
  | _, [] => none
  | q, c :: s => match q.step c with
    | some q' => afterTag q' s
    | none => some s

/-- Whether a character belongs to the name of a tag. -/
def inName (c : Char) : Bool := !isSpace c && c ≠ '/' && c ≠ '>'

/-- A tag from its name on, and what is left.  A name starts with a letter. -/
def namedTag (kind : Str → Tag) (s : Str) : Option (Tag × Str) :=
  if (s.head?.map Char.isAlpha).getD false then
    (afterTag .beforeName (s.dropWhile inName)).map fun rest =>
      (kind ((s.takeWhile inName).map Char.toLower), rest)
  else none

/-- The tag that `s` starts with, and what is left; `none` for other markup. -/
def tag : Str → Option (Tag × Str)
  | '<' :: '/' :: s => namedTag .stop s
  | '<' :: s => namedTag .start s
  | _ => none

/-! ## Rows -/

/-- The name of a cell. -/
def td : Str := ['t', 'd']

/-- The name of a row. -/
def tr : Str := ['t', 'r']

/-- What is left after a cell: its end tag may be left out before the next cell and at the end of
    the row. -/
def closeCell (s : Str) : Option Str :=
  match tag s with
  | some (.stop name, rest) => if name = td then some rest else if name = tr then some s else none
  | some (.start name, _) => if name = td then some s else none
  | none => none

/-- The texts of the cells of a row of which the start tag has been read, if there are at most
    `n` and nothing else comes between and after them. -/
def readCells (refs : Refs) : ℕ → Str → Option (List Str)
  | 0, _ => none
  | n + 1, s => match tag (skipSpaces s) with
    | some (.start name, rest) =>
      if name = td then
        (closeCell (text refs rest).2).bind fun rest' =>
          (readCells refs n rest').map ((text refs rest).1 :: ·)
      else none
    | some (.stop name, rest) => if name = tr ∧ skipSpaces rest = [] then some [] else none
    | none => none

/-- The texts of the cells, if `s` is one row and nothing else.  Each cell takes at least one
    character. -/
def row (refs : Refs) (s : Str) : Option (List Str) :=
  match tag (skipSpaces s) with
  | some (.start name, rest) => if name = tr then readCells refs (rest.length + 1) rest else none
  | _ => none

/-! ## Nothing reads across a tag -/

section
variable {p : Char → Bool} (hp : p '<' = false)
include hp

theorem takeWhile_lt (s r : Str) : (s ++ '<' :: r).takeWhile p = s.takeWhile p := by
  induction s with
  | nil => simp [hp]
  | cons c s ih =>
    rw [List.cons_append, List.takeWhile_cons, List.takeWhile_cons, ih]

theorem dropWhile_lt (s r : Str) : (s ++ '<' :: r).dropWhile p = s.dropWhile p ++ '<' :: r := by
  induction s with
  | nil => simp [hp]
  | cons c s ih =>
    rw [List.cons_append, List.dropWhile_cons, List.dropWhile_cons, ih]
    split <;> rfl

end

/-- What a reader leaves when a tag follows. -/
def leaving (r : Str) (x : Str × Str) : Str × Str := (x.1, x.2 ++ '<' :: r)

theorem dropSemicolon_lt (s r : Str) :
    dropSemicolon (s ++ '<' :: r) = dropSemicolon s ++ '<' :: r := by
  cases s with
  | nil => rfl
  | cons c s =>
    by_cases hc : c = ';'
    · subst hc; rfl
    · simp [dropSemicolon, hc]

theorem digits_lt (base : ℕ) (s r : Str) :
    digits base (s ++ '<' :: r) = (digits base s).map (leaving r) := by
  have hp : (digit base '<').isSome = false := by
    have hnone : digit base '<' = none := if_neg (lt_irrefl base)
    rw [hnone]
    rfl
  unfold digits
  rw [takeWhile_lt hp, dropWhile_lt hp, dropSemicolon_lt]
  dsimp only
  split_ifs <;> rfl

theorem numberBase_lt (s r : Str) :
    numberBase (s ++ '<' :: r) = ((numberBase s).1, (numberBase s).2 ++ '<' :: r) := by
  cases s with
  | nil => rfl
  | cons c s =>
    by_cases hx : c = 'x'
    · subst hx; rfl
    · by_cases hX : c = 'X'
      · subst hX; rfl
      · simp [numberBase, hx, hX]

theorem numeric_lt (s r : Str) : numeric (s ++ '<' :: r) = (numeric s).map (leaving r) := by
  cases s with
  | nil => rfl
  | cons c s =>
    by_cases hc : c = '#'
    · subst hc
      show digits (numberBase (s ++ '<' :: r)).1 (numberBase (s ++ '<' :: r)).2 = _
      rw [numberBase_lt, digits_lt]
      rfl
    · simp [numeric, hc]

/-- A name is a prefix of the text or not, whatever tag follows. -/
theorem prefix_lt {name : Str} (hname : '<' ∉ name) (s r : Str) :
    name <+: s ++ '<' :: r ↔ name <+: s := by
  have htag : s ++ ['<'] <+: s ++ '<' :: r := ⟨r, by simp⟩
  constructor
  · intro h
    rcases Nat.lt_or_ge s.length name.length with hlen | hlen
    · have hin : s ++ ['<'] <+: name :=
        List.prefix_of_prefix_length_le htag h (by rw [List.length_append]; exact hlen)
      exact absurd (hin.subset (by simp)) hname
    · exact List.prefix_of_prefix_length_le h (List.prefix_append _ _) hlen
  · intro h
    exact h.trans (List.prefix_append _ _)

theorem named_lt (refs : Refs) (s r : Str) :
    named refs (s ++ '<' :: r) = (named refs s).map (leaving r) := by
  have hfilter : refs.table.filter (fun e => e.1 <+: s ++ '<' :: r) =
      refs.table.filter fun e => e.1 <+: s :=
    List.filter_congr fun e he => decide_eq_decide.2 (prefix_lt (refs.noTag e he) s r)
  unfold named
  rw [hfilter]
  cases hlongest : (refs.table.filter fun e => e.1 <+: s).argmax fun e => e.1.length with
  | none => rfl
  | some e =>
    have he := of_decide_eq_true (List.mem_filter.1 (List.argmax_mem hlongest)).2
    show some (e.2, (s ++ '<' :: r).drop e.1.length) = some (e.2, s.drop e.1.length ++ '<' :: r)
    rw [List.drop_append_of_le_length he.length_le]

theorem reference_lt (refs : Refs) (s r : Str) :
    reference refs (s ++ '<' :: r) = (reference refs s).map (leaving r) := by
  unfold reference
  rw [numeric_lt, named_lt]
  cases numeric s <;> rfl

theorem opensMarkup_lt (s r : Str) : opensMarkup (s ++ '<' :: r) = opensMarkup s := by
  cases s <;> rfl

theorem dropLineFeed_lt (s r : Str) :
    dropLineFeed (s ++ '<' :: r) = dropLineFeed s ++ '<' :: r := by
  cases s with
  | nil => rfl
  | cons c s =>
    by_cases hc : c = '\n'
    · subst hc; rfl
    · simp [dropLineFeed, hc]

/-- The pieces of a text are the same when a tag follows. -/
theorem next_lt (refs : Refs) {s : Str} (hs : s ≠ []) (r : Str) :
    next refs (s ++ '<' :: r) = (next refs s).map (leaving r) := by
  cases s with
  | nil => exact absurd rfl hs
  | cons c s =>
    rw [List.cons_append, next, next, dropLineFeed_lt, reference_lt, opensMarkup_lt]
    split_ifs
    · rfl
    · rfl
    · cases reference refs s <;> rfl
    · rfl
    · rfl

/-! ## No text gets longer -/

theorem dropSemicolon_length (s : Str) : (dropSemicolon s).length ≤ s.length := by
  unfold dropSemicolon
  split <;> simp

theorem digits_length {base : ℕ} {s : Str} {x : Str × Str} (h : digits base s = some x) :
    x.1.length + x.2.length ≤ s.length := by
  have hcut := congrArg List.length
    (List.takeWhile_append_dropWhile (p := fun c => (digit base c).isSome) (l := s))
  rw [List.length_append] at hcut
  unfold digits at h
  dsimp only at h
  split_ifs at h with hnil
  obtain rfl := Option.some.inj h
  have hpos := List.length_pos_iff.2 hnil
  have hsemi := dropSemicolon_length (s.dropWhile fun c => (digit base c).isSome)
  dsimp only
  rw [List.length_singleton]
  omega

theorem numberBase_length (s : Str) : (numberBase s).2.length ≤ s.length := by
  unfold numberBase
  split <;> simp

theorem numeric_length {s : Str} {x : Str × Str} (h : numeric s = some x) :
    x.1.length + x.2.length ≤ s.length := by
  unfold numeric at h
  split at h
  · rename_i s
    have hdigits := digits_length h
    have hbase := numberBase_length s
    rw [List.length_cons]
    omega
  · cases h

theorem named_length {refs : Refs} {s : Str} {x : Str × Str} (h : named refs s = some x) :
    x.1.length + x.2.length ≤ s.length := by
  unfold named at h
  obtain ⟨e, hlongest, rfl⟩ := Option.map_eq_some_iff.1 h
  obtain ⟨hmem, hprefix⟩ := List.mem_filter.1 (List.argmax_mem hlongest)
  have hshort := refs.short e hmem
  have hlen := (of_decide_eq_true hprefix).length_le
  dsimp only
  rw [List.length_drop]
  omega

theorem reference_length {refs : Refs} {s : Str} {x : Str × Str} (h : reference refs s = some x) :
    x.1.length + x.2.length ≤ s.length := by
  rcases Option.or_eq_some_iff.1 h with h | ⟨-, h⟩
  · exact numeric_length h
  · exact named_length h

theorem dropLineFeed_length (s : Str) : (dropLineFeed s).length ≤ s.length := by
  unfold dropLineFeed
  split <;> simp

/-- A piece stands for at least as many characters as it has. -/
theorem next_length {refs : Refs} {s : Str} {x : Str × Str} (h : next refs s = some x) :
    x.1.length + x.2.length ≤ s.length := by
  cases s with
  | nil => cases h
  | cons c s =>
    rw [next] at h
    rw [List.length_cons]
    split_ifs at h
    · obtain rfl := Option.some.inj h
      have hline := dropLineFeed_length s
      dsimp only
      rw [List.length_singleton]
      omega
    · obtain rfl := Option.some.inj h
      simp
    · obtain rfl := Option.some.inj h
      cases href : reference refs s with
      | none => simp; omega
      | some x =>
        have hlen := reference_length href
        rw [Option.getD_some]
        omega
    · obtain rfl := Option.some.inj h
      simp
      omega

/-! ## Literal texts -/

/-- The character `c` before `s` is read as itself. -/
def Plain (refs : Refs) (c : Char) (s : Str) : Prop :=
  c ≠ '\r' ∧ c ≠ Char.ofNat 0 ∧ (c = '&' → reference refs s = none) ∧
    ¬(c = '<' ∧ opensMarkup s = true)

instance (refs : Refs) (c : Char) (s : Str) : Decidable (Plain refs c s) :=
  inferInstanceAs (Decidable (_ ∧ _))

/-- A text without carriage return and `NUL`, in which no `<` is followed by a letter, `/`, `!` or
    `?` and no `&` by a reference. -/
def Literal (refs : Refs) : Str → Prop
  | [] => True
  | c :: s => Plain refs c s ∧ Literal refs s

instance (refs : Refs) : (s : Str) → Decidable (Literal refs s)
  | [] => inferInstanceAs (Decidable True)
  | c :: s =>
    haveI := instDecidableLiteral refs s
    inferInstanceAs (Decidable (Plain refs c s ∧ Literal refs s))

theorem next_of_plain {refs : Refs} {c : Char} {s : Str} (h : Plain refs c s) :
    next refs (c :: s) = some ([c], s) := by
  obtain ⟨hcr, hnul, href, htag⟩ := h
  rw [next, if_neg hcr, if_neg hnul]
  split_ifs with hamp
  · rw [href hamp, hamp]
    rfl
  · rfl

section
variable {refs : Refs} {r : Str} (hr : opensMarkup r = true)
include hr

theorem next_tag : next refs ('<' :: r) = none := by
  rw [next, if_neg (by decide), if_neg (by decide), if_neg (by decide), if_pos ⟨rfl, hr⟩]

/-- The text before a tag is not longer than what is written. -/
theorem textFuel_length : ∀ (n : ℕ) (s : Str),
    (textFuel refs n (s ++ '<' :: r)).1.length ≤ s.length
  | 0, s => Nat.zero_le _
  | n + 1, s => by
    by_cases hs : s = []
    · subst hs
      rw [List.nil_append, textFuel, next_tag hr]
    · rw [textFuel, next_lt refs hs]
      cases hnext : next refs s with
      | none => exact Nat.zero_le _
      | some x =>
        have hpiece := next_length hnext
        have hrest := textFuel_length n x.2
        show (x.1 ++ (textFuel refs n (x.2 ++ '<' :: r)).1).length ≤ s.length
        rw [List.length_append]
        omega

theorem textFuel_literal : ∀ (n : ℕ) (s : Str), s.length ≤ n → Literal refs s →
    textFuel refs n (s ++ '<' :: r) = (s, '<' :: r)
  | 0, [], _, _ => rfl
  | n + 1, [], _, _ => by rw [List.nil_append, textFuel, next_tag hr]
  | n + 1, c :: s, hn, h => by
    have hrest := textFuel_literal n s (by simpa using hn) h.2
    rw [textFuel, next_lt refs (by simp), next_of_plain h.1]
    show ([c] ++ (textFuel refs n (s ++ '<' :: r)).1, (textFuel refs n (s ++ '<' :: r)).2) = _
    rw [hrest]
    rfl

/-- A character that is not plain is not read as itself. -/
theorem textFuel_not_plain {c : Char} {s : Str} (h : ¬Plain refs c s) (n : ℕ) :
    (textFuel refs (n + 1) (c :: s ++ '<' :: r)).1 ≠ c :: s := by
  intro heq
  rw [textFuel, next_lt refs (by simp), next] at heq
  split_ifs at heq with hcr hnul hamp htag
  · -- a line feed instead of a carriage return
    rw [hcr] at heq
    exact absurd (List.cons.inj heq).1 (by decide)
  · have hlen : (textFuel refs n (s ++ '<' :: r)).1.length ≤ s.length := textFuel_length hr n s
    have hsame : (textFuel refs n (s ++ '<' :: r)).1 = c :: s := heq
    rw [hsame, List.length_cons] at hlen
    omega
  · cases href : reference refs s with
    | none => exact h ⟨hcr, hnul, fun _ => href, fun hlt =>
        absurd (hamp.symm.trans hlt.1) (by decide)⟩
    | some x =>
      -- the text of a reference is shorter than the reference
      rw [href] at heq
      have hpiece := reference_length href
      have hlen : (textFuel refs n (x.2 ++ '<' :: r)).1.length ≤ x.2.length :=
        textFuel_length hr n x.2
      have hsame : x.1 ++ (textFuel refs n (x.2 ++ '<' :: r)).1 = c :: s := heq
      have htotal := congrArg List.length hsame
      rw [List.length_append, List.length_cons] at htotal
      omega
  · cases heq
  · exact h ⟨hcr, hnul, fun hc => absurd hc hamp, htag⟩

/-- What is not literal is read as something else. -/
theorem textFuel_ne : ∀ (n : ℕ) (s : Str), ¬Literal refs s →
    (textFuel refs n (s ++ '<' :: r)).1 ≠ s
  | _, [], h => absurd trivial h
  | 0, c :: s, _ => by
    intro heq
    cases heq
  | n + 1, c :: s, h => by
    by_cases hplain : Plain refs c s
    · -- the rest is not literal
      rw [textFuel, next_lt refs (by simp), next_of_plain hplain]
      have hrest : ¬Literal refs s := fun hs => h ⟨hplain, hs⟩
      intro heq
      exact textFuel_ne n s hrest (List.cons.inj heq).2
    · exact textFuel_not_plain hr hplain n

end

/-- A text without the characters that begin something else is literal. -/
theorem literal_of_notMem {refs : Refs} {s : Str} (hcr : '\r' ∉ s) (hnul : Char.ofNat 0 ∉ s)
    (hamp : '&' ∉ s) (hlt : '<' ∉ s) : Literal refs s := by
  induction s with
  | nil => exact trivial
  | cons c s ih =>
    rw [List.mem_cons, not_or] at hcr hnul hamp hlt
    exact ⟨⟨Ne.symm hcr.1, Ne.symm hnul.1, fun hc => absurd hc.symm hamp.1,
      fun hc => hlt.1 hc.1.symm⟩, ih hcr.2 hnul.2 hamp.2 hlt.2⟩

/-! ## What follows a tag -/

theorem afterTag_append {q : InTag} {a rest : Str} (h : afterTag q a = some rest) (s : Str) :
    afterTag q (a ++ s) = some (rest ++ s) := by
  induction a generalizing q with
  | nil => cases h
  | cons c a ih =>
    rw [List.cons_append, afterTag]
    rw [afterTag] at h
    cases hstep : q.step c with
    | none =>
      rw [hstep] at h
      obtain rfl := Option.some.inj h
      rfl
    | some q' =>
      rw [hstep] at h
      exact ih h

/-- The end of a name is found before what follows. -/
theorem span_append {p : Char → Bool} {a : Str} (h : a.dropWhile p ≠ []) (s : Str) :
    (a ++ s).takeWhile p = a.takeWhile p ∧ (a ++ s).dropWhile p = a.dropWhile p ++ s := by
  induction a with
  | nil => exact absurd rfl h
  | cons c a ih =>
    by_cases hc : p c = true
    · rw [List.dropWhile_cons_of_pos hc] at h
      obtain ⟨htake, hdrop⟩ := ih h
      rw [List.cons_append, List.takeWhile_cons_of_pos hc, List.takeWhile_cons_of_pos hc,
        List.dropWhile_cons_of_pos hc, List.dropWhile_cons_of_pos hc, htake, hdrop]
      exact ⟨rfl, rfl⟩
    · rw [List.cons_append, List.takeWhile_cons_of_neg hc, List.takeWhile_cons_of_neg hc,
        List.dropWhile_cons_of_neg hc, List.dropWhile_cons_of_neg hc]
      exact ⟨rfl, rfl⟩

theorem namedTag_append {kind : Str → Tag} {a : Str} {t : Tag} {rest : Str}
    (h : namedTag kind a = some (t, rest)) (s : Str) :
    namedTag kind (a ++ s) = some (t, rest ++ s) := by
  cases a with
  | nil => cases h
  | cons c a =>
    unfold namedTag at h ⊢
    split_ifs at h with halpha
    obtain ⟨rest', hafter, hpair⟩ := Option.map_eq_some_iff.1 h
    have hne : (c :: a).dropWhile inName ≠ [] := by
      intro hnil
      rw [hnil] at hafter
      cases hafter
    obtain ⟨htake, hdrop⟩ := span_append hne s
    have halpha' : (((c :: a) ++ s).head?.map Char.isAlpha).getD false = true := halpha
    rw [if_pos halpha', htake, hdrop, afterTag_append hafter s]
    cases hpair
    rfl

/-- A tag is read the same whatever follows it. -/
theorem tag_append {a : Str} {t : Tag} {rest : Str} (h : tag a = some (t, rest)) (s : Str) :
    tag (a ++ s) = some (t, rest ++ s) := by
  unfold tag at h
  split at h
  · exact namedTag_append h s
  · rename_i a hstop
    cases a with
    | nil => cases h
    | cons c a =>
      have hc : c ≠ '/' := fun hc => hstop a (by rw [hc])
      have hstart : ∀ s, tag ('<' :: c :: s) = namedTag .start (c :: s) := by
        intro s
        simp [tag, hc]
      rw [List.cons_append, List.cons_append, hstart]
      exact namedTag_append h s
  · cases h

theorem tag_skipSpaces_append {a : Str} {t : Tag} (h : tag (skipSpaces a) = some (t, []))
    (s : Str) :
    tag (skipSpaces (a ++ s)) = some (t, s) := by
  have hne : skipSpaces a ≠ [] := by
    intro hnil
    rw [hnil] at h
    cases h
  have hskip : skipSpaces (a ++ s) = skipSpaces a ++ s := (span_append hne s).2
  rw [hskip, tag_append h s]
  rfl

/-! ## Cells and rows -/

/-- **A text between the tags of a cell is read back** if and only if it is literal. -/
theorem readCells_cell (refs : Refs) {opening : Str}
    (hopen : tag (skipSpaces opening) = some (.start td, [])) (n : ℕ)
    (s rest : Str) (cells : List Str) :
    readCells refs (n + 1) (opening ++ (s ++ ("</td>".toList ++ rest))) = some (s :: cells) ↔
      Literal refs s ∧ readCells refs n rest = some cells := by
  have hr : opensMarkup ("/td>".toList ++ rest) = true := rfl
  have hfuel : s.length ≤ (s ++ ("</td>".toList ++ rest)).length := by
    rw [List.length_append]
    omega
  rw [readCells, tag_skipSpaces_append hopen]
  show ((closeCell (textFuel refs _ (s ++ '<' :: ("/td>".toList ++ rest))).2).bind fun rest' =>
    (readCells refs n rest').map
      ((textFuel refs _ (s ++ '<' :: ("/td>".toList ++ rest))).1 :: ·)) = _ ↔ _
  by_cases hs : Literal refs s
  · have hclose : closeCell ('<' :: ("/td>".toList ++ rest)) = some rest := rfl
    rw [textFuel_literal hr _ s hfuel hs, hclose, Option.bind_some, Option.map_eq_some_iff]
    constructor
    · rintro ⟨cells', hcells, heq⟩
      rw [← (List.cons.inj heq).2]
      exact ⟨hs, hcells⟩
    · rintro ⟨-, hcells⟩
      exact ⟨cells, hcells, rfl⟩
  · refine iff_of_false ?_ fun h => hs h.1
    rw [Option.bind_eq_some_iff]
    rintro ⟨rest', -, hmap⟩
    obtain ⟨cells', -, heq⟩ := Option.map_eq_some_iff.1 hmap
    exact textFuel_ne hr _ s hs (List.cons.inj heq).1

/-- The cells of a printed row: each with its start tag and its text. -/
def printCells (cells : List (Str × Str)) : Str :=
  cells.flatMap fun c => c.1 ++ (c.2 ++ "</td>".toList)

theorem length_le_printCells (cells : List (Str × Str)) :
    cells.length ≤ (printCells cells).length := by
  induction cells with
  | nil => exact le_rfl
  | cons c cells ih =>
    have hpos : 0 < "</td>".toList.length := by decide
    simp only [printCells, List.flatMap_cons, List.length_append, List.length_cons] at ih ⊢
    omega

section
variable {cells : List (Str × Str)}
  (hopen : ∀ c ∈ cells, tag (skipSpaces c.1) = some (.start td, []))
include hopen

theorem readCells_printCells (refs : Refs) {tail : Str}
    (htail : tag (skipSpaces tail) = some (.stop tr, [])) (n : ℕ) :
    readCells refs (cells.length + (n + 1)) (printCells cells ++ tail) =
      some (cells.map Prod.snd) ↔ ∀ c ∈ cells, Literal refs c.2 := by
  induction cells with
  | nil =>
    refine iff_of_true ?_ (by simp)
    show readCells refs (0 + (n + 1)) tail = some []
    rw [Nat.zero_add, readCells, htail]
    rfl
  | cons c cells ih =>
    have hcell := readCells_cell refs (hopen c List.mem_cons_self) (cells.length + (n + 1)) c.2
      (printCells cells ++ tail) (cells.map Prod.snd)
    have hprint : printCells (c :: cells) ++ tail =
        c.1 ++ (c.2 ++ ("</td>".toList ++ (printCells cells ++ tail))) := by
      simp only [printCells, List.flatMap_cons, List.append_assoc]
    have hfuel : (c :: cells).length + (n + 1) = cells.length + (n + 1) + 1 := by
      rw [List.length_cons]
      omega
    rw [hprint, hfuel, List.map_cons, hcell, ih fun c' hc' => hopen c' (List.mem_cons_of_mem _ hc'),
      List.forall_mem_cons]

/-- **A printed row** shows the texts of its cells if and only if they are literal. -/
theorem row_printCells (refs : Refs) {start tail : Str}
    (hstart : tag (skipSpaces start) = some (.start tr, []))
    (htail : tag (skipSpaces tail) = some (.stop tr, [])) :
    row refs (start ++ (printCells cells ++ tail)) = some (cells.map Prod.snd) ↔
      ∀ c ∈ cells, Literal refs c.2 := by
  have hlen := length_le_printCells cells
  have hfuel : (printCells cells ++ tail).length + 1 =
      cells.length + ((printCells cells ++ tail).length - cells.length + 1) := by
    rw [List.length_append]
    omega
  rw [row, tag_skipSpaces_append hstart]
  show readCells refs ((printCells cells ++ tail).length + 1) (printCells cells ++ tail) = _ ↔ _
  rw [hfuel]
  exact readCells_printCells hopen refs htail _

end

end Html
