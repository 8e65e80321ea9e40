/-
  Reading a file line by line with `fgets`, and appending to it with `fputs`.

  * `fgets` cuts the next line, with its line feed, off what is left to read,
    and `whileFgets` is the loop `while ($line = fgets($fd)) { … }`;
  * a file whose lines all end with a line feed is a list of `Line`s
    (`exists_lines`), and any file is one followed by a last line without line
    feed (`exists_lines_rest`);
  * whatever its body does, the loop goes through the same lines
    (`whileFgets_forLines`): the whole ones and the last one, unless that is
    `''` or `'0'` (`readLines_contents`).
-/
import Cnam.Php.Str

namespace Php

/-- A string used as a condition: all but `''` and `'0'` count as true. -/
def truthy (s : Str) : Bool := s != [] && s != ['0']

theorem truthy_of_mem {s : Str} {c : Char} (hc : c ∈ s) (h0 : c ≠ '0') : truthy s = true := by
  have hnil : s ≠ [] := List.ne_nil_of_mem hc
  have hzero : s ≠ ['0'] := by
    rintro rfl
    exact h0 (List.mem_singleton.1 hc)
  simp [truthy, hnil, hzero]

/-! ## The loop over a file -/

/-- `fgets($fd)` on what is left to read: the next line with its line feed, and what
    is left after it.  `none` is PHP's `false` at the end of the file. -/
def fgets (fd : Str) : Option (Str × Str) :=
  match fd.span (· ≠ '\n') with
  | ([], []) => none
  | (line, []) => some (line, [])
  | (line, c :: rest) => some (line ++ [c], rest)

section
variable {σ : Type} (body : Str → σ → ForInStep σ)

/-- `while ($line = fgets($fd)) { body }` for at most `n` turns; `body` goes on with
    `yield` and breaks with `done`. -/
def whileFgetsFuel : ℕ → Str → σ → σ
  | 0, _, s => s
  | n + 1, fd, s => match fgets fd with
    | none => s
    | some (line, rest) =>
      if truthy line then
        match body line s with
        | .done s' => s'
        | .yield s' => whileFgetsFuel n rest s'
      else s

/-- `while ($line = fgets($fd)) { body }`.  Each turn reads at least one byte. -/
def whileFgets (fd : Str) (s : σ) : σ := whileFgetsFuel body fd.length fd s

end

/-- `while (!feof($fd)) { body }`, where `body` begins with `$line = fgets($fd)`, for at most
    `n` turns.  The end of the file is only noticed by the read that meets it: that of a last
    line without line feed, or one that reads nothing. -/
def whileNotFeofFuel {σ : Type} (body : Option Str → σ → σ) : ℕ → Str → σ → σ
  | 0, _, s => s
  | n + 1, fd, s => match fgets fd with
    | none => body none s
    | some (line, rest) =>
      if line.getLast? = some '\n' then whileNotFeofFuel body n rest (body (some line) s)
      else body (some line) s

/-- `while (!feof($fd)) { $line = fgets($fd); … }`.  The last turn may read nothing. -/
def whileNotFeof {σ : Type} (body : Option Str → σ → σ) (fd : Str) (s : σ) : σ :=
  whileNotFeofFuel body (fd.length + 1) fd s

theorem fgets_nil : fgets [] = none := rfl

theorem fgets_length {fd line rest : Str} (h : fgets fd = some (line, rest)) :
    rest.length < fd.length := by
  have happ : (fd.span (· ≠ '\n')).1 ++ (fd.span (· ≠ '\n')).2 = fd := by
    rw [List.span_eq_takeWhile_dropWhile]
    exact List.takeWhile_append_dropWhile
  unfold fgets at h
  generalize fd.span (· ≠ '\n') = p at h happ
  rcases p with ⟨a, _ | ⟨c, b⟩⟩
  · -- the last line has no line feed, and is not empty
    rcases a with _ | ⟨c, a⟩
    · cases h
    · obtain ⟨-, rfl⟩ := Prod.mk.inj (Option.some.inj h)
      rw [← happ, List.length_append, List.length_cons, List.length_nil]
      omega
  · simp only [Option.some.injEq, Prod.mk.injEq] at h
    rw [← happ, ← h.2, List.length_append, List.length_cons]
    omega

section
variable {σ : Type} (body : Str → σ → ForInStep σ)

/-- The bound on the turns never stops the loop. -/
theorem whileFgetsFuel_eq : ∀ (n m : ℕ) (fd : Str) (s : σ), fd.length ≤ n → fd.length ≤ m →
    whileFgetsFuel body n fd s = whileFgetsFuel body m fd s
  | 0, 0, _, _, _, _ => rfl
  | 0, m + 1, fd, s, h, _ => by
    have : fd = [] := List.length_eq_zero_iff.1 (by omega)
    subst this; simp [whileFgetsFuel, fgets_nil]
  | n + 1, 0, fd, s, _, h => by
    have : fd = [] := List.length_eq_zero_iff.1 (by omega)
    subst this; simp [whileFgetsFuel, fgets_nil]
  | n + 1, m + 1, fd, s, hn, hm => by
    simp only [whileFgetsFuel]
    cases hf : fgets fd with
    | none => rfl
    | some p =>
      obtain ⟨line, rest⟩ := p
      have hlt := fgets_length hf
      simp only
      split
      · cases body line s with
        | done s' => rfl
        | yield s' => exact whileFgetsFuel_eq n m rest s' (by omega) (by omega)
      · rfl

end

/-! ## Files made of whole lines -/

/-- A line of a file, without its line feed. -/
structure Line where
  val : Str
  oneLine : '\n' ∉ val

namespace Line

/-- The bytes of a line in its file. -/
def bytes (l : Line) : Str := l.val ++ ['\n']

theorem truthy_bytes (l : Line) : truthy l.bytes = true := by
  obtain ⟨l, hl⟩ := l
  cases l with
  | nil => rfl
  | cons c l => simp [truthy, bytes]

end Line

/-- The contents of a file made of these lines. -/
def contents (ls : List Line) : Str := ls.flatMap Line.bytes

@[simp] theorem contents_nil : contents [] = [] := rfl

@[simp] theorem contents_cons (l : Line) (ls : List Line) :
    contents (l :: ls) = l.bytes ++ contents ls := rfl

theorem contents_append (ls ms : List Line) :
    contents (ls ++ ms) = contents ls ++ contents ms := List.flatMap_append

/-- The file is empty or ends with a line feed. -/
def Terminated (fd : Str) : Prop := fd = [] ∨ fd.getLast? = some '\n'

instance (fd : Str) : Decidable (Terminated fd) := inferInstanceAs (Decidable (_ ∨ _))

/-- **A terminated file is a list of lines.** -/
theorem exists_lines : ∀ {fd : Str}, Terminated fd → ∃ ls : List Line, fd = contents ls
  | [], _ => ⟨[], rfl⟩
  | [c], h => by
    have hc : c = '\n' := by simpa [Terminated] using h
    exact ⟨[⟨[], by simp⟩], by simp [Line.bytes, hc]⟩
  | c :: d :: fd, h => by
    have h' : Terminated (d :: fd) := by
      right
      simpa [Terminated, List.getLast?_cons_cons] using h
    obtain ⟨ls, hls⟩ := exists_lines h'
    by_cases hc : c = '\n'
    · exact ⟨⟨[], by simp⟩ :: ls, by simp [Line.bytes, hc, ← hls]⟩
    · -- the character joins the first line of the rest
      cases ls with
      | nil => simp at hls
      | cons l ls =>
        refine ⟨⟨c :: l.val, ?_⟩ :: ls, ?_⟩
        · simp only [List.mem_cons, not_or]
          exact ⟨fun he => hc he.symm, l.oneLine⟩
        · rw [hls]; simp [Line.bytes]

/-- The number of lines is the number of line feeds. -/
theorem count_contents (ls : List Line) : (contents ls).count '\n' = ls.length := by
  induction ls with
  | nil => rfl
  | cons l ls ih =>
    have hl : l.val.count '\n' = 0 := List.count_eq_zero.2 l.oneLine
    simp [Line.bytes, ih, hl]

theorem explode_contents (ls : List Line) (rest : Str) :
    explode '\n' (contents ls ++ rest) = ls.map Line.val ++ explode '\n' rest := by
  induction ls with
  | nil => rfl
  | cons l ls ih =>
    rw [contents_cons, Line.bytes, List.append_assoc, List.append_assoc, List.singleton_append,
      explode_append_cons l.oneLine, ih, List.map_cons, List.cons_append]

/-- A text that ends a line is cut at its line feeds. -/
theorem map_val_of_contents {ls : List Line} {s : Str} (h : s ++ ['\n'] = contents ls) :
    ls.map Line.val = explode '\n' s := by
  have hcut := explode_contents ls []
  rw [List.append_nil, ← h, explode_append] at hcut
  exact (List.append_cancel_right hcut).symm

theorem fgets_line (l : Line) (rest : Str) :
    fgets (l.bytes ++ rest) = some (l.bytes, rest) := by
  obtain ⟨l, hl⟩ := l
  have h1 : ∀ c ∈ l, decide (c ≠ '\n') = true := fun c hc => by
    simp; rintro rfl; exact hl hc
  have hspan : (l ++ '\n' :: rest).span (· ≠ '\n') = (l, '\n' :: rest) := by
    rw [List.span_eq_takeWhile_dropWhile, List.takeWhile_append_of_pos h1,
      List.dropWhile_append_of_pos h1]
    simp
  unfold fgets
  simp only [Line.bytes, List.append_assoc, List.singleton_append]
  rw [hspan]
  cases l <;> rfl

section
variable {σ : Type}

/-- One turn of the loop on a file that starts with the line `l`. -/
theorem whileFgets_line (body : Str → σ → ForInStep σ) (l : Line) (rest : Str) (s : σ) :
    whileFgets body (l.bytes ++ rest) s =
      match body l.bytes s with
      | .done s' => s'
      | .yield s' => whileFgets body rest s' := by
  have hlen : (l.bytes ++ rest).length = (l.val.length + rest.length) + 1 := by
    simp [Line.bytes]; omega
  unfold whileFgets
  rw [hlen, whileFgetsFuel, fgets_line]
  simp only [l.truthy_bytes, if_true]
  cases body l.bytes s with
  | done s' => rfl
  | yield s' => exact whileFgetsFuel_eq body _ _ rest s' (by omega) le_rfl

/-- **A loop without `break`** folds over the lines. -/
theorem whileFgets_lines (f : Str → σ → σ) :
    ∀ (ls : List Line) (rest : Str) (s : σ),
      whileFgets (fun line s => .yield (f line s)) (contents ls ++ rest) s =
        whileFgets (fun line s => .yield (f line s)) rest (ls.foldl (fun s l => f l.bytes s) s)
  | [], _, _ => rfl
  | l :: ls, rest, s => by
    rw [contents_cons, List.append_assoc, whileFgets_line]
    exact whileFgets_lines f ls rest (f l.bytes s)

end

/-! ## Any file -/

/-- Any file is made of whole lines and of what follows the last line feed. -/
theorem exists_lines_rest (fd : Str) :
    ∃ (ls : List Line) (rest : Str), fd = contents ls ++ rest ∧ '\n' ∉ rest := by
  by_cases hfd : '\n' ∈ fd
  · -- cut at the last line feed
    obtain ⟨before, rest, hcut, hrest⟩ := List.eq_append_cons_of_mem (List.mem_reverse.2 hfd)
    have hback : fd = (rest.reverse ++ ['\n']) ++ before.reverse := by
      rw [← List.reverse_reverse fd, hcut]; simp
    have hterm : Terminated (rest.reverse ++ ['\n']) := by right; simp
    obtain ⟨ls, hls⟩ := exists_lines hterm
    refine ⟨ls, before.reverse, ?_, by simpa using hrest⟩
    rw [← hls]; exact hback
  · exact ⟨[], fd, rfl, hfd⟩

/-- The lines that `while ($line = fgets($fd))` goes through in at most `n` turns. -/
def readLinesFuel : ℕ → Str → List Str
  | 0, _ => []
  | n + 1, fd => match fgets fd with
    | none => []
    | some (line, rest) => if truthy line then line :: readLinesFuel n rest else []

/-- The lines that `while ($line = fgets($fd))` goes through. -/
def readLines (fd : Str) : List Str := readLinesFuel fd.length fd

section
variable {σ : Type}

/-- `foreach ($lines as $line) { body }`. -/
def forLines (body : Str → σ → ForInStep σ) : List Str → σ → σ
  | [], s => s
  | line :: lines, s => match body line s with
    | .done s' => s'
    | .yield s' => forLines body lines s'

theorem whileFgetsFuel_forLines (body : Str → σ → ForInStep σ) :
    ∀ (n : ℕ) (fd : Str) (s : σ),
      whileFgetsFuel body n fd s = forLines body (readLinesFuel n fd) s
  | 0, _, _ => rfl
  | n + 1, fd, s => by
    simp only [whileFgetsFuel, readLinesFuel]
    cases fgets fd with
    | none => rfl
    | some p =>
      obtain ⟨line, rest⟩ := p
      show (if truthy line then _ else s) =
        forLines body (if truthy line then line :: readLinesFuel n rest else []) s
      split_ifs
      · simp only [forLines]
        cases body line s with
        | done s' => rfl
        | yield s' => exact whileFgetsFuel_forLines body n rest s'
      · rfl

/-- **The loop on any file** goes through the lines it reads, whatever its body does. -/
theorem whileFgets_forLines (body : Str → σ → ForInStep σ) (fd : Str) (s : σ) :
    whileFgets body fd s = forLines body (readLines fd) s :=
  whileFgetsFuel_forLines body fd.length fd s

/-- Without `break` the loop is a fold. -/
theorem forLines_yield (f : Str → σ → σ) : ∀ (lines : List Str) (s : σ),
    forLines (fun line s => .yield (f line s)) lines s = lines.foldl (fun s line => f line s) s
  | [], _ => rfl
  | line :: lines, s => forLines_yield f lines (f line s)

/-- With a `break` at the line it looks for, the loop is a search. -/
theorem forLines_find (p : Str → Bool) (g : Str → σ) : ∀ (lines : List Str) (s : σ),
    forLines (fun line s => if p line then .done (g line) else .yield s) lines s =
      ((lines.find? p).map g).getD s
  | [], _ => rfl
  | line :: lines, s => by
    rw [List.find?_cons, forLines]
    cases hp : p line with
    | true => simp
    | false => simpa using forLines_find p g lines s

/-- A loop that appends to a list maps. -/
theorem foldl_concat_map {α : Type} (f : α → σ) (l : List α) (s : List σ) :
    l.foldl (fun s a => s ++ [f a]) s = s ++ l.map f := by
  rw [List.foldl_append_eq_append, ← List.flatMap_def, ← List.map_eq_flatMap]

end

/-- A last line without line feed is read too. -/
theorem fgets_rest {rest : Str} (hne : rest ≠ []) (hrest : '\n' ∉ rest) :
    fgets rest = some (rest, []) := by
  have hspan : rest.span (· ≠ '\n') = (rest, []) := by
    rw [List.span_eq_takeWhile_dropWhile, ← List.append_nil rest,
      List.takeWhile_append_of_pos (decide_ne_of_notMem hrest),
      List.dropWhile_append_of_pos (decide_ne_of_notMem hrest)]
    rfl
  unfold fgets
  rw [hspan]
  cases rest with
  | nil => exact absurd rfl hne
  | cons c rest => rfl

theorem readLines_rest {rest : Str} (hrest : '\n' ∉ rest) :
    readLines rest = if truthy rest then [rest] else [] := by
  cases rest with
  | nil => rfl
  | cons c rest =>
    show readLinesFuel (rest.length + 1) (c :: rest) = _
    rw [readLinesFuel, fgets_rest (by simp) hrest]
    cases rest <;> rfl

/-- **What the loop reads**: the whole lines, and what follows them unless it is `''` or `'0'`. -/
theorem readLines_contents (ls : List Line) {rest : Str} (hrest : '\n' ∉ rest) :
    readLines (contents ls ++ rest) =
      ls.map Line.bytes ++ if truthy rest then [rest] else [] := by
  have hcollect : ∀ (fd : Str) (s : List Str),
      whileFgets (fun line s => .yield (s ++ [line])) fd s = s ++ readLines fd := by
    intro fd s
    rw [whileFgets_forLines, forLines_yield (fun line s => s ++ [line]), foldl_concat_map,
      List.map_id']
  rw [← List.nil_append (readLines _), ← hcollect, whileFgets_lines (fun line s => s ++ [line]),
    foldl_concat_map, hcollect, readLines_rest hrest, List.nil_append]

theorem readLines_lines (ls : List Line) : readLines (contents ls) = ls.map Line.bytes := by
  have hread := readLines_contents ls (List.not_mem_nil : '\n' ∉ [])
  rwa [List.append_nil, if_neg (by decide), List.append_nil] at hread

/-- **The loop that tests for the end of the file first** gives its body each whole line, and then
    what follows them, which may be nothing.  The bound on the turns never stops it. -/
theorem whileNotFeofFuel_contents {σ : Type} (body : Option Str → σ → σ) {rest : Str}
    (hrest : '\n' ∉ rest) : ∀ (ls : List Line) (n : ℕ) (s : σ),
      (contents ls ++ rest).length < n →
      whileNotFeofFuel body n (contents ls ++ rest) s =
        body (if rest = [] then none else some rest)
          (ls.foldl (fun s l => body (some l.bytes) s) s)
  | [], n + 1, s, _ => by
    by_cases hne : rest = []
    · subst hne; rfl
    · have hlast : rest.getLast? ≠ some '\n' := fun h => hrest (List.mem_of_getLast? h)
      show whileNotFeofFuel body (n + 1) rest s = _
      simp only [whileNotFeofFuel, fgets_rest hne hrest, if_neg hlast, if_neg hne]
      rfl
  | l :: ls, n + 1, s, h => by
    have hlen : (contents ls ++ rest).length < n := by
      rw [contents_cons, List.append_assoc, List.length_append, Line.bytes,
        List.length_append] at h
      simp only [List.length_singleton] at h
      omega
    have hlast : l.bytes.getLast? = some '\n' := List.getLast?_concat ..
    rw [contents_cons, List.append_assoc, whileNotFeofFuel, fgets_line]
    simp only [if_pos hlast]
    exact whileNotFeofFuel_contents body hrest ls n (body (some l.bytes) s) hlen

/-! ## Files and appending to them -/

/-- The files, by path; `none` is a file that does not exist. -/
abbrev FileSystem := Str → Option Str

/-- What the operating system makes of opening a file for appending and writing to it. -/
inductive Disk where
  | ok
  | cannotOpen
  /-- only the first `n` bytes are written -/
  | short (n : ℕ)
deriving DecidableEq

/-- `fopen($path, 'a+')`: the file is created when it does not exist. -/
def fopenAppend (disk : Disk) (fs : FileSystem) (path : Str) : Option FileSystem :=
  match disk with
  | .cannotOpen => none
  | _ => some (Function.update fs path (some ((fs path).getD [])))

/-- `fputs($fd, $line)` on a file opened for appending, with the number of bytes written. -/
def fputs (disk : Disk) (fs : FileSystem) (path line : Str) : FileSystem × ℕ :=
  let written := match disk with
    | .short n => line.take n
    | _ => line
  (Function.update fs path (some ((fs path).getD [] ++ written)), written.length)

end Php
