/-
  Paths without `.` and `..` and without empty segments (`ap_getparents` and `ap_no2slash` of
  `util.c`, where only `/` is a slash): the passes over the buffer, against the segments of the
  path.
-/
import Cnam.Httpd.Bytes
import Mathlib.Data.List.Induction
import Mathlib.Data.List.TakeWhile
import Mathlib.Data.List.Infix

namespace Httpd

namespace Getparents

/-- A slash. -/
abbrev SLASH : UInt8 := 47
/-- A dot. -/
abbrev DOT : UInt8 := 46

/-! ## The passes -/

/-- A segment starts here: `l == 0 || IS_SLASH(name[l - 1])`. -/
def Starts (before : Option UInt8) : Prop := before = none ∨ before = some SLASH

instance (before : Option UInt8) : Decidable (Starts before) := instDecidableOr

/-- Pass a, from a place with the character before it. What is written is never ahead of what is
    read, so that `name[l - 1]` is still the character of the name. -/
def removeDots (before : Option UInt8) : Bytes → Bytes
  | [] => []
  | [c] => [c]
  | c :: d :: rest =>
    if c = DOT ∧ d = SLASH ∧ Starts before then removeDots (some d) rest
    else c :: removeDots (some c) (d :: rest)

/-- Pass b. -/
def removeTrailingDot (name : Bytes) : Bytes :=
  if name.getLast? = some DOT ∧ Starts name.dropLast.getLast? then name.dropLast else name

/-- Back to where the segment before starts; what is left of the place is kept last character
    first. -/
def back (left : Bytes) : Bytes :=
  if left.length < 2 then [] else (left.drop 1).dropWhile (· != SLASH)

/-- Pass c, with what is left of the place. -/
def removeParents (left : Bytes) : Bytes → Bytes
  | [] => left
  | [c] => c :: left
  | [c, d] => d :: c :: left
  | c :: d :: e :: right =>
    if c = DOT ∧ d = DOT ∧ e = SLASH ∧ Starts left.head? then removeParents (back left) right
    else removeParents (c :: left) (d :: e :: right)

/-- Pass d, on the name, last character first. -/
def removeTrailingParent (left : Bytes) : Bytes :=
  if left = [DOT, DOT] then []
  else if left.take 3 = [DOT, DOT, SLASH] then
    if left.length < 4 then [] else (left.drop 3).dropWhile (· != SLASH)
  else left

/-- `ap_getparents`; passes a and c start at the first dot. -/
def apGetparents (name : Bytes) : Bytes :=
  let before := name.takeWhile (· != DOT)
  let name := removeTrailingDot
    (before ++ removeDots before.getLast? (name.dropWhile (· != DOT)))
  (removeTrailingParent
    (removeParents (name.take before.length).reverse (name.drop before.length))).reverse

/-! ## Segments -/

/-- A path: segments, each with its slash, and the last one. -/
def whole (front : List Bytes) (last : Bytes) : Bytes :=
  front.flatMap (fun seg => seg ++ [SLASH]) ++ last

/-- A segment after those on the stack, top first: `..` takes one back, if there is one. -/
def up (stack : List Bytes) (seg : Bytes) : List Bytes :=
  if seg = [DOT, DOT] then stack.tail else seg :: stack

/-- The segments that a path comes down to. A last `.` or `..` leaves its slash. -/
def resolve (front : List Bytes) (last : Bytes) : List Bytes × Bytes :=
  let stack := (front.filter (· != [DOT])).foldl up []
  if last = [DOT, DOT] then (stack.tail.reverse, [])
  else (stack.reverse, if last = [DOT] then [] else last)

/-- A path that is reversed, from its stack of segments. -/
def stacked (stack : List Bytes) : Bytes := stack.flatMap fun seg => SLASH :: seg.reverse

variable {front stack : List Bytes} {seg last left right rest : Bytes} {before : Option UInt8}
variable {c : UInt8}

theorem whole_cons (seg : Bytes) (front : List Bytes) (last : Bytes) :
    whole (seg :: front) last = seg ++ SLASH :: whole front last := by
  simp only [whole, List.flatMap_cons, List.append_assoc, List.cons_append, List.nil_append]

theorem stacked_cons (seg : Bytes) (stack : List Bytes) :
    stacked (seg :: stack) = SLASH :: (seg.reverse ++ stacked stack) := rfl

theorem reverse_stacked (last : Bytes) (stack : List Bytes) :
    (last.reverse ++ stacked stack).reverse = whole stack.reverse last := by
  induction stack generalizing last with
  | nil => simp [stacked, whole]
  | cons seg stack ih =>
    have h := ih (seg ++ SLASH :: last)
    simp only [whole, List.reverse_append, List.reverse_reverse, List.reverse_cons,
      List.flatMap_append, List.flatMap_cons, List.flatMap_nil, stacked_cons,
      List.append_assoc, List.append_nil, List.cons_append, List.nil_append] at h ⊢
    exact h

/-- Every path has its segments. -/
theorem exists_whole (name : Bytes) :
    ∃ front last, (∀ seg ∈ front, SLASH ∉ seg) ∧ SLASH ∉ last ∧ name = whole front last := by
  induction name with
  | nil => exact ⟨[], [], by simp, by simp, rfl⟩
  | cons c name ih =>
    obtain ⟨front, last, hfront, hlast, rfl⟩ := ih
    by_cases hc : c = SLASH
    · refine ⟨[] :: front, last, ?_, hlast, by rw [whole_cons, hc]; rfl⟩
      intro seg hseg
      rcases List.mem_cons.1 hseg with rfl | hseg
      · exact List.not_mem_nil
      · exact hfront seg hseg
    · cases front with
      | nil =>
        refine ⟨[], c :: last, by simp, ?_, rfl⟩
        intro hmem
        rcases List.mem_cons.1 hmem with h | hmem
        · exact hc h.symm
        · exact hlast hmem
      | cons seg front =>
        refine ⟨(c :: seg) :: front, last, ?_, hlast, by rw [whole_cons, whole_cons]; rfl⟩
        intro seg' hseg'
        rcases List.mem_cons.1 hseg' with rfl | hseg'
        · intro hmem
          rcases List.mem_cons.1 hmem with h | hmem
          · exact hc h.symm
          · exact hfront seg List.mem_cons_self hmem
        · exact hfront seg' (List.mem_cons_of_mem _ hseg')

theorem not_starts (h : SLASH ≠ c) : ¬ Starts (some c) := by
  rintro (hnone | hslash)
  · cases hnone
  · exact h (Option.some.inj hslash).symm

/-! ## Pass a -/

theorem removeDots_skip (h : Starts before) :
    removeDots before (DOT :: SLASH :: rest) = removeDots (some SLASH) rest := by
  rw [removeDots, if_pos ⟨rfl, rfl, h⟩]

theorem removeDots_copy (h : c = DOT → Starts before → ∀ rest', rest ≠ SLASH :: rest') :
    removeDots before (c :: rest) = c :: removeDots (some c) rest := by
  cases rest with
  | nil => rfl
  | cons d rest =>
    rw [removeDots, if_neg]
    rintro ⟨hc, rfl, hstarts⟩
    exact h hc hstarts rest rfl

/-- A segment that is not `.` stays, and so does what is in the middle of one. -/
theorem removeDots_segment (hseg : SLASH ∉ seg) (hdot : Starts before → seg ≠ [DOT])
    (rest : Bytes) :
    removeDots before (seg ++ SLASH :: rest) = seg ++ SLASH :: removeDots (some SLASH) rest := by
  induction seg generalizing before with
  | nil => exact removeDots_copy fun h => absurd h (by decide)
  | cons c seg ih =>
    rw [List.cons_append, removeDots_copy, ih (List.not_mem_of_not_mem_cons hseg)
      (fun h => absurd h (not_starts (List.ne_of_not_mem_cons hseg))), List.cons_append]
    intro hc hstarts rest' hrest
    cases seg with
    | nil => exact hdot hstarts (by rw [hc])
    | cons d seg =>
      obtain ⟨rfl, -⟩ := List.cons.inj hrest
      exact hseg (by simp)

theorem removeDots_last (hlast : SLASH ∉ last) : removeDots before last = last := by
  induction last generalizing before with
  | nil => rfl
  | cons c last ih =>
    have hlast' : SLASH ∉ last := List.not_mem_of_not_mem_cons hlast
    rw [removeDots_copy, ih hlast']
    rintro - - rest' rfl
    exact hlast' List.mem_cons_self

theorem removeDots_whole (hfront : ∀ seg ∈ front, SLASH ∉ seg) (hlast : SLASH ∉ last)
    (hstarts : Starts before) :
    removeDots before (whole front last) = whole (front.filter (· != [DOT])) last := by
  induction front generalizing before with
  | nil => exact removeDots_last hlast
  | cons seg front ih =>
    have hrest := ih (fun seg' h => hfront seg' (List.mem_cons_of_mem seg h)) (Or.inr rfl)
    rw [whole_cons]
    by_cases hdot : seg = [DOT]
    · rw [hdot, List.filter_cons_of_neg (by simp)]
      exact (removeDots_skip hstarts).trans hrest
    · rw [List.filter_cons_of_pos (by simpa using hdot), whole_cons,
        removeDots_segment (hfront seg List.mem_cons_self) (fun _ => hdot), hrest]

/-- There is nothing to do before the first dot. -/
theorem removeDots_append (hno : DOT ∉ left) (rest : Bytes) :
    removeDots before (left ++ rest) = left ++ removeDots (left.getLast?.or before) rest := by
  induction left generalizing before with
  | nil => rfl
  | cons c left ih =>
    have hc : c ≠ DOT := by
      rintro rfl
      exact hno List.mem_cons_self
    rw [List.cons_append, removeDots_copy (fun h => absurd h hc),
      ih (List.not_mem_of_not_mem_cons hno), List.getLast?_cons]
    cases left.getLast? <;> rfl

/-! ## Pass b -/

theorem starts_whole (front : List Bytes) : Starts (whole front []).getLast? := by
  induction front using List.reverseRecOn with
  | nil => exact Or.inl rfl
  | append_singleton front seg _ =>
    refine Or.inr ?_
    simp [whole]

theorem getLast?_whole (front : List Bytes) (init : Bytes) (c : UInt8) :
    (whole front (init ++ [c])).getLast? = some c := by
  rw [whole, ← List.append_assoc, List.getLast?_concat]

theorem removeTrailingDot_whole (front : List Bytes) (hlast : SLASH ∉ last) :
    removeTrailingDot (whole front last) = whole front (if last = [DOT] then [] else last) := by
  rcases List.eq_nil_or_concat' last with rfl | ⟨init, c, rfl⟩
  · rw [removeTrailingDot, if_neg, if_neg (List.cons_ne_nil _ _).symm]
    rintro ⟨hdot, -⟩
    rcases starts_whole front with h | h
    · cases h.symm.trans hdot
    · cases h.symm.trans hdot
  · have hdropLast : (whole front (init ++ [c])).dropLast = whole front init := by
      rw [whole, ← List.append_assoc, List.dropLast_concat, whole]
    rw [removeTrailingDot, getLast?_whole, hdropLast]
    rcases List.eq_nil_or_concat' init with rfl | ⟨init, d, rfl⟩
    · by_cases hc : c = DOT
      · rw [if_pos ⟨by rw [hc], starts_whole front⟩, if_pos (by rw [hc]; rfl)]
      · rw [if_neg (fun h => hc (Option.some.inj h.1)), if_neg]
        intro h
        exact hc (List.cons.inj h).1
    · rw [if_neg, if_neg]
      · intro h
        have hlength := congrArg List.length h
        simp at hlength
      · rintro ⟨-, hstarts⟩
        rw [getLast?_whole] at hstarts
        refine not_starts ?_ hstarts
        rintro rfl
        exact hlast (by simp)

theorem isPrefix_removeTrailingDot (name : Bytes) : removeTrailingDot name <+: name := by
  rw [removeTrailingDot]
  split_ifs
  · exact List.dropLast_prefix name
  · exact List.prefix_rfl

/-! ## Pass c -/

theorem removeParents_up (h : Starts left.head?) (right : Bytes) :
    removeParents left (DOT :: DOT :: SLASH :: right) = removeParents (back left) right := by
  rw [removeParents, if_pos ⟨rfl, rfl, rfl, h⟩]

theorem removeParents_copy
    (h : c = DOT → Starts left.head? → ∀ right', right ≠ DOT :: SLASH :: right') :
    removeParents left (c :: right) = removeParents (c :: left) right := by
  match right with
  | [] => rfl
  | [_] => rfl
  | d :: e :: right =>
    rw [removeParents, if_neg]
    rintro ⟨hc, rfl, rfl, hstarts⟩
    exact h hc hstarts right rfl

theorem removeParents_segment (hseg : SLASH ∉ seg)
    (hdots : Starts left.head? → seg ≠ [DOT, DOT]) (right : Bytes) :
    removeParents left (seg ++ SLASH :: right) =
      removeParents (SLASH :: (seg.reverse ++ left)) right := by
  induction seg generalizing left with
  | nil => exact removeParents_copy fun h => absurd h (by decide)
  | cons c seg ih =>
    have hmiddle : Starts (c :: left).head? → seg ≠ [DOT, DOT] := by
      intro h
      exact absurd h (not_starts (List.ne_of_not_mem_cons hseg))
    rw [List.cons_append, removeParents_copy,
      ih (List.not_mem_of_not_mem_cons hseg) hmiddle, List.reverse_cons, List.append_assoc]
    · rfl
    · intro hc hstarts right' hright
      match seg with
      | [] => exact absurd (List.cons.inj hright).1 (by decide)
      | [d] =>
        obtain ⟨rfl, -⟩ := List.cons.inj hright
        exact hdots hstarts (by rw [hc])
      | d :: e :: seg =>
        obtain ⟨-, hright⟩ := List.cons.inj hright
        obtain ⟨rfl, -⟩ := List.cons.inj hright
        exact hseg (by simp)

theorem removeParents_last (hlast : SLASH ∉ last) :
    removeParents left last = last.reverse ++ left := by
  induction last generalizing left with
  | nil => rfl
  | cons c last ih =>
    have hlast' : SLASH ∉ last := List.not_mem_of_not_mem_cons hlast
    rw [removeParents_copy, ih hlast', List.reverse_cons, List.append_assoc]
    · rfl
    · rintro - - right' rfl
      exact hlast' (by simp)

theorem removeParents_append (hno : DOT ∉ rest) (right : Bytes) :
    removeParents left (rest ++ right) = removeParents (rest.reverse ++ left) right := by
  induction rest generalizing left with
  | nil => rfl
  | cons c rest ih =>
    have hc : c ≠ DOT := by
      rintro rfl
      exact hno List.mem_cons_self
    rw [List.cons_append, removeParents_copy (fun h => absurd h hc),
      ih (List.not_mem_of_not_mem_cons hno), List.reverse_cons, List.append_assoc]
    rfl

/-- Going back stops at a slash, or where the name starts. -/
theorem dropWhile_stacked (hseg : SLASH ∉ seg) (stack : List Bytes) :
    (seg.reverse ++ stacked stack).dropWhile (· != SLASH) = stacked stack := by
  rw [List.dropWhile_append_of_pos]
  · cases stack with
    | nil => rfl
    | cons seg stack => rfl
  · intro c hc
    rw [bne_iff_ne]
    rintro rfl
    exact hseg (List.mem_reverse.1 hc)

theorem back_stacked (hstack : ∀ seg ∈ stack, SLASH ∉ seg) :
    back (stacked stack) = stacked stack.tail := by
  cases stack with
  | nil => rfl
  | cons seg stack =>
    have hdrop := dropWhile_stacked (hstack seg List.mem_cons_self) stack
    rw [back, stacked_cons]
    split_ifs with hlength
    · have hnil : seg.reverse ++ stacked stack = [] := by
        rw [List.length_cons] at hlength
        exact List.length_eq_zero_iff.1 (by omega)
      rw [hnil] at hdrop
      exact hdrop
    · exact hdrop

theorem starts_stacked (stack : List Bytes) : Starts (stacked stack).head? := by
  cases stack with
  | nil => exact Or.inl rfl
  | cons seg stack => exact Or.inr rfl

theorem mem_up {seg' : Bytes} (h : seg' ∈ up stack seg) :
    seg' ∈ stack ∨ seg' = seg ∧ seg ≠ [DOT, DOT] := by
  rw [up] at h
  split_ifs at h with hdots
  · exact Or.inl (List.mem_of_mem_tail h)
  · exact (List.mem_cons.1 h).symm.imp_right fun heq => ⟨heq, hdots⟩

/-- What is left of the place is always the segments that the stack holds. -/
theorem removeParents_whole (hfront : ∀ seg ∈ front, SLASH ∉ seg) (hlast : SLASH ∉ last)
    (hstack : ∀ seg ∈ stack, SLASH ∉ seg) :
    removeParents (stacked stack) (whole front last) =
      last.reverse ++ stacked (front.foldl up stack) := by
  induction front generalizing stack with
  | nil => exact removeParents_last hlast
  | cons seg front ih =>
    have hup : ∀ seg' ∈ up stack seg, SLASH ∉ seg' := by
      intro seg' hseg'
      rcases mem_up hseg' with h | ⟨rfl, -⟩
      · exact hstack seg' h
      · exact hfront seg' List.mem_cons_self
    rw [List.foldl_cons, ← ih (fun seg' h => hfront seg' (List.mem_cons_of_mem seg h)) hup,
      whole_cons, up]
    split_ifs with hdots
    · rw [hdots, ← back_stacked hstack]
      exact removeParents_up (starts_stacked stack) _
    · exact removeParents_segment (hfront seg List.mem_cons_self) (fun _ => hdots) _

/-! ## Pass d -/

theorem removeTrailingParent_stacked (hlast : SLASH ∉ last)
    (hstack : ∀ seg ∈ stack, SLASH ∉ seg) :
    removeTrailingParent (last.reverse ++ stacked stack) =
      if last = [DOT, DOT] then stacked stack.tail else last.reverse ++ stacked stack := by
  split_ifs with hdots
  · rw [hdots]
    cases stack with
    | nil => rfl
    | cons seg stack =>
      have hdrop := dropWhile_stacked (hstack seg List.mem_cons_self) stack
      change (if (seg.reverse ++ stacked stack).length + 3 < 4 then []
        else (seg.reverse ++ stacked stack).dropWhile (· != SLASH)) = stacked stack
      split_ifs with hlength
      · rw [List.length_eq_zero_iff.1 (by omega : (seg.reverse ++ stacked stack).length = 0)]
          at hdrop
        exact hdrop
      · exact hdrop
  · have hrev : last.reverse ≠ [DOT, DOT] := by
      intro h
      exact hdots (by rw [← List.reverse_reverse last, h]; rfl)
    rw [← List.mem_reverse] at hlast
    generalize last.reverse = r at hlast hrev
    rw [removeTrailingParent, if_neg, if_neg]
    · intro h
      match r with
      | [] =>
        cases stack with
        | nil => cases h
        | cons seg stack => exact absurd (List.cons.inj h).1 (by decide)
      | [a] =>
        obtain ⟨-, h⟩ := List.cons.inj h
        cases stack with
        | nil => cases h
        | cons seg stack => exact absurd (List.cons.inj h).1 (by decide)
      | [a, b] =>
        obtain ⟨ha, h⟩ := List.cons.inj h
        obtain ⟨hb, -⟩ := List.cons.inj h
        exact hrev (by rw [ha, hb])
      | a :: b :: d :: r =>
        obtain ⟨-, h⟩ := List.cons.inj h
        obtain ⟨-, h⟩ := List.cons.inj h
        obtain ⟨rfl, -⟩ := List.cons.inj h
        exact hlast (by simp)
    · intro h
      cases stack with
      | nil =>
        rw [stacked, List.flatMap_nil, List.append_nil] at h
        exact hrev h
      | cons seg stack =>
        have hmem : SLASH ∈ r ++ stacked (seg :: stack) := by
          rw [stacked_cons]
          simp
        rw [h] at hmem
        exact absurd hmem (by decide)

/-! ## The whole function -/

theorem mem_resolve {stack : List Bytes} (h : seg ∈ front.foldl up stack) :
    seg ∈ stack ∨ seg ∈ front ∧ seg ≠ [DOT, DOT] := by
  induction front generalizing stack with
  | nil => exact Or.inl h
  | cons seg' front ih =>
    rcases ih h with h | ⟨hmem, hne⟩
    · rcases mem_up h with h | ⟨rfl, hne⟩
      · exact Or.inl h
      · exact Or.inr ⟨List.mem_cons_self, hne⟩
    · exact Or.inr ⟨List.mem_cons_of_mem seg' hmem, hne⟩

theorem notMem_takeWhile (name : Bytes) : DOT ∉ name.takeWhile (· != DOT) := by
  intro h
  have hne := List.mem_takeWhile_imp h
  exact bne_iff_ne.1 hne rfl

theorem removeDots_name (name : Bytes) :
    name.takeWhile (· != DOT) ++
        removeDots (name.takeWhile (· != DOT)).getLast? (name.dropWhile (· != DOT)) =
      removeDots none name := by
  have h : removeDots none (name.takeWhile (· != DOT) ++ name.dropWhile (· != DOT)) = _ :=
    removeDots_append (notMem_takeWhile name) _
  rwa [List.takeWhile_append_dropWhile, Option.or_none, eq_comm] at h

theorem removeParents_name {name : Bytes} {n : ℕ} (hno : DOT ∉ name.take n) :
    removeParents (name.take n).reverse (name.drop n) = removeParents [] name := by
  have h : removeParents [] (name.take n ++ name.drop n) = _ :=
    removeParents_append hno (name.drop n)
  rwa [List.take_append_drop, List.append_nil, eq_comm] at h

/-- The four passes, one after the other, on the segments. -/
theorem apGetparents_whole (hfront : ∀ seg ∈ front, SLASH ∉ seg) (hlast : SLASH ∉ last) :
    apGetparents (whole front last) =
      whole (resolve front last).1 (resolve front last).2 := by
  have hplain : ∀ seg ∈ front.filter (· != [DOT]), SLASH ∉ seg := by
    intro seg hseg
    exact hfront seg (List.mem_filter.1 hseg).1
  have hlast' : SLASH ∉ (if last = [DOT] then [] else last) := by
    split_ifs
    · exact List.not_mem_nil
    · exact hlast
  have hstack : ∀ seg ∈ (front.filter (· != [DOT])).foldl up [], SLASH ∉ seg := by
    intro seg hseg
    rcases mem_resolve hseg with h | ⟨h, -⟩
    · exact absurd h List.not_mem_nil
    · exact hplain seg h
  have hname := removeDots_name (whole front last)
  rw [removeDots_whole hfront hlast (Or.inl rfl)] at hname
  -- what pass c leaves out has no dot either after the first two passes
  have hno : DOT ∉ (removeTrailingDot (whole (front.filter (· != [DOT])) last)).take
      ((whole front last).takeWhile (· != DOT)).length := by
    intro hmem
    have hstart := (isPrefix_removeTrailingDot (whole (front.filter (· != [DOT])) last)).take
      ((whole front last).takeWhile (· != DOT)).length
    rw [← hname, List.take_left] at hstart
    rw [← hname] at hmem
    exact notMem_takeWhile _ (hstart.subset hmem)
  rw [apGetparents]
  simp only [hname]
  rw [removeParents_name hno, removeTrailingDot_whole _ hlast]
  have hparents := removeParents_whole hplain hlast' (List.forall_mem_nil _)
  rw [show stacked [] = [] from rfl] at hparents
  rw [hparents, removeTrailingParent_stacked hlast' hstack, resolve]
  by_cases hdots : last = [DOT, DOT]
  · rw [if_pos (by rw [hdots]; rfl), if_pos hdots]
    exact reverse_stacked [] _
  · rw [if_neg hdots, if_neg]
    · exact reverse_stacked _ _
    · split_ifs
      · exact not_false
      · exact hdots

theorem resolve_no_dots (hfront : ∀ seg ∈ front, SLASH ∉ seg) (hlast : SLASH ∉ last) :
    ∀ seg ∈ (resolve front last).2 :: (resolve front last).1,
      SLASH ∉ seg ∧ seg ≠ [DOT] ∧ seg ≠ [DOT, DOT] := by
  have hstack : ∀ seg ∈ (front.filter (· != [DOT])).foldl up [],
      SLASH ∉ seg ∧ seg ≠ [DOT] ∧ seg ≠ [DOT, DOT] := by
    intro seg hseg
    rcases mem_resolve hseg with h | ⟨h, hdots⟩
    · exact absurd h List.not_mem_nil
    · obtain ⟨hmem, hdot⟩ := List.mem_filter.1 h
      exact ⟨hfront seg hmem, bne_iff_ne.1 hdot, hdots⟩
  have hnil : SLASH ∉ ([] : Bytes) ∧ [] ≠ [DOT] ∧ [] ≠ [DOT, DOT] := by decide
  intro seg hseg
  rw [resolve] at hseg
  split_ifs at hseg with hdots hdot
  · rcases List.mem_cons.1 hseg with rfl | hseg
    · exact hnil
    · exact hstack seg (List.mem_of_mem_tail (List.mem_reverse.1 hseg))
  · rcases List.mem_cons.1 hseg with rfl | hseg
    · exact hnil
    · exact hstack seg (List.mem_reverse.1 hseg)
  · rcases List.mem_cons.1 hseg with rfl | hseg
    · exact ⟨hlast, hdot, hdots⟩
    · exact hstack seg (List.mem_reverse.1 hseg)

/-- **`ap_getparents` resolves the path**: what it leaves are the segments that are left when each
    `.` is dropped and each `..` takes the segment before it, if there is one, back; and no segment
    of the result is `.` or `..`. -/
theorem getparents_resolves (name : Bytes) : ∃ front last,
    (∀ seg ∈ front, SLASH ∉ seg) ∧ SLASH ∉ last ∧ name = whole front last ∧
      apGetparents name = whole (resolve front last).1 (resolve front last).2 ∧
      ∀ seg ∈ (resolve front last).2 :: (resolve front last).1,
        SLASH ∉ seg ∧ seg ≠ [DOT] ∧ seg ≠ [DOT, DOT] := by
  obtain ⟨front, last, hfront, hlast, rfl⟩ := exists_whole name
  exact ⟨front, last, hfront, hlast, rfl, apGetparents_whole hfront hlast,
    resolve_no_dots hfront hlast⟩

/-! ## Slashes in a row -/

theorem length_dropWhile_lt (c : UInt8) (rest : Bytes) :
    (rest.dropWhile (· == SLASH)).length < (c :: rest).length := by
  have hle := (List.dropWhile_sublist (l := rest) (· == SLASH)).length_le
  rw [List.length_cons]
  omega

/-- `ap_no2slash` -/
def apNo2slash : Bytes → Bytes
  | [] => []
  | c :: rest =>
    if c = SLASH then c :: apNo2slash (rest.dropWhile (· == SLASH))
    else c :: apNo2slash rest
  termination_by name => name.length
  decreasing_by
    · exact length_dropWhile_lt _ _
    · simp

theorem apNo2slash_segment (rest : Bytes) (hseg : SLASH ∉ seg) :
    apNo2slash (seg ++ SLASH :: rest) =
      seg ++ SLASH :: apNo2slash (rest.dropWhile (· == SLASH)) := by
  induction seg with
  | nil => rw [List.nil_append, apNo2slash, if_pos rfl, List.nil_append]
  | cons c seg ih =>
    rw [List.cons_append, apNo2slash, if_neg (List.ne_of_not_mem_cons hseg).symm,
      ih (List.not_mem_of_not_mem_cons hseg), List.cons_append]

theorem apNo2slash_last (hlast : SLASH ∉ last) : apNo2slash last = last := by
  induction last with
  | nil => rw [apNo2slash]
  | cons c last ih =>
    rw [apNo2slash, if_neg (List.ne_of_not_mem_cons hlast).symm,
      ih (List.not_mem_of_not_mem_cons hlast)]

/-- The slashes that are skipped are those of empty segments. -/
theorem apNo2slash_skip (hfront : ∀ seg ∈ front, SLASH ∉ seg) (hlast : SLASH ∉ last) :
    apNo2slash ((whole front last).dropWhile (· == SLASH)) =
      whole (front.filter (· != [])) last := by
  have hhead : ∀ {c : UInt8} {s : Bytes}, SLASH ≠ c → (c :: s).dropWhile (· == SLASH) = c :: s := by
    intro c s hc
    rw [List.dropWhile_cons_of_neg]
    simpa using hc.symm
  induction front with
  | nil =>
    have hdrop : (whole [] last).dropWhile (· == SLASH) = last := by
      cases last with
      | nil => rfl
      | cons c last => exact hhead (List.ne_of_not_mem_cons hlast)
    rw [hdrop]
    exact apNo2slash_last hlast
  | cons seg front ih =>
    have hrest := ih fun seg' h => hfront seg' (List.mem_cons_of_mem seg h)
    cases seg with
    | nil => exact hrest
    | cons c seg =>
      have hseg := hfront (c :: seg) List.mem_cons_self
      rw [whole_cons, List.cons_append, hhead (List.ne_of_not_mem_cons hseg), ← List.cons_append,
        apNo2slash_segment _ hseg, hrest, List.filter_cons_of_pos rfl, whole_cons]

theorem apNo2slash_whole (hfront : ∀ seg ∈ front, SLASH ∉ seg) (hlast : SLASH ∉ last) :
    apNo2slash (whole front last) =
      whole (front.take 1 ++ (front.drop 1).filter (· != [])) last := by
  cases front with
  | nil => exact apNo2slash_last hlast
  | cons seg front =>
    rw [whole_cons, apNo2slash_segment _ (hfront seg List.mem_cons_self),
      apNo2slash_skip (fun seg' h => hfront seg' (List.mem_cons_of_mem seg h)) hlast]
    exact (whole_cons seg _ last).symm

/-- **`ap_no2slash` leaves out the empty segments** but for the first and the last one, and nothing
    else; a second time it does nothing. -/
theorem no2slash_segments (name : Bytes) : ∃ front last,
    (∀ seg ∈ front, SLASH ∉ seg) ∧ SLASH ∉ last ∧ name = whole front last ∧
      apNo2slash name = whole (front.take 1 ++ (front.drop 1).filter (· != [])) last ∧
      apNo2slash (apNo2slash name) = apNo2slash name := by
  obtain ⟨front, last, hfront, hlast, rfl⟩ := exists_whole name
  have hwhole := apNo2slash_whole hfront hlast
  refine ⟨front, last, hfront, hlast, rfl, hwhole, ?_⟩
  have hplain : ∀ seg ∈ front.take 1 ++ (front.drop 1).filter (· != []), SLASH ∉ seg := by
    intro seg hseg
    rcases List.mem_append.1 hseg with h | h
    · exact hfront seg (List.mem_of_mem_take h)
    · exact hfront seg (List.mem_of_mem_drop (List.mem_filter.1 h).1)
  rw [hwhole, apNo2slash_whole hplain hlast]
  cases front with
  | nil => rfl
  | cons seg front => simp

end Getparents

end Httpd
