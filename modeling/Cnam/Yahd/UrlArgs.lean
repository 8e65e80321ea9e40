/-
  The arguments of a query, and what `removeDuplicateURLArgs` does to them.

  An argument is a piece of the query between '&' separators that has a '='; its name is the
  text before the first one.
-/
import Cnam.Lib.Assoc
import Cnam.Yahd.Url

namespace Yahd

open Php Assoc

/-- The name and the value of a piece of a query. -/
def arg? (arg : Str) : Option (Str × Str) :=
  match strpos arg '=' with
  | none => none
  | some pos => some (arg.take pos, arg.drop (pos + 1))

/-- The arguments of a query, in order. -/
def args (query : Str) : List (Str × Str) := (explode '&' query).filterMap arg?

/-- `name=value` -/
def argText (e : Str × Str) : Str := e.1 ++ '=' :: e.2

/-! ## One piece -/

theorem arg?_argText {name : Str} (h : '=' ∉ name) (value : Str) :
    arg? (argText (name, value)) = some (name, value) := by
  have hpos : strpos (name ++ '=' :: value) '=' = some name.length := by
    refine List.findIdx?_eq_some_iff_getElem.2 ⟨by simp, by simp, fun j hj => ?_⟩
    have hmem : name[j] ∈ name := List.getElem_mem hj
    rw [List.getElem_append_left hj, decide_eq_true_iff]
    intro heq
    rw [heq] at hmem
    exact h hmem
  unfold arg? argText
  rw [hpos]
  simp

theorem arg?_eq_some {arg : Str} {e : Str × Str} (h : arg? arg = some e) :
    arg = argText e ∧ '=' ∉ e.1 := by
  unfold arg? at h
  cases hpos : strpos arg '=' with
  | none => rw [hpos] at h; exact absurd h (by simp)
  | some pos =>
    rw [hpos] at h
    rw [← Option.some.inj h]
    exact strpos_some hpos

theorem arg?_isSome {arg : Str} (h : '=' ∈ arg) : ∃ e, arg? arg = some e := by
  unfold arg?
  cases hpos : strpos arg '=' with
  | none => exact absurd h (strpos_none hpos)
  | some pos => exact ⟨_, rfl⟩

/-! ## The arguments of a query -/

/-- What the name and the value of an argument are made of. -/
def ArgPlain (e : Str × Str) : Prop := '=' ∉ e.1 ∧ '&' ∉ e.1 ∧ '&' ∉ e.2

theorem notMem_argText {e : Str × Str} (h : ArgPlain e) : '&' ∉ argText e := by
  obtain ⟨-, hname, hvalue⟩ := h
  simp [argText, hname, hvalue]

theorem args_argText {e : Str × Str} (h : ArgPlain e) : args (argText e) = [e] := by
  rw [args, explode_of_notMem (notMem_argText h)]
  exact List.filterMap_cons_some (arg?_argText h.1 e.2)

theorem argPlain_of_mem_args {query : Str} {e : Str × Str} (h : e ∈ args query) : ArgPlain e := by
  obtain ⟨arg, harg, he⟩ := List.mem_filterMap.1 h
  obtain ⟨rfl, hname⟩ := arg?_eq_some he
  have hamp := (mem_explode harg).2
  simp only [argText, List.mem_append, List.mem_cons, not_or] at hamp
  exact ⟨hname, hamp.1, hamp.2.2⟩

theorem args_append (a b : Str) : args (a ++ '&' :: b) = args a ++ args b := by
  unfold args
  rw [explode_append, List.filterMap_append]

/-- A query put together from arguments has these arguments. -/
theorem args_implode {es : List (Str × Str)} (h : ∀ e ∈ es, ArgPlain e) :
    args (implode '&' (es.map argText)) = es := by
  cases es with
  | nil => rfl
  | cons e es =>
    have hamp : ∀ p ∈ (e :: es).map argText, '&' ∉ p := by
      rintro p hp
      obtain ⟨e', he', rfl⟩ := List.mem_map.1 hp
      exact notMem_argText (h e' he')
    unfold args
    rw [explode_implode hamp (by simp), List.filterMap_map]
    refine (List.filterMap_congr fun e' he' => ?_).trans List.filterMap_some
    exact arg?_argText (h e' he').1 e'.2

/-! ## The two loops -/

/-- The first loop assigns the arguments, one after the other. -/
theorem foldl_storeArg (argsArray : List Str) (map : Arr Str) :
    argsArray.foldl storeArg map =
      puts map ((argsArray.filterMap arg?).map (Prod.map Key.ofStr id)) := by
  induction argsArray generalizing map with
  | nil => rfl
  | cons arg argsArray ih =>
    rw [List.foldl_cons, ih]
    cases hpos : strpos arg '=' with
    | none =>
      have harg : arg? arg = none := by unfold arg?; rw [hpos]
      rw [List.filterMap_cons_none harg]
      unfold storeArg
      rw [hpos]
    | some pos =>
      have harg : arg? arg = some (arg.take pos, arg.drop (pos + 1)) := by unfold arg?; rw [hpos]
      rw [List.filterMap_cons_some harg]
      unfold storeArg
      rw [hpos]
      rfl

theorem printArg_ofStr (result : Str) (e : Str × Str) :
    printArg result (Key.ofStr e.1, e.2) =
      (if result ≠ [] then result ++ "&".toList else result) ++ argText e := by
  unfold printArg argText Key.ofStr
  rw [Key.toStr_ofVal, List.append_assoc, List.append_assoc]
  rfl

theorem implode_argText_ne_nil {es : List (Str × Str)} (h : es ≠ []) :
    implode '&' (es.map argText) ≠ [] := by
  obtain ⟨e, he⟩ := List.exists_mem_of_ne_nil es h
  have hmem : '=' ∈ implode '&' (es.map argText) :=
    (mem_implode (by decide)).2 ⟨argText e, List.mem_map_of_mem he, by simp [argText]⟩
  exact List.ne_nil_of_mem hmem

/-- The second loop prints the entries with a '&' between them. -/
theorem foldl_printArg (es : List (Str × Str)) :
    (es.map (Prod.map Key.ofStr id)).foldl printArg [] = implode '&' (es.map argText) := by
  induction es using List.reverseRecOn with
  | nil => rfl
  | append_singleton es e ih =>
    rw [List.map_append, List.foldl_append, ih, List.map_append]
    refine (printArg_ofStr _ e).trans ?_
    by_cases h : es = []
    · subst h
      simp [implode, List.intercalate]
    · rw [if_pos (implode_argText_ne_nil h), List.map_singleton,
        implode_concat _ (by simpa using h), List.append_assoc]
      rfl

/-- **The rewritten query** prints what the run of assignments leaves. -/
theorem removeDuplicateURLArgs_eq (argsStr : Str) :
    removeDuplicateURLArgs argsStr = implode '&' ((puts [] (args argsStr)).map argText) := by
  show (((explode '&' argsStr).foldl storeArg []).foldl printArg []) = _
  rw [foldl_storeArg, ← foldl_printArg, map_puts Key.ofStr_injective]
  rfl

/-- The arguments of the rewritten query. -/
theorem args_removeDuplicateURLArgs (argsStr : Str) :
    args (removeDuplicateURLArgs argsStr) = puts [] (args argsStr) := by
  rw [removeDuplicateURLArgs_eq]
  exact args_implode fun e he => argPlain_of_mem_args (subset_puts_nil he)

theorem removeDuplicateURLArgs_idem (argsStr : Str) :
    removeDuplicateURLArgs (removeDuplicateURLArgs argsStr) = removeDuplicateURLArgs argsStr := by
  rw [removeDuplicateURLArgs_eq, args_removeDuplicateURLArgs, removeDuplicateURLArgs_eq,
    puts_nil_of_nodup (nodup_puts (by simp) _)]

/-- The pieces of the rewritten query are the texts of the entries, when there are any. -/
theorem explode_removeDuplicateURLArgs {argsStr : Str} (h : puts [] (args argsStr) ≠ []) :
    explode '&' (removeDuplicateURLArgs argsStr) = (puts [] (args argsStr)).map argText := by
  have hamp : ∀ p ∈ (puts [] (args argsStr)).map argText, '&' ∉ p := by
    intro p hp
    obtain ⟨e, he, rfl⟩ := List.mem_map.1 hp
    exact notMem_argText (argPlain_of_mem_args (subset_puts_nil he))
  rw [removeDuplicateURLArgs_eq, explode_implode hamp (by simpa using h)]

/-- A piece of the rewritten query is empty or one of the arguments. -/
theorem mem_explode_removeDuplicateURLArgs {argsStr p : Str}
    (hp : p ∈ explode '&' (removeDuplicateURLArgs argsStr)) :
    p = [] ∨ ∃ e ∈ args argsStr, p = argText e := by
  by_cases hnil : puts [] (args argsStr) = []
  · left
    rw [removeDuplicateURLArgs_eq, hnil] at hp
    exact List.mem_singleton.1 hp
  · right
    rw [explode_removeDuplicateURLArgs hnil] at hp
    obtain ⟨e, he, rfl⟩ := List.mem_map.1 hp
    exact ⟨e, subset_puts_nil he, rfl⟩

/-! ## Names and last values -/

/-- The text of a piece before its first '='. -/
def argName (arg : Str) : Str := arg.takeWhile (· ≠ '=')

/-- The text of a piece after its first '='. -/
def argValue (arg : Str) : Str := (arg.dropWhile (· ≠ '=')).tail

/-- The value of the last of the pieces that has the name. -/
def lastValue (pieces : List Str) (name : Str) : Str :=
  ((pieces.reverse.find? (argName · = name)).map argValue).getD []

theorem argName_argText {name : Str} (h : '=' ∉ name) (value : Str) :
    argName (argText (name, value)) = name := by
  unfold argName argText
  rw [List.takeWhile_append_of_pos (decide_ne_of_notMem h)]
  simp

theorem arg?_eq {arg : Str} (h : '=' ∈ arg) : arg? arg = some (argName arg, argValue arg) := by
  obtain ⟨e, he⟩ := arg?_isSome h
  obtain ⟨harg, hname⟩ := arg?_eq_some he
  have hne := decide_ne_of_notMem hname
  rw [he, harg]
  unfold argName argValue argText
  rw [List.takeWhile_append_of_pos hne, List.dropWhile_append_of_pos hne]
  simp

theorem args_implode_pieces {pieces : List Str} (hne : pieces ≠ [])
    (h : ∀ p ∈ pieces, '&' ∉ p ∧ '=' ∈ p) :
    args (implode '&' pieces) = pieces.map fun p => (argName p, argValue p) := by
  unfold args
  rw [explode_implode (fun p hp => (h p hp).1) hne, ← List.filterMap_eq_map]
  exact List.filterMap_congr fun p hp => arg?_eq (h p hp).2

theorem lookup_map_args (pieces : List Str) (name : Str) :
    (pieces.map fun p => (argName p, argValue p)).lookup name =
      (pieces.find? (argName · = name)).map argValue := by
  induction pieces with
  | nil => rfl
  | cons p pieces ih =>
    rw [List.map_cons, List.lookup_cons, List.find?_cons]
    by_cases h : argName p = name
    · simp [h]
    · rw [ih, decide_eq_false h, beq_false_of_ne (Ne.symm h)]

/-- Assigning pieces leaves one entry for each name, with its last value. -/
theorem puts_pieces (pieces : List Str) :
    puts [] (pieces.map fun p => (argName p, argValue p)) =
      (pieces.map argName).eraseDups.map fun name => (name, lastValue pieces name) := by
  rw [puts_nil_eq, List.map_map]
  show List.map _ (pieces.map argName).eraseDups = _
  refine List.map_congr_left fun name _ => ?_
  rw [← List.map_reverse, lookup_map_args]
  rfl

/-- **`removeDuplicateURLArgs` normalises**: one piece for each name, in the order in which the
    names come first, with the value that comes last; and a second time changes nothing. -/
theorem removeDuplicateURLArgs_normalises :
    (∀ pieces : List Str, pieces ≠ [] → (∀ p ∈ pieces, '&' ∉ p ∧ '=' ∈ p) →
      removeDuplicateURLArgs (implode '&' pieces) =
        implode '&' ((pieces.map argName).eraseDups.map fun name =>
          name ++ '=' :: lastValue pieces name)) ∧
      ∀ s : Str, removeDuplicateURLArgs (removeDuplicateURLArgs s) = removeDuplicateURLArgs s := by
  refine ⟨fun pieces hne h => ?_, removeDuplicateURLArgs_idem⟩
  rw [removeDuplicateURLArgs_eq, args_implode_pieces hne h, puts_pieces, List.map_map]
  rfl

/-- The example of the source. -/
theorem removeDuplicateURLArgs_example :
    removeDuplicateURLArgs "x=1&y=5&z=3&y=6&z=4".toList = "x=1&y=6&z=4".toList := by
  have h := removeDuplicateURLArgs_normalises.1
    ["x=1".toList, "y=5".toList, "z=3".toList, "y=6".toList, "z=4".toList] (by decide) (by decide)
  exact h.trans (by decide)

/-! ## The query of a URL -/

/-- The part of a URL after its first '?'. -/
def queryOf (URL : Str) : Str := (URL.dropWhile (· ≠ '?')).tail

theorem queryOf_append {a : Str} (h : '?' ∉ a) (b : Str) : queryOf (a ++ '?' :: b) = b := by
  unfold queryOf
  rw [List.dropWhile_append_of_pos (decide_ne_of_notMem h)]
  simp

theorem queryOf_of_notMem {a : Str} (h : '?' ∉ a) : queryOf a = [] := by
  rw [queryOf, List.dropWhile_eq_nil_iff.2 (decide_ne_of_notMem h)]
  rfl

/-- The query after an argument text is appended: the arguments that were there, then those of
    the text, rewritten. -/
theorem queryOf_appendURLArg (URL text : Str) :
    ∃ query, queryOf (appendURLArg URL text) = removeDuplicateURLArgs query ∧
      args query = args (queryOf URL) ++ args text := by
  unfold appendURLArg
  cases hpos : strpos URL '?' with
  | none =>
    refine ⟨text, ?_, ?_⟩
    · simp only [List.append_assoc]
      exact queryOf_append (strpos_none hpos) _
    · rw [queryOf_of_notMem (strpos_none hpos)]
      rfl
  | some pos =>
    obtain ⟨hURL, hpath⟩ := strpos_some hpos
    have hquery : queryOf URL = URL.drop (pos + 1) := by
      conv_lhs => rw [hURL]
      exact queryOf_append hpath _
    refine ⟨URL.drop (pos + 1) ++ '&' :: text, ?_, ?_⟩
    · simp only [List.append_assoc]
      exact queryOf_append hpath _
    · rw [hquery, args_append]

theorem args_queryOf_appendURLArg (URL text : Str) :
    args (queryOf (appendURLArg URL text)) = puts [] (args (queryOf URL) ++ args text) := by
  obtain ⟨query, hquery, hargs⟩ := queryOf_appendURLArg URL text
  rw [hquery, args_removeDuplicateURLArgs, hargs]

/-! ## The parameters that are carried on -/

/-- The form has one hidden input for each entry of `$_GET + $_POST` that the two tests let
    through. -/
theorem getAllRequestParamsAsHiddenParams_filter (req : Request) (excludeNames : List Str) :
    getAllRequestParamsAsHiddenParams req excludeNames =
      ((arrayUnion req.get req.post).filter fun e =>
        !looseEq e.1.toVal (.str "PHPSESSID".toList) &&
          (arraySearch e.1 excludeNames).isNone).flatMap fun e => hiddenParam e.1 e.2 := by
  unfold getAllRequestParamsAsHiddenParams
  generalize "PHPSESSID".toList = session
  induction arrayUnion req.get req.post using List.reverseRecOn with
  | nil => rfl
  | append_singleton es e ih =>
    rw [List.foldl_append, ih, List.filter_append, List.flatMap_append]
    simp only [List.foldl_cons, List.foldl_nil]
    cases hsession : looseEq e.1.toVal (.str session) with
    | true => simp [hsession]
    | false =>
      cases hsearch : arraySearch e.1 excludeNames with
      | none => simp [hsession, hsearch]
      | some n => simp [hsession, hsearch]

/-- The search finds none of the excluded names. -/
theorem arraySearch_ofStr_iff (name : Str) (excludeNames : List Str) :
    arraySearch (Key.ofStr name) excludeNames = none ↔
      name ∉ excludeNames ∧ ∀ excluded ∈ excludeNames, ¬SameNumber name excluded := by
  unfold arraySearch
  rw [List.findIdx?_eq_none_iff]
  constructor
  · intro h
    have hne : ∀ excluded ∈ excludeNames, ¬(name = excluded ∨ SameNumber name excluded) := by
      intro excluded hexcluded
      rw [← looseEq_ofStr_iff, Bool.not_eq_true]
      exact h excluded hexcluded
    exact ⟨fun hmem => hne name hmem (Or.inl rfl), fun excluded hexcluded hsame =>
      hne excluded hexcluded (Or.inr hsame)⟩
  · rintro ⟨hmem, hsame⟩ excluded hexcluded
    rw [Bool.eq_false_iff]
    intro heq
    rcases (looseEq_ofStr_iff name excluded).1 heq with rfl | hnum
    · exact hmem hexcluded
    · exact hsame excluded hexcluded hnum

/-- The POST parameters that are appended, as names and values. -/
def keptParams (req : Request) (excludeNames : List Str) : List (Str × Str) :=
  (req.post.filter fun e => (arraySearch e.1 excludeNames).isNone).map fun e =>
    (e.1.toVal.toStr, e.2)

/-- The search finds a key that is printed as an excluded name. -/
theorem notMem_of_arraySearch_none {key : Key} {excludeNames : List Str}
    (h : arraySearch key excludeNames = none) : key.toVal.toStr ∉ excludeNames := by
  unfold arraySearch at h
  rw [List.findIdx?_eq_none_iff] at h
  intro hmem
  have hfound := h _ hmem
  rw [looseEq_toStr] at hfound
  exact absurd hfound (by decide)

/-- No excluded name is carried on. -/
theorem notMem_excludeNames_of_mem_keptParams {req : Request} {excludeNames : List Str}
    {e : Str × Str} (he : e ∈ keptParams req excludeNames) : e.1 ∉ excludeNames := by
  rcases List.mem_map.1 he with ⟨p, hp, rfl⟩
  have hnone := (List.mem_filter.1 hp).2
  rw [Option.isNone_iff_eq_none] at hnone
  exact notMem_of_arraySearch_none hnone

theorem appendPostParamsToURL_eq (req : Request) (URL : Str) (excludeNames : List Str) :
    appendPostParamsToURL req URL excludeNames =
      (keptParams req excludeNames).foldl (fun URL e => appendURLArg URL (argText e)) URL := by
  unfold appendPostParamsToURL keptParams
  generalize req.post = post
  induction post generalizing URL with
  | nil => rfl
  | cons e post ih =>
    rw [List.foldl_cons, ih]
    cases h : arraySearch e.1 excludeNames with
    | none =>
      rw [List.filter_cons_of_pos (by rw [h]; rfl), List.append_assoc]
      rfl
    | some _ => rw [List.filter_cons_of_neg (by rw [h]; simp)]

/-- **The query of the redirection**: the arguments of the URL, then those that the texts
    `name=value` of the parameters make up. -/
theorem args_queryOf_appendPostParams (es : List (Str × Str)) (hne : es ≠ []) (URL : Str) :
    args (queryOf (es.foldl (fun URL e => appendURLArg URL (argText e)) URL)) =
      puts [] (args (queryOf URL) ++ es.flatMap fun e => args (argText e)) := by
  induction es using List.reverseRecOn with
  | nil => exact absurd rfl hne
  | append_singleton es e ih =>
    rw [List.foldl_append, List.flatMap_append]
    refine (args_queryOf_appendURLArg _ _).trans ?_
    rcases eq_or_ne es [] with rfl | hes
    · simp
    · rw [ih hes, puts_nil_puts, List.append_assoc]
      simp

end Yahd
