/-
  Ordered maps filled by assignments.

  An assignment keeps the place of a key that is there and puts a new one last.  A run of
  assignments therefore leaves one entry for each key, in the order in which the keys came
  first, each with the value that came last (`puts_nil_eq`).
-/
import Mathlib.Data.List.Induction
import Mathlib.Data.List.Lookmap
import Mathlib.Data.List.Perm.Basic
import Mathlib.Tactic

namespace Assoc

universe u v w
variable {κ : Type u} {α : Type v} [DecidableEq κ]

/-- The assignment of `x` to the key `k`. -/
def put (l : List (κ × α)) (k : κ) (x : α) : List (κ × α) :=
  if k ∈ l.map Prod.fst then l.map fun e => if e.1 = k then (k, x) else e else l ++ [(k, x)]

/-- A run of assignments. -/
def puts (l es : List (κ × α)) : List (κ × α) := es.foldl (fun l e => put l e.1 e.2) l

/-! ## One assignment -/

theorem keys_put (l : List (κ × α)) (k : κ) (x : α) :
    (put l k x).map Prod.fst =
      if k ∈ l.map Prod.fst then l.map Prod.fst else l.map Prod.fst ++ [k] := by
  unfold put
  split
  · rw [List.map_map]
    refine List.map_congr_left fun e _ => ?_
    show (if e.1 = k then (k, x) else e).1 = e.1
    split
    · exact Eq.symm ‹e.1 = k›
    · rfl
  · rw [List.map_append]
    rfl

theorem put_of_notMem {l : List (κ × α)} {k : κ} (h : k ∉ l.map Prod.fst) (x : α) :
    put l k x = l ++ [(k, x)] := if_neg h

/-- Assigning the value that is there changes nothing. -/
theorem put_of_mem {l : List (κ × α)} (hl : (l.map Prod.fst).Nodup) {e : κ × α} (h : e ∈ l) :
    put l e.1 e.2 = l := by
  rw [put, if_pos (List.mem_map_of_mem h)]
  refine (List.map_congr_left fun e' he' => ?_).trans (List.map_id l)
  by_cases hkey : e'.1 = e.1
  · rw [if_pos hkey]
    exact (List.inj_on_of_nodup_map hl he' h hkey).symm
  · rw [if_neg hkey]
    rfl

/-- The entries after an assignment: the others as they were, and the new one. -/
theorem mem_put {l : List (κ × α)} {k : κ} {x : α} {e : κ × α} :
    e ∈ put l k x ↔ e ∈ l ∧ e.1 ≠ k ∨ e = (k, x) := by
  unfold put
  split
  · rename_i hk
    rw [List.mem_map]
    constructor
    · rintro ⟨e', he', rfl⟩
      by_cases h : e'.1 = k
      · right
        rw [if_pos h]
      · left
        rw [if_neg h]
        exact ⟨he', h⟩
    · rintro (⟨he, h⟩ | rfl)
      · exact ⟨e, he, if_neg h⟩
      · obtain ⟨e', he', rfl⟩ := List.mem_map.1 hk
        exact ⟨e', he', if_pos rfl⟩
  · rename_i hk
    rw [List.mem_append, List.mem_singleton]
    constructor
    · rintro (he | rfl)
      · left
        refine ⟨he, ?_⟩
        rintro rfl
        exact hk (List.mem_map_of_mem he)
      · exact Or.inr rfl
    · rintro (⟨he, -⟩ | rfl)
      · exact Or.inl he
      · exact Or.inr rfl

theorem nodup_put {l : List (κ × α)} (hl : (l.map Prod.fst).Nodup) (k : κ) (x : α) :
    ((put l k x).map Prod.fst).Nodup := by
  rw [keys_put]
  split
  · exact hl
  · rename_i hk
    refine List.Nodup.append hl (List.nodup_singleton k) ?_
    intro k' hk' hmem
    rw [List.mem_singleton.1 hmem] at hk'
    exact hk hk'

/-- The other entries after an assignment. -/
theorem filter_put_ne (l : List (κ × α)) (k : κ) (x : α) :
    (put l k x).filter (fun e => e.1 ≠ k) = l.filter fun e => e.1 ≠ k := by
  unfold put
  split
  · rw [List.filter_map]
    have hsame : ((fun e : κ × α => decide (e.1 ≠ k)) ∘ fun e => if e.1 = k then (k, x) else e) =
        fun e => decide (e.1 ≠ k) := by
      funext e
      by_cases he : e.1 = k <;> simp [he]
    rw [hsame]
    refine (List.map_congr_left fun e he => ?_).trans (List.map_id _)
    exact if_neg (of_decide_eq_true (List.mem_filter.1 he).2)
  · simp

/-- The entry of the key after an assignment. -/
theorem filter_put_self {l : List (κ × α)} (hl : (l.map Prod.fst).Nodup) (k : κ) (x : α) :
    (put l k x).filter (fun e => e.1 = k) = [(k, x)] := by
  have hnodup : ((put l k x).filter fun e => e.1 = k).Nodup :=
    (nodup_put hl k x).of_map.filter _
  refine List.perm_singleton.1 ((List.perm_ext_iff_of_nodup hnodup (List.nodup_singleton _)).2 ?_)
  intro e
  rw [List.mem_filter, mem_put, List.mem_singleton, decide_eq_true_iff]
  constructor
  · rintro ⟨⟨-, hne⟩ | he, hkey⟩
    · exact absurd hkey hne
    · exact he
  · rintro rfl
    exact ⟨Or.inr rfl, rfl⟩

/-- Renaming the keys commutes with an assignment. -/
theorem map_put {κ' : Type w} [DecidableEq κ'] {f : κ → κ'} (hf : f.Injective)
    (l : List (κ × α)) (k : κ) (x : α) :
    (put l k x).map (Prod.map f id) = put (l.map (Prod.map f id)) (f k) x := by
  have hmem : f k ∈ (l.map (Prod.map f id)).map Prod.fst ↔ k ∈ l.map Prod.fst := by
    rw [List.map_map, show Prod.fst ∘ Prod.map f id = f ∘ (Prod.fst : κ × α → κ) from rfl,
      ← List.map_map, List.mem_map_of_injective hf]
  unfold put
  by_cases hk : k ∈ l.map Prod.fst
  · rw [if_pos hk, if_pos (hmem.2 hk), List.map_map, List.map_map]
    refine List.map_congr_left fun e _ => ?_
    show Prod.map f id (if e.1 = k then (k, x) else e) = if f e.1 = f k then (f k, x) else _
    by_cases h : e.1 = k
    · simp [h]
    · simp [h, hf.eq_iff]
  · rw [if_neg hk, if_neg fun h => hk (hmem.1 h), List.map_append]
    rfl

/-! ## Runs of assignments -/

@[simp] theorem puts_nil (l : List (κ × α)) : puts l [] = l := rfl

theorem puts_append (l es fs : List (κ × α)) : puts l (es ++ fs) = puts (puts l es) fs :=
  List.foldl_append

theorem puts_snoc (l es : List (κ × α)) (e : κ × α) :
    puts l (es ++ [e]) = put (puts l es) e.1 e.2 := puts_append l es [e]

theorem nodup_puts {l : List (κ × α)} (hl : (l.map Prod.fst).Nodup) (es : List (κ × α)) :
    ((puts l es).map Prod.fst).Nodup := by
  induction es using List.reverseRecOn with
  | nil => exact hl
  | append_singleton es e ih =>
    rw [puts_snoc]
    exact nodup_put ih _ _

theorem map_puts {κ' : Type w} [DecidableEq κ'] {f : κ → κ'} (hf : f.Injective)
    (l es : List (κ × α)) :
    (puts l es).map (Prod.map f id) = puts (l.map (Prod.map f id)) (es.map (Prod.map f id)) := by
  induction es using List.reverseRecOn with
  | nil => rfl
  | append_singleton es e ih =>
    rw [puts_snoc, map_put hf, ih, List.map_append, List.map_singleton, puts_snoc]
    rfl

/-- The entries after a run of assignments to different keys. -/
theorem mem_puts {l es : List (κ × α)} (hes : (es.map Prod.fst).Nodup) {e : κ × α} :
    e ∈ puts l es ↔ e ∈ es ∨ e ∈ l ∧ e.1 ∉ es.map Prod.fst := by
  induction es using List.reverseRecOn with
  | nil => simp
  | append_singleton es e' ih =>
    rw [List.map_append, List.nodup_append] at hes
    rcases hes with ⟨hes, -, hdisj⟩
    have hne : ∀ f ∈ es, f.1 ≠ e'.1 := fun f hf =>
      hdisj f.1 (List.mem_map_of_mem hf) e'.1 (by simp)
    rw [puts_snoc, mem_put, ih hes, List.mem_append, List.mem_singleton, List.map_append,
      List.mem_append, not_or, List.map_singleton, List.mem_singleton]
    constructor
    · rintro (⟨he | ⟨he, hkey⟩, h⟩ | rfl)
      · exact Or.inl (Or.inl he)
      · exact Or.inr ⟨he, hkey, h⟩
      · exact Or.inl (Or.inr rfl)
    · rintro ((he | rfl) | ⟨he, hkey, h⟩)
      · exact Or.inl ⟨Or.inl he, hne e he⟩
      · exact Or.inr rfl
      · exact Or.inl ⟨Or.inr ⟨he, hkey⟩, h⟩

/-- The keys, in the order in which they came first. -/
theorem keys_puts_nil [BEq κ] [LawfulBEq κ] (es : List (κ × α)) :
    (puts [] es).map Prod.fst = (es.map Prod.fst).eraseDups := by
  induction es using List.reverseRecOn with
  | nil => rfl
  | append_singleton es e ih =>
    have hmem : e.1 ∈ (puts [] es).map Prod.fst ↔ e.1 ∈ es.map Prod.fst := by
      rw [ih, List.mem_eraseDups]
    rw [puts_snoc, keys_put, List.map_append, List.eraseDups_append, ← ih]
    by_cases h : e.1 ∈ es.map Prod.fst
    · rw [if_pos (hmem.2 h)]
      simp [List.removeAll, List.mem_map.1 h]
    · rw [if_neg (fun h' => h (hmem.1 h'))]
      simp [List.removeAll, h, List.eraseDups_cons]

/-- The entries: each key with the value that came last. -/
theorem mem_puts_nil [BEq κ] [LawfulBEq κ] {es : List (κ × α)} {k : κ} {x : α} :
    (k, x) ∈ puts [] es ↔ es.reverse.lookup k = some x := by
  induction es using List.reverseRecOn with
  | nil => simp
  | append_singleton es e ih =>
    obtain ⟨k', x'⟩ := e
    rw [puts_snoc, mem_put, ih, List.reverse_append, List.reverse_singleton,
      List.singleton_append, List.lookup_cons]
    by_cases h : k = k'
    · subst h
      simp [eq_comm]
    · simp [h, beq_false_of_ne h]

/-- **A run of assignments** leaves one entry for each key, in the order in which the keys came
    first, with the value that came last. -/
theorem puts_nil_eq [BEq κ] [LawfulBEq κ] [Inhabited α] (es : List (κ × α)) :
    puts [] es = (es.map Prod.fst).eraseDups.map fun k =>
      (k, (es.reverse.lookup k).getD default) := by
  rw [← keys_puts_nil, List.map_map]
  refine (List.map_id _).symm.trans (List.map_congr_left fun e he => ?_)
  show e = (e.1, (es.reverse.lookup e.1).getD default)
  rw [mem_puts_nil.1 (show (e.1, e.2) ∈ puts [] es from he)]
  rfl

/-- Assignments to different keys are the entries themselves. -/
theorem puts_nil_of_nodup {es : List (κ × α)} (h : (es.map Prod.fst).Nodup) : puts [] es = es := by
  induction es using List.reverseRecOn with
  | nil => rfl
  | append_singleton es e ih =>
    rw [List.map_append, List.nodup_append] at h
    obtain ⟨hes, -, hdisj⟩ := h
    rw [puts_snoc, ih hes]
    refine put_of_notMem (fun hmem => ?_) _
    exact hdisj e.1 hmem e.1 (by simp) rfl

/-- Entries that are there are assigned first. -/
theorem puts_nil_puts (es fs : List (κ × α)) :
    puts [] (puts [] es ++ fs) = puts [] (es ++ fs) := by
  rw [puts_append, puts_append, puts_nil_of_nodup (nodup_puts (by simp) es)]

/-- With different keys, looking one up finds its entry. -/
theorem lookup_eq_some_iff_mem [BEq κ] [LawfulBEq κ] {l : List (κ × α)}
    (hl : (l.map Prod.fst).Nodup) {k : κ} {x : α} : l.lookup k = some x ↔ (k, x) ∈ l := by
  have hrev : (l.reverse.map Prod.fst).Nodup := by
    rw [List.map_reverse]
    exact List.nodup_reverse.2 hl
  have hmem : (k, x) ∈ puts [] l.reverse ↔ l.reverse.reverse.lookup k = some x := mem_puts_nil
  rw [puts_nil_of_nodup hrev, List.mem_reverse, List.reverse_reverse] at hmem
  exact hmem.symm

omit [DecidableEq κ] in
/-- Looking up commutes with renaming the keys. -/
theorem lookup_map {κ' : Type w} [BEq κ] [LawfulBEq κ] [BEq κ'] [LawfulBEq κ'] {f : κ → κ'}
    (hf : f.Injective) (l : List (κ × α)) (k : κ) :
    (l.map (Prod.map f id)).lookup (f k) = l.lookup k := by
  induction l with
  | nil => rfl
  | cons e l ih =>
    rw [List.map_cons, List.lookup_cons, List.lookup_cons, ih]
    by_cases h : k = e.1
    · simp [h]
    · simp [h, hf.eq_iff, beq_false_of_ne]

omit [DecidableEq κ] in
theorem lookup_of_notMem [BEq κ] [LawfulBEq κ] {l : List (κ × α)} {k : κ}
    (h : k ∉ l.map Prod.fst) : l.lookup k = none := by
  rw [List.lookup_eq_none_iff]
  intro e he
  rw [bne_iff_ne]
  rintro rfl
  exact h (List.mem_map_of_mem he)

theorem subset_puts_nil {es : List (κ × α)} {e : κ × α} (h : e ∈ puts [] es) : e ∈ es := by
  obtain ⟨k, x⟩ := e
  obtain ⟨l₁, l₂, hl, -⟩ := List.lookup_eq_some_iff.1 (mem_puts_nil.1 h)
  rw [← List.mem_reverse, hl]
  simp

end Assoc
