/-
  Statements that change a table row by row, with triggers that may refuse a row.

  Visiting a row either fails, and then the whole statement does, or has the effect `next`.
  * what each visit preserves holds after all of them (`rows_inv`);
  * if the effects commute, two orders that are both accepted leave the same (`rows_perm`);
  * rows that are ready from the start are accepted in every order (`rows_accepted`).
-/
import Cnam.Lib.Machine
import Mathlib.Tactic

namespace Oracle

/-- The errors that refuse a statement. -/
inductive OraError where
  /-- `RAISE_APPLICATION_ERROR (code, message)` -/
  | raised (code : Int) (message : String)
  | noDataFound
  | tooManyRows
  /-- a variable of a block cannot hold the value -/
  | valueError
  /-- a column cannot hold the value -/
  | valueTooLarge
  | cannotBeNull (column : String)
  | violated (name : String)
deriving DecidableEq

/-- `SELECT … INTO`: exactly one row is wanted. -/
def selectInto {α : Type} : List α → Except OraError α
  | [] => .error .noDataFound
  | [a] => .ok a
  | _ => .error .tooManyRows

/-- The integers that `NUMBER (p)` holds. -/
def fits (p : ℕ) (n : Int) : Prop := n.natAbs < 10 ^ p

instance (p : ℕ) (n : Int) : Decidable (fits p n) := inferInstanceAs (Decidable (_ < _))

/-- A number assigned to a variable declared `NUMBER (p)`. -/
def assign (p : ℕ) (n : Int) : Except OraError Int :=
  if fits p n then .ok n else .error .valueError

section
variable {ε α β : Type}

theorem bind_ok {x : Except ε α} {f : α → Except ε β} {b : β} :
    x >>= f = .ok b ↔ ∃ a, x = .ok a ∧ f a = .ok b := by
  cases x with
  | error e => simp [bind, Except.bind]
  | ok a => simp [bind, Except.bind]

theorem ite_error_ok {p : Prop} [Decidable p] {e : ε} {x : Except ε α} {a : α} :
    (if p then .error e else x) = .ok a ↔ ¬ p ∧ x = .ok a := by
  by_cases hp : p <;> simp [hp]

end

theorem selectInto_ok {α : Type} {l : List α} {a : α} : selectInto l = .ok a ↔ l = [a] := by
  match l with
  | [] => simp [selectInto]
  | [b] => simp [selectInto]
  | _ :: _ :: _ => simp [selectInto]

theorem assign_ok {p : ℕ} {n m : Int} : assign p n = .ok m ↔ fits p n ∧ n = m := by
  unfold assign
  by_cases h : fits p n <;> simp [h]

/-- Rows made one by one. -/
theorem mapM_ok {α β ε : Type} {f : α → Except ε β} {l : List α} {l' : List β} :
    l.mapM f = .ok l' ↔ List.Forall₂ (fun a b => f a = .ok b) l l' := by
  induction l generalizing l' with
  | nil =>
    rw [List.mapM_nil, List.forall₂_nil_left_iff]
    exact ⟨fun h => (Except.ok.inj h).symm, fun h => h ▸ rfl⟩
  | cons a l ih =>
    rw [List.mapM_cons, bind_ok, List.forall₂_cons_left_iff]
    constructor
    · rintro ⟨b, hb, h⟩
      obtain ⟨bs, hbs, h⟩ := bind_ok.1 h
      exact ⟨b, bs, hb, ih.1 hbs, (Except.ok.inj h).symm⟩
    · rintro ⟨b, bs, hb, hbs, rfl⟩
      exact ⟨b, hb, bind_ok.2 ⟨bs, ih.2 hbs, rfl⟩⟩

theorem mapM_mem {α β ε : Type} {f : α → Except ε β} {l : List α} {l' : List β}
    (h : l.mapM f = .ok l') {b : β} (hb : b ∈ l') : ∃ a ∈ l, f a = .ok b := by
  have hl := mapM_ok.1 h
  clear h
  induction hl with
  | nil => exact absurd hb List.not_mem_nil
  | @cons a b' l l' hab _ ih =>
    rcases List.mem_cons.1 hb with rfl | hb
    · exact ⟨a, List.mem_cons_self, hab⟩
    · obtain ⟨a', ha', h⟩ := ih hb
      exact ⟨a', List.mem_cons_of_mem _ ha', h⟩

theorem mapM_image {α β ε : Type} {f : α → Except ε β} {l : List α} {l' : List β}
    (h : l.mapM f = .ok l') {a : α} (ha : a ∈ l) : ∃ b ∈ l', f a = .ok b := by
  have hl := mapM_ok.1 h
  clear h
  induction hl with
  | nil => exact absurd ha List.not_mem_nil
  | @cons a' b l l' hab _ ih =>
    rcases List.mem_cons.1 ha with rfl | ha
    · exact ⟨b, List.mem_cons_self, hab⟩
    · obtain ⟨b', hb', h⟩ := ih ha
      exact ⟨b', List.mem_cons_of_mem _ hb', h⟩

/-! ## The rows that an `UPDATE` changes -/

/-- The change of one row: its place in the table, and the values before and after it. -/
structure Change (α β : Type) where
  pos : ℕ
  old : α
  new : β
deriving DecidableEq

/-- The changes of an `UPDATE`.  `set` gives the new values of the rows that its condition
    selects; both are computed from the table as it is before the statement. -/
def changes {α β : Type} (set : α → Option β) (rows : List α) : List (Change α β) :=
  rows.zipIdx.filterMap fun e => (set e.1).map fun new => ⟨e.2, e.1, new⟩

/-- An order in which the rows of a statement are visited. -/
structure Plan (ι : Type) where
  order : List ι → List ι
  perm : ∀ l, (order l).Perm l

theorem Plan.mem_order {ι : Type} (plan : Plan ι) {l : List ι} {i : ι} (h : i ∈ plan.order l) :
    i ∈ l :=
  (plan.perm l).mem_iff.1 h

theorem Plan.order_perm {ι : Type} (plan plan' : Plan ι) (l : List ι) :
    (plan.order l).Perm (plan'.order l) :=
  (plan.perm l).trans (plan'.perm l).symm

section
variable {α β : Type} {set : α → Option β} {rows : List α}

theorem mem_changes {c : Change α β} :
    c ∈ changes set rows ↔ rows[c.pos]? = some c.old ∧ set c.old = some c.new := by
  unfold changes
  rw [List.mem_filterMap]
  constructor
  · rintro ⟨⟨a, i⟩, hmem, h⟩
    obtain ⟨new, hnew, rfl⟩ := Option.map_eq_some_iff.1 h
    exact ⟨List.mem_zipIdx_iff_getElem?.1 hmem, hnew⟩
  · rintro ⟨hpos, hset⟩
    exact ⟨(c.old, c.pos), List.mem_zipIdx_iff_getElem?.2 hpos, by simp [hset]⟩

/-- A row is changed once. -/
theorem changes_inj {c c' : Change α β} (hc : c ∈ changes set rows)
    (hc' : c' ∈ changes set rows) (h : c.pos = c'.pos) : c = c' := by
  obtain ⟨hpos, hset⟩ := mem_changes.1 hc
  obtain ⟨hpos', hset'⟩ := mem_changes.1 hc'
  obtain ⟨i, old, new⟩ := c
  obtain ⟨j, old', new'⟩ := c'
  obtain rfl : i = j := h
  obtain rfl : old = old' := Option.some.inj (hpos.symm.trans hpos')
  obtain rfl : new = new' := Option.some.inj (hset.symm.trans hset')
  rfl

theorem changes_pairwise (set : α → Option β) (rows : List α) :
    (changes set rows).Pairwise fun c c' => c.pos ≠ c'.pos := by
  unfold changes
  refine List.Pairwise.filterMap _ (R := fun e e' => e.2 ≠ e'.2) ?_ ?_
  · intro e e' hne c hc c' hc'
    obtain ⟨new, -, rfl⟩ := Option.map_eq_some_iff.1 hc
    obtain ⟨new', -, rfl⟩ := Option.map_eq_some_iff.1 hc'
    exact hne
  · rw [← List.pairwise_map, List.zipIdx_map_snd]
    exact List.nodup_range'

/-- A sum over the changes is a sum over the rows, nothing for those that are not selected. -/
theorem sum_changes (F : α → β → Int) (set : α → Option β) (rows : List α) :
    ((changes set rows).map fun c => F c.old c.new).sum =
      (rows.map fun a => ((set a).map (F a)).getD 0).sum := by
  unfold changes
  generalize 0 = k
  induction rows generalizing k with
  | nil => rfl
  | cons a rows ih =>
    rw [List.zipIdx_cons, List.map_cons, List.sum_cons, ← ih (k + 1)]
    cases h : set a with
    | none =>
      rw [List.filterMap_cons_none (by rw [h]; rfl)]
      simp
    | some new =>
      rw [List.filterMap_cons_some (by rw [h]; rfl)]
      simp

theorem getElem?_foldl_set_of_ne {f : Change α β → α} {l : List (Change α β)} {i : ℕ}
    (h : ∀ c ∈ l, c.pos ≠ i) (rows : List α) :
    (l.foldl (fun rows c => rows.set c.pos (f c)) rows)[i]? = rows[i]? := by
  induction l generalizing rows with
  | nil => rfl
  | cons c l ih =>
    rw [List.foldl_cons, ih fun c' hc' => h c' (List.mem_cons_of_mem _ hc'),
      List.getElem?_set_ne (h c List.mem_cons_self)]

theorem getElem?_foldl_set_of_mem {f : Change α β → α} {l : List (Change α β)}
    (hpos : l.Pairwise fun c c' => c.pos ≠ c'.pos) {c : Change α β} (hc : c ∈ l) {rows : List α}
    (hlt : c.pos < rows.length) :
    (l.foldl (fun rows c => rows.set c.pos (f c)) rows)[c.pos]? = some (f c) := by
  induction l generalizing rows with
  | nil => exact absurd hc List.not_mem_nil
  | cons c' l ih =>
    rcases List.pairwise_cons.1 hpos with ⟨hne, hpos⟩
    rw [List.foldl_cons]
    rcases List.mem_cons.1 hc with rfl | hc
    · rw [getElem?_foldl_set_of_ne fun c' hc' => (hne c' hc').symm, List.getElem?_set_self hlt]
    · exact ih hpos hc (by rwa [List.length_set])

/-- **The rows after an update**, when each change writes what its old row determines. -/
theorem foldl_set_changes {f : Change α β → α} {w : α → α}
    (hw : ∀ c ∈ changes set rows, f c = w c.old) (hkeep : ∀ a ∈ rows, set a = none → w a = a) :
    (changes set rows).foldl (fun rows c => rows.set c.pos (f c)) rows = rows.map w := by
  ext i : 1
  rw [List.getElem?_map]
  cases hi : rows[i]? with
  | none =>
    rw [getElem?_foldl_set_of_ne, hi]
    · rfl
    · rintro c hc rfl
      rw [(mem_changes.1 hc).1] at hi
      exact absurd hi (by simp)
  | some a =>
    cases hset : set a with
    | none =>
      rw [getElem?_foldl_set_of_ne, hi, Option.map_some, hkeep a (List.mem_of_getElem? hi) hset]
      rintro c hc rfl
      rcases mem_changes.1 hc with ⟨hold, hnew⟩
      rw [Option.some.inj (hold.symm.trans hi), hset] at hnew
      exact absurd hnew (by simp)
    | some new =>
      have hc : (⟨i, a, new⟩ : Change α β) ∈ changes set rows := mem_changes.2 ⟨hi, hset⟩
      have hlt := (List.getElem?_eq_some_iff.1 hi).1
      rw [Option.map_some, ← hw _ hc]
      exact getElem?_foldl_set_of_mem (changes_pairwise set rows) hc hlt

end

/-- The order that visits `i` first. -/
def Plan.first {ι : Type} [DecidableEq ι] (i : ι) : Plan ι where
  order l := if i ∈ l then i :: l.erase i else l
  perm := by
    intro l
    split
    · exact (List.perm_cons_erase ‹i ∈ l›).symm
    · exact List.Perm.refl l

/-- The order of the table. -/
def Plan.inOrder {ι : Type} : Plan ι := ⟨id, List.Perm.refl⟩

/-- The order of the table, backwards. -/
def Plan.backwards {ι : Type} : Plan ι := ⟨List.reverse, List.reverse_perm⟩

/-! ## Row by row -/

section
variable {σ ι ε : Type} {visit : σ → ι → Except ε σ} {next : σ → ι → σ}

theorem rows_cons_ok {i : ι} {l : List ι} {s s' : σ} :
    (i :: l).foldlM visit s = .ok s' ↔ ∃ t, visit s i = .ok t ∧ l.foldlM visit t = .ok s' := by
  rw [List.foldlM_cons, bind_ok]

/-- What each visit preserves holds after the statement. -/
theorem rows_inv {P : σ → Prop} {l : List ι}
    (hvisit : ∀ s, ∀ i ∈ l, ∀ s', P s → visit s i = .ok s' → P s') {s s' : σ} (hs : P s)
    (h : l.foldlM visit s = .ok s') : P s' := by
  induction l generalizing s with
  | nil =>
    obtain rfl : s = s' := Except.ok.inj h
    exact hs
  | cons i l ih =>
    obtain ⟨t, ht, hl⟩ := rows_cons_ok.1 h
    exact ih (fun s j hj => hvisit s j (List.mem_cons_of_mem _ hj))
      (hvisit s i List.mem_cons_self t hs ht) hl

/-- Every row of an accepted statement is visited in some table that the visits before left. -/
theorem rows_visited {P : σ → Prop} {l : List ι}
    (hvisit : ∀ s, ∀ i ∈ l, ∀ s', P s → visit s i = .ok s' → P s') {s s' : σ} (hs : P s)
    (h : l.foldlM visit s = .ok s') : ∀ i ∈ l, ∃ t t', P t ∧ visit t i = .ok t' := by
  induction l generalizing s with
  | nil => exact fun i hi => absurd hi List.not_mem_nil
  | cons j l ih =>
    obtain ⟨t, ht, hl⟩ := rows_cons_ok.1 h
    intro i hi
    rcases List.mem_cons.1 hi with rfl | hi
    · exact ⟨s, t, hs, ht⟩
    · exact ih (fun s k hk => hvisit s k (List.mem_cons_of_mem _ hk))
        (hvisit s j List.mem_cons_self t hs ht) hl i hi

/-- The same as `rows_inv` for visits that meet `C`, each in the table as the visits before
    leave it, and for rows that stay `W`aiting until they are visited. -/
theorem rows_inv_along {P : σ → Prop} {W C : σ → ι → Prop} {l : List ι}
    (hnext : ∀ s, ∀ i ∈ l, ∀ s', visit s i = .ok s' → s' = next s i)
    (hvisit : ∀ s, ∀ i ∈ l, ∀ s', P s → W s i → C s i → visit s i = .ok s' → P s')
    (hwait : l.Pairwise fun i j => ∀ s, W s j → W (next s i) j) {s s' : σ} (hs : P s)
    (hW : ∀ i ∈ l, W s i) (hC : Machine.Along next C s l) (h : l.foldlM visit s = .ok s') :
    P s' := by
  induction l generalizing s with
  | nil =>
    obtain rfl : s = s' := Except.ok.inj h
    exact hs
  | cons i l ih =>
    obtain ⟨t, ht, hl⟩ := rows_cons_ok.1 h
    obtain ⟨hCi, hCl⟩ := hC
    obtain ⟨hwaiti, hwaitl⟩ := List.pairwise_cons.1 hwait
    have hPt := hvisit s i List.mem_cons_self t hs (hW i List.mem_cons_self) hCi ht
    obtain rfl := hnext s i List.mem_cons_self t ht
    refine ih (fun s j hj => hnext s j (List.mem_cons_of_mem _ hj))
      (fun s j hj => hvisit s j (List.mem_cons_of_mem _ hj)) hwaitl hPt ?_ hCl hl
    exact fun j hj => hwaiti j hj s (hW j (List.mem_cons_of_mem _ hj))

/-- An accepted statement has the effects of its visits. -/
theorem rows_eq_foldl {l : List ι} (hnext : ∀ s, ∀ i ∈ l, ∀ s', visit s i = .ok s' → s' = next s i)
    {s s' : σ} (h : l.foldlM visit s = .ok s') : s' = l.foldl next s := by
  induction l generalizing s with
  | nil => exact (Except.ok.inj h).symm
  | cons i l ih =>
    obtain ⟨t, ht, hl⟩ := rows_cons_ok.1 h
    obtain rfl := hnext s i List.mem_cons_self t ht
    exact ih (fun s j hj => hnext s j (List.mem_cons_of_mem _ hj)) hl

/-- **One outcome.**  Two orders of the same rows that are both accepted leave the same. -/
theorem rows_perm {visit' : σ → ι → Except ε σ} {l l' : List ι}
    (hnext : ∀ s, ∀ i ∈ l, ∀ s', visit s i = .ok s' → s' = next s i)
    (hnext' : ∀ s, ∀ i ∈ l, ∀ s', visit' s i = .ok s' → s' = next s i)
    (hcomm : ∀ i ∈ l, ∀ j ∈ l, ∀ s, next (next s i) j = next (next s j) i)
    (hperm : l.Perm l') {s s₁ s₂ : σ} (h₁ : l.foldlM visit s = .ok s₁)
    (h₂ : l'.foldlM visit' s = .ok s₂) : s₁ = s₂ := by
  rw [rows_eq_foldl hnext h₁,
    rows_eq_foldl (fun s j hj => hnext' s j (hperm.mem_iff.2 hj)) h₂]
  exact hperm.foldl_eq' (fun i hi j hj s => hcomm i hi j hj s) s

/-- **Accepted in every order.**  Rows that are ready from the start, and stay so whatever the
    others do, are accepted. -/
theorem rows_accepted {R : σ → ι → Prop} {l : List ι}
    (haccept : ∀ s, ∀ i ∈ l, R s i → visit s i = .ok (next s i))
    (hready : ∀ s, ∀ i ∈ l, ∀ j ∈ l, R s i → R (next s j) i) {s : σ}
    (hs : ∀ i ∈ l, R s i) : l.foldlM visit s = .ok (l.foldl next s) := by
  have hrun : ∀ (l' : List ι) (s : σ), (∀ i ∈ l', i ∈ l) → (∀ i ∈ l', R s i) →
      l'.foldlM visit s = .ok (l'.foldl next s) := by
    intro l'
    induction l' with
    | nil => exact fun s _ _ => rfl
    | cons i l' ih =>
      intro s hmem hs
      have hi := hmem i List.mem_cons_self
      have hmem' : ∀ j ∈ l', j ∈ l := fun j hj => hmem j (List.mem_cons_of_mem _ hj)
      refine rows_cons_ok.2 ⟨next s i, haccept s i hi (hs i List.mem_cons_self), ?_⟩
      refine ih _ hmem' fun j hj => ?_
      exact hready s j (hmem' j hj) i hi (hs j (List.mem_cons_of_mem _ hj))
  exact hrun l s (fun _ hi => hi) hs

end

end Oracle
