/-
  Statements on the tables of the travel agency, with the triggers they fire.

  A statement is refused as a whole, or leaves a database (`exec`); a session is a run of
  statements in which the refused ones change nothing (`step`).
-/
import Cnam.Agence.Triggers

namespace Agence

open Oracle

/-- A statement.  `set` gives the new values of the rows that its condition selects, `plan` the
    order in which they are visited, and `verifFirst` says for which rows
    `verif_prix_activite` fires before `baisse_activite`.  Rows of `sejour` are inserted one at
    a time: a trigger that reads the table it is on does not let a statement insert several. -/
inductive Stmt where
  | insertStation (rows : List NewStation)
  | updateStation (set : Station → Option NewStation)
  | deleteStation (cond : Station → Bool)
  | insertActivite (rows : List NewActivite)
  | updateActivite (set : Activite → Option NewActivite)
      (plan : Plan (Change Activite NewActivite))
      (verifFirst : Change Activite NewActivite → Bool)
  | deleteActivite (cond : Activite → Bool)
  | insertSejour (row : NewSejour)
  | updateNbPlaces (set : Sejour → Option (Option Int)) (plan : Plan (Change Sejour (Option Int)))
  | deleteSejour (cond : Sejour → Bool)

section
variable (force : InForce)

/-! ## The triggers in force -/

/-- `verif_prix_activite`, when it is in force. -/
def prixVerifie (t : Tables) (new : NewActivite) : Except OraError Unit :=
  if force.verifPrixActivite then verifPrixActivite t new else .ok ()

/-- `verif_capacite`, when it is in force. -/
def capaciteVerifiee (t : Tables) (old : Option Sejour) (new : NewSejour) : Except OraError Unit :=
  if force.verifCapacite then verifCapacite t old new else .ok ()

/-- `baisse_activite`, when it is in force. -/
def baisse (t : Tables) (old : Activite) (new : NewActivite) : Tables :=
  if force.baisseActivite then baisseActivite t old new else t

/-- `maj_activites`, when it is in force. -/
def miseAJour (t : Tables) : Tables := if force.majActivites then majActivites t else t

/-! ## Rows -/

/-- An inserted row of `activite`. -/
def insertRow (t : Tables) (new : NewActivite) : Except OraError Tables := do
  prixVerifie force t new
  let row ← new.row
  pure { t with activite := t.activite ++ [row] }

/-- The two triggers before an updated row of `activite`, in either order. -/
def beforeUpdate (verifFirst : Bool) (t : Tables) (old : Activite) (new : NewActivite) :
    Except OraError Tables :=
  if verifFirst then do
    prixVerifie force t new
    pure (baisse force t old new)
  else do
    prixVerifie force (baisse force t old new) new
    pure (baisse force t old new)

/-- An updated row of `activite`. -/
def updateRow (verifFirst : Change Activite NewActivite → Bool) (t : Tables)
    (c : Change Activite NewActivite) : Except OraError Tables := do
  let t ← beforeUpdate force (verifFirst c) t c.old c.new
  let row ← c.new.row
  pure { t with activite := t.activite.set c.pos row }

/-- A row of `station` after an update, changed or not. -/
def stationSet (set : Station → Option NewStation) (s : Station) : Except OraError Station :=
  match set s with
  | some new => new.row
  | none => .ok s

/-- The values of a row of `sejour` of which an `UPDATE` sets the places. -/
def NewSejour.ofChange (c : Change Sejour (Option Int)) : NewSejour :=
  ⟨some c.old.id, some c.old.station, some c.old.debut, c.new⟩

/-- A row of `sejour` whose places are updated. -/
def updatePlaces (t : Tables) (c : Change Sejour (Option Int)) : Except OraError Tables := do
  capaciteVerifiee force t (some c.old) (.ofChange c)
  let row ← (NewSejour.ofChange c).row
  pure { t with sejour := t.sejour.set c.pos row }

/-! ## Statements -/

/-- A statement is accepted with the database it leaves, or refused. -/
def exec (g : Database) : Stmt → Except OraError Database
  | .insertStation rows => do
    let rows ← rows.mapM NewStation.row
    Tables.check { g.toTables with station := g.station ++ rows }
  | .updateStation set => do
    let station ← g.station.mapM (stationSet set)
    Tables.check { g.toTables with station := station }
  | .deleteStation cond =>
    -- `ON DELETE CASCADE`
    let deleted := (g.station.filter cond).map Station.nomStation
    Tables.check { g.toTables with
      station := g.station.filter fun s => !cond s
      activite := g.activite.filter fun a => a.nomStation ∉ deleted
      sejour := g.sejour.filter fun s => s.station ∉ deleted }
  | .insertActivite rows => do
    let t ← rows.foldlM (insertRow force) g.toTables
    (miseAJour force t).check
  | .updateActivite set plan verifFirst => do
    let t ← (plan.order (changes set g.activite)).foldlM (updateRow force verifFirst) g.toTables
    (miseAJour force t).check
  | .deleteActivite cond =>
    Tables.check { g.toTables with activite := g.activite.filter fun a => !cond a }
  | .insertSejour new => do
    capaciteVerifiee force g.toTables none new
    let row ← new.row
    Tables.check { g.toTables with sejour := g.sejour ++ [row] }
  | .updateNbPlaces set plan => do
    let t ← (plan.order (changes set g.sejour)).foldlM (updatePlaces force) g.toTables
    t.check
  | .deleteSejour cond =>
    Tables.check { g.toTables with sejour := g.sejour.filter fun s => !cond s }

/-- `set prix = 100 where prix = 150` -/
def voile (a : Activite) : Option NewActivite :=
  if a.prix = some 15000 then some ⟨some a.nomStation, some a.libelle, some 10000⟩ else none

/-- `update activite set prix = 100 where prix = 150`, the update of the script. -/
def updateVoile : Stmt := .updateActivite voile Plan.inOrder fun _ => true

/-- The statement is accepted. -/
def Accepted (g : Database) (stmt : Stmt) : Prop := ∃ g', exec force g stmt = .ok g'

instance (g : Database) (stmt : Stmt) : Decidable (Accepted force g stmt) :=
  match h : exec force g stmt with
  | .ok g' => isTrue ⟨g', h⟩
  | .error _ => isFalse fun ⟨_, h'⟩ => nomatch h.symm.trans h'

/-- A refused statement changes nothing. -/
def step (g : Database) (stmt : Stmt) : Database :=
  match exec force g stmt with
  | .ok g' => g'
  | .error _ => g

theorem step_of_ok {g g' : Database} {stmt : Stmt} (h : exec force g stmt = .ok g') :
    step force g stmt = g' := by
  unfold step
  rw [h]

/-- **Steps**: what every accepted statement preserves, every statement does. -/
theorem step_inv {P : Database → Prop} {g : Database} {stmt : Stmt} (hg : P g)
    (h : ∀ g', exec force g stmt = .ok g' → P g') : P (step force g stmt) := by
  unfold step
  cases hexec : exec force g stmt with
  | ok g' => exact h g' hexec
  | error e => exact hg

end

/-! ## What an accepted row does -/

section
variable {force : InForce} {t : Tables}

/-- What an updated row adds to the tariff of the station `nom`. -/
def fall (force : InForce) (old : Activite) (new : NewActivite) (nom : String) : Int :=
  if force.baisseActivite then drop old new nom else 0

theorem fall_nonneg (force : InForce) (old : Activite) (new : NewActivite) (nom : String) :
    0 ≤ fall force old new nom := by
  unfold fall
  split
  · exact drop_nonneg old new nom
  · exact le_rfl

/-- The tariffs grow, and nothing else changes. -/
theorem baisse_eq (force : InForce) (t : Tables) (old : Activite) (new : NewActivite) :
    baisse force t old new =
      { t with station := t.station.map fun s => s.plus (fall force old new s.nomStation) } := by
  unfold baisse fall
  split
  · exact baisseActivite_eq t old new
  · simp

@[simp] theorem baisse_activite (old : Activite) (new : NewActivite) :
    (baisse force t old new).activite = t.activite := by
  rw [baisse_eq]

@[simp] theorem baisse_noms (old : Activite) (new : NewActivite) :
    (baisse force t old new).station.map Station.nomStation =
      t.station.map Station.nomStation := by
  rw [baisse_eq, List.map_map]
  rfl

@[simp] theorem miseAJour_activite (t : Tables) : (miseAJour force t).activite = t.activite := by
  unfold miseAJour
  split <;> rfl

theorem newActivite_row {new : NewActivite} {row : Activite} :
    new.row = .ok row ↔ new.nomStation = some row.nomStation ∧ new.libelle = some row.libelle ∧
      new.prix = row.prix := by
  unfold NewActivite.row
  simp only [bind_ok, notNull_ok]
  constructor
  · rintro ⟨nom, hnom, libelle, hlibelle, h⟩
    obtain rfl := Except.ok.inj h
    exact ⟨hnom, hlibelle, rfl⟩
  · rintro ⟨hnom, hlibelle, hprix⟩
    exact ⟨_, hnom, _, hlibelle, by rw [hprix]; rfl⟩

theorem newStation_row {new : NewStation} {row : Station} (h : new.row = .ok row) :
    new.nomStation = some row.nomStation ∧ new.tarif = row.tarif ∧
      new.nbactivites = row.nbactivites := by
  unfold NewStation.row at h
  obtain ⟨nom, hnom, h⟩ := bind_ok.1 h
  obtain ⟨capacite, -, h⟩ := bind_ok.1 h
  obtain ⟨lieu, -, h⟩ := bind_ok.1 h
  obtain rfl := Except.ok.inj h
  exact ⟨notNull_ok.1 hnom, rfl, rfl⟩

theorem stationSet_ok {set : Station → Option NewStation} {s s' : Station}
    (h : stationSet set s = .ok s') : s' = s ∨ ∃ new ∈ set s, new.row = .ok s' := by
  unfold stationSet at h
  cases hset : set s with
  | none =>
    rw [hset] at h
    exact Or.inl (Except.ok.inj h).symm
  | some new =>
    rw [hset] at h
    exact Or.inr ⟨new, rfl, h⟩

/-- The price of the row is between zero and the tariff of its station. -/
def Affordable (t : Tables) (new : NewActivite) : Prop :=
  ∃ s ∈ t.station, new.nomStation = some s.nomStation ∧
    ∀ p ∈ new.prix, 0 ≤ p ∧ ∀ x ∈ s.tarif, p ≤ x

theorem Affordable.baisse {new : NewActivite} (h : Affordable t new) (old' : Activite)
    (new' : NewActivite) : Affordable (baisse force t old' new') new := by
  obtain ⟨s, hs, hnom, hprix⟩ := h
  refine ⟨s.plus (fall force old' new' s.nomStation), ?_, hnom, ?_⟩
  · rw [baisse_eq]
    exact List.mem_map_of_mem hs
  · intro p hp
    obtain ⟨hpos, hle⟩ := hprix p hp
    refine ⟨hpos, fun x hx => ?_⟩
    obtain ⟨x₀, hx₀, rfl⟩ := Option.map_eq_some_iff.1 hx
    have := hle x₀ hx₀
    have := fall_nonneg force old' new' s.nomStation
    omega

theorem prixVerifie_ok (hf : force.verifPrixActivite = true)
    (hn : (t.station.map Station.nomStation).Nodup) {new : NewActivite} :
    prixVerifie force t new = .ok () ↔ Affordable t new := by
  unfold prixVerifie
  rw [if_pos hf, verifPrixActivite_ok hn]
  rfl

/-- The row that a change writes. -/
def written (c : Change Activite NewActivite) : Activite :=
  match c.new.row with
  | .ok row => row
  | .error _ => c.old

/-- What an accepted change makes of the tables. -/
def changed (force : InForce) (t : Tables) (c : Change Activite NewActivite) : Tables :=
  { baisse force t c.old c.new with activite := t.activite.set c.pos (written c) }

@[simp] theorem changed_noms (c : Change Activite NewActivite) :
    (changed force t c).station.map Station.nomStation = t.station.map Station.nomStation :=
  baisse_noms c.old c.new

/-- **An updated row**, whichever trigger fires first: the tariff has grown, the row is in its
    place, and its price is between zero and the new tariff. -/
theorem updateRow_ok {verifFirst : Change Activite NewActivite → Bool}
    {c : Change Activite NewActivite} {t' : Tables} (h : updateRow force verifFirst t c = .ok t') :
    t' = changed force t c ∧ c.new.row = .ok (written c) ∧
      (force.verifPrixActivite = true → (t.station.map Station.nomStation).Nodup →
        Affordable (changed force t c) c.new) := by
  unfold updateRow at h
  obtain ⟨t₁, hbefore, h⟩ := bind_ok.1 h
  obtain ⟨row, hrow, h⟩ := bind_ok.1 h
  obtain rfl := Except.ok.inj h
  have hrow' : written c = row := by
    unfold written
    rw [hrow]
  unfold beforeUpdate at hbefore
  refine ⟨?_, hrow'.symm ▸ hrow, ?_⟩
  · split at hbefore
    · obtain ⟨u, -, hpure⟩ := bind_ok.1 hbefore
      obtain rfl := Except.ok.inj hpure
      rw [changed, hrow', baisse_activite]
    · obtain ⟨u, -, hpure⟩ := bind_ok.1 hbefore
      obtain rfl := Except.ok.inj hpure
      rw [changed, hrow', baisse_activite]
  · intro hf hn
    show Affordable (baisse force t c.old c.new) c.new
    split at hbefore
    · obtain ⟨u, hverif, -⟩ := bind_ok.1 hbefore
      exact ((prixVerifie_ok hf hn).1 hverif).baisse c.old c.new
    · obtain ⟨u, hverif, -⟩ := bind_ok.1 hbefore
      exact (prixVerifie_ok hf (by rwa [baisse_noms])).1 hverif

/-- A row that `verif_prix_activite` sees first is checked against the tariff before it. -/
theorem updateRow_first {verifFirst : Change Activite NewActivite → Bool}
    {c : Change Activite NewActivite} {t' : Tables} (hfirst : verifFirst c = true)
    (hf : force.verifPrixActivite = true) (hn : (t.station.map Station.nomStation).Nodup)
    (h : updateRow force verifFirst t c = .ok t') : Affordable t c.new := by
  obtain ⟨t₁, hbefore, -⟩ := bind_ok.1 h
  unfold beforeUpdate at hbefore
  rw [if_pos hfirst] at hbefore
  obtain ⟨u, hverif, -⟩ := bind_ok.1 hbefore
  exact (prixVerifie_ok hf hn).1 hverif

/-- A complete row whose price is affordable is accepted, whichever trigger fires first. -/
theorem updateRow_accepts (verifFirst : Change Activite NewActivite → Bool)
    {c : Change Activite NewActivite} (hf : force.verifPrixActivite = true)
    (hn : (t.station.map Station.nomStation).Nodup) {row : Activite} (hrow : c.new.row = .ok row)
    (h : Affordable t c.new) : updateRow force verifFirst t c = .ok (changed force t c) := by
  have hbefore : beforeUpdate force (verifFirst c) t c.old c.new =
      .ok (baisse force t c.old c.new) := by
    unfold beforeUpdate
    split
    · exact bind_ok.2 ⟨(), (prixVerifie_ok hf hn).2 h, rfl⟩
    · exact bind_ok.2
        ⟨(), (prixVerifie_ok hf (by rwa [baisse_noms])).2 (h.baisse c.old c.new), rfl⟩
  refine bind_ok.2 ⟨_, hbefore, bind_ok.2 ⟨row, hrow, ?_⟩⟩
  have hrow' : written c = row := by
    unfold written
    rw [hrow]
  rw [changed, hrow', baisse_activite]
  rfl

theorem insertRow_ok {new : NewActivite} {t' : Tables} (h : insertRow force t new = .ok t') :
    ∃ row, new.row = .ok row ∧ t' = { t with activite := t.activite ++ [row] } ∧
      (force.verifPrixActivite = true → (t.station.map Station.nomStation).Nodup →
        Affordable t new) := by
  unfold insertRow at h
  obtain ⟨u, hverif, h⟩ := bind_ok.1 h
  obtain ⟨row, hrow, h⟩ := bind_ok.1 h
  exact ⟨row, hrow, (Except.ok.inj h).symm, fun hf hn => (prixVerifie_ok hf hn).1 hverif⟩

/-- An updated row of `sejour` has its new places, and `verif_capacite` let it through. -/
theorem updatePlaces_ok {c : Change Sejour (Option Int)} {t' : Tables}
    (h : updatePlaces force t c = .ok t') :
    ∃ n, c.new = some n ∧
      t' = { t with sejour := t.sejour.set c.pos { c.old with nbPlaces := n } } ∧
      capaciteVerifiee force t (some c.old) (.ofChange c) = .ok () := by
  obtain ⟨_, hverif, h⟩ := bind_ok.1 h
  obtain ⟨row, hrow, h⟩ := bind_ok.1 h
  obtain rfl := Except.ok.inj h
  unfold NewSejour.row NewSejour.ofChange at hrow
  simp only [bind_ok, notNull_ok, Option.some.injEq, exists_eq_left'] at hrow
  obtain ⟨n, hn, hrow⟩ := hrow
  obtain rfl := Except.ok.inj hrow
  exact ⟨n, hn, rfl, hverif⟩

end

/-- A statement on `sejour`. -/
def OnSejour : Stmt → Prop
  | .insertSejour _ | .updateNbPlaces _ _ | .deleteSejour _ => True
  | _ => False

/-- **Statements on `sejour`** leave the stations and the activities alone. -/
theorem exec_onSejour {force : InForce} {g g' : Database} {stmt : Stmt} (hs : OnSejour stmt)
    (hexec : exec force g stmt = .ok g') :
    g'.station = g.station ∧ g'.activite = g.activite := by
  cases stmt with
  | insertSejour new =>
    obtain ⟨_, -, hexec⟩ := bind_ok.1 hexec
    obtain ⟨row, -, hcheck⟩ := bind_ok.1 hexec
    rw [Tables.check_ok.1 hcheck]
    exact ⟨rfl, rfl⟩
  | updateNbPlaces set plan =>
    obtain ⟨t, ht, hcheck⟩ := bind_ok.1 hexec
    rw [Tables.check_ok.1 hcheck]
    refine rows_inv (P := fun t => t.station = g.station ∧ t.activite = g.activite) ?_
      ⟨rfl, rfl⟩ ht
    rintro t c - t' hsame hvisit
    obtain ⟨n, -, rfl, -⟩ := updatePlaces_ok hvisit
    exact hsame
  | deleteSejour cond =>
    rw [Tables.check_ok.1 hexec]
    exact ⟨rfl, rfl⟩
  | _ => exact hs.elim

end Agence
