/-
  The counter `nbactivites` against the rows of `activite`.

  `maj_activites` counts anew after each `INSERT` or `UPDATE` on `activite`; nothing counts
  after a `DELETE`, when the column is added, or when a station is written.  Once a statement
  has counted, the counters stay right as long as no statement touches them or the activities
  behind their back (`counted_run`).
-/
import Cnam.Agence.Statements

namespace Agence

open Oracle

/-- The counter of every station is the number of its activities. -/
def Counted (t : Tables) : Prop :=
  ∀ s ∈ t.station, s.nbactivites = some (t.count s.nomStation : Int)

instance (t : Tables) : Decidable (Counted t) :=
  inferInstanceAs (Decidable (∀ s ∈ t.station, _ = _))

/-- A statement that fires `maj_activites` when it is accepted. -/
def WritesActivite : Stmt → Prop
  | .insertActivite _ | .updateActivite _ _ _ => True
  | _ => False

/-- The statement deletes no row of `activite` but with its station, inserts stations whose
    counter is zero, and updates neither a counter nor the name of a station that has
    activities. -/
def KeepsCounts (g : Database) : Stmt → Prop
  | .insertStation rows => ∀ new ∈ rows, new.nbactivites = some 0
  | .updateStation set => ∀ s ∈ g.station, ∀ new ∈ set s, new.nbactivites = s.nbactivites ∧
      (new.nomStation = some s.nomStation ∨ g.count s.nomStation = 0)
  | .deleteActivite cond => ∀ a ∈ g.activite, cond a = false
  | _ => True

section
variable {force : InForce} {t : Tables} {g g' : Database}

/-- **`maj_activites`** makes all counters right. -/
theorem counted_miseAJour (hf : force.majActivites = true) (t : Tables) :
    Counted (miseAJour force t) := by
  unfold miseAJour
  rw [if_pos hf]
  intro s hs
  obtain ⟨s₀, -, rfl⟩ := List.mem_map.1 hs
  rfl

/-- A station with activities was there before. -/
theorem station_of_count {nom : String} (h : g.count nom ≠ 0) :
    ∃ s ∈ g.station, s.nomStation = nom := by
  obtain ⟨a, ha, hnom⟩ := List.countP_pos_iff.1 (Nat.pos_of_ne_zero h)
  obtain rfl : nom = a.nomStation := by simpa using hnom
  obtain ⟨s, hs, hs'⟩ := List.mem_map.1 (g.activite_station ha)
  exact ⟨s, hs, hs'⟩

theorem writes_counted (hf : force.majActivites = true) {stmt : Stmt} (hw : WritesActivite stmt)
    (hexec : exec force g stmt = .ok g') : Counted g'.toTables := by
  cases stmt with
  | insertActivite rows =>
    obtain ⟨t, -, hcheck⟩ := bind_ok.1 hexec
    rw [Tables.check_ok.1 hcheck]
    exact counted_miseAJour hf t
  | updateActivite set plan verifFirst =>
    obtain ⟨t, -, hcheck⟩ := bind_ok.1 hexec
    rw [Tables.check_ok.1 hcheck]
    exact counted_miseAJour hf t
  | _ => exact hw.elim

theorem count_congr {t t' : Tables} (h : t'.activite = t.activite) (nom : String) :
    t'.count nom = t.count nom := by
  unfold Tables.count
  rw [h]

theorem insertStation_counted {rows : List NewStation} (h : Counted g.toTables)
    (hkeep : KeepsCounts g (.insertStation rows))
    (hexec : exec force g (.insertStation rows) = .ok g') : Counted g'.toTables := by
  obtain ⟨rows', hrows, hcheck⟩ := bind_ok.1 hexec
  have hg' := Tables.check_ok.1 hcheck
  intro s hs
  rw [count_congr (t := g.toTables) (by rw [hg'])]
  by_cases hzero : g.count s.nomStation = 0
  · rw [hg'] at hs
    rcases List.mem_append.1 hs with hs | hs
    · exact h s hs
    · obtain ⟨new, hnew, hrow⟩ := mapM_mem hrows hs
      rw [← (newStation_row hrow).2.2, hkeep new hnew, hzero]
      rfl
  · obtain ⟨s₀, hs₀, hnom⟩ := station_of_count hzero
    have hs₀' : s₀ ∈ g'.station := by
      rw [hg']
      exact List.mem_append_left _ hs₀
    obtain rfl := g'.station_inj hs₀' hs hnom
    exact h s₀ hs₀

/-- The image of a station keeps the counter, and the name if there are activities. -/
theorem stationSet_keeps {set : Station → Option NewStation}
    (hkeep : KeepsCounts g (.updateStation set)) {s s' : Station} (hs : s ∈ g.station)
    (hset : stationSet set s = .ok s') : s'.nbactivites = s.nbactivites ∧
      (s'.nomStation = s.nomStation ∨ g.count s.nomStation = 0) := by
  rcases stationSet_ok hset with rfl | ⟨new, hnew, hrow⟩
  · exact ⟨rfl, Or.inl rfl⟩
  · obtain ⟨hnom, -, hnb⟩ := newStation_row hrow
    obtain ⟨hnb', hnom'⟩ := hkeep s hs new hnew
    refine ⟨by rw [← hnb, hnb'], ?_⟩
    rcases hnom' with hnom' | hzero
    · exact Or.inl (Option.some.inj (hnom.symm.trans hnom'))
    · exact Or.inr hzero

theorem updateStation_counted {set : Station → Option NewStation} (h : Counted g.toTables)
    (hkeep : KeepsCounts g (.updateStation set))
    (hexec : exec force g (.updateStation set) = .ok g') : Counted g'.toTables := by
  obtain ⟨rows, hrows, hcheck⟩ := bind_ok.1 hexec
  have hg' := Tables.check_ok.1 hcheck
  have hstation : g'.station = rows := by rw [hg']
  intro s' hs'
  rw [count_congr (t := g.toTables) (by rw [hg'])]
  by_cases hzero : g.count s'.nomStation = 0
  · obtain ⟨s, hs, hset⟩ := mapM_mem hrows (hstation ▸ hs')
    obtain ⟨hnb, hnom | hzero'⟩ := stationSet_keeps hkeep hs hset
    · rw [hnb, h s hs, hnom]
    · rw [hnb, h s hs, hzero, hzero']
  · -- the station of the activities is the only one of its name, so it becomes `s'`
    obtain ⟨s, hs, hnom⟩ := station_of_count hzero
    obtain ⟨s₁, hs₁, hset⟩ := mapM_image hrows hs
    obtain ⟨hnb, hnom₁ | hzero'⟩ := stationSet_keeps hkeep hs hset
    · obtain rfl := g'.station_inj (hstation ▸ hs₁) hs' (hnom₁.trans hnom)
      rw [hnb, h s hs, hnom]
    · exact absurd (hnom ▸ hzero') hzero

/-- The activities of the stations that stay are kept. -/
theorem deleteStation_counted {cond : Station → Bool} (h : Counted g.toTables)
    (hexec : exec force g (.deleteStation cond) = .ok g') : Counted g'.toTables := by
  rw [Tables.check_ok.1 hexec]
  intro s hs
  obtain ⟨hs, hcond⟩ := List.mem_filter.1 hs
  have hstays : s.nomStation ∉ (g.station.filter cond).map Station.nomStation := by
    intro hmem
    obtain ⟨s', hs', hnom⟩ := List.mem_map.1 hmem
    obtain ⟨hs'mem, hcond'⟩ := List.mem_filter.1 hs'
    obtain rfl := g.station_inj hs'mem hs hnom
    simp [hcond'] at hcond
  rw [h s hs]
  refine congrArg (fun n : ℕ => some (n : Int)) ?_
  unfold Tables.count
  rw [List.countP_filter]
  refine List.countP_congr fun a _ => ?_
  simp only [decide_eq_true_eq, Bool.and_eq_true]
  constructor
  · rintro hnom
    exact ⟨hnom, hnom ▸ hstays⟩
  · exact fun h => h.1

/-- **One statement** keeps the counters right. -/
theorem exec_counted (hf : force.majActivites = true) {stmt : Stmt} (h : Counted g.toTables)
    (hkeep : KeepsCounts g stmt) (hexec : exec force g stmt = .ok g') : Counted g'.toTables := by
  cases stmt with
  | insertStation rows => exact insertStation_counted h hkeep hexec
  | updateStation set => exact updateStation_counted h hkeep hexec
  | deleteStation cond => exact deleteStation_counted h hexec
  | insertActivite _ | updateActivite _ _ _ => exact writes_counted hf (by trivial) hexec
  | deleteActivite cond =>
    rw [Tables.check_ok.1 hexec]
    have hall : g.activite.filter (fun a => !cond a) = g.activite :=
      List.filter_eq_self.2 fun a ha => by rw [hkeep a ha]; rfl
    rw [hall]
    exact h
  | insertSejour _ | updateNbPlaces _ _ | deleteSejour _ =>
    obtain ⟨hstation, hactivite⟩ := exec_onSejour (by trivial) hexec
    unfold Counted Tables.count
    rw [hstation, hactivite]
    exact h

end

/-- **The counters are right** in every state after an accepted `INSERT` or `UPDATE` on
    `activite`, as long as the statements since then keep them. -/
theorem counted_run (verifPrixActivite verifCapacite baisseActivite : Bool)
    (before : List Stmt) {first : Stmt} {after : List Stmt} (hw : WritesActivite first)
    (haccepted : Accepted ⟨verifPrixActivite, verifCapacite, baisseActivite, true⟩
      (Machine.run (step ⟨verifPrixActivite, verifCapacite, baisseActivite, true⟩) donnees before)
      first)
    (hkeep : Machine.Along (step ⟨verifPrixActivite, verifCapacite, baisseActivite, true⟩)
      KeepsCounts
      (Machine.run (step ⟨verifPrixActivite, verifCapacite, baisseActivite, true⟩) donnees
        (before ++ [first])) after) :
    ∀ g ∈ Machine.states (step ⟨verifPrixActivite, verifCapacite, baisseActivite, true⟩)
      (Machine.run (step ⟨verifPrixActivite, verifCapacite, baisseActivite, true⟩) donnees
        (before ++ [first])) after, Counted g.toTables := by
  refine Machine.inv_along (P := fun g => Counted g.toTables) ?_ ?_ hkeep
  · intro g stmt hg hkeep
    exact step_inv _ hg fun g' hexec => exec_counted rfl hg hkeep hexec
  · obtain ⟨g', hexec⟩ := haccepted
    rw [Machine.run_snoc, step_of_ok _ hexec]
    exact writes_counted rfl hw hexec

/-- `INSERT INTO station VALUES ('Kerguelen', 40, 'Kerguelen', 'Ocean Indien', 900, 0)` -/
def insertKerguelen : Stmt :=
  .insertStation
    [⟨some "Kerguelen", some 40, some "Kerguelen", some "Ocean Indien", some 90000, some 0⟩]

/-- `UPDATE station SET capacite = capacite + 10` -/
def enlarge : Stmt :=
  .updateStation fun s =>
    some ⟨some s.nomStation, some (s.capacite + 10), some s.lieu, s.region, s.tarif, s.nbactivites⟩

/-- Stations come, change and go. -/
theorem counted_run_updateVoile :
    Accepted ⟨true, false, true, true⟩ donnees updateVoile ∧
      ∀ g ∈ Machine.states (step ⟨true, false, true, true⟩)
        (Machine.run (step ⟨true, false, true, true⟩) donnees ([] ++ [updateVoile]))
        [insertKerguelen, enlarge, .deleteStation fun s => s.nomStation = "Venusa"],
        Counted g.toTables := by
  have haccepted : Accepted ⟨true, false, true, true⟩ donnees updateVoile := by
    decide +kernel
  have hinsert : ∀ g, KeepsCounts g insertKerguelen := by
    intro g new hnew
    rw [List.mem_singleton.1 hnew]
  have hupdate : ∀ g, KeepsCounts g enlarge := by
    rintro g s - new hnew
    rw [← Option.some.inj hnew]
    exact ⟨rfl, Or.inl rfl⟩
  exact ⟨haccepted,
    counted_run true false true [] trivial haccepted ⟨hinsert _, hupdate _, trivial, trivial⟩⟩

/-- A deletion leaves the counter of Venusa at two. -/
theorem not_counted_of_delete :
    ¬ ∀ stmts : List Stmt, (∀ stmt ∈ stmts, ¬ OnSejour stmt) →
      Counted (Machine.run (step ⟨true, false, true, true⟩) donnees stmts).toTables := by
  intro h
  have hdelete := h [updateVoile, .deleteActivite fun a => a.libelle = "Voile"]
    (by simp [updateVoile, OnSejour])
  revert hdelete
  decide +kernel

example : ¬ Counted donnees.toTables := by decide +kernel

end Agence
