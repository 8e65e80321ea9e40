/-
  Prices of activities against tariffs of stations.

  `verif_prix_activite` keeps every price between zero and the tariff when an activity is
  written, and `baisse_activite` only lets tariffs grow; nothing looks at the prices when the
  tariff of a station is updated.  The prices fit along every run whose updates of `station`
  keep the tariffs of priced activities (`pricesFit_run`).
-/
import Cnam.Agence.Statements

namespace Agence

open Oracle

/-- Every price is between zero and the tariff of its station, where both are known. -/
def PricesFit (t : Tables) : Prop :=
  ∀ a ∈ t.activite, ∀ s ∈ t.station, s.nomStation = a.nomStation →
    ∀ p ∈ a.prix, ∀ x ∈ s.tarif, 0 ≤ p ∧ p ≤ x

instance (t : Tables) : Decidable (PricesFit t) :=
  inferInstanceAs (Decidable (∀ a ∈ t.activite, ∀ s ∈ t.station, s.nomStation = a.nomStation →
    ∀ p ∈ a.prix, ∀ x ∈ s.tarif, 0 ≤ p ∧ p ≤ x))

/-- A station of `t'` has a tariff only if the one of its name in `t` has one, not above it. -/
def TariffsGrow (t t' : Tables) : Prop :=
  ∀ s' ∈ t'.station, ∃ s ∈ t.station, s.nomStation = s'.nomStation ∧
    ∀ x ∈ s'.tarif, ∃ x₀ ∈ s.tarif, x₀ ≤ x

section
variable {force : InForce} {t t' : Tables}

theorem TariffsGrow.of_subset (h : ∀ s ∈ t'.station, s ∈ t.station) : TariffsGrow t t' :=
  fun s hs => ⟨s, h s hs, rfl, fun x hx => ⟨x, hx, le_rfl⟩⟩

theorem tariffsGrow_baisse (old : Activite) (new : NewActivite) :
    TariffsGrow t (baisse force t old new) := by
  intro s' hs'
  rw [baisse_eq] at hs'
  obtain ⟨s, hs, rfl⟩ := List.mem_map.1 hs'
  refine ⟨s, hs, rfl, fun x hx => ?_⟩
  obtain ⟨x₀, hx₀, rfl⟩ := Option.map_eq_some_iff.1 hx
  have := fall_nonneg force old new s.nomStation
  exact ⟨x₀, hx₀, by omega⟩

theorem tariffsGrow_miseAJour : TariffsGrow t (miseAJour force t) := by
  unfold miseAJour
  split
  · intro s' hs'
    obtain ⟨s, hs, rfl⟩ := List.mem_map.1 hs'
    exact ⟨s, hs, rfl, fun x hx => ⟨x, hx, le_rfl⟩⟩
  · exact TariffsGrow.of_subset fun s hs => hs

/-- Fewer activities and higher tariffs. -/
theorem PricesFit.mono (h : PricesFit t) (hact : ∀ a ∈ t'.activite, a ∈ t.activite)
    (htarif : TariffsGrow t t') : PricesFit t' := by
  intro a ha s' hs' hnom p hp x hx
  obtain ⟨s, hs, hss', hgrow⟩ := htarif s' hs'
  obtain ⟨x₀, hx₀, hle⟩ := hgrow x hx
  obtain ⟨hpos, hpx⟩ := h a (hact a ha) s hs (hss'.trans hnom) p hp x₀ hx₀
  exact ⟨hpos, hpx.trans hle⟩

/-- One more activity that is affordable. -/
theorem PricesFit.write (h : PricesFit t) (hn : (t.station.map Station.nomStation).Nodup)
    {new : NewActivite} {row : Activite} (hrow : new.row = .ok row) (hafford : Affordable t new)
    (hstation : t'.station = t.station)
    (hact : ∀ a ∈ t'.activite, a ∈ t.activite ∨ a = row) : PricesFit t' := by
  intro a ha s hs hnom p hp x hx
  rw [hstation] at hs
  rcases hact a ha with ha | rfl
  · exact h a ha s hs hnom p hp x hx
  · obtain ⟨hnew, -, hprix⟩ := newActivite_row.1 hrow
    obtain ⟨s₀, hs₀, hnew₀, hfit⟩ := hafford
    have hname : s₀.nomStation = s.nomStation :=
      Option.some.inj ((hnew₀.symm.trans hnew).trans (congrArg some hnom.symm))
    obtain rfl := List.inj_on_of_nodup_map hn hs₀ hs hname
    obtain ⟨hpos, hle⟩ := hfit p (hprix ▸ hp)
    exact ⟨hpos, hle x hx⟩

end

/-! ## Statements -/

/-- An update of `station` gives the station of a priced activity a tariff only if the station
    of that name had one, and not a lower one. -/
def KeepsTariffs (g : Database) : Stmt → Prop
  | .updateStation set => ∀ s ∈ g.station, ∀ new ∈ set s, ∀ a ∈ g.activite,
      new.nomStation = some a.nomStation → a.prix ≠ none → ∀ x ∈ new.tarif,
        ∃ s₀ ∈ g.station, s₀.nomStation = a.nomStation ∧ ∃ x₀ ∈ s₀.tarif, x₀ ≤ x
  | _ => True

section
variable {force : InForce} {g g' : Database}

/-- A new station has no activity. -/
theorem insertStation_pricesFit {rows : List NewStation} (h : PricesFit g.toTables)
    (hexec : exec force g (.insertStation rows) = .ok g') : PricesFit g'.toTables := by
  obtain ⟨rows', -, hcheck⟩ := bind_ok.1 hexec
  have hg' := Tables.check_ok.1 hcheck
  intro a ha s hs hnom
  have ha' : a ∈ g.activite := by
    rw [hg'] at ha
    exact ha
  obtain ⟨s₀, hs₀, hnom₀⟩ := List.mem_map.1 (g.activite_station ha')
  have hs₀' : s₀ ∈ g'.station := by
    rw [hg']
    exact List.mem_append_left _ hs₀
  obtain rfl := g'.station_inj hs hs₀' (hnom.trans hnom₀.symm)
  exact h a ha' s hs₀ hnom

theorem updateStation_pricesFit {set : Station → Option NewStation} (h : PricesFit g.toTables)
    (hkeep : KeepsTariffs g (.updateStation set))
    (hexec : exec force g (.updateStation set) = .ok g') : PricesFit g'.toTables := by
  obtain ⟨rows, hrows, hcheck⟩ := bind_ok.1 hexec
  rw [Tables.check_ok.1 hcheck]
  intro a ha s' hs' hnom p hp x hx
  obtain ⟨s, hs, hset⟩ := mapM_mem hrows hs'
  rcases stationSet_ok hset with rfl | ⟨new, hnew, hrow⟩
  · exact h a ha s' hs hnom p hp x hx
  · obtain ⟨hnom', htarif, -⟩ := newStation_row hrow
    have hpriced : a.prix ≠ none := by
      rw [Option.mem_def.1 hp]
      simp
    obtain ⟨s₀, hs₀, hnom₀, x₀, hx₀, hle⟩ := hkeep s hs new hnew a ha
      (hnom'.trans (congrArg some hnom)) hpriced x (htarif ▸ hx)
    obtain ⟨hpos, hpx⟩ := h a ha s₀ hs₀ hnom₀ p hp x₀ hx₀
    exact ⟨hpos, hpx.trans hle⟩

theorem insertActivite_pricesFit (hf : force.verifPrixActivite = true) {rows : List NewActivite}
    (h : PricesFit g.toTables) (hexec : exec force g (.insertActivite rows) = .ok g') :
    PricesFit g'.toTables := by
  obtain ⟨t, ht, hcheck⟩ := bind_ok.1 hexec
  rw [Tables.check_ok.1 hcheck]
  have hinv : t.station = g.station ∧ PricesFit t := by
    refine rows_inv (P := fun t => t.station = g.station ∧ PricesFit t) ?_ ⟨rfl, h⟩ ht
    rintro t new - t' ⟨hstation, hfit⟩ hvisit
    obtain ⟨row, hrow, rfl, hafford⟩ := insertRow_ok hvisit
    have hn : (t.station.map Station.nomStation).Nodup := by
      rw [hstation]
      exact g.nomStation_nodup
    refine ⟨hstation, hfit.write hn hrow (hafford hf hn) rfl ?_⟩
    intro a ha
    simpa using List.mem_append.1 ha
  exact hinv.2.mono (fun a ha => by simpa using ha) tariffsGrow_miseAJour

theorem updateActivite_pricesFit (hf : force.verifPrixActivite = true)
    {set : Activite → Option NewActivite} {plan : Plan (Change Activite NewActivite)}
    {verifFirst : Change Activite NewActivite → Bool} (h : PricesFit g.toTables)
    (hexec : exec force g (.updateActivite set plan verifFirst) = .ok g') :
    PricesFit g'.toTables := by
  obtain ⟨t, ht, hcheck⟩ := bind_ok.1 hexec
  rw [Tables.check_ok.1 hcheck]
  have hinv : t.station.map Station.nomStation = g.station.map Station.nomStation ∧
      PricesFit t := by
    refine rows_inv (P := fun t => t.station.map Station.nomStation =
      g.station.map Station.nomStation ∧ PricesFit t) ?_ ⟨rfl, h⟩ ht
    rintro t c - t' ⟨hnoms, hfit⟩ hvisit
    obtain ⟨rfl, hrow, hafford⟩ := updateRow_ok hvisit
    have hn : (t.station.map Station.nomStation).Nodup := by
      rw [hnoms]
      exact g.nomStation_nodup
    have hlowered : PricesFit (baisse force t c.old c.new) :=
      hfit.mono (fun a ha => by simpa using ha) (tariffsGrow_baisse c.old c.new)
    refine ⟨by simpa using hnoms, hlowered.write (by simpa using hn) hrow (hafford hf hn) rfl ?_⟩
    intro a ha
    rw [baisse_activite]
    exact List.mem_or_eq_of_mem_set ha
  exact hinv.2.mono (fun a ha => by simpa using ha) tariffsGrow_miseAJour

/-- **One statement** keeps the prices within the tariffs, if it keeps the tariffs. -/
theorem exec_pricesFit (hf : force.verifPrixActivite = true) {stmt : Stmt}
    (h : PricesFit g.toTables) (hkeep : KeepsTariffs g stmt)
    (hexec : exec force g stmt = .ok g') : PricesFit g'.toTables := by
  cases stmt with
  | insertStation rows => exact insertStation_pricesFit h hexec
  | updateStation set => exact updateStation_pricesFit h hkeep hexec
  | insertActivite rows => exact insertActivite_pricesFit hf h hexec
  | updateActivite set plan verifFirst => exact updateActivite_pricesFit hf h hexec
  | deleteStation cond =>
    rw [Tables.check_ok.1 hexec]
    exact h.mono (fun a ha => List.mem_of_mem_filter ha)
      (TariffsGrow.of_subset fun s hs => List.mem_of_mem_filter hs)
  | deleteActivite cond =>
    rw [Tables.check_ok.1 hexec]
    exact h.mono (fun a ha => List.mem_of_mem_filter ha)
      (TariffsGrow.of_subset fun s hs => hs)
  | insertSejour _ | updateNbPlaces _ _ | deleteSejour _ =>
    obtain ⟨hstation, hactivite⟩ := exec_onSejour (by trivial) hexec
    unfold PricesFit
    rw [hstation, hactivite]
    exact h

end

/-- **The prices fit in every state** that a run reaches from the initial data, if its updates
    of `station` keep the tariffs of priced activities. -/
theorem pricesFit_run (verifCapacite majActivites : Bool) {stmts : List Stmt}
    (h : Machine.Along (step ⟨true, verifCapacite, true, majActivites⟩) KeepsTariffs donnees
      stmts) :
    ∀ g ∈ Machine.states (step ⟨true, verifCapacite, true, majActivites⟩) donnees stmts,
      PricesFit g.toTables := by
  refine Machine.inv_along (P := fun g => PricesFit g.toTables) ?_ (by decide +kernel) h
  intro g stmt hg hkeep
  exact step_inv _ hg fun g' hexec => exec_pricesFit rfl hg hkeep hexec

/-- `UPDATE station SET tarif = 1200 WHERE nomStation = 'Passac'` -/
def raisePassac : Stmt :=
  .updateStation fun s => if s.nomStation = "Passac" then
    some ⟨some s.nomStation, some s.capacite, some s.lieu, s.region, some 120000, s.nbactivites⟩
  else none

/-- Ice hockey at 1100, which is above the tariff that Passac had. -/
def insertHockey : Stmt := .insertActivite [⟨some "Passac", some "Hockey", some 110000⟩]

/-- The tariff of a station is raised, and an activity gets a price below the new one. -/
theorem pricesFit_run_updateVoile :
    Accepted ⟨true, false, true, false⟩
        (Machine.run (step ⟨true, false, true, false⟩) donnees [updateVoile, raisePassac])
        insertHockey ∧
      ∀ g ∈ Machine.states (step ⟨true, false, true, false⟩) donnees
        [updateVoile, raisePassac, insertHockey], PricesFit g.toTables := by
  have hkeep : KeepsTariffs (step ⟨true, false, true, false⟩ donnees updateVoile) raisePassac := by
    unfold KeepsTariffs raisePassac
    decide +kernel
  exact ⟨by decide +kernel, pricesFit_run false false ⟨trivial, hkeep, trivial, trivial⟩⟩

/-- `UPDATE station SET tarif = 100 WHERE nomStation = 'Passac'` -/
def lowerPassac : Stmt :=
  .updateStation fun s => if s.nomStation = "Passac" then
    some ⟨some s.nomStation, some s.capacite, some s.lieu, s.region, some 10000, s.nbactivites⟩
  else none

/-- The tariff of a station can be lowered below a price. -/
theorem not_pricesFit_of_lower :
    ¬ ∀ (verifCapacite majActivites : Bool) (stmts : List Stmt), (∀ stmt ∈ stmts, ¬ OnSejour stmt) →
      ∀ g ∈ Machine.states (step ⟨true, verifCapacite, true, majActivites⟩) donnees stmts,
        PricesFit g.toTables := by
  intro h
  have hlower := h false false [lowerPassac] (by simp [lowerPassac, OnSejour]) _
    (Machine.run_mem_states _ _ _)
  revert hlower
  decide +kernel

end Agence
