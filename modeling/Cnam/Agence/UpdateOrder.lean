/-
  The order in which an update of `activite` visits its rows, and fires its two triggers.

  The effects of the rows commute, so that two orders that are both accepted leave the same
  database.  Whether a row is accepted depends on the falls of prices visited before it, unless
  its new price is within the tariff that the station has before the statement
  (`update_order`).
-/
import Cnam.Agence.Prices

namespace Agence

open Oracle

theorem Database.eq_of_tables {g g' : Database} (h : g.toTables = g'.toTables) : g = g' := by
  cases g
  cases g'
  simpa using h

/-! ## The effects commute -/

section
variable {force : InForce} {g : Database} {set : Activite → Option NewActivite}

/-- **Two rows of one update commute.** -/
theorem changed_comm {c c' : Change Activite NewActivite} (hc : c ∈ changes set g.activite)
    (hc' : c' ∈ changes set g.activite) (t : Tables) :
    changed force (changed force t c) c' = changed force (changed force t c') c := by
  by_cases hpos : c.pos = c'.pos
  · obtain rfl := changes_inj hc hc' hpos
    rfl
  · have hstation : ∀ s : Station,
        (s.plus (fall force c.old c.new s.nomStation)).plus (fall force c'.old c'.new s.nomStation) =
          (s.plus (fall force c'.old c'.new s.nomStation)).plus
            (fall force c.old c.new s.nomStation) := by
      intro s
      rw [Station.plus_plus, Station.plus_plus, add_comm]
    unfold changed
    simp only [baisse_eq, List.map_map, Function.comp_def, Station.plus_nomStation, hstation]
    rw [List.set_comm _ _ hpos]

/-- The rows of an accepted update, in any order, have the effects of its changes. -/
theorem update_ok {plan : Plan (Change Activite NewActivite)}
    {verifFirst : Change Activite NewActivite → Bool} {g' : Database}
    (h : exec force g (.updateActivite set plan verifFirst) = .ok g') :
    ∃ t, (plan.order (changes set g.activite)).foldlM (updateRow force verifFirst) g.toTables =
      .ok t ∧ g'.toTables = miseAJour force t := by
  obtain ⟨t, ht, hcheck⟩ := bind_ok.1 h
  exact ⟨t, ht, Tables.check_ok.1 hcheck⟩

theorem update_noms {verifFirst : Change Activite NewActivite → Bool}
    {l : List (Change Activite NewActivite)} :
    ∀ t, ∀ c ∈ l, ∀ t',
      t.station.map Station.nomStation = g.station.map Station.nomStation →
      updateRow force verifFirst t c = .ok t' →
      t'.station.map Station.nomStation = g.station.map Station.nomStation := by
  intro t c _ t' hnoms h
  rw [(updateRow_ok h).1, changed_noms, hnoms]

/-- **One outcome.**  Two orders that are both accepted leave the same database. -/
theorem update_same {plan plan' : Plan (Change Activite NewActivite)}
    {verifFirst verifFirst' : Change Activite NewActivite → Bool} {g₁ g₂ : Database}
    (h₁ : exec force g (.updateActivite set plan verifFirst) = .ok g₁)
    (h₂ : exec force g (.updateActivite set plan' verifFirst') = .ok g₂) : g₁ = g₂ := by
  obtain ⟨t₁, ht₁, hg₁⟩ := update_ok h₁
  obtain ⟨t₂, ht₂, hg₂⟩ := update_ok h₂
  obtain rfl : t₁ = t₂ := rows_perm (fun t c _ t' h => (updateRow_ok h).1)
    (fun t c _ t' h => (updateRow_ok h).1)
    (fun c hc c' hc' t => changed_comm (plan.mem_order hc) (plan.mem_order hc') t)
    (plan.order_perm plan' _) ht₁ ht₂
  exact Database.eq_of_tables (hg₁.trans hg₂.symm)

/-! ## Which orders are accepted -/

/-- No new price is above the tariff that its station has before the statement. -/
def WithinTariffs (g : Database) (set : Activite → Option NewActivite) : Prop :=
  ∀ c ∈ changes set g.activite, ∀ s ∈ g.station, c.new.nomStation = some s.nomStation →
    ∀ p ∈ c.new.prix, ∀ x ∈ s.tarif, p ≤ x

instance (g : Database) (set : Activite → Option NewActivite) : Decidable (WithinTariffs g set) :=
  inferInstanceAs (Decidable (∀ c ∈ changes set g.activite, ∀ s ∈ g.station,
    c.new.nomStation = some s.nomStation → ∀ p ∈ c.new.prix, ∀ x ∈ s.tarif, p ≤ x))

/-- The order that visits a row first refuses a price that only falls of prices make
    affordable. -/
theorem withinTariffs_of_accepted (hf : force.verifPrixActivite = true)
    (h : ∀ plan verifFirst, Accepted force g (.updateActivite set plan verifFirst)) :
    WithinTariffs g set := by
  intro c hc s hs hnom p hp x hx
  obtain ⟨g', hg'⟩ := h (Plan.first c) fun _ => true
  obtain ⟨t, ht, -⟩ := update_ok hg'
  have horder : (Plan.first c).order (changes set g.activite) =
      c :: (changes set g.activite).erase c := if_pos hc
  rw [horder] at ht
  obtain ⟨t₁, ht₁, -⟩ := rows_cons_ok.1 ht
  obtain ⟨s', hs', hnom', hprix⟩ := updateRow_first rfl hf g.nomStation_nodup ht₁
  obtain rfl := g.station_inj hs hs' (Option.some.inj (hnom.symm.trans hnom'))
  exact (hprix p hp).2 x hx

/-- The rows that an update visits are complete, and each new price is of a station and not
    negative. -/
theorem ready_of_visited (hf : force.verifPrixActivite = true)
    {l : List (Change Activite NewActivite)} {verifFirst : Change Activite NewActivite → Bool}
    {t' : Tables} (h : l.foldlM (updateRow force verifFirst) g.toTables = .ok t') :
    ∀ c ∈ l, c.new.row = .ok (written c) ∧
      ∃ s ∈ g.station, c.new.nomStation = some s.nomStation ∧ ∀ p ∈ c.new.prix, 0 ≤ p := by
  intro c hc
  obtain ⟨t, t₁, hnoms, hvisit⟩ := rows_visited update_noms rfl h c hc
  obtain ⟨-, hrow, hafford⟩ := updateRow_ok hvisit
  obtain ⟨s', hs', hnom, hprix⟩ := hafford hf (hnoms ▸ g.nomStation_nodup)
  have hname : s'.nomStation ∈ g.station.map Station.nomStation := by
    rw [← (changed_noms c).trans hnoms]
    exact List.mem_map_of_mem hs'
  obtain ⟨s, hs, hss'⟩ := List.mem_map.1 hname
  exact ⟨hrow, s, hs, by rw [hnom, hss'], fun p hp => (hprix p hp).1⟩

/-- Complete rows that are affordable from the start are accepted in this order: no visit takes
    a tariff below a price. -/
theorem rows_ok_of_ready (hf : force.verifPrixActivite = true)
    {l : List (Change Activite NewActivite)} (verifFirst : Change Activite NewActivite → Bool)
    (hready : ∀ c ∈ l, c.new.row = .ok (written c) ∧ Affordable g.toTables c.new) :
    l.foldlM (updateRow force verifFirst) g.toTables =
      .ok (l.foldl (changed force) g.toTables) := by
  refine rows_accepted (R := fun t c => t.station.map Station.nomStation =
    g.station.map Station.nomStation ∧ c.new.row = .ok (written c) ∧ Affordable t c.new)
    ?_ ?_ fun c hc => ⟨rfl, hready c hc⟩
  · rintro t c - ⟨hnoms, hrow, hafford⟩
    exact updateRow_accepts verifFirst hf (hnoms ▸ g.nomStation_nodup) hrow hafford
  · rintro t c - c' - ⟨hnoms, hrow, hafford⟩
    exact ⟨by rw [changed_noms, hnoms], hrow, hafford.baisse c'.old c'.new⟩

/-- Prices within the tariffs before the statement are accepted in every order, if they are in
    one. -/
theorem accepted_of_withinTariffs (hf : force.verifPrixActivite = true)
    (hwithin : WithinTariffs g set) {plan plan' : Plan (Change Activite NewActivite)}
    {verifFirst verifFirst' : Change Activite NewActivite → Bool}
    (h : Accepted force g (.updateActivite set plan verifFirst)) :
    Accepted force g (.updateActivite set plan' verifFirst') := by
  obtain ⟨g₁, hg₁⟩ := h
  obtain ⟨t₁, ht₁, hcheck⟩ := update_ok hg₁
  have hperm := plan.order_perm plan' (changes set g.activite)
  have hready : ∀ c ∈ plan'.order (changes set g.activite),
      c.new.row = .ok (written c) ∧ Affordable g.toTables c.new := by
    intro c hc
    obtain ⟨hrow, s, hs, hnom, hprix⟩ := ready_of_visited hf ht₁ c (hperm.mem_iff.2 hc)
    exact ⟨hrow, s, hs, hnom, fun p hp =>
      ⟨hprix p hp, hwithin c (plan'.mem_order hc) s hs hnom p hp⟩⟩
  refine ⟨g₁, bind_ok.2 ⟨_, rows_ok_of_ready hf verifFirst' hready, ?_⟩⟩
  rw [Tables.check_ok, hcheck, rows_eq_foldl (fun t c _ t' h => (updateRow_ok h).1) ht₁]
  refine congrArg (miseAJour force) ?_
  exact hperm.foldl_eq'
    (fun c hc c' hc' t => changed_comm (plan.mem_order hc) (plan.mem_order hc') t) _

end

/-- **Orders of an update.**  All accepted orders leave the same database; and if some order is
    accepted, all are exactly when no new price is above the tariff that its station has before
    the statement. -/
theorem update_order (verifCapacite majActivites : Bool) (g : Database)
    (set : Activite → Option NewActivite) :
    (∀ plan verifFirst plan' verifFirst' g₁ g₂,
      exec ⟨true, verifCapacite, true, majActivites⟩ g (.updateActivite set plan verifFirst) =
        .ok g₁ →
      exec ⟨true, verifCapacite, true, majActivites⟩ g (.updateActivite set plan' verifFirst') =
        .ok g₂ → g₁ = g₂) ∧
    ((∃ plan verifFirst, Accepted ⟨true, verifCapacite, true, majActivites⟩ g
        (.updateActivite set plan verifFirst)) →
      ((∀ plan verifFirst, Accepted ⟨true, verifCapacite, true, majActivites⟩ g
          (.updateActivite set plan verifFirst)) ↔ WithinTariffs g set)) := by
  constructor
  · intro plan verifFirst plan' verifFirst' g₁ g₂ h₁ h₂
    exact update_same h₁ h₂
  · rintro ⟨plan, verifFirst, h⟩
    constructor
    · exact withinTariffs_of_accepted rfl
    · exact fun hwithin plan' verifFirst' => accepted_of_withinTariffs rfl hwithin h

/-- At Venusa, sailing gets cheaper and diving dearer; at Santalba, the kayak gets dearer. -/
def nouveauxPrix (a : Activite) : Option NewActivite :=
  if a.nomStation = "Venusa" ∧ a.libelle = "Voile" then
    some ⟨some a.nomStation, some a.libelle, some 10000⟩
  else if a.nomStation = "Venusa" ∨ a.libelle = "Kayac" then
    some ⟨some a.nomStation, some a.libelle, a.prix.map (· + 5000)⟩
  else none

/-- An update of three rows, with prices within the tariffs, is accepted in every order. -/
theorem update_order_voile : ∀ plan verifFirst,
    Accepted ⟨true, false, true, false⟩ donnees (.updateActivite nouveauxPrix plan verifFirst) := by
  have hbackwards : Accepted ⟨true, false, true, false⟩ donnees
      (.updateActivite nouveauxPrix Plan.backwards fun _ => true) := by
    decide +kernel
  refine ((update_order false false donnees nouveauxPrix).2 ⟨_, _, hbackwards⟩).2 ?_
  decide +kernel

/-- No price and no tariff is `NULL`, and the prices fit. -/
def Priced (t : Tables) : Prop :=
  (∀ s ∈ t.station, s.tarif ≠ none) ∧ (∀ a ∈ t.activite, a.prix ≠ none) ∧ PricesFit t

instance (t : Tables) : Decidable (Priced t) := inferInstanceAs (Decidable (_ ∧ _))

/-- At Passac, skiing gets cheaper by 180 and the pool dearer than the tariff of 1000. -/
def passac (a : Activite) : Option NewActivite :=
  if a.libelle = "Ski" then some ⟨some a.nomStation, some a.libelle, some 2000⟩
  else if a.libelle = "Piscine" then some ⟨some a.nomStation, some a.libelle, some 110000⟩
  else none

/-- The update of Passac is accepted in the order of the table and refused backwards. -/
theorem not_order_independent :
    ¬ ∀ (verifCapacite majActivites : Bool) (g : Database)
      (set : Activite → Option NewActivite), Priced g.toTables →
      (∀ a new, set a = some new → new.libelle = some a.libelle) →
      ∀ plan verifFirst plan' verifFirst',
        (exec ⟨true, verifCapacite, true, majActivites⟩ g
          (.updateActivite set plan verifFirst)).toOption =
        (exec ⟨true, verifCapacite, true, majActivites⟩ g
          (.updateActivite set plan' verifFirst')).toOption := by
  intro h
  have hset : ∀ a new, passac a = some new → new.libelle = some a.libelle := by
    intro a new hnew
    unfold passac at hnew
    split at hnew
    · rw [← Option.some.inj hnew]
    · split at hnew
      · rw [← Option.some.inj hnew]
      · exact absurd hnew (by simp)
  have hsame := congrArg Option.isSome (h false false donnees passac (by decide +kernel) hset
    Plan.inOrder (fun _ => true) Plan.backwards fun _ => true)
  revert hsame
  decide +kernel

end Agence
