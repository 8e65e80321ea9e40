/-
  What a price change does to the tariffs.

  With the triggers of prices in force, an update of `prix` raises the tariff of each station by
  the falls of the prices of its activities, so that the tariff with the prices of all activities
  never falls (`update_prix`).
-/
import Cnam.Agence.UpdateOrder

namespace Agence

open Oracle

/-- `set prix = …` on the rows for which there is a new price. -/
def setPrix (prix : Activite → Option Int) (a : Activite) : Option NewActivite :=
  (prix a).map fun p => ⟨some a.nomStation, some a.libelle, some p⟩

/-- A row after the price change. -/
def Activite.repriced (prix : Activite → Option Int) (a : Activite) : Activite :=
  { a with prix := (prix a).or a.prix }

/-- The discount that the price change gives on an activity: how much its price falls. -/
def discount (prix : Activite → Option Int) (a : Activite) : Int :=
  match prix a, a.prix with
  | some p, some o => max 0 (o - p)
  | _, _ => 0

/-- A sum over the activities of a station. -/
def sumAt (f : Activite → Int) (l : List Activite) (nom : String) : Int :=
  (l.map fun a => if a.nomStation = nom then f a else 0).sum

/-- The discounts on the activities of a station. -/
def discounts (prix : Activite → Option Int) (l : List Activite) (nom : String) : Int :=
  sumAt (discount prix) l nom

/-- The prices of the activities of a station. -/
def prices (l : List Activite) (nom : String) : Int := sumAt (fun a => a.prix.getD 0) l nom

/-- No price and no tariff is `NULL`. -/
def NoNull (t : Tables) : Prop :=
  (∀ s ∈ t.station, s.tarif ≠ none) ∧ ∀ a ∈ t.activite, a.prix ≠ none

instance (t : Tables) : Decidable (NoNull t) := inferInstanceAs (Decidable (_ ∧ _))

/-- What a price change makes of a database: the tariffs have grown by the discounts, the numbers
    of activities are counted again, and otherwise the stations, the clients and the bookings are
    as they were. -/
structure Repriced (prix : Activite → Option Int) (g g' : Database) : Prop where
  station : g'.station = g.station.map fun s =>
    { s.plus (discounts prix g.activite s.nomStation) with
      nbactivites := some (g'.count s.nomStation : Int) }
  activite : g'.activite = g.activite.map (Activite.repriced prix)
  client : g'.client = g.client
  sejour : g'.sejour = g.sejour
  /-- A station with the prices of its activities has not become cheaper. -/
  notFallen : ∀ s ∈ g.station, ∀ s' ∈ g'.station, s'.nomStation = s.nomStation →
    s.tarif.getD 0 + prices g.activite s.nomStation ≤
      s'.tarif.getD 0 + prices g'.activite s.nomStation

/-! ## The rows of the update -/

section
variable {prix : Activite → Option Int}

theorem sumAt_cons (f : Activite → Int) (a : Activite) (l : List Activite) (nom : String) :
    sumAt f (a :: l) nom = (if a.nomStation = nom then f a else 0) + sumAt f l nom :=
  List.sum_cons

/-- The prices do not fall by more than the discounts. -/
theorem prices_le_repriced (prix : Activite → Option Int) {l : List Activite}
    (hl : ∀ a ∈ l, a.prix ≠ none) (nom : String) :
    prices l nom ≤ discounts prix l nom + prices (l.map (Activite.repriced prix)) nom := by
  induction l with
  | nil => simp [prices, discounts, sumAt]
  | cons a l ih =>
    have ih := ih fun a' ha' => hl a' (List.mem_cons_of_mem _ ha')
    unfold prices discounts at ih ⊢
    rw [List.map_cons, sumAt_cons, sumAt_cons, sumAt_cons]
    show _ ≤ _ + ((if a.nomStation = nom then (((prix a).or a.prix).getD 0) else 0) + _)
    have hrow : (a.prix.getD 0 : Int) ≤ discount prix a + ((prix a).or a.prix).getD 0 := by
      unfold discount
      cases hp : prix a with
      | none => simp
      | some p =>
        cases ho : a.prix with
        | none => exact absurd ho (hl a List.mem_cons_self)
        | some o =>
          simp only [Option.getD_some, Option.some_or]
          omega
    split
    · omega
    · omega

theorem fall_setPrix {a : Activite} {p : Int} (hp : prix a = some p) (verifPrix verifCapacite
    majActivites : Bool) (nom : String) :
    fall ⟨verifPrix, verifCapacite, true, majActivites⟩ a
      ⟨some a.nomStation, some a.libelle, some p⟩ nom =
        if a.nomStation = nom then discount prix a else 0 := by
  show drop a ⟨some a.nomStation, some a.libelle, some p⟩ nom = _
  unfold drop discount
  rw [hp]
  cases ho : a.prix with
  | none => simp
  | some o =>
    by_cases hnom : a.nomStation = nom
    · by_cases hlt : p < o
      · simp [hnom, hlt]
        omega
      · simp [hnom, hlt]
        omega
    · simp [hnom]

theorem foldl_changed {force : InForce} (l : List (Change Activite NewActivite)) (t : Tables) :
    l.foldl (changed force) t =
      { t with
        station := t.station.map fun s =>
          s.plus ((l.map fun c => fall force c.old c.new s.nomStation).sum)
        activite := l.foldl (fun rows c => rows.set c.pos (written c)) t.activite } := by
  induction l generalizing t with
  | nil => simp
  | cons c l ih =>
    rw [List.foldl_cons, ih, changed, baisse_eq]
    simp [Station.plus_plus, Function.comp_def]

/-- The falls of the changed rows are the discounts. -/
theorem sum_fall (verifPrix verifCapacite majActivites : Bool) (l : List Activite) (nom : String) :
    ((changes (setPrix prix) l).map fun c =>
      fall ⟨verifPrix, verifCapacite, true, majActivites⟩ c.old c.new nom).sum =
        discounts prix l nom := by
  rw [sum_changes (fun a new => fall ⟨verifPrix, verifCapacite, true, majActivites⟩ a new nom)]
  unfold discounts sumAt
  congr 1
  refine List.map_congr_left fun a _ => ?_
  unfold setPrix
  cases hp : prix a with
  | none => simp [discount, hp]
  | some p => exact fall_setPrix hp ..

theorem written_setPrix {l : List Activite} {c : Change Activite NewActivite}
    (hc : c ∈ changes (setPrix prix) l) : written c = c.old.repriced prix := by
  rcases Option.map_eq_some_iff.1 (mem_changes.1 hc).2 with ⟨p, hp, hnew⟩
  unfold written Activite.repriced
  rw [← hnew, hp]
  rfl

theorem foldl_written (l : List Activite) :
    (changes (setPrix prix) l).foldl (fun rows c => rows.set c.pos (written c)) l =
      l.map (Activite.repriced prix) := by
  refine foldl_set_changes (fun c hc => written_setPrix hc) fun a _ hnone => ?_
  rw [Activite.repriced, Option.map_eq_none_iff.1 hnone]
  rfl

/-- **The tables after an accepted price change**, whatever the order. -/
theorem update_tables (verifCapacite : Bool) {g g' : Database}
    {plan : Plan (Change Activite NewActivite)} {verifFirst : Change Activite NewActivite → Bool}
    (h : exec ⟨true, verifCapacite, true, true⟩ g (.updateActivite (setPrix prix) plan verifFirst) =
      .ok g') :
    g'.toTables = majActivites
      { g.toTables with
        station := g.station.map fun s => s.plus (discounts prix g.activite s.nomStation)
        activite := g.activite.map (Activite.repriced prix) } := by
  rcases update_ok h with ⟨t, ht, hg'⟩
  have hmem : ∀ c ∈ plan.order (changes (setPrix prix) g.activite),
      c ∈ changes (setPrix prix) g.activite := fun c hc => plan.mem_order hc
  -- the rows have their effects in any order
  have hinOrder := (plan.perm (changes (setPrix prix) g.activite)).foldl_eq'
    (f := changed ⟨true, verifCapacite, true, true⟩)
    (fun c hc c' hc' t => changed_comm (hmem c hc) (hmem c' hc') t) g.toTables
  have hrows := rows_eq_foldl (fun t c _ t' h => (updateRow_ok h).1) ht
  rw [hg', hrows, hinOrder, foldl_changed, foldl_written]
  simp only [sum_fall]
  rfl

/-- An accepted price change. -/
theorem repriced_of_exec (verifCapacite : Bool) {g g' : Database} (hg : NoNull g.toTables)
    {plan : Plan (Change Activite NewActivite)} {verifFirst : Change Activite NewActivite → Bool}
    (hexec : exec ⟨true, verifCapacite, true, true⟩ g
      (.updateActivite (setPrix prix) plan verifFirst) = .ok g') : Repriced prix g g' := by
  have htables := update_tables verifCapacite hexec
  have hstation : g'.station = g.station.map fun s =>
      { s.plus (discounts prix g.activite s.nomStation) with
        nbactivites := some (g'.count s.nomStation : Int) } := by
    rw [htables]
    exact List.map_map
  have hactivite : g'.activite = g.activite.map (Activite.repriced prix) := by
    rw [htables]
    rfl
  refine ⟨hstation, hactivite, by rw [htables]; rfl, by rw [htables]; rfl, ?_⟩
  intro s hs s' hs' hnom
  rw [hstation] at hs'
  rcases List.mem_map.1 hs' with ⟨s₀, hs₀, rfl⟩
  have hsame : s₀ = s := g.station_inj hs₀ hs hnom
  subst hsame
  have hprices := prices_le_repriced prix hg.2 s₀.nomStation
  rw [hactivite]
  cases htarif : s₀.tarif with
  | none => exact absurd htarif (hg.1 s₀ hs)
  | some x =>
    have hplus : (s₀.plus (discounts prix g.activite s₀.nomStation)).tarif.getD 0 =
        x + discounts prix g.activite s₀.nomStation := by
      rw [Station.plus, htarif]
      rfl
    show x + _ ≤ (s₀.plus (discounts prix g.activite s₀.nomStation)).tarif.getD 0 + _
    omega

end

/-- **A price change moves the tariffs by exactly the discounts**, or it is refused and changes
    nothing. -/
theorem update_prix (verifCapacite : Bool) {g : Database} (hg : NoNull g.toTables)
    (prix : Activite → Option Int) (plan : Plan (Change Activite NewActivite))
    (verifFirst : Change Activite NewActivite → Bool) :
    (¬Accepted ⟨true, verifCapacite, true, true⟩ g
        (.updateActivite (setPrix prix) plan verifFirst) ∧
      step ⟨true, verifCapacite, true, true⟩ g
        (.updateActivite (setPrix prix) plan verifFirst) = g) ∨
    Repriced prix g (step ⟨true, verifCapacite, true, true⟩ g
      (.updateActivite (setPrix prix) plan verifFirst)) := by
  cases hexec : exec ⟨true, verifCapacite, true, true⟩ g
      (.updateActivite (setPrix prix) plan verifFirst) with
  | error e =>
    left
    constructor
    · rintro ⟨g', hg'⟩
      rw [hexec] at hg'
      exact absurd hg' (by simp)
    · unfold step
      rw [hexec]
  | ok g' =>
    right
    rw [step_of_ok _ hexec]
    exact repriced_of_exec verifCapacite hg hexec

/-- Three drops and two rises: sailing, at Venusa, and both activities of Passac get cheaper, diving
    gets dearer everywhere. -/
def prixVoile (a : Activite) : Option Int :=
  if a.libelle = "Voile" then some 10000
  else if a.libelle = "Plongee" then some 14000
  else if a.nomStation = "Passac" then a.prix.map (· - 1500)
  else none

/-- The change is accepted: the tariff of Venusa grows by 50, that of Passac by 30, and that of
    Farniente stays. -/
theorem update_prix_voile :
    Repriced prixVoile donnees (step ⟨true, false, true, true⟩ donnees
      (.updateActivite (setPrix prixVoile) Plan.backwards fun _ => true)) ∧
    discounts prixVoile donnees.activite "Venusa" = 5000 ∧
    discounts prixVoile donnees.activite "Passac" = 3000 ∧
    discounts prixVoile donnees.activite "Farniente" = 0 := by
  refine ⟨?_, by decide +kernel, by decide +kernel, by decide +kernel⟩
  refine (update_prix false ?_ prixVoile Plan.backwards fun _ => true).resolve_left ?_
  · decide +kernel
  · rintro ⟨hrefused, -⟩
    exact hrefused (by decide +kernel)

end Agence
