/-
  The tables of the travel agency (`tp1_v3.sql`): rows, constraints and initial data.

  * Amounts of money, `NUMBER (8,2)`, are whole numbers of hundredths.
  * A column that may be `NULL` is an `Option`; the empty string is `NULL` and no other value.
  * A `Database` is made of tables that meet the constraints.
-/
import Cnam.Oracle.Logic
import Cnam.Oracle.Rows

namespace Agence

open Oracle

/-! ## Rows -/

/-- A `DATE`: a day and a time. -/
structure Date where
  year : ℕ
  month : ℕ
  day : ℕ
  second : ℕ := 0
deriving DecidableEq

/-- A row of `station`. -/
structure Station where
  nomStation : String
  capacite : Int
  lieu : String
  region : Option String
  tarif : Option Int
  nbactivites : Option Int
deriving DecidableEq

/-- A row of `activite`. -/
structure Activite where
  nomStation : String
  libelle : String
  prix : Option Int
deriving DecidableEq

/-- A row of `client`, as far as it is read. -/
structure Client where
  id : Int
  nom : String
  prenom : Option String
  ville : String
  region : Option String
  solde : Int
deriving DecidableEq

/-- A row of `sejour`. -/
structure Sejour where
  id : Int
  station : String
  debut : Date
  nbPlaces : Int
deriving DecidableEq

/-- The values that a statement gives to a row of `station` (`:NEW`), with the defaults of the
    columns it leaves out. -/
structure NewStation where
  nomStation : Option String
  capacite : Option Int
  lieu : Option String
  region : Option String
  tarif : Option Int := some 0
  nbactivites : Option Int := some 0
deriving DecidableEq

/-- A row that is to be in `activite`, with its NULLs. -/
structure NewActivite where
  nomStation : Option String
  libelle : Option String
  prix : Option Int := some 0
deriving DecidableEq

/-- A row that is to be in `sejour`, with its NULLs. -/
structure NewSejour where
  id : Option Int
  station : Option String
  debut : Option Date
  nbPlaces : Option Int
deriving DecidableEq

/-- The columns of a primary key and those declared `NOT NULL` need a value. -/
def notNull {α : Type} (column : String) : Option α → Except OraError α
  | some a => .ok a
  | none => .error (.cannotBeNull column)

theorem notNull_ok {α : Type} {column : String} {x : Option α} {a : α} :
    notNull column x = .ok a ↔ x = some a := by
  cases x <;> simp [notNull]

/-- The row, when no column that needs a value is NULL. -/
def NewStation.row (new : NewStation) : Except OraError Station := do
  let nomStation ← notNull "nomStation" new.nomStation
  let capacite ← notNull "capacite" new.capacite
  let lieu ← notNull "lieu" new.lieu
  pure ⟨nomStation, capacite, lieu, new.region, new.tarif, new.nbactivites⟩

/-- The row, when no column that needs a value is NULL. -/
def NewActivite.row (new : NewActivite) : Except OraError Activite := do
  let nomStation ← notNull "nomStation" new.nomStation
  let libelle ← notNull "libelle" new.libelle
  pure ⟨nomStation, libelle, new.prix⟩

/-- The row, when no column that needs a value is NULL. -/
def NewSejour.row (new : NewSejour) : Except OraError Sejour := do
  let id ← notNull "id" new.id
  let station ← notNull "station" new.station
  let debut ← notNull "debut" new.debut
  let nbPlaces ← notNull "nbPlaces" new.nbPlaces
  pure ⟨id, station, debut, nbPlaces⟩

/-! ## Tables and constraints -/

/-- The tables of the database. -/
structure Tables where
  station : List Station
  activite : List Activite
  client : List Client
  sejour : List Sejour

/-- The strings that `VARCHAR2 (n)` holds. -/
def varchar2 (n : ℕ) (s : String) : Prop := s ≠ "" ∧ s.length ≤ n

instance (n : ℕ) (s : String) : Decidable (varchar2 n s) :=
  inferInstanceAs (Decidable (_ ∧ _))

/-- The values of the columns are of their types. -/
def Tables.Typed (t : Tables) : Prop :=
  (∀ s ∈ t.station, varchar2 12 s.nomStation ∧ fits 4 s.capacite ∧ varchar2 12 s.lieu ∧
    (∀ r ∈ s.region, varchar2 12 r) ∧ (∀ n ∈ s.tarif, fits 8 n) ∧ ∀ n ∈ s.nbactivites, fits 6 n) ∧
  (∀ a ∈ t.activite, varchar2 12 a.nomStation ∧ varchar2 12 a.libelle ∧ ∀ n ∈ a.prix, fits 8 n) ∧
  (∀ c ∈ t.client, fits 6 c.id ∧ varchar2 12 c.nom ∧ (∀ p ∈ c.prenom, varchar2 12 p) ∧
    varchar2 12 c.ville ∧ (∀ r ∈ c.region, varchar2 12 r) ∧ fits 8 c.solde) ∧
  ∀ s ∈ t.sejour, fits 6 s.id ∧ varchar2 12 s.station ∧ fits 4 s.nbPlaces

instance (t : Tables) : Decidable t.Typed := inferInstanceAs (Decidable (_ ∧ _))

/-- The constraints, under their names in the script. -/
inductive Constraint where
  | pk_station
  | une_station
  | c_station
  | pk_activite
  | fk_activite
  | pk_client
  | pk_sejour
  | fk_sejour_station
  | fk_sejour_client
deriving DecidableEq, Repr

namespace Constraint

/-- The constraints of the script. -/
def all : List Constraint :=
  [pk_station, une_station, c_station, pk_activite, fk_activite, pk_client, pk_sejour,
    fk_sejour_station, fk_sejour_client]

theorem mem_all (c : Constraint) : c ∈ all := by
  cases c <;> decide

/-- The name of a constraint in the script. -/
def name : Constraint → String
  | pk_station => "pk_station"
  | une_station => "une_station"
  | c_station => "c_station"
  | pk_activite => "pk_activite"
  | fk_activite => "fk_activite"
  | pk_client => "pk_client"
  | pk_sejour => "pk_sejour"
  | fk_sejour_station => "fk_sejour_station"
  | fk_sejour_client => "fk_sejour_client"

/-- What a constraint says.  A check that is unknown is met, and two equal places with no
    region count as equal. -/
def Holds (t : Tables) : Constraint → Prop
  | pk_station => (t.station.map Station.nomStation).Nodup
  | une_station => (t.station.map fun s => (s.lieu, s.region)).Nodup
  | c_station => ∀ s ∈ t.station, ∀ r ∈ s.region,
      r.toLower ∈ ["ocean indien", "antilles", "europe", "ameriques", "extreme orient"]
  | pk_activite => (t.activite.map fun a => (a.nomStation, a.libelle)).Nodup
  | fk_activite => ∀ a ∈ t.activite, a.nomStation ∈ t.station.map Station.nomStation
  | pk_client => (t.client.map Client.id).Nodup
  | pk_sejour => (t.sejour.map fun s => (s.id, s.station, s.debut)).Nodup
  | fk_sejour_station => ∀ s ∈ t.sejour, s.station ∈ t.station.map Station.nomStation
  | fk_sejour_client => ∀ s ∈ t.sejour, s.id ∈ t.client.map Client.id

instance (t : Tables) : DecidablePred (Holds t) := by
  intro c
  cases c <;> unfold Holds <;> infer_instance

end Constraint

/-- The columns have their types, and the constraints hold. -/
def Tables.Valid (t : Tables) : Prop := t.Typed ∧ ∀ c ∈ Constraint.all, c.Holds t

instance (t : Tables) : Decidable t.Valid := inferInstanceAs (Decidable (_ ∧ _))

/-- Tables that meet the constraints. -/
structure Database extends Tables where
  valid : toTables.Valid

namespace Database

theorem holds (g : Database) (c : Constraint) : c.Holds g.toTables :=
  g.valid.2 c (Constraint.mem_all c)

theorem nomStation_nodup (g : Database) : (g.station.map Station.nomStation).Nodup :=
  g.holds .pk_station

theorem activite_station (g : Database) {a : Activite} (ha : a ∈ g.activite) :
    a.nomStation ∈ g.station.map Station.nomStation := g.holds .fk_activite a ha

/-- A station is known by its name. -/
theorem station_inj (g : Database) {s s' : Station} (hs : s ∈ g.station) (hs' : s' ∈ g.station)
    (h : s.nomStation = s'.nomStation) : s = s' :=
  List.inj_on_of_nodup_map g.nomStation_nodup hs hs' h

end Database

/-- The types of the columns and the constraints are checked when the statement is complete.
    (A value that does not fit is refused earlier by Oracle; the statement is undone all the
    same, since no row is written twice and a tariff only grows within a statement.) -/
def Tables.check (t : Tables) : Except OraError Database :=
  if h : t.Valid then .ok ⟨t, h⟩
  else match Constraint.all.find? fun c => ¬ c.Holds t with
    | some c => .error (.violated c.name)
    | none => .error .valueTooLarge

theorem Tables.check_ok {t : Tables} {g : Database} : t.check = .ok g ↔ g.toTables = t := by
  unfold Tables.check
  constructor
  · intro h
    split at h
    · obtain rfl := Except.ok.inj h
      rfl
    · split at h <;> exact absurd h (by simp)
  · rintro rfl
    rw [dif_pos g.valid]

/-! ## The initial data -/

/-- The rows that the script inserts; the column `nbactivites` is added later, with its
    default. -/
def donnees : Database where
  station :=
    [⟨"Venusa", 350, "Guadeloupe", some "Antilles", some 120000, some 0⟩,
     ⟨"Farniente", 200, "Seychelles", some "Ocean Indien", some 150000, some 0⟩,
     ⟨"Santalba", 150, "Martinique", some "Antilles", some 200000, some 0⟩,
     ⟨"Passac", 400, "Alpes", some "Europe", some 100000, some 0⟩]
  activite :=
    [⟨"Venusa", "Voile", some 15000⟩,
     ⟨"Venusa", "Plongee", some 12000⟩,
     ⟨"Farniente", "Plongee", some 13000⟩,
     ⟨"Passac", "Ski", some 20000⟩,
     ⟨"Passac", "Piscine", some 2000⟩,
     ⟨"Santalba", "Kayac", some 5000⟩]
  client :=
    [⟨10, "Fogg", some "Phileas", "Londres", some "Europe", 1246500⟩,
     ⟨20, "Pascal", some "Blaise", "Paris", some "Europe", 676300⟩,
     ⟨30, "Kerouac", some "Jack", "NewYork", some "Amerique", 981200⟩]
  sejour :=
    [⟨10, "Passac", { year := 1998, month := 7, day := 1 }, 2⟩,
     ⟨30, "Santalba", { year := 1996, month := 8, day := 14 }, 5⟩,
     ⟨20, "Santalba", { year := 1998, month := 8, day := 3 }, 4⟩,
     ⟨30, "Passac", { year := 1998, month := 8, day := 15 }, 3⟩,
     ⟨30, "Venusa", { year := 2003, month := 8, day := 3 }, 3⟩,
     ⟨20, "Venusa", { year := 2003, month := 8, day := 3 }, 6⟩,
     ⟨30, "Farniente", { year := 2024, month := 6, day := 3 }, 5⟩,
     ⟨10, "Farniente", { year := 1998, month := 9, day := 5 }, 3⟩]
  valid := by decide +kernel

end Agence
