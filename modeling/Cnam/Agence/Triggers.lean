/-
  The triggers of the travel agency (`tp1_v3.sql`), each with what it says of a row it lets
  through or what it makes of the tables.
-/
import Cnam.Agence.Schema

namespace Agence

open Oracle

/-- The triggers in force. -/
structure InForce where
  verifPrixActivite : Bool
  verifCapacite : Bool
  baisseActivite : Bool
  majActivites : Bool

/-- `verif_prix_activite`, before a row of `activite` is inserted or updated. -/
def verifPrixActivite (t : Tables) (new : NewActivite) : Except OraError Unit := do
  let tarif_station ← selectInto ((t.station.filter fun s =>
    eq3 (some s.nomStation) new.nomStation = some true).map Station.tarif)
  if or3 (gt3 new.prix tarif_station) (lt3 new.prix (some 0)) = some true then
    .error (.raised (-20000) "Prix negatif ou superieur au tarif de la station")
  else .ok ()

/-- The places that `verif_capacite` counts. -/
def totalRes (t : Tables) (old : Option Sejour) (new : NewSejour) : Int :=
  ((t.sejour.filter fun s =>
    and3 (and3 (eq3 (some s.station) new.station) (eq3 (some s.debut) new.debut))
      (ne3 (some s.nbPlaces) (old.map Sejour.nbPlaces)) = some true).map Sejour.nbPlaces).sum

/-- `verif_capacite`, before a row of `sejour` is inserted (`old` is `NULL`) or its `nbPlaces`
    updated.  It reads the table as it is before the change of the row. -/
def verifCapacite (t : Tables) (old : Option Sejour) (new : NewSejour) : Except OraError Unit := do
  let total_res ← assign 6 (totalRes t old new)
  let capacite_station ← selectInto ((t.station.filter fun s =>
    eq3 (some s.nomStation) new.station = some true).map Station.capacite)
  if ge3 (plus3 (some total_res) new.nbPlaces) (some capacite_station) = some true then
    .error (.raised (-20001) "Il ne reste pas assez des places")
  else .ok ()

/-- `baisse_activite`, before a row of `activite` is updated. -/
def baisseActivite (t : Tables) (old : Activite) (new : NewActivite) : Tables :=
  if lt3 new.prix old.prix = some true then
    { t with station := t.station.map fun s =>
        if eq3 (some s.nomStation) new.nomStation = some true then
          { s with tarif := minus3 (plus3 s.tarif old.prix) new.prix }
        else s }
  else t

/-- The number of activities of a station. -/
def Tables.count (t : Tables) (nomStation : String) : ℕ :=
  t.activite.countP fun a => nomStation = a.nomStation

/-- `maj_activites`, after a statement that inserts into or updates `activite`. -/
def majActivites (t : Tables) : Tables :=
  { t with station := t.station.map fun s =>
      { s with nbactivites := some (t.count s.nomStation : Int) } }

/-! ## What they do -/

/-- The row that `WHERE nomStation = …` selects. -/
theorem filter_nomStation {t : Tables} (hn : (t.station.map Station.nomStation).Nodup)
    {nom : Option String} {s : Station} :
    t.station.filter (fun s => eq3 (some s.nomStation) nom = some true) = [s] ↔
      s ∈ t.station ∧ nom = some s.nomStation := by
  have hnom : ∀ s' : Station, eq3 (some s'.nomStation) nom = some true ↔
      nom = some s'.nomStation := by
    intro s'
    cases nom with
    | none => simp [eq3]
    | some nom => simp [eq3, eq_comm]
  simp only [hnom]
  constructor
  · intro h
    have hs : s ∈ t.station.filter fun s => nom = some s.nomStation := by
      rw [h]
      exact List.mem_singleton_self s
    simpa using List.mem_filter.1 hs
  · rintro ⟨hs, rfl⟩
    have hone : ∀ s' ∈ t.station, decide (some s.nomStation = some s'.nomStation) = (s' == s) := by
      intro s' hs'
      rw [Bool.eq_iff_iff, decide_eq_true_iff, beq_iff_eq]
      constructor
      · exact fun h => List.inj_on_of_nodup_map hn hs' hs (Option.some.inj h).symm
      · rintro rfl
        rfl
    rw [List.filter_congr hone, List.filter_beq, List.count_eq_one_of_mem (hn.of_map _) hs]
    rfl

/-- **`verif_prix_activite`** lets a row through when its station exists and its price, if it
    has one, is not negative and not above the tariff of the station, if that has one. -/
theorem verifPrixActivite_ok {t : Tables} (hn : (t.station.map Station.nomStation).Nodup)
    {new : NewActivite} :
    verifPrixActivite t new = .ok () ↔ ∃ s ∈ t.station, new.nomStation = some s.nomStation ∧
      ∀ p ∈ new.prix, 0 ≤ p ∧ ∀ x ∈ s.tarif, p ≤ x := by
  have hcond : ∀ x : Option Int,
      or3 (gt3 new.prix x) (lt3 new.prix (some 0)) = some true ↔
        ¬ ∀ p ∈ new.prix, 0 ≤ p ∧ ∀ y ∈ x, p ≤ y := by
    intro x
    cases new.prix with
    | none => simp [gt3, lt3]
    | some p => cases x with
      | none => simp [gt3, lt3]
      | some y => simp [gt3, lt3]; omega
  simp only [verifPrixActivite, bind_ok, selectInto_ok, ite_error_ok, hcond, not_not, and_true,
    List.map_eq_singleton_iff, filter_nomStation hn]
  constructor
  · rintro ⟨x, ⟨s, ⟨hs, hnom⟩, rfl⟩, hprix⟩
    exact ⟨s, hs, hnom, hprix⟩
  · rintro ⟨s, hs, hnom, hprix⟩
    exact ⟨s.tarif, ⟨s, ⟨hs, hnom⟩, rfl⟩, hprix⟩

/-- **`verif_capacite`** lets a row through only when its station exists and the places that
    it counts and those of the row are fewer than the station has. -/
theorem verifCapacite_ok {t : Tables} (hn : (t.station.map Station.nomStation).Nodup)
    {old : Option Sejour} {new : NewSejour} (h : verifCapacite t old new = .ok ()) :
    ∃ s ∈ t.station, new.station = some s.nomStation ∧
      ∀ n ∈ new.nbPlaces, totalRes t old new + n < s.capacite := by
  simp only [verifCapacite, bind_ok, assign_ok, selectInto_ok, ite_error_ok,
    List.map_eq_singleton_iff, filter_nomStation hn] at h
  obtain ⟨_, ⟨-, rfl⟩, _, ⟨s, ⟨hs, hnom⟩, rfl⟩, hfew, -⟩ := h
  refine ⟨s, hs, hnom, ?_⟩
  intro n hn
  rw [Option.mem_def.1 hn] at hfew
  simpa [ge3, plus3] using hfew

/-- The converse too, for a row with places at a station that exists: what is counted must be a
    number of six digits. -/
theorem verifCapacite_ok_iff {t : Tables} (hn : (t.station.map Station.nomStation).Nodup)
    {s : Station} (hs : s ∈ t.station) (old : Option Sejour) {new : NewSejour}
    (hnom : new.station = some s.nomStation) {n : Int} (hplaces : new.nbPlaces = some n) :
    verifCapacite t old new = .ok () ↔
      fits 6 (totalRes t old new) ∧ totalRes t old new + n < s.capacite := by
  constructor
  · intro h
    rcases verifCapacite_ok hn h with ⟨s', hs', hnom', hfew⟩
    have hsame : s' = s :=
      List.inj_on_of_nodup_map hn hs' hs (Option.some.inj (hnom'.symm.trans hnom))
    subst hsame
    rcases bind_ok.1 h with ⟨_, hassign, -⟩
    exact ⟨(assign_ok.1 hassign).1, hfew n hplaces⟩
  · rintro ⟨hfits, hfew⟩
    have hrow := (filter_nomStation hn).2 ⟨hs, hnom⟩
    have hge : ¬ge3 (plus3 (some (totalRes t old new)) new.nbPlaces) (some s.capacite) =
        some true := by
      rw [hplaces]
      simpa [ge3, plus3] using hfew
    unfold verifCapacite
    rw [hrow]
    exact bind_ok.2 ⟨_, assign_ok.2 ⟨hfits, rfl⟩,
      bind_ok.2 ⟨_, selectInto_ok.2 rfl, ite_error_ok.2 ⟨hge, rfl⟩⟩⟩

/-- What `baisse_activite` adds to the tariff of the station `nom`: the fall of the price. -/
def drop (old : Activite) (new : NewActivite) (nom : String) : Int :=
  match old.prix, new.prix with
  | some o, some n => if new.nomStation = some nom ∧ n < o then o - n else 0
  | _, _ => 0

theorem drop_nonneg (old : Activite) (new : NewActivite) (nom : String) :
    0 ≤ drop old new nom := by
  unfold drop
  split
  · split
    · omega
    · exact le_rfl
  · exact le_rfl

/-- The station after the tariff has grown by `d`. -/
def Station.plus (s : Station) (d : Int) : Station := { s with tarif := s.tarif.map (· + d) }

@[simp] theorem Station.plus_nomStation (s : Station) (d : Int) :
    (s.plus d).nomStation = s.nomStation := rfl

@[simp] theorem Station.plus_zero (s : Station) : s.plus 0 = s := by
  cases s
  simp [Station.plus]

theorem Station.plus_plus (s : Station) (d e : Int) : (s.plus d).plus e = s.plus (d + e) := by
  simp [Station.plus, Function.comp_def, add_assoc]

/-- **`baisse_activite`** adds the fall of the price to the tariff of the new station. -/
theorem baisseActivite_eq (t : Tables) (old : Activite) (new : NewActivite) :
    baisseActivite t old new =
      { t with station := t.station.map fun s => s.plus (drop old new s.nomStation) } := by
  unfold baisseActivite drop
  cases ho : old.prix with
  | none => simp [lt3]
  | some o => cases hn : new.prix with
    | none => simp [lt3]
    | some n =>
      by_cases hlt : n < o
      · simp only [lt3, compare3_some, hlt, decide_true, if_true]
        congr 1
        refine List.map_congr_left fun s _ => ?_
        cases hnom : new.nomStation with
        | none => simp [eq3]
        | some nom =>
          by_cases heq : nom = s.nomStation
          · subst heq
            cases htarif : s.tarif <;>
              simp [eq3, plus3, minus3, Station.plus, htarif, add_sub_assoc]
          · simp [eq3, heq, Ne.symm heq]
      · simp [lt3, hlt]

end Agence
