/-
  Three queries of the agency (`tp1_v3.sql`).

  * d) finds the stations that offer diving, and q) those that do not: each station is in one of
    the two results exactly when every station offers something, and diving, if at all, under the
    spelling that q) looks for (`splits_iff`);
  * v) finds the clients who have been in every station (`queryV_perm`).
-/
import Cnam.Agence.Schema
import Cnam.Oracle.Queries

namespace Agence

open Oracle

/-! ## Diving -/

/-- d) `SELECT nomstation FROM activite WHERE UPPER(libelle) = 'PLONGEE'` -/
def queryD (t : Tables) : List String :=
  (t.activite.filter fun a => a.libelle.toUpper = "PLONGEE").map Activite.nomStation

/-- q) the stations with another activity `MINUS` those with this one. -/
def queryQ (t : Tables) : List String :=
  minus ((t.activite.filter fun a => a.libelle ≠ "Plongee").map Activite.nomStation)
    ((t.activite.filter fun a => a.libelle = "Plongee").map Activite.nomStation)

/-- Each station is in exactly one of the two results, and they contain nothing else. -/
structure Splits (t : Tables) : Prop where
  one : ∀ s ∈ t.station, Xor (s.nomStation ∈ queryD t) (s.nomStation ∈ queryQ t)
  station : ∀ n, n ∈ queryD t ∨ n ∈ queryQ t → n ∈ t.station.map Station.nomStation

/-- Every station has an activity, and one that offers diving in any letters also offers it as
    `Plongee`. -/
def Spelled (t : Tables) : Prop :=
  ∀ s ∈ t.station, (∃ a ∈ t.activite, a.nomStation = s.nomStation) ∧
    ((∃ a ∈ t.activite, a.nomStation = s.nomStation ∧ a.libelle.toUpper = "PLONGEE") →
      ∃ a ∈ t.activite, a.nomStation = s.nomStation ∧ a.libelle = "Plongee")

instance (t : Tables) : Decidable (Spelled t) := by
  unfold Spelled
  infer_instance

theorem mem_queryD {t : Tables} {n : String} :
    n ∈ queryD t ↔ ∃ a ∈ t.activite, a.nomStation = n ∧ a.libelle.toUpper = "PLONGEE" := by
  simp only [queryD, List.mem_map, List.mem_filter, decide_eq_true_iff]
  constructor
  · rintro ⟨a, ⟨ha, hl⟩, hn⟩
    exact ⟨a, ha, hn, hl⟩
  · rintro ⟨a, ha, hn, hl⟩
    exact ⟨a, ⟨ha, hl⟩, hn⟩

theorem mem_queryQ {t : Tables} {n : String} :
    n ∈ queryQ t ↔ (∃ a ∈ t.activite, a.nomStation = n) ∧
      ¬∃ a ∈ t.activite, a.nomStation = n ∧ a.libelle = "Plongee" := by
  simp only [queryQ, mem_minus, List.mem_map, List.mem_filter, decide_eq_true_iff]
  constructor
  · rintro ⟨⟨a, ⟨ha, -⟩, hn⟩, hno⟩
    refine ⟨⟨a, ha, hn⟩, ?_⟩
    rintro ⟨b, hb, hbn, hl⟩
    exact hno ⟨b, ⟨hb, hl⟩, hbn⟩
  · rintro ⟨⟨a, ha, hn⟩, hno⟩
    refine ⟨⟨a, ⟨ha, fun hl => hno ⟨a, ha, hn, hl⟩⟩, hn⟩, ?_⟩
    rintro ⟨b, ⟨hb, hl⟩, hbn⟩
    exact hno ⟨b, hb, hbn, hl⟩

/-- **The two queries split the stations** if and only if the activities are spelled as q) expects
    them and no station is without one. -/
theorem splits_iff {t : Tables} (hfk : Constraint.fk_activite.Holds t) : Splits t ↔ Spelled t := by
  have hupper : "Plongee".toUpper = "PLONGEE" := by decide +kernel
  constructor
  · intro hsplit s hs
    rcases hsplit.one s hs with ⟨hd, hq⟩ | ⟨hq, hd⟩
    · obtain ⟨a, ha, hn, -⟩ := mem_queryD.1 hd
      refine ⟨⟨a, ha, hn⟩, fun _ => ?_⟩
      by_contra hno
      exact hq (mem_queryQ.2 ⟨⟨a, ha, hn⟩, hno⟩)
    · exact ⟨(mem_queryQ.1 hq).1, fun hdiving => absurd (mem_queryD.2 hdiving) hd⟩
  · intro hspelled
    constructor
    · intro s hs
      obtain ⟨hsome, hspell⟩ := hspelled s hs
      by_cases hdiving : s.nomStation ∈ queryD t
      · have hplongee := hspell (mem_queryD.1 hdiving)
        exact Or.inl ⟨hdiving, fun hq => (mem_queryQ.1 hq).2 hplongee⟩
      · refine Or.inr ⟨mem_queryQ.2 ⟨hsome, ?_⟩, hdiving⟩
        rintro ⟨a, ha, hn, hl⟩
        exact hdiving (mem_queryD.2 ⟨a, ha, hn, hl ▸ hupper⟩)
    · rintro n (hd | hq)
      · obtain ⟨a, ha, rfl, -⟩ := mem_queryD.1 hd
        exact hfk a ha
      · obtain ⟨⟨a, ha, rfl⟩, -⟩ := mem_queryQ.1 hq
        exact hfk a ha

/-- In the initial data they do. -/
theorem splits_donnees : Splits donnees.toTables :=
  (splits_iff (donnees.holds .fk_activite)).2 (by decide +kernel)

/-- A station whose diving is spelled in capitals, and two without activities. -/
def capitales : Tables :=
  { donnees.toTables with
    activite := [⟨"Venusa", "Plongee", some 12000⟩, ⟨"Farniente", "PLONGEE", some 13000⟩] }

/-- `Farniente` is in both results, `Passac` in none. -/
theorem not_splits_capitales : capitales.Valid ∧ ¬Splits capitales := by
  refine ⟨by decide +kernel, fun hsplit => ?_⟩
  have hone := hsplit.one
  revert hone
  decide +kernel

/-! ## Division -/

/-- The rows of `FROM sejour s, client c WHERE s.id = c.id`. -/
def sejourClient (t : Tables) : List (Sejour × Client) :=
  join (fun s c => s.id = c.id) t.sejour t.client

/-- v) the groups of a client, `HAVING COUNT(DISTINCT station) = (SELECT COUNT(*) FROM station)` -/
def queryV (t : Tables) : List (Int × String) :=
  having (fun r : Sejour × Client => (r.1.id, r.2.nom))
    (fun g => countDistinct (fun r : Sejour × Client => r.1.station) g = t.station.length)
    (sejourClient t)

/-- The client has a booking in every station. -/
def WentEverywhere (t : Tables) (c : Client) : Prop :=
  ∀ s ∈ t.station, ∃ j ∈ t.sejour, j.id = c.id ∧ j.station = s.nomStation

instance (t : Tables) : DecidablePred (WentEverywhere t) := fun c => by
  unfold WentEverywhere
  infer_instance

/-- **Query v) divides**: one row for each client with a booking in every station, and no other
    row. -/
theorem queryV_perm {t : Tables} (hstation : Constraint.pk_station.Holds t)
    (hclient : Constraint.pk_client.Holds t) (hsejour : Constraint.fk_sejour_station.Holds t)
    (hne : t.station ≠ []) :
    (queryV t).Perm ((t.client.filter (WentEverywhere t)).map fun c => (c.id, c.nom)) := by
  have hrows : ((t.client.filter (WentEverywhere t)).map fun c => (c.id, c.nom)).Nodup := by
    refine List.Nodup.of_map Prod.fst ?_
    rw [List.map_map]
    exact hclient.sublist (List.filter_sublist.map Client.id)
  have hsub : ∀ r ∈ sejourClient t, r.1.station ∈ t.station.map Station.nomStation :=
    fun r hr => hsejour r.1 (mem_join.1 hr).1.1
  refine (List.perm_ext_iff_of_nodup (nodup_having _ _) hrows).2 fun k => ?_
  have hdivide : k ∈ queryV t ↔ ∀ n ∈ t.station.map Station.nomStation,
      ∃ r ∈ sejourClient t, (r.1.id, r.2.nom) = k ∧ r.1.station = n := by
    rw [queryV, ← List.length_map Station.nomStation]
    exact mem_divide hstation (by simpa using hne) hsub
  refine hdivide.trans ?_
  rw [List.forall_mem_map]
  simp only [List.mem_map, List.mem_filter, decide_eq_true_iff]
  constructor
  · intro hall
    -- the client of the row is the one of a booking in some station
    obtain ⟨s, hs⟩ := List.exists_mem_of_ne_nil t.station hne
    obtain ⟨r, hr, rfl, -⟩ := hall s hs
    obtain ⟨⟨-, hc⟩, hid⟩ := mem_join.1 hr
    refine ⟨r.2, ⟨hc, fun s' hs' => ?_⟩, by rw [hid]⟩
    obtain ⟨r', hr', hkey, hst⟩ := hall s' hs'
    exact ⟨r'.1, (mem_join.1 hr').1.1, (Prod.mk.inj hkey).1.trans hid, hst⟩
  · rintro ⟨c, ⟨hc, hall⟩, rfl⟩ s hs
    obtain ⟨j, hj, hid, hst⟩ := hall s hs
    exact ⟨(j, c), mem_join.2 ⟨⟨hj, hc⟩, hid⟩, by rw [hid], hst⟩

/-- In the initial data, one client has been everywhere. -/
theorem queryV_donnees : (queryV donnees.toTables).Perm [(30, "Kerouac")] :=
  (queryV_perm (donnees.holds .pk_station) (donnees.holds .pk_client)
    (donnees.holds .fk_sejour_station) (by decide)).trans (by decide +kernel)

end Agence
