/-
  Bookings against the capacity of a station.

  `verif_capacite` adds up the places of the other bookings of the station for the day, but
  leaves out those with as many places as the row had before: on `INSERT` all of them, since
  `:OLD` is `NULL`.  There is no overbooking along every run in which what it leaves out is at
  most one place, and no statement deletes places below zero (`noOverbooking_run`).
-/
import Cnam.Agence.Statements

namespace Agence

open Oracle

/-- The places of a booking for a station and a day (`PlacesReservees` is their sum). -/
def Sejour.places (s : Sejour) (nom : String) (debut : Date) : Int :=
  if s.station = nom ∧ s.debut = debut then s.nbPlaces else 0

/-- The places booked at a station for a day. -/
def booked (l : List Sejour) (nom : String) (debut : Date) : Int :=
  (l.map fun s => s.places nom debut).sum

/-- No station has more places booked for a day than it has. -/
def NoOverbooking (t : Tables) : Prop :=
  ∀ s ∈ t.station, ∀ debut, booked t.sejour s.nomStation debut ≤ s.capacite

/-! ## Places booked -/

section
variable {l l' : List Sejour} {nom : String} {debut : Date}

@[simp] theorem booked_nil : booked [] nom debut = 0 := rfl

@[simp] theorem booked_cons (s : Sejour) :
    booked (s :: l) nom debut = s.places nom debut + booked l nom debut := List.sum_cons

@[simp] theorem booked_append :
    booked (l ++ l') nom debut = booked l nom debut + booked l' nom debut := by
  unfold booked
  rw [List.map_append, List.sum_append]

theorem booked_perm (h : l.Perm l') : booked l nom debut = booked l' nom debut :=
  (h.map _).sum_eq

/-- Some bookings and the others. -/
theorem booked_split (p : Sejour → Bool) (l : List Sejour) (nom : String) (debut : Date) :
    booked l nom debut =
      booked (l.filter p) nom debut + booked (l.filter fun s => !p s) nom debut := by
  rw [← booked_append]
  exact booked_perm (List.filter_append_perm p l).symm

/-- A booking and the others. -/
theorem booked_row {i : ℕ} {s : Sejour} (h : l[i]? = some s) :
    booked l nom debut = s.places nom debut + booked (l.eraseIdx i) nom debut := by
  obtain ⟨hi, rfl⟩ := List.getElem?_eq_some_iff.1 h
  rw [← booked_cons]
  exact booked_perm (List.getElem_cons_eraseIdx_perm hi).symm

theorem booked_set {i : ℕ} (hi : i < l.length) (s : Sejour) :
    booked (l.set i s) nom debut = s.places nom debut + booked (l.eraseIdx i) nom debut := by
  rw [← booked_cons]
  exact booked_perm (List.set_perm_cons_eraseIdx hi s)

/-- The sum that SQL computes from the rows of the station and the day. -/
theorem booked_eq_sum :
    booked l nom debut =
      ((l.filter fun s => s.station = nom ∧ s.debut = debut).map Sejour.nbPlaces).sum := by
  induction l with
  | nil => rfl
  | cons s l ih =>
    rw [booked_cons, ih, Sejour.places, List.filter_cons]
    by_cases h : s.station = nom ∧ s.debut = debut
    · simp [h]
    · simp [h]

/-- It is enough to look at the days that have a booking. -/
theorem noOverbooking_of {t : Tables} (h : ∀ s ∈ t.station, 0 ≤ s.capacite ∧
    ∀ r ∈ t.sejour, booked t.sejour s.nomStation r.debut ≤ s.capacite) : NoOverbooking t := by
  intro s hs debut
  by_cases hday : ∃ r ∈ t.sejour, r.debut = debut
  · obtain ⟨r, hr, rfl⟩ := hday
    exact (h s hs).2 r hr
  · have hfree : t.sejour.filter (fun r => r.station = s.nomStation ∧ r.debut = debut) = [] := by
      rw [List.filter_eq_nil_iff]
      intro r hr hcond
      exact hday ⟨r, hr, (of_decide_eq_true hcond).2⟩
    rw [booked_eq_sum, hfree]
    exact (h s hs).1

end

/-! ## What the trigger counts, and what it leaves out -/

/-- On `INSERT` the trigger counts nothing. -/
theorem totalRes_insert (t : Tables) (new : NewSejour) : totalRes t none new = 0 := by
  have hnone : t.sejour.filter (fun s =>
      and3 (and3 (eq3 (some s.station) new.station) (eq3 (some s.debut) new.debut))
        (ne3 (some s.nbPlaces) ((none : Option Sejour).map Sejour.nbPlaces)) = some true) = [] := by
    rw [List.filter_eq_nil_iff]
    intro s _
    simp [ne3, eq3, not3]
  unfold totalRes
  rw [hnone]
  rfl

/-- On `UPDATE` it counts the bookings with another number of places. -/
theorem totalRes_update (t : Tables) (c : Change Sejour (Option Int)) :
    totalRes t (some c.old) (.ofChange c) =
      booked (t.sejour.filter fun s => !decide (s.nbPlaces = c.old.nbPlaces)) c.old.station
        c.old.debut := by
  rw [booked_eq_sum, List.filter_filter]
  unfold totalRes NewSejour.ofChange
  congr 2
  ext s
  simp [ne3, eq3, not3]

/-- The places of the other bookings that the update of a row leaves out. -/
def leftOut (l : List Sejour) (c : Change Sejour (Option Int)) : Int :=
  booked ((l.eraseIdx c.pos).filter fun s => s.nbPlaces = c.old.nbPlaces) c.old.station c.old.debut

/-- The row itself is not counted. -/
theorem totalRes_others {t : Tables} {c : Change Sejour (Option Int)}
    (h : t.sejour[c.pos]? = some c.old) :
    totalRes t (some c.old) (.ofChange c) = booked ((t.sejour.eraseIdx c.pos).filter fun s =>
      !decide (s.nbPlaces = c.old.nbPlaces)) c.old.station c.old.debut := by
  obtain ⟨hpos, hold⟩ := List.getElem?_eq_some_iff.1 h
  have hperm : (c.old :: t.sejour.eraseIdx c.pos).Perm t.sejour := by
    rw [← hold]
    exact List.getElem_cons_eraseIdx_perm hpos
  rw [totalRes_update, ← booked_perm (hperm.filter _), List.filter_cons_of_neg (by simp)]

/-- The other bookings are those that are counted and those that are left out. -/
theorem booked_others {t : Tables} {c : Change Sejour (Option Int)}
    (h : t.sejour[c.pos]? = some c.old) :
    booked (t.sejour.eraseIdx c.pos) c.old.station c.old.debut =
      totalRes t (some c.old) (.ofChange c) + leftOut t.sejour c := by
  rw [totalRes_others h, leftOut, add_comm]
  exact booked_split (fun s => decide (s.nbPlaces = c.old.nbPlaces)) _ _ _

/-! ## Statements -/

/-- What an accepted row of `sejour` whose places are updated makes of the tables. -/
def replaced (t : Tables) (c : Change Sejour (Option Int)) : Tables :=
  { t with sejour := t.sejour.set c.pos { c.old with nbPlaces := c.new.getD c.old.nbPlaces } }

/-- The trigger leaves out at most one place, and no places below zero are deleted:
    * an inserted row finds at most one place booked at its station for its day;
    * an updated row, at its turn, has at most one place in the other bookings of its station
      and day that have as many places as it;
    * the deleted rows of a station and a day have together no places below zero. -/
def CountsPlaces (g : Database) : Stmt → Prop
  | .insertSejour new => ∀ nom ∈ new.station, ∀ debut ∈ new.debut, booked g.sejour nom debut ≤ 1
  | .updateNbPlaces set plan => Machine.Along replaced (fun t c => leftOut t.sejour c ≤ 1)
      g.toTables (plan.order (changes set g.sejour))
  | .deleteSejour cond => ∀ nom debut, 0 ≤ booked (g.sejour.filter cond) nom debut
  | _ => True

section
variable {force : InForce} {t t' : Tables} {g g' : Database}

theorem capaciteVerifiee_ok (hf : force.verifCapacite = true)
    (hn : (t.station.map Station.nomStation).Nodup) {old : Option Sejour} {new : NewSejour}
    (h : capaciteVerifiee force t old new = .ok ()) :
    ∃ s ∈ t.station, new.station = some s.nomStation ∧
      ∀ n ∈ new.nbPlaces, totalRes t old new + n < s.capacite := by
  unfold capaciteVerifiee at h
  rw [if_pos hf] at h
  exact verifCapacite_ok hn h

/-- The bookings change at one station for one day, within its capacity. -/
theorem NoOverbooking.write (h : NoOverbooking t) (hn : (t.station.map Station.nomStation).Nodup)
    (hstation : t'.station = t.station) {s : Station} (hs : s ∈ t.station) (debut : Date)
    (hother : ∀ nom debut', ¬ (s.nomStation = nom ∧ debut = debut') →
      booked t'.sejour nom debut' = booked t.sejour nom debut')
    (hfits : booked t'.sejour s.nomStation debut ≤ s.capacite) : NoOverbooking t' := by
  intro s' hs' debut'
  rw [hstation] at hs'
  by_cases hsame : s.nomStation = s'.nomStation ∧ debut = debut'
  · obtain ⟨hnom, rfl⟩ := hsame
    obtain rfl := List.inj_on_of_nodup_map hn hs hs' hnom
    exact hfits
  · rw [hother _ _ hsame]
    exact h s' hs' debut'

theorem newSejour_row {new : NewSejour} {row : Sejour} :
    new.row = .ok row ↔ new.id = some row.id ∧ new.station = some row.station ∧
      new.debut = some row.debut ∧ new.nbPlaces = some row.nbPlaces := by
  unfold NewSejour.row
  simp only [bind_ok, notNull_ok]
  constructor
  · rintro ⟨id, hid, station, hstation, debut, hdebut, n, hplaces, h⟩
    obtain rfl := Except.ok.inj h
    exact ⟨hid, hstation, hdebut, hplaces⟩
  · rintro ⟨hid, hstation, hdebut, hplaces⟩
    exact ⟨_, hid, _, hstation, _, hdebut, _, hplaces, rfl⟩

theorem insertSejour_noOverbooking (hf : force.verifCapacite = true) {new : NewSejour}
    (h : NoOverbooking g.toTables) (hcount : CountsPlaces g (.insertSejour new))
    (hexec : exec force g (.insertSejour new) = .ok g') : NoOverbooking g'.toTables := by
  obtain ⟨u, hverif, hexec⟩ := bind_ok.1 hexec
  obtain ⟨row, hrow, hcheck⟩ := bind_ok.1 hexec
  rw [Tables.check_ok.1 hcheck]
  obtain ⟨-, hstation, hdebut, hplaces⟩ := newSejour_row.1 hrow
  obtain ⟨s, hs, hnom, hfew⟩ := capaciteVerifiee_ok hf g.nomStation_nodup hverif
  have hrowst : row.station = s.nomStation := Option.some.inj (hstation.symm.trans hnom)
  refine h.write g.nomStation_nodup rfl hs row.debut ?_ ?_
  · intro nom debut hother
    show booked (g.sejour ++ [row]) nom debut = _
    simp [Sejour.places, hrowst, hother]
  · have hlt := hfew row.nbPlaces hplaces
    have hle := hcount s.nomStation hnom row.debut hdebut
    rw [totalRes_insert] at hlt
    show booked (g.sejour ++ [row]) s.nomStation row.debut ≤ s.capacite
    simp only [booked_append, booked_cons, booked_nil, Sejour.places, hrowst, and_self, if_true]
    omega

theorem updatePlaces_replaced {c : Change Sejour (Option Int)}
    (h : updatePlaces force t c = .ok t') : t' = replaced t c := by
  obtain ⟨n, hnew, rfl, -⟩ := updatePlaces_ok h
  rw [replaced, hnew]
  rfl

/-- **One row** whose places are updated. -/
theorem updatePlaces_noOverbooking (hf : force.verifCapacite = true)
    (hn : (t.station.map Station.nomStation).Nodup) {c : Change Sejour (Option Int)}
    (h : NoOverbooking t) (hold : t.sejour[c.pos]? = some c.old)
    (hcount : leftOut t.sejour c ≤ 1) (hvisit : updatePlaces force t c = .ok t') :
    NoOverbooking t' := by
  obtain ⟨n, hnew, rfl, hverif⟩ := updatePlaces_ok hvisit
  obtain ⟨s, hs, hnom, hfew⟩ := capaciteVerifiee_ok hf hn hverif
  have hst : c.old.station = s.nomStation := Option.some.inj hnom
  have hpos := (List.getElem?_eq_some_iff.1 hold).1
  refine h.write hn rfl hs c.old.debut ?_ ?_
  · intro nom debut hother
    show booked (t.sejour.set _ _) nom debut = _
    rw [booked_set hpos, booked_row hold]
    simp [Sejour.places, hst, hother]
  · have hlt := hfew n hnew
    have hothers := booked_others hold
    show booked (t.sejour.set _ _) s.nomStation c.old.debut ≤ s.capacite
    rw [booked_set hpos]
    simp only [Sejour.places, hst, and_self, if_true] at hothers ⊢
    omega

theorem updateNbPlaces_noOverbooking (hf : force.verifCapacite = true)
    {set : Sejour → Option (Option Int)} {plan : Plan (Change Sejour (Option Int))}
    (h : NoOverbooking g.toTables) (hcount : CountsPlaces g (.updateNbPlaces set plan))
    (hexec : exec force g (.updateNbPlaces set plan) = .ok g') : NoOverbooking g'.toTables := by
  obtain ⟨t, ht, hcheck⟩ := bind_ok.1 hexec
  rw [Tables.check_ok.1 hcheck]
  have hinv : t.station = g.station ∧ NoOverbooking t := by
    -- a row keeps its old value until it is visited, since no other row has its place
    refine rows_inv_along (P := fun t => t.station = g.station ∧ NoOverbooking t)
      (W := fun t c => t.sejour[c.pos]? = some c.old) (C := fun t c => leftOut t.sejour c ≤ 1)
      ?_ ?_ ?_ ⟨rfl, h⟩ ?_ hcount ht
    · intro t c _ t' hvisit
      exact updatePlaces_replaced hvisit
    · rintro t c - t' ⟨hstation, hno⟩ hold hleft hvisit
      have hn : (t.station.map Station.nomStation).Nodup := by
        rw [hstation]
        exact g.nomStation_nodup
      refine ⟨?_, updatePlaces_noOverbooking hf hn hno hold hleft hvisit⟩
      rw [updatePlaces_replaced hvisit]
      exact hstation
    · have hpos := ((plan.perm _).pairwise_iff fun hne => hne.symm).2
        (changes_pairwise set g.sejour)
      refine hpos.imp ?_
      intro c c' hne t hold
      show (t.sejour.set c.pos _)[c'.pos]? = some c'.old
      rw [List.getElem?_set_ne hne, hold]
    · intro c hc
      exact (mem_changes.1 (plan.mem_order hc)).1
  exact hinv.2

theorem deleteSejour_noOverbooking {cond : Sejour → Bool} (h : NoOverbooking g.toTables)
    (hcount : CountsPlaces g (.deleteSejour cond))
    (hexec : exec force g (.deleteSejour cond) = .ok g') : NoOverbooking g'.toTables := by
  rw [Tables.check_ok.1 hexec]
  intro s hs debut
  have hall := h s hs debut
  have hdeleted := hcount s.nomStation debut
  have hsplit := booked_split cond g.sejour s.nomStation debut
  show booked (g.sejour.filter fun r => !cond r) s.nomStation debut ≤ s.capacite
  omega

/-- **One statement** on `sejour` for which the trigger counts the places. -/
theorem exec_noOverbooking (hf : force.verifCapacite = true) {stmt : Stmt} (hon : OnSejour stmt)
    (h : NoOverbooking g.toTables) (hcount : CountsPlaces g stmt)
    (hexec : exec force g stmt = .ok g') : NoOverbooking g'.toTables := by
  cases stmt with
  | insertSejour new => exact insertSejour_noOverbooking hf h hcount hexec
  | updateNbPlaces set plan => exact updateNbPlaces_noOverbooking hf h hcount hexec
  | deleteSejour cond => exact deleteSejour_noOverbooking h hcount hexec
  | _ => exact hon.elim

end

/-- **No overbooking** in every state of a run of statements on `sejour`, if in each of them
    the trigger leaves out at most one place and no places below zero are deleted. -/
theorem noOverbooking_run (verifPrixActivite baisseActivite majActivites : Bool) {g : Database}
    (hg : NoOverbooking g.toTables) {stmts : List Stmt}
    (h : Machine.Along (step ⟨verifPrixActivite, true, baisseActivite, majActivites⟩)
      (fun g stmt => OnSejour stmt ∧ CountsPlaces g stmt) g stmts) :
    ∀ g' ∈ Machine.states (step ⟨verifPrixActivite, true, baisseActivite, majActivites⟩) g stmts,
      NoOverbooking g'.toTables := by
  refine Machine.inv_along (P := fun g => NoOverbooking g.toTables) ?_ hg h
  rintro g stmt hg ⟨hon, hcount⟩
  exact step_inv _ hg fun g' hexec => exec_noOverbooking rfl hon hg hcount hexec

theorem noOverbooking_donnees : NoOverbooking donnees.toTables :=
  noOverbooking_of (by decide +kernel)

/-- A booking of `nbPlaces` places at Santalba, which has 150, for a day without bookings. -/
def santalba (id nbPlaces : Int) : Stmt :=
  .insertSejour ⟨some id, some "Santalba", some { year := 2005, month := 7, day := 1 },
    some nbPlaces⟩

theorem noOverbooking_run_santalba :
    NoOverbooking donnees.toTables ∧
      ∀ g ∈ Machine.states (step ⟨true, true, false, false⟩) donnees
        [santalba 10 100,
          .updateNbPlaces (fun s => if s.nbPlaces = 100 then some (some 120) else none)
            Plan.inOrder],
        NoOverbooking g.toTables := by
  refine ⟨noOverbooking_donnees, noOverbooking_run true false false noOverbooking_donnees
    ⟨⟨trivial, ?_⟩, ⟨trivial, ?_⟩, trivial⟩⟩
  · show ∀ nom ∈ some "Santalba", ∀ debut ∈ _, booked donnees.sejour nom debut ≤ 1
    decide +kernel
  · show Machine.Along replaced (fun t c => leftOut t.sejour c ≤ 1) _ _
    decide +kernel

/-- Two bookings of 100 places are accepted where there are 150. -/
theorem not_noOverbooking_of_two :
    ¬ ∀ (verifPrixActivite baisseActivite majActivites : Bool) (g : Database) (stmts : List Stmt),
      NoOverbooking g.toTables → (∀ stmt ∈ stmts, OnSejour stmt) →
      ∀ g' ∈ Machine.states (step ⟨verifPrixActivite, true, baisseActivite, majActivites⟩) g stmts,
        NoOverbooking g'.toTables := by
  intro h
  have hon : ∀ stmt ∈ [santalba 10 100, santalba 20 100], OnSejour stmt := by
    simp [santalba, OnSejour]
  have hno := h true false false donnees _ noOverbooking_donnees hon _
    (Machine.run_mem_states _ _ _)
  have hday := fun s hs => hno s hs { year := 2005, month := 7, day := 1 }
  revert hday
  decide +kernel

end Agence
