/-
  Bookings that fit, and that `verif_capacite` refuses.

  The trigger refuses a row when the places that it counts and those of the row reach the capacity
  of the station: the last place cannot be booked, unless there are bookings that it does not
  count.
-/
import Cnam.Agence.Overbooking

namespace Agence

open Oracle

/-- A booking to be checked: a new row, or a row whose places are updated. -/
inductive Booking where
  | insert (new : NewSejour)
  | update (c : Change Sejour (Option Int))

namespace Booking

/-- The booking is for `n` places at the station `nom` for the day `debut`. -/
def For (t : Tables) (nom : String) (debut : Date) (n : Int) : Booking → Prop
  | insert new => new.station = some nom ∧ new.debut = some debut ∧ new.nbPlaces = some n
  | update c => t.sejour[c.pos]? = some c.old ∧ c.old.station = nom ∧ c.old.debut = debut ∧
      c.new = some n

/-- What the trigger says to a booking. -/
def verifCapacite (t : Tables) : Booking → Except OraError Unit
  | insert new => Agence.verifCapacite t none new
  | update c => Agence.verifCapacite t (some c.old) (.ofChange c)

/-- The bookings beside it. -/
def others (t : Tables) : Booking → List Sejour
  | insert _ => t.sejour
  | update c => t.sejour.eraseIdx c.pos

/-- Those that the trigger counts: none beside a new row, and beside an updated one those with
    another number of places than it had. -/
def counted (t : Tables) : Booking → List Sejour
  | insert _ => []
  | update c => (t.sejour.eraseIdx c.pos).filter fun s => !decide (s.nbPlaces = c.old.nbPlaces)

end Booking

section
variable {g : Database} {b : Booking} {s : Station} {debut : Date} {n : Int}

/-- **When the trigger lets a booking through.** -/
theorem verifCapacite_booking (hs : s ∈ g.station)
    (hb : b.For g.toTables s.nomStation debut n) :
    b.verifCapacite g.toTables = .ok () ↔
      fits 6 (booked (b.counted g.toTables) s.nomStation debut) ∧
        booked (b.counted g.toTables) s.nomStation debut + n < s.capacite := by
  cases b with
  | insert new =>
    rcases hb with ⟨hnom, -, hplaces⟩
    have h := verifCapacite_ok_iff g.nomStation_nodup hs none hnom hplaces
    rwa [totalRes_insert] at h
  | update c =>
    rcases hb with ⟨hold, hnom, hdebut, hplaces⟩
    have hstation : (NewSejour.ofChange c).station = some s.nomStation := congrArg some hnom
    have h := verifCapacite_ok_iff g.nomStation_nodup hs (some c.old) hstation hplaces
    rwa [totalRes_others hold, hnom, hdebut] at h

end

/-- **No booking that fits is refused** exactly when it does not fit, or when the places that are
    counted, a number of six digits, and its own leave a place of the station free. -/
theorem verifCapacite_admits_iff {g : Database} {b : Booking} {s : Station} {debut : Date}
    {n : Int} (hs : s ∈ g.station) (hb : b.For g.toTables s.nomStation debut n) :
    (booked (b.others g.toTables) s.nomStation debut + n ≤ s.capacite →
      b.verifCapacite g.toTables = .ok ()) ↔
    (s.capacite < booked (b.others g.toTables) s.nomStation debut + n ∨
      fits 6 (booked (b.counted g.toTables) s.nomStation debut) ∧
        booked (b.counted g.toTables) s.nomStation debut + n < s.capacite) := by
  rw [verifCapacite_booking hs hb, imp_iff_not_or, not_le]

/-- A booking of `nbPlaces` places at Santalba, which has 150, for a day without bookings. -/
def bookSantalba (nbPlaces : Int) : Booking :=
  .insert ⟨some 10, some "Santalba", some { year := 2005, month := 7, day := 1 }, some nbPlaces⟩

theorem bookSantalba_for (nbPlaces : Int) :
    (bookSantalba nbPlaces).For donnees.toTables "Santalba" { year := 2005, month := 7, day := 1 }
      nbPlaces := ⟨rfl, rfl, rfl⟩

theorem mem_santalba :
    (⟨"Santalba", 150, "Martinique", some "Antilles", some 200000, some 0⟩ : Station) ∈
      donnees.station := by
  decide +kernel

/-- Three bookings at Venusa for one day: two of three places and one of six. -/
def threeBookings : Database :=
  step ⟨false, true, false, false⟩ donnees
    (.insertSejour ⟨some 10, some "Venusa", some { year := 2003, month := 8, day := 3 }, some 3⟩)

/-- The first of them is to have 340 places. -/
def enlargeFirst : Booking :=
  .update ⟨4, ⟨30, "Venusa", { year := 2003, month := 8, day := 3 }, 3⟩, some 340⟩

/-- The update is not refused: beside the 6 places that are counted and the 3 that are not, Venusa
    has room for 340. -/
theorem verifCapacite_admits_venusa :
    booked (enlargeFirst.others threeBookings.toTables) "Venusa"
      { year := 2003, month := 8, day := 3 } = 9 ∧
    booked (enlargeFirst.counted threeBookings.toTables) "Venusa"
      { year := 2003, month := 8, day := 3 } = 6 ∧
    enlargeFirst.verifCapacite threeBookings.toTables = .ok () := by
  have hs : (⟨"Venusa", 350, "Guadeloupe", some "Antilles", some 120000, some 0⟩ : Station) ∈
      threeBookings.station := by
    decide +kernel
  have hfor : enlargeFirst.For threeBookings.toTables "Venusa"
      { year := 2003, month := 8, day := 3 } 340 :=
    ⟨by decide +kernel, rfl, rfl, rfl⟩
  refine ⟨by decide +kernel, by decide +kernel, ?_⟩
  refine (verifCapacite_admits_iff hs hfor).2 (Or.inr ?_) ?_
  · decide +kernel
  · decide +kernel

/-- A booking of all the 150 places of Santalba is refused. -/
theorem verifCapacite_refuses_full :
    NoOverbooking donnees.toTables ∧
    ∃ s ∈ donnees.station, ∃ (b : Booking) (debut : Date) (n : Int),
      b.For donnees.toTables s.nomStation debut n ∧
      booked (b.others donnees.toTables) s.nomStation debut + n ≤ s.capacite ∧
      b.verifCapacite donnees.toTables =
        .error (.raised (-20001) "Il ne reste pas assez des places") := by
  refine ⟨noOverbooking_donnees, _, mem_santalba, bookSantalba 150, _, 150, bookSantalba_for 150,
    ?_, ?_⟩
  · decide +kernel
  · decide +kernel

end Agence
