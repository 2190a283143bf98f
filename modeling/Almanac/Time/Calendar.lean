/-!
# The Gregorian calendar

Days are numbered from 1970-01-01, and the calendar reaches without a gap into the past
and the future. `dayNumber` numbers a date and `Date.ofDay` finds it again.
-/

namespace Almanac

/-- A calendar date. Year 0 is the year before year 1. -/
structure Date where
  year : Int
  month : Nat
  day : Nat
  deriving DecidableEq, Repr

namespace Date

/-- Every fourth year, of the centuries every fourth. -/
def isLeapYear (year : Int) : Bool :=
  year % 4 == 0 && (year % 100 != 0 || year % 400 == 0)

def monthLength (year : Int) (month : Nat) : Nat :=
  match month with
  | 2 => if isLeapYear year then 29 else 28
  | 4 | 6 | 9 | 11 => 30
  | _ => 31

/-- Holds of the dates that the calendar has. -/
def isValid (d : Date) : Bool :=
  1 ≤ d.month && d.month ≤ 12 && 1 ≤ d.day && d.day ≤ monthLength d.year d.month

/-- The days from 1 March of year 0 to 1 March of `year`. -/
def daysBeforeMarch (year : Int) : Int :=
  365 * year + year / 4 - year / 100 + year / 400

/-- The number of a date. Years are counted from March, so that the leap day ends them. -/
def dayNumber (d : Date) : Int :=
  let marchYear := if d.month ≤ 2 then d.year - 1 else d.year
  let marchMonth : Nat := (d.month + 9) % 12
  daysBeforeMarch marchYear + ((153 * marchMonth + 2) / 5 + d.day : Nat) - 719469

/-- The date of a number. -/
def ofDay (n : Int) : Date :=
  let fromMarch := n + 719468
  let era := fromMarch / 146097
  let inEra := (fromMarch % 146097).toNat
  let yearInEra := (inEra - inEra / 1460 + inEra / 36524 - inEra / 146096) / 365
  let inYear := inEra - (365 * yearInEra + yearInEra / 4 - yearInEra / 100)
  let marchMonth := (5 * inYear + 2) / 153
  let day := inYear - (153 * marchMonth + 2) / 5 + 1
  let month := if marchMonth < 10 then marchMonth + 3 else marchMonth - 9
  let year := era * 400 + yearInEra + (if month ≤ 2 then 1 else 0)
  ⟨year, month, day⟩

end Date

example : Date.dayNumber ⟨1970, 1, 1⟩ = 0 := by decide
example : Date.ofDay 0 = ⟨1970, 1, 1⟩ := by decide
example : Date.ofDay (Date.dayNumber ⟨2000, 2, 29⟩) = ⟨2000, 2, 29⟩ := by decide
example : Date.ofDay (Date.dayNumber ⟨-262143, 1, 1⟩) = ⟨-262143, 1, 1⟩ := by decide
example : Date.ofDay (Date.dayNumber ⟨262142, 12, 31⟩) = ⟨262142, 12, 31⟩ := by decide

end Almanac
