import Almanac.Time.Calendar
import Almanac.Time.Span

/-!
# Instants

An instant is a point of Universal Time to the nanosecond, from the first day of year
−262143 to the last of year 262142. A minute may end in a leap second: it is written as
second 59 with a fraction of a whole second and more.

Sums and differences do not know where leap seconds were. Moving an instant inside a leap
second stays in it as long as the move allows, and else leaves it at the end it goes to.
-/

namespace Almanac

@[ext] structure Instant where
  /-- The day, counted from 1970-01-01. -/
  day : Int
  /-- The second of the day. -/
  second : Nat
  /-- The nanosecond of the second, 10⁹ and more in a leap second. -/
  nano : Nat
  day_ge : -96465292 ≤ day := by decide
  day_le : day ≤ 95026236 := by decide
  second_lt : second < 86400 := by decide
  nano_lt : nano < 2 * 10 ^ 9 := by decide
  leap_second : 10 ^ 9 ≤ nano → second % 60 = 59 := by decide
  deriving DecidableEq, Repr

namespace Instant

def firstDay : Int := -96465292

def lastDay : Int := 95026236

example : Date.ofDay firstDay = ⟨-262143, 1, 1⟩ := by decide
example : Date.ofDay lastDay = ⟨262142, 12, 31⟩ := by decide

/-- Midnight at the beginning of 1970. -/
def epoch : Instant where
  day := 0
  second := 0
  nano := 0

instance : Inhabited Instant := ⟨epoch⟩

/-- The instant of a day, a second of it and a nanosecond, if it is in range. -/
def of? (day : Int) (second nano : Nat) : Option Instant :=
  if h : firstDay ≤ day ∧ day ≤ lastDay ∧ second < 86400 ∧ nano < 2 * 10 ^ 9 ∧
      (10 ^ 9 ≤ nano → second % 60 = 59) then
    some ⟨day, second, nano, h.1, h.2.1, h.2.2.1, h.2.2.2.1, h.2.2.2.2⟩
  else none

/-- Earlier by day, then by second, then by nanosecond. -/
instance : LT Instant :=
  ⟨fun a b => a.day < b.day ∨
    (a.day = b.day ∧ (a.second < b.second ∨ (a.second = b.second ∧ a.nano < b.nano)))⟩

instance (a b : Instant) : Decidable (a < b) :=
  inferInstanceAs (Decidable (a.day < b.day ∨
    (a.day = b.day ∧ (a.second < b.second ∨ (a.second = b.second ∧ a.nano < b.nano)))))

def inLeapSecond (t : Instant) : Bool := 10 ^ 9 ≤ t.nano

def dayNanos : Int := 86400 * 10 ^ 9

/-- The nanoseconds from the beginning of 1970, leap seconds left out. Inside a leap second
it runs ahead into the second after it. -/
def sinceEpoch (t : Instant) : Int :=
  t.day * dayNanos + t.second * 10 ^ 9 + t.nano

/-- The instant so many nanoseconds after the beginning of 1970, if it is in range. -/
def ofEpoch? (n : Int) : Option Instant :=
  let inDay := (n % dayNanos).toNat
  of? (n / dayNanos) (inDay / 10 ^ 9) (inDay % 10 ^ 9)

/-- Moves an instant by nanoseconds, forwards or backwards, if the result is in range. -/
def move? (t : Instant) (shift : Int) : Option Instant :=
  if t.inLeapSecond then
    if 10 ^ 9 ≤ shift ∨ (0 < shift ∧ 2 * 10 ^ 9 ≤ t.nano + shift) then
      ofEpoch? (t.sinceEpoch - 10 ^ 9 + shift)
    else if shift ≤ -(10 ^ 9) then ofEpoch? (t.sinceEpoch + shift)
    else of? t.day t.second (t.nano + shift).toNat
  else ofEpoch? (t.sinceEpoch + shift)

/-- Moves an instant forwards by a span, if the result is in range. -/
def add? (t : Instant) (s : Span) : Option Instant :=
  t.move? s.nanos

/-- The nanoseconds from `earlier` to `later`, negative where they stand the other way round.
A leap second counts if it lies between the two seconds of the day. -/
def between (earlier later : Instant) : Int :=
  let leap : Int :=
    if earlier.second < later.second ∧ earlier.inLeapSecond then 10 ^ 9
    else if later.second < earlier.second ∧ later.inLeapSecond then -(10 ^ 9)
    else 0
  later.sinceEpoch - earlier.sinceEpoch + leap

theorem not_lt_self (t : Instant) : ¬ t < t := by
  rintro (h | ⟨-, h | ⟨-, h⟩⟩)
  · exact (Int.lt_irrefl _ h)
  · exact (Nat.lt_irrefl _ h)
  · exact (Nat.lt_irrefl _ h)

end Instant

end Almanac
