import Almanac.Text.Numeral

/-!
# Spans of time

A span is a whole number of nanoseconds, from zero up to the last one whose seconds
fit in 64 bits.
-/

namespace Almanac

/-- A span of time in nanoseconds. -/
@[ext] structure Span where
  nanos : Nat
  nanos_lt : nanos < 2 ^ 64 * 10 ^ 9 := by decide
  deriving DecidableEq, Repr

namespace Span

def zero : Span := ⟨0, by decide⟩

instance : Inhabited Span := ⟨zero⟩

instance : LE Span := ⟨fun a b => a.nanos ≤ b.nanos⟩

instance : LT Span := ⟨fun a b => a.nanos < b.nanos⟩

instance (a b : Span) : Decidable (a ≤ b) := inferInstanceAs (Decidable (a.nanos ≤ b.nanos))

instance (a b : Span) : Decidable (a < b) := inferInstanceAs (Decidable (a.nanos < b.nanos))

/-- The span of so many nanoseconds, if their seconds fit in 64 bits. -/
def ofNanos? (n : Nat) : Option Span :=
  if h : n < 2 ^ 64 * 10 ^ 9 then some ⟨n, h⟩ else none

/-- The span of so many seconds and nanoseconds, if the seconds of the sum fit in 64 bits. -/
def ofParts? (seconds nanos : Nat) : Option Span :=
  ofNanos? (seconds * 10 ^ 9 + nanos)

def seconds (s : Span) : Nat := s.nanos / 10 ^ 9

/-- What is left of a span after its whole seconds, in nanoseconds. -/
def fraction (s : Span) : Nat := s.nanos % 10 ^ 9

def isZero (s : Span) : Bool := s.nanos == 0

/-- One minute, the least time between two fires of a recurring entry. -/
def minute : Span := ⟨60 * 10 ^ 9, by decide⟩

/-- The most nanoseconds that an instant can be moved by: 2⁶³ − 1 milliseconds. -/
def displacementLimit : Nat := (2 ^ 63 - 1) * 10 ^ 6

/-- Holds of the spans that an instant can be moved by. -/
def isDisplacement (s : Span) : Bool := s.nanos ≤ displacementLimit

/-- The milliseconds of a span, a started one counted whole. -/
def ceilMillis (s : Span) : Nat := (s.nanos + (10 ^ 6 - 1)) / 10 ^ 6

theorem seconds_lt (s : Span) : s.seconds < 2 ^ 64 :=
  Nat.div_lt_of_lt_mul (by rw [Nat.mul_comm]; exact s.nanos_lt)

theorem fraction_lt (s : Span) : s.fraction < 10 ^ 9 :=
  Nat.mod_lt _ (by decide)

/-- A number of `width` fractional digits after a point, or nothing for zero. -/
def pointed (width n : Nat) : List Char :=
  let digits := (Text.padded width n).reverse.dropWhile (· == '0')
  if digits.isEmpty then [] else '.' :: digits.reverse

/-- The short form of a span, in its largest unit out of s, ms, µs and ns, as a decimal number
without needless zeros. -/
def brief (s : Span) : String :=
  let inUnit (unit width : Nat) (name : String) : String :=
    String.ofList (Text.decimal (s.nanos / unit) ++ pointed width (s.nanos % unit)) ++ name
  if 10 ^ 9 ≤ s.nanos then inUnit (10 ^ 9) 9 "s"
  else if 10 ^ 6 ≤ s.nanos then inUnit (10 ^ 6) 6 "ms"
  else if 10 ^ 3 ≤ s.nanos then inUnit (10 ^ 3) 3 "µs"
  else inUnit 1 0 "ns"

end Span

end Almanac
