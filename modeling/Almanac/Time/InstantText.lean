import Almanac.Text.Numeral
import Almanac.Time.Instant

/-!
# Instants in print

`Instant.iso` is the form of data, `2024-01-01T00:00:00Z`, and `Instant.spoken` that of
messages, `2024-01-01 00:00:00 UTC`. Both show the fraction of a second in the fewest of
0, 3, 6 and 9 digits that are exact, and a leap second as second 60.
-/

namespace Almanac

/-- A year: four digits, and a sign with at least four digits outside 0 to 9999. -/
def yearText (year : Int) : List Char :=
  let digits := Text.decimal year.natAbs
  let wide := List.replicate (4 - digits.length) '0' ++ digits
  if 0 ≤ year ∧ year ≤ 9999 then wide
  else (if year < 0 then '-' else '+') :: wide

def Date.text (d : Date) : List Char :=
  yearText d.year ++ '-' :: Text.padded 2 d.month ++ '-' :: Text.padded 2 d.day

/-- The fraction of a second in the fewest of 0, 3, 6 and 9 digits that are exact. -/
def fractionText (nano : Nat) : List Char :=
  if nano = 0 then []
  else if nano % 10 ^ 6 = 0 then '.' :: Text.padded 3 (nano / 10 ^ 6)
  else if nano % 10 ^ 3 = 0 then '.' :: Text.padded 6 (nano / 10 ^ 3)
  else '.' :: Text.padded 9 nano

namespace Instant

def date (t : Instant) : Date := Date.ofDay t.day

def clockText (t : Instant) : List Char :=
  let leap := if t.inLeapSecond then 1 else 0
  Text.padded 2 (t.second / 3600) ++ ':' :: Text.padded 2 (t.second / 60 % 60) ++
    ':' :: Text.padded 2 (t.second % 60 + leap) ++ fractionText (t.nano - leap * 10 ^ 9)

def isoText (t : Instant) : List Char :=
  t.date.text ++ 'T' :: t.clockText ++ ['Z']

/-- The form of data. -/
def iso (t : Instant) : String :=
  String.ofList t.isoText

/-- The form of messages. -/
def spoken (t : Instant) : String :=
  String.ofList (t.date.text ++ ' ' :: t.clockText ++ [' ', 'U', 'T', 'C'])

end Instant

example : Instant.epoch.iso = "1970-01-01T00:00:00Z" := by decide +kernel
example : fractionText 1500000 = ".001500".toList := by decide +kernel
example : yearText (-1) = "-0001".toList := by decide +kernel

end Almanac
