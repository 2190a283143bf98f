import Almanac.Number.Power

/-!
# Binary floating point

Numbers `m · 2 ^ e` with 53 bits for `m` and `e` from −1074 to 971, computed exactly:
every operation rounds the true result to the nearest such number, a tie to the even `m`.
-/

namespace Almanac

inductive Binary64 where
  /-- The number `mantissa · 2 ^ exponent`, with its sign. -/
  | finite (negative : Bool) (mantissa : Nat) (exponent : Int)
  | infinite (negative : Bool)
  | notANumber
  deriving DecidableEq, Repr

namespace Binary64

def leastExponent : Int := -1074

def greatestExponent : Int := 971

/-- A quotient, rounded to the nearest integer, a tie to the even one. -/
def roundDiv (num den : Nat) : Nat :=
  let q := num / den
  let twice := 2 * (num % den)
  if twice < den then q
  else if den < twice then q + 1
  else if q % 2 = 0 then q else q + 1

/-- The greatest `k` with `2 ^ k ≤ num / den`, for positive numbers. -/
def floorLog (num den : Nat) : Int :=
  let k : Int := (Nat.log2 num : Int) - Nat.log2 den
  let reached := if 0 ≤ k then den * 2 ^ k.toNat ≤ num else den ≤ num * 2 ^ (-k).toNat
  if reached then k else k - 1

/-- The floating point number nearest to `num / den`. -/
def ofRatio (negative : Bool) (num den : Nat) : Binary64 :=
  if num = 0 then finite negative 0 leastExponent
  else
    let exponent := max (floorLog num den - 52) leastExponent
    let mantissa :=
      if 0 ≤ exponent then roundDiv num (den * 2 ^ exponent.toNat)
      else roundDiv (num * 2 ^ (-exponent).toNat) den
    let (mantissa, exponent) :=
      if mantissa = 2 ^ 53 then (2 ^ 52, exponent + 1) else (mantissa, exponent)
    if greatestExponent < exponent then infinite negative
    else finite negative mantissa exponent

def ofNat (n : Nat) : Binary64 := ofRatio false n 1

/-- The floating point number nearest to `digits · 10 ^ power`. -/
def ofDecimal (negative : Bool) (digits : Nat) (power : Int) : Binary64 :=
  if 0 ≤ power then ofRatio negative (digits * 10 ^ power.toNat) 1
  else ofRatio negative digits (10 ^ (-power).toNat)

/-- The floating point number nearest to `digits · 10 ^ power`, whatever the power: beyond
`10 ^ 400` any number is infinite, and below `10 ^ -400` it is zero. -/
def ofScaled (negative : Bool) (digits : Nat) (power : Int) : Binary64 :=
  let size : Int := (Nat.toDigits 10 digits).length + power
  if digits = 0 ∨ size < -400 then finite negative 0 leastExponent
  else if 400 < size then infinite negative
  else ofDecimal negative digits power

/-- The powers of two of an exponent, above and below the line. -/
def scale (exponent : Int) : Nat × Nat :=
  if 0 ≤ exponent then (2 ^ exponent.toNat, 1) else (1, 2 ^ (-exponent).toNat)

/-- The product of two finite numbers; anything else counts as no number. -/
def mul : Binary64 → Binary64 → Binary64
  | finite s m e, finite s' m' e' =>
    let (up, down) := scale (e + e')
    ofRatio (s != s') (m * m' * up) down
  | _, _ => notANumber

/-- The quotient of two finite numbers; anything else counts as no number. -/
def div : Binary64 → Binary64 → Binary64
  | finite s m e, finite s' m' e' =>
    let (up, down) := scale (e - e')
    if m' = 0 then notANumber else ofRatio (s != s') (m * up) (m' * down)
  | _, _ => notANumber

def neg : Binary64 → Binary64
  | finite s m e => finite (!s) m e
  | infinite s => infinite (!s)
  | notANumber => notANumber

def isZero : Binary64 → Bool
  | finite _ m _ => m == 0
  | _ => false

def isInfinite : Binary64 → Bool
  | infinite _ => true
  | _ => false

/-- The reals that round to `m · 2 ^ e`, in units of `2 ^ (e - 2)`: from `low` to `high`, the ends
included where `m` is even. Below a power of two the numbers stand twice as close. -/
structure Neighbourhood where
  low : Nat
  middle : Nat
  high : Nat
  closed : Bool

def neighbourhood (mantissa : Nat) (exponent : Int) : Neighbourhood :=
  let lower := if mantissa = 2 ^ 52 ∧ leastExponent < exponent then 1 else 2
  ⟨4 * mantissa - lower, 4 * mantissa, 4 * mantissa + 2, mantissa % 2 == 0⟩

/-- Holds if `digits · 10 ^ power` lies in the neighbourhood, where `up / down` is the length
of its unit. -/
def Neighbourhood.holds (n : Neighbourhood) (up down : Nat) (digits : Nat) (power : Int) : Bool :=
  let point := digits * 10 ^ power.toNat * down
  let unit := up * 10 ^ (-power).toNat
  if n.closed then n.low * unit ≤ point && point ≤ n.high * unit
  else n.low * unit < point && point < n.high * unit

/-- Of the two points around the middle on the grid of `10 ^ power`, the one that is in the
neighbourhood, the nearer of two, the even of two equally near. -/
def Neighbourhood.onGrid? (n : Neighbourhood) (up down : Nat) (power : Int) : Option Nat :=
  let num := n.middle * up * 10 ^ (-power).toNat
  let den := down * 10 ^ power.toNat
  let below := num / den
  match n.holds up down below power, n.holds up down (below + 1) power with
  | true, true => some (roundDiv num den)
  | true, false => some below
  | false, true => some (below + 1)
  | false, false => none

/-- Tries ever finer grids, starting with that of `10 ^ power`. -/
def Neighbourhood.search (n : Neighbourhood) (up down : Nat) : Nat → Int → Nat × Int
  | 0, power => (n.middle * up / down, power)
  | fuel + 1, power =>
    match n.onGrid? up down power with
    | some digits => (digits, power)
    | none => n.search up down fuel (power - 1)

/-- Drops zeros at the end of a number. The fuel bounds their count. -/
def dropZeros : Nat → Nat → Int → Nat × Int
  | 0, digits, power => (digits, power)
  | fuel + 1, digits, power =>
    if digits % 10 = 0 ∧ digits ≠ 0 then dropZeros fuel (digits / 10) (power + 1)
    else (digits, power)

/-- The fewest digits, and the power of ten under their last, that read back as the number. -/
def shortest (mantissa : Nat) (exponent : Int) : Nat × Int :=
  if mantissa = 0 then (0, 0)
  else
    let n := neighbourhood mantissa exponent
    let (up, down) := scale (exponent - 2)
    let size : Int := (Nat.log2 mantissa : Int) + exponent
    let top : Int := size * 30103 / 100000 + 2
    let (digits, power) := n.search up down 25 top
    dropZeros 20 digits power

/-- Digits with a point so many places after the first, positionally, and zeros as needed. -/
def positional (digits : List Char) (power : Int) : List Char :=
  if 0 ≤ power then digits ++ List.replicate power.toNat '0'
  else
    let places := (-power).toNat
    let wide := List.replicate (places + 1 - digits.length) '0' ++ digits
    wide.take (wide.length - places) ++ '.' :: wide.drop (wide.length - places)

end Binary64

end Almanac
