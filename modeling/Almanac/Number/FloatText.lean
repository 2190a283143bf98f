import Almanac.Number.Binary64
import Almanac.Text.Numeral

/-!
# Floats in plain decimals

The fewest digits that read back, without an exponent, and reading decimals with a point.
-/

namespace Almanac.Binary64

/-- The number in decimals, however many zeros that takes. -/
def plainText : Binary64 → List Char
  | finite negative mantissa exponent =>
    let (digits, power) := shortest mantissa exponent
    let magnitude := positional (Text.decimal digits) power
    if negative then '-' :: magnitude else magnitude
  | infinite negative => if negative then "-inf".toList else "inf".toList
  | notANumber => "NaN".toList

/-- A natural number, none of whose digits is needed. -/
def digitsOrNone? (s : List Char) : Option Nat := Text.readDigits 0 s

/-- An exponent with at most one sign. -/
def exponent? : List Char → Option Int
  | '+' :: s => (Text.natural? s).map Int.ofNat
  | '-' :: s => (Text.natural? s).map fun n => -(n : Int)
  | s => (Text.natural? s).map Int.ofNat

/-- The number of the digits around a point, scaled by an exponent. One digit must be there. -/
def ofParts? (negative : Bool) (whole decimals : List Char) (power : Int) : Option Binary64 :=
  if whole.isEmpty && decimals.isEmpty then none
  else
    (digitsOrNone? (whole ++ decimals)).map fun digits =>
      ofScaled negative digits (power - decimals.length)

/-- The number of a text without its sign, that has a point and perhaps an exponent. -/
def ofUnsigned? (negative : Bool) (s : List Char) : Option Binary64 :=
  let whole := s.takeWhile (· != '.')
  match s.drop whole.length with
  | [] => none
  | _ :: rest =>
    let decimals := rest.takeWhile fun c => c != 'e' && c != 'E'
    match rest.drop decimals.length with
    | [] => ofParts? negative whole decimals 0
    | _ :: power => (exponent? power).bind (ofParts? negative whole decimals)

def ofPointed? : List Char → Option Binary64
  | '+' :: s => ofUnsigned? false s
  | '-' :: s => ofUnsigned? true s
  | s => ofUnsigned? false s

example : (ofPointed? "1.50".toList).map plainText = some "1.5".toList := by decide +kernel
example : (ofPointed? "1.e3".toList).map plainText = some "1000".toList := by decide +kernel
example : (ofPointed? ".".toList).isNone = true := by decide +kernel

end Almanac.Binary64
