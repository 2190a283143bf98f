import Almanac.Text.Numeral
import Almanac.Time.Calendar
import Almanac.Toml.Value

/-!
# TOML literals

The values that are written without quotes and brackets: truth values, integers in four
bases, floats, dates and times. `Toml.ofLiteral?` reads one off the characters that a
literal can consist of.
-/

namespace Almanac.Toml

/-- Drops the underscores between digits. Anything but a digit is refused in front of and behind
an underscore. -/
def ungrouped? (isDigit : Char → Bool) : List Char → Option (List Char)
  | [] => none
  | [c] => if isDigit c then some [c] else none
  | c :: '_' :: rest => if isDigit c then (ungrouped? isDigit rest).map (c :: ·) else none
  | c :: rest => if isDigit c then (ungrouped? isDigit rest).map (c :: ·) else none

def digitIn? (base : Nat) (c : Char) : Option Nat :=
  (Text.hexDigit? c).filter (· < base)

/-- The number of digits with underscores between them. -/
def grouped? (base : Nat) (s : List Char) : Option Nat := do
  let digits ← ungrouped? (fun c => (digitIn? base c).isSome) s
  let values ← digits.mapM (digitIn? base)
  some (values.foldl (fun n d => base * n + d) 0)

/-- Splits a sign off, and tells whether it is a minus. -/
def signed : List Char → Bool × List Char
  | '+' :: s => (false, s)
  | '-' :: s => (true, s)
  | s => (false, s)

/-- Holds of digits that do not begin with a zero, and of the zero. -/
def isLeading : List Char → Bool
  | '0' :: _ :: _ => false
  | _ => true

/-- An integer that fits in 64 bits with a sign. -/
def bounded? (n : Int) : Option Toml :=
  if -2 ^ 63 ≤ n ∧ n < 2 ^ 63 then some (integer n) else none

/-- An integer: decimal with a sign, or without one in base 16, 8 or 2. -/
def integer? : List Char → Option Toml
  | '0' :: 'x' :: s => (grouped? 16 s).bind fun n => bounded? n
  | '0' :: 'o' :: s => (grouped? 8 s).bind fun n => bounded? n
  | '0' :: 'b' :: s => (grouped? 2 s).bind fun n => bounded? n
  | s =>
    let (negative, s) := signed s
    if isLeading s then
      (grouped? 10 s).bind fun n => bounded? (if negative then -(n : Int) else n)
    else none

/-- A text in front of the first character that fits, and what follows that character. -/
def splitAt? (fits : Char → Bool) (s : List Char) : Option (List Char × List Char) :=
  match s.dropWhile fun c => !fits c with
  | _ :: rest => some (s.takeWhile (fun c => !fits c), rest)
  | [] => none

/-- The power of ten after the letter of an exponent. -/
def power? (s : List Char) : Option Int :=
  let (negative, s) := signed s
  (grouped? 10 s).map fun n => if negative then -(n : Int) else n

/-- A float with a point, an exponent or both. Infinity is refused where it comes of a positive
number that is too great. -/
def decimalFloat? (s : List Char) : Option Toml := do
  let (negative, s) := signed s
  let (significand, power) ← match splitAt? (fun c => c == 'e' || c == 'E') s with
    | some (significand, power) => (power? power).map fun p => (significand, some p)
    | none => some (s, none)
  let (whole, decimals) ← match splitAt? (· == '.') significand with
    | some (whole, decimals) => (ungrouped? Char.isDigit decimals).map fun d => (whole, some d)
    | none => some (significand, none)
  if isLeading whole && (power.isSome || decimals.isSome) then do
    let whole ← ungrouped? Char.isDigit whole
    let decimals := decimals.getD []
    let digits ← Text.natural? (whole ++ decimals)
    let x := Binary64.ofScaled negative digits (power.getD 0 - decimals.length)
    if x = .infinite false then none else some (float x)
  else none

/-- A float, the two infinities and the one that is no number included. -/
def float? (s : List Char) : Option Toml :=
  match signed s with
  | (negative, ['i', 'n', 'f']) => some (float (.infinite negative))
  | (_, ['n', 'a', 'n']) => some (float .notANumber)
  | _ => decimalFloat? s

/-- The number of exactly so many decimal digits, and the rest. -/
def fixed? (width : Nat) (s : List Char) : Option (Nat × List Char) :=
  if (s.take width).length = width then
    (Text.natural? (s.take width)).map fun n => (n, s.drop width)
  else none

/-- Two digits up to a greatest number, and the rest. -/
def pair? (greatest : Nat) (s : List Char) : Option (List Char) :=
  (fixed? 2 s).bind fun (n, rest) => if n ≤ greatest then some rest else none

def past? (wanted : Char) : List Char → Option (List Char)
  | c :: rest => if c = wanted then some rest else none
  | [] => none

/-- The rest after a date that the calendar has. -/
def pastDate? (s : List Char) : Option (List Char) := do
  let (year, s) ← fixed? 4 s
  let (month, s) ← past? '-' s >>= fixed? 2
  let (day, s) ← past? '-' s >>= fixed? 2
  if (Date.mk year month day).isValid then some s else none

/-- The rest after a fraction of a second, if there is one. -/
def pastFraction? : List Char → Option (List Char)
  | '.' :: s =>
    match s.takeWhile Char.isDigit with
    | [] => none
    | digits => some (s.drop digits.length)
  | s => some s

/-- The rest after a time of day. Its last minute may have a leap second. -/
def pastTime? (s : List Char) : Option (List Char) := do
  let s ← pair? 23 s >>= past? ':' >>= pair? 59 >>= past? ':' >>= pair? 60
  pastFraction? s

/-- Holds of the offsets from universal time, and of none. -/
def isOffset : List Char → Bool
  | [] => true
  | ['Z'] => true
  | ['z'] => true
  | '+' :: s => (pair? 23 s >>= past? ':' >>= pair? 59) == some []
  | '-' :: s => (pair? 23 s >>= past? ':' >>= pair? 59) == some []
  | _ => false

/-- Holds of the characters between a date and a time. -/
def isTimeMark (c : Char) : Bool := c == 'T' || c == 't' || c == ' '

/-- Holds of what may follow a date: nothing, or a time with or without an offset. -/
def isAfterDate : List Char → Bool
  | [] => true
  | c :: s => isTimeMark c && ((pastTime? s).map isOffset).getD false

/-- Holds of dates, of times, and of both together. -/
def isMoment (s : List Char) : Bool :=
  ((pastDate? s).map isAfterDate).getD false || pastTime? s == some []

def ofLiteral? (s : List Char) : Option Toml :=
  if s = "true".toList then some (boolean true)
  else if s = "false".toList then some (boolean false)
  else if isMoment s then some (moment (String.ofList s))
  else
    match float? s with
    | some x => some x
    | none => integer? s

def isLiteralChar (c : Char) : Bool :=
  c.isAlphanum || c == '+' || c == '-' || c == '_' || c == '.' || c == ':'

/-- The literal that a text begins with, and the rest. A date goes on over one blank if a digit
follows. -/
def literalSpan (s : List Char) : List Char × List Char :=
  let span := s.takeWhile isLiteralChar
  let rest := s.drop span.length
  match rest with
  | ' ' :: c :: _ =>
    if c.isDigit && pastDate? span == some [] then
      let time := rest.tail.takeWhile isLiteralChar
      (span ++ ' ' :: time, rest.tail.drop time.length)
    else (span, rest)
  | _ => (span, rest)

example : grouped? 10 "1_000".toList = some 1000 := by decide +kernel
example : grouped? 10 "1__0".toList = none := by decide +kernel
example : (integer? "010".toList).isNone = true := by decide +kernel
example : isMoment "1979-05-27 07:32:00Z".toList = true := by decide +kernel

end Almanac.Toml
