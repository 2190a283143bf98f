import Almanac.Attempt
import Almanac.Text.Blank
import Almanac.Text.Octets
import Almanac.Text.Quoted
import Almanac.Time.Span

/-!
# Spans in words

The notation `1day 2h 30m`: numbers with units, summed. `Span.words` writes it and
`Span.ofWords` reads it, along with fractions (`1.5h`), other names of the units, and
blanks between digits and around units. Positions in messages count octets.
-/

namespace Almanac

inductive SpanUnit where
  | nanosecond | microsecond | millisecond | second | minute | hour | day | week | month | year
  deriving DecidableEq, Repr

namespace SpanUnit

def names : SpanUnit → List String
  | nanosecond => ["nanos", "nsec", "ns"]
  | microsecond => ["usec", "us", "µs"]
  | millisecond => ["millis", "msec", "ms"]
  | second => ["seconds", "second", "secs", "sec", "s"]
  | minute => ["minutes", "minute", "min", "mins", "m"]
  | hour => ["hours", "hour", "hr", "hrs", "h"]
  | day => ["days", "day", "d"]
  | week => ["weeks", "week", "wk", "wks", "w"]
  | month => ["months", "month", "M"]
  | year => ["years", "year", "yr", "yrs", "y"]

def all : List SpanUnit :=
  [nanosecond, microsecond, millisecond, second, minute, hour, day, week, month, year]

def ofName? (name : String) : Option SpanUnit :=
  all.find? fun u => u.names.contains name

/-- Holds of the units below a second, whose numbers are counted in nanoseconds. -/
def isSubsecond : SpanUnit → Bool
  | nanosecond | microsecond | millisecond => true
  | _ => false

/-- The length of a unit: in nanoseconds below a second, else in seconds. -/
def length : SpanUnit → Nat
  | nanosecond => 1
  | microsecond => 1000
  | millisecond => 1000000
  | second => 1
  | minute => 60
  | hour => 3600
  | day => 86400
  | week => 604800
  | month => 2630016
  | year => 31557600

end SpanUnit

inductive SpanError where
  | empty
  | numberExpected (position : Nat)
  | invalidCharacter (position : Nat)
  | unitNeeded (number : Nat)
  | unknownUnit (name : String)
  | tooLarge
  deriving DecidableEq, Repr

def SpanError.message : SpanError → String
  | .empty => "value was empty"
  | .numberExpected position => s!"expected number at {position}"
  | .invalidCharacter position => s!"invalid character at {position}"
  | .unitNeeded number =>
    s!"time unit needed, for example {number}sec or {number}ms"
  | .unknownUnit name =>
    "unknown time unit " ++ Text.quoted name ++ ", supported units: ns, us/µs, ms, sec, min, " ++
      "hours, days, weeks, months, years (and few variations)"
  | .tooLarge =>
    "number is too large or cannot be represented without a lack of precision " ++
      "(values below 1ns are not supported)"

namespace SpanText

/-- Numbers that still fit in 64 bits. -/
def word? (n : Nat) : Except SpanError Nat :=
  if n < 2 ^ 64 then .ok n else .error .tooLarge

def isUnitLetter (c : Char) : Bool :=
  c.isAlpha || c == 'µ'

/-- Some text and the octets in front of it. -/
structure Cursor where
  offset : Nat
  rest : List Char

/-- A fraction in lowest position: digits after the point, and the power of ten under them. -/
structure Decimals where
  numerator : Nat
  denominator : Nat

/-- A number in front of its unit: what was read of it, and what follows. -/
structure Amount where
  whole : Nat
  decimals : Option Decimals
  after : Cursor

/-- Looks for the first digit of the next number, `start` being where the search began. -/
def firstDigit (start offset : Nat) : List Char → Except SpanError (Option (Nat × Cursor))
  | [] => .ok none
  | c :: rest =>
    match Text.digit? c with
    | some d => .ok (some (d, ⟨offset + 1, rest⟩))
    | none =>
      if Text.isBlank c then firstDigit start (offset + c.utf8Size) rest
      else .error (.numberExpected start)

/-- Reads the digits after a point. Blanks between them are skipped, and `last` is where the
last character read began to be passed. -/
def decimals (numerator denominator last offset : Nat) :
    List Char → Except SpanError (Decimals × Cursor)
  | [] =>
    if denominator = 1 then .error (.invalidCharacter last)
    else .ok (⟨numerator, denominator⟩, ⟨offset, []⟩)
  | c :: rest =>
    match Text.digit? c with
    | some d => do
      let denominator ← word? (denominator * 10)
      let numerator ← word? (numerator * 10 + d)
      decimals numerator denominator (offset + 1) (offset + 1) rest
    | none =>
      if Text.isBlank c then
        decimals numerator denominator (offset + c.utf8Size) (offset + c.utf8Size) rest
      else if isUnitLetter c then
        if denominator = 1 then .error (.invalidCharacter last)
        else .ok (⟨numerator, denominator⟩, ⟨offset, c :: rest⟩)
      else .error (.invalidCharacter last)

/-- Reads the rest of a number up to its unit, blanks between the digits skipped. -/
def amount (whole offset : Nat) : List Char → Except SpanError Amount
  | [] => .ok ⟨whole, none, offset, []⟩
  | c :: rest =>
    match Text.digit? c with
    | some d => do
      let whole ← word? (whole * 10 + d)
      amount whole (offset + 1) rest
    | none =>
      if Text.isBlank c then amount whole (offset + c.utf8Size) rest
      else if isUnitLetter c then .ok ⟨whole, none, offset, c :: rest⟩
      else if c = '.' then do
        let (found, after) ← decimals 0 1 offset (offset + 1) rest
        .ok ⟨whole, some found, after⟩
      else .error (.invalidCharacter offset)

/-- Reads the letters of a unit. A blank, a digit or the end ends it; the blank is passed. -/
def unitName (letters : List Char) (offset : Nat) : List Char → Except SpanError (String × Cursor)
  | [] => .ok (String.ofList letters.reverse, ⟨offset, []⟩)
  | c :: rest =>
    if c.isDigit then .ok (String.ofList letters.reverse, ⟨offset, c :: rest⟩)
    else if Text.isBlank c then
      .ok (String.ofList letters.reverse, ⟨offset + c.utf8Size, rest⟩)
    else if isUnitLetter c then unitName (c :: letters) (offset + c.utf8Size) rest
    else .error (.invalidCharacter offset)

/-- Adds seconds and nanoseconds to a span. Seconds that do not fit are refused, unless it is
a fraction of exactly one second that carries over the limit: there the sum breaks off. -/
def addParts (total : Span) (seconds nanos : Nat) : Attempt SpanError Span := do
  let nanos ← Attempt.ofExcept (word? (total.fraction + nanos))
  let carried := if 10 ^ 9 < nanos then nanos / 10 ^ 9 else 0
  let nanos := if 10 ^ 9 < nanos then nanos % 10 ^ 9 else nanos
  let seconds ← Attempt.ofExcept (word? (seconds + carried))
  let seconds ← Attempt.ofExcept (word? (total.seconds + seconds))
  match Span.ofParts? seconds nanos with
  | some sum => .ok sum
  | none => Attempt.breakOff

def addWhole (total : Span) (unit : SpanUnit) (number : Nat) : Attempt SpanError Span := do
  let size ← Attempt.ofExcept (word? (number * unit.length))
  if unit.isSubsecond then addParts total 0 size else addParts total size 0

/-- The size of a fraction of a unit, if it is whole and all numbers on the way fit. -/
def share (decimals : Decimals) (length : Nat) : Except SpanError Nat := do
  let scaled ← word? (decimals.numerator * length)
  if scaled % decimals.denominator = 0 then .ok (scaled / decimals.denominator)
  else .error .tooLarge

/-- Adds a fraction of a unit to a span. Up to minutes it has to come out in nanoseconds, from
hours on in seconds; a nanosecond has no fractions. -/
def addDecimals (total : Span) (unit : SpanUnit) (decimals : Decimals) : Attempt SpanError Span :=
  match unit with
  | .nanosecond => Attempt.refuse .tooLarge
  | .microsecond | .millisecond => do
    let nanos ← Attempt.ofExcept (share decimals unit.length)
    addParts total 0 nanos
  | .second | .minute => do
    let nanos ← Attempt.ofExcept (share decimals (unit.length * 10 ^ 9))
    addParts total 0 nanos
  | .hour | .day | .week | .month | .year => do
    let seconds ← Attempt.ofExcept (share decimals unit.length)
    addParts total seconds 0

def addTerm (total : Span) (found : Amount) (name : String) : Attempt SpanError Span :=
  if name.isEmpty then Attempt.refuse (.unitNeeded found.whole)
  else
    match SpanUnit.ofName? name with
    | none => Attempt.refuse (.unknownUnit name)
    | some unit => do
      let total ← addWhole total unit found.whole
      match found.decimals with
      | none => pure total
      | some decimals => addDecimals total unit decimals

/-- Sums the terms from a number on whose first digit has been read. The fuel bounds the number
of terms. -/
def terms : Nat → Span → Nat → Cursor → Attempt SpanError Span
  | 0, total, _, _ => .ok total
  | fuel + 1, total, digit, cursor => do
    let found ← Attempt.ofExcept (amount digit cursor.offset cursor.rest)
    let (name, after) ← Attempt.ofExcept (unitName [] found.after.offset found.after.rest)
    let total ← addTerm total found name
    match ← Attempt.ofExcept (firstDigit after.offset after.offset after.rest) with
    | none => pure total
    | some (digit, cursor) => terms fuel total digit cursor

end SpanText

namespace Span

def ofWords (s : List Char) : Attempt SpanError Span := do
  match ← Attempt.ofExcept (SpanText.firstDigit 0 0 s) with
  | none => Attempt.refuse .empty
  | some (digit, cursor) => SpanText.terms s.length zero digit cursor

/-- One term of a span in words, or none for a count of zero. -/
def wordsTerm (count : Nat) (one many : String) : List String :=
  if count = 0 then [] else [toString count ++ (if count = 1 then one else many)]

/-- The terms of a span in words, the largest unit first. -/
def wordsTerms (s : Span) : List String :=
  let years := s.seconds / 31557600
  let inYear := s.seconds % 31557600
  let months := inYear / 2630016
  let inMonth := inYear % 2630016
  let days := inMonth / 86400
  let inDay := inMonth % 86400
  wordsTerm years "year" "years" ++ wordsTerm months "month" "months" ++
    wordsTerm days "day" "days" ++ wordsTerm (inDay / 3600) "h" "h" ++
    wordsTerm (inDay % 3600 / 60) "m" "m" ++ wordsTerm (inDay % 60) "s" "s" ++
    wordsTerm (s.fraction / 1000000) "ms" "ms" ++
    wordsTerm (s.fraction / 1000 % 1000) "us" "us" ++ wordsTerm (s.fraction % 1000) "ns" "ns"

def words (s : Span) : String :=
  if s.isZero then "0s" else " ".intercalate s.wordsTerms

end Span

example : Span.minute.words = "1m" := by decide +kernel
example : (Span.ofWords "1.5h 30s".toList).toOption.map Span.words = some "1h 30m 30s" := by
  decide +kernel
example : (Span.ofWords "0.5ns".toList).toOption = none := by decide +kernel

end Almanac
