import Almanac.Text.Blank
import Almanac.Text.Octets
import Almanac.Text.Numeral
import Almanac.Time.Instant

/-!
# Reading instants

`Instant.ofIso` reads the strict form: fixed columns, a time after `T`, `t` or one blank,
and an offset `Z`, `z` or `±hh:mm`. `Instant.ofLooseIso` also takes short fields, signed
years of any length, blanks in front of the fields, `UTC`, and an offset without a colon.
-/

namespace Almanac

inductive InstantError where
  /-- A character that does not belong where it stands. -/
  | invalid
  /-- The text ends too early. -/
  | tooShort
  /-- A field is beyond its limits, or the calendar has no such day. -/
  | outOfRange
  /-- Text is left over. -/
  | tooLong
  /-- The offset leads out of the range of instants. -/
  | impossible
  deriving DecidableEq, Repr

def InstantError.message : InstantError → String
  | .invalid => "input contains invalid characters"
  | .tooShort => "premature end of input"
  | .outOfRange => "input is out of range"
  | .tooLong => "trailing input"
  | .impossible => "no possible date and time matching input"

namespace IsoReader

/-- Fails with `fault` where a condition does not hold. -/
def require (condition : Bool) (fault : InstantError) : Except InstantError Unit :=
  if condition then .ok () else .error fault

/-- Exactly `count` digits, onto `value`. -/
def columns : Nat → Nat → List Char → Except InstantError (Nat × List Char)
  | 0, value, s => .ok (value, s)
  | _ + 1, _, [] => .error .invalid
  | count + 1, value, c :: s =>
    match Text.digit? c with
    | some d => columns count (10 * value + d) s
    | none => .error .invalid

def column (wanted : Char) : List Char → Except InstantError (List Char)
  | c :: s => if c = wanted then .ok s else .error .invalid
  | [] => .error .invalid

/-- One given character; the end in its place is told apart. -/
def separator (wanted : Char) : List Char → Except InstantError (List Char)
  | c :: s => if c = wanted then .ok s else .error .invalid
  | [] => .error .tooShort

/-- The digits that follow a number, at most `width`, as long as the number fits in 63 bits. -/
def moreDigits : Nat → Nat → List Char → Except InstantError (Nat × List Char)
  | 0, value, s => .ok (value, s)
  | _ + 1, value, [] => .ok (value, [])
  | width + 1, value, c :: s =>
    match Text.digit? c with
    | none => .ok (value, c :: s)
    | some d =>
      if 10 * value + d < 2 ^ 63 then moreDigits width (10 * value + d) s
      else .error .outOfRange

/-- A number of one digit at least and `width` at most. -/
def number (width : Nat) : List Char → Except InstantError (Nat × List Char)
  | [] => .error .tooShort
  | c :: s =>
    match Text.digit? c with
    | none => .error .invalid
    | some d => moreDigits (width - 1) d s

/-- The nanoseconds after a point. Nine digits count, further ones are passed over. -/
def nanoseconds (s : List Char) : Except InstantError (Nat × List Char) := do
  let (value, rest) ← number 9 s
  let width := s.length - rest.length
  .ok (value * 10 ^ (9 - width), rest.dropWhile Char.isDigit)

def fraction : List Char → Except InstantError (Nat × List Char)
  | '.' :: s => nanoseconds s
  | s => .ok (0, s)

/-- Two digits of an offset, the first of them below `tens`. -/
def offsetField (tens : Nat) (s : List Char) : Except InstantError (Nat × List Char) := do
  require (2 ≤ Text.octetCount s) .tooShort
  let (value, rest) ← columns 2 0 s
  require (value < 10 * tens) .outOfRange
  .ok (value, rest)

/-- An offset from Universal Time in minutes; `between` reads what separates its fields. -/
def offset (between : List Char → Except InstantError (List Char)) :
    List Char → Except InstantError (Int × List Char)
  | [] => .error .tooShort
  | c :: s =>
    if c = 'Z' ∨ c = 'z' then .ok (0, s)
    else if c = '+' ∨ c = '-' ∨ c = '−' then do
      let (hours, s) ← offsetField 10 s
      let s ← between s
      let (minutes, s) ← offsetField 6 s
      let size : Int := hours * 60 + minutes
      .ok (if c = '+' then size else -size, s)
    else .error .invalid

/-- The second of the day and the nanosecond, second 60 being the leap second after 59. -/
def timeOfDay (hour minute second nano : Nat) : Except InstantError (Nat × Nat) := do
  require (hour ≤ 23 && minute ≤ 59 && second ≤ 60) .outOfRange
  let minutes := (hour * 60 + minute) * 60
  .ok (if second = 60 then (minutes + 59, 10 ^ 9 + nano) else (minutes + second, nano))

/-- The instant of a local date and time at an offset in minutes. -/
def assemble (date : Date) (time : Nat × Nat) (offset : Int) : Except InstantError Instant := do
  require (date.isValid && -262143 ≤ date.year && date.year ≤ 262142) .outOfRange
  require (offset.natAbs < 1440) .outOfRange
  let seconds := date.dayNumber * 86400 + time.1 - offset * 60
  match Instant.of? (seconds / 86400) (seconds % 86400).toNat time.2 with
  | some t => .ok t
  | none => .error .impossible

/-- A signed number of any length, or a plain one of four digits at most. -/
def looseYear : List Char → Except InstantError (Int × List Char)
  | '-' :: s => do
    let (value, rest) ← number s.length s
    .ok (-value, rest)
  | '+' :: s => do
    let (value, rest) ← number s.length s
    .ok (value, rest)
  | s => do
    let (value, rest) ← number 4 s
    .ok (value, rest)

/-- A field of one or two digits between limits, blanks in front of it. -/
def looseField (least most : Nat) (s : List Char) : Except InstantError (Nat × List Char) := do
  let (value, rest) ← number 2 (Text.trimStart s)
  require (least ≤ value && value ≤ most) .outOfRange
  .ok (value, rest)

def looseSeparator (wanted : Char) (s : List Char) : Except InstantError (List Char) :=
  separator wanted (Text.trimStart s)

/-- `UTC` in either case, or an offset whose fields colons and blanks may separate. -/
def looseOffset (s : List Char) : Except InstantError (Int × List Char) :=
  if (s.take 3).map Char.toUpper = ['U', 'T', 'C'] then .ok (0, s.drop 3)
  else offset (fun s => .ok (s.dropWhile fun c => c == ':' || Text.isBlank c)) s

end IsoReader

namespace Instant

open IsoReader

def ofIso (s : List Char) : Except InstantError Instant := do
  require (19 ≤ Text.octetCount s) .tooShort
  let (year, s) ← columns 4 0 s
  let s ← column '-' s
  let (month, s) ← columns 2 0 s
  let s ← column '-' s
  let (day, s) ← columns 2 0 s
  let date : Date := ⟨year, month, day⟩
  require date.isValid .outOfRange
  let s ← match s with
    | c :: s => if c = 'T' ∨ c = 't' ∨ c = ' ' then .ok s else .error .invalid
    | [] => .error .invalid
  let (hour, s) ← columns 2 0 s
  let s ← column ':' s
  let (minute, s) ← columns 2 0 s
  let s ← column ':' s
  let (second, s) ← columns 2 0 s
  let (nano, s) ← fraction s
  let time ← timeOfDay hour minute second nano
  let (offset, s) ← offset (separator ':') s
  require s.isEmpty .tooLong
  assemble date time offset

def ofLooseIso (s : List Char) : Except InstantError Instant := do
  let (year, s) ← looseYear (Text.trimStart s)
  require (-(2 ^ 31) ≤ year && year < 2 ^ 31) .outOfRange
  let s ← looseSeparator '-' s
  let (month, s) ← looseField 1 12 s
  let s ← looseSeparator '-' s
  let (day, s) ← looseField 1 31 s
  let s ← match s with
    | c :: s => if c = 'T' ∨ c = 't' ∨ c = ' ' then .ok s else .error .invalid
    | [] => .error .tooShort
  let (hour, s) ← looseField 0 23 s
  let s ← looseSeparator ':' s
  let (minute, s) ← looseField 0 59 s
  let s ← looseSeparator ':' s
  let (second, s) ← looseField 0 60 s
  let (nano, s) ← fraction s
  let (offset, s) ← looseOffset (Text.trimStart s)
  require (Text.isBlankText s) .tooLong
  let time ← timeOfDay hour minute second nano
  assemble ⟨year, month, day⟩ time offset

end Instant

example : (Instant.ofIso "1970-01-01T01:00:00+01:00".toList).toOption = some Instant.epoch := by
  decide +kernel
example : (Instant.ofLooseIso "1970-1-1T0:0:0 utc".toList).toOption = some Instant.epoch := by
  decide +kernel

end Almanac
