import Almanac.Json.Printer
import Almanac.Text.Quoted
import Almanac.Time.InstantText
import Almanac.Time.IsoReader

/-!
# The shapes of data

Reading numbers, texts, instants and records off JSON values, and what a value of another
shape is refused for. Records are read member by member in the order of the names, so the
first faulty member in that order is reported.
-/

namespace Almanac

inductive ShapeError where
  | wrongType (found : Json) (expected : String)
  | wrongValue (found : Json) (expected : String)
  | missing (name : String)
  | unknownVariant (name : String) (known : List String)
  | wrongLength (count : Nat) (expected : String)
  | noInstant (cause : InstantError)

def Json.kindText : Json → String
  | .null => "null"
  | .bool b => s!"boolean `{b}`"
  | .number (.integer n) => "integer `" ++ String.ofList (Text.signedDecimal n) ++ "`"
  | .number (.float x) => "floating point `" ++ String.ofList x.jsonText ++ "`"
  | .string s => "string " ++ Text.quoted s
  | .array _ => "sequence"
  | .object _ => "map"

def ShapeError.message : ShapeError → String
  | .wrongType found expected => "invalid type: " ++ found.kindText ++ ", expected " ++ expected
  | .wrongValue found expected => "invalid value: " ++ found.kindText ++ ", expected " ++ expected
  | .missing name => s!"missing field `{name}`"
  | .unknownVariant name known =>
    s!"unknown variant `{name}`, expected one of " ++
      ", ".intercalate (known.map fun k => s!"`{k}`")
  | .wrongLength count expected => s!"invalid length {count}, expected " ++ expected
  | .noInstant cause => cause.message

/-- A value, or why there is none. -/
abbrev Shaped (α : Type) := Except ShapeError α

namespace Json

def asString : Json → Shaped String
  | string s => .ok s
  | found => .error (.wrongType found "a string")

/-- A natural number of so many bits. -/
def asWord (bits : Nat) : Json → Shaped Nat
  | number (.integer n) =>
    if 0 ≤ n ∧ n < 2 ^ bits then .ok n.toNat
    else .error (.wrongValue (number (.integer n)) s!"u{bits}")
  | found => .error (.wrongType found s!"u{bits}")

def asInstant : Json → Shaped Instant
  | string s =>
    match Instant.ofLooseIso s.toList with
    | .ok t => .ok t
    | .error cause => .error (.noInstant cause)
  | found => .error (.wrongType found "an RFC 3339 formatted date and time string")

/-- Null, or a value of a shape. -/
def asOptional {α : Type} (shape : Json → Shaped α) : Json → Shaped (Option α)
  | null => .ok none
  | value => (shape value).map some

/-- A field that has to be there. -/
def required {α : Type} (name : String) : Option α → Shaped α
  | some a => .ok a
  | none => .error (.missing name)

end Json

end Almanac
