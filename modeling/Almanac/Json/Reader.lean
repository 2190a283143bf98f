import Almanac.Json.Value
import Almanac.Text.Octets
import Almanac.Text.Numeral

/-!
# Reading JSON

`Json.read` reads a text as one value. The first fault from the left is reported, with
its line and the octet in the line. Values nest 127 deep at most.

Integers that fit in 64 bits are exact. Of any other number the first digits are taken,
as many as fit in 64 bits, and scaled by a power of ten in floating point, so that the
last bit of the result can differ from the nearest one.
-/

namespace Almanac

inductive JsonFault where
  | eofInList
  | eofInObject
  | eofInString
  | eofInValue
  | expectedColon
  | expectedListEnd
  | expectedObjectEnd
  | expectedName
  | expectedValue
  | invalidEscape
  | invalidNumber
  | numberOutOfRange
  | invalidCodePoint
  | controlCharacter
  | keyNotString
  | loneSurrogate
  | trailingComma
  | trailingCharacters
  | unfinishedSurrogate
  | tooDeep
  deriving DecidableEq, Repr

def JsonFault.message : JsonFault → String
  | .eofInList => "EOF while parsing a list"
  | .eofInObject => "EOF while parsing an object"
  | .eofInString => "EOF while parsing a string"
  | .eofInValue => "EOF while parsing a value"
  | .expectedColon => "expected `:`"
  | .expectedListEnd => "expected `,` or `]`"
  | .expectedObjectEnd => "expected `,` or `\x7d`"
  | .expectedName => "expected ident"
  | .expectedValue => "expected value"
  | .invalidEscape => "invalid escape"
  | .invalidNumber => "invalid number"
  | .numberOutOfRange => "number out of range"
  | .invalidCodePoint => "invalid unicode code point"
  | .controlCharacter => "control character (\\u0000-\\u001F) found while parsing a string"
  | .keyNotString => "key must be a string"
  | .loneSurrogate => "lone leading surrogate in hex escape"
  | .trailingComma => "trailing comma"
  | .trailingCharacters => "trailing characters"
  | .unfinishedSurrogate => "unexpected end of hex escape"
  | .tooDeep => "recursion limit exceeded"

/-- A fault and where the reading stopped: what is left of the text, and how many octets of
that were looked at. -/
structure JsonStop where
  fault : JsonFault
  rest : List Char
  seen : Nat := 0

/-- Why a text is no JSON value: a fault, its line, and the octet in the line. -/
structure JsonError where
  fault : JsonFault
  line : Nat
  column : Nat
  deriving DecidableEq, Repr

def JsonError.message (e : JsonError) : String :=
  e.fault.message ++ s!" at line {e.line} column {e.column}"

namespace JsonReader

/-- A value and the text after it. -/
abbrev Result (α : Type) := Except JsonStop (α × List Char)

/-- Stops in front of `rest`. -/
def stop {α : Type} (fault : JsonFault) (rest : List Char) : Except JsonStop α :=
  .error ⟨fault, rest, 0⟩

/-- Stops at the first octet of `rest`. -/
def stopAt {α : Type} (fault : JsonFault) (rest : List Char) : Except JsonStop α :=
  .error ⟨fault, rest, 1⟩

def isSpace (c : Char) : Bool :=
  c == ' ' || c == '\n' || c == '\t' || c == '\r'

def skip (s : List Char) : List Char := s.dropWhile isSpace

/-- The greatest power of ten by which a number is scaled at once. -/
def greatestStep : Nat := 308

/-- Scales by a power of ten, in steps. A positive power must not lead to infinity. The fuel
bounds the steps of a negative one. -/
def scaled : Nat → Binary64 → Int → Option Binary64
  | 0, x, _ => some x
  | fuel + 1, x, power =>
    if power.natAbs ≤ greatestStep then
      let step := Binary64.ofDecimal false 1 power.natAbs
      if 0 ≤ power then
        let product := x.mul step
        if product.isInfinite then none else some product
      else some (x.div step)
    else if x.isZero then some x
    else if 0 ≤ power then none
    else scaled fuel (x.div (Binary64.ofDecimal false 1 308)) (power + 308)

/-- The floating point number of a significand and a power of ten. -/
def float (negative : Bool) (significand : Nat) (power : Int) (rest : List Char) :
    Result JsonNumber :=
  match scaled (power.natAbs / 308 + 2) (Binary64.ofNat significand) power with
  | some x => .ok (.float (if negative then x.neg else x), rest)
  | none => stop .numberOutOfRange rest

/-- The greatest exponent that is read; a greater one counts as infinitely great. -/
def exponentLimit : Nat := 2 ^ 31

def signedExponent (down : Bool) (exponent : Nat) : Int :=
  if down then -exponent else exponent

def exponentDigits (negative : Bool) (significand : Nat) (power : Int) (down : Bool)
    (exponent : Nat) : List Char → Result JsonNumber
  | [] => float negative significand (power + signedExponent down exponent) []
  | c :: rest =>
    match Text.digit? c with
    | none => float negative significand (power + signedExponent down exponent) (c :: rest)
    | some d =>
      if 10 * exponent + d < exponentLimit then
        exponentDigits negative significand power down (10 * exponent + d) rest
      else if significand ≠ 0 ∧ !down then stop .numberOutOfRange rest
      else float negative 0 0 (rest.dropWhile Char.isDigit)

def exponent (negative : Bool) (significand : Nat) (power : Int) (s : List Char) :
    Result JsonNumber :=
  let (down, s) :=
    match s with
    | '+' :: s => (false, s)
    | '-' :: s => (true, s)
    | s => (false, s)
  match s with
  | [] => stop .eofInValue []
  | c :: rest =>
    match Text.digit? c with
    | some d => exponentDigits negative significand power down d rest
    | none => stopAt .invalidNumber (c :: rest)

/-- The end of a number whose digits have been read: an exponent, or nothing more. -/
def afterDigits (negative : Bool) (significand : Nat) (power : Int) : List Char → Result JsonNumber
  | 'e' :: rest => exponent negative significand power rest
  | 'E' :: rest => exponent negative significand power rest
  | rest => float negative significand power rest

/-- The digits after a point. Those beyond 64 bits are passed over; `found` tells whether
there was one. -/
def decimals (negative : Bool) (found : Bool) (significand : Nat) (power : Int) :
    List Char → Result JsonNumber
  | [] => if found then float negative significand power [] else stopAt .eofInValue []
  | c :: rest =>
    match Text.digit? c with
    | some d =>
      if 10 * significand + d < 2 ^ 64 then
        decimals negative true (10 * significand + d) (power - 1) rest
      else afterDigits negative significand power (rest.dropWhile Char.isDigit)
    | none =>
      if found then afterDigits negative significand power (c :: rest)
      else stopAt .invalidNumber (c :: rest)

/-- The digits of an integer beyond 64 bits, which only count as places. -/
def places (negative : Bool) (significand : Nat) (power : Int) : List Char → Result JsonNumber
  | [] => float negative significand power []
  | '.' :: rest => decimals negative false significand power rest
  | c :: rest =>
    if c.isDigit then places negative significand (power + 1) rest
    else afterDigits negative significand power (c :: rest)

/-- A number without point and exponent. One below the signed 64 bits is a float, as is −0. -/
def integer (negative : Bool) (significand : Nat) (rest : List Char) : Result JsonNumber :=
  if !negative then .ok (.integer significand, rest)
  else if 0 < significand ∧ significand ≤ 2 ^ 63 then .ok (.integer (-significand), rest)
  else .ok (.float (Binary64.ofNat significand).neg, rest)

/-- What may follow the digits of an integer. -/
def afterInteger (negative : Bool) (significand : Nat) : List Char → Result JsonNumber
  | '.' :: rest => decimals negative false significand 0 rest
  | 'e' :: rest => exponent negative significand 0 rest
  | 'E' :: rest => exponent negative significand 0 rest
  | rest => integer negative significand rest

def integerDigits (negative : Bool) (significand : Nat) : List Char → Result JsonNumber
  | [] => integer negative significand []
  | c :: rest =>
    match Text.digit? c with
    | some d =>
      if 10 * significand + d < 2 ^ 64 then integerDigits negative (10 * significand + d) rest
      else places negative significand 1 rest
    | none => afterInteger negative significand (c :: rest)

/-- A number after its sign. A leading zero stands alone. -/
def number (negative : Bool) : List Char → Result JsonNumber
  | [] => stop .eofInValue []
  | '0' :: c :: rest =>
    if c.isDigit then stopAt .invalidNumber (c :: rest) else afterInteger negative 0 (c :: rest)
  | c :: rest =>
    match Text.digit? c with
    | some d => integerDigits negative d rest
    | none => stopAt .invalidNumber (c :: rest)

def hexUnit : List Char → Result Nat
  | a :: b :: c :: d :: rest =>
    if Text.octetCount [a, b, c, d] = 4 then
      match Text.hexDigit? a, Text.hexDigit? b, Text.hexDigit? c, Text.hexDigit? d with
      | some a, some b, some c, some d => .ok (((a * 16 + b) * 16 + c) * 16 + d, rest)
      | _, _, _, _ => stop .invalidEscape rest
    else .error ⟨.invalidEscape, a :: b :: c :: d :: rest, 4⟩
  | s =>
    if Text.octetCount s < 4 then stop .eofInString []
    else .error ⟨.invalidEscape, s, 4⟩

/-- The second half of a surrogate pair, after its first. -/
def secondHalf (high : Nat) : List Char → Result Char
  | [] => stop .eofInString []
  | '\\' :: [] => stop .eofInString []
  | '\\' :: 'u' :: rest =>
    match hexUnit rest with
    | .error e => .error e
    | .ok (low, rest) =>
      if 0xDC00 ≤ low ∧ low ≤ 0xDFFF then
        .ok (Char.ofNat ((high - 0xD800) * 0x400 + (low - 0xDC00) + 0x10000), rest)
      else stop .loneSurrogate rest
  | '\\' :: rest => stopAt .unfinishedSurrogate rest
  | rest => stopAt .unfinishedSurrogate rest

def escape : List Char → Result Char
  | [] => stop .eofInString []
  | '\x22' :: rest => .ok ('\x22', rest)
  | '\\' :: rest => .ok ('\\', rest)
  | '/' :: rest => .ok ('/', rest)
  | 'b' :: rest => .ok ('\x08', rest)
  | 'f' :: rest => .ok ('\x0c', rest)
  | 'n' :: rest => .ok ('\n', rest)
  | 'r' :: rest => .ok ('\r', rest)
  | 't' :: rest => .ok ('\t', rest)
  | 'u' :: rest =>
    match hexUnit rest with
    | .error e => .error e
    | .ok (unit, rest) =>
      if 0xDC00 ≤ unit ∧ unit ≤ 0xDFFF then stop .loneSurrogate rest
      else if 0xD800 ≤ unit ∧ unit ≤ 0xDBFF then secondHalf unit rest
      else .ok (Char.ofNat unit, rest)
  | rest => stopAt .invalidEscape rest

/-- A string after its opening quote. The fuel bounds the characters. -/
def string : Nat → List Char → List Char → Result String
  | 0, _, s => stop .eofInString s
  | _ + 1, _, [] => stop .eofInString []
  | fuel + 1, read, c :: rest =>
    if c = '\x22' then .ok (String.ofList read.reverse, rest)
    else if c = '\\' then
      match escape rest with
      | .ok (c, rest) => string fuel (c :: read) rest
      | .error e => .error e
    else if c.toNat < 0x20 then stop .controlCharacter rest
    else string fuel (c :: read) rest

/-- The rest of a name such as `null`. -/
def name (value : Json) : List Char → List Char → Result Json
  | [], s => .ok (value, s)
  | _ :: _, [] => stop .eofInValue []
  | wanted :: more, c :: s =>
    if c = wanted then name value more s else stopAt .expectedName (c :: s)

def colon (s : List Char) : Except JsonStop (List Char) :=
  match skip s with
  | [] => stopAt .eofInObject []
  | ':' :: rest => .ok rest
  | rest => stopAt .expectedColon rest

mutual

/-- One value; `depth` levels of nesting are left. The fuel bounds the number of steps. -/
def value : Nat → Nat → List Char → Result Json
  | 0, _, s => stop .eofInValue s
  | fuel + 1, depth, s =>
    match skip s with
    | [] => stopAt .eofInValue []
    | 'n' :: rest => name .null ['u', 'l', 'l'] rest
    | 't' :: rest => name (.bool true) ['r', 'u', 'e'] rest
    | 'f' :: rest => name (.bool false) ['a', 'l', 's', 'e'] rest
    | '-' :: rest => (number true rest).map fun r => (.number r.1, r.2)
    | '\x22' :: rest => (string (rest.length + 1) [] rest).map fun r => (.string r.1, r.2)
    | '[' :: rest =>
      if depth = 0 then stopAt .tooDeep ('[' :: rest) else items fuel (depth - 1) true [] rest
    | '\x7b' :: rest =>
      if depth = 0 then stopAt .tooDeep ('\x7b' :: rest)
      else members fuel (depth - 1) true [] rest
    | c :: rest =>
      if c.isDigit then (number false (c :: rest)).map fun r => (.number r.1, r.2)
      else stopAt .expectedValue (c :: rest)

def items : Nat → Nat → Bool → List Json → List Char → Result Json
  | 0, _, _, _, s => stop .eofInList s
  | fuel + 1, depth, first, read, s =>
    match skip s with
    | [] => stopAt .eofInList []
    | ']' :: rest => .ok (.array read.reverse, rest)
    | ',' :: rest =>
      if first then item fuel depth read (',' :: rest)
      else
        match skip rest with
        | [] => stopAt .eofInValue []
        | ']' :: rest => stopAt .trailingComma (']' :: rest)
        | rest => item fuel depth read rest
    | rest => if first then item fuel depth read rest else stopAt .expectedListEnd rest

def item : Nat → Nat → List Json → List Char → Result Json
  | 0, _, _, s => stop .eofInList s
  | fuel + 1, depth, read, s =>
    match value fuel depth s with
    | .ok (v, rest) => items fuel depth false (v :: read) rest
    | .error e => .error e

def members : Nat → Nat → Bool → List (String × Json) → List Char → Result Json
  | 0, _, _, _, s => stop .eofInObject s
  | fuel + 1, depth, first, read, s =>
    match skip s with
    | [] => stopAt .eofInObject []
    | '\x7d' :: rest => .ok (.object read.reverse, rest)
    | ',' :: rest =>
      if first then stopAt .keyNotString (',' :: rest)
      else
        match skip rest with
        | [] => stopAt .eofInValue []
        | '\x22' :: rest => memberFrom fuel depth read rest
        | '\x7d' :: rest => stopAt .trailingComma ('\x7d' :: rest)
        | rest => stopAt .keyNotString rest
    | '\x22' :: rest =>
      if first then memberFrom fuel depth read rest
      else stopAt .expectedObjectEnd ('\x22' :: rest)
    | rest => stopAt (if first then .keyNotString else .expectedObjectEnd) rest

/-- One member of an object, after the quote of its name, and those after it. -/
def memberFrom : Nat → Nat → List (String × Json) → List Char → Result Json
  | 0, _, _, s => stop .eofInObject s
  | fuel + 1, depth, read, s =>
    match string (s.length + 1) [] s with
    | .error e => .error e
    | .ok (key, rest) =>
      match colon rest with
      | .error e => .error e
      | .ok rest =>
        match value fuel depth rest with
        | .ok (v, rest) => members fuel depth false ((key, v) :: read) rest
        | .error e => .error e

end

/-- The line and the octet in it that an offset of octets leads to. -/
def position : Nat → Nat → Nat → List Char → Nat × Nat
  | line, column, offset, c :: s =>
    if offset = 0 then (line, column)
    else if c = '\n' then position (line + 1) 0 (offset - 1) s
    else position line (column + min offset c.utf8Size) (offset - c.utf8Size) s
  | line, column, _, [] => (line, column)

/-- Locates a stop in the whole text. -/
def locate (text : List Char) (stop : JsonStop) : JsonError :=
  let offset := Text.octetCount text - Text.octetCount stop.rest + stop.seen
  let (line, column) := position 1 0 offset text
  ⟨stop.fault, line, column⟩

def depthLimit : Nat := 127

def document (text : List Char) : Except JsonStop Json :=
  match value (4 * text.length + 4) depthLimit text with
  | .error e => .error e
  | .ok (v, rest) =>
    match skip rest with
    | [] => .ok v
    | rest => stopAt .trailingCharacters rest

end JsonReader

namespace Json

/-- Reads a text as one JSON value whose members stand as they are written, with a name
possibly repeated. -/
def readAsWritten (text : List Char) : Except JsonError Json :=
  (JsonReader.document text).mapError (JsonReader.locate text)

def read (text : List Char) : Except JsonError Json :=
  (readAsWritten text).map Json.sorted

/-- Reads octets as one JSON value. Text that is not well-formed UTF-8 is at fault where the
first ill-formed octet stands, unless something in front of it is. -/
def readOctets (bytes : List UInt8) : Except JsonError Json :=
  let (text, left) := Text.decodePart bytes
  if left.isEmpty then read text
  else
    let broken := text ++ [Char.ofNat 0xFFFD]
    match JsonReader.document text with
    | .error ⟨.eofInString, rest, seen⟩ =>
      .error (JsonReader.locate broken ⟨.invalidCodePoint, rest ++ [Char.ofNat 0xFFFD], seen + 1⟩)
    | _ =>
      match JsonReader.document broken with
      | .ok v => .ok v.sorted
      | .error e => .error (JsonReader.locate broken e)

end Json

example : (match Json.read "[1,\n".toList with
    | .error e => e.message
    | .ok _ => "") = "EOF while parsing a value at line 2 column 0" := by decide +kernel

end Almanac
