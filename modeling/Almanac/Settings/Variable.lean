import Almanac.Settings.Datum
import Almanac.Text.Blank

/-!
# Settings in environment variables

A variable sets what its name says after `PRODDA_`, where two underscores or a point
divide the parts of a path; upper and lower case are alike. Its text is read as a number, a
truth value, a quoted string, a list in brackets or a table in braces, and is taken as it
stands where it is none of these.
-/

namespace Almanac.Variable

/-- What all names begin with. -/
def mark : List Char := "prodda_".toList

/-- What follows the mark at the beginning of a name, in lower case. -/
def afterMark? (name : String) : Option (List Char) :=
  let name := (name.map Char.toLower).toList
  if name.take mark.length = mark then some (name.drop mark.length) else none

/-- Two underscores in a row become a point. -/
def pointed : List Char → List Char
  | '_' :: '_' :: s => '.' :: pointed s
  | c :: s => c :: pointed s
  | [] => []

def parts : List Char → List (List Char)
  | [] => [[]]
  | '.' :: s => [] :: parts s
  | c :: s =>
    match parts s with
    | part :: rest => (c :: part) :: rest
    | [] => [[c]]

/-- The path that a name means, if it means one: none of its parts may be empty. -/
def path? (name : String) : Option (List String) := do
  let rest ← afterMark? name
  let path := parts (pointed rest)
  if path.any List.isEmpty then none else some (path.map String.ofList)

def isSpace (c : Char) : Bool :=
  c == ' ' || c == '\t' || c == '\n' || c == '\x0c' || c == '\r'

def skip (s : List Char) : List Char := s.dropWhile isSpace

def isSeparator (c : Char) : Bool :=
  c == ',' || c == '\x7b' || c == '\x7d' || c == '[' || c == ']'

def isNameChar (c : Char) : Bool := c.isAlphanum || c == '_' || c == '-'

/-- A natural number of 64 bits, with at most a plus in front. -/
def unsigned? (s : List Char) : Option Nat :=
  (Text.numeral (2 ^ 64) s).toOption

/-- A negative number of 64 bits, or zero with a minus. -/
def negative? : List Char → Option Int
  | '-' :: s => ((Text.natural? s).filter (· ≤ 2 ^ 63)).map fun n => -(n : Int)
  | _ => none

/-- What a word means: a number with a point, an integer, or itself. -/
def ofWord (s : List Char) : Scalar :=
  match if s.contains '.' then Binary64.ofPointed? s else none with
  | some x => .float x
  | none =>
    match unsigned? s, negative? s with
    | some n, _ => .unsigned n
    | none, some n => .signed n
    | none, none => .text (String.ofList s)

def hex? : Nat → Nat → List Char → Option (Nat × List Char)
  | 0, n, s => some (n, s)
  | _ + 1, _, [] => none
  | width + 1, n, c :: s => (Text.hexDigit? c).bind fun d => hex? width (16 * n + d) s

def escape? : List Char → Option (Char × List Char)
  | 'b' :: s => some ('\x08', s)
  | 'f' :: s => some ('\x0c', s)
  | 'n' :: s => some ('\n', s)
  | 'r' :: s => some ('\r', s)
  | 't' :: s => some ('\t', s)
  | '\x22' :: s => some ('\x22', s)
  | '\\' :: s => some ('\\', s)
  | 'u' :: s => numbered 4 s
  | 'U' :: s => numbered 8 s
  | _ => none
where
  /-- A character given by its number. -/
  numbered (width : Nat) (s : List Char) : Option (Char × List Char) :=
    (hex? width 0 s).bind fun (n, rest) =>
      if n.isValidChar then some (Char.ofNat n, rest) else none

/-- A string after its opening quote, and the rest. The fuel bounds the characters. -/
def string? : Nat → List Char → List Char → Option (String × List Char)
  | 0, _, _ => none
  | _ + 1, _, [] => none
  | _ + 1, read, '\x22' :: s => some (String.ofList read.reverse, s)
  | fuel + 1, read, '\\' :: s => (escape? s).bind fun (c, rest) => string? fuel (c :: read) rest
  | fuel + 1, read, c :: s =>
    if c = '\t' ∨ (0x20 ≤ c.toNat ∧ c.toNat ≠ 0x7F) then string? fuel (c :: read) s else none

/-- The name of a member, and the rest. -/
def name? : List Char → Option (String × List Char)
  | '\x22' :: s => string? (s.length + 1) [] s
  | s =>
    match s.takeWhile isNameChar with
    | [] => none
    | name => some (String.ofList name, s.drop name.length)

/-- The rest after a text. -/
def after? : List Char → List Char → Option (List Char)
  | [], s => some s
  | _ :: _, [] => none
  | a :: start, c :: s => if a = c then after? start s else none

mutual

/-- A value, and the rest after the blanks behind it. The fuel bounds the steps. -/
def value? : Nat → List Char → Option (Datum × List Char)
  | 0, _ => none
  | fuel + 1, s =>
    let leaf (v : Scalar) (rest : List Char) : Option (Datum × List Char) :=
      some (.scalar .environment v, skip rest)
    let s := skip s
    match after? "true".toList s, after? "false".toList s with
    | some rest, _ => leaf (.boolean true) rest
    | none, some rest => leaf (.boolean false) rest
    | none, none =>
      match s with
      | '\x7b' :: rest => (members? fuel [] rest).map fun r => (.table .environment r.1, skip r.2)
      | '[' :: rest => (items? fuel [] rest).map fun r => (.list .environment r.1, skip r.2)
      | '\x22' :: rest => (string? (rest.length + 1) [] rest).bind fun r => leaf (.text r.1) r.2
      | '\x27' :: c :: '\x27' :: rest => leaf (.text c.toString) rest
      | '\x27' :: _ => none
      | s =>
        let word := s.takeWhile fun c => !isSeparator c
        leaf (ofWord (Text.trim word)) (s.drop word.length)

def items? : Nat → List Datum → List Char → Option (List Datum × List Char)
  | 0, _, _ => none
  | _ + 1, read, ']' :: rest => some (read.reverse, rest)
  | fuel + 1, read, s => do
    let (v, s) ← value? fuel s
    match s with
    | ',' :: rest => items? fuel (v :: read) rest
    | ']' :: rest => some ((v :: read).reverse, rest)
    | _ => none

/-- The members of a table after its brace. A later one replaces an earlier one of its name. -/
def members? : Nat → List (String × Datum) → List Char → Option (List (String × Datum) × List Char)
  | 0, _, _ => none
  | _ + 1, read, '\x7d' :: rest => some (read, rest)
  | fuel + 1, read, s => do
    let (name, s) ← name? (skip s)
    match skip s with
    | '=' :: s => do
      let (v, s) ← value? fuel s
      match s with
      | ',' :: rest => members? fuel (Datum.put name v read) rest
      | '\x7d' :: rest => some (Datum.put name v read, rest)
      | _ => none
    | _ => none

end

/-- What the text of a variable means. -/
def datum (text : String) : Datum :=
  match value? (2 * text.length + 2) text.toList with
  | some (d, []) => d
  | _ => .scalar .environment (.text text)

/-- The tree of all variables that have a path, a later one laid over those before it. -/
def layer (env : List (String × String)) : Datum :=
  env.foldl
    (fun under v =>
      match path? v.1 with
      | some path => under.lay (.nest .environment path (datum v.2))
      | none => under)
    (.table .environment [])

example : path? "PRODDA_SERVER__PORT" = some ["server", "port"] := by decide +kernel
example : path? "PRODDA_SERVER__" = none := by decide +kernel
example : ofWord "+80".toList = .unsigned 80 := by decide +kernel
example : ofWord "0x50".toList = .text "0x50" := by decide +kernel

end Almanac.Variable
