import Almanac.Toml.Draft
import Almanac.Toml.Literal
import Almanac.Toml.Text

/-!
# Reading TOML

`Toml.ofText?` reads a document as the members of its outermost table. Headers divide it
into sections, each with its pairs of a key and a value. Keys have fewer than 80 parts,
and values nest fewer than 80 deep.
-/

namespace Almanac.Toml

def skip (s : List Char) : List Char := s.dropWhile isSpace

def skipComment : List Char → List Char
  | '#' :: s => s.dropWhile isPlain
  | s => s

/-- The rest after the end of a line, in front of which blanks and a comment may stand. -/
def pastLine? (s : List Char) : Option (List Char) :=
  match skipComment (skip s) with
  | [] => some []
  | s => pastBreak? s

/-- Drops blanks, comments and line breaks. The fuel bounds the lines. -/
def skipLines : Nat → List Char → List Char
  | 0, s => s
  | fuel + 1, s =>
    match pastBreak? (skipComment (skip s)) with
    | some rest => skipLines fuel rest
    | none => skip s

/-- The greatest number of parts of a key, and of values in one another. -/
def depthLimit : Nat := 79

def isBareChar (c : Char) : Bool := c.isAlphanum || c == '-' || c == '_'

/-- One part of a key, and the rest. -/
def name? : List Char → Option (String × List Char)
  | '\x22' :: s => line? '\x22' s
  | '\x27' :: s => line? '\x27' s
  | s =>
    match s.takeWhile isBareChar with
    | [] => none
    | bare => some (String.ofList bare, s.drop bare.length)

/-- The parts of a key, with points between them, and the rest. The fuel bounds the parts. -/
def keyWithin? : Nat → List Char → Option (List String × List Char)
  | 0, _ => none
  | fuel + 1, s => do
    let (name, s) ← name? (skip s)
    match skip s with
    | '.' :: s => do
      let (path, s) ← keyWithin? fuel s
      some (name :: path, s)
    | s => some ([name], s)

def key? (s : List Char) : Option (List String × List Char) := keyWithin? depthLimit s

mutual

/-- A value, and the rest; `depth` levels are left. The fuel bounds the steps. -/
def value? : Nat → Nat → List Char → Option (Toml × List Char)
  | 0, _, _ => none
  | _ + 1, _, [] => none
  | fuel + 1, depth, c :: s =>
    match c with
    | '\x22' => (text? '\x22' s).map fun r => (string r.1, r.2)
    | '\x27' => (text? '\x27' s).map fun r => (string r.1, r.2)
    | '[' =>
      match depth with
      | 0 => none
      | depth + 1 => items? fuel depth [] s
    | '\x7b' =>
      match depth with
      | 0 => none
      | depth + 1 =>
        match skip s with
        | '\x7d' :: rest => some (table [], rest)
        | s => pairs? fuel depth [] s
    | c =>
      let (literal, rest) := literalSpan (c :: s)
      (ofLiteral? literal).map fun v => (v, rest)

/-- The items of an array, those already read in reverse. -/
def items? : Nat → Nat → List Toml → List Char → Option (Toml × List Char)
  | 0, _, _, _ => none
  | fuel + 1, depth, read, s =>
    match skipLines (s.length + 1) s with
    | ']' :: rest => some (array read.reverse, rest)
    | s => do
      let (v, s) ← value? fuel depth s
      match skipLines (s.length + 1) s with
      | ',' :: rest => items? fuel depth (v :: read) rest
      | ']' :: rest => some (array (v :: read).reverse, rest)
      | _ => none

/-- The pairs of a table in braces, those already read in reverse. -/
def pairs? : Nat → Nat → List (List String × Toml) → List Char → Option (Toml × List Char)
  | 0, _, _, _ => none
  | fuel + 1, depth, read, s => do
    let (key, s) ← key? s
    let s ← past? '=' s
    let (v, s) ← value? fuel depth (skip s)
    match skip s with
    | ',' :: rest => pairs? fuel depth ((key, v) :: read) rest
    | '\x7d' :: rest => do
      let members ← Draft.ofPairs [] ((key, v) :: read).reverse
      some (table (Draft.finishMembers members), rest)
    | _ => none

end

inductive Line where
  | empty
  | pair (key : List String) (v : Toml)
  | header (key : List String)
  | repeatedHeader (key : List String)

def lineOf? (s : List Char) : Option (Line × List Char) :=
  match skip s with
  | '[' :: '[' :: s => do
    let (key, s) ← key? s
    let rest ← past? ']' s >>= past? ']' >>= pastLine?
    some (.repeatedHeader key, rest)
  | '[' :: s => do
    let (key, s) ← key? s
    let rest ← past? ']' s >>= pastLine?
    some (.header key, rest)
  | s =>
    match pastLine? s with
    | some rest => some (.empty, rest)
    | none => do
      let (key, s) ← key? s
      let s ← past? '=' s
      let (v, s) ← value? (2 * s.length + 2) depthLimit (skip s)
      let rest ← pastLine? s
      some (.pair key v, rest)

/-- The lines of a text. The fuel bounds their number. -/
def lines? : Nat → List Char → Option (List Line)
  | _, [] => some []
  | 0, _ => none
  | fuel + 1, s => do
    let (line, rest) ← lineOf? s
    let lines ← lines? fuel rest
    some (line :: lines)

structure Section where
  key : List String
  isRepeated : Bool
  pairs : List (List String × Toml)

/-- The pairs in front of the first header, and the sections. -/
def sections : List Line → List (List String × Toml) × List Section
  | [] => ([], [])
  | .empty :: lines => sections lines
  | .pair key v :: lines => ((key, v) :: (sections lines).1, (sections lines).2)
  | .header key :: lines => ([], ⟨key, false, (sections lines).1⟩ :: (sections lines).2)
  | .repeatedHeader key :: lines => ([], ⟨key, true, (sections lines).1⟩ :: (sections lines).2)

/-- Adds a section to a document under construction. -/
def addSection (members : Draft.Members) (s : Section) : Option Draft.Members :=
  match s.key.getLast? with
  | none => none
  | some name =>
    let fill (inner : Draft.Members) : Option Draft.Members := Draft.ofPairs inner s.pairs
    Draft.within (if s.isRepeated then Draft.repeated name fill else Draft.head name fill)
      s.key.dropLast members

def withoutMark : List Char → List Char
  | c :: s => if c.toNat = 0xFEFF then s else c :: s
  | [] => []

def ofText? (text : String) : Option (List (String × Toml)) := do
  let s := withoutMark text.toList
  let lines ← lines? (s.length + 1) s
  let (pairs, sections) := sections lines
  let top ← Draft.ofPairs [] pairs
  let members ← sections.foldlM addSection top
  some (Draft.finishMembers members)

example : (Toml.ofText? "a = 1 # one\n[b]\nc.d = 'x'").map (List.map Prod.fst) =
    some ["a", "b"] := by decide +kernel
example : (Toml.ofText? "a = 1\na = 2").isNone = true := by decide +kernel

end Almanac.Toml
