import Almanac.Text.Numeral

/-!
# TOML strings

Strings between double quotes have escapes, those between single quotes have none. Either
kind is on one line, or between three quotes on any number of them.
-/

namespace Almanac.Toml

def isSpace (c : Char) : Bool := c == ' ' || c == '\t'

def pastBreak? : List Char → Option (List Char)
  | '\n' :: s => some s
  | '\r' :: '\n' :: s => some s
  | _ => none

/-- Holds of the characters that may stand in strings and comments. -/
def isPlain (c : Char) : Bool :=
  c == '\t' || (0x20 ≤ c.toNat && c.toNat != 0x7F)

def hex? : Nat → Nat → List Char → Option (Nat × List Char)
  | 0, n, s => some (n, s)
  | _ + 1, _, [] => none
  | width + 1, n, c :: s => (Text.hexDigit? c).bind fun d => hex? width (16 * n + d) s

/-- A character given by the digits of its number, and the rest. -/
def numbered? (width : Nat) (s : List Char) : Option (Char × List Char) :=
  (hex? width 0 s).bind fun (n, rest) =>
    if n.isValidChar then some (Char.ofNat n, rest) else none

def escape? : List Char → Option (Char × List Char)
  | 'b' :: s => some ('\x08', s)
  | 'f' :: s => some ('\x0c', s)
  | 'n' :: s => some ('\n', s)
  | 'r' :: s => some ('\r', s)
  | 't' :: s => some ('\t', s)
  | '\x22' :: s => some ('\x22', s)
  | '\\' :: s => some ('\\', s)
  | 'u' :: s => numbered? 4 s
  | 'U' :: s => numbered? 8 s
  | _ => none

/-- Drops blanks and line breaks. -/
def dropGap : List Char → List Char
  | '\n' :: s => dropGap s
  | '\r' :: '\n' :: s => dropGap s
  | ' ' :: s => dropGap s
  | '\t' :: s => dropGap s
  | s => s

/-- The rest after a line break that a backslash takes out, together with the blanks around it. -/
def pastFold? (s : List Char) : Option (List Char) :=
  (pastBreak? (s.dropWhile isSpace)).map dropGap

/-- A string on several lines, after its opening. One or two quotes stand for themselves, also
in front of the closing three. The fuel bounds the characters. -/
def longText? (quote : Char) : Nat → List Char → List Char → Option (String × List Char)
  | 0, _, _ => none
  | _ + 1, _, [] => none
  | fuel + 1, read, c :: s =>
    if c = quote then
      let run := ((c :: s).takeWhile (· == quote)).length
      let rest := (c :: s).drop run
      if run < 3 then longText? quote fuel (List.replicate run quote ++ read) rest
      else if run < 6 then
        some (String.ofList (List.replicate (run - 3) quote ++ read).reverse, rest)
      else none
    else if c = '\\' ∧ quote = '\x22' then
      match pastFold? s with
      | some rest => longText? quote fuel read rest
      | none => (escape? s).bind fun (c, rest) => longText? quote fuel (c :: read) rest
    else
      match pastBreak? (c :: s) with
      | some rest => longText? quote fuel ('\n' :: read) rest
      | none => if isPlain c then longText? quote fuel (c :: read) s else none

/-- A string on one line, after its opening quote. The fuel bounds the characters. -/
def shortText? (quote : Char) : Nat → List Char → List Char → Option (String × List Char)
  | 0, _, _ => none
  | _ + 1, _, [] => none
  | fuel + 1, read, c :: s =>
    if c = quote then some (String.ofList read.reverse, s)
    else if c = '\\' ∧ quote = '\x22' then
      (escape? s).bind fun (c, rest) => shortText? quote fuel (c :: read) rest
    else if isPlain c then shortText? quote fuel (c :: read) s
    else none

/-- A string on one line, after its opening quote, and the rest. -/
def line? (quote : Char) (s : List Char) : Option (String × List Char) :=
  shortText? quote (s.length + 1) [] s

/-- A string, after its opening quote, and the rest. A line break right after three quotes does
not count. -/
def text? (quote : Char) (s : List Char) : Option (String × List Char) :=
  if s.take 2 = [quote, quote] then
    let s := (pastBreak? (s.drop 2)).getD (s.drop 2)
    longText? quote (s.length + 1) [] s
  else line? quote s

end Almanac.Toml
