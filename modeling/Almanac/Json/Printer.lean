import Almanac.Json.Value
import Almanac.Text.Numeral

/-!
# JSON in print

The compact form: no blanks, the members of an object in the order of their names.
-/

namespace Almanac

/-- A floating point number: the fewest digits that read back, positional with at least one
digit after the point where the first digit stands for 10⁻⁵ to 10¹⁵, else with an exponent. -/
def Binary64.jsonText : Binary64 → List Char
  | .finite negative mantissa exponent =>
    let (number, power) := shortest mantissa exponent
    let digits := Text.decimal number
    let first := power + digits.length - 1
    let text :=
      if mantissa = 0 then ['0', '.', '0']
      else if -5 ≤ first ∧ first ≤ 15 then
        positional digits power ++ (if 0 ≤ power then ['.', '0'] else [])
      else
        let fraction := digits.drop 1
        digits.take 1 ++ (if fraction.isEmpty then [] else '.' :: fraction) ++
          'e' :: (if first < 0 then '-' else '+') :: Text.decimal first.natAbs
    if negative then '-' :: text else text
  | .infinite _ => ['n', 'u', 'l', 'l']
  | .notANumber => ['n', 'u', 'l', 'l']

def JsonNumber.text : JsonNumber → List Char
  | .integer n => Text.signedDecimal n
  | .float x => x.jsonText

namespace Json

/-- One character of a string: quotes, backslashes and controls are escaped. -/
def escapedChar (c : Char) : List Char :=
  match c with
  | '\x22' => ['\\', '\x22']
  | '\\' => ['\\', '\\']
  | '\x08' => ['\\', 'b']
  | '\x0c' => ['\\', 'f']
  | '\n' => ['\\', 'n']
  | '\r' => ['\\', 'r']
  | '\t' => ['\\', 't']
  | c =>
    if c.toNat < 0x20 then
      ['\\', 'u', '0', '0', Nat.digitChar (c.toNat / 16), Nat.digitChar (c.toNat % 16)]
    else [c]

def stringText (s : String) : List Char :=
  '\x22' :: s.toList.flatMap escapedChar ++ ['\x22']

mutual

def text : Json → List Char
  | null => ['n', 'u', 'l', 'l']
  | bool true => ['t', 'r', 'u', 'e']
  | bool false => ['f', 'a', 'l', 's', 'e']
  | number n => n.text
  | string s => stringText s
  | array items => '[' :: itemsText items ++ [']']
  | object members => '\x7b' :: membersText members ++ ['\x7d']

def itemsText : List Json → List Char
  | [] => []
  | [item] => text item
  | item :: items => text item ++ ',' :: itemsText items

def membersText : List (String × Json) → List Char
  | [] => []
  | [(name, value)] => stringText name ++ ':' :: text value
  | (name, value) :: members => stringText name ++ ':' :: text value ++ ',' :: membersText members

end

def compact (j : Json) : String := String.ofList j.text

end Json

example : (Binary64.ofDecimal false 1 (-1)).jsonText = "0.1".toList := by decide +kernel
example : (Binary64.ofDecimal true 5 (-324)).jsonText = "-5e-324".toList := by decide +kernel
example : (Json.ofMembers [("b", .nat 2), ("a", .string "\n")]).compact =
    "\x7b\"a\":\"\\n\",\"b\":2\x7d" := by decide +kernel

end Almanac
