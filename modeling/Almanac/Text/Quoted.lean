import Almanac.Text.Unseen

/-!
# Quoted text

A text between double quotes, as messages show it: quotes and backslashes escaped,
the common controls by letter, every other unseen character by its number.
-/

namespace Almanac.Text

/-- The form of one character inside double quotes. -/
def quotedChar (c : Char) : List Char :=
  match c with
  | '\x00' => ['\\', '0']
  | '\t' => ['\\', 't']
  | '\r' => ['\\', 'r']
  | '\n' => ['\\', 'n']
  | '\\' => ['\\', '\\']
  | '\x22' => ['\\', '\x22']
  | c =>
    if isUnseen c then
      ['\\', 'u', '\x7b'] ++ Nat.toDigits 16 c.toNat ++ ['\x7d']
    else [c]

def quoted (s : String) : String :=
  String.ofList ('\x22' :: s.toList.flatMap quotedChar ++ ['\x22'])

example : quoted "a\n\"" = "\"a\\n\\\"\"" := by decide +kernel

end Almanac.Text
