import Almanac.Text.Octets
import Almanac.Text.Numeral

/-!
# Percent encoding

An octet may be written as `%` and two hexadecimal digits.
-/

namespace Almanac.Text

def upperHexDigit (n : Nat) : Char :=
  (Nat.digitChar n).toUpper

/-- An octet as `%` and two digits. -/
def percentOctet (b : UInt8) : List Char :=
  ['%', upperHexDigit (b.toNat / 16), upperHexDigit (b.toNat % 16)]

/-- Writes a character as it is, or octet by octet where `escape` says so. -/
def percentChar (escape : Char → Bool) (c : Char) : List Char :=
  if escape c then (String.utf8EncodeChar c).flatMap percentOctet else [c]

/-- Encodes the characters of a text that `escape` picks. -/
def percentEncode (escape : Char → Bool) (s : List Char) : List Char :=
  s.flatMap (percentChar escape)

/-- The octets of a text, in which `%` and two hexadecimal digits stand for one. Any other `%`
stands for itself. -/
def percentDecode : List Char → List UInt8
  | [] => []
  | '%' :: a :: b :: rest =>
    match hexDigit? a, hexDigit? b with
    | some x, some y => UInt8.ofNat (16 * x + y) :: percentDecode rest
    | _, _ => UInt8.ofNat '%'.toNat :: percentDecode (a :: b :: rest)
  | c :: rest => String.utf8EncodeChar c ++ percentDecode rest

example : percentDecode "a%41%zz%".toList = encode "aA%zz%".toList := by decide

end Almanac.Text
