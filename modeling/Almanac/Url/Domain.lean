import Almanac.Text.Octets

/-!
# Domain names

A domain name is compared in ASCII and in lower case. Which names beyond ASCII there are, and how
they are spelled in ASCII, is laid down in the tables of Unicode. This library has no such tables:
whoever reads locators says what becomes of those names, and of the labels that begin with `xn--`,
which stand for labels beyond ASCII.
-/

namespace Almanac.Url

/-- What is known of the names that the tables of Unicode decide on. -/
class Names where
  /-- The spelling of a name in ASCII, if it is a domain name. -/
  toAscii? : List Char → Option (List Char)

namespace Domain

/-- The ASCII characters that no domain name may hold. -/
def isRefused (c : Char) : Bool :=
  c.toNat ≤ 0x20 || c == '\x7f' || c == '%' || c == '#' || c == '/' || c == ':' || c == '<' ||
    c == '>' || c == '?' || c == '@' || c == '[' || c == '\\' || c == ']' || c == '^' || c == '|'

def isAscii (c : Char) : Bool := c.toNat < 0x80

/-- The labels of a name, which stand between its points. -/
def labels : List Char → List (List Char)
  | [] => [[]]
  | c :: s =>
    if c = '.' then [] :: labels s
    else
      match labels s with
      | label :: rest => (c :: label) :: rest
      | [] => [[c]]

/-- Holds of labels that stand for others. -/
def isEncoded (label : List Char) : Bool :=
  (label.take 4).map Char.toLower == "xn--".toList

/-- Holds of names that the tables have no say in. -/
def isPlain (name : List Char) : Bool :=
  name.all isAscii && (labels name).all fun label => !isEncoded label

/-- The name that some octets spell, in ASCII and in lower case. -/
def ofOctets? [Names] (bytes : List UInt8) : Option (List Char) := do
  let name ← Text.decode? bytes
  if isPlain name then
    if name.any isRefused then none else some (name.map Char.toLower)
  else Names.toAscii? name

end Domain

end Almanac.Url
