import Almanac.Text.Unseen
import Almanac.Url.Domain
import Almanac.Url.Punycode

/-!
# Names in letters

What the program knows of names beyond ASCII: those of small letters, syllables and ideographs
that no table changes, and that are written from left to right and never composed with what stands
beside them. It takes all other names beyond ASCII for none.
-/

namespace Almanac.Url.Letters

/-- Latin, Greek and Cyrillic letters, kana, ideographs and Korean syllables. -/
def ranges : List (Nat × Nat) :=
  [(0xE0, 0xF6), (0xF8, 0xFF), (0x3B1, 0x3C1), (0x3C3, 0x3C9), (0x430, 0x45F),
   (0x3041, 0x3096), (0x30A1, 0x30FA), (0x4E00, 0x9FA5), (0xAC00, 0xD7A3)]

/-- How long a label beyond ASCII may be. -/
def limit : Nat := 1000

def isLetter (c : Char) : Bool := Text.Unseen.inRanges ranges c.toNat

/-- Spells a label. One that is spelled already has to be the spelling of a label beyond ASCII. -/
def label? (label : List Char) : Option (List Char) :=
  if Domain.isPlain label then some label
  else if limit < label.length then none
  else if Domain.isEncoded label then do
    let spelled := label.drop 4
    let shown ← Punycode.decode? spelled
    if shown.any isLetter && shown.all (fun c => Domain.isAscii c || isLetter c) &&
        Punycode.encode shown == spelled then some label
    else none
  else some ("xn--".toList ++ Punycode.encode label)

/-- Spells a name label by label. -/
def toAscii? (name : List Char) : Option (List Char) :=
  let name := name.map Char.toLower
  if name.all (fun c => if Domain.isAscii c then !Domain.isRefused c else isLetter c) then
    ((Domain.labels name).mapM label?).map fun labels => ['.'].intercalate labels
  else none

instance : Names := ⟨toAscii?⟩

example : toAscii? "Bücher.example".toList = some "xn--bcher-kva.example".toList := by
  decide +kernel
example : toAscii? "xn--a".toList = none := by decide +kernel

end Almanac.Url.Letters
