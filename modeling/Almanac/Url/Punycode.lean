import Almanac.Text.Numeral

/-!
# Punycode

A spelling of any text in ASCII letters, digits and hyphens: first the ASCII characters as
they are, then, after the last hyphen, where to put which of the others. Every step of the
second part is a number in digits of growing weight.
-/

namespace Almanac.Url.Punycode

/-- The value of a digit: letters count from 0 to 25, then the decimal digits. -/
def digit? (c : Char) : Option Nat :=
  if 'a' ≤ c ∧ c ≤ 'z' then some (c.toNat - 97)
  else if 'A' ≤ c ∧ c ≤ 'Z' then some (c.toNat - 65)
  else (Text.digit? c).map (· + 26)

/-- A digit below this one ends a number. -/
def threshold (place bias : Nat) : Nat :=
  min 26 (max 1 (place - bias))

/-- One number, scaled onto `total`, and the rest. -/
def number? (bias : Nat) : Nat → Nat → Nat → List Char → Option (Nat × List Char)
  | _, _, _, [] => none
  | place, weight, total, c :: s =>
    match digit? c with
    | none => none
    | some d =>
      let total := total + d * weight
      let t := threshold place bias
      if 2 ^ 32 ≤ total then none
      else if d < t then some (total, s)
      else number? bias (place + 36) (weight * (36 - t)) total s

/-- Divides until the number is small, and counts the places that takes. The fuel bounds the
divisions. -/
def shrink : Nat → Nat → Nat → Nat
  | 0, _, places => places
  | fuel + 1, delta, places =>
    if 455 < delta then shrink fuel (delta / 35) (places + 36)
    else places + 36 * delta / (delta + 38)

/-- The bias after a step, given how far it went and how long the text is now. -/
def adapt (first : Bool) (delta length : Nat) : Nat :=
  let delta := if first then delta / 700 else delta / 2
  shrink 32 (delta + delta / length) 0

/-- How far a text has come: the code point put in last, the place after it, and the bias. -/
structure Progress where
  text : List Char
  code : Nat := 128
  place : Nat := 0
  bias : Nat := 72
  isFirst : Bool := true

/-- Puts in one character, and tells what is left of the spelling. -/
def Progress.step? (p : Progress) (s : List Char) : Option (Progress × List Char) := do
  let (total, rest) ← number? p.bias 36 1 p.place s
  let length := p.text.length + 1
  let code := p.code + total / length
  let place := total % length
  if code.isValidChar then
    some ({ text := p.text.take place ++ Char.ofNat code :: p.text.drop place, code,
            place := place + 1, bias := adapt p.isFirst (total - p.place) length,
            isFirst := false }, rest)
  else none

/-- Puts in one character after the other. The fuel bounds their number. -/
def Progress.run? : Nat → Progress → List Char → Option (List Char)
  | _, p, [] => some p.text
  | 0, _, _ => none
  | fuel + 1, p, s => do
    let (p, rest) ← p.step? s
    Progress.run? fuel p rest

/-- The ASCII part of a spelling, and the rest. -/
def split (s : List Char) : List Char × List Char :=
  let rest := (s.reverse.takeWhile (· != '-')).reverse
  if rest.length = s.length then ([], s) else (s.take (s.length - rest.length - 1), rest)

def decode? (s : List Char) : Option (List Char) :=
  let (ascii, rest) := split s
  if rest.isEmpty then none else Progress.run? rest.length { text := ascii } rest

def digit (d : Nat) : Char :=
  Char.ofNat (if d < 26 then 97 + d else 22 + d)

/-- The digits of a number. The fuel bounds how many there are. -/
def digits (bias : Nat) : Nat → Nat → Nat → List Char
  | 0, _, _ => []
  | fuel + 1, place, n =>
    let t := threshold place bias
    if n < t then [digit n]
    else
      digit (t + (n - t) % (36 - t)) :: digits bias fuel (place + 36) ((n - t) / (36 - t))

/-- How far a spelling has come: its second part, the step that is not spelled yet, the bias, and
how many characters of the text are spelled. -/
structure Draft where
  text : List Char := []
  step : Nat := 0
  bias : Nat := 72
  length : Nat
  isFirst : Bool := true

/-- Passes by one character of the text, or spells it if its code point has its turn. -/
def Draft.pass (code : Nat) (p : Draft) (c : Char) : Draft :=
  if c.toNat < code then { p with step := p.step + 1 }
  else if c.toNat = code then
    { text := p.text ++ digits p.bias (p.step + 1) 36 p.step, step := 0,
      bias := adapt p.isFirst p.step (p.length + 1), length := p.length + 1, isFirst := false }
  else p

/-- Spells one code point after the other, from `code` on. The fuel bounds their number. -/
def Draft.run (s : List Char) : Nat → Nat → Draft → List Char
  | 0, _, p => p.text
  | fuel + 1, code, p =>
    match ((s.map Char.toNat).filter (code ≤ ·)).min? with
    | none => p.text
    | some next =>
      let p := s.foldl (pass next) { p with step := p.step + (next - code) * (p.length + 1) }
      run s fuel (next + 1) { p with step := p.step + 1 }

def encode (s : List Char) : List Char :=
  let ascii := s.filter fun c => c.toNat < 0x80
  let mark := if ascii.isEmpty then [] else ['-']
  ascii ++ mark ++ Draft.run s s.length 0x80 { length := ascii.length }

example : decode? "bcher-kva".toList = some "bücher".toList := by decide +kernel
example : encode "bücher".toList = "bcher-kva".toList := by decide +kernel

end Almanac.Url.Punycode
