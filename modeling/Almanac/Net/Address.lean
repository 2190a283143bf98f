import Almanac.Text.Numeral

/-!
# Network addresses

The texts of IPv4 and IPv6 addresses and of socket addresses, `1.2.3.4:80` and
`[::1]:80`: reading and writing them.
-/

namespace Almanac

/-- An IPv4 address as a number of 32 bits, or an IPv6 address as eight groups of 16 bits. -/
inductive IpAddress where
  | v4 (bits : Nat)
  | v6 (groups : List Nat)
  deriving DecidableEq, Repr

/-- An address and a port; an IPv6 address may name the link it is on. -/
structure SocketAddress where
  host : IpAddress
  scope : Nat := 0
  port : Nat
  deriving DecidableEq, Repr

namespace IpAddress

/-- The digits that a text begins with, and the rest. -/
def digitSpan (digit? : Char → Option Nat) : List Char → List Nat × List Char
  | [] => ([], [])
  | c :: s =>
    match digit? c with
    | none => ([], c :: s)
    | some d =>
      let (digits, rest) := digitSpan digit? s
      (d :: digits, rest)

def valueOf (radix : Nat) (digits : List Nat) : Nat :=
  digits.foldl (fun n d => radix * n + d) 0

/-- An octet in decimal, without leading zeros. -/
def octet? (s : List Char) : Option (Nat × List Char) :=
  let (digits, rest) := digitSpan Text.digit? s
  if digits = [] ∨ 3 < digits.length ∨ (digits.head? = some 0 ∧ 1 < digits.length) ∨
      255 < valueOf 10 digits then none
  else some (valueOf 10 digits, rest)

/-- One to four hexadecimal digits. -/
def group? (s : List Char) : Option (Nat × List Char) :=
  let (digits, rest) := digitSpan Text.hexDigit? s
  if digits = [] ∨ 4 < digits.length then none else some (valueOf 16 digits, rest)

def char? (wanted : Char) : List Char → Option (List Char)
  | c :: s => if c = wanted then some s else none
  | [] => none

def bits? (s : List Char) : Option (Nat × List Char) := do
  let (a, s) ← octet? s
  let (b, s) ← char? '.' s >>= octet?
  let (c, s) ← char? '.' s >>= octet?
  let (d, s) ← char? '.' s >>= octet?
  some (((a * 256 + b) * 256 + c) * 256 + d, s)

/-- Skips the colon in front of every group but the first. -/
def pastColon? (first : Bool) (s : List Char) : Option (List Char) :=
  if first then some s else char? ':' s

/-- At most `limit` groups with colons between them, the last two possibly written as an IPv4
address, which the flag tells. -/
def groups : Nat → Bool → List Char → List Nat × Bool × List Char
  | 0, _, s => ([], false, s)
  | limit + 1, first, s =>
    match if limit = 0 then none else pastColon? first s >>= bits? with
    | some (bits, rest) => ([bits / 65536, bits % 65536], true, rest)
    | none =>
      match pastColon? first s >>= group? with
      | none => ([], false, s)
      | some (group, rest) =>
        let (more, embedded, rest) := groups limit false rest
        (group :: more, embedded, rest)

/-- Eight groups, of which one run of zeros may be left out between two colons. -/
def groups? (s : List Char) : Option (List Nat × List Char) :=
  match groups 8 true s with
  | (head, embedded, s) =>
    if head.length = 8 then some (head, s)
    else if embedded then none
    else do
      let s ← char? ':' s >>= char? ':'
      let (tail, _, s) := groups (7 - head.length) true s
      some (head ++ List.replicate (8 - head.length - tail.length) 0 ++ tail, s)

/-- A number below `bound`, and the rest. -/
def below? (bound : Nat) (s : List Char) : Option (Nat × List Char) :=
  let (digits, rest) := digitSpan Text.digit? s
  if digits = [] ∨ bound ≤ valueOf 10 digits then none else some (valueOf 10 digits, rest)

def ofText? (s : List Char) : Option IpAddress :=
  match bits? s with
  | some (bits, []) => some (v4 bits)
  | _ =>
    match groups? s with
    | some (groups, []) => some (v6 groups)
    | _ => none

def bitsText (bits : Nat) : List Char :=
  Text.decimal (bits / 2 ^ 24 % 256) ++ '.' :: Text.decimal (bits / 2 ^ 16 % 256) ++
    '.' :: Text.decimal (bits / 2 ^ 8 % 256) ++ '.' :: Text.decimal (bits % 256)

def zeroRun (groups : List Nat) : Nat :=
  (groups.takeWhile (· == 0)).length

/-- The place and the length of the longest run of zeros, the first of equally long ones. -/
def longestZeros : Nat → List Nat → Nat × Nat
  | _, [] => (0, 0)
  | place, g :: groups =>
    let later := longestZeros (place + 1) groups
    let here := zeroRun (g :: groups)
    if later.2 ≤ here then (place, here) else later

def groupList (groups : List Nat) : List Char :=
  (groups.map (Nat.toDigits 16)).intersperse [':'] |>.flatten

/-- An IPv6 address, the longest run of at least two zeros left out. -/
def groupsText (groups : List Nat) : List Char :=
  let (place, length) := longestZeros 0 groups
  if length < 2 then groupList groups
  else groupList (groups.take place) ++ ':' :: ':' :: groupList (groups.drop (place + length))

/-- An IPv6 address, where one that stands for an IPv4 address shows it. -/
def mappedText : List Nat → List Char
  | [0, 0, 0, 0, 0, 0xFFFF, high, low] => "::ffff:".toList ++ bitsText (high * 65536 + low)
  | groups => groupsText groups

end IpAddress

namespace SocketAddress

open IpAddress

/-- Reads an address with its port. An IPv6 address stands in brackets. -/
def ofText? (s : List Char) : Option SocketAddress :=
  let four : Option SocketAddress := do
    let (bits, s) ← bits? s
    let (port, s) ← char? ':' s >>= below? 65536
    if s = [] then some ⟨.v4 bits, 0, port⟩ else none
  let six : Option SocketAddress := do
    let (groups, s) ← char? '[' s >>= groups?
    let (scope, s) ← match s with
      | '%' :: s => below? (2 ^ 32) s
      | s => some (0, s)
    let (port, s) ← char? ']' s >>= char? ':' >>= below? 65536
    if s = [] then some ⟨.v6 groups, scope, port⟩ else none
  match four with
  | some address => some address
  | none => six

def text (a : SocketAddress) : String :=
  let port := ':' :: Text.decimal a.port
  match a.host with
  | .v4 bits => String.ofList (bitsText bits ++ port)
  | .v6 groups =>
    let scope := if a.scope = 0 then [] else '%' :: Text.decimal a.scope
    String.ofList ('[' :: mappedText groups ++ scope ++ ']' :: port)

end SocketAddress

example : (SocketAddress.ofText? "127.0.0.1:80".toList).map SocketAddress.text =
    some "127.0.0.1:80" := by decide
example : (SocketAddress.ofText? "[1:0:0:2::]:3000".toList).map SocketAddress.text =
    some "[1:0:0:2::]:3000" := by decide
example : SocketAddress.ofText? "::1:3000".toList = none := by decide

end Almanac
