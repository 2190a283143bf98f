import Almanac.Text.Percent
import Almanac.Url.Basic
import Almanac.Url.Domain

/-!
# Hosts

The host of a locator: an IPv6 address in brackets, an IPv4 address in any of its
spellings, a domain name, or an opaque name for schemes of their own.
-/

namespace Almanac.Url.Host

/-- An IPv6 address, after its opening bracket. -/
def bracketed (s : List Char) : Except UrlError (List Char) :=
  if s.getLast? = some ']' then
    match IpAddress.groups? s.dropLast with
    | some (groups, []) => .ok ('[' :: IpAddress.groupsText groups ++ [']'])
    | _ => .error .invalidIpv6
  else .error .invalidIpv6

/-- One part of an IPv4 address: octal after a zero, hexadecimal after `0x`, else decimal. -/
def ipv4Part? (s : List Char) : Option Nat :=
  let digits (radix : Nat) (digit? : Char → Option Nat) (s : List Char) : Option Nat :=
    s.foldl (fun n c => do
      let n ← n
      let d ← digit? c
      if d < radix then some (radix * n + d) else none) (some 0)
  match s with
  | [] => none
  | '0' :: 'x' :: rest => digits 16 Text.hexDigit? rest
  | '0' :: 'X' :: rest => digits 16 Text.hexDigit? rest
  | '0' :: c :: rest => digits 8 Text.digit? (c :: rest)
  | s => digits 10 Text.digit? s

/-- The parts of a name between points, an empty last one left out. -/
def dottedParts (s : List Char) : List (List Char) :=
  let parts := Domain.labels s
  if 1 < parts.length ∧ parts.getLast? = some [] then parts.dropLast else parts

/-- Holds of names whose last part is a number; they have to be IPv4 addresses. -/
def endsInNumber (s : List Char) : Bool :=
  match (dottedParts s).getLast? with
  | none => false
  | some last =>
    (!last.isEmpty && last.all Char.isDigit) || (last.length ≥ 2 && (ipv4Part? last).isSome)

/-- The bits of parts of which each but the last stands for one octet. -/
def ipv4Bits? : Nat → List Nat → Option Nat
  | _, [] => none
  | room, [last] => if last < 256 ^ room then some last else none
  | room, part :: parts =>
    if part < 256 then (ipv4Bits? (room - 1) parts).map (part * 256 ^ (room - 1) + ·) else none

/-- An IPv4 address of one to four parts. -/
def ipv4 (s : List Char) : Except UrlError (List Char) :=
  let parts := dottedParts s
  if 4 < parts.length then .error .invalidIpv4
  else
    match parts.mapM ipv4Part? >>= ipv4Bits? 4 with
    | some bits => .ok (IpAddress.bitsText bits)
    | none => .error .invalidIpv4

/-- The host of a scheme that the standard knows. -/
def special [Names] (s : List Char) : Except UrlError (List Char) :=
  match s with
  | '[' :: rest => bracketed rest
  | s =>
    match Domain.ofOctets? (Text.percentDecode s) with
    | none => .error .invalidDomain
    | some [] => .error .emptyHost
    | some name => if endsInNumber name then ipv4 name else .ok name

/-- The characters that no opaque host may hold. -/
def isRefused (c : Char) : Bool :=
  c == '\x00' || c == '\t' || c == '\n' || c == '\r' || c == ' ' || c == '#' || c == '/' ||
    c == ':' || c == '<' || c == '>' || c == '?' || c == '@' || c == '[' || c == '\\' ||
    c == ']' || c == '^' || c == '|'

def isControl (c : Char) : Bool :=
  c.toNat < 0x20 || 0x7E < c.toNat

/-- The host of a scheme of its own. -/
def opaqueName (s : List Char) : Except UrlError (List Char) :=
  match s with
  | '[' :: rest => bracketed rest
  | s =>
    if s.any isRefused then .error .invalidHostCharacter
    else .ok (Text.percentEncode isControl s)

example : (ipv4 "0x7f.1".toList).toOption = some "127.0.0.1".toList := by decide +kernel
example [Names] : (special "A%2eb".toList).toOption = some "a.b".toList := rfl

end Almanac.Url.Host
