import Almanac.Text.Base64
import Almanac.Text.Blank
import Almanac.Text.Octets
import Almanac.Web.Message

/-!
# Basic authentication

A request is let through if its header `Authorization` is `Basic` and the user and the
password, parted by a colon, in base 64. Where no pair is set, every request is.
-/

namespace Almanac.Web

/-- What the gate says to a request. -/
inductive Verdict where
  | admitted
  /-- The header gives another pair. -/
  | badCredentials
  /-- There is no header, or it gives no pair. -/
  | noCredentials
  deriving DecidableEq, Repr

/-- Holds of the characters of a header that can be read as text. -/
def isHeaderText (c : Char) : Bool :=
  (0x20 ≤ c.toNat && c.toNat < 0x7F) || c == '\t'

/-- A text up to the first colon, and what follows it. -/
def splitColon? (s : List Char) : Option (List Char × List Char) :=
  let user := s.takeWhile (· != ':')
  match s.drop user.length with
  | ':' :: password => some (user, password)
  | _ => none

def credentialsOf? (header : String) : Option (String × String) :=
  if header.toList.all isHeaderText then
    match header.toList with
    | 'B' :: 'a' :: 's' :: 'i' :: 'c' :: ' ' :: encoded => do
      let bytes ← Text.Base64.decode? (Text.trim encoded)
      let decoded ← Text.decode? bytes
      let (user, password) ← splitColon? decoded
      some (String.ofList user, String.ofList password)
    | _ => none
  else none

/-- Compares a request with the pair that is set. -/
def judge (credentials : Option (String × String)) (r : Request) : Verdict :=
  match credentials with
  | none => .admitted
  | some pair =>
    match (r.header? "authorization").bind credentialsOf? with
    | some given => if given = pair then .admitted else .badCredentials
    | none => .noCredentials

def unauthorized : Response :=
  { Response.plain 401 "Not Authorized" with
    headers := [("www-authenticate", "Basic realm=\"Authorization Required\""),
      ("content-type", "text/plain; charset=utf-8")] }

example : credentialsOf? "Basic dTpwOnE=" = some ("u", "p:q") := by decide +kernel
example : credentialsOf? "basic dTpw" = none := by decide +kernel

end Almanac.Web
