import Almanac.Json.Value
import Almanac.Text.Base64
import Almanac.Text.Percent
import Almanac.Url.Basic

/-!
# Exchanges with a server

A request as it goes out, and what comes back: nothing, or a status with a body that may
break off before its promised end.
-/

namespace Almanac.Remote

structure Request where
  method : String
  target : String
  authorization : Option String := none
  accept : String
  contentType : Option String := none
  body : Option Json := none

/-- What comes back. -/
inductive Reply where
  | unreachable
  | answered (status : Nat) (body : String) (brokenOff : Bool)
  deriving DecidableEq, Repr

def isSuccess (status : Nat) : Bool := 200 ≤ status && status < 300

/-- Holds of the statuses whose responses have no body. -/
def isBodiless (status : Nat) : Bool := status == 204 || status == 304

/-- Drops a mark of byte order in front of a text. -/
def withoutMark (s : String) : String :=
  match s.toList with
  | c :: rest => if c.toNat = 0xFEFF then String.ofList rest else s
  | [] => s

/-- The text of a body, unless it broke off. -/
def bodyText? (status : Nat) (body : String) (brokenOff : Bool) : Option String :=
  if isBodiless status then some ""
  else if brokenOff then none
  else some (withoutMark body)

def isRequestable (u : Url) : Bool :=
  u.scheme = "http".toList && match u.authority with
    | some a => !a.host.isEmpty
    | none => false

/-- Some percent-encoded text, if it is text once decoded. -/
def decoded? (s : List Char) : Option (List Char) := Text.decode? (Text.percentDecode s)

/-- User and password of a locator as a header. A user that is no text once decoded is not sent,
and a password that is none counts as left out. -/
def basicHeader? (u : Url) : Option String := do
  let a ← u.authority
  let user ← decoded? a.user
  let password := a.password.bind decoded?
  if user.isEmpty && password.isNone then none
  else
    let pair := user ++ ':' :: password.getD []
    some ("Basic " ++ String.ofList (Text.Base64.encode (Text.encode pair)))

end Almanac.Remote
