import Almanac.Net.Address

/-!
# Locators

An absolute locator in its parts, each already in its written form, and the texts that
are made of them.
-/

namespace Almanac

inductive UrlError where
  | relative
  | emptyHost
  | invalidPort
  | invalidIpv4
  | invalidIpv6
  | invalidDomain
  | invalidHostCharacter
  | overlong
  deriving DecidableEq, Repr

def UrlError.message : UrlError → String
  | .relative => "relative URL without a base"
  | .emptyHost => "empty host"
  | .invalidPort => "invalid port number"
  | .invalidIpv4 => "invalid IPv4 address"
  | .invalidIpv6 => "invalid IPv6 address"
  | .invalidDomain => "invalid international domain name"
  | .invalidHostCharacter => "invalid domain character"
  | .overlong => "URLs more than 4 GB are not supported"

/-- Where a locator points to, and as whom. -/
structure Authority where
  user : List Char := []
  password : Option (List Char) := none
  host : List Char
  port : Option Nat := none
  deriving DecidableEq, Repr

/-- An absolute locator in its parts. -/
structure Url where
  scheme : List Char
  authority : Option Authority := none
  path : List Char
  query : Option (List Char) := none
  fragment : Option (List Char) := none
  deriving DecidableEq, Repr

/-- Which texts are absolute locators, and what they say. The program reads them by `Url.ofText`;
what is shown of tasks and of requests holds of any reader. -/
class Locators where
  read : String → Except UrlError Url

namespace Authority

/-- User, password and the sign that ends them, or nothing. -/
def credentialText (a : Authority) : List Char :=
  match a.password with
  | some password => a.user ++ ':' :: password ++ ['@']
  | none => if a.user.isEmpty then [] else a.user ++ ['@']

def hostText (a : Authority) : List Char :=
  a.host ++ match a.port with
    | some port => ':' :: Text.decimal port
    | none => []

end Authority

namespace Url

/-- A part behind its mark, or nothing. -/
def marked (mark : Char) : Option (List Char) → List Char
  | some part => mark :: part
  | none => []

def text (u : Url) : List Char :=
  let authority := match u.authority with
    | some a => '/' :: '/' :: a.credentialText ++ a.hostText
    | none => []
  u.scheme ++ ':' :: authority ++ u.path ++ marked '?' u.query ++ marked '#' u.fragment

/-- What a request asks the host for: the path and the query. -/
def target (u : Url) : List Char :=
  u.path ++ marked '?' u.query

/-- The locator without user and password. -/
def anonymous (u : Url) : Url :=
  { u with authority := u.authority.map fun a => { a with user := [], password := none } }

end Url

end Almanac
