import Almanac.Json.Value

/-!
# Requests and responses
-/

namespace Almanac.Web

/-- A request as it comes in. The path may carry a query. -/
structure Request where
  method : String
  path : String
  headers : List (String × String) := []
  body : List UInt8 := []
  deriving DecidableEq, Repr

inductive Content where
  | empty
  | text (s : String)
  | json (value : Json)
  deriving Repr

/-- A response, with its headers by name. -/
structure Response where
  status : Nat
  headers : List (String × String) := []
  content : Content := .empty
  deriving Repr

/-- The value of the first header of a name, in whatever case. -/
def Request.header? (r : Request) (name : String) : Option String :=
  (r.headers.find? fun h => h.1.map Char.toLower == name).map Prod.snd

namespace Response

def plain (status : Nat) (text : String) : Response :=
  ⟨status, [("content-type", "text/plain; charset=utf-8")], .text text⟩

def data (status : Nat) (value : Json) : Response :=
  ⟨status, [("content-type", "application/json")], .json value⟩

def headersOnly (r : Response) : Response := { r with content := .empty }

end Response

end Almanac.Web
