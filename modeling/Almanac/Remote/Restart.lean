import Almanac.Json.Reader
import Almanac.Json.Shape
import Almanac.Log
import Almanac.Remote.Exchange
import Almanac.Url.Basic

/-!
# Restarting a build

The request that asks a build service to restart a build, and what its answers mean: the
restart was accepted or rejected, with notices, or the service could not be asked.
-/

namespace Almanac.Remote

structure Notice where
  notice : Option String := none
  error : Option String := none
  deriving DecidableEq, Repr

structure RestartAnswer where
  accepted : Bool := false
  notices : List Notice := []
  deriving DecidableEq, Repr

inductive RestartError where
  /-- The request cannot be put together. -/
  | unsendable
  /-- Nobody is reached at the locator. -/
  | unreachable (url : String)
  /-- The answer has another form. -/
  | unreadable
  /-- The service answers with an error. -/
  | refused (status : Nat) (text : String)
  deriving DecidableEq, Repr

def RestartError.message : RestartError → String
  | .unsendable => "HTTP error: builder error"
  | .unreachable url => "HTTP error: error sending request for url (" ++ url ++ ")"
  | .unreadable => "HTTP error: error decoding response body"
  | .refused status text => s!"API error {status}: " ++ text

namespace Notice

def texts (n : Notice) : List String := n.notice.toList ++ n.error.toList

def json (n : Notice) : Json :=
  let given (name : String) (text : Option String) : List (String × Json) :=
    text.toList.map fun t => (name, .string t)
  Json.ofMembers (given "notice" n.notice ++ given "error" n.error)

def take (n : Notice) : String × Json → Option Notice
  | ("notice", v) => ((v.asOptional Json.asString).toOption).map fun notice => { n with notice }
  | ("error", v) => ((v.asOptional Json.asString).toOption).map fun error => { n with error }
  | _ => some n

end Notice

namespace RestartAnswer

def messages (a : RestartAnswer) : List String := a.notices.flatMap Notice.texts

def json (a : RestartAnswer) : Json :=
  Json.ofMembers [("result", .bool a.accepted), ("flash", .array (a.notices.map Notice.json))]

/-- Holds if none of the names occurs twice among the members. -/
def isUnambiguous (names : List String) (members : List (String × Json)) : Bool :=
  names.all fun name => (members.filter fun m => m.1 == name).length ≤ 1

/-- Reads a record: an object without a field given twice, or an array of its first fields. -/
def record? {α : Type} (names : List String) (take : α → String × Json → Option α) (blank : α) :
    Json → Option α
  | .object members => if isUnambiguous names members then members.foldlM take blank else none
  | .array items =>
    if items.length ≤ names.length then (names.zip items).foldlM take blank else none
  | _ => none

def notice? : Json → Option Notice := record? ["notice", "error"] Notice.take {}

def take (a : RestartAnswer) : String × Json → Option RestartAnswer
  | ("result", .bool accepted) => some { a with accepted }
  | ("result", _) => none
  | ("flash", .array items) => (items.mapM notice?).map fun notices => { a with notices }
  | ("flash", _) => none
  | _ => some a

def ofText? (text : String) : Option RestartAnswer :=
  match Json.readAsWritten text.toList with
  | .ok value => record? ["result", "flash"] take {} value
  | .error _ => none

end RestartAnswer

def restartUrl (base : String) : String :=
  String.ofList (base.toList.reverse.dropWhile (· == '/')).reverse ++ "/requests"

def isHeaderControl (c : Char) : Bool :=
  (c.toNat < 0x20 && c != '\t') || c == '\x7f'

/-- Drops blanks at the ends, as the wire does. -/
def wireTrimmed (s : String) : String :=
  let isEdge (c : Char) : Bool := c == ' ' || c == '\t'
  String.ofList ((s.toList.dropWhile isEdge).reverse.dropWhile isEdge).reverse

/-- The request for a restart, and the locator in full, if they can be put together. -/
def restartRequest? [Locators] (base token : String) (build : Nat) : Option (Request × String) :=
  match Locators.read (restartUrl base) with
  | .error _ => none
  | .ok u =>
    if isRequestable u && !token.toList.any isHeaderControl then
      some ({ method := "POST", target := String.ofList u.target,
              authorization := some (wireTrimmed ("token " ++ token)),
              accept := "application/json; version=2",
              contentType := some "application/json",
              body := some (Json.ofMembers [("build_id", .nat build)]) },
            String.ofList u.anonymous.text)
    else none

/-- What the reply of a build service comes to. -/
def judge (url : String) : Reply → Except RestartError RestartAnswer
  | .unreachable => .error (.unreachable url)
  | .answered status body brokenOff =>
    if isSuccess status then
      if isBodiless status || brokenOff then .error .unreadable
      else
        match RestartAnswer.ofText? body with
        | some answer => .ok answer
        | none => .error .unreadable
    else .error (.refused status ((bodyText? status body brokenOff).getD ""))

/-- What is logged while a restart is asked for. -/
def restartLines : Except RestartError RestartAnswer → List LogLine
  | .error (.refused status _) => [⟨.warning, "Travis API error", some status⟩]
  | _ => []

/-- Asks for a restart at a server that would reply so: what went out, and what came of it. -/
def restart [Locators] (base token : String) (build : Nat) (reply : Reply) :
    Option Request × Except RestartError RestartAnswer :=
  match restartRequest? base token build with
  | none => (none, .error .unsendable)
  | some (request, url) =>
    match reply with
    | .unreachable => (none, .error (.unreachable url))
    | reply => (some request, judge url reply)

example : restartUrl "http://a//" = "http://a/requests" := by decide +kernel
example : (RestartAnswer.ofText? "[true,[[\"n\"]]]").map RestartAnswer.messages = some ["n"] := by
  decide +kernel

end Almanac.Remote
