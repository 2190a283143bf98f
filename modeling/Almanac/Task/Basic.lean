import Almanac.Json.Shape
import Almanac.Time.SpanText

/-!
# Tasks

What an entry fires: restarting a build, fetching a locator, or a pause. A rehearsal is a
task with a script of its own, which says how each of its runs goes.

`TaskView` is the description of a task that clients see, and its JSON form.
-/

namespace Almanac

inductive TaskError where
  | missingField (field : String)
  | invalidField (field reason : String)
  | unknownKind (kind : String)
  | failed (text : String)
  deriving DecidableEq, Repr

def TaskError.message : TaskError → String
  | .missingField field => field ++ " must be provided"
  | .invalidField field reason => "Invalid " ++ field ++ ": " ++ reason
  | .unknownKind kind => "Unrecognized task type: " ++ kind
  | .failed text => "Task execution failed: " ++ text

inductive RunResult where
  | succeeded
  | failed (e : TaskError)
  /-- The run never returns. -/
  | lost
  deriving DecidableEq, Repr

/-- One run: how many milliseconds it takes, by how many it then moves the clock, and how it
ends. -/
structure Turn where
  sleep : Nat := 0
  skew : Int := 0
  result : RunResult := .succeeded
  deriving DecidableEq, Repr

/-- A task by a script. Entries that share a `troupe` share the count of runs. -/
structure Rehearsal where
  name : String
  troupe : Nat
  /-- The first run is run 1. -/
  script : Nat → Turn

inductive Task where
  | restart (token : String) (build : Nat)
  | fetch (url : String)
  | pause (length : Span)
  | rehearse (r : Rehearsal)

inductive TaskView where
  | restart (token : String) (build : Nat)
  | fetch (url : String)
  | pause (length : String)
  deriving DecidableEq, Repr

/-- The description of a task. A rehearsal passes for a pause of no length. -/
def Task.view : Task → TaskView
  | .restart token build => .restart token build
  | .fetch url => .fetch url
  | .pause length => .pause length.words
  | .rehearse _ => .pause Span.zero.words

namespace TaskView

/-- The kinds of tasks, by the names that clients use. -/
def kinds : List String := ["travis-re-run", "url-get", "no-op"]

def kind : TaskView → String
  | restart .. => "travis-re-run"
  | fetch .. => "url-get"
  | pause .. => "no-op"

def json (v : TaskView) : Json :=
  Json.ofMembers (("type", .string v.kind) ::
    match v with
    | restart token build => [("token", .string token), ("build_id", .nat build)]
    | fetch url => [("url", .string url)]
    | pause length => [("sleep_duration", .string length)])

def inspect : TaskView → String
  | restart token build =>
    "TravisReRun \x7b token: " ++ Text.quoted token ++ s!", build_id: {build} \x7d"
  | fetch url => "UrlGet \x7b url: " ++ Text.quoted url ++ " \x7d"
  | pause length => "NoOp \x7b sleep_duration: " ++ Text.quoted length ++ " \x7d"

/-- The fields of all descriptions, as far as they are there. -/
structure Fields where
  token : Option String := none
  build : Option Nat := none
  url : Option String := none
  length : Option String := none

/-- Takes up a member that a kind of task has; others are passed over. -/
def Fields.take (kind : String) (f : Fields) (member : String × Json) : Shaped Fields :=
  match kind, member with
  | "travis-re-run", ("build_id", v) => do
    let n ← v.asWord 64
    pure { f with build := some n }
  | "travis-re-run", ("token", v) => do
    let s ← v.asString
    pure { f with token := some s }
  | "url-get", ("url", v) => do
    let s ← v.asString
    pure { f with url := some s }
  | "no-op", ("sleep_duration", v) => do
    let s ← v.asString
    pure { f with length := some s }
  | _, _ => pure f

/-- The description of a kind of task from its fields, all of which have to be there. -/
def ofFields (kind : String) (f : Fields) : Shaped TaskView :=
  match kind with
  | "travis-re-run" => do
    let token ← Json.required "token" f.token
    let build ← Json.required "build_id" f.build
    pure (restart token build)
  | "url-get" => do
    let url ← Json.required "url" f.url
    pure (fetch url)
  | _ => do
    let length ← Json.required "sleep_duration" f.length
    pure (pause length)

def kindOf : Json → Shaped String
  | .string kind => if kinds.contains kind then .ok kind else .error (.unknownVariant kind kinds)
  | found => .error (.wrongType found "variant identifier")

/-- The names of the fields of a kind, in the order in which an array lists them. -/
def fieldNames : String → List String
  | "travis-re-run" => ["token", "build_id"]
  | "url-get" => ["url"]
  | _ => ["sleep_duration"]

def kindLabel : String → String
  | "travis-re-run" => "TravisReRun"
  | "url-get" => "UrlGet"
  | _ => "NoOp"

/-- A count of elements in words. -/
def elements (n : Nat) : String :=
  if n = 1 then "1 element" else s!"{n} elements"

/-- Reads the items of an array after the tag as the fields of a kind. -/
def ofItems (kind : String) (items : List Json) : Shaped TaskView := do
  let names := fieldNames kind
  let fields ← (names.zip items).foldlM (fun f m => f.take kind m) {}
  if items.length < names.length then
    .error (.wrongLength items.length
      ("struct variant TaskDescription::" ++ kindLabel kind ++ " with " ++ elements names.length))
  else if names.length < items.length then
    .error (.wrongLength items.length (elements names.length ++ " in sequence"))
  else ofFields kind fields

/-- Reads the JSON form. An array gives the tag first and then the fields in order. -/
def ofJson : Json → Shaped TaskView
  | .object members => do
    let tag ← Json.required "type" (members.lookup "type")
    let kind ← kindOf tag
    let fields ← members.foldlM (fun f m => f.take kind m) {}
    ofFields kind fields
  | .array [] => .error (.missing "type")
  | .array (tag :: items) => do
    let kind ← kindOf tag
    ofItems kind items
  | found => .error (.wrongType found "internally tagged enum TaskDescription")

end TaskView

end Almanac
