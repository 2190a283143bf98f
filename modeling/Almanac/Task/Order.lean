import Almanac.Plan
import Almanac.Task.Basic
import Almanac.Url.Basic

/-!
# Ordering tasks

Making a task out of the JSON that a client sends. Only the member `type` and the members
of the kind that it names matter.
-/

namespace Almanac.Task

/-- A restart needs a token and the number of a build. -/
def ofRestart (token : String) (build : Nat) : Except TaskError Task :=
  if token.isEmpty then .error (.missingField "token")
  else if build = 0 then .error (.missingField "build_id")
  else .ok (.restart token build)

/-- A fetch needs an absolute locator. -/
def ofFetch [Locators] (url : String) : Except TaskError Task :=
  if Text.isBlankText url.toList then .error (.missingField "url")
  else
    match Locators.read url with
    | .ok _ => .ok (.fetch url)
    | .error e => .error (.invalidField "url" e.message)

/-- A pause is given in words; without any it has no length. -/
def ofPause (length : Option String) : Attempt TaskError Task :=
  match length with
  | none => .ok (.pause Span.zero)
  | some text =>
    if Text.isBlankText text.toList then .ok (.pause Span.zero)
    else (periodOfText text).mapReason (fun e => .invalidField "sleep_duration" e.message)
      |>.map .pause

def orderedKind (value : Json) : Except TaskError String :=
  match value.member? "type" with
  | none => .error (.missingField "type")
  | some .null => .error (.missingField "type")
  | some (.string kind) => if kind.isEmpty then .error (.missingField "type") else .ok kind
  | some other => .error (.invalidField "type" ("expected a string, got " ++ other.compact))

/-- A member of a shape, or a default where there is none. -/
def field {α : Type} (value : Json) (name : String) (shape : Json → Shaped α) (default : α) :
    Except TaskError α :=
  match value.member? name with
  | none => .ok default
  | some v => (shape v).mapError fun e => .invalidField "body" e.message

/-- Makes the task that a value asks for. -/
def ofJson [Locators] (value : Json) : Attempt TaskError Task := do
  match ← Attempt.ofExcept (orderedKind value) with
  | "travis-re-run" =>
    let build ← Attempt.ofExcept (field value "build_id" (Json.asWord 64) 0)
    let token ← Attempt.ofExcept (field value "token" Json.asString "")
    Attempt.ofExcept (ofRestart token build)
  | "url-get" =>
    let url ← Attempt.ofExcept (field value "url" Json.asString "")
    Attempt.ofExcept (ofFetch url)
  | "no-op" =>
    let length ← Attempt.ofExcept
      (field value "sleep_duration" (Json.asOptional Json.asString) none)
    ofPause length
  | kind => Attempt.refuse (.unknownKind kind)

end Almanac.Task
