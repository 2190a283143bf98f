import Almanac.Json.Shape
import Almanac.Plan

/-!
# Plans in JSON

The fields of a plan as a client sends them, and as they are shown again.
-/

namespace Almanac

namespace PlanRequest

/-- Takes up one member; unknown ones are passed over. -/
def take (r : PlanRequest) : String × Json → Shaped PlanRequest
  | ("next_fire_time", v) => do
    let first ← v.asOptional Json.asInstant
    pure { r with first }
  | ("frequency", v) => do
    let period ← v.asOptional Json.asString
    pure { r with period }
  | ("schedule", v) => do
    let expression ← v.asOptional Json.asString
    pure { r with expression }
  | _ => pure r

def fieldNames : List String := ["next_fire_time", "frequency", "schedule"]

/-- Reads the JSON form: an object, or an array that may end early. -/
def ofJson : Json → Shaped PlanRequest
  | .object members => members.foldlM take {}
  | .array items => do
    let request ← (fieldNames.zip items).foldlM take {}
    if fieldNames.length < items.length then
      .error (.wrongLength items.length "fewer elements in array")
    else pure request
  | found => .error (.wrongType found "struct ScheduleSpec")

def json (r : PlanRequest) : Json :=
  let given (name : String) (value : Option String) : List (String × Json) :=
    match value with
    | some s => [(name, .string s)]
    | none => []
  Json.ofMembers (given "next_fire_time" (r.first.map Instant.iso) ++ given "frequency" r.period ++
    given "schedule" r.expression)

end PlanRequest

end Almanac
