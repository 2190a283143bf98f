import Almanac.Plan
import Almanac.Task.Basic

/-!
# Entries

An entry binds a task to the time of its next fire and a period. Its id is 0 until it is
registered, and its handle names the run of an alarm that drives it. Both ways to give an
entry its time and period, `Entry.new` and `Entry.replan`, check them first.
-/

namespace Almanac

/-- A task with its policy and its identity. -/
structure Entry where
  id : Nat := 0
  task : Task
  due : Instant
  period : Span
  handle : Option Nat := none

/-- What clients see of an entry. -/
structure EntryView where
  id : Nat
  due : Instant
  period : String
  handle : Option Nat
  task : TaskView
  deriving DecidableEq, Repr

namespace Entry

/-- The time and the period of an admissible plan. -/
def policyOf (plan : Plan) (now : Instant) : Except PlanError (Instant × Span) := do
  let due ← firstFire plan.first now
  checkPeriod plan.period
  .ok (due, plan.period)

/-- An entry that is not registered yet. -/
def new (task : Task) (plan : Plan) (now : Instant) : Except PlanError Entry := do
  let (due, period) ← policyOf plan now
  .ok { task, due, period }

def replan (e : Entry) (plan : Plan) (now : Instant) : Except PlanError Entry := do
  let (due, period) ← policyOf plan now
  .ok { e with due, period }

def isRecurring (e : Entry) : Bool := !e.period.isZero

def view (e : Entry) : EntryView :=
  ⟨e.id, e.due, e.period.words, e.handle, e.task.view⟩

/-- Holds of entries that agree in all but the inner workings of their tasks. -/
def agrees (a b : Entry) : Bool :=
  a.id == b.id && a.due == b.due && a.period == b.period && a.handle == b.handle &&
    a.task.view == b.task.view

def inspect (e : Entry) : String :=
  let handle := match e.handle with
    | some h => s!"Some(EntryHandle({h}))"
    | none => "None"
  s!"ScheduleEntry \x7b id: EntryId({e.id}), task: " ++ e.task.view.inspect ++
    ", next_fire_time: " ++ e.due.iso ++ ", frequency: " ++ e.period.brief ++
    ", entry_handle: " ++ handle ++ " \x7d"

end Entry

namespace EntryView

def json (v : EntryView) : Json :=
  Json.ofMembers
    [("id", .nat v.id), ("next_fire_time", .string v.due.iso), ("frequency", .string v.period),
      ("entry_handle", Json.ofOption Json.nat v.handle), ("task", v.task.json)]

structure Fields where
  id : Option Nat := none
  due : Option Instant := none
  period : Option String := none
  handle : Option Nat := none
  task : Option TaskView := none

/-- Takes up one member; unknown ones are passed over. -/
def Fields.take (f : Fields) : String × Json → Shaped Fields
  | ("id", v) => do
    let id ← v.asWord 32
    pure { f with id := some id }
  | ("next_fire_time", v) => do
    let due ← v.asInstant
    pure { f with due := some due }
  | ("frequency", v) => do
    let period ← v.asString
    pure { f with period := some period }
  | ("entry_handle", v) => do
    let handle ← v.asOptional (Json.asWord 64)
    pure { f with handle }
  | ("task", v) => do
    let task ← TaskView.ofJson v
    pure { f with task := some task }
  | _ => pure f

/-- The description of some fields. Only the handle may be missing. -/
def ofFields (f : Fields) : Shaped EntryView := do
  let id ← Json.required "id" f.id
  let due ← Json.required "next_fire_time" f.due
  let period ← Json.required "frequency" f.period
  let task ← Json.required "task" f.task
  pure ⟨id, due, period, f.handle, task⟩

def fieldNames : List String := ["id", "next_fire_time", "frequency", "entry_handle", "task"]

/-- Reads the JSON form: an object, or an array of all fields. -/
def ofJson : Json → Shaped EntryView
  | .object members => do
    let fields ← members.foldlM Fields.take {}
    ofFields fields
  | .array items => do
    let fields ← (fieldNames.zip items).foldlM Fields.take {}
    if items.length < fieldNames.length then
      .error (.wrongLength items.length "struct EntryDescription with 5 elements")
    else if fieldNames.length < items.length then
      .error (.wrongLength items.length "fewer elements in array")
    else ofFields fields
  | found => .error (.wrongType found "struct EntryDescription")

end EntryView

end Almanac
