import Almanac.Timetable.Basic

/-!
# Keeping entries

Creating, reading, changing and removing entries. The roster says what there is, and the
posts say which alarm drives what. An entry is taken out only after its alarm is stopped.
-/

namespace Almanac

inductive TimetableError where
  | task (cause : TaskError)
  | plan (cause : PlanError)
  | roster (cause : RosterError)
  | alarm (cause : AlarmError)
  deriving DecidableEq, Repr

namespace TimetableError

def message : TimetableError → String
  | task cause => cause.message
  | plan cause => cause.message
  | roster cause => cause.message
  | alarm cause => cause.message

def code : TimetableError → String
  | task (.unknownKind _) => "UNRECOGNIZED_TASK_TYPE"
  | task (.failed _) => "TASK_FAILED"
  | task _ => "INVALID_TASK"
  | plan _ => "INVALID_SCHEDULE"
  | alarm (.plan _) => "INVALID_SCHEDULE"
  | roster (.notFound _) => "NOT_FOUND"
  | roster (.alreadyAdded _) => "ID_ALREADY_ASSIGNED"
  | roster .spoiled => "REGISTRY_UNAVAILABLE"
  | alarm .notRunning => "NOT_RUNNING"
  | alarm .alreadyRunning => "ALREADY_RUNNING"

def isNotFound : TimetableError → Bool
  | roster (.notFound _) => true
  | _ => false

end TimetableError

namespace Timetable

/-- The number of the alarm that drives the entry of an id. -/
def post? (t : Timetable) (id : Nat) : Option Nat := t.posts.lookup id

/-- The alarm that drives the entry of an id. -/
def alarmOf? (t : Timetable) (id : Nat) : Option Alarm :=
  (t.post? id).bind fun number => t.alarms[number]?

/-- What clients see of an entry: the time is that of its alarm, if it has one. -/
def viewOf (t : Timetable) (e : Entry) : EntryView :=
  match t.alarmOf? e.id with
  | some a => { e.view with due := a.due }
  | none => e.view

/-- Takes the post of an id away and stops its alarm. -/
def discard (t : Timetable) (id : Nat) : Timetable :=
  match t.post? id with
  | none => t
  | some number =>
    let t := { t with posts := t.posts.filter fun p => p.1 != id }
    match t.cancelAlarm number with
    | .ok t => t
    | .error _ => t

/-- Gives an id its post. An alarm that had it is stopped. -/
def assign (t : Timetable) (id number : Nat) : Timetable :=
  let others := t.posts.filter fun p => p.1 != id
  let assigned : Timetable := { t with posts := others ++ [(id, number)] }
  match (t.post? id).map assigned.cancelAlarm with
  | some (.ok stopped) => stopped.log .warning "replaced a running engine"
  | _ => assigned

def mintHandle (t : Timetable) : Nat × Timetable :=
  (t.nextHandle, { t with nextHandle := t.nextHandle + 1 })

def watch (t : Timetable) (entry handle vigil : Nat) : Timetable :=
  { t with watchers := t.watchers ++ [{ entry, handle, vigil }] }

/-- Adds an entry to the roster, with a warning if its id was long to find. -/
def enroll (t : Timetable) (e : Entry) : Attempt RosterError Entry × Timetable :=
  let added := t.roster.add e
  let t := { t with roster := added.roster }
  (added.outcome,
    if Roster.longStreak ≤ added.rejected then
      t.log .warning "implausibly long entry id collision streak"
    else t)

/-- Starts the alarm of an entry that is in the roster, under a new handle. `withdraw` cleans up
where the alarm does not start, and `undo` where the entry is gone by then. -/
def launch (t : Timetable) (entry : Entry) (number : Nat)
    (withdraw : Timetable → Except RosterError Timetable) (undo publish : Timetable → Timetable) :
    Attempt TimetableError EntryView × Timetable :=
  match t.startAlarm number with
  | .error e =>
    match withdraw t with
    | .ok t => (Attempt.refuse (.alarm e), t)
    | .error fault => (Attempt.refuse (.roster fault), t)
  | .ok (vigil, t) =>
    let (handle, t) := t.mintHandle
    match t.roster.update { entry with handle := some handle } with
    | .error e => (Attempt.refuse (.roster e), undo t)
    | .ok (stored, roster) =>
      let t := (publish { t with roster }).watch stored.id handle vigil
      (.ok (t.viewOf stored), t)

/-- Adds an entry and starts its alarm. -/
def create (t : Timetable) (task : Task) (plan : Plan) :
    Attempt TimetableError EntryView × Timetable :=
  match Entry.new task plan t.now with
  | .error e => (Attempt.refuse (.plan e), t)
  | .ok entry =>
    match t.enroll entry with
    | (.error .brokenOff, t) => (Attempt.breakOff, t)
    | (.error (.refused e), t) => (Attempt.refuse (.roster e), t)
    | (.ok entry, t) =>
      let (number, t) := t.addAlarm entry
      t.launch entry number
        (fun t => (t.roster.remove entry.id).map fun roster => { t with roster })
        (fun t =>
          (match t.cancelAlarm number with
            | .ok t => t
            | .error _ => t).log .warning "entry vanished while scheduling")
        (fun t => t.assign entry.id number)

def list (t : Timetable) : Except TimetableError (List EntryView) :=
  match t.roster.all with
  | .ok entries => .ok (entries.map t.viewOf)
  | .error e => .error (.roster e)

def entryOf (t : Timetable) (id : Nat) : Except TimetableError Entry :=
  match t.roster.byId id with
  | .error e => .error (.roster e)
  | .ok none => .error (.roster (.notFound id))
  | .ok (some entry) => .ok entry

def get (t : Timetable) (id : Nat) : Except TimetableError EntryView :=
  (t.entryOf id).map t.viewOf

/-- Gives an entry another plan and starts its alarm anew. An alarm whose entry has vanished is
stopped. -/
def update (t : Timetable) (id : Nat) (plan : Plan) :
    Attempt TimetableError EntryView × Timetable :=
  match t.post? id with
  | none => (Attempt.refuse (.roster (.notFound id)), t)
  | some number =>
    match t.entryOf id with
    | .error e => (Attempt.refuse e, if e.isNotFound then t.discard id else t)
    | .ok entry =>
      match t.replanAlarm number plan with
      | .error e => (Attempt.refuse (.alarm e), t)
      | .ok t =>
        let entry :=
          match t.alarms[number]? with
          | some a => { entry with due := a.due, period := a.period }
          | none => entry
        t.launch entry number .ok (fun t => t.discard id) (fun t => t)

/-- Stops the alarm of an entry and takes the entry out. -/
def remove (t : Timetable) (id : Nat) : Except TimetableError Unit × Timetable :=
  match t.roster.byId id with
  | .error e => (.error (.roster e), t)
  | .ok _ =>
    let t := t.discard id
    match t.roster.remove id with
    | .error e => (.error (.roster e), t)
    | .ok roster => (.ok (), { t with roster })

/-- Stops the alarms of some posts, and counts those that were running. -/
def stopAll (t : Timetable) : List (Nat × Nat) → Nat × Timetable
  | [] => (0, t)
  | (_, number) :: posts =>
    match t.cancelAlarm number with
    | .ok t =>
      let (count, t) := stopAll t posts
      (count + 1, t)
    | .error _ => stopAll t posts

/-- Stops every alarm that has a post, and counts those that were running. Entries stay. -/
def shutdown (t : Timetable) : Nat × Timetable := t.stopAll t.posts

/-- The state of the alarm that drives the entry of an id. -/
def statusOf? (t : Timetable) (id : Nat) : Option AlarmStatus :=
  (t.alarmOf? id).map Alarm.status

def size (t : Timetable) : Except TimetableError Nat :=
  t.roster.size.mapError .roster

end Timetable

end Almanac
