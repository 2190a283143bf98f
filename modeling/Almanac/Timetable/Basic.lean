import Almanac.Alarm
import Almanac.Log
import Almanac.Roster

/-!
# The timetable

The state of the scheduler: the clock, the roster of entries, the alarms with the vigils
that they have set out, which alarm drives which entry, and the watchers that wait for
vigils to end.

Timers count milliseconds that only `Timetable.advance` lets pass. The clock shows the
start plus those milliseconds, plus a skew that moves the clock but no timer.
-/

namespace Almanac

/-- What the build service would say to a restart. -/
inductive RestartReply where
  | accepted
  | rejected
  | failed
  deriving DecidableEq, Repr

/-- Where a vigil stands. -/
inductive Phase where
  /-- Set out, and not looked at yet. -/
  | setOut
  /-- Waits for a timer. -/
  | waiting (timer : Nat)
  /-- Its task runs until a timer, and then goes on as the turn says. -/
  | running (timer : Nat) (turn : Turn)
  | ended (ending : Ending)
  /-- Its task never returned. -/
  | lost
  deriving DecidableEq, Repr

/-- What a start of an alarm sets out: it waits, runs the task, and sets the alarm again. -/
structure Vigil where
  alarm : Nat
  token : Nat
  generation : Nat
  /-- When it began what it does now. -/
  since : Nat
  phase : Phase := .setOut
  deriving DecidableEq, Repr

/-- Waits for the end of a vigil, to take the handle from its entry. -/
structure Watcher where
  entry : Nat
  handle : Nat
  vigil : Nat
  isDone : Bool := false
  deriving DecidableEq, Repr

/-- What can be seen from outside while the scheduler works. -/
inductive Happening where
  /-- A rehearsal began its run of this number. -/
  | ran (name : String) (run : Nat) (time : Instant)
  /-- The build service was asked for a restart. -/
  | asked (token : String) (build : Nat) (time : Instant)
  | logged (line : LogLine)
  deriving DecidableEq, Repr

/-- How a run came back: its result, the time then, and the period that the alarm had then. -/
structure Return where
  result : RunResult
  time : Instant
  period : Span
  deriving DecidableEq, Repr

/-- What alarms and vigils do, by their numbers. -/
inductive Deed where
  /-- An alarm was given a policy, and `stopped` tells whether that stopped a vigil. -/
  | planned (alarm : Nat) (stopped : Bool) (due : Instant) (period : Span)
  | started (alarm vigil : Nat)
  | cancelled (alarm : Nat)
  /-- A vigil set out on a run of its task. -/
  | began (vigil : Nat) (time : Instant)
  | returned (vigil : Nat) (result : Return)
  | rearmed (alarm : Nat) (due : Instant)
  | ended (vigil : Nat) (ending : Ending)
  deriving DecidableEq, Repr

/-- The state of the scheduler. -/
structure Timetable where
  start : Instant
  /-- The milliseconds that have passed. -/
  elapsed : Nat := 0
  /-- By how many milliseconds the clock is ahead of the timers. -/
  skew : Int := 0
  roster : Roster := {}
  /-- Every alarm there ever was, by number. -/
  alarms : List Alarm := []
  /-- The number of the alarm that drives the entry of an id. -/
  posts : List (Nat × Nat) := []
  /-- The next handle to give away. -/
  nextHandle : Nat := 1
  /-- Every vigil there ever was, by number. -/
  vigils : List Vigil := []
  watchers : List Watcher := []
  /-- How many runs a troupe has begun. -/
  runs : List (Nat × Nat) := []
  /-- What the build service will say, restart by restart; it accepts what goes beyond. -/
  replies : List RestartReply := []
  /-- What has happened, the latest first. -/
  journal : List Happening := []
  /-- What alarms and vigils have done, the latest first. -/
  annals : List Deed := []

namespace Timetable

def now (t : Timetable) : Instant :=
  (t.start.move? ((t.elapsed + t.skew) * 10 ^ 6)).getD t.start

/-- Moves the clock, but no timer. -/
def shiftClock (t : Timetable) (millis : Int) : Timetable :=
  { t with skew := t.skew + millis }

def record (t : Timetable) (h : Happening) : Timetable :=
  { t with journal := h :: t.journal }

def log (t : Timetable) (level : LogLevel) (text : String) : Timetable :=
  t.record (.logged ⟨level, text, none⟩)

/-- Writes down what an alarm or a vigil has done. -/
def note (t : Timetable) (d : Deed) : Timetable :=
  { t with annals := d :: t.annals }

def setAlarm (t : Timetable) (number : Nat) (a : Alarm) : Timetable :=
  { t with alarms := t.alarms.set number a }

def setVigil (t : Timetable) (number : Nat) (v : Vigil) : Timetable :=
  { t with vigils := t.vigils.set number v }

/-- The timer of a wait until an instant: a started millisecond counts whole, and a time that
has come needs no wait. -/
def timerFor (t : Timetable) (due : Instant) : Nat :=
  t.elapsed + ((t.now.between due).toNat + (10 ^ 6 - 1)) / 10 ^ 6

/-- Sets up an alarm for an entry and tells its number. -/
def addAlarm (t : Timetable) (e : Entry) : Nat × Timetable :=
  let added : Timetable := { t with alarms := t.alarms ++ [Alarm.ofEntry e] }
  (t.alarms.length, added.note (.planned t.alarms.length false e.due e.period))

/-- Starts an alarm and tells the number of the vigil. An alarm that does not exist counts as
not running. -/
def startAlarm (t : Timetable) (number : Nat) : Except AlarmError (Nat × Timetable) :=
  match t.alarms[number]? with
  | none => .error .notRunning
  | some a =>
    match a.start with
    | .error e => .error e
    | .ok a =>
      let vigil : Vigil :=
        { alarm := number, token := a.token, generation := a.generation, since := t.elapsed }
      let started : Timetable := { t.setAlarm number a with vigils := t.vigils ++ [vigil] }
      .ok (t.vigils.length, started.note (.started number t.vigils.length))

def cancelAlarm (t : Timetable) (number : Nat) : Except AlarmError Timetable :=
  match t.alarms[number]? with
  | none => .error .notRunning
  | some a => a.cancel.map fun b => (t.setAlarm number b).note (.cancelled number)

def replanAlarm (t : Timetable) (number : Nat) (plan : Plan) : Except AlarmError Timetable :=
  match t.alarms[number]? with
  | none => .error .notRunning
  | some a =>
    (a.replan plan t.now).map fun b =>
      (t.setAlarm number b).note (.planned number a.isRunning b.due b.period)

end Timetable

end Almanac
