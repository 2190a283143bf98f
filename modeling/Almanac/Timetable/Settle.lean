import Almanac.Timetable.Poll

/-!
# Letting time pass

`Timetable.settle` polls until every vigil and every watcher waits; `Timetable.advance`
goes from timer to timer and settles at each.
-/

namespace Almanac.Timetable

/-- Of two candidates, the one that began its wait earlier; the first of two at once. -/
def earlier (a b : Nat × Vigil) : Nat × Vigil :=
  if b.2.since < a.2.since then b else a

/-- The vigils that a poll would take further, with their numbers. -/
def readyVigils (t : Timetable) : List (Nat × Vigil) :=
  (t.vigils.zipIdx.map fun p => (p.2, p.1)).filter fun p => t.isReady p.2

/-- The ready vigil that has waited longest. -/
def nextVigil? (t : Timetable) : Option Nat :=
  match t.readyVigils with
  | [] => none
  | v :: vs => some (vs.foldl earlier v).1

/-- The first watcher whose vigil is over. -/
def nextWatcher? (t : Timetable) : Option Nat :=
  t.watchers.findIdx? t.isCalled

/-- One poll, of a vigil before a watcher, or none if all wait. -/
def step? (t : Timetable) : Option Timetable :=
  match t.nextVigil? with
  | some number => some (t.poll number)
  | none => t.nextWatcher?.map t.pollWatcher

/-- Polls until all wait, at most so many times. -/
def settleWithin : Nat → Timetable → Timetable
  | 0, t => t
  | fuel + 1, t =>
    match t.step? with
    | some t => settleWithin fuel t
    | none => t

/-- Polls until all wait. At one instant a vigil is polled at most twice and a watcher once. -/
def settle (t : Timetable) : Timetable :=
  settleWithin (3 * t.vigils.length + t.watchers.length + 1) t

/-- The timer that a vigil waits for. -/
def timerOf? (v : Vigil) : Option Nat :=
  match v.phase with
  | .waiting timer => some timer
  | .running timer _ => some timer
  | _ => none

def nextTimer? (t : Timetable) : Option Nat :=
  (t.vigils.filterMap timerOf?).min?

/-- Goes from timer to timer up to `limit`. The fuel bounds the number of timers. -/
def advanceTo (limit : Nat) : Nat → Timetable → Timetable
  | 0, t => { t with elapsed := limit }
  | fuel + 1, t =>
    match t.nextTimer? with
    | none => { t with elapsed := limit }
    | some timer =>
      if timer ≤ limit then advanceTo limit fuel ({ t with elapsed := max t.elapsed timer }).settle
      else { t with elapsed := limit }

/-- Lets milliseconds pass, up to and including what is due at their end. -/
def advance (t : Timetable) (millis : Nat) : Timetable :=
  advanceTo (t.elapsed + millis) (millis + 1) t.settle

example :
    let paused : Entry := { task := .pause .zero, due := .epoch, period := .zero }
    let t : Timetable := { start := .epoch, alarms := [Alarm.ofEntry paused] }
    (t.startAlarm 0).toOption.map (fun r => r.2.settle.alarms.map Alarm.status) =
      some [.idle] := by decide +kernel

end Almanac.Timetable
