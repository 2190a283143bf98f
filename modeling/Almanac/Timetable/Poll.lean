import Almanac.Remote.Fetch
import Almanac.Timetable.Basic

/-!
# What vigils and watchers do

One poll takes a vigil as far as it can go at once: from where it stands to its next wait,
or to its end. Between two polls nothing else moves it.
-/

namespace Almanac

/-- How long a pause takes. One of 2⁶³ seconds or more has no deadline that the clock of the system
can hold, and gets by with thirty years. Two limits of the timers are left out: a deadline also
fails for want of room where the pause is a little shorter and the reading of that clock is added
to it, and deadlines more than about 2⁶⁴ milliseconds away are brought forward to that. -/
def Span.pauseMillis (s : Span) : Nat :=
  if s.seconds < 2 ^ 63 then s.ceilMillis else 30 * 365 * 86400 * 1000

namespace Timetable

def runsOf (t : Timetable) (troupe : Nat) : Nat :=
  (t.runs.lookup troupe).getD 0

def countRun (t : Timetable) (troupe : Nat) : Timetable :=
  { t with runs := (troupe, t.runsOf troupe + 1) :: t.runs.filter fun r => r.1 != troupe }

/-- Writes down the lines of a log that warn. -/
def warn (t : Timetable) (lines : List LogLine) : Timetable :=
  (lines.filter fun l => l.level != .info).foldl (fun t l => t.record (.logged l)) t

/-- Begins the run of a task, and tells how it will go on. Whatever becomes of a request, a
restart and a fetch succeed. -/
def beginRun (t : Timetable) : Task → Turn × Timetable
  | .pause length => ({ sleep := length.pauseMillis }, t)
  | .restart token build =>
    let asked := { t.record (.asked token build t.now) with replies := t.replies.tail }
    match t.replies.head?.getD .accepted with
    | .accepted => ({}, asked)
    | .rejected => ({}, asked.log .warning "build restart rejected")
    | .failed => ({}, asked.log .warning "travis task encountered error")
  | .fetch _ => ({}, t.warn (Remote.fetchLines .unreachable))
  | .rehearse r =>
    let t := t.countRun r.troupe
    let run := t.runsOf r.troupe
    (r.script run, t.record (.ran r.name run t.now))

def finish (t : Timetable) (number : Nat) (v : Vigil) (a : Alarm) (ending : Ending) : Timetable :=
  ((t.setAlarm v.alarm (a.conclude v.generation ending)).setVigil number
    { v with phase := .ended ending }).note (.ended number ending)

/-- Lets a vigil wait until its alarm is due. -/
def await (t : Timetable) (number : Nat) (v : Vigil) (due : Instant) : Timetable :=
  t.setVigil number { v with phase := .waiting (t.timerFor due), since := t.elapsed }

/-- Goes on after a run that has succeeded. -/
def rearm (t : Timetable) (number : Nat) (v : Vigil) (a : Alarm) : Timetable :=
  if a.isRevoked v.token || a.generation != v.generation then t.finish number v a .cancelled
  else if a.period.isZero then t.finish number v a .finished
  else
    match t.now.add? a.period with
    | some due =>
      ((t.setAlarm v.alarm { a with due }).note (.rearmed v.alarm due)).await number v due
    | none =>
      (t.log .warning "next fire time out of range").finish number v a
        (.failed (.failed "next fire time out of range"))

/-- Goes on after the time of a run is over. -/
def endRun (t : Timetable) (number : Nat) (v : Vigil) (a : Alarm) (turn : Turn) : Timetable :=
  let t := t.shiftClock turn.skew
  let t := t.note (.returned number ⟨turn.result, t.now, a.period⟩)
  match turn.result with
  | .lost => t.setVigil number { v with phase := .lost }
  | .failed e => (t.log .failure "task failed; schedule stopped").finish number v a (.failed e)
  | .succeeded => t.rearm number v a

/-- Runs the task of an alarm. A run that takes no time ends at once. -/
def fire (t : Timetable) (number : Nat) (v : Vigil) (a : Alarm) : Timetable :=
  let (turn, t) := (t.note (.began number t.now)).beginRun a.task
  if turn.sleep = 0 then t.endRun number v a turn
  else
    t.setVigil number { v with phase := .running (t.elapsed + turn.sleep) turn, since := t.elapsed }

/-- Fires if the timer has come, unless the token is revoked; else waits for the timer. -/
def fireOrWait (t : Timetable) (number : Nat) (v : Vigil) (a : Alarm) (timer : Nat) : Timetable :=
  if a.isRevoked v.token then t.finish number v a .cancelled
  else if timer ≤ t.elapsed then t.fire number v a
  else t.setVigil number { v with phase := .waiting timer }

/-- Takes a vigil as far as it can go at once. -/
def poll (t : Timetable) (number : Nat) : Timetable :=
  match t.vigils[number]? with
  | none => t
  | some v =>
    match t.alarms[v.alarm]? with
    | none => t
    | some a =>
      match v.phase with
      | .setOut => t.fireOrWait number v a (t.timerFor a.due)
      | .waiting timer => t.fireOrWait number v a timer
      | .running timer turn => if timer ≤ t.elapsed then t.endRun number v a turn else t
      | .ended _ => t
      | .lost => t

/-- Holds of the vigils that a poll would take further. -/
def isReady (t : Timetable) (v : Vigil) : Bool :=
  match v.phase with
  | .setOut => true
  | .waiting timer =>
    timer ≤ t.elapsed || (t.alarms[v.alarm]?.map fun a => a.isRevoked v.token).getD false
  | .running timer _ => timer ≤ t.elapsed
  | .ended _ => false
  | .lost => false

/-- Takes the handle of an ended vigil from its entry. -/
def releaseHandle (t : Timetable) (entry handle : Nat) : Timetable :=
  match t.roster.release entry handle with
  | .ok (_, roster) => { t with roster }
  | .error _ => t.log .failure "failed to release entry handle"

/-- Lets a watcher look at its vigil. A vigil that was cancelled or lost keeps its handle. -/
def pollWatcher (t : Timetable) (number : Nat) : Timetable :=
  match t.watchers[number]? with
  | none => t
  | some w =>
    if w.isDone then t
    else
      let done := { t with watchers := t.watchers.set number { w with isDone := true } }
      match t.vigils[w.vigil]?.map Vigil.phase with
      | some (.ended .finished) => done.releaseHandle w.entry w.handle
      | some (.ended (.failed _)) =>
        (done.log .failure "entry failed").releaseHandle w.entry w.handle
      | some (.ended .cancelled) => done
      | some .lost => done
      | _ => t

/-- Holds of the watchers whose vigil is over. -/
def isCalled (t : Timetable) (w : Watcher) : Bool :=
  !w.isDone &&
    match t.vigils[w.vigil]?.map Vigil.phase with
    | some (.ended _) => true
    | some .lost => true
    | _ => false

end Timetable

end Almanac
