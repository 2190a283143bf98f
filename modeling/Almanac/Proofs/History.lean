import Almanac.Timetable.Poll
import Almanac.Timetable.Service

/-!
# Histories

A history is a list of acts, in any order: requests to the timetable, commands given to an
alarm directly, milliseconds that pass, and polls. Nothing obliges a poll to come as soon as
its timer, so a history may leave any vigil or watcher lying for as long as it likes.
-/

namespace Almanac

/-- One thing that happens to a timetable. -/
inductive Act where
  | pass (millis : Nat)
  | shiftClock (millis : Int)
  | poll (vigil : Nat)
  | pollWatcher (watcher : Nat)
  | create (task : Task) (plan : Plan)
  | update (id : Nat) (plan : Plan)
  | remove (id : Nat)
  | shutdown
  | list
  | get (id : Nat)
  | setUp (entry : Entry)
  | start (alarm : Nat)
  | cancel (alarm : Nat)
  | replan (alarm : Nat) (plan : Plan)

/-- Holds of the commands that go straight to an alarm. -/
def Act.isDirect : Act → Bool
  | setUp _ => true
  | start _ => true
  | cancel _ => true
  | replan _ _ => true
  | _ => false

/-- Holds of the requests that set out vigils. -/
def Act.isScheduling : Act → Bool
  | create _ _ => true
  | update _ _ => true
  | _ => false

def Act.isPoll : Act → Bool
  | poll _ => true
  | pollWatcher _ => true
  | _ => false

/-- Holds of what happens by itself: of polls, and of milliseconds that pass. -/
def Act.isSpontaneous : Act → Bool
  | pass _ => true
  | poll _ => true
  | pollWatcher _ => true
  | _ => false

theorem Act.isSpontaneous_of_isPoll {act : Act} (h : act.isPoll = true) :
    act.isSpontaneous = true := by
  cases act with
  | poll vigil => rfl
  | pollWatcher watcher => rfl
  | _ => cases h

namespace Timetable

/-- The timetable after an act. What is refused may still leave its traces. -/
def act (t : Timetable) : Act → Timetable
  | .pass millis => { t with elapsed := t.elapsed + millis }
  | .shiftClock millis => t.shiftClock millis
  | .poll vigil => t.poll vigil
  | .pollWatcher watcher => t.pollWatcher watcher
  | .create task plan => (t.create task plan).2
  | .update id plan => (t.update id plan).2
  | .remove id => (t.remove id).2
  | .shutdown => t.shutdown.2
  | .list => t
  | .get _ => t
  | .setUp entry => (t.addAlarm entry).2
  | .start alarm =>
    match t.startAlarm alarm with
    | .ok (_, t) => t
    | .error _ => t
  | .cancel alarm =>
    match t.cancelAlarm alarm with
    | .ok t => t
    | .error _ => t
  | .replan alarm plan =>
    match t.replanAlarm alarm plan with
    | .ok t => t
    | .error _ => t

def run (t : Timetable) (acts : List Act) : Timetable :=
  acts.foldl act t

/-- A timetable with no entries and no alarms. -/
def opening (start : Instant) (source : IdSource) (replies : List RestartReply) : Timetable :=
  { start, roster := { source }, replies }

@[simp] theorem run_nil (t : Timetable) : t.run [] = t := rfl

@[simp] theorem run_cons (t : Timetable) (act : Act) (acts : List Act) :
    t.run (act :: acts) = (t.act act).run acts := rfl

theorem run_append (t : Timetable) (first later : List Act) :
    t.run (first ++ later) = (t.run first).run later :=
  List.foldl_append

end Timetable

end Almanac
