import Almanac.Remote.Restart
import Almanac.Timetable.Poll

/-!
# How runs are conducted

The run of a task as a tree: it logs lines, pauses, and calls the build service or the server of a
locator, whose answer decides how it goes on. Nothing is assumed of the answers, nor of how long
they take.
-/

namespace Almanac

open Remote (RestartAnswer RestartError Reply replyLines)

/-- A call for an answer. -/
inductive Call where
  | restart (token : String) (build : Nat)
  | fetch (url : String)
  deriving DecidableEq, Repr

/-- What a run does until it comes back. -/
inductive Conduct where
  | back (result : RunResult)
  | log (line : LogLine) (next : Conduct)
  | pause (length : Span) (next : Conduct)
  | restart (token : String) (build : Nat) (next : Except RestartError RestartAnswer → Conduct)
  | fetch (url : String) (next : Reply → Conduct)

def outcomeLine : Except RestartError RestartAnswer → LogLine
  | .ok answer =>
    if answer.accepted then ⟨.info, "build restart accepted", none⟩
    else ⟨.warning, "build restart rejected", none⟩
  | .error _ => ⟨.warning, "travis task encountered error", none⟩

/-- What a run of a task does, unless it goes by a script. -/
def Task.conduct? : Task → Option Conduct
  | restart token build => some <|
    .log ⟨.info, "travis task started", none⟩ <| .restart token build fun outcome =>
      .log (outcomeLine outcome) <| .log ⟨.info, "travis task completed", none⟩ <| .back .succeeded
  | fetch url => some <|
    .log ⟨.info, "url-get task started", none⟩ <| .fetch url fun reply =>
      (replyLines reply).foldr .log <|
        .log ⟨.info, "url-get task completed", none⟩ <| .back .succeeded
  | pause length => some <|
    .log ⟨.info, "no-op task started", none⟩ <| .pause length <|
      .log ⟨.info, "no-op task completed", none⟩ <| .back .succeeded
  | rehearse _ => none

/-- How the others behave when they are called: what they answer, how many milliseconds that takes,
and by how many someone moves the clock meanwhile. -/
structure Behaviour where
  restart : Except RestartError RestartAnswer := .ok {}
  fetch : Reply := .unreachable
  delay : Nat := 0
  skew : Int := 0

/-- What can be noticed of a run. -/
inductive Sign where
  | called (c : Call)
  | logged (line : LogLine)
  deriving DecidableEq, Repr

/-- A run from outside: what was noticed, the earliest first, and how it went on. -/
structure Performance where
  signs : List Sign := []
  turn : Turn := {}
  deriving DecidableEq, Repr

namespace Performance

/-- With something to notice before. -/
def after (p : Performance) (s : Sign) : Performance := { p with signs := s :: p.signs }

/-- With time before, in which the clock is moved. -/
def delayed (p : Performance) (millis : Nat) (skew : Int) : Performance :=
  { p with turn := { p.turn with sleep := millis + p.turn.sleep, skew := skew + p.turn.skew } }

def calls (p : Performance) : List Call :=
  p.signs.filterMap fun
    | .called c => some c
    | .logged _ => none

end Performance

/-- The run among others who behave so, call by call. -/
def Conduct.perform : Conduct → (Nat → Behaviour) → Performance
  | back result, _ => { turn := { result } }
  | log line next, others => (next.perform others).after (.logged line)
  | pause length next, others => (next.perform others).delayed length.pauseMillis 0
  | restart token build next, others =>
    let b := others 0
    (((next b.restart).perform fun n => others (n + 1)).delayed b.delay b.skew).after
      (.called (.restart token build))
  | fetch url next, others =>
    let b := others 0
    (((next b.fetch).perform fun n => others (n + 1)).delayed b.delay b.skew).after
      (.called (.fetch url))

namespace Timetable

/-- What is written down of a sign: calls to the build service, and lines that warn. -/
def happening? (t : Timetable) : Sign → Option Happening
  | .called (.restart token build) => some (.asked token build t.now)
  | .called (.fetch _) => none
  | .logged line => if line.level != .info then some (.logged line) else none

/-- Begins the run of a task among others who behave so. -/
def beginAmong (t : Timetable) (others : Nat → Behaviour) (task : Task) : Turn × Timetable :=
  match task.conduct? with
  | none => t.beginRun task
  | some conduct =>
    let p := conduct.perform others
    (p.turn, { t with journal := (p.signs.filterMap t.happening?).reverse ++ t.journal })

end Timetable

end Almanac
