import Std.Time.DateTime.Timestamp
import Almanac.Startup
import Almanac.Timetable.Settle

/-!
# The program

Starts up, reports, and answers requests until there are no more. Requests come in line by
line: a method, a path, and what follows them is the body.
-/

namespace Almanac

def environment : IO (List (String × String)) := do
  try
    let bytes ← IO.FS.readBinFile "/proc/self/environ"
    let listed := ((String.fromUTF8? bytes).getD "").splitOn "\x00"
    pure <| listed.filterMap fun line =>
      match line.splitOn "=" with
      | name :: first :: rest => some (name, "=".intercalate (first :: rest))
      | _ => none
  catch _ => pure []

def textOf? (path : String) : IO (Option String) := do
  try
    let text ← IO.FS.readFile path
    pure (some text)
  catch _ => pure none

def pathFor (arguments : List String) (env : List (String × String)) : String :=
  match Command.ofArguments arguments with
  | .ok (.serve flags) => flags.path env
  | _ => Settings.defaultFile

def systemNow : IO Instant := do
  let nanos := (← Std.Time.Timestamp.now).toNanosecondsSinceUnixEpoch.toInt
  pure ((Instant.epoch.move? nanos).getD Instant.epoch)

def report (lines : List LogLine) : IO Unit :=
  for line in lines do
    IO.println line.message

def requestOf (line : String) : Web.Request :=
  match line.trimAscii.toString.splitOn " " with
  | method :: path :: body =>
    { method, path, body := (" ".intercalate body).toUTF8.toList }
  | _ => { method := "GET", path := line }

def contentText : Web.Content → String
  | .empty => ""
  | .text s => s
  | .json v => v.compact

/-- The lines that were logged since the journal was last emptied. -/
def loggedIn (t : Timetable) : List LogLine :=
  t.journal.reverse.filterMap fun
    | .logged line => some line
    | _ => none

/-- Answers requests until the input ends, and tells the timetable by a clock of milliseconds
how much time has passed. -/
partial def answerAll (credentials : Option (String × String)) (since : Nat) (t : Timetable) :
    IO Timetable := do
  let line ← (← IO.getStdin).getLine
  if line.isEmpty then return t
  let elapsed := (← IO.monoMsNow) - since
  let t := t.advance (elapsed - t.elapsed)
  let (response, t) := Web.handle credentials t (requestOf line)
  let t := t.settle
  IO.println (toString response.status ++ " " ++ contentText response.content)
  report (loggedIn t)
  answerAll credentials since { t with journal := [] }

end Almanac

open Almanac in
def main (arguments : List String) : IO UInt32 := do
  let env ← environment
  let path := pathFor arguments env
  let text ← textOf? path
  let startup := Startup.ofArguments arguments env fun path =>
    text.map fun text => (Settings.plainPath path, text)
  report startup.log
  match startup with
  | .shown text => IO.println text
  | .listening settings _ _ =>
    let source : IdSource := { next := ← IO.rand 1 (2 ^ 31) }
    let opened : Timetable := { start := ← systemNow, roster := { source } }
    let t ← answerAll settings.credentials (← IO.monoMsNow) opened
    report (closingLines t)
  | _ => IO.eprintln (startup.complaint?.getD "")
  return startup.exitCode.toUInt32
