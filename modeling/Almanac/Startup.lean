import Almanac.CommandLine
import Almanac.Net.Address
import Almanac.Settings.Load
import Almanac.Timetable.Service
import Almanac.Url.Letters
import Almanac.Url.Reader
import Almanac.Web.Router

/-!
# Starting up

What the program does with its arguments and its surroundings: show a text, refuse the
arguments, or settle on an address to listen at. The settings come from the file and the
environment, or are the defaults if those cannot be read, and the options override them.
-/

namespace Almanac

/-- The variable that names the file where no option does. -/
def configVariable : String := "PRODDA_CONFIG"

def helpText (env : List (String × String)) : String :=
  "\n".intercalate
    ["Recurring task scheduler",
      "",
      "Usage: prodda [OPTIONS]",
      "",
      "Options:",
      "      --config <CONFIG>  Path to prodda.toml [env: PRODDA_CONFIG=" ++
        (env.lookup configVariable).getD "" ++ "]",
      "      --bind <BIND>      Address to bind, overriding the config file",
      "      --port <PORT>      Port to listen on, overriding the config file",
      "  -h, --help             Print help",
      "  -V, --version          Print version"]

def versionText : String := "prodda " ++ Web.version

namespace Flags

def path (f : Flags) (env : List (String × String)) : String :=
  (f.config <|> env.lookup configVariable).getD Settings.defaultFile

def override (f : Flags) (s : Settings) : Settings :=
  { s with server :=
    { bind := f.bind.getD s.server.bind, port := f.port.getD s.server.port } }

end Flags

/-- Where starting up leads. -/
inductive Startup where
  | shown (text : String)
  | misused (cause : UsageError)
  /-- The address is not one to listen at. -/
  | unaddressed (log : List LogLine)
  | listening (settings : Settings) (address : SocketAddress) (log : List LogLine)
  deriving Repr

namespace Startup

/-- The settings that were loaded, or the defaults and a warning. -/
def settled (loaded : Except SettingsError Settings) : Settings × List LogLine :=
  match loaded with
  | .ok s => (s, [])
  | .error e => ({}, [⟨.warning, "Config load failed (" ++ e.message ++ "), using defaults", none⟩])

/-- A warning if anyone may ask for entries. -/
def openLines (s : Settings) : List LogLine :=
  if s.credentials.isSome then []
  else [⟨.warning, "no basic auth credentials configured; task API is unauthenticated", none⟩]

def serve (flags : Flags) (loaded : Except SettingsError Settings) : Startup :=
  let (settings, warnings) := settled loaded
  let settings := flags.override settings
  let log := warnings ++ openLines settings
  match SocketAddress.ofText? settings.listenAddress.toList with
  | none => unaddressed log
  | some address =>
    listening settings address (log ++ [⟨.info, "Prodda listening on " ++ address.text, none⟩])

/-- Starts up with some arguments. `file` gives the name and the text of the file at a path, if
there is one. -/
def ofArguments (arguments : List String) (env : List (String × String))
    (file : String → Option (String × String)) : Startup :=
  match Command.ofArguments arguments with
  | .error e => misused e
  | .ok .help => shown (helpText env)
  | .ok .version => shown versionText
  | .ok (.serve flags) => serve flags (Settings.load (file (flags.path env)) env)

def log : Startup → List LogLine
  | shown _ => []
  | misused _ => []
  | unaddressed log => log
  | listening _ _ log => log

def complaint? : Startup → Option String
  | shown _ => none
  | misused cause => some ("error: " ++ cause.message)
  | unaddressed _ => some "Error: invalid socket address syntax"
  | listening _ _ _ => none

def exitCode : Startup → Nat
  | shown _ => 0
  | misused _ => 2
  | unaddressed _ => 1
  | listening _ _ _ => 0

end Startup

def closingLines (t : Timetable) : List LogLine :=
  [⟨.info, "Received shutdown signal", none⟩,
    ⟨.info, s!"schedule service shut down cancelled={t.shutdown.1}", none⟩]

example : (Startup.ofArguments ["--no"] [] fun _ => none).exitCode = 2 := by decide +kernel
example : (Startup.ofArguments ["--bind", "a"] [] fun _ => none).exitCode = 1 := by decide +kernel

end Almanac
