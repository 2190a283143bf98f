import Almanac.Text.Numeral

/-!
# The command line

Three options with a value, `--config`, `--bind` and `--port`, and two that ask for a text,
`--help` and `--version`. An option's value is the next argument, or stands behind an equals
sign. A value in the next argument is looked at only when the argument after it turns out
to be an option, or there is none: an argument that is not known is reported first.
-/

namespace Almanac

/-- An option that has a value. -/
inductive CommandOption where
  | config
  | bind
  | port
  deriving DecidableEq, Repr

def CommandOption.label : CommandOption → String
  | config => "--config <CONFIG>"
  | bind => "--bind <BIND>"
  | port => "--port <PORT>"

def CommandOption.ofName? : String → Option CommandOption
  | "config" => some config
  | "bind" => some bind
  | "port" => some port
  | _ => none

/-- What the options set. -/
structure Flags where
  config : Option String := none
  bind : Option String := none
  port : Option Nat := none
  deriving DecidableEq, Repr

inductive UsageError where
  | unexpected (argument : String)
  | missingValue (option : CommandOption)
  | repeated (option : CommandOption)
  /-- An option that has no value is given one. -/
  | surplusValue (option value : String)
  | invalidValue (option : CommandOption) (value reason : String)
  deriving DecidableEq, Repr

def UsageError.message : UsageError → String
  | unexpected argument => s!"unexpected argument '{argument}' found"
  | missingValue option => s!"a value is required for '{option.label}' but none was supplied"
  | repeated option => s!"the argument '{option.label}' cannot be used multiple times"
  | surplusValue option value =>
    s!"unexpected value '{value}' for '{option}' found; no more were expected"
  | invalidValue option value reason =>
    s!"invalid value '{value}' for '{option.label}': " ++ reason

/-- What the program is asked to do. -/
inductive Command where
  | serve (flags : Flags)
  | help
  | version
  deriving DecidableEq, Repr

namespace Flags

def has (f : Flags) : CommandOption → Bool
  | .config => f.config.isSome
  | .bind => f.bind.isSome
  | .port => f.port.isSome

def portOf (value : String) : Except UsageError Nat :=
  match Text.integerNumeral value.toList with
  | .error e => .error (.invalidValue .port value e.message)
  | .ok n =>
    if 0 ≤ n ∧ n ≤ 65535 then .ok n.toNat
    else
      .error (.invalidValue .port value
        (String.ofList (Text.signedDecimal n) ++ " is not in 0..=65535"))

/-- Sets an option, at most once. -/
def set (f : Flags) (option : CommandOption) (value : String) : Except UsageError Flags :=
  if f.has option then .error (.repeated option)
  else
    match option with
    | .config => .ok { f with config := some value }
    | .bind => .ok { f with bind := some value }
    | .port => (portOf value).map fun port => { f with port := some port }

end Flags

/-- The option that the arguments have last come to. -/
inductive Pending where
  | none
  /-- Its value has not come yet. -/
  | awaiting (option : CommandOption)
  /-- Its value has come and is not looked at yet. -/
  | given (option : CommandOption) (value : String)
  deriving DecidableEq, Repr

namespace Command

def settle (flags : Flags) : Pending → Except UsageError Flags
  | .none => .ok flags
  | .awaiting option => .error (.missingValue option)
  | .given option value => flags.set option value

/-- The name of an option with two dashes, and the value that stands behind an equals sign. -/
def long? (argument : String) : Option (String × Option String) :=
  match argument.toList with
  | '-' :: '-' :: rest =>
    let name := rest.takeWhile (· != '=')
    match rest.drop name.length with
    | [] => some (String.ofList name, none)
    | _ :: value => some (String.ofList name, some (String.ofList value))
  | _ => none

def letter? (argument : String) : Option Char :=
  match argument.toList with
  | '-' :: c :: _ => if c = '-' then none else some c
  | _ => none

/-- A command that asks for a text, once what is pending is settled. -/
def asks (flags : Flags) (pending : Pending) (c : Command) : Except UsageError Command :=
  (settle flags pending).map fun _ => c

def ofName? : String → Option Command
  | "help" => some help
  | "version" => some version
  | _ => none

def ofLetter? : Char → Option Command
  | 'h' => some help
  | 'V' => some version
  | _ => none

/-- Reads arguments one after the other. After two dashes nothing is expected any more. -/
def read (flags : Flags) (pending : Pending) : List String → Except UsageError Command
  | [] => (settle flags pending).map serve
  | "--" :: rest =>
    match rest with
    | [] => (settle flags pending).map serve
    | argument :: _ => .error (.unexpected argument)
  | argument :: rest =>
    match long? argument with
    | some (name, value) =>
      match CommandOption.ofName? name, value with
      | some option, some value => do
        let flags ← settle flags pending
        let flags ← flags.set option value
        read flags .none rest
      | some option, none => do
        let flags ← settle flags pending
        read flags (.awaiting option) rest
      | none, value =>
        match ofName? name, value with
        | some _, some value => .error (.surplusValue ("--" ++ name) value)
        | some c, none => asks flags pending c
        | none, _ => .error (.unexpected ("--" ++ name))
    | none =>
      match letter? argument, pending with
      | some letter, pending =>
        match ofLetter? letter with
        | some c => asks flags pending c
        | none => .error (.unexpected (String.ofList ['-', letter]))
      | none, .awaiting option => read flags (.given option argument) rest
      | none, _ => .error (.unexpected argument)

def ofArguments (arguments : List String) : Except UsageError Command :=
  read {} .none arguments

end Command

example : Command.ofArguments ["--port", "80"] = .ok (.serve { port := some 80 }) := rfl
example : Command.ofArguments ["--port=80", "-V"] = .ok .version := rfl
example : Command.ofArguments ["--port", "x", "-h"] =
    .error (.invalidValue .port "x" "invalid digit found in string") := rfl
example : Command.ofArguments ["--port", "x", "--no"] = .error (.unexpected "--no") := rfl

end Almanac
