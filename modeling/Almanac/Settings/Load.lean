import Almanac.Settings.Basic
import Almanac.Settings.Variable
import Almanac.Toml.Reader

/-!
# Loading settings

Settings come from a TOML document with the variables of the environment laid over it. What
neither gives keeps its default, and what they give beyond the settings is passed over. The
first value of a wrong kind, in the order of the names, refuses all.
-/

namespace Almanac

inductive Complaint where
  | wrongType (found expected : String)
  | wrongValue (found expected : String)
  | wrongLength (count : Nat) (expected : String)
  deriving DecidableEq, Repr

def Complaint.message : Complaint → String
  | wrongType found expected => "invalid type: found " ++ found ++ ", expected " ++ expected
  | wrongValue found expected => "invalid value " ++ found ++ ", expected " ++ expected
  | wrongLength count expected => s!"invalid length {count}, expected " ++ expected

inductive SettingsError where
  /-- The document is no TOML. -/
  | noToml
  | misfit (complaint : Complaint) (path : List String) (origin : Origin)
  deriving DecidableEq, Repr

def SettingsError.message : SettingsError → String
  | noToml => "Configuration error: TOML parse error"
  | misfit complaint path origin =>
    "Configuration error: " ++ complaint.message ++ " for key " ++
      Text.quoted (origin.pathText path) ++ " in " ++ origin.label

namespace Settings

/-- A setting, or why there is none. -/
abbrev Reading (α : Type) := Except SettingsError α

/-- Refuses what stands at a path for its type. -/
def mistyped {α : Type} (path : List String) (d : Datum) (expected : String) : Reading α :=
  .error (.misfit (.wrongType d.kindText expected) path d.origin)

def asText (path : List String) : Datum → Reading String
  | .scalar _ (.text s) => .ok s
  | d => mistyped path d "a string"

/-- A natural number of so many bits. -/
def asWord (bits : Nat) (path : List String) (d : Datum) : Reading Nat :=
  let within (n : Int) : Reading Nat :=
    if 0 ≤ n ∧ n < 2 ^ bits then .ok n.toNat
    else .error (.misfit (.wrongValue d.kindText s!"u{bits}") path d.origin)
  match d with
  | .scalar _ (.signed n) => within n
  | .scalar _ (.unsigned n) => within n
  | d => mistyped path d s!"u{bits}"

/-- A field of a section: its name, and how the value at a path is taken up. -/
structure Field (α : Type) where
  name : String
  take : List String → Datum → α → Reading α

/-- How a section is read: its name, what messages call it, its fields in the order of a list,
and how many of them a list must have. -/
structure Schema (α : Type) where
  name : String
  label : String
  fields : List (Field α)
  required : Nat := 0

namespace Schema

variable {α : Type}

/-- Takes up a field of a table, if it is there. -/
def takeMember (s : Schema α) (members : List (String × Datum)) (taken : α) (field : Field α) :
    Reading α :=
  match members.lookup field.name with
  | some d => field.take [s.name, field.name] d taken
  | none => .ok taken

/-- Takes up the fields of a table, in the order of their names. -/
def ofMembers (s : Schema α) (start : α) (members : List (String × Datum)) : Reading α :=
  (s.fields.mergeSort fun a b => decide (a.name ≤ b.name)).foldlM (s.takeMember members) start

/-- Takes up the fields that a list gives by their places. -/
def ofItems (s : Schema α) (start : α) (origin : Origin) (items : List Datum) : Reading α := do
  let taken ← (s.fields.zip items).zipIdx.foldlM
    (fun taken p => p.1.1.take [s.name, String.ofList (Text.decimal p.2)] p.1.2 taken)
    start
  if items.length < s.required then
    .error (.misfit
      (.wrongLength items.length s!"{s.label} with {s.fields.length} elements") [s.name] origin)
  else .ok taken

/-- Reads a section, if it is there. -/
def read (s : Schema α) (start : α) : Option Datum → Reading α
  | none => .ok start
  | some (.table _ members) => s.ofMembers start members
  | some (.list origin items) => s.ofItems start origin items
  | some d => mistyped [s.name] d s.label

end Schema

def serverSchema : Schema ServerSettings :=
  { name := "server", label := "struct ServerConfig",
    fields :=
      [⟨"bind", fun path d s => (asText path d).map fun bind => { s with bind }⟩,
        ⟨"port", fun path d s => (asWord 16 path d).map fun port => { s with port }⟩] }

def authSchema : Schema AuthSettings :=
  { name := "auth", label := "struct AuthConfig", required := 2,
    fields :=
      [⟨"username", fun path d s => (asText path d).map fun t => { s with username := some t }⟩,
        ⟨"password", fun path d s => (asText path d).map fun t => { s with password := some t }⟩] }

def travisSchema : Schema TravisSettings :=
  { name := "travis", label := "struct TravisConfig",
    fields :=
      [⟨"base_url", fun path d s => (asText path d).map fun baseUrl => { s with baseUrl }⟩,
        ⟨"timeout_secs", fun path d s =>
          (asWord 64 path d).map fun timeout => { s with timeout }⟩] }

def taskSchema : Schema TaskSettings :=
  { name := "tasks", label := "struct TasksConfig",
    fields :=
      [⟨"url_get_timeout_secs",
        fun path d s => (asWord 64 path d).map fun fetchTimeout => { s with fetchTimeout }⟩] }

def ofDatum (d : Datum) : Reading Settings := do
  let auth ← authSchema.read {} (d.at? ["auth"])
  let server ← serverSchema.read {} (d.at? ["server"])
  let tasks ← taskSchema.read {} (d.at? ["tasks"])
  let travis ← travisSchema.read {} (d.at? ["travis"])
  .ok { server, auth, travis, tasks }

/-- The tree of a document. -/
def layerOf (origin : Origin) (text : String) : Reading Datum :=
  match Toml.ofText? text with
  | some members => .ok (Datum.ofToml origin (.table members))
  | none => .error .noToml

def ofDocument (text : String) : Reading Settings :=
  layerOf .document text >>= ofDatum

/-- Loads settings from a file, if there is one, given by its name and its text, and from the
variables of the environment. -/
def load (file : Option (String × String)) (env : List (String × String)) :
    Reading Settings := do
  let under ← match file with
    | some (name, text) => layerOf (.file name) text
    | none => .ok (Datum.table .environment [])
  ofDatum (under.lay (Variable.layer env))

def defaultFile : String := "prodda.toml"

/-- The name of a file without the steps that stay where they are. -/
def plainPath (path : String) : String :=
  if path.toList.head? = some '/' then path
  else "/".intercalate ((path.splitOn "/").filter fun step => step != "" && step != ".")

end Settings

end Almanac
