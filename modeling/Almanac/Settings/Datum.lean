import Almanac.Number.FloatText
import Almanac.Text.Quoted
import Almanac.Toml.Value

/-!
# Data in layers

What settings are read from: trees of data in which every part knows where it comes from.
Laying one tree over another replaces what both have, except that two tables are laid over
each other member by member.
-/

namespace Almanac

/-- Where a part of the settings comes from. -/
inductive Origin where
  | document
  | file (name : String)
  | environment
  deriving DecidableEq, Repr

def Origin.label : Origin → String
  | document => "TOML source string"
  | file name => name ++ " TOML file"
  | environment => "`PRODDA_` environment variable(s)"

def Origin.pathText (o : Origin) (path : List String) : String :=
  match o with
  | environment => ".".intercalate (path.map fun name => name.map Char.toUpper)
  | _ => ".".intercalate ("default" :: path)

/-- A part that has no parts itself. -/
inductive Scalar where
  | text (s : String)
  | boolean (b : Bool)
  | signed (n : Int)
  | unsigned (n : Nat)
  | float (x : Binary64)
  deriving DecidableEq, Repr

/-- A tree of data. -/
inductive Datum where
  | scalar (origin : Origin) (v : Scalar)
  | list (origin : Origin) (items : List Datum)
  | table (origin : Origin) (members : List (String × Datum))
  deriving Repr

namespace Datum

def origin : Datum → Origin
  | scalar o _ => o
  | list o _ => o
  | table o _ => o

def kindText : Datum → String
  | scalar _ (.text s) => "string " ++ Text.quoted s
  | scalar _ (.boolean b) => s!"bool {b}"
  | scalar _ (.signed n) => "signed int `" ++ String.ofList (Text.signedDecimal n) ++ "`"
  | scalar _ (.unsigned n) => "unsigned int `" ++ String.ofList (Text.decimal n) ++ "`"
  | scalar _ (.float x) => "float `" ++ String.ofList x.plainText ++ "`"
  | list _ _ => "sequence"
  | table _ _ => "map"

/-- Puts a member in the place of the one of the same name, or at the end. -/
def put (name : String) (d : Datum) : List (String × Datum) → List (String × Datum)
  | [] => [(name, d)]
  | (other, old) :: rest =>
    if other = name then (name, d) :: rest else (other, old) :: put name d rest

mutual

def lay (under : Datum) : Datum → Datum
  | table o members =>
    match under with
    | table _ old => table o (layMembers old members)
    | _ => table o members
  | upper => upper

def layMembers (under : List (String × Datum)) : List (String × Datum) → List (String × Datum)
  | [] => under
  | (name, d) :: rest =>
    match under.lookup name with
    | some old => layMembers (put name (lay old d) under) rest
    | none => layMembers (under ++ [(name, d)]) rest

end

def at? : List String → Datum → Option Datum
  | [], d => some d
  | name :: path, table _ members => (members.lookup name).bind (at? path)
  | _ :: _, _ => none

/-- A tree that has only what stands at a path. -/
def nest (o : Origin) (path : List String) (d : Datum) : Datum :=
  path.foldr (fun name d => table o [(name, d)]) d

mutual

/-- The tree of a TOML value. A date stands as a table without a name that settings know. -/
def ofToml (o : Origin) : Toml → Datum
  | .string s => scalar o (.text s)
  | .integer n => scalar o (.signed n)
  | .float x => scalar o (.float x)
  | .boolean b => scalar o (.boolean b)
  | .moment _ => table o []
  | .array items => list o (ofItems o items)
  | .table members => table o (ofMembers o members)

def ofItems (o : Origin) : List Toml → List Datum
  | [] => []
  | v :: vs => ofToml o v :: ofItems o vs

def ofMembers (o : Origin) : List (String × Toml) → List (String × Datum)
  | [] => []
  | (name, v) :: rest => (name, ofToml o v) :: ofMembers o rest

end

end Datum

end Almanac
