import Almanac.Toml.Value

/-!
# Tables under construction

A document may write a table in pieces. What may still be added to a table depends on how
it came about: under a header or in braces, only on the way to a longer header, or through
a key with points.
-/

namespace Almanac.Toml

/-- How a table came about. -/
inductive TableKind where
  /-- Through a header of its own. -/
  | headed
  /-- On the way to a longer header. -/
  | implied
  /-- Through a key with points. -/
  | dotted
  deriving DecidableEq, Repr

/-- A part of a document under construction. -/
inductive Draft where
  | value (v : Toml)
  | table (kind : TableKind) (members : List (String × Draft))
  /-- The tables of repeated headers, the last one first. -/
  | tables (last : List (String × Draft)) (before : List (List (String × Draft)))

namespace Draft

abbrev Members := List (String × Draft)

/-- Puts a member in the place of the one of the same name, or at the end. -/
def put (name : String) (d : Draft) : Members → Members
  | [] => [(name, d)]
  | (other, old) :: rest =>
    if other = name then (name, d) :: rest else (other, old) :: put name d rest

/-- Adds a value under a key with points. It must be new, and the table that receives it must
either be the innermost one, as `isOpen` says, or have come about through such keys. -/
def insert (isOpen : Bool) : List String → Toml → Members → Option Members
  | [], _, _ => none
  | [name], v, members =>
    if isOpen && (members.lookup name).isNone then some (members ++ [(name, value v)]) else none
  | name :: path, v, members =>
    match members.lookup name with
    | none => (insert true path v []).map fun inner => put name (table .dotted inner) members
    | some (table .headed _) => none
    | some (table kind inner) =>
      (insert (kind == .dotted) path v inner).map fun inner => put name (table kind inner) members
    | some (tables last before) =>
      (insert false path v last).map fun last => put name (tables last before) members
    | some (value _) => none

/-- Changes the table at a path, which comes about where there is none. Of repeated tables the
last one is meant. -/
def within (change : Members → Option Members) : List String → Members → Option Members
  | [], members => change members
  | name :: path, members =>
    match members.lookup name with
    | none => (within change path []).map fun inner => put name (table .implied inner) members
    | some (table kind inner) =>
      (within change path inner).map fun inner => put name (table kind inner) members
    | some (tables last before) =>
      (within change path last).map fun last => put name (tables last before) members
    | some (value _) => none

/-- Gives a header its table, which must not have had one. -/
def head (name : String) (fill : Members → Option Members) (members : Members) : Option Members :=
  match members.lookup name with
  | none => (fill []).map fun inner => put name (table .headed inner) members
  | some (table .implied inner) =>
    (fill inner).map fun inner => put name (table .headed inner) members
  | _ => none

/-- Gives a repeated header one more table. -/
def repeated (name : String) (fill : Members → Option Members) (members : Members) :
    Option Members :=
  match members.lookup name with
  | none => (fill []).map fun inner => put name (tables inner []) members
  | some (tables last before) =>
    (fill []).map fun inner => put name (tables inner (last :: before)) members
  | _ => none

mutual

def finish : Draft → Toml
  | value v => v
  | table _ members => Toml.table (finishMembers members)
  | tables last before =>
    Toml.array ((Toml.table (finishMembers last) :: finishTables before).reverse)

def finishMembers : Members → List (String × Toml)
  | [] => []
  | (name, d) :: rest => (name, finish d) :: finishMembers rest

def finishTables : List Members → List Toml
  | [] => []
  | members :: rest => Toml.table (finishMembers members) :: finishTables rest

end

/-- The members of a table in braces, from its pairs of a key and a value. -/
def ofPairs (members : Members) (pairs : List (List String × Toml)) : Option Members :=
  pairs.foldlM (fun members pair => insert true pair.1 pair.2 members) members

end Draft

end Almanac.Toml
