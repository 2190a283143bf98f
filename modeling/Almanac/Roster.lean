import Almanac.Attempt
import Almanac.Entry

/-!
# The roster of entries

Entries in the order in which they were added, each under an id of its own. An id is the
first candidate of a source that is neither 0 nor taken. A source that breaks off while a
candidate is drawn spoils the roster: from then on every use of it is refused.
-/

namespace Almanac

inductive RosterError where
  | notFound (id : Nat)
  | alreadyAdded (id : Nat)
  | spoiled
  deriving DecidableEq, Repr

def RosterError.message : RosterError → String
  | .notFound id => s!"Entry not found: {id}"
  | .alreadyAdded id => s!"Entry already has an ID: {id}"
  | .spoiled => "Registry lock poisoned"

/-- Where candidate ids come from: first a script, in which a gap breaks the source off, and
after it `next`, `next + 1` and so on. -/
structure IdSource where
  script : List (Option Nat) := []
  next : Nat := 1001
  deriving DecidableEq, Repr

/-- What a search for an id comes to: the id, unless the source broke off, the source
afterwards, and how many candidates were rejected. -/
structure Draw where
  id : Option Nat
  source : IdSource
  rejected : Nat
  deriving DecidableEq, Repr

namespace IdSource

/-- Holds of the candidates that may become an id. -/
def isFresh (live : List Nat) (candidate : Nat) : Bool :=
  candidate != 0 && !live.contains candidate

/-- Searches by counting up. Of any `live.length + 2` candidates in a row one is fresh. -/
def countUp (live : List Nat) : Nat → Nat → Nat → Draw
  | 0, next, rejected => ⟨some next, ⟨[], next + 1⟩, rejected⟩
  | fuel + 1, next, rejected =>
    if isFresh live next then ⟨some next, ⟨[], next + 1⟩, rejected⟩
    else countUp live fuel (next + 1) (rejected + 1)

/-- Searches a script, and after its end by counting up. -/
def search (live : List Nat) (next : Nat) : List (Option Nat) → Nat → Draw
  | [], rejected => countUp live (live.length + 1) next rejected
  | none :: script, rejected => ⟨none, ⟨script, next⟩, rejected⟩
  | some candidate :: script, rejected =>
    if isFresh live candidate then ⟨some candidate, ⟨script, next⟩, rejected⟩
    else search live next script (rejected + 1)

def draw (s : IdSource) (live : List Nat) : Draw :=
  search live s.next s.script 0

end IdSource

/-- The entries that are registered, and where their ids come from. -/
structure Roster where
  entries : List Entry := []
  source : IdSource := {}
  isSpoiled : Bool := false

namespace Roster

/-- So many candidates rejected in a row are worth a warning. -/
def longStreak : Nat := 8

def ids (r : Roster) : List Nat := r.entries.map Entry.id

/-- Refuses to work on a spoiled roster. -/
def sound (r : Roster) : Except RosterError Unit :=
  if r.isSpoiled then .error .spoiled else .ok ()

/-- All entries, in the order in which they were added. -/
def all (r : Roster) : Except RosterError (List Entry) := do
  r.sound
  .ok r.entries

def size (r : Roster) : Except RosterError Nat := do
  r.sound
  .ok r.entries.length

def byId (r : Roster) (id : Nat) : Except RosterError (Option Entry) := do
  r.sound
  .ok (r.entries.find? fun e => e.id == id)

/-- What adding an entry comes to: the entry with its id, the roster afterwards, and how many
candidates were rejected on the way. -/
structure Addition where
  outcome : Attempt RosterError Entry
  roster : Roster
  rejected : Nat

/-- Adds an entry that has no id yet at the end, under a fresh one. -/
def add (r : Roster) (e : Entry) : Addition :=
  if e.id ≠ 0 then ⟨Attempt.refuse (.alreadyAdded e.id), r, 0⟩
  else if r.isSpoiled then ⟨Attempt.refuse .spoiled, r, 0⟩
  else
    let drawn := r.source.draw r.ids
    match drawn.id with
    | none =>
      ⟨Attempt.breakOff, { r with source := drawn.source, isSpoiled := true }, drawn.rejected⟩
    | some id =>
      let entry := { e with id }
      ⟨.ok entry, { r with entries := r.entries ++ [entry], source := drawn.source },
        drawn.rejected⟩

def modify (r : Roster) (id : Nat) (f : Entry → Entry) : Roster :=
  { r with entries := r.entries.map fun e => if e.id = id then f e else e }

/-- Gives the stored entry the policy and the handle of `e`, and returns it. -/
def update (r : Roster) (e : Entry) : Except RosterError (Entry × Roster) := do
  let stored ← r.byId e.id
  match stored with
  | none => .error (.notFound e.id)
  | some stored =>
    let policy (s : Entry) : Entry :=
      { s with due := e.due, period := e.period, handle := e.handle }
    .ok (policy stored, r.modify e.id policy)

/-- Takes a handle from the entry of an id, if that entry still has it. -/
def release (r : Roster) (id handle : Nat) : Except RosterError (Bool × Roster) := do
  let stored ← r.byId id
  if stored.bind Entry.handle = some handle then
    .ok (true, r.modify id fun e => { e with handle := none })
  else .ok (false, r)

/-- Takes the entry of an id out. The others keep their order. -/
def remove (r : Roster) (id : Nat) : Except RosterError Roster := do
  let stored ← r.byId id
  match stored with
  | none => .error (.notFound id)
  | some _ => .ok { r with entries := r.entries.filter fun e => e.id != id }

theorem ids_modify (r : Roster) (id : Nat) {f : Entry → Entry} (hf : ∀ e, (f e).id = e.id) :
    (r.modify id f).ids = r.ids := by
  simp only [modify, ids, List.map_map]
  apply List.map_congr_left
  intro e _
  by_cases h : e.id = id
  · simp [h, hf]
  · simp [h]

end Roster

example : (IdSource.draw ⟨[some 0, some 7, some 9], 1001⟩ [7]).id = some 9 := by decide
example : (IdSource.draw ⟨[], 1001⟩ [1001]).id = some 1002 := by decide

end Almanac
