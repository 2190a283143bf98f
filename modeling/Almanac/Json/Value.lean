import Almanac.Number.Binary64

/-!
# JSON values

The members of an object are kept in the order of their names, each name once. A later
member replaces an earlier one of the same name.
-/

namespace Almanac

/-- A number: an integer that fits in 64 bits, with or without a sign, or a floating point one. -/
inductive JsonNumber where
  | integer (n : Int)
  | float (x : Binary64)
  deriving DecidableEq, Repr

inductive Json where
  | null
  | bool (b : Bool)
  | number (n : JsonNumber)
  | string (s : String)
  | array (items : List Json)
  | object (members : List (String × Json))
  deriving Repr

namespace Json

instance : Inhabited Json := ⟨null⟩

def nat (n : Nat) : Json := number (.integer n)

/-- Puts a member in its place, over one of the same name. -/
def putMember (name : String) (value : Json) : List (String × Json) → List (String × Json)
  | [] => [(name, value)]
  | (other, old) :: rest =>
    if name < other then (name, value) :: (other, old) :: rest
    else if name = other then (name, value) :: rest
    else (other, old) :: putMember name value rest

/-- Puts members in their places, one after the other. -/
def placed (members : List (String × Json)) : List (String × Json) :=
  members.foldl (fun sorted m => putMember m.1 m.2 sorted) []

theorem lookup_member (key name : String) (value : Json) (members : List (String × Json)) :
    List.lookup key ((name, value) :: members) =
      if key = name then some value else members.lookup key := by
  rw [List.lookup_cons]
  split
  · next h => rw [if_pos (eq_of_beq h)]
  · next h => rw [if_neg (ne_of_beq_false h)]

/-- A member that is put in its place is found, and hides no other. -/
theorem lookup_putMember (key name : String) (value : Json) (members : List (String × Json)) :
    (putMember name value members).lookup key =
      if key = name then some value else members.lookup key := by
  induction members with
  | nil => exact lookup_member key name value []
  | cons m members ih =>
    obtain ⟨other, old⟩ := m
    simp only [putMember]
    split
    · exact lookup_member key name value ((other, old) :: members)
    · split
      · next hname =>
        subst hname
        rw [lookup_member, lookup_member]
        split <;> rfl
      · next hname =>
        rw [lookup_member, lookup_member, ih]
        split
        · next hkey => rw [if_neg (hkey ▸ Ne.symm hname)]
        · rfl

/-- Of the members of one name the last one counts. -/
theorem lookup_placed (key : String) (members : List (String × Json)) :
    (placed members).lookup key = members.reverse.lookup key := by
  suffices h : ∀ before, (members.foldl (fun sorted m => putMember m.1 m.2 sorted)
      before).lookup key = (members.reverse.lookup key).or (before.lookup key) by
    rw [placed, h, List.lookup_nil, Option.or_none]
  induction members with
  | nil => exact fun before => rfl
  | cons m members ih =>
    intro before
    rw [List.foldl_cons, ih, lookup_putMember, List.reverse_cons, List.lookup_append,
      Option.or_assoc, lookup_member]
    split <;> rfl

/-- An object of members in any order. -/
def ofMembers (members : List (String × Json)) : Json :=
  object (placed members)

mutual

/-- The value with the members of every object in their places. -/
def sorted : Json → Json
  | array items => array (sortedItems items)
  | object members => object (placed (sortedMembers members))
  | value => value

def sortedItems : List Json → List Json
  | [] => []
  | item :: items => sorted item :: sortedItems items

def sortedMembers : List (String × Json) → List (String × Json)
  | [] => []
  | (name, value) :: members => (name, sorted value) :: sortedMembers members

end

def member? (name : String) : Json → Option Json
  | object members => members.lookup name
  | _ => none

theorem member?_ofMembers (name : String) (members : List (String × Json)) :
    (ofMembers members).member? name = members.reverse.lookup name :=
  lookup_placed name members

def isObject : Json → Bool
  | object _ => true
  | _ => false

/-- The string, or null for none. -/
def ofOption {α : Type} (f : α → Json) : Option α → Json
  | some a => f a
  | none => null

end Json

end Almanac
