import Almanac.Number.Binary64

/-!
# TOML values
-/

namespace Almanac

inductive Toml where
  | string (s : String)
  /-- An integer of 64 bits with a sign. -/
  | integer (n : Int)
  | float (x : Binary64)
  | boolean (b : Bool)
  /-- A date, a time, or both, as it is written. -/
  | moment (text : String)
  | array (items : List Toml)
  | table (members : List (String × Toml))
  deriving Repr

end Almanac
