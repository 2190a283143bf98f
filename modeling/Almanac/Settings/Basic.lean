import Almanac.Text.Numeral

/-!
# Settings

What can be set, in four sections, and what holds where nothing is set.
-/

namespace Almanac

/-- Where requests are taken. -/
structure ServerSettings where
  bind : String := "0.0.0.0"
  port : Nat := 3000
  deriving DecidableEq, Repr

/-- Who may ask for entries. -/
structure AuthSettings where
  username : Option String := none
  password : Option String := none
  deriving DecidableEq, Repr

/-- Where builds are restarted, and for how many seconds to wait for that. -/
structure TravisSettings where
  baseUrl : String := "https://api.travis-ci.org"
  timeout : Nat := 30
  deriving DecidableEq, Repr

/-- For how many seconds to wait for the answer to a fetch. -/
structure TaskSettings where
  fetchTimeout : Nat := 30
  deriving DecidableEq, Repr

structure Settings where
  server : ServerSettings := {}
  auth : AuthSettings := {}
  travis : TravisSettings := {}
  tasks : TaskSettings := {}
  deriving DecidableEq, Repr

namespace Settings

/-- User and password, if both are set and neither is empty. -/
def credentials (s : Settings) : Option (String × String) :=
  match s.auth.username, s.auth.password with
  | some user, some password =>
    if user.isEmpty || password.isEmpty then none else some (user, password)
  | _, _ => none

def listenAddress (s : Settings) : String :=
  s.server.bind ++ ":" ++ String.ofList (Text.decimal s.server.port)

theorem credentials_eq_some_iff {s : Settings} {user password : String} :
    s.credentials = some (user, password) ↔
      s.auth.username = some user ∧ s.auth.password = some password ∧
        user ≠ "" ∧ password ≠ "" := by
  unfold credentials
  split
  · next u p hu hp => split <;> simp_all <;> grind
  · next h =>
    constructor
    · intro h'
      cases h'
    · rintro ⟨hu, hp, -⟩
      exact absurd hp (h _ _ hu)

example : ({} : Settings).listenAddress = "0.0.0.0:3000" := by decide +kernel

end Settings

end Almanac
