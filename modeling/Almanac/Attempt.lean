/-!
# Attempts

The result of work that can be refused with a reason, or break off without one: a
sum that no longer fits, or a source that gives out.
-/

namespace Almanac

/-- How an attempt comes to nothing. -/
inductive Failure (ε : Type) where
  /-- The request is at fault, and `reason` says how. -/
  | refused (reason : ε)
  /-- The work broke off half way. -/
  | brokenOff
  deriving DecidableEq, Repr

/-- Work that ends in a value, a refusal, or a break. -/
abbrev Attempt (ε α : Type) := Except (Failure ε) α

namespace Attempt

variable {ε ε' α : Type}

def refuse (reason : ε) : Attempt ε α :=
  .error (.refused reason)

def breakOff : Attempt ε α :=
  .error .brokenOff

/-- An outcome that cannot break off, as an attempt. -/
def ofExcept : Except ε α → Attempt ε α
  | .ok a => .ok a
  | .error e => refuse e

def mapReason (f : ε → ε') : Attempt ε α → Attempt ε' α
  | .ok a => .ok a
  | .error (.refused e) => refuse (f e)
  | .error .brokenOff => breakOff

@[simp] theorem mapReason_ok (f : ε → ε') (a : α) : mapReason f (.ok a) = .ok a := rfl

@[simp] theorem mapReason_refuse (f : ε → ε') (e : ε) :
    mapReason f (refuse e : Attempt ε α) = refuse (f e) := rfl

section

variable {x : Except ε α} {y : Attempt ε α} {a : α} {f : ε → ε'}

theorem ofExcept_eq_ok_iff : ofExcept x = .ok a ↔ x = .ok a := by
  cases x <;> simp [ofExcept, refuse]

theorem ofExcept_eq_error_iff {e : Failure ε} :
    ofExcept x = .error e ↔ ∃ reason, x = .error reason ∧ e = .refused reason := by
  cases x <;> simp [ofExcept, refuse, eq_comm]

theorem ofExcept_ne_broken : ofExcept x ≠ .error .brokenOff := by
  cases x <;> nofun

theorem mapReason_eq_ok_iff : mapReason f y = .ok a ↔ y = .ok a := by
  rcases y with (e | _) | b <;> simp [mapReason, refuse, breakOff]

theorem mapReason_eq_refused_iff {reason : ε'} :
    mapReason f y = .error (.refused reason) ↔ ∃ e, y = .error (.refused e) ∧ f e = reason := by
  rcases y with (e | _) | b <;> simp [mapReason, refuse, breakOff]

theorem mapReason_eq_broken_iff : mapReason f y = .error .brokenOff ↔ y = .error .brokenOff := by
  rcases y with (e | _) | b <;> simp [mapReason, refuse, breakOff]

end

end Attempt

section

variable {ε α β : Type} {x : Except ε α} {b : β}

theorem bind_eq_ok_iff {f : α → Except ε β} : x.bind f = .ok b ↔ ∃ a, x = .ok a ∧ f a = .ok b := by
  constructor
  · intro h
    cases x with
    | error e => cases h
    | ok a => exact ⟨a, rfl, h⟩
  · rintro ⟨a, rfl, h⟩
    exact h

theorem bind_eq_error_iff {f : α → Except ε β} {e : ε} :
    x.bind f = .error e ↔ x = .error e ∨ ∃ a, x = .ok a ∧ f a = .error e := by
  cases x with
  | error e' => simp [Except.bind]
  | ok a => simp [Except.bind]

theorem map_eq_ok_iff {f : α → β} : x.map f = .ok b ↔ ∃ a, x = .ok a ∧ f a = b := by
  constructor
  · intro h
    cases x with
    | error e => cases h
    | ok a => exact ⟨a, rfl, Except.ok.inj h⟩
  · rintro ⟨a, rfl, rfl⟩
    rfl

theorem map_eq_error_iff {f : α → β} {e : ε} : x.map f = .error e ↔ x = .error e := by
  cases x <;> simp [Except.map]

theorem exists_error_of_not_isOk (h : x.isOk = false) : ∃ e, x = .error e := by
  cases x with
  | error e => exact ⟨e, rfl⟩
  | ok a => cases h

end

end Almanac
