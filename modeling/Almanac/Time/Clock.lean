import Almanac.Time.Instant

/-!
# A clock set by hand

It shows one instant until it is set or advanced. A step that leaves the range of
instants is refused, and the clock then shows what it showed before.
-/

namespace Almanac

/-- A clock that moves only when told to. -/
structure Clock where
  now : Instant
  deriving DecidableEq, Repr

namespace Clock

def set (_ : Clock) (t : Instant) : Clock := ⟨t⟩

/-- Moves the clock by nanoseconds, forwards or backwards. -/
def advance? (c : Clock) (nanos : Int) : Option Clock :=
  (c.now.move? nanos).map Clock.mk

@[simp] theorem now_set (c : Clock) (t : Instant) : (c.set t).now = t := rfl

end Clock

end Almanac
