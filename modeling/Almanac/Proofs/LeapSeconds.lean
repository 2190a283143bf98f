import Almanac.Proofs.Readings

/-!
# Leap seconds between a clock and a time

The time between two instants takes in a leap second only if it is in one of the two, and then by
the seconds of their days alone. So, while a clock moves with the timers, a wait for an instant
that is measured again comes to the same timer, unless other leap seconds are counted.
-/

namespace Almanac

namespace Instant

variable {x y : Instant}

/-- The nanoseconds from the beginning of 1970 without the leap second that the instant is in. -/
def plain (x : Instant) : Int :=
  x.sinceEpoch - if x.inLeapSecond then 10 ^ 9 else 0

/-- The leap seconds that are counted between two instants, in nanoseconds: that of the later one,
if its second of the day is no earlier, less that of the earlier one, if its second is no
earlier. -/
def leapsTo (x y : Instant) : Int :=
  (if y.inLeapSecond ∧ x.second ≤ y.second then 10 ^ 9 else 0) -
    if x.inLeapSecond ∧ y.second ≤ x.second then 10 ^ 9 else 0

theorem leapsTo_eq_zero (hx : x.inLeapSecond = false) (hy : y.inLeapSecond = false) :
    x.leapsTo y = 0 := by
  simp [leapsTo, hx, hy]

theorem between_eq_plain (x y : Instant) : x.between y = y.plain - x.plain + x.leapsTo y := by
  simp only [between, plain, leapsTo]
  cases x.inLeapSecond <;> cases y.inLeapSecond <;> simp <;> grind

/-- The counts of leap seconds are whole seconds. -/
theorem leapsTo_cases (x y : Instant) :
    x.leapsTo y = 10 ^ 9 ∨ x.leapsTo y = 0 ∨ x.leapsTo y = -10 ^ 9 := by
  simp only [leapsTo]
  split <;> split <;> omega

end Instant

namespace Timetable

variable {s t : Timetable} {due : Instant}

/-- No wait ends before it begins. -/
theorem max_timerFor (t : Timetable) (due : Instant) :
    max t.elapsed (t.timerFor due) = t.timerFor due :=
  Nat.max_eq_right (Nat.le_add_right _ _)

/-- From `s` to `t` the clock has gone as far as the timers. -/
def KeepsPace (s t : Timetable) : Prop :=
  t.now.plain = s.now.plain + (t.elapsed - s.elapsed) * 10 ^ 6

theorem KeepsPace.between_eq (h : s.KeepsPace t) (due : Instant) : s.now.between due =
    t.now.between due + (t.elapsed - s.elapsed) * 10 ^ 6 +
      (s.now.leapsTo due - t.now.leapsTo due) := by
  rw [Instant.between_eq_plain, Instant.between_eq_plain, h]
  omega

/-- A wait that is measured again while the clock keeps pace ends as before, if the same leap
seconds are counted. -/
theorem KeepsPace.timerFor_eq (h : s.KeepsPace t) (hle : s.elapsed ≤ t.elapsed)
    (hleaps : s.now.leapsTo due = t.now.leapsTo due) :
    max t.elapsed (s.timerFor due) = t.timerFor due := by
  have hbetween := h.between_eq due
  simp only [timerFor]
  rw [hbetween, hleaps]
  omega

/-- A wait that has not ended yet ends at another timer when it is measured again, if other leap
seconds are counted. -/
theorem KeepsPace.timerFor_ne (h : s.KeepsPace t) (hle : s.elapsed ≤ t.elapsed)
    (hearly : t.elapsed < s.timerFor due) (hleaps : s.now.leapsTo due ≠ t.now.leapsTo due) :
    s.timerFor due ≠ t.timerFor due := by
  have hbetween := h.between_eq due
  have hbefore := s.now.leapsTo_cases due
  have hafter := t.now.leapsTo_cases due
  simp only [timerFor] at hearly ⊢
  rw [hbetween] at hearly ⊢
  omega

end Timetable

end Almanac
