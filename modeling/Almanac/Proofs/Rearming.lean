import Almanac.Proofs.Accounting
import Almanac.Proofs.Readiness

/-!
# Setting an alarm again

A run that succeeds sets a recurring alarm to one period after what the clock shows when it comes
back. Years end where instants do, and a period may well go beyond: then the vigil ends instead, and
leaves its alarm idle. No wait is too long to be measured.
-/

namespace Almanac

namespace Instant

/-- Instants are close enough for the time between any two of them to be measured. -/
theorem natAbs_between_le (x y : Instant) : (x.between y).natAbs ≤ Span.displacementLimit := by
  have hx := x.day_ge
  have hx' := x.day_le
  have hsecond := x.second_lt
  have hnano := x.nano_lt
  have hy := y.day_ge
  have hy' := y.day_le
  have hsecond' := y.second_lt
  have hnano' := y.nano_lt
  simp only [between, sinceEpoch, dayNanos, Span.displacementLimit]
  split
  · omega
  · split <;> omega

/-- The time to wait for an instant: none for one that has come. -/
def wait (now due : Instant) : Span where
  nanos := (now.between due).toNat
  nanos_lt := by
    have hle := natAbs_between_le now due
    simp only [Span.displacementLimit] at hle
    omega

theorem wait_nanos (now due : Instant) :
    ((now.wait due).nanos : Int) = max (now.between due) 0 := by
  simp only [wait]
  omega

theorem ceilMillis_wait_lt (now due : Instant) : (now.wait due).ceilMillis < 2 ^ 63 := by
  have hle := natAbs_between_le now due
  simp only [Span.ceilMillis, wait]
  simp only [Span.displacementLimit] at hle
  omega

end Instant

namespace Passage

/-- What comes back with a passage is what is written down of it. -/
theorem returns_deeds (p : Passage) (i n : Nat) (annals : List Deed) :
    returns i (p.deeds i n ++ annals) = p.returned.toList ++ returns i annals := by
  obtain ⟨_, _, _, _, _, began, returned, rearmed, ended⟩ := p
  cases began <;> cases returned <;> cases rearmed <;> cases ended <;> simp [deeds, returns]

end Passage

namespace Vigil

variable {v : Vigil} {a : Alarm} {m : Moment} {turn : Turn} {r : Return}

/-- A passage with which a run comes back is what follows that run, and may have begun it too. -/
theorem exists_comeBack_of_returned (h : (v.passage a m turn).returned = some r) :
    ∃ current began, v.passage a m turn = { v.comeBack a m current with began } := by
  have hway := v.way a m turn
  generalize v.passage a m turn = p at *
  cases hway with
  | quits pending revoked => cases h
  | setsOff pending held due =>
    simp only [setOff] at h ⊢
    split at h
    · next quick => exact ⟨turn, some m.now, if_pos quick ▸ rfl⟩
    · cases h
  | waits pending held early => cases h
  | @comesBack timer current running due => exact ⟨current, _, rfl⟩
  | stays pending waiting => cases h

/-- A run that succeeds comes back with the reading of the clock and the period of the alarm, and
the vigil goes on from there. -/
theorem passage_of_succeeded (h : (v.passage a m turn).returned = some r)
    (succeeded : r.result = .succeeded) :
    let later := m.shift (v.passage a m turn).shift
    r = ⟨.succeeded, later.now, a.period⟩ ∧ ∃ shift began,
      v.passage a m turn = { (v.goOn a later).returning shift r with began } := by
  obtain ⟨current, began, hpassage⟩ := exists_comeBack_of_returned h
  rw [hpassage] at h ⊢
  obtain rfl : _ = r := Option.some.inj h
  have hresult : current.result = .succeeded := succeeded
  refine ⟨by simp only [comeBack, Passage.returning, hresult], current.skew, began, ?_⟩
  simp only [comeBack, Passage.returning, judge, hresult]

/-- A vigil that holds its token and is that of the last start sets a recurring alarm again, if
there is an instant to set it to. -/
theorem goOn_of_held (held : a.isRevoked v.token = false) (own : a.generation = v.generation)
    (recurring : a.period.isZero = false) (m : Moment) :
    v.goOn a m = match m.now.add? a.period with
      | some due => v.rearm a m due
      | none => v.close a (.failed outOfRange) := by
  rw [goOn, held, own, recurring, Bool.false_or, bne_self_eq_false, if_neg Bool.false_ne_true,
    if_neg Bool.false_ne_true]
  rfl

end Vigil

namespace Timetable

/-- The wait for an alarm is as long as the timers say, to the next full millisecond. -/
theorem timerFor_eq (t : Timetable) (due : Instant) :
    t.timerFor due = t.elapsed + (t.now.wait due).ceilMillis := rfl

/-- The alarm of vigil `i` is set to another time than before, and the vigil waits for that. -/
structure SetAgain (t : Timetable) (i : Nat) (v : Vigil) (a : Alarm) (due : Instant) : Prop where
  alarm : t.alarms[v.alarm]? = some { a with due }
  vigil : t.vigils[i]? = some { v with phase := .waiting (t.timerFor due), since := t.elapsed }
  rearmed : ∃ earlier, t.annals = .rearmed v.alarm due :: earlier

/-- Vigil `i` has ended as its alarm could not be set again, and has left the alarm idle. -/
structure RanOut (t : Timetable) (i : Nat) (v : Vigil) (a : Alarm) : Prop where
  alarm : t.alarms[v.alarm]? = some { a with status := .idle }
  vigil : t.vigils[i]? = some { v with phase := .ended (.failed outOfRange) }
  ended : ∃ earlier, t.annals = .ended i (.failed outOfRange) :: earlier

/-- One timetable is another after a passage of vigil `i`, as far as alarms, vigils and the clock
are concerned. -/
structure Passing (t u : Timetable) (i : Nat) (v : Vigil) (a : Alarm) (p : Passage) : Prop where
  core : u.core = t.core.follow i v a p
  moment : u.moment = t.moment.shift p.shift

section

variable {t u : Timetable} {i : Nat} {v : Vigil} {a : Alarm} {p : Passage} {r : Return}
  {turn : Turn}

theorem passing_poll (hv : t.vigils[i]? = some v) (ha : t.alarms[v.alarm]? = some a) :
    t.Passing (t.poll i) i v a (v.passage a t.moment (t.beginRun a.task).1) where
  core := core_poll hv ha
  moment := moment_poll hv ha

namespace Passing

theorem alarm (h : t.Passing u i v a p) (ha : t.alarms[v.alarm]? = some a) :
    u.alarms[v.alarm]? = some (p.alarm a) := by
  rw [show u.alarms = _ from congrArg Core.alarms h.core]
  exact Places.getElem?_set_self ha _

theorem vigil (h : t.Passing u i v a p) (hv : t.vigils[i]? = some v) :
    u.vigils[i]? = some (p.vigil v) := by
  rw [show u.vigils = _ from congrArg Core.vigils h.core]
  exact Places.getElem?_set_self hv _

theorem annals (h : t.Passing u i v a p) : u.annals = p.deeds i v.alarm ++ t.annals :=
  congrArg Core.annals h.core

/-- A run has come back with the passage if one more return is written down. -/
theorem returned (h : t.Passing u i v a p)
    (hreturn : returns i u.annals = r :: returns i t.annals) : p.returned = some r := by
  rw [h.annals, Passage.returns_deeds] at hreturn
  cases hp : p.returned with
  | none =>
    rw [hp] at hreturn
    exact absurd hreturn.symm (List.cons_ne_self _ _)
  | some x =>
    rw [hp] at hreturn
    exact congrArg some (List.cons.inj hreturn).1

/-- A passage with which a run of a recurring alarm comes back. If the run has succeeded and the
vigil is live, the alarm is set to a period later, or there is no such instant and the vigil
ends. -/
theorem succeeded (h : t.Passing u i v a (v.passage a t.moment turn)) (hsound : t.core.Sound)
    (hv : t.vigils[i]? = some v) (ha : t.alarms[v.alarm]? = some a) (live : t.core.IsLive v)
    (recurring : a.period.isZero = false)
    (hreturn : returns i u.annals = r :: returns i t.annals) (succeeded : r.result = .succeeded) :
    r = ⟨.succeeded, u.now, a.period⟩ ∧
      match r.time.add? a.period with
      | some due => u.SetAgain i v a due
      | none => u.RanOut i v a := by
  obtain ⟨isOpen, x, hx, held⟩ := live
  obtain rfl : a = x := Option.some.inj (ha.symm.trans hx)
  obtain ⟨running, own⟩ := (hsound.fits hv ha).live isOpen held
  obtain ⟨hr, shift, began, hpassage⟩ :=
    Vigil.passage_of_succeeded (h.returned hreturn) succeeded
  have halarm := h.alarm ha
  have hvigil := h.vigil hv
  have hannals := h.annals
  rw [← h.moment] at hr hpassage
  refine ⟨hr, ?_⟩
  have htime : r.time = u.moment.now := congrArg Return.time hr
  rw [Vigil.goOn_of_held held own.symm recurring, ← htime] at hpassage
  rw [hpassage] at halarm hvigil hannals
  cases hdue : r.time.add? a.period with
  | some due =>
    rw [hdue] at halarm hvigil hannals
    exact ⟨halarm, hvigil, _, hannals⟩
  | none =>
    rw [hdue] at halarm hvigil hannals
    have hidle : a.conclude v.generation (.failed outOfRange) = { a with status := .idle } := by
      rw [Alarm.conclude, if_pos ⟨own.symm, running⟩]
      rfl
    refine ⟨?_, hvigil, _, hannals⟩
    rw [halarm, ← hidle]
    exact congrArg some (a.conclude_eq _ _).symm

end Passing

end

end Timetable

end Almanac
