import Almanac.Proofs.Passages
import Almanac.Proofs.Readings

/-!
# What a passage leads to

One passage takes a vigil as far as it goes: afterwards it waits, for the least period is a minute,
so that what is set again is set to a time ahead. A vigil whose token is revoked begins no run and
leaves its alarm alone.
-/

namespace Almanac

/-- A period that passes its check is no period at all or longer than a second. -/
theorem Span.second_lt_of_checkPeriod {period : Span} (h : checkPeriod period = .ok ())
    (recurring : period.isZero = false) : 10 ^ 9 < period.nanos := by
  have hminute : ¬ period < Span.minute := by
    intro short
    simp [checkPeriod, recurring, short] at h
  change ¬ period.nanos < 60 * 10 ^ 9 at hminute
  omega

/-- The passage with the alarm as another passage has left it. -/
def Passage.leaving (p q : Passage) : Passage := { p with due := q.due, status := q.status }

namespace Vigil

variable {v : Vigil} {a b : Alarm} {m : Moment} {turn : Turn}

/-- Holds if a poll would take a vigil of an alarm further. -/
def isReady (v : Vigil) (a : Alarm) (elapsed : Nat) : Bool :=
  match v.phase with
  | .setOut => true
  | .waiting timer => timer ≤ elapsed || a.isRevoked v.token
  | .running timer _ => timer ≤ elapsed
  | .ended _ => false
  | .lost => false

/-- The timer that a vigil goes by that begins its next run, if it is not running or over. -/
def pendingTimer? (v : Vigil) (a : Alarm) (m : Moment) : Option Nat :=
  match v.phase with
  | .setOut => some (m.timerFor a.due)
  | .waiting timer => some timer
  | _ => none

/-- Holds if a poll would let a vigil of an alarm begin a run. -/
def isDue (v : Vigil) (a : Alarm) (m : Moment) : Bool :=
  !a.isRevoked v.token && (v.pendingTimer? a m).any fun timer => timer ≤ m.elapsed

theorem isDue_iff :
    v.isDue a m = true ↔ a.isRevoked v.token = false ∧
      ∃ timer, v.pendingTimer? a m = some timer ∧ timer ≤ m.elapsed := by
  simp [isDue, Option.any_eq_true]

/-- A vigil that is due is ready. -/
theorem isReady_of_isDue (h : v.isDue a m = true) : v.isReady a m.elapsed = true := by
  obtain ⟨_, timer, hpending, due⟩ := isDue_iff.mp h
  simp only [pendingTimer?] at hpending
  simp only [isReady]
  split at hpending
  · next hphase => rw [hphase]
  · next hphase =>
      cases hpending
      simp [hphase, due]
  · cases hpending

theorem passage_of_pending {timer : Nat} (h : v.pendingTimer? a m = some timer) (turn : Turn) :
    v.passage a m turn = v.setOffOrWait a m timer turn := by
  simp only [passage]
  simp only [pendingTimer?] at h
  split at h
  · next hphase =>
      cases h
      rw [hphase]
  · next hphase =>
      cases h
      rw [hphase]
  · cases h

/-- What a passage may be. -/
inductive Way (v : Vigil) (a : Alarm) (m : Moment) (turn : Turn) : Passage → Prop
  | quits {timer : Nat} (pending : v.pendingTimer? a m = some timer)
      (revoked : a.isRevoked v.token = true) : Way v a m turn (v.close a .cancelled)
  | setsOff {timer : Nat} (pending : v.pendingTimer? a m = some timer)
      (held : a.isRevoked v.token = false) (due : timer ≤ m.elapsed) :
      Way v a m turn (v.setOff a m turn)
  | waits {timer : Nat} (pending : v.pendingTimer? a m = some timer)
      (held : a.isRevoked v.token = false) (early : m.elapsed < timer) :
      Way v a m turn (v.wait a timer)
  | comesBack {timer : Nat} {current : Turn} (running : v.phase = .running timer current)
      (due : timer ≤ m.elapsed) : Way v a m turn (v.comeBack a m current)
  | stays (pending : v.pendingTimer? a m = none) (waiting : v.isReady a m.elapsed = false) :
      Way v a m turn (v.stay a)

theorem way (v : Vigil) (a : Alarm) (m : Moment) (turn : Turn) :
    v.Way a m turn (v.passage a m turn) := by
  cases hpending : v.pendingTimer? a m with
  | some timer =>
      rw [passage_of_pending hpending, setOffOrWait]
      split
      · next revoked => exact .quits hpending revoked
      · next held =>
          have held : a.isRevoked v.token = false := by simpa using held
          split
          · next due => exact .setsOff hpending held due
          · next early => exact .waits hpending held (Nat.lt_of_not_le early)
  | none =>
      simp only [passage]
      cases hphase : v.phase with
      | setOut =>
          rw [pendingTimer?, hphase] at hpending
          cases hpending
      | waiting timer =>
          rw [pendingTimer?, hphase] at hpending
          cases hpending
      | running timer current =>
          dsimp only
          split
          · next due => exact .comesBack hphase due
          · next early => exact .stays hpending (by simp [isReady, hphase, early])
      | ended ending => exact .stays hpending (by simp [isReady, hphase])
      | lost => exact .stays hpending (by simp [isReady, hphase])

/-- A vigil begins a run exactly if it is due. -/
theorem passage_began (v : Vigil) (a : Alarm) (m : Moment) (turn : Turn) :
    (v.passage a m turn).began = if v.isDue a m then some m.now else none := by
  have hway := v.way a m turn
  generalize v.passage a m turn = p at *
  cases hway with
  | quits pending revoked => simp [isDue, revoked, close, stay]
  | setsOff pending held due => simp [isDue, pending, held, due, setOff, Passage.beginning]
  | waits pending held early => simp [isDue, pending, held, Nat.not_le.mpr early, wait, stay]
  | comesBack running due => simp [isDue, pendingTimer?, running, comeBack_began]
  | stays pending waiting => simp [isDue, pending, stay]

/-- The turn matters only to a vigil that is due. -/
theorem passage_of_not_isDue (h : v.isDue a m = false) (turn other : Turn) :
    v.passage a m turn = v.passage a m other := by
  cases hpending : v.pendingTimer? a m with
  | some timer =>
      rw [passage_of_pending hpending, passage_of_pending hpending, setOffOrWait, setOffOrWait]
      split
      · rfl
      · next held =>
          have early : ¬ timer ≤ m.elapsed := by
            intro due
            simp [isDue, hpending, held, due] at h
          rw [if_neg early, if_neg early]
  | none =>
      simp only [passage]
      cases hphase : v.phase with
      | setOut =>
          rw [pendingTimer?, hphase] at hpending
          cases hpending
      | waiting timer =>
          rw [pendingTimer?, hphase] at hpending
          cases hpending
      | _ => rfl

/-- A passage leaves a vigil alone that is not ready. -/
theorem passage_of_not_isReady (h : v.isReady a m.elapsed = false) (turn : Turn) :
    v.passage a m turn = v.stay a := by
  simp only [isReady] at h
  simp only [passage]
  cases hphase : v.phase with
  | setOut =>
      rw [hphase] at h
      cases h
  | waiting timer =>
      rw [hphase] at h
      have ⟨early, held⟩ : ¬ timer ≤ m.elapsed ∧ a.isRevoked v.token = false := by simpa using h
      simp only [setOffOrWait, held]
      rw [if_neg Bool.false_ne_true, if_neg early, wait, ← hphase]
      rfl
  | running timer current =>
      rw [hphase] at h
      exact if_neg (by simpa using h)
  | ended ending => rfl
  | lost => rfl

/-- What is set a period ahead is due some milliseconds later. -/
theorem elapsed_lt_timerFor {due : Instant} (hperiod : checkPeriod a.period = .ok ())
    (recurring : a.period.isZero = false) (h : m.now.add? a.period = some due) :
    m.elapsed < m.timerFor due := by
  have hlong := Span.second_lt_of_checkPeriod hperiod recurring
  have hahead := Instant.between_pos hlong h
  change m.elapsed < m.elapsed + ((m.now.between due).toNat + (10 ^ 6 - 1)) / 10 ^ 6
  omega

theorem not_isReady_comeBack (hperiod : checkPeriod a.period = .ok ()) :
    ((v.comeBack a m turn).vigil v).isReady ((v.comeBack a m turn).alarm a) m.elapsed = false := by
  simp only [comeBack]
  cases hresult : turn.result with
  | lost => rfl
  | failed e => rfl
  | succeeded =>
      simp only [judge, goOn]
      split
      · rfl
      · next current =>
          split
          · rfl
          · next recurring =>
              split
              · next due inRange =>
                  have held : a.isRevoked v.token = false := by
                    simp only [Bool.or_eq_true, not_or, Bool.not_eq_true] at current
                    exact current.1
                  have hlater := elapsed_lt_timerFor (m := m.shift turn.skew) hperiod
                    (by simpa using recurring) inRange
                  change (decide ((m.shift turn.skew).timerFor due ≤ m.elapsed) ||
                    a.isRevoked v.token) = false
                  rw [held, Bool.or_false, decide_eq_false_iff_not, Nat.not_le]
                  exact hlater
              · rfl

/-- After a passage a vigil waits. -/
theorem not_isReady_passage (hperiod : checkPeriod a.period = .ok ()) :
    ((v.passage a m turn).vigil v).isReady ((v.passage a m turn).alarm a) m.elapsed = false := by
  have hway := v.way a m turn
  generalize v.passage a m turn = p at *
  cases hway with
  | quits pending revoked => rfl
  | setsOff pending held due =>
      simp only [setOff]
      split
      · exact not_isReady_comeBack hperiod
      · next long =>
          change decide (m.elapsed + turn.sleep ≤ m.elapsed) = false
          rw [decide_eq_false_iff_not]
          omega
  | @waits timer pending held early =>
      change (decide (timer ≤ m.elapsed) || a.isRevoked v.token) = false
      rw [held, Bool.or_false, decide_eq_false_iff_not, Nat.not_le]
      exact early
  | comesBack running due => exact not_isReady_comeBack hperiod
  | stays pending waiting => exact waiting

/-- A vigil whose token is revoked ends before a run. -/
theorem setOffOrWait_of_revoked (revoked : a.isRevoked v.token = true) (m : Moment) (timer : Nat)
    (turn : Turn) : v.setOffOrWait a m timer turn = v.close a .cancelled :=
  if_pos revoked

/-- A vigil whose token is revoked ends after a run, if that comes back at all. -/
theorem judge_of_revoked (revoked : a.isRevoked v.token = true) (m : Moment) (result : RunResult) :
    v.judge a m result =
      match result with
      | .lost => { v.stay a with phase := .lost }
      | .failed e => v.close a (.failed e)
      | .succeeded => v.close a .cancelled := by
  cases result with
  | succeeded =>
      simp only [judge, goOn]
      rw [revoked, Bool.true_or, if_pos rfl]
  | _ => rfl

variable {q : Passage}

theorem close_alarm (unheeded : ∀ e, (q.alarm a).conclude v.generation e = q.alarm a)
    (e : Ending) : v.close (q.alarm a) e = (v.close a e).leaving q := by
  simp only [close]
  rw [unheeded]
  rfl

/-- A vigil whose token is revoked, and whose end its alarm does not heed, does the same whatever
that alarm is set to, and leaves it so. -/
theorem passage_alarm_of_revoked (revoked : a.isRevoked v.token = true)
    (unheeded : ∀ e, (q.alarm a).conclude v.generation e = q.alarm a) (m : Moment) (turn : Turn) :
    v.passage (q.alarm a) m turn = (v.passage a m turn).leaving q := by
  have revoked' : (q.alarm a).isRevoked v.token = true := revoked
  have hquits : ∀ timer timer', v.setOffOrWait (q.alarm a) m timer turn =
      (v.setOffOrWait a m timer' turn).leaving q := by
    intro timer timer'
    rw [setOffOrWait_of_revoked revoked, setOffOrWait_of_revoked revoked', close_alarm unheeded]
  have hjudge : ∀ (m : Moment) (result : RunResult),
      v.judge (q.alarm a) m result = (v.judge a m result).leaving q := by
    intro m result
    rw [judge_of_revoked revoked, judge_of_revoked revoked']
    cases result with
    | lost => rfl
    | failed e => exact close_alarm unheeded _
    | succeeded => exact close_alarm unheeded _
  simp only [passage]
  cases v.phase with
  | setOut => exact hquits _ _
  | waiting timer => exact hquits timer timer
  | running timer current =>
      dsimp only
      split
      · simp only [comeBack]
        rw [hjudge]
        rfl
      · rfl
  | ended ending => rfl
  | lost => rfl

/-- A vigil whose token is revoked, and whose end its alarm does not heed, leaves that alarm as it
is. -/
theorem alarm_of_revoked (revoked : a.isRevoked v.token = true)
    (unheeded : ∀ e, a.conclude v.generation e = a) (m : Moment) (turn : Turn) :
    (v.passage a m turn).alarm a = a := by
  have hself : (v.stay a).alarm a = a := rfl
  have hsame : v.passage a m turn = (v.passage a m turn).leaving (v.stay a) :=
    passage_alarm_of_revoked (q := v.stay a) revoked unheeded m turn
  rw [hsame]
  exact hself

end Vigil

end Almanac
