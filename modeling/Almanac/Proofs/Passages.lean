import Almanac.Proofs.Places
import Almanac.Timetable.Poll

/-!
# Passages

A passage is what one poll makes of a vigil and of its alarm. It depends on the two of them, on
the moment, and on how the run goes on that the vigil may begin, but on nothing else in the
timetable (`Timetable.poll_eq`).
-/

namespace Almanac

/-- What the clock and the timers show. -/
structure Moment where
  start : Instant
  elapsed : Nat
  skew : Int

namespace Moment

/-- A timetable that shows a moment and has nothing else. -/
def blank (m : Moment) : Timetable :=
  { start := m.start, elapsed := m.elapsed, skew := m.skew }

def now (m : Moment) : Instant := m.blank.now

/-- The timer of a wait until an instant. -/
def timerFor (m : Moment) (due : Instant) : Nat := m.blank.timerFor due

/-- The moment once the clock has moved, but no timer. -/
def shift (m : Moment) (millis : Int) : Moment := { m with skew := m.skew + millis }

end Moment

/-- What the clock and the timers of a timetable show. -/
def Timetable.moment (t : Timetable) : Moment := ⟨t.start, t.elapsed, t.skew⟩

/-- What becomes of a vigil and of its alarm, and what there is to write down of it. -/
structure Passage where
  phase : Phase
  since : Nat
  due : Instant
  status : AlarmStatus
  /-- By how much a run that came back has moved the clock. -/
  shift : Int := 0
  began : Option Instant := none
  returned : Option Return := none
  rearmed : Option Instant := none
  ended : Option Ending := none

namespace Passage

def vigil (p : Passage) (v : Vigil) : Vigil := { v with phase := p.phase, since := p.since }

def alarm (p : Passage) (a : Alarm) : Alarm := { a with due := p.due, status := p.status }

/-- The passage as one that comes back from a run first. -/
def returning (p : Passage) (shift : Int) (r : Return) : Passage :=
  { p with shift, returned := some r }

/-- The passage as one that begins a run first. -/
def beginning (p : Passage) (time : Instant) : Passage := { p with began := some time }

/-- What there is to write down if this is vigil `i` of alarm `n`, the latest first. -/
def deeds (p : Passage) (i n : Nat) : List Deed :=
  (p.ended.map (.ended i)).toList ++ (p.rearmed.map (.rearmed n)).toList ++
    (p.returned.map (.returned i)).toList ++ (p.began.map (.began i)).toList

end Passage

namespace Vigil

variable (v : Vigil) (a : Alarm) (m : Moment)

def stay : Passage :=
  { phase := v.phase, since := v.since, due := a.due, status := a.status }

def close (ending : Ending) : Passage :=
  { v.stay a with
    phase := .ended ending
    status := (a.conclude v.generation ending).status
    ended := some ending }

def wait (timer : Nat) : Passage := { v.stay a with phase := .waiting timer }

/-- The alarm is set again, and the vigil waits for it. -/
def rearm (due : Instant) : Passage :=
  { v.stay a with
    phase := .waiting (m.timerFor due)
    since := m.elapsed
    due
    rearmed := some due }

/-- What follows a run that has succeeded. -/
def goOn : Passage :=
  if a.isRevoked v.token || a.generation != v.generation then v.close a .cancelled
  else if a.period.isZero then v.close a .finished
  else
    match m.now.add? a.period with
    | some due => v.rearm a m due
    | none => v.close a (.failed (.failed "next fire time out of range"))

/-- What follows a run that came back with a result. -/
def judge (result : RunResult) : Passage :=
  match result with
  | .lost => { v.stay a with phase := .lost }
  | .failed e => v.close a (.failed e)
  | .succeeded => v.goOn a m

def comeBack (turn : Turn) : Passage :=
  let later := m.shift turn.skew
  (v.judge a later turn.result).returning turn.skew ⟨turn.result, later.now, a.period⟩

/-- The vigil begins a run that goes on as the turn says. -/
def setOff (turn : Turn) : Passage :=
  let next : Passage :=
    if turn.sleep = 0 then v.comeBack a m turn
    else { v.stay a with phase := .running (m.elapsed + turn.sleep) turn, since := m.elapsed }
  next.beginning m.now

/-- The vigil begins a run if the timer has come and its token is not revoked. -/
def setOffOrWait (timer : Nat) (turn : Turn) : Passage :=
  if a.isRevoked v.token then v.close a .cancelled
  else if timer ≤ m.elapsed then v.setOff a m turn
  else v.wait a timer

/-- The passage of a vigil of an alarm at a moment. If it begins a run, that goes on as the turn
says. -/
def passage (turn : Turn) : Passage :=
  match v.phase with
  | .setOut => v.setOffOrWait a m (m.timerFor a.due) turn
  | .waiting timer => v.setOffOrWait a m timer turn
  | .running timer current => if timer ≤ m.elapsed then v.comeBack a m current else v.stay a
  | .ended _ => v.stay a
  | .lost => v.stay a

/-- What follows a run is no run, and moves no clock. -/
theorem judge_plain (result : RunResult) :
    let p := v.judge a m result
    p.shift = 0 ∧ p.returned = none ∧ p.began = none := by
  simp only [judge, goOn]
  split
  · exact ⟨rfl, rfl, rfl⟩
  · exact ⟨rfl, rfl, rfl⟩
  · split
    · exact ⟨rfl, rfl, rfl⟩
    · split
      · exact ⟨rfl, rfl, rfl⟩
      · split <;> exact ⟨rfl, rfl, rfl⟩

/-- Before it begins a run a vigil has come back from none. -/
theorem comeBack_began (turn : Turn) :
    (v.comeBack a m turn).began = none :=
  (v.judge_plain a _ _).2.2

end Vigil

namespace Timetable

theorem warn_eq (t : Timetable) (lines : List LogLine) :
    ∃ journal, t.warn lines = { t with journal } := by
  simp only [warn]
  induction lines.filter fun l => l.level != .info generalizing t with
  | nil => exact ⟨t.journal, rfl⟩
  | cons line lines ih =>
      obtain ⟨journal, hjournal⟩ := ih (t.record (.logged line))
      exact ⟨journal, hjournal⟩

theorem beginRun_eq (t : Timetable) (task : Task) :
    ∃ runs replies journal, (t.beginRun task).2 = { t with runs, replies, journal } := by
  cases task with
  | pause length => exact ⟨t.runs, t.replies, t.journal, rfl⟩
  | restart token build =>
      simp only [beginRun]
      split <;> exact ⟨t.runs, t.replies.tail, _, rfl⟩
  | fetch url =>
      obtain ⟨journal, hwarn⟩ := t.warn_eq (Remote.fetchLines .unreachable)
      exact ⟨t.runs, t.replies, journal, hwarn⟩
  | rehearse r => exact ⟨(t.countRun r.troupe).runs, t.replies, _, rfl⟩

/-- How a run goes on does not depend on what is written down. -/
theorem beginRun_note (t : Timetable) (d : Deed) (task : Task) :
    (t.note d).beginRun task = ((t.beginRun task).1, (t.beginRun task).2.note d) := by
  have hwarn : ∀ (lines : List LogLine) (u : Timetable),
      lines.foldl (fun t l => t.record (.logged l)) (u.note d) =
        (lines.foldl (fun t l => t.record (.logged l)) u).note d := by
    intro lines
    induction lines with
    | nil => exact fun _ => rfl
    | cons line lines ih => exact fun u => ih (u.record (.logged line))
  cases task with
  | pause length => rfl
  | restart token build =>
      simp only [beginRun, note]
      cases t.replies.head?.getD .accepted <;> rfl
  | fetch url => exact Prod.ext rfl (hwarn _ t)
  | rehearse r => rfl

/-- The timetable with nothing in its journal. -/
def hushed (t : Timetable) : Timetable := { t with journal := [] }

/-- The timetable after a passage, but for the journal and the run that may begin. -/
def follow (t : Timetable) (i : Nat) (v : Vigil) (a : Alarm) (p : Passage) : Timetable :=
  { t with
    skew := t.skew + p.shift
    alarms := t.alarms.set v.alarm (p.alarm a)
    vigils := t.vigils.set i (p.vigil v)
    annals := p.deeds i v.alarm ++ t.annals }

@[simp] theorem now_moment (t : Timetable) : t.moment.now = t.now := rfl

section

variable {t : Timetable} {i : Nat} {v : Vigil} {a : Alarm}

theorem finish_eq (t : Timetable) (i : Nat) (v : Vigil) (a : Alarm) (e : Ending) :
    t.finish i v a e = t.follow i v a (v.close a e) := by
  have halarm : (v.close a e).alarm a = a.conclude v.generation e :=
    (a.conclude_eq v.generation e).symm
  simp only [follow]
  rw [halarm]
  simp [finish, setAlarm, setVigil, note, Vigil.close, Vigil.stay, Passage.vigil, Passage.deeds]

theorem hushed_rearm (t : Timetable) (i : Nat) (v : Vigil) (a : Alarm) :
    (t.rearm i v a).hushed = (t.follow i v a (v.goOn a t.moment)).hushed := by
  simp only [rearm, Vigil.goOn, now_moment]
  split
  · rw [finish_eq]
  · split
    · rw [finish_eq]
    · cases t.now.add? a.period with
      | some due =>
          simp [await, follow, setAlarm, setVigil, note, hushed, Vigil.rearm, Vigil.stay,
            Passage.alarm, Passage.vigil, Passage.deeds, moment]
          rfl
      | none =>
          dsimp only
          rw [finish_eq]
          rfl

/-- The return of a run comes before what follows it. -/
theorem follow_returning (t : Timetable) (i : Nat) (v : Vigil) (a : Alarm) {p : Passage}
    (plain : p.shift = 0 ∧ p.returned = none ∧ p.began = none) (skew : Int) (r : Return) :
    ((t.shiftClock skew).note (.returned i r)).follow i v a p =
      t.follow i v a (p.returning skew r) := by
  obtain ⟨hshift, hreturned, hbegan⟩ := plain
  simp [follow, shiftClock, note, Passage.deeds, Passage.alarm, Passage.vigil, Passage.returning,
    hshift, hreturned, hbegan]

/-- The beginning of a run comes before what follows it. -/
theorem follow_beginning (t : Timetable) (i : Nat) (v : Vigil) (a : Alarm) {p : Passage}
    (hbegan : p.began = none) (time : Instant) :
    (t.note (.began i time)).follow i v a p = t.follow i v a (p.beginning time) := by
  simp [follow, note, Passage.deeds, Passage.alarm, Passage.vigil, Passage.beginning, hbegan]

/-- A passage that leaves the alarm alone and writes nothing down. -/
theorem follow_still (ha : t.alarms[v.alarm]? = some a) (i : Nat) (phase : Phase) (since : Nat) :
    t.follow i v a { v.stay a with phase, since } = t.setVigil i { v with phase, since } := by
  have halarm : ({ v.stay a with phase, since } : Passage).alarm a = a := rfl
  simp only [follow]
  rw [halarm, Places.set_self ha]
  simp [setVigil, Vigil.stay, Passage.vigil, Passage.deeds]

theorem hushed_judge (ha : t.alarms[v.alarm]? = some a) (i : Nat) (result : RunResult) :
    (match result with
      | .lost => t.setVigil i { v with phase := .lost }
      | .failed e => (t.log .failure "task failed; schedule stopped").finish i v a (.failed e)
      | .succeeded => t.rearm i v a).hushed =
      (t.follow i v a (v.judge a t.moment result)).hushed := by
  cases result with
  | lost => exact congrArg hushed (follow_still ha i .lost v.since).symm
  | failed e =>
      dsimp only [Vigil.judge]
      rw [finish_eq]
      rfl
  | succeeded => exact t.hushed_rearm i v a

theorem hushed_endRun (ha : t.alarms[v.alarm]? = some a) (i : Nat) (turn : Turn) :
    (t.endRun i v a turn).hushed = (t.follow i v a (v.comeBack a t.moment turn)).hushed := by
  let r : Return := ⟨turn.result, (t.shiftClock turn.skew).now, a.period⟩
  let back := (t.shiftClock turn.skew).note (.returned i r)
  have hfollow : back.follow i v a (v.judge a back.moment turn.result) =
      t.follow i v a (v.comeBack a t.moment turn) :=
    t.follow_returning i v a (v.judge_plain a _ _) turn.skew r
  rw [← hfollow]
  exact hushed_judge (t := back) ha i turn.result

theorem hushed_fire (ha : t.alarms[v.alarm]? = some a) (i : Nat) :
    (t.fire i v a).hushed =
      ((t.beginRun a.task).2.follow i v a (v.setOff a t.moment (t.beginRun a.task).1)).hushed := by
  obtain ⟨runs, replies, journal, hbegun⟩ := t.beginRun_eq a.task
  simp only [fire, Vigil.setOff]
  rw [beginRun_note]
  generalize t.beginRun a.task = begun at *
  obtain ⟨turn, u⟩ := begun
  dsimp only at *
  have hmoment : u.moment = t.moment := by rw [hbegun]; rfl
  have ha' : u.alarms[v.alarm]? = some a := by rw [hbegun]; exact ha
  split
  · have hfollow := u.follow_beginning i v a (v.comeBack_began a t.moment turn) t.now
    rw [now_moment, ← hfollow, ← hmoment]
    exact hushed_endRun (t := u.note (.began i t.now)) ha' i turn
  · have hstill := follow_still (t := u.note (.began i t.now)) ha' i
      (.running (u.elapsed + turn.sleep) turn) u.elapsed
    have helapsed : u.elapsed = t.moment.elapsed := congrArg Moment.elapsed hmoment
    rw [now_moment, ← follow_beginning _ _ _ _ rfl, ← helapsed]
    exact congrArg hushed hstill.symm

/-- The timetable with the task called if the passage begins a run. -/
def calling (t : Timetable) (task : Task) (p : Passage) : Timetable :=
  if p.began.isSome then (t.beginRun task).2 else t

theorem calling_eq (t : Timetable) (task : Task) (p : Passage) :
    ∃ runs replies journal, t.calling task p = { t with runs, replies, journal } := by
  simp only [calling]
  split
  · exact t.beginRun_eq task
  · exact ⟨t.runs, t.replies, t.journal, rfl⟩

theorem hushed_fireOrWait (ha : t.alarms[v.alarm]? = some a) (i timer : Nat) :
    let p := v.setOffOrWait a t.moment timer (t.beginRun a.task).1
    (t.fireOrWait i v a timer).hushed = ((t.calling a.task p).follow i v a p).hushed := by
  simp only [fireOrWait, Vigil.setOffOrWait]
  split
  · rw [finish_eq]
    rfl
  · by_cases due : timer ≤ t.moment.elapsed
    · rw [if_pos due, if_pos (show timer ≤ t.elapsed from due)]
      exact hushed_fire ha i
    · rw [if_neg due, if_neg (show ¬ timer ≤ t.elapsed from due)]
      exact congrArg hushed (follow_still ha i (.waiting timer) v.since).symm

theorem follow_stay (hv : t.vigils[i]? = some v) (ha : t.alarms[v.alarm]? = some a) :
    t.follow i v a (v.stay a) = t := by
  refine (follow_still ha i v.phase v.since).trans ?_
  simp only [setVigil]
  rw [Places.set_self hv]

/-- A poll does nothing where there is no vigil or no alarm. -/
theorem poll_cases (t : Timetable) (i : Nat) :
    t.poll i = t ∨ ∃ v a, t.vigils[i]? = some v ∧ t.alarms[v.alarm]? = some a := by
  cases hv : t.vigils[i]? with
  | none =>
      refine Or.inl ?_
      simp only [poll]
      rw [hv]
  | some v =>
      cases ha : t.alarms[v.alarm]? with
      | none =>
          refine Or.inl ?_
          simp only [poll]
          rw [hv]
          dsimp only
          rw [ha]
      | some a => exact Or.inr ⟨v, a, rfl, ha⟩

/-- All that a poll does: the passage of the vigil, and the run that it may begin. -/
theorem hushed_poll (hv : t.vigils[i]? = some v) (ha : t.alarms[v.alarm]? = some a) :
    let p := v.passage a t.moment (t.beginRun a.task).1
    (t.poll i).hushed = ((t.calling a.task p).follow i v a p).hushed := by
  have hstay : t.hushed = ((t.calling a.task (v.stay a)).follow i v a (v.stay a)).hushed :=
    congrArg hushed (follow_stay hv ha).symm
  simp only [poll, Vigil.passage]
  rw [hv]
  dsimp only
  rw [ha]
  cases v.phase with
  | setOut => exact hushed_fireOrWait ha i _
  | waiting timer => exact hushed_fireOrWait ha i timer
  | running timer turn =>
      by_cases due : timer ≤ t.moment.elapsed
      · dsimp only
        rw [if_pos due, if_pos (show timer ≤ t.elapsed from due), calling, Vigil.comeBack_began]
        exact hushed_endRun ha i turn
      · dsimp only
        rw [if_neg due, if_neg (show ¬ timer ≤ t.elapsed from due)]
        exact hstay
  | ended ending => exact hstay
  | lost => exact hstay

theorem moment_poll (hv : t.vigils[i]? = some v) (ha : t.alarms[v.alarm]? = some a) :
    (t.poll i).moment =
      t.moment.shift (v.passage a t.moment (t.beginRun a.task).1).shift := by
  obtain ⟨runs, replies, journal, hcalling⟩ :=
    t.calling_eq a.task (v.passage a t.moment (t.beginRun a.task).1)
  refine (congrArg moment (hushed_poll hv ha)).trans ?_
  rw [hcalling]
  rfl

end

end Timetable

end Almanac
