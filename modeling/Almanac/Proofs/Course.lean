import Almanac.Proofs.Undisturbed
import Mathlib.Data.List.GetD

/-!
# The course of a start

A course says when the runs of one start begin and end: each one begins a period after the end of
the one before it. A vigil of a task whose runs all succeed, which is polled as its timers come,
keeps to a course, from poll to poll.
-/

namespace Almanac

/-- Every run of the task succeeds and leaves the clock alone. -/
def Task.IsReliable (task : Task) : Prop :=
  ∀ t : Timetable, (t.beginRun task).1.result = .succeeded ∧ (t.beginRun task).1.skew = 0

/-- When the runs of one start begin and end, in milliseconds: the first one begins at `first`, and
each later one `gap` after the end of the one before it. -/
structure Course where
  first : Nat
  gap : Nat
  /-- How long the runs take that have begun so far. -/
  lengths : List Nat

namespace Course

variable {c : Course} {k : Nat}

def length (c : Course) (k : Nat) : Nat := c.lengths.getD k 0

def beginAt (c : Course) : Nat → Nat
  | 0 => c.first
  | k + 1 => c.beginAt k + c.length k + c.gap

def endAt (c : Course) (k : Nat) : Nat := c.beginAt k + c.length k

def add (c : Course) (length : Nat) : Course :=
  { c with lengths := c.lengths ++ [length] }

theorem beginAt_succ (c : Course) (k : Nat) : c.beginAt (k + 1) = c.endAt k + c.gap := rfl

theorem beginAt_le_endAt (c : Course) (k : Nat) : c.beginAt k ≤ c.endAt k :=
  Nat.le_add_right _ _

theorem endAt_le_beginAt {j : Nat} (h : j < k) : c.endAt j ≤ c.beginAt k := by
  induction k with
  | zero => exact absurd h (Nat.not_lt_zero j)
  | succ k ih =>
      rw [beginAt_succ]
      rcases Nat.lt_succ_iff_lt_or_eq.mp h with hlt | rfl
      · exact Nat.le_trans (ih hlt) (Nat.le_trans (c.beginAt_le_endAt k) (Nat.le_add_right _ _))
      · exact Nat.le_add_right _ _

theorem beginAt_mono {j : Nat} (h : j ≤ k) : c.beginAt j ≤ c.beginAt k := by
  rcases Nat.lt_or_eq_of_le h with hlt | rfl
  · exact Nat.le_trans (c.beginAt_le_endAt j) (endAt_le_beginAt hlt)
  · exact Nat.le_refl _

theorem length_add (h : k < c.lengths.length) (length : Nat) :
    (c.add length).length k = c.length k := by
  simp only [Course.length, add]
  rw [List.getD_append _ _ _ _ h]

theorem length_add_last (c : Course) (length : Nat) :
    (c.add length).length c.lengths.length = length := by
  simp [Course.length, add]

/-- One more run changes nothing before it. -/
theorem beginAt_add (h : k ≤ c.lengths.length) (length : Nat) :
    (c.add length).beginAt k = c.beginAt k := by
  induction k with
  | zero => rfl
  | succ k ih =>
      simp only [beginAt]
      rw [ih (Nat.le_of_succ_le h), length_add h]
      rfl

theorem endAt_add (h : k < c.lengths.length) (length : Nat) :
    (c.add length).endAt k = c.endAt k := by
  simp only [endAt]
  rw [beginAt_add (Nat.le_of_lt h), length_add h]

theorem endAt_add_last (c : Course) (length : Nat) :
    (c.add length).endAt c.lengths.length = c.beginAt c.lengths.length + length := by
  rw [endAt, beginAt_add (Nat.le_refl _), length_add_last]

/-- Runs that all take equally long begin at equal distances. -/
theorem beginAt_of_constant {length : Nat} (h : ∀ l ∈ c.lengths, l = length)
    (hk : k ≤ c.lengths.length) : c.beginAt k = c.first + k * (c.gap + length) := by
  induction k with
  | zero => simp [beginAt]
  | succ k ih =>
      have hlength : c.length k = length := by
        rw [Course.length, List.getD_eq_getElem _ _ hk]
        exact h _ (List.getElem_mem hk)
      rw [beginAt, ih (Nat.le_of_succ_le hk), hlength, Nat.succ_mul]
      omega

end Course

/-- An alarm that lets a vigil go on, with the task and the period of `a₀`. -/
structure Alarm.Holds (a a₀ : Alarm) (v : Vigil) : Prop where
  held : a.isRevoked v.token = false
  task : a.task = a₀.task
  period : a.period = a₀.period

namespace Timetable

/-- Since `s` vigil `i` of an alarm like `a₀` has begun the runs of the course, each of them on
time, and the first `ended` of them have come back. -/
structure Follows (s : Timetable) (i : Nat) (a₀ : Alarm) (c : Course) (ended : Nat)
    (u : Timetable) : Prop where
  first : c.first = s.timerFor a₀.due
  gap : c.gap = a₀.period.ceilMillis
  recurring : 1 < c.lengths.length → a₀.period.isZero = false
  start : u.start = s.start
  skew : u.skew = s.skew
  inRange : u.InRange
  begun : (beginnings i u.annals).reverse =
    (List.range c.lengths.length).map fun k => s.reading (c.beginAt k)
  back : (returns i u.annals).reverse =
    (List.range ended).map fun k => ⟨.succeeded, s.reading (c.endAt k), a₀.period⟩
  beginAt_le : ∀ k < c.lengths.length, c.beginAt k ≤ u.elapsed
  endAt_le : ∀ k < ended, c.endAt k ≤ u.elapsed

/-- Where a vigil stands that has begun the runs of the course, and has come back from the first
`ended` of them: before its next run, in its last one, or at its end. -/
inductive Stage (s : Timetable) (a₀ : Alarm) (c : Course) (u : Timetable) (v : Vigil) : Nat → Prop
  | pending {a : Alarm} (alarm : u.alarms[v.alarm]? = some a) (holds : a.Holds a₀ v)
      (phase : v.phase = .setOut ∧ u.elapsed = s.elapsed ∧ c.lengths = [] ∨
        v.phase = .waiting (c.beginAt c.lengths.length))
      (first : c.lengths = [] → a.due = a₀.due)
      (again : ∀ k, c.lengths.length = k + 1 → a₀.period.isZero = false ∧
        (s.reading (c.endAt k)).add? a₀.period = some a.due)
      (early : u.elapsed ≤ c.beginAt c.lengths.length) : Stage s a₀ c u v c.lengths.length
  | running {k : Nat} {a : Alarm} {turn : Turn} (alarm : u.alarms[v.alarm]? = some a)
      (holds : a.Holds a₀ v) (count : c.lengths.length = k + 1)
      (phase : v.phase = .running (c.endAt k) turn) (result : turn.result = .succeeded)
      (skew : turn.skew = 0) (early : u.elapsed ≤ c.endAt k) : Stage s a₀ c u v k
  | closed {k : Nat} {ending : Ending} (count : c.lengths.length = k + 1)
      (phase : v.phase = .ended ending)
      (last : a₀.period.isZero = true ∨ (s.reading (c.endAt k)).add? a₀.period = none) :
      Stage s a₀ c u v (k + 1)

/-- Since `s` vigil `i` of alarm `n`, then one like `a₀`, has kept to the course. -/
structure OnCourse (s : Timetable) (i n : Nat) (a₀ : Alarm) (c : Course) (ended : Nat)
    (u : Timetable) : Prop where
  follows : s.Follows i a₀ c ended u
  stage : ∃ v, u.vigils[i]? = some v ∧ v.alarm = n ∧ Stage s a₀ c u v ended

section

variable {s u w : Timetable} {i n k ended : Nat} {a₀ a : Alarm} {c : Course} {v x : Vigil}

namespace Follows

/-- Time passes, and the vigil neither begins a run nor comes back from one. -/
theorem pass (h : s.Follows i a₀ c ended u) (start : w.start = u.start)
    (skew : w.skew = u.skew) (inRange : w.InRange) (elapsed : u.elapsed ≤ w.elapsed)
    (begun : beginnings i w.annals = beginnings i u.annals)
    (back : returns i w.annals = returns i u.annals) : s.Follows i a₀ c ended w where
  first := h.first
  gap := h.gap
  recurring := h.recurring
  start := start.trans h.start
  skew := skew.trans h.skew
  inRange := inRange
  begun := by rw [begun]; exact h.begun
  back := by rw [back]; exact h.back
  beginAt_le := fun k hk => Nat.le_trans (h.beginAt_le k hk) elapsed
  endAt_le := fun k hk => Nat.le_trans (h.endAt_le k hk) elapsed

theorem now_eq (h : s.Follows i a₀ c ended u) : u.now = s.reading u.elapsed := by
  rw [← reading_elapsed, reading_congr h.start h.skew]

/-- The vigil begins one more run. -/
theorem begins (h : s.Follows i a₀ c k u) (all : c.lengths.length = k)
    (time : u.elapsed = c.beginAt k) (again : ∀ j, k = j + 1 → a₀.period.isZero = false)
    (length : Nat) : s.Follows i a₀ (c.add length) k (u.note (.began i u.now)) := by
  have hcount : (c.add length).lengths.length = c.lengths.length + 1 := by simp [Course.add]
  refine ⟨h.first, h.gap, ?_, h.start, h.skew, h.inRange, ?_, ?_, ?_, ?_⟩
  · intro hmany
    rw [hcount, all] at hmany
    cases k with
    | zero => exact absurd hmany (Nat.lt_irrefl 1)
    | succ j => exact again j rfl
  · have hbefore : ∀ j ∈ List.range c.lengths.length,
        s.reading ((c.add length).beginAt j) = s.reading (c.beginAt j) := by
      intro j hj
      rw [Course.beginAt_add (Nat.le_of_lt (List.mem_range.mp hj))]
    rw [hcount, List.range_succ, List.map_append, List.map_congr_left hbefore, ← h.begun, note,
      beginnings_began, List.reverse_cons, List.map_singleton,
      Course.beginAt_add (Nat.le_refl _), h.now_eq, time, all]
  · have hbefore : ∀ j ∈ List.range k,
        (⟨.succeeded, s.reading ((c.add length).endAt j), a₀.period⟩ : Return) =
          ⟨.succeeded, s.reading (c.endAt j), a₀.period⟩ := by
      intro j hj
      rw [Course.endAt_add (all ▸ List.mem_range.mp hj)]
    rw [List.map_congr_left hbefore, ← h.back]
    rfl
  · intro j hj
    rw [hcount] at hj
    have hle : j ≤ c.lengths.length := Nat.le_of_lt_succ hj
    rw [Course.beginAt_add hle]
    change c.beginAt j ≤ u.elapsed
    rw [time, ← all]
    exact Course.beginAt_mono hle
  · intro j hj
    rw [Course.endAt_add (all ▸ hj)]
    exact h.endAt_le j hj

/-- The vigil comes back from its last run. -/
theorem comesBack (h : s.Follows i a₀ c k u) (time : u.elapsed = c.endAt k) :
    s.Follows i a₀ c (k + 1) (u.note (.returned i ⟨.succeeded, u.now, a₀.period⟩)) := by
  refine ⟨h.first, h.gap, h.recurring, h.start, h.skew, h.inRange, h.begun, ?_, h.beginAt_le, ?_⟩
  · rw [List.range_succ, List.map_append, ← h.back, note, returns_returned, List.reverse_cons,
      List.map_singleton, h.now_eq, time]
  · intro j hj
    rcases Nat.lt_succ_iff_lt_or_eq.mp hj with hlt | rfl
    · exact h.endAt_le j hlt
    · exact Nat.le_of_eq time.symm

/-- The end of a vigil that has come back from its last run. -/
theorem finish (h : s.Follows i a₀ c (k + 1) u) (hx : u.vigils[i]? = some x)
    (count : c.lengths.length = k + 1)
    (last : a₀.period.isZero = true ∨ (s.reading (c.endAt k)).add? a₀.period = none)
    (ending : Ending) : s.OnCourse i v.alarm a₀ c (k + 1) (u.finish i v a ending) where
  follows := h.pass rfl rfl h.inRange (Nat.le_refl _) rfl rfl
  stage := ⟨{ v with phase := .ended ending }, Places.getElem?_set_self hx _, rfl,
    .closed count rfl last⟩

/-- After a run the vigil waits one period from then on, unless there is no period or the time is
out of range. -/
theorem rearm (h : s.Follows i a₀ c (k + 1) u) (hleap : s.start.inLeapSecond = false)
    (count : c.lengths.length = k + 1) (time : u.elapsed = c.endAt k)
    (hx : u.vigils[i]? = some x) (ha : u.alarms[v.alarm]? = some a) (holds : a.Holds a₀ v)
    (own : a.generation = v.generation) :
    s.OnCourse i v.alarm a₀ c (k + 1) (u.rearm i v a) := by
  have hcurrent : (a.isRevoked v.token || a.generation != v.generation) = false := by
    simp [holds.held, own]
  have hnow : u.now = s.reading (c.endAt k) := by rw [h.now_eq, time]
  simp only [Timetable.rearm]
  rw [hcurrent, if_neg Bool.false_ne_true]
  split
  · next once => exact h.finish hx count (Or.inl (holds.period ▸ once)) .finished
  · next recurring =>
      have recurring : a₀.period.isZero = false := by
        rw [← holds.period]
        simpa using recurring
      split
      · next due inRange =>
          rw [holds.period] at inRange
          have hstart : u.start.inLeapSecond = false := by rw [h.start]; exact hleap
          have htimer : u.timerFor due = c.beginAt (k + 1) := by
            rw [h.inRange.timerFor_add? hstart inRange, time, Course.beginAt_succ, h.gap]
          refine ⟨h.pass rfl rfl h.inRange (Nat.le_refl _) rfl rfl,
            { v with phase := .waiting (u.timerFor due), since := u.elapsed },
            Places.getElem?_set_self hx _, rfl, ?_⟩
          rw [← count]
          refine .pending (Places.getElem?_set_self ha { a with due })
            ⟨holds.held, holds.task, holds.period⟩ (Or.inr ?_) ?_ ?_ ?_
          · dsimp only
            rw [htimer, count]
          · intro hnone
            rw [hnone] at count
            cases count
          · intro j hj
            obtain rfl : k = j := by omega
            rw [hnow] at inRange
            exact ⟨recurring, inRange⟩
          · rw [count, Course.beginAt_succ, ← time]
            exact Nat.le_add_right _ _
      · next overflow =>
          rw [holds.period, hnow] at overflow
          have hlogged : s.Follows i a₀ c (k + 1) (u.log .warning "next fire time out of range") :=
            h.pass rfl rfl h.inRange (Nat.le_refl _) rfl rfl
          exact hlogged.finish hx count (Or.inr overflow) _

end Follows

theorem shiftClock_zero (t : Timetable) : t.shiftClock 0 = t := by
  simp [shiftClock]

/-- The vigil comes back from a run on time. -/
theorem Follows.endRun (h : s.Follows i a₀ c k u) (hleap : s.start.inLeapSecond = false)
    (count : c.lengths.length = k + 1) (time : u.elapsed = c.endAt k)
    (hx : u.vigils[i]? = some x) (ha : u.alarms[v.alarm]? = some a) (holds : a.Holds a₀ v)
    (own : a.generation = v.generation) {turn : Turn} (result : turn.result = .succeeded)
    (skew : turn.skew = 0) :
    s.OnCourse i v.alarm a₀ c (k + 1) (u.endRun i v a turn) := by
  simp only [Timetable.endRun]
  rw [skew, shiftClock_zero, result, holds.period]
  exact (h.comesBack time).rearm hleap count time hx ha holds own

/-- The vigil begins a run on time. A run that takes no time is over at once. -/
theorem Follows.fire (h : s.Follows i a₀ c k u) (hleap : s.start.inLeapSecond = false)
    (reliable : a₀.task.IsReliable) (all : c.lengths.length = k) (time : u.elapsed = c.beginAt k)
    (again : ∀ j, k = j + 1 → a₀.period.isZero = false) (hx : u.vigils[i]? = some x)
    (ha : u.alarms[v.alarm]? = some a) (holds : a.Holds a₀ v)
    (own : a.generation = v.generation) :
    ∃ ended, s.OnCourse i v.alarm a₀ (c.add (u.beginRun a₀.task).1.sleep) ended
      (u.fire i v a) := by
  obtain ⟨result, skew⟩ := reliable (u.note (.began i u.now))
  obtain ⟨runs, replies, journal, hbegun⟩ := (u.note (.began i u.now)).beginRun_eq a₀.task
  have hturn := congrArg Prod.fst (u.beginRun_note (.began i u.now) a₀.task)
  simp only [Timetable.fire]
  rw [holds.task]
  generalize (u.note (.began i u.now)).beginRun a₀.task = begun at *
  obtain ⟨turn, t⟩ := begun
  dsimp only at *
  rw [← hturn]
  have hcount : (c.add turn.sleep).lengths.length = k + 1 := by simp [Course.add, all]
  have hend : (c.add turn.sleep).endAt k = t.elapsed + turn.sleep := by
    rw [← all, Course.endAt_add_last, all, ← time, hbegun]
    rfl
  have hfollows : s.Follows i a₀ (c.add turn.sleep) k t := by
    rw [hbegun]
    exact (h.begins all time again turn.sleep).pass rfl rfl h.inRange (Nat.le_refl _) rfl rfl
  have hx' : t.vigils[i]? = some x := by rw [hbegun]; exact hx
  have ha' : t.alarms[v.alarm]? = some a := by rw [hbegun]; exact ha
  split
  · next none =>
      refine ⟨k + 1, hfollows.endRun hleap hcount ?_ hx' ha' holds own result skew⟩
      rw [hend, none]
      rfl
  · refine ⟨k, hfollows.pass rfl rfl hfollows.inRange (Nat.le_refl _) rfl rfl, _,
      Places.getElem?_set_self hx' _, rfl,
      .running ha' ⟨holds.held, holds.task, holds.period⟩ hcount ?_ result skew ?_⟩
    · rw [hend]
    · rw [hend]
      exact Nat.le_add_right _ _

theorem poll_of_setOut (hv : u.vigils[i]? = some v) (ha : u.alarms[v.alarm]? = some a)
    (phase : v.phase = .setOut) : u.poll i = u.fireOrWait i v a (u.timerFor a.due) := by
  simp only [Timetable.poll]
  rw [hv]
  dsimp only
  rw [ha]
  dsimp only
  rw [phase]

theorem poll_of_waiting (hv : u.vigils[i]? = some v) (ha : u.alarms[v.alarm]? = some a)
    {timer : Nat} (phase : v.phase = .waiting timer) : u.poll i = u.fireOrWait i v a timer := by
  simp only [Timetable.poll]
  rw [hv]
  dsimp only
  rw [ha]
  dsimp only
  rw [phase]

theorem poll_of_running (hv : u.vigils[i]? = some v) (ha : u.alarms[v.alarm]? = some a)
    {timer : Nat} {turn : Turn} (phase : v.phase = .running timer turn) :
    u.poll i = if timer ≤ u.elapsed then u.endRun i v a turn else u := by
  simp only [Timetable.poll]
  rw [hv]
  dsimp only
  rw [ha]
  dsimp only
  rw [phase]

theorem poll_of_ended (hv : u.vigils[i]? = some v) {ending : Ending}
    (phase : v.phase = .ended ending) : u.poll i = u := by
  simp only [Timetable.poll]
  rw [hv]
  dsimp only
  split
  · rfl
  · rw [phase]

/-- An alarm that lets its vigil go on is still in the generation of that vigil. -/
theorem generation_of_holds (hsound : u.core.Sound) (hv : u.vigils[i]? = some v)
    (ha : u.alarms[v.alarm]? = some a) (holds : a.Holds a₀ v) (isOpen : v.phase.isOpen = true) :
    a.generation = v.generation := by
  obtain ⟨b, hb, hgeneration, _⟩ :=
    hsound.alarm_of_live (c := u.core) hv ⟨isOpen, a, ha, holds.held⟩
  have hb : u.alarms[v.alarm]? = some b := hb
  rw [ha] at hb
  cases hb
  exact hgeneration.symm

/-- Set out or waiting, a vigil goes by the timer of its next run. -/
theorem Follows.poll_of_pending (h : s.Follows i a₀ c ended u) (hv : u.vigils[i]? = some v)
    (ha : u.alarms[v.alarm]? = some a)
    (phase : v.phase = .setOut ∧ u.elapsed = s.elapsed ∧ c.lengths = [] ∨
      v.phase = .waiting (c.beginAt c.lengths.length))
    (first : c.lengths = [] → a.due = a₀.due) :
    u.poll i = u.fireOrWait i v a (c.beginAt c.lengths.length) := by
  rcases phase with ⟨phase, time, hnone⟩ | phase
  · have htimer : u.timerFor a.due = c.beginAt c.lengths.length := by
      rw [hnone, first hnone]
      change u.timerFor a₀.due = c.first
      rw [h.first, timerFor, timerFor, h.now_eq, time, reading_elapsed]
    rw [poll_of_setOut hv ha phase, htimer]
  · exact poll_of_waiting hv ha phase

/-- A poll keeps a vigil to its course. -/
theorem OnCourse.poll (h : s.OnCourse i n a₀ c ended u) (hsound : u.core.Sound)
    (hleap : s.start.inLeapSecond = false) (reliable : a₀.task.IsReliable) :
    ∃ c' ended', s.OnCourse i n a₀ c' ended' (u.poll i) ∧
      (c'.lengths = c.lengths ∨ c'.lengths = c.lengths ++ [(u.beginRun a₀.task).1.sleep]) := by
  obtain ⟨follows, v, hv, rfl, stage⟩ := h
  cases stage with
  | @pending a ha holds phase first again early =>
      have isOpen : v.phase.isOpen = true := by
        rcases phase with ⟨hphase, _⟩ | hphase <;> rw [hphase] <;> rfl
      rw [follows.poll_of_pending hv ha phase first, fireOrWait, if_neg (by simp [holds.held])]
      split
      · next due =>
          obtain ⟨ended', hfire⟩ := follows.fire hleap reliable rfl (Nat.le_antisymm early due)
            (fun j hj => (again j hj).1) hv ha holds (generation_of_holds hsound hv ha holds isOpen)
          exact ⟨_, ended', hfire, Or.inr rfl⟩
      · refine ⟨c, _, ⟨follows.pass rfl rfl follows.inRange (Nat.le_refl _) rfl rfl, _,
          Places.getElem?_set_self hv _, rfl, .pending ha ?_ (Or.inr rfl) first again early⟩,
          Or.inl rfl⟩
        exact ⟨holds.held, holds.task, holds.period⟩
  | @running _ a turn ha holds count phase result skew early =>
      have isOpen : v.phase.isOpen = true := by rw [phase]; rfl
      rw [poll_of_running hv ha phase]
      split
      · next due =>
          exact ⟨c, ended + 1, follows.endRun hleap count (Nat.le_antisymm early due) hv ha holds
            (generation_of_holds hsound hv ha holds isOpen) result skew, Or.inl rfl⟩
      · exact ⟨c, ended, ⟨follows, v, hv, rfl,
          .running ha holds count phase result skew early⟩, Or.inl rfl⟩
  | @closed j ending count phase last =>
      rw [poll_of_ended hv phase]
      exact ⟨c, j + 1, ⟨follows, v, hv, rfl, .closed count phase last⟩, Or.inl rfl⟩

end

end Timetable

end Almanac
