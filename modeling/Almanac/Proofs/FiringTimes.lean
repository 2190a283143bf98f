import Almanac.Proofs.Accounting
import Almanac.Proofs.Course

/-!
# When runs begin

As long as nothing revises the alarm or shifts the clock, and no time passes over a vigil that is
ready, a start of a task whose runs all succeed keeps to its course, whatever other alarms and
vigils do in between: it begins its first run when its alarm is due, and each later one a period
after the end of the one before it.
-/

namespace Almanac

namespace Timetable

section

variable {s u : Timetable} {i n k ended : Nat} {a₀ a : Alarm} {c : Course} {v x : Vigil}

/-- Holds if so much time may pass that no timer of vigil `i` is left behind, and none passes
while it is set out. -/
def mayPass (t : Timetable) (i elapsed : Nat) : Bool :=
  match t.vigils[i]?.map Vigil.phase with
  | some .setOut => false
  | some (.waiting timer) => elapsed ≤ timer
  | some (.running timer _) => elapsed ≤ timer
  | _ => true

/-- An act that shifts no clock and does not revise alarm `n`, after which the clock is in range,
and over which vigil `i` is not left lying when it is ready. -/
structure Calm (t : Timetable) (n i : Nat) (act : Act) : Prop where
  skew : (t.act act).skew = t.skew
  inRange : (t.act act).InRange
  kept : (t.act act).annals.countP (Deed.revises n) = t.annals.countP (Deed.revises n)
  prompt : t.elapsed < (t.act act).elapsed → t.mayPass i (t.act act).elapsed = true

def Calmly (t : Timetable) (n i : Nat) : List Act → Prop
  | [] => True
  | act :: acts => t.Calm n i act ∧ (t.act act).Calmly n i acts

instance (t : Timetable) (n i : Nat) (act : Act) : Decidable (t.Calm n i act) :=
  decidable_of_iff ((t.act act).skew = t.skew ∧ (t.act act).InRange ∧
      (t.act act).annals.countP (Deed.revises n) = t.annals.countP (Deed.revises n) ∧
      (t.elapsed < (t.act act).elapsed → t.mayPass i (t.act act).elapsed = true))
    ⟨fun ⟨skew, inRange, kept, prompt⟩ => ⟨skew, inRange, kept, prompt⟩,
      fun ⟨skew, inRange, kept, prompt⟩ => ⟨skew, inRange, kept, prompt⟩⟩

instance decidableCalmly (t : Timetable) (n i : Nat) : (acts : List Act) →
    Decidable (t.Calmly n i acts)
  | [] => isTrue trivial
  | act :: acts =>
    have := decidableCalmly (t.act act) n i acts
    inferInstanceAs (Decidable (_ ∧ _))

namespace Calm

variable {act : Act}

theorem revises_eq_false (h : u.Calm n i act) {deeds : List Deed}
    (hdeeds : (u.act act).annals = deeds ++ u.annals) :
    ∀ deed ∈ deeds, deed.revises n = false :=
  Deed.revises_eq_false_of_countP hdeeds h.kept

/-- No time passes before the first poll of a vigil. -/
theorem elapsed_eq (h : u.Calm n i act) (hv : u.vigils[i]? = some v) (phase : v.phase = .setOut) :
    (u.act act).elapsed = u.elapsed := by
  by_contra hne
  have hlt : u.elapsed < (u.act act).elapsed := by
    have hle := (u.clock_act act).2
    omega
  have hprompt := h.prompt hlt
  simp only [mayPass] at hprompt
  rw [hv, Option.map_some, phase] at hprompt
  cases hprompt

/-- No timer of a vigil is left behind. -/
theorem elapsed_le (h : u.Calm n i act) (hv : u.vigils[i]? = some v) {timer : Nat}
    (phase : v.phase = .waiting timer ∨ ∃ turn, v.phase = .running timer turn)
    (early : u.elapsed ≤ timer) : (u.act act).elapsed ≤ timer := by
  rcases Nat.lt_or_ge u.elapsed (u.act act).elapsed with hlt | hge
  · have hprompt := h.prompt hlt
    simp only [mayPass] at hprompt
    rw [hv, Option.map_some] at hprompt
    rcases phase with phase | ⟨turn, phase⟩
    · rw [phase] at hprompt
      exact of_decide_eq_true hprompt
    · rw [phase] at hprompt
      exact of_decide_eq_true hprompt
  · exact Nat.le_trans hge early

end Calm

/-- Nothing else takes a vigil off its course. -/
theorem OnCourse.other (h : s.OnCourse i n a₀ c ended u) (hsound : u.core.Sound) {act : Act}
    (calm : u.Calm n i act) (hact : ¬ u.mayGive act (.move i)) :
    s.OnCourse i n a₀ c ended (u.act act) := by
  obtain ⟨follows, v, hv, rfl, stage⟩ := h
  have hsteps := u.steps_act act
  obtain ⟨deeds, hdeeds, hothers⟩ := hsteps.deeds_of_unmoved hact
  have hdeeds : (u.act act).annals = deeds ++ u.annals := hdeeds
  obtain ⟨hstart, helapsed⟩ := u.clock_act act
  have follows' : s.Follows i a₀ c ended (u.act act) := by
    refine follows.pass hstart calm.skew calm.inRange helapsed ?_ ?_
    · rw [hdeeds, beginnings_append hothers]
    · rw [hdeeds, returns_append hothers]
  have hsame : ∀ {a : Alarm}, u.alarms[v.alarm]? = some a → a.Holds a₀ v →
      v.phase.isOpen = true →
      (u.act act).vigils[i]? = some v ∧ (u.act act).alarms[v.alarm]? = some a := by
    intro a ha holds isOpen
    exact hsound.undisturbed hsteps hact hv ha ⟨isOpen, a, ha, holds.held⟩ hdeeds
      (calm.revises_eq_false hdeeds)
  cases stage with
  | @pending a ha holds phase first again early =>
      have isOpen : v.phase.isOpen = true := by
        rcases phase with ⟨hphase, _⟩ | hphase <;> rw [hphase] <;> rfl
      obtain ⟨hv', ha'⟩ := hsame ha holds isOpen
      rcases phase with ⟨hphase, time, hnone⟩ | hphase
      · have time' := calm.elapsed_eq hv hphase
        exact ⟨follows', v, hv', rfl, .pending ha' holds
          (Or.inl ⟨hphase, time'.trans time, hnone⟩) first again (time' ▸ early)⟩
      · exact ⟨follows', v, hv', rfl, .pending ha' holds (Or.inr hphase) first again
          (calm.elapsed_le hv (Or.inl hphase) early)⟩
  | @running _ a turn ha holds count phase result skew early =>
      obtain ⟨hv', ha'⟩ := hsame ha holds (by rw [phase]; rfl)
      exact ⟨follows', v, hv', rfl, .running ha' holds count phase result skew
        (calm.elapsed_le hv (Or.inr ⟨turn, phase⟩) early)⟩
  | closed count phase last =>
      have closed : v.phase.isOpen = false := by rw [phase]; rfl
      have hv' : (u.act act).vigils[i]? = some v := hsteps.closed hv closed
      exact ⟨follows', v, hv', rfl, .closed count phase last⟩

/-- A calm history keeps a vigil to its course: what it adds are the runs that its polls begin. -/
theorem OnCourse.run (h : s.OnCourse i n a₀ c ended u) (hsound : u.core.Sound)
    (hleap : s.start.inLeapSecond = false) (reliable : a₀.task.IsReliable) {acts : List Act}
    (calm : u.Calmly n i acts) :
    ∃ c' ended' more, s.OnCourse i n a₀ c' ended' (u.run acts) ∧ c'.lengths = c.lengths ++ more ∧
      ∀ length ∈ more, ∃ first rest, acts = first ++ .poll i :: rest ∧
        length = ((u.run first).beginRun a₀.task).1.sleep := by
  induction acts generalizing u c ended with
  | nil => exact ⟨c, ended, [], h, by simp, by simp⟩
  | cons act acts ih =>
      obtain ⟨calm, calmly⟩ := calm
      have hnext : ∃ c' ended', s.OnCourse i n a₀ c' ended' (u.act act) ∧
          (c'.lengths = c.lengths ∨
            act = .poll i ∧ c'.lengths = c.lengths ++ [(u.beginRun a₀.task).1.sleep]) := by
        by_cases hact : act = .poll i
        · subst hact
          obtain ⟨c', ended', hpoll, hlengths⟩ := h.poll hsound hleap reliable
          exact ⟨c', ended', hpoll, hlengths.imp_right fun hmore => ⟨rfl, hmore⟩⟩
        · exact ⟨c, ended, h.other hsound calm (mt mayGive_move_iff.mp hact), Or.inl rfl⟩
      obtain ⟨c', ended', honcourse, hlengths⟩ := hnext
      obtain ⟨c'', ended'', more, hrun, hmore, hbegun⟩ :=
        ih honcourse (hsound.steps (u.steps_act act)) calmly
      have hlater : ∀ length ∈ more, ∃ first rest, act :: acts = first ++ .poll i :: rest ∧
          length = ((u.run first).beginRun a₀.task).1.sleep := by
        intro length hlength
        obtain ⟨first, rest, hacts, hsleep⟩ := hbegun length hlength
        exact ⟨act :: first, rest, by rw [hacts, List.cons_append], hsleep⟩
      rcases hlengths with hlengths | ⟨hact, hlengths⟩
      · exact ⟨c'', ended'', more, hrun, by rw [hmore, hlengths], hlater⟩
      · refine ⟨c'', ended'', (u.beginRun a₀.task).1.sleep :: more, hrun, ?_, ?_⟩
        · rw [hmore, hlengths, List.append_assoc, List.singleton_append]
        · intro length hlength
          rcases List.mem_cons.mp hlength with rfl | hlength
          · exact ⟨[], acts, by rw [hact]; rfl, rfl⟩
          · exact hlater length hlength

/-- A vigil that nothing has polled yet is on its course. -/
theorem onCourse_self (inRange : s.InRange) (hv : s.vigils[i]? = some v) (phase : v.phase = .setOut)
    (live : s.core.IsLive v) (ha : s.alarms[v.alarm]? = some a) (unwritten : s.core.Unwritten) :
    s.OnCourse i v.alarm a ⟨s.timerFor a.due, a.period.ceilMillis, []⟩ 0 s := by
  have hnone : ∀ deed ∈ s.annals, deed.vigil? ≠ some i := by
    refine unwritten i ?_
    intro x hx
    have hx : s.vigils[i]? = some x := hx
    rw [hv] at hx
    cases hx
    exact phase
  have hbegun := beginnings_append hnone []
  have hback := returns_append hnone []
  rw [List.append_nil] at hbegun hback
  obtain ⟨_, b, hb, held⟩ := live
  have hb : s.alarms[v.alarm]? = some b := hb
  rw [ha] at hb
  cases hb
  refine ⟨⟨rfl, rfl, fun many => absurd many (Nat.not_lt_zero 1), rfl, rfl, inRange, ?_, ?_, ?_,
    ?_⟩, v, hv, rfl, .pending ha ⟨held, rfl, rfl⟩ (Or.inl ⟨phase, rfl, rfl⟩) (fun _ => rfl) ?_ ?_⟩
  · rw [hbegun]
    rfl
  · rw [hback]
    rfl
  · intro k hk
    cases hk
  · intro k hk
    cases hk
  · intro k hk
    cases hk
  · exact Nat.le_add_right _ _

/-- The clock is not yet where the time of the next run would be out of range. -/
theorem Follows.lt_of_overflow (h : s.Follows i a₀ c (k + 1) u) (hs : s.InRange)
    (hleap : s.start.inLeapSecond = false)
    (overflow : (s.reading (c.endAt k)).add? a₀.period = none) :
    u.elapsed < c.beginAt (k + 1) := by
  by_contra late
  rw [Course.beginAt_succ, h.gap, Span.ceilMillis] at late
  have hfirst : s.elapsed ≤ c.endAt k := by
    have hmono : c.beginAt 0 ≤ c.beginAt k := Course.beginAt_mono (Nat.zero_le k)
    have hend := c.beginAt_le_endAt k
    have hzero : s.elapsed ≤ c.beginAt 0 := by
      change s.elapsed ≤ c.first
      rw [h.first]
      exact Nat.le_add_right _ _
    omega
  have hback := h.endAt_le k (Nat.lt_succ_self k)
  obtain ⟨hend, hleap'⟩ := hs.reading_eq h.inRange hleap h.start h.skew hfirst hback
  obtain ⟨hnow, _⟩ := hs.reading_eq h.inRange hleap h.start h.skew
    (Nat.le_trans hfirst hback) (Nat.le_refl _)
  have hsome := h.inRange.isSome_add? (h.start ▸ hleap) hleap' (s := a₀.period) (by
    rw [h.now_eq, hend, hnow]
    omega)
  rw [overflow] at hsome
  cases hsome

/-- A vigil that is not ready has begun all the runs whose time has come. -/
theorem OnCourse.caughtUp (h : s.OnCourse i n a₀ c ended u) (hs : s.InRange)
    (hleap : s.start.inLeapSecond = false) (hx : u.vigils[i]? = some x)
    (waits : u.isReady x = false) :
    (u.elapsed < c.beginAt c.lengths.length ∨
      c.lengths.length = 1 ∧ a₀.period.isZero = true) ∧
    (ended = c.lengths.length ∨ c.lengths.length = ended + 1 ∧ u.elapsed < c.endAt ended) := by
  obtain ⟨follows, v, hv, rfl, stage⟩ := h
  rw [hv] at hx
  cases hx
  cases stage with
  | pending ha holds phase first again early =>
      refine ⟨Or.inl ?_, Or.inl rfl⟩
      rcases phase with ⟨hphase, _⟩ | hphase
      · rw [isReady, hphase] at waits
        cases waits
      · rw [isReady, hphase] at waits
        simp only [Bool.or_eq_false_iff, decide_eq_false_iff_not] at waits
        exact Nat.lt_of_not_le waits.1
  | running ha holds count phase result skew early =>
      rw [isReady, phase] at waits
      have hlt : u.elapsed < c.endAt ended := by simpa using waits
      refine ⟨Or.inl ?_, Or.inr ⟨count, hlt⟩⟩
      rw [count, Course.beginAt_succ]
      exact Nat.lt_of_lt_of_le hlt (Nat.le_add_right _ _)
  | @closed j ending count phase last =>
      refine ⟨?_, Or.inl count.symm⟩
      rcases last with once | overflow
      · right
        refine ⟨?_, once⟩
        by_contra hne
        have hmany : 1 < c.lengths.length := by omega
        rw [follows.recurring hmany] at once
        cases once
      · rw [count]
        exact Or.inl (follows.lt_of_overflow hs hleap overflow)

/-- The runs that have begun are those whose time has come, and those that have come back are
those of them whose time is over. -/
theorem OnCourse.lt_iff (h : s.OnCourse i n a₀ c ended u) (hs : s.InRange)
    (hleap : s.start.inLeapSecond = false) (hx : u.vigils[i]? = some x)
    (waits : u.isReady x = false) (k : Nat) :
    (k < c.lengths.length ↔ c.beginAt k ≤ u.elapsed ∧ (k = 0 ∨ a₀.period.isZero = false)) ∧
      (k < ended ↔ k < c.lengths.length ∧ c.endAt k ≤ u.elapsed) := by
  obtain ⟨hnext, hended⟩ := h.caughtUp hs hleap hx waits
  constructor
  · constructor
    · intro hk
      refine ⟨h.follows.beginAt_le k hk, ?_⟩
      cases k with
      | zero => exact Or.inl rfl
      | succ k => exact Or.inr (h.follows.recurring (by omega))
    · rintro ⟨hcome, hrecurring⟩
      by_contra hk
      rcases hnext with hlt | ⟨hone, once⟩
      · have hmono : c.beginAt c.lengths.length ≤ c.beginAt k :=
          Course.beginAt_mono (Nat.le_of_not_lt hk)
        omega
      · rcases hrecurring with rfl | recurring
        · omega
        · rw [recurring] at once
          cases once
  · constructor
    · intro hk
      refine ⟨?_, h.follows.endAt_le k hk⟩
      rcases hended with rfl | ⟨hcount, _⟩
      · exact hk
      · omega
    · rintro ⟨hk, hover⟩
      rcases hended with rfl | ⟨hcount, hlt⟩
      · exact hk
      · by_contra hnot
        obtain rfl : k = ended := by omega
        omega

/-- While a vigil waits for its next run, its alarm is set to one period after the end of the last
one. -/
theorem OnCourse.due_eq (h : s.OnCourse i n a₀ c ended u) (hx : u.vigils[i]? = some x)
    {timer : Nat} (phase : x.phase = .waiting timer) (ha : u.alarms[n]? = some a) :
    timer = c.beginAt ended ∧ (ended = 0 → a.due = a₀.due) ∧
      ∀ k, ended = k + 1 → (s.reading (c.endAt k)).add? a₀.period = some a.due := by
  obtain ⟨follows, v, hv, rfl, stage⟩ := h
  rw [hv] at hx
  cases hx
  cases stage with
  | pending ha' holds hphase first again early =>
      rw [ha] at ha'
      cases ha'
      refine ⟨?_, ?_, fun k hk => (again k hk).2⟩
      · rcases hphase with ⟨hphase, _⟩ | hphase
        · rw [phase] at hphase
          cases hphase
        · rw [phase] at hphase
          cases hphase
          rfl
      · intro hnone
        exact first (List.eq_nil_of_length_eq_zero hnone)
  | running ha' holds count hphase result skew early =>
      rw [phase] at hphase
      cases hphase
  | closed count hphase last =>
      rw [phase] at hphase
      cases hphase

/-- The wait for an instant outside leap seconds. -/
theorem InRange.timerFor_eq (h : s.InRange) (hleap : s.start.inLeapSecond = false) {due : Instant}
    (hdue : due.inLeapSecond = false) :
    (s.now < due → s.timerFor due =
      s.elapsed + ((due.sinceEpoch - s.now.sinceEpoch).toNat + (10 ^ 6 - 1)) / 10 ^ 6) ∧
    (¬ s.now < due → s.timerFor due = s.elapsed) := by
  obtain ⟨_, hnow⟩ := h.now_eq hleap
  rw [Instant.lt_iff_sinceEpoch hnow hdue]
  simp only [timerFor]
  rw [Instant.between_eq hnow hdue]
  refine ⟨fun _ => rfl, ?_⟩
  intro hcome
  omega

end

/-- A vigil that is set out for a task whose runs all succeed, and that a calm history leaves
alone, has a course. It is given by the wait for the alarm at the start, by the period, and by how
long the runs take, and says exactly when the runs begin and end: none is early, left out, doubled
or made up for. Between two runs the alarm is set to one period after the end of the last one. -/
theorem firing_times (start : Instant) (source : IdSource) (replies : List RestartReply)
    (before later : List Act) (i : Nat) (v : Vigil) (a : Alarm)
    (hleap : start.inLeapSecond = false) :
    let s := (opening start source replies).run before
    let u := s.run later
    s.InRange → s.vigils[i]? = some v → v.phase = .setOut → s.core.IsLive v →
    s.alarms[v.alarm]? = some a → a.task.IsReliable → s.Calmly v.alarm i later →
    ∃ (c : Course) (ended : Nat),
      (c.first = s.elapsed + ((s.now.between a.due).toNat + (10 ^ 6 - 1)) / 10 ^ 6 ∧
        (a.due.inLeapSecond = false →
          (s.now < a.due → c.first =
            s.elapsed + ((a.due.sinceEpoch - s.now.sinceEpoch).toNat + (10 ^ 6 - 1)) / 10 ^ 6) ∧
          (¬ s.now < a.due → c.first = s.elapsed))) ∧
      c.gap = a.period.ceilMillis ∧
      (∀ length ∈ c.lengths, ∃ first rest, later = first ++ .poll i :: rest ∧
        length = ((s.run first).beginRun a.task).1.sleep) ∧
      (∀ millis, s.elapsed ≤ millis → millis ≤ u.elapsed →
        (s.reading millis).sinceEpoch = s.now.sinceEpoch + (millis - s.elapsed) * 10 ^ 6 ∧
          (s.reading millis).inLeapSecond = false) ∧
      (beginnings i u.annals).reverse =
        (List.range c.lengths.length).map (fun k => s.reading (c.beginAt k)) ∧
      (returns i u.annals).reverse =
        (List.range ended).map (fun k => ⟨.succeeded, s.reading (c.endAt k), a.period⟩) ∧
      (∀ x, u.vigils[i]? = some x → u.isReady x = false → ∀ k,
        (k < c.lengths.length ↔ c.beginAt k ≤ u.elapsed ∧ (k = 0 ∨ a.period.isZero = false)) ∧
          (k < ended ↔ k < c.lengths.length ∧ c.endAt k ≤ u.elapsed)) ∧
      (∀ x timer b, u.vigils[i]? = some x → x.phase = .waiting timer →
        u.alarms[v.alarm]? = some b →
        timer = c.beginAt ended ∧ (ended = 0 → b.due = a.due) ∧
          ∀ k, ended = k + 1 → (s.reading (c.endAt k)).add? a.period = some b.due) ∧
      (a.period.isZero = true → c.lengths.length ≤ 1) ∧
      ∀ length, (∀ l ∈ c.lengths, l = length) → ∀ k < c.lengths.length,
        c.beginAt k = c.first + k * (c.gap + length) := by
  intro s u inRange hv phase live ha reliable calm
  have hsound : s.core.Sound := sound_run start source replies before
  have hunwritten : s.core.Unwritten :=
    (unwritten_opening start source replies).steps (steps_run _ before)
  have hstart : s.start = start := start_run _ before
  rw [← hstart] at hleap
  obtain ⟨c, ended, more, hon, hmore, hlengths⟩ :=
    (onCourse_self inRange hv phase live ha hunwritten).run hsound hleap reliable calm
  have hfollows := hon.follows
  rw [List.nil_append] at hmore
  rw [← hmore] at hlengths
  refine ⟨c, ended, ⟨hfollows.first, ?_⟩, hfollows.gap, hlengths, ?_, hfollows.begun,
    hfollows.back, ?_, ?_, ?_, ?_⟩
  · intro hdue
    rw [hfollows.first]
    exact inRange.timerFor_eq hleap hdue
  · intro millis hle hle'
    exact inRange.reading_eq hfollows.inRange hleap hfollows.start hfollows.skew hle hle'
  · intro x hx waits k
    exact hon.lt_iff inRange hleap hx waits k
  · intro x timer b hx waiting hb
    exact hon.due_eq hx waiting hb
  · intro once
    by_contra many
    rw [hfollows.recurring (Nat.lt_of_not_le many)] at once
    cases once
  · intro length hlength k hk
    exact Course.beginAt_of_constant hlength (Nat.le_of_lt hk)

/-- A run of five milliseconds is due within the second millisecond, and once more a minute after
it has come back. -/
theorem firing_times_of_pause :
    let due : Instant := { day := 0, second := 0, nano := 1500000 }
    let paused : Entry := { task := .pause ⟨5000000, by decide⟩, due, period := .minute }
    let s := (opening .epoch {} []).run [.setUp paused, .start 0]
    let later : List Act :=
      [.poll 0, .pass 2, .poll 0, .pass 5, .poll 0, .pass 60000, .poll 0]
    s.Calmly 0 0 later ∧
      ∃ c : Course, c.first = 2 ∧ c.gap = 60000 ∧
        (beginnings 0 (s.run later).annals).reverse =
          (List.range c.lengths.length).map (fun k => s.reading (c.beginAt k)) := by
  intro due paused s later
  let vigil : Vigil := { alarm := 0, token := 0, generation := 1, since := 0 }
  let alarm : Alarm := { Alarm.ofEntry paused with status := .running, generation := 1 }
  have calm : s.Calmly 0 0 later := by decide +kernel
  obtain ⟨c, _, ⟨_, hfirst⟩, hgap, _, _, hbegun, _⟩ :=
    firing_times .epoch {} [] [.setUp paused, .start 0] later 0 vigil alarm (by decide)
      (by decide +kernel) rfl rfl ⟨rfl, alarm, rfl, rfl⟩ rfl (fun _ => ⟨rfl, rfl⟩) calm
  have hnow : s.now < due := by decide +kernel
  refine ⟨calm, c, ?_, hgap.trans (by decide), hbegun⟩
  exact ((hfirst (by decide)).1 hnow).trans (by decide +kernel)

/-- A clock never shows an instant inside a leap second, but an alarm may be set to one. Where that
instant has just passed, its second still counts, and the wait for it is not over: of 2016-12-31
23:59:60.5, at 2017-01-01 00:00:00.2, there are 0.3 seconds left. -/
theorem late_of_leap_second :
    let due : Instant := { day := 17166, second := 86399, nano := 1500000000 }
    let paused : Entry := { task := .pause .zero, due, period := .zero }
    let late : Instant := { day := 17167, second := 0, nano := 500000000 }
    let s := (opening { day := 17166, second := 86399, nano := 0 } {} []).run
      [.pass 1200, .setUp paused, .start 0]
    let later : List Act := [.poll 0, .pass 300, .poll 0]
    s.vigils.map Vigil.phase = [.setOut] ∧ s.Calmly 0 0 later ∧ ¬ s.now < due ∧
      s.now < late ∧ beginnings 0 (s.run [.poll 0]).annals = [] ∧
      beginnings 0 (s.run later).annals = [late] := by
  decide +kernel

end Timetable

end Almanac
