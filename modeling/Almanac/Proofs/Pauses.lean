import Almanac.Proofs.Policies
import Almanac.Proofs.Undisturbed

/-!
# The pause between two runs

A start begins its next run no sooner than a period after the last one has come back, and a period
is a minute or longer. So whoever does what to a timetable, as long as its clock is not set back,
no start fires twice within a minute.
-/

namespace Almanac

/-- A return comes a period before a time, in nanoseconds since 1970, and no less than a minute. -/
structure Return.Precedes (r : Return) (time : Int) : Prop where
  minute : Span.minute ≤ r.period
  period : r.time.sinceEpoch + r.period.nanos ≤ time

/-- Vigil `i` has begun no run, or its last run has come back so long before a time. -/
def HasRested (i : Nat) (annals : List Deed) (time : Int) : Prop :=
  beginnings i annals = [] ∨
    ∃ r before, lastReturn? i annals = some (r, before) ∧ r.Precedes time

/-- Every vigil had rested when it began a run. -/
def IsSpaced : List Deed → Prop
  | [] => True
  | .began i time :: earlier => HasRested i earlier time.sinceEpoch ∧ IsSpaced earlier
  | _ :: earlier => IsSpaced earlier

section

variable {i j : Nat} {annals deeds : List Deed} {time later : Int}

theorem HasRested.mono (h : HasRested i annals time) (hle : time ≤ later) :
    HasRested i annals later := by
  rcases h with hnone | ⟨r, before, hlast, hprecedes⟩
  · exact Or.inl hnone
  · exact Or.inr ⟨r, before, hlast, hprecedes.minute, Int.le_trans hprecedes.period hle⟩

/-- What other vigils do is no run of this one. -/
theorem HasRested.append (h : HasRested i annals time) (hother : ∀ d ∈ deeds, d.vigil? ≠ some i) :
    HasRested i (deeds ++ annals) time := by
  induction deeds with
  | nil => exact h
  | cons d deeds ih =>
    have hd := hother d List.mem_cons_self
    rcases ih fun e he => hother e (List.mem_cons_of_mem _ he) with hnone | ⟨r, before, hlast, hr⟩
    · exact Or.inl ((beginnings_cons hd _).trans hnone)
    · exact Or.inr ⟨r, before, (lastReturn?_cons hd _).trans hlast, hr⟩

theorem IsSpaced.append (h : IsSpaced annals) (hquiet : ∀ d ∈ deeds, d.vigil? = none) :
    IsSpaced (deeds ++ annals) := by
  induction deeds with
  | nil => exact h
  | cons d deeds ih =>
    have hrest := ih fun e he => hquiet e (List.mem_cons_of_mem _ he)
    have hd := hquiet d List.mem_cons_self
    cases d <;> first | exact hrest | cases hd

theorem IsSpaced.rested {later earlier : List Deed} {time : Instant}
    (h : IsSpaced (later ++ .began i time :: earlier)) : HasRested i earlier time.sinceEpoch := by
  induction later with
  | nil => exact h.1
  | cons d later ih =>
    cases d with
    | began j other => exact ih h.2
    | _ => exact ih h

end

namespace Passage

variable {i j n : Nat} {p : Passage} {annals : List Deed}

theorem vigil?_of_mem_deeds {d : Deed} (hd : d ∈ p.deeds i n) (hij : i ≠ j) :
    d.vigil? ≠ some j := by
  obtain ⟨_, _, _, _, _, began, returned, rearmed, ended⟩ := p
  simp only [deeds, List.mem_append, Option.mem_toList, Option.map_eq_some_iff] at hd
  rcases hd with ((⟨_, _, rfl⟩ | ⟨_, _, rfl⟩) | ⟨_, _, rfl⟩) | ⟨_, _, rfl⟩ <;>
    simp [Deed.vigil?, hij]

/-- A passage leaves the annals spaced if the vigil has rested that begins a run with it. -/
theorem isSpaced_deeds (h : IsSpaced annals)
    (hbegan : ∀ time, p.began = some time → HasRested i annals time.sinceEpoch) (n : Nat) :
    IsSpaced (p.deeds i n ++ annals) := by
  obtain ⟨_, _, _, _, _, began, returned, rearmed, ended⟩ := p
  cases began with
  | none => cases returned <;> cases rearmed <;> cases ended <;> exact h
  | some time =>
    have hrested := hbegan time rfl
    cases returned <;> cases rearmed <;> cases ended <;> exact ⟨hrested, h⟩

/-- The run that has come back last is the one that the passage has come back from. -/
theorem lastReturn?_deeds {r : Return} (hreturned : p.returned = some r) (i n : Nat)
    (annals : List Deed) : ∃ before, lastReturn? i (p.deeds i n ++ annals) = some (r, before) := by
  obtain ⟨_, _, _, _, _, began, _, rearmed, ended⟩ := p
  cases hreturned
  refine ⟨(began.map (.began i)).toList ++ annals, ?_⟩
  cases began <;> cases rearmed <;> cases ended <;> simp [deeds, lastReturn?]

end Passage

namespace Vigil

variable {v : Vigil} {a : Alarm} {m : Moment} {turn : Turn} {timer : Nat}

/-- The passage has set the alarm again after a run: one period after the reading of the clock. -/
structure Rearms (p : Passage) (a : Alarm) (m : Moment) (timer : Nat) (due : Instant) : Prop where
  set : p.due = due
  recurring : a.period.isZero = false
  inRange : (m.shift p.shift).now.add? a.period = some due
  timer : timer = (m.shift p.shift).timerFor due
  returned : p.returned = some ⟨.succeeded, (m.shift p.shift).now, a.period⟩

theorem rearms_of_comeBack (h : (v.comeBack a m turn).phase = .waiting timer) :
    ∃ due, Rearms (v.comeBack a m turn) a m timer due := by
  simp only [comeBack, Passage.returning, judge, goOn] at h
  split at h
  · cases h
  · cases h
  · next hresult =>
    split at h
    · cases h
    · next current =>
      split at h
      · cases h
      · next recurring =>
        split at h
        · next due inRange =>
          cases h
          refine ⟨due, ?_, Bool.eq_false_iff.mpr recurring, inRange, rfl, ?_⟩
          · simp only [comeBack, Passage.returning, judge, hresult, goOn, current, recurring,
              inRange]
            rfl
          · simp only [comeBack, Passage.returning, hresult]
        · cases h

/-- A vigil that waits after a passage was waiting before, or its alarm has been set again. -/
theorem waiting_of_passage (v : Vigil) (a : Alarm) (m : Moment) (turn : Turn) (timer : Nat)
    (h : (v.passage a m turn).phase = .waiting timer) :
    v.pendingTimer? a m = some timer ∧ v.passage a m turn = v.wait a timer ∨
      ∃ due, Rearms (v.passage a m turn) a m timer due := by
  have hway := v.way a m turn
  generalize v.passage a m turn = p at *
  cases hway with
  | quits pending revoked => cases h
  | setsOff pending held due =>
    right
    simp only [setOff] at h ⊢
    split at h
    · next quick =>
      rw [if_pos quick]
      obtain ⟨due, hdue, recurring, inRange, htimer, returned⟩ := rearms_of_comeBack h
      exact ⟨due, hdue, recurring, inRange, htimer, returned⟩
    · cases h
  | waits pending held early =>
    cases h
    exact Or.inl ⟨pending, rfl⟩
  | comesBack running due => exact Or.inr (rearms_of_comeBack h)
  | stays pending waiting =>
    have h : v.phase = .waiting timer := h
    rw [pendingTimer?, h] at pending
    cases pending

end Vigil

namespace Core

variable {c d : Core} {i : Nat} {v : Vigil} {may : Impulse → Prop}

/-- Without a move no vigil has a part in what is written down. -/
theorem Steps.quiet (hsteps : Steps may c d) (hmay : ∀ i, ¬may (.move i)) :
    ∃ deeds, d.annals = deeds ++ c.annals ∧ ∀ deed ∈ deeds, deed.vigil? = none := by
  obtain ⟨deeds, hdeeds, _⟩ := hsteps.deeds_of_unmoved (hmay 0)
  refine ⟨deeds, hdeeds, fun deed hdeed => Option.eq_none_iff_forall_ne_some.mpr fun i hi => ?_⟩
  obtain ⟨others, hothers, hnot⟩ := hsteps.deeds_of_unmoved (hmay i)
  rw [hdeeds] at hothers
  rw [← List.append_cancel_right hothers] at hnot
  exact hnot deed hdeed hi

end Core

namespace Timetable

variable {t u : Timetable}

/-- What the clock shows, in nanoseconds since 1970, when so many milliseconds have passed. -/
def clockAt (t : Timetable) (millis : Nat) : Int :=
  t.start.sinceEpoch + (millis + t.skew) * 10 ^ 6

/-- Every vigil that waits will have rested when its timer comes, and all have rested that ever
began a run. -/
structure Spaced (t : Timetable) : Prop where
  plain : t.start.inLeapSecond = false
  inRange : t.InRange
  checked : t.Checked
  unwritten : t.core.Unwritten
  begun : IsSpaced t.annals
  waits : ∀ {i timer : Nat} {v : Vigil}, t.vigils[i]? = some v → v.phase = .waiting timer →
    HasRested i t.annals (t.clockAt timer)

theorem spaced_opening {start : Instant} (plain : start.inLeapSecond = false) (source : IdSource)
    (replies : List RestartReply) : (opening start source replies).Spaced where
  plain := plain
  inRange := by
    simp only [InRange, opening]
    rw [Instant.move?_eq plain]
    simpa using Instant.isSome_ofEpoch?_sinceEpoch plain
  checked := .opening start source replies
  unwritten := unwritten_opening start source replies
  begun := trivial
  waits := by
    intro i timer v hv
    cases hv

/-- The timer for a time that lies a span ahead comes when the clock has gone that far. -/
theorem InRange.add_le_clockAt (h : t.InRange) (plain : t.start.inLeapSecond = false)
    {length : Span} {due : Instant} (hdue : t.now.add? length = some due) :
    t.now.sinceEpoch + length.nanos ≤ t.clockAt (t.timerFor due) := by
  have hnow : t.now.sinceEpoch = t.clockAt t.elapsed := (h.now_eq plain).1
  rw [h.timerFor_add? plain hdue, hnow]
  simp only [clockAt, Span.ceilMillis]
  omega

namespace Spaced

/-- A vigil that is set out or waits has rested when its time comes. -/
theorem rested_of_pending (h : t.Spaced) {i timer : Nat} {v : Vigil} {a : Alarm}
    (hv : t.vigils[i]? = some v) (hpending : v.pendingTimer? a t.moment = some timer)
    (time : Int) (hle : t.clockAt timer ≤ time) : HasRested i t.annals time := by
  simp only [Vigil.pendingTimer?] at hpending
  split at hpending
  · next hphase =>
    have hnone : ∀ d ∈ t.annals, d.vigil? ≠ some i := by
      refine h.unwritten i fun x hx => ?_
      rw [show t.core.vigils[i]? = some v from hv] at hx
      cases hx
      exact hphase
    have hbegun := beginnings_append hnone []
    rw [List.append_nil] at hbegun
    exact Or.inl hbegun
  · next hphase =>
    cases hpending
    exact (h.waits hv hphase).mono hle
  · cases hpending

theorem now_eq (h : t.Spaced) : t.now.sinceEpoch = t.clockAt t.elapsed :=
  (h.inRange.now_eq h.plain).1

theorem clockAt_mono {millis later : Nat} (start : u.start = t.start) (skew : t.skew ≤ u.skew)
    (hle : millis ≤ later) : t.clockAt millis ≤ u.clockAt later := by
  simp only [clockAt]
  rw [start]
  omega

/-- A poll that does not set the clock back. -/
theorem poll (h : t.Spaced) (i : Nat) (skew : t.skew ≤ (t.poll i).skew)
    (inRange : (t.poll i).InRange) : (t.poll i).Spaced := by
  rcases t.poll_cases i with hsame | ⟨v, a, hv, ha⟩
  · rw [hsame]
    exact h
  · have hcore := core_poll hv ha
    have hmoment := moment_poll hv ha
    have hway := v.passage_began a t.moment (t.beginRun a.task).1
    have hwaits := v.waiting_of_passage a t.moment (t.beginRun a.task).1
    generalize v.passage a t.moment (t.beginRun a.task).1 = p at *
    have hstart : (t.poll i).start = t.start := congrArg Moment.start hmoment
    have hvigils : (t.poll i).vigils = _ := congrArg Core.vigils hcore
    have hannals : (t.poll i).annals = p.deeds i v.alarm ++ t.annals := congrArg Core.annals hcore
    have plain : (t.poll i).start.inLeapSecond = false := hstart ▸ h.plain
    have hsteps : Core.Steps (fun _ => True) t.core (t.poll i).core :=
      (t.moves_poll i).steps trivial
    refine ⟨plain, inRange, h.checked.poll i, h.unwritten.steps hsteps, ?_, ?_⟩
    · rw [hannals]
      refine Passage.isSpaced_deeds h.begun ?_ _
      intro time htime
      rw [hway] at htime
      split at htime
      · next due =>
        cases htime
        obtain ⟨_, timer, hpending, hcome⟩ := Vigil.isDue_iff.mp due
        refine h.rested_of_pending hv hpending _ ?_
        rw [now_moment, h.now_eq]
        exact clockAt_mono rfl (Int.le_refl _) hcome
      · cases htime
    · intro j timer w hw waiting
      rw [hannals]
      rw [hvigils] at hw
      dsimp only [Core.follow, core] at hw
      rw [Places.getElem?_set hv] at hw
      split at hw
      · next hij =>
        subst hij
        cases hw
        rcases hwaits timer waiting with ⟨hpending, rfl⟩ | ⟨due, rearms⟩
        · exact (h.rested_of_pending hv hpending _ (clockAt_mono hstart skew (Nat.le_refl _)))
        · -- the timer was set by this very poll, from the reading at which its run came back
          obtain ⟨before, hlast⟩ := Passage.lastReturn?_deeds rearms.returned i v.alarm t.annals
          refine Or.inr ⟨_, before, hlast, ?_, ?_⟩
          · exact (checkPeriod_eq_ok_iff.mp (Checked.mem ha h.checked)).resolve_left
              (Bool.eq_false_iff.mp rearms.recurring) |>.1
          · have hnow : (t.poll i).moment.now.add? a.period = some due :=
              hmoment ▸ rearms.inRange
            have htimer : timer = (t.poll i).moment.timerFor due := hmoment ▸ rearms.timer
            rw [← hmoment, htimer]
            exact inRange.add_le_clockAt plain hnow
      · next hij =>
        refine ((h.waits hw waiting).mono (clockAt_mono hstart skew (Nat.le_refl _))).append ?_
        intro d hd
        exact Passage.vigil?_of_mem_deeds hd hij

/-- What is no poll leaves every vigil as rested as it was. -/
theorem still (h : t.Spaced) {may : Core.Impulse → Prop} (hsteps : Core.Steps may t.core u.core)
    (hmay : ∀ i, ¬may (.move i)) (start : u.start = t.start) (skew : t.skew ≤ u.skew)
    (inRange : u.InRange) (checked : u.Checked) : u.Spaced := by
  obtain ⟨deeds, hdeeds, hquiet⟩ := hsteps.quiet hmay
  have hannals : u.annals = deeds ++ t.annals := hdeeds
  refine ⟨start ▸ h.plain, inRange, checked, h.unwritten.steps hsteps, ?_, ?_⟩
  · rw [hannals]
    exact h.begun.append hquiet
  · intro i timer v hv waiting
    rcases Core.Steps.unmoved hsteps (hmay i) with hsame | ⟨_, hnew⟩
    · have hold : t.vigils[i]? = some v := hsame.symm.trans hv
      rw [hannals]
      refine ((h.waits hold waiting).mono (clockAt_mono start skew (Nat.le_refl _))).append ?_
      intro d hd
      rw [hquiet d hd]
      exact (Option.some_ne_none i).symm
    · have hphase := hnew v hv
      rw [waiting] at hphase
      cases hphase

end Spaced

/-- A use of the roster is none of the alarms and of the clock. -/
theorem touch_roster (t : Timetable) {x : Touch} (hx : ∀ act, x ≠ .act act) :
    (t.touch x).core = t.core ∧ (t.touch x).clockwork = t.clockwork := by
  cases x with
  | act act => exact absurd rfl (hx act)
  | add e => exact ⟨rfl, rfl⟩
  | amend e =>
    simp only [touch]
    split <;> exact ⟨rfl, rfl⟩
  | strike id =>
    simp only [touch, strike]
    split <;> exact ⟨rfl, rfl⟩
  | release id handle => exact ⟨rfl, rfl⟩

/-- A touch after which the clock shows no earlier time, and one that is in range. -/
structure TouchedOnward (t u : Timetable) : Prop where
  touched : t.Touched u
  onward : ¬u.now < t.now
  inRange : u.InRange

/-- A clock that is not set back has no less of a lead over the timers than before. -/
theorem Spaced.skew_le (h : t.Spaced) (start : u.start = t.start)
    (hclock : u.elapsed = t.elapsed ∨ u.skew = t.skew) (onward : ¬u.now < t.now)
    (inRange : u.InRange) : t.skew ≤ u.skew := by
  rcases hclock with helapsed | hskew
  · obtain ⟨hnow, hplain⟩ := inRange.now_eq (start ▸ h.plain)
    obtain ⟨hbefore, hplain'⟩ := h.inRange.now_eq h.plain
    rw [Instant.lt_iff_sinceEpoch hplain hplain', hnow, hbefore, start, helapsed] at onward
    omega
  · exact Int.le_of_eq hskew.symm

theorem Spaced.touched (h : t.Spaced) (htouched : t.TouchedOnward u) : u.Spaced := by
  obtain ⟨htouched, onward, inRange⟩ := htouched
  have checked := h.checked.touched htouched
  obtain ⟨x, offered⟩ := htouched
  by_cases hx : ∃ act, x = .act act
  · obtain ⟨act, rfl⟩ := hx
    have hskew := h.skew_le (t.clock_act act).1 (t.elapsed_or_skew_act act) onward inRange
    by_cases hact : ∃ i, act = .poll i
    · obtain ⟨i, rfl⟩ := hact
      exact h.poll i hskew inRange
    · refine h.still (t.steps_act act) ?_ (t.clock_act act).1 hskew inRange checked
      intro i hgive
      cases act with
      | poll j => exact hact ⟨j, rfl⟩
      | create task plan => cases hgive
      | update id plan =>
        obtain ⟨n, _, hstart⟩ := hgive
        cases hstart
      | start alarm => cases hgive
      | _ => exact hgive
  · obtain ⟨hcore, hclock⟩ := t.touch_roster fun act heq => hx ⟨act, heq⟩
    have hsteps : Core.Steps (fun _ => False) t.core (t.touch x).core := hcore ▸ .refl
    refine h.still hsteps (fun _ => id) ?_ ?_ inRange checked
    · exact congrArg (fun c => c.1) hclock
    · exact Int.le_of_eq (congrArg (fun c => c.2.2) hclock).symm

theorem Spaced.touches (h : t.Spaced) (hsteps : Relation.ReflTransGen TouchedOnward t u) :
    u.Spaced := by
  induction hsteps with
  | refl => exact h
  | tail _ hstep ih => exact ih.touched hstep

/-- Whoever uses a timetable and its parts, whatever for and in which order: every entry and every
alarm has a period that is admissible, and a time that is accepted for the next fire, be it for a
new entry or in place of another, is not before what the clock shows then. And if the clock is never
set back, and was not set going inside a leap second, every run of a start but the first begins when
the last one has come back, a period and no less than a minute before. -/
theorem policies_kept (start : Instant) (source : IdSource) (replies : List RestartReply) :
    (∀ t, Relation.ReflTransGen Touched (opening start source replies) t →
      ((∀ e ∈ t.roster.entries, e.period.isZero = true ∨
          Span.minute ≤ e.period ∧ e.period.nanos ≤ Span.displacementLimit) ∧
        ∀ a ∈ t.alarms, a.period.isZero = true ∨
          Span.minute ≤ a.period ∧ a.period.nanos ≤ Span.displacementLimit) ∧
      (∀ task plan e, Entry.new task plan t.now = .ok e → ¬e.due < t.now) ∧
      (∀ old plan e, Entry.replan old plan t.now = .ok e → ¬e.due < t.now) ∧
      (∀ n plan u, t.replanAlarm n plan = .ok u →
        ∃ a, u.alarms[n]? = some a ∧ ¬a.due < t.now) ∧
      (∀ task plan view, (t.create task plan).1 = .ok view → ¬view.due < t.now) ∧
      ∀ id plan view, (t.update id plan).1 = .ok view → ¬view.due < t.now) ∧
    (start.inLeapSecond = false → ∀ t,
      Relation.ReflTransGen TouchedOnward (opening start source replies) t →
      ∀ later i time earlier, t.annals = later ++ .began i time :: earlier →
        beginnings i earlier ≠ [] →
        ∃ r before, lastReturn? i earlier = some (r, before) ∧ Span.minute ≤ r.period ∧
          r.time.sinceEpoch + r.period.nanos ≤ time.sinceEpoch) := by
  constructor
  · intro t hsteps
    have hchecked : t.Checked := (Checked.opening start source replies).touches hsteps
    refine ⟨⟨fun e he => checkPeriod_eq_ok_iff.mp (hchecked.entries e he),
      fun a ha => checkPeriod_eq_ok_iff.mp (hchecked.alarms a ha)⟩, ?_, ?_, ?_, ?_, ?_⟩
    · intro task plan e hnew
      exact Entry.due_of_policyOf (Entry.policyOf_of_new hnew)
    · intro old plan e hreplan
      exact Entry.due_of_policyOf (Entry.policyOf_of_replan hreplan)
    · intro n plan u hreplan
      obtain ⟨a, b, ha, hb, rfl⟩ := replanAlarm_ok hreplan
      obtain ⟨due, period, hpolicy, rfl⟩ := Alarm.replan_ok hb
      exact ⟨_, Places.getElem?_set_self ha _, Entry.due_of_policyOf hpolicy⟩
    · intro task plan view hcreate
      exact due_of_create hcreate
    · intro id plan view hupdate
      exact due_of_update hupdate
  · intro plain t hsteps later i time earlier hannals hbegun
    have hspaced : t.Spaced := (spaced_opening plain source replies).touches hsteps
    have hbegun' := hspaced.begun
    rw [hannals] at hbegun'
    obtain ⟨r, before, hlast, hprecedes⟩ := hbegun'.rested.resolve_left hbegun
    exact ⟨r, before, hlast, hprecedes.minute, hprecedes.period⟩

/-- An entry is built and added straight to the roster. An alarm is set up for it and started, and
runs twice. -/
theorem policies_kept_of_twice :
    let e : Entry := { task := .pause .zero, due := .epoch, period := .minute }
    let touches : List Touch := [.add e, .act (.setUp e), .act (.start 0), .act (.poll 0),
      .act (.pass 60000), .act (.poll 0)]
    let s (k : Nat) : Timetable := (touches.take k).foldl touch (opening .epoch {} [])
    Relation.ReflTransGen TouchedOnward (s 0) (s 6) ∧
      (∀ stored ∈ (s 6).roster.entries, stored.period.isZero = true ∨
        Span.minute ≤ stored.period ∧ stored.period.nanos ≤ Span.displacementLimit) ∧
      ∃ r before, lastReturn? 0 (s 4).annals = some (r, before) ∧ Span.minute ≤ r.period ∧
        r.time.sinceEpoch + r.period.nanos ≤ (s 6).now.sinceEpoch := by
  intro e touches s
  have built : e.IsBuilt := 
    .new (rfl : Entry.new (.pause .zero) (.recurring .epoch .minute) .epoch = .ok e)
  have offered : ∀ x ∈ touches, ∀ {u : Timetable} {o : Entry}, x.entry? = some o → u.Offers o := by
    intro x hx u o ho
    simp only [touches, List.mem_cons, List.not_mem_nil, or_false] at hx
    rcases hx with rfl | rfl | rfl | rfl | rfl | rfl <;> cases ho <;> exact Or.inl built
  have hclock : ∀ k < 6, ¬(s (k + 1)).now < (s k).now ∧ (s (k + 1)).InRange := by decide +kernel
  have hreach : ∀ k ≤ 6, Relation.ReflTransGen TouchedOnward (s 0) (s k) := by
    intro k hk
    induction k with
    | zero => exact .refl
    | succ k ih =>
      have hlt : k < touches.length := hk
      have hnext : s (k + 1) = (s k).touch touches[k] := by
        simp only [s]
        rw [List.take_succ_eq_append_getElem hlt, List.foldl_append]
        rfl
      obtain ⟨onward, inRange⟩ := hclock k hk
      have htouched : (s k).Touched (s (k + 1)) :=
        hnext ▸ .by _ fun o => offered _ (List.getElem_mem hlt)
      exact (ih (Nat.le_of_succ_le hk)).tail ⟨htouched, onward, inRange⟩
  obtain ⟨hkept, hspaced⟩ := policies_kept .epoch {} []
  have htouched : Relation.ReflTransGen Touched (s 0) (s 6) :=
    Relation.ReflTransGen.mono (fun _ _ h => h.touched) _ _ (hreach 6 (Nat.le_refl 6))
  refine ⟨hreach 6 (Nat.le_refl 6), (hkept _ htouched).1.1, ?_⟩
  exact hspaced rfl _ (hreach 6 (Nat.le_refl 6)) ((s 6).annals.take 2) 0 (s 6).now (s 4).annals
    (by decide +kernel) (by decide +kernel)

end Timetable

end Almanac
