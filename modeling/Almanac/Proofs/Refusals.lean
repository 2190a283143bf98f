import Almanac.Proofs.Agreement

/-!
# Refused requests

As long as the source of ids does not break off, a request is refused for two reasons only: its
plan is not admissible, or there is no entry of its id. A refused request leaves no trace.
-/

namespace Almanac

/-- Why a plan is refused at a reading of the clock. The time counts first, then the lower bound of
the period, then the upper one. -/
inductive Plan.Refused (now : Instant) (plan : Plan) : PlanError → Prop
  | inPast {time : Instant} (asked : plan.first = some time) (past : time < now) :
      Refused now plan (.inPast time now)
  | tooShort (timely : ∀ time, plan.first = some time → ¬ time < now)
      (recurring : plan.period.isZero = false) (short : plan.period < .minute) :
      Refused now plan (.periodOutOfRange plan.period .minute)
  | tooLong (timely : ∀ time, plan.first = some time → ¬ time < now)
      (notShort : plan.period.isZero = true ∨ ¬ plan.period < .minute)
      (long : plan.period.isDisplacement = false) :
      Refused now plan (.periodTooLarge plan.period)

theorem firstFire_eq_error_iff {asked : Option Instant} {now : Instant} {cause : PlanError} :
    firstFire asked now = .error cause ↔
      ∃ time, asked = some time ∧ time < now ∧ cause = .inPast time now := by
  cases asked with
  | none => simp [firstFire]
  | some time =>
      simp only [firstFire]
      split
      · next past => simp [past, eq_comm]
      · next timely => simp [timely]

theorem exists_firstFire_eq_ok_iff {asked : Option Instant} {now : Instant} :
    (∃ due, firstFire asked now = .ok due) ↔ ∀ time, asked = some time → ¬ time < now := by
  cases asked with
  | none => simp [firstFire]
  | some time =>
      simp only [firstFire]
      split
      · next past => simp [past]
      · next timely => simp [timely]

theorem checkPeriod_eq_error_iff {period : Span} {cause : PlanError} :
    checkPeriod period = .error cause ↔
      (period.isZero = false ∧ period < .minute ∧
        cause = .periodOutOfRange period .minute) ∨
      ((period.isZero = true ∨ ¬ period < .minute) ∧ period.isDisplacement = false ∧
        cause = .periodTooLarge period) := by
  simp only [checkPeriod]
  split
  · next short =>
      obtain ⟨recurring, short⟩ : period.isZero = false ∧ period < .minute := by simpa using short
      constructor
      · intro h
        cases h
        exact Or.inl ⟨recurring, short, rfl⟩
      · rintro (⟨_, _, rfl⟩ | ⟨once | late, _⟩)
        · rfl
        · rw [recurring] at once
          cases once
        · exact absurd short late
  · next notShort =>
      have notShort : period.isZero = false → ¬ period < .minute := by simpa using notShort
      have hright : period.isZero = true ∨ ¬ period < .minute := by
        cases hzero : period.isZero with
        | true => exact Or.inl rfl
        | false => exact Or.inr (notShort hzero)
      split
      · next movable =>
          constructor
          · intro h
            cases h
          · rintro (⟨recurring, short, _⟩ | ⟨_, long, _⟩)
            · exact absurd short (notShort recurring)
            · rw [movable] at long
              cases long
      · next long =>
          have long : period.isDisplacement = false := Bool.eq_false_iff.mpr long
          constructor
          · intro h
            cases h
            exact Or.inr ⟨hright, long, rfl⟩
          · rintro (⟨recurring, short, _⟩ | ⟨_, _, rfl⟩)
            · exact absurd short (notShort recurring)
            · rfl

theorem Entry.policyOf_eq_error_iff {plan : Plan} {now : Instant} {cause : PlanError} :
    Entry.policyOf plan now = .error cause ↔ plan.Refused now cause := by
  have hsplit : Entry.policyOf plan now = .error cause ↔
      firstFire plan.first now = .error cause ∨
        (∃ due, firstFire plan.first now = .ok due) ∧ checkPeriod plan.period = .error cause := by
    refine bind_eq_error_iff.trans (or_congr_right ?_)
    constructor
    · rintro ⟨due, hfirst, hrest⟩
      rcases bind_eq_error_iff.mp hrest with hperiod | ⟨_, _, h⟩
      · exact ⟨⟨due, hfirst⟩, hperiod⟩
      · cases h
    · rintro ⟨⟨due, hfirst⟩, hperiod⟩
      exact ⟨due, hfirst, bind_eq_error_iff.mpr (Or.inl hperiod)⟩
  rw [hsplit, firstFire_eq_error_iff, exists_firstFire_eq_ok_iff, checkPeriod_eq_error_iff]
  constructor
  · rintro (⟨time, asked, past, rfl⟩ |
      ⟨timely, ⟨recurring, short, rfl⟩ | ⟨notShort, long, rfl⟩⟩)
    · exact .inPast asked past
    · exact .tooShort timely recurring short
    · exact .tooLong timely notShort long
  · intro h
    cases h with
    | inPast asked past => exact Or.inl ⟨_, asked, past, rfl⟩
    | tooShort timely recurring short => exact Or.inr ⟨timely, Or.inl ⟨recurring, short, rfl⟩⟩
    | tooLong timely notShort long => exact Or.inr ⟨timely, Or.inr ⟨notShort, long, rfl⟩⟩

theorem Alarm.replan_eq_error_iff {a : Alarm} {plan : Plan} {now : Instant} {cause : AlarmError} :
    a.replan plan now = .error cause ↔ ∃ e, plan.Refused now e ∧ cause = .plan e := by
  simp only [Alarm.replan]
  cases hpolicy : Entry.policyOf plan now with
  | error e =>
      have hrefused := Entry.policyOf_eq_error_iff.mp hpolicy
      constructor
      · intro h
        cases h
        exact ⟨e, hrefused, rfl⟩
      · rintro ⟨e', hrefused', rfl⟩
        rw [Entry.policyOf_eq_error_iff.mpr hrefused'] at hpolicy
        cases hpolicy
        rfl
  | ok policy =>
      constructor
      · intro h
        cases h
      · rintro ⟨e', hrefused', _⟩
        rw [Entry.policyOf_eq_error_iff.mpr hrefused'] at hpolicy
        cases hpolicy

namespace IdSource

theorem countUp_script (live : List Nat) (fuel next rejected : Nat) :
    (countUp live fuel next rejected).source.script = [] := by
  induction fuel generalizing next rejected with
  | zero => rfl
  | succ fuel ih =>
      rw [countUp]
      split
      · rfl
      · exact ih _ _

/-- Without a gap a search finds an id, and leaves no gap. -/
theorem search_whole (live : List Nat) (next : Nat) {script : List (Option Nat)}
    (h : none ∉ script) (rejected : Nat) :
    (∃ id, (search live next script rejected).id = some id) ∧
      none ∉ (search live next script rejected).source.script := by
  induction script generalizing rejected with
  | nil =>
      obtain ⟨id, hid, _⟩ := countUp_fresh
        (List.length_filter_le (fun c => decide (next ≤ c)) (0 :: live)) rejected
      rw [search]
      refine ⟨⟨id, hid⟩, ?_⟩
      rw [countUp_script]
      exact List.not_mem_nil
  | cons candidate script ih =>
      obtain ⟨hcandidate, hscript⟩ := not_or.mp (mt List.mem_cons.mpr h)
      cases candidate with
      | none => exact absurd rfl hcandidate
      | some candidate =>
          rw [search]
          split
          · exact ⟨⟨candidate, rfl⟩, hscript⟩
          · exact ih hscript _

end IdSource

/-- A roster in use whose source has no gap. -/
structure Roster.Whole (r : Roster) : Prop where
  sound : r.isSpoiled = false
  script : none ∉ r.source.script

theorem Roster.Whole.drawn {r : Roster} (h : r.Whole) :
    ∃ id, (r.source.draw r.ids).id = some id ∧ none ∉ (r.source.draw r.ids).source.script := by
  obtain ⟨⟨id, hid⟩, hscript⟩ :=
    IdSource.search_whole r.ids r.source.next h.script 0
  exact ⟨id, hid, hscript⟩

theorem Roster.Whole.released {r : Roster} (h : r.Whole) (id handle : Nat) :
    (r.released id handle).Whole := by
  simp only [Roster.released]
  split
  · next hrelease =>
      rcases Roster.release_ok hrelease with rfl | rfl
      · exact h
      · exact ⟨h.sound, h.script⟩
  · exact h

namespace Timetable

variable {t : Timetable} {id : Nat} {plan : Plan}

/-- A roster stays in use, whatever is asked of it. -/
theorem Posted.whole_act (h : t.Posted) (whole : t.roster.Whole) {act : Act}
    (hact : act.isDirect = false) : (t.act act).roster.Whole := by
  have houtcome := h.outcome hact
  generalize t.act act = u at houtcome
  have hsame : ∀ {l : Ledger}, u.ledger = l → l.roster.Whole → u.roster.Whole := by
    intro l ledger hroster
    rw [← ledger] at hroster
    exact hroster
  cases houtcome with
  | idle core ledger failed => exact hsame ledger whole
  | broken core ledger cause entries spoiled failed =>
      obtain ⟨id, hid, _⟩ := whole.drawn
      rcases cause with already | none
      · rw [whole.sound] at already
        cases already
      · rw [hid] at none
        cases none
  | polled i moves ledger => exact hsame ledger whole
  | watched watcher waiting vigil closed core ledger =>
      refine hsame ledger ?_
      dsimp only
      split
      · exact whole.released _ _
      · exact whole
  | created journal policy same handle sound drawn started result =>
      obtain ⟨_, _, hscript⟩ := whole.drawn
      exact ⟨rfl, hscript⟩
  | updated post found alarm replanned started result => exact ⟨whole.sound, whole.script⟩
  | removed post alarm result => exact ⟨whole.sound, whole.script⟩
  | stopped alarms deeds deeds_cancelled stops => exact whole

theorem Agrees.whole_run (h : t.Agrees) (whole : t.roster.Whole) {acts : List Act}
    (hacts : ∀ act ∈ acts, act.isDirect = false) : (t.run acts).roster.Whole := by
  induction acts generalizing t with
  | nil => exact whole
  | cons act acts ih =>
      obtain ⟨hact, hacts⟩ := List.forall_mem_cons.mp hacts
      exact ih (h.act hact) (h.whole_act whole hact) hacts

/-- A create is refused for its plan only, and then changes nothing. -/
theorem Posted.create_eq_error_iff (h : t.Posted) (whole : t.roster.Whole) {task : Task}
    {cause : Failure TimetableError} :
    ((t.create task plan).1 = .error cause ↔
      ∃ e, plan.Refused t.now e ∧ cause = .refused (.plan e)) ∧
    ((t.create task plan).1 = .error cause → (t.create task plan).2 = t) := by
  rcases h.create_cases task plan with
    ⟨e, hpolicy, hcreate⟩ | ⟨_, _, _, hbroken, _⟩ | ⟨_, _, _, hpolicy, _, _, _, _, _, hcreate⟩
  · have hrefused := Entry.policyOf_eq_error_iff.mp hpolicy
    rw [hcreate]
    refine ⟨⟨?_, ?_⟩, fun _ => rfl⟩
    · intro h
      cases h
      exact ⟨e, hrefused, rfl⟩
    · rintro ⟨e', hrefused', rfl⟩
      rw [Entry.policyOf_eq_error_iff.mpr hrefused'] at hpolicy
      cases hpolicy
      rfl
  · obtain ⟨id, hid, _⟩ := whole.drawn
    rcases hbroken with spoiled | none
    · rw [whole.sound] at spoiled
      cases spoiled
    · rw [hid] at none
      cases none
  · rw [hcreate]
    refine ⟨⟨?_, ?_⟩, ?_⟩
    · intro h
      cases h
    · rintro ⟨e', hrefused', rfl⟩
      rw [Entry.policyOf_eq_error_iff.mpr hrefused'] at hpolicy
      cases hpolicy
    · intro h
      cases h

/-- An update is refused for its id or for its plan, and then changes nothing. -/
theorem Posted.update_eq_error_iff (h : t.Posted) (sound : t.roster.isSpoiled = false)
    {cause : Failure TimetableError} :
    ((t.update id plan).1 = .error cause ↔
      id ∉ t.roster.ids ∧ cause = .refused (.roster (.notFound id)) ∨
      id ∈ t.roster.ids ∧ ∃ e, plan.Refused t.now e ∧ cause = .refused (.alarm (.plan e))) ∧
    ((t.update id plan).1 = .error cause → (t.update id plan).2 = t) := by
  by_cases hid : id ∈ t.roster.ids
  · obtain ⟨x, hx, rfl⟩ := List.mem_map.mp hid
    obtain ⟨n, hmem⟩ := h.exists_post hx
    have hpost := h.post?_eq_some_iff.mpr hmem
    have hfound := Roster.byId_of_mem sound h.nodup hx
    obtain ⟨a, ha, _⟩ := h.alarm hmem
    cases hreplan : a.replan plan t.now with
    | error e =>
        rw [update_of_refused hpost hfound ha hreplan]
        obtain ⟨e, hrefused, rfl⟩ := Alarm.replan_eq_error_iff.mp hreplan
        refine ⟨⟨?_, ?_⟩, fun _ => rfl⟩
        · intro h
          cases h
          exact Or.inr ⟨hid, e, hrefused, rfl⟩
        · rintro (⟨hnot, _⟩ | ⟨_, e', hrefused', rfl⟩)
          · exact absurd hid hnot
          · rw [Alarm.replan_eq_error_iff.mpr ⟨e', hrefused', rfl⟩] at hreplan
            cases hreplan
            rfl
    | ok y =>
        obtain ⟨b, _, hupdate⟩ := update_of_replan hpost hfound ha hreplan
        rw [hupdate]
        refine ⟨⟨?_, ?_⟩, ?_⟩
        · intro h
          cases h
        · rintro (⟨hnot, _⟩ | ⟨_, e', hrefused', rfl⟩)
          · exact absurd hid hnot
          · rw [Alarm.replan_eq_error_iff.mpr ⟨e', hrefused', rfl⟩] at hreplan
            cases hreplan
        · intro h
          cases h
  · rw [h.update_of_missing hid plan]
    refine ⟨⟨?_, ?_⟩, fun _ => rfl⟩
    · intro h
      cases h
      exact Or.inl ⟨hid, rfl⟩
    · rintro (⟨_, rfl⟩ | ⟨hmem, _⟩)
      · rfl
      · exact absurd hmem hid

/-- A remove is refused for its id only, and then changes nothing. -/
theorem Posted.remove_eq_error_iff (h : t.Posted) (sound : t.roster.isSpoiled = false)
    {cause : TimetableError} :
    ((t.remove id).1 = .error cause ↔ id ∉ t.roster.ids ∧ cause = .roster (.notFound id)) ∧
    ((t.remove id).1 = .error cause → (t.remove id).2 = t) := by
  by_cases hid : id ∈ t.roster.ids
  · obtain ⟨_, _, _, _, hremove⟩ := h.remove_of_mem sound hid
    rw [hremove]
    simp [hid]
  · rw [h.remove_of_missing sound hid]
    simp [hid, eq_comm]

theorem get_eq_error_iff (sound : t.roster.isSpoiled = false) {cause : TimetableError} :
    t.get id = .error cause ↔ id ∉ t.roster.ids ∧ cause = .roster (.notFound id) := by
  simp only [get, entryOf]
  cases hfound : t.roster.byId id with
  | error e =>
      rw [Roster.byId_of_not_spoiled sound] at hfound
      cases hfound
  | ok found =>
      cases found with
      | none => simp [Except.map, Roster.byId_none hfound, eq_comm]
      | some e =>
          obtain ⟨he, rfl⟩ := Roster.byId_some hfound
          have hid : e.id ∈ t.roster.ids := List.mem_map_of_mem he
          simp [Except.map, hid]

/-- Holds of the reasons that some request to the timetable is refused for. -/
def Refuses (t : Timetable) (cause : TimetableError) : Prop :=
  (∃ task plan, (t.create task plan).1 = .error (.refused cause)) ∨
  (∃ id plan, (t.update id plan).1 = .error (.refused cause)) ∨
  (∃ id, (t.remove id).1 = .error cause) ∨ (∃ id, t.get id = .error cause) ∨
  t.list = .error cause ∨ t.size = .error cause

/-- Only plans and ids are at fault. -/
theorem Posted.of_refuses (h : t.Posted) (whole : t.roster.Whole) {cause : TimetableError}
    (hrefuses : t.Refuses cause) :
    (∃ id, cause = .roster (.notFound id)) ∨ (∃ e, cause = .plan e) ∨
      ∃ e, cause = .alarm (.plan e) := by
  rcases hrefuses with ⟨task, plan, h'⟩ | ⟨id, plan, h'⟩ | ⟨id, h'⟩ | ⟨id, h'⟩ | h' | h'
  · obtain ⟨e, _, he⟩ := (h.create_eq_error_iff whole).1.mp h'
    cases he
    exact Or.inr (Or.inl ⟨e, rfl⟩)
  · rcases (h.update_eq_error_iff whole.sound).1.mp h' with ⟨_, he⟩ | ⟨_, e, _, he⟩
    · cases he
      exact Or.inl ⟨id, rfl⟩
    · cases he
      exact Or.inr (Or.inr ⟨e, rfl⟩)
  · exact Or.inl ⟨id, ((h.remove_eq_error_iff whole.sound).1.mp h').2⟩
  · exact Or.inl ⟨id, ((get_eq_error_iff whole.sound).mp h').2⟩
  · simp only [list, Roster.all, Roster.sound] at h'
    rw [whole.sound] at h'
    cases h'
  · simp only [size, Roster.size, Roster.sound] at h'
    rw [whole.sound] at h'
    cases h'

/-- In every history of requests, polls and time whose source of ids does not break off: a create
is refused exactly if its plan is not admissible, an update exactly if there is no entry of its id
or else its plan is not admissible, a remove and a reading exactly if there is no entry of the id.
No request is ever refused because an alarm runs, does not run, or because an entry has an id
already. What is refused leaves the whole timetable as it was. -/
theorem refusals_exact (start : Instant) (source : IdSource) (replies : List RestartReply)
    (acts : List Act) (hacts : ∀ act ∈ acts, act.isDirect = false)
    (hsource : none ∉ source.script) :
    let t := (opening start source replies).run acts
    (∀ task plan cause,
      ((t.create task plan).1 = .error cause ↔
        ∃ e, plan.Refused t.now e ∧ cause = .refused (.plan e)) ∧
      ((t.create task plan).1 = .error cause → (t.create task plan).2 = t)) ∧
    (∀ id plan cause,
      ((t.update id plan).1 = .error cause ↔
        id ∉ t.roster.ids ∧ cause = .refused (.roster (.notFound id)) ∨
        id ∈ t.roster.ids ∧ ∃ e, plan.Refused t.now e ∧ cause = .refused (.alarm (.plan e))) ∧
      ((t.update id plan).1 = .error cause → (t.update id plan).2 = t)) ∧
    (∀ id cause,
      ((t.remove id).1 = .error cause ↔ id ∉ t.roster.ids ∧ cause = .roster (.notFound id)) ∧
      ((t.remove id).1 = .error cause → (t.remove id).2 = t)) ∧
    (∀ id cause,
      t.get id = .error cause ↔ id ∉ t.roster.ids ∧ cause = .roster (.notFound id)) ∧
    ∀ cause, t.Refuses cause → cause ≠ .alarm .alreadyRunning ∧ cause ≠ .alarm .notRunning ∧
      ∀ id, cause ≠ .roster (.alreadyAdded id) := by
  intro t
  have hagrees : t.Agrees := (agrees_opening start source replies).run hacts
  have whole : t.roster.Whole :=
    (agrees_opening start source replies).whole_run ⟨rfl, hsource⟩ hacts
  refine ⟨?_, ?_, ?_, ?_, ?_⟩
  · intro task plan cause
    exact hagrees.create_eq_error_iff whole
  · intro id plan cause
    exact hagrees.update_eq_error_iff whole.sound
  · intro id cause
    exact hagrees.remove_eq_error_iff whole.sound
  · intro id cause
    exact get_eq_error_iff whole.sound
  · intro cause hrefuses
    rcases hagrees.of_refuses whole hrefuses with ⟨id, rfl⟩ | ⟨e, rfl⟩ | ⟨e, rfl⟩ <;> simp

/-- While the alarm of an entry runs, a plan for it is refused that repeats every nanosecond, and
the alarm runs on. -/
theorem refusals_exact_of_running :
    let t := (opening .epoch {} []).run [.create (.pause .zero) .once]
    let plan : Plan := ⟨none, ⟨1, by decide⟩⟩
    (t.update 1001 plan).1 =
        .error (.refused (.alarm (.plan (.periodOutOfRange plan.period .minute)))) ∧
      (t.update 1001 plan).2.statusOf? 1001 = some .running := by
  intro t plan
  have hrefused : plan.Refused t.now (.periodOutOfRange plan.period .minute) :=
    .tooShort (fun time asked => by cases asked) (by decide) (by decide)
  obtain ⟨_, hupdate, _⟩ :=
    refusals_exact .epoch {} [] [.create (.pause .zero) .once] (by simp [Act.isDirect]) (by simp)
  obtain ⟨hiff, hsame⟩ := hupdate 1001 plan
    (.refused (.alarm (.plan (.periodOutOfRange plan.period .minute))))
  have hresult := hiff.mpr (Or.inr ⟨by decide +kernel, _, hrefused, rfl⟩)
  refine ⟨hresult, ?_⟩
  rw [hsame hresult]
  decide +kernel

end Timetable

end Almanac
