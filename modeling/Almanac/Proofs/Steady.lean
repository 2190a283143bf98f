import Almanac.Proofs.Agreement
import Almanac.Proofs.Readiness

/-!
# Steady timetables

Where no run of a task moves the clock, the clock stands still as long as there are only polls.
Requests see to it that every alarm has a period that has passed its check.
-/

namespace Almanac

/-- Every run of the task leaves the clock alone. -/
def Task.LeavesClock (task : Task) : Prop :=
  ∀ t : Timetable, (t.beginRun task).1.skew = 0

/-- The act adds no task that moves the clock. -/
def Act.LeavesClock : Act → Prop
  | create task _ => task.LeavesClock
  | _ => True

/-- What happens by itself is no command to an alarm, and adds no task. -/
theorem Act.isService_of_isSpontaneous {act : Act} (h : act.isSpontaneous = true) :
    act.isDirect = false ∧ act.LeavesClock := by
  cases act with
  | pass millis => exact ⟨rfl, trivial⟩
  | poll vigil => exact ⟨rfl, trivial⟩
  | pollWatcher watcher => exact ⟨rfl, trivial⟩
  | _ => cases h

/-- An alarm whose period has passed its check, and whose task leaves the clock alone. -/
structure Alarm.Steady (a : Alarm) : Prop where
  period : checkPeriod a.period = .ok ()
  task : a.task.LeavesClock

theorem Alarm.Steady.congr {a b : Alarm} (h : a.Steady) (period : b.period = a.period)
    (task : b.task = a.task) : b.Steady :=
  ⟨period ▸ h.period, task ▸ h.task⟩

theorem Entry.period_of_policyOf {plan : Plan} {now due : Instant} {period : Span}
    (h : Entry.policyOf plan now = .ok (due, period)) : checkPeriod period = .ok () := by
  obtain ⟨first, _, hcheck⟩ := bind_eq_ok_iff.mp h
  obtain ⟨_, hperiod, hpolicy⟩ := bind_eq_ok_iff.mp hcheck
  cases hpolicy
  exact hperiod

namespace Vigil

variable {v : Vigil} {a : Alarm} {m : Moment} {turn current : Turn} {timer : Nat}

/-- Only an open vigil is ready. -/
theorem isOpen_of_isReady {elapsed : Nat} (h : v.isReady a elapsed = true) :
    v.phase.isOpen = true := by
  simp only [isReady] at h
  split at h
  · next hphase => rw [hphase]; rfl
  · next hphase => rw [hphase]; rfl
  · next hphase => rw [hphase]; rfl
  · cases h
  · cases h

/-- A vigil that has come back is not running. -/
theorem comeBack_not_running (v : Vigil) (a : Alarm) (m : Moment) (turn : Turn) :
    (v.comeBack a m turn).phase ≠ .running timer current := by
  intro h
  simp only [comeBack, judge, goOn, Passage.returning] at h
  split at h
  · cases h
  · cases h
  · split at h
    · cases h
    · split at h
      · cases h
      · split at h <;> cases h

/-- A vigil runs as it did before, or as the run goes on that it has begun. -/
theorem running_of_passage (h : (v.passage a m turn).phase = .running timer current) :
    v.phase = .running timer current ∨ current = turn := by
  have hway := v.way a m turn
  generalize v.passage a m turn = p at *
  cases hway with
  | quits pending revoked => cases h
  | setsOff pending held due =>
      simp only [setOff] at h
      split at h
      · exact absurd h (v.comeBack_not_running a m turn)
      · cases h
        exact Or.inr rfl
  | waits pending held early => cases h
  | comesBack running due => exact absurd h (v.comeBack_not_running a m _)
  | stays pending waiting => exact Or.inl h

/-- The clock stands still during a passage if the run that ends leaves it alone. -/
theorem passage_shift (hcurrent : ∀ timer current, v.phase = .running timer current →
    current.skew = 0) (hturn : turn.skew = 0) : (v.passage a m turn).shift = 0 := by
  have hway := v.way a m turn
  generalize v.passage a m turn = p at *
  cases hway with
  | quits pending revoked => rfl
  | setsOff pending held due =>
      simp only [setOff]
      split
      · exact hturn
      · rfl
  | waits pending held early => rfl
  | comesBack running due => exact hcurrent _ _ running
  | stays pending waiting => rfl

end Vigil

namespace Timetable

/-- Every alarm is steady, and so is every run that is under way. -/
structure Steady (t : Timetable) : Prop where
  alarms : ∀ {n : Nat} {a : Alarm}, t.alarms[n]? = some a → a.Steady
  turns : ∀ {i timer : Nat} {v : Vigil} {turn : Turn}, t.vigils[i]? = some v →
    v.phase = .running timer turn → turn.skew = 0

variable {t : Timetable}

theorem steady_opening (start : Instant) (source : IdSource) (replies : List RestartReply) :
    (opening start source replies).Steady where
  alarms := by
    intro n a ha
    cases ha
  turns := by
    intro i timer v turn hv
    cases hv

namespace Steady

/-- How the runs go on that may begin or end with a passage. -/
theorem shift_passage (h : t.Steady) {i : Nat} {v : Vigil} {a : Alarm}
    (hv : t.vigils[i]? = some v) (ha : t.alarms[v.alarm]? = some a) :
    (v.passage a t.moment (t.beginRun a.task).1).shift = 0 :=
  Vigil.passage_shift (fun _ _ running => h.turns hv running) ((h.alarms ha).task t)

theorem poll (h : t.Steady) (i : Nat) : (t.poll i).Steady := by
  rcases t.poll_cases i with hsame | ⟨v, a, hv, ha⟩
  · rw [hsame]
    exact h
  · have hcore := core_poll hv ha
    refine ⟨?_, ?_⟩
    · intro n b hb
      have halarms : (t.poll i).alarms = _ := congrArg Core.alarms hcore
      rw [halarms] at hb
      dsimp only [Core.follow, core] at hb
      rw [Places.getElem?_set ha] at hb
      split at hb
      · cases hb
        exact (h.alarms ha).congr rfl rfl
      · exact h.alarms hb
    · intro j timer w turn hw running
      have hvigils : (t.poll i).vigils = _ := congrArg Core.vigils hcore
      rw [hvigils] at hw
      dsimp only [Core.follow, core] at hw
      rw [Places.getElem?_set hv] at hw
      split at hw
      · cases hw
        rcases Vigil.running_of_passage running with hbefore | rfl
        · exact h.turns hv hbefore
        · exact (h.alarms ha).task t
      · exact h.turns hw running

/-- A vigil that is set out has no run under way. -/
theorem setOut (h : t.Steady) {u : Timetable} {v : Vigil} (hv : v.phase = .setOut)
    (hvigils : u.vigils = t.vigils ++ [v])
    (halarms : ∀ {n : Nat} {a : Alarm}, u.alarms[n]? = some a → a.Steady) : u.Steady where
  alarms := halarms
  turns := by
    intro i timer w turn hw running
    rw [hvigils] at hw
    rcases Places.getElem?_grown hw with hold | ⟨_, rfl⟩
    · exact h.turns hold running
    · rw [hv] at running
      cases running

theorem act (h : t.Steady) (hposted : t.Posted) {act : Act} (hact : act.isDirect = false)
    (hclock : act.LeavesClock) : (t.act act).Steady := by
  have heffect := hposted.effect hact
  generalize hu : t.act act = u at heffect
  have hset : ∀ {n : Nat} {a b : Alarm}, t.alarms[n]? = some a → b.Steady →
      ∀ {m : Nat} {x : Alarm}, (t.alarms.set n b)[m]? = some x → x.Steady := by
    intro n a b ha hb m x hx
    rw [Places.getElem?_set ha] at hx
    split at hx
    · cases hx
      exact hb
    · exact h.alarms hx
  have hstop : ∀ {a : Alarm}, a.Steady → a.stop.Steady := by
    intro a ha
    obtain ⟨_, htask, _, hperiod⟩ := a.stop_keeps
    exact ha.congr hperiod htask
  cases heffect with
  | minor handle core posts entries fixes =>
      have halarms : u.alarms = t.alarms := congrArg Core.alarms core
      have hvigils : u.vigils = t.vigils := congrArg Core.vigils core
      refine ⟨?_, ?_⟩
      · rw [halarms]
        exact h.alarms
      · rw [hvigils]
        exact h.turns
  | polled i moves posts roster => exact hu ▸ h.poll i
  | @created task plan e b view roster journal policy same free started entries id result =>
      obtain ⟨_, htask, _, hperiod⟩ := Alarm.start_keeps started
      have hb : b.Steady :=
        ⟨hperiod ▸ Entry.period_of_policyOf policy, htask.trans same ▸ hclock⟩
      apply h.setOut rfl rfl
      intro n x hx
      rcases Places.getElem?_grown hx with hold | ⟨_, rfl⟩
      · exact h.alarms hold
      · exact hb
  | @updated id n plan a x b view post alarm replanned started result =>
      obtain ⟨due, period, policy, rfl⟩ := Alarm.replan_ok replanned
      obtain ⟨_, htask, _, hperiod⟩ := Alarm.start_keeps started
      obtain ⟨_, htask', _⟩ := a.stop_keeps
      have hb : b.Steady :=
        ⟨hperiod ▸ Entry.period_of_policyOf policy, htask.trans htask' ▸ (h.alarms alarm).task⟩
      exact h.setOut rfl rfl (hset alarm hb)
  | removed post alarm => exact ⟨hset alarm (hstop (h.alarms alarm)), h.turns⟩
  | stopped alarms deeds deeds_cancelled stops =>
      refine ⟨?_, h.turns⟩
      intro n b hb
      dsimp only at hb
      rw [stops] at hb
      obtain ⟨a, ha, rfl⟩ := Option.map_eq_some_iff.mp hb
      split
      · exact hstop (h.alarms ha)
      · exact h.alarms ha

theorem run (h : t.Steady) (hagrees : t.Agrees) {acts : List Act}
    (hacts : ∀ act ∈ acts, act.isDirect = false) (hclock : ∀ act ∈ acts, act.LeavesClock) :
    (t.run acts).Steady := by
  induction acts generalizing t with
  | nil => exact h
  | cons act acts ih =>
      obtain ⟨hact, hacts⟩ := List.forall_mem_cons.mp hacts
      obtain ⟨hleaves, hclock⟩ := List.forall_mem_cons.mp hclock
      exact ih (h.act hagrees.toPosted hact hleaves) (hagrees.act hact) hacts hclock

/-- The clock stands still during a poll. -/
theorem moment_poll (h : t.Steady) (i : Nat) : (t.poll i).moment = t.moment := by
  rcases t.poll_cases i with hsame | ⟨v, a, hv, ha⟩
  · rw [hsame]
  · rw [Timetable.moment_poll hv ha, h.shift_passage hv ha]
    simp [Moment.shift]

end Steady

/-- A timetable that nobody went round the requests of, and whose tasks leave the clock alone. -/
structure Served (t : Timetable) : Prop where
  agrees : t.Agrees
  sound : t.core.Sound
  steady : t.Steady

theorem served_opening (start : Instant) (source : IdSource) (replies : List RestartReply) :
    (opening start source replies).Served where
  agrees := agrees_opening start source replies
  sound := sound_opening start source replies
  steady := steady_opening start source replies

namespace Served

theorem act (h : t.Served) {act : Act} (hact : act.isDirect = false) (hclock : act.LeavesClock) :
    (t.act act).Served where
  agrees := h.agrees.act hact
  sound := h.sound.steps (t.steps_act act)
  steady := h.steady.act h.agrees.toPosted hact hclock

theorem run (h : t.Served) {acts : List Act} (hacts : ∀ act ∈ acts, act.isDirect = false)
    (hclock : ∀ act ∈ acts, act.LeavesClock) : (t.run acts).Served where
  agrees := h.agrees.run hacts
  sound := h.sound.steps (steps_run t acts)
  steady := h.steady.run h.agrees hacts hclock

theorem act_of_isPoll (h : t.Served) {act : Act} (hact : act.isPoll = true) :
    (t.act act).Served := by
  cases act with
  | poll i => exact h.act rfl trivial
  | pollWatcher k => exact h.act rfl trivial
  | _ => cases hact

/-- The clock stands still during polls. -/
theorem moment_act (h : t.Served) {act : Act} (hact : act.isPoll = true) :
    (t.act act).moment = t.moment := by
  cases act with
  | poll i => exact h.steady.moment_poll i
  | pollWatcher k =>
      obtain ⟨roster, watchers, journal, hpolled⟩ := t.pollWatcher_eq k
      rw [Timetable.act, hpolled]
      rfl
  | _ => cases hact

end Served

end Timetable

end Almanac
