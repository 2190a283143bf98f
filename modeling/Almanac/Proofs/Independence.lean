import Almanac.Proofs.Beats
import Almanac.Proofs.Tending

/-!
# Entries are independent

Two services may have had quite different things to do. If an entry was added to both at the same
moment, and the same cues came to its alarm, then its alarm, its vigils and what they have done are
the same in both, and at rest clients see the same of it. Only ids and handles, which are drawn from
what all entries share, need not be the same.

The two are never run side by side. Each of them makes of the solo of the alarm what the cues make
of it, which is one thing only.
-/

namespace Almanac

/-- What clients see of an entry, but for the values of its id and its handle. -/
structure Face where
  status : Option AlarmStatus
  due : Instant
  period : String
  task : TaskView
  hasHandle : Bool
  deriving DecidableEq, Repr

namespace Timetable

variable {t : Timetable} {i n : Nat} {a : Alarm}

/-- What clients see of the entry that alarm `n` drives, if it drives one. -/
def face (t : Timetable) (n : Nat) : Option Face :=
  (t.roster.entries.find? fun e => t.post? e.id == some n).map fun e =>
    { status := t.statusOf? e.id, due := (t.viewOf e).due, period := (t.viewOf e).period,
      task := (t.viewOf e).task, hasHandle := (t.viewOf e).handle.isSome }

/-- What clients see of the entry of a solo once all is at rest. It has lost its handle if the vigil
of the last start has ended by itself. -/
def faceAlone (s : Timetable) : Option Face :=
  if s.posts.isEmpty then none
  else s.alarms.head?.map fun a =>
    { status := some a.status, due := a.due, period := a.period.words, task := a.task.view,
      hasHandle :=
        !s.vigils.any fun v => v.generation == a.generation && v.phase.isConclusive }

theorem head?_alarms_solo (t : Timetable) (n : Nat) :
    (t.solo n).alarms.head? = t.alarms[n]?.map Alarm.anonymous := by
  simp only [solo]
  cases t.alarms[n]? <;> rfl

/-- In a solo the vigil of the last start is found by its generation. -/
theorem IsLatest.any_conclusive (h : t.IsLatest n i) (hsound : t.core.Sound)
    (ha : t.alarms[n]? = some a) :
    ((t.solo n).vigils.any fun v => v.generation == a.generation && v.phase.isConclusive) =
      t.hasConcluded i := by
  obtain ⟨v, b, hv, own, hb, hlast⟩ := h
  rw [ha] at hb
  cases hb
  have hconcluded : t.hasConcluded i = v.phase.isConclusive := by
    rw [hasConcluded, hv]
    rfl
  rw [hconcluded, Bool.eq_iff_iff, List.any_eq_true]
  constructor
  · rintro ⟨w, hw, hlatest⟩
    rw [Bool.and_eq_true, beq_iff_eq] at hlatest
    obtain ⟨k, hk⟩ := List.mem_iff_getElem?.mp hw
    obtain ⟨j, x, hx, own', rfl, _⟩ := exists_of_vigil_solo hk
    have hone : j = i :=
      hsound.distinct hx hv (own'.trans own.symm) (hlatest.1.trans hlast.symm)
    rw [hone, hv] at hx
    cases hx
    exact hlatest.2
  · intro conclusive
    refine ⟨v.alone, List.mem_of_getElem? (vigil_solo hv own), ?_⟩
    rw [Bool.and_eq_true, beq_iff_eq]
    exact ⟨hlast, conclusive⟩

/-- At rest the solo of an alarm tells what clients see of its entry. -/
theorem Custody.face_eq (h : t.Custody) (htended : t.Tended) (hsound : t.core.Sound)
    (hplanned : t.core.Planned) (hrest : t.AtRest) (n : Nat) :
    t.face n = (t.solo n).faceAlone := by
  have hposted : t.Posted := h.agrees.toPosted
  simp only [face, faceAlone]
  rw [isEmpty_posts_solo]
  cases hfound : t.roster.entries.find? fun e => t.post? e.id == some n with
  | none =>
      have hvacant : t.isPosted n = false := by
        rw [Bool.eq_false_iff, ne_eq, isPosted_iff]
        rintro ⟨id, hpost⟩
        obtain ⟨e, he, rfl⟩ := hposted.exists_entry hpost
        refine List.find?_eq_none.mp hfound e he ?_
        rw [beq_iff_eq]
        exact hposted.post?_eq_some_iff.mpr hpost
      rw [hvacant]
      rfl
  | some e =>
      have he : e ∈ t.roster.entries := List.mem_of_find?_eq_some hfound
      have hpost : t.post? e.id = some n := by simpa using List.find?_some hfound
      obtain ⟨m, a, htallies⟩ := h.agrees.tallies hplanned he
      obtain rfl : m = n := Option.some.inj (htallies.post.symm.trans hpost)
      have hmem := hposted.post?_eq_some_iff.mp hpost
      obtain ⟨i, hlatest, hhandle⟩ := h.handle_atRest htended hrest he hmem
      have hoccupied : t.isPosted m = true := isPosted_iff.mpr ⟨_, hmem⟩
      have hstatus : t.statusOf? e.id = some a.status := by
        rw [statusOf?, alarmOf?, hpost, Option.bind_some, htallies.alarm]
        rfl
      rw [hoccupied, alarms_solo htallies.alarm, Option.map_some, htallies.viewOf_eq, hstatus]
      dsimp only
      rw [hhandle, ← hlatest.any_conclusive hsound htallies.alarm]
      rfl

/-- The solo of an alarm that was added at a moment, with the time and the period of its plan. -/
def debut (m : Moment) (task : Task) (policy : Instant × Span) : Timetable where
  start := m.start
  elapsed := m.elapsed
  skew := m.skew
  alarms :=
    [{ entry := 0, task, due := policy.1, period := policy.2, status := .running, generation := 1 }]
  posts := [(0, 0)]
  vigils := [{ alarm := 0, token := 0, generation := 1, since := m.elapsed }]

/-- A vigil is of an alarm that there is. -/
theorem alarm_lt (hsound : t.core.Sound) {v : Vigil} (hv : t.vigils[i]? = some v) :
    v.alarm < t.alarms.length := by
  obtain ⟨a, ha, _⟩ := hsound.vigils hv
  exact Places.lt_of_getElem? ha

/-- Of an alarm that there is not yet there is nothing to tell. -/
theorem tale_length (hsound : t.core.Sound) : t.tale t.alarms.length = [] := by
  have hnone : ∀ i, rank? t.owners t.alarms.length i = none := by
    intro i
    apply if_neg
    intro howner
    rw [owners, List.getElem?_map] at howner
    obtain ⟨v, hv, own⟩ := Option.map_eq_some_iff.mp howner
    exact Nat.ne_of_lt (alarm_lt hsound hv) own
  apply List.filterMap_eq_nil_iff.mpr
  intro d _
  cases d with
  | began i time => rw [Deed.retold, hnone]; rfl
  | returned i r => rw [Deed.retold, hnone]; rfl
  | ended i e => rw [Deed.retold, hnone]; rfl
  | _ => rfl

theorem vigilsOf_length (hsound : t.core.Sound) : t.vigilsOf t.alarms.length = [] := by
  apply List.filter_eq_nil_iff.mpr
  intro v hmem own
  have own : v.alarm = t.alarms.length := by simpa using own
  obtain ⟨i, hv⟩ := List.mem_iff_getElem?.mp hmem
  exact Nat.ne_of_lt (alarm_lt hsound hv) own

/-- An entry that is added has an alarm whose solo depends on the moment, the task and the plan
alone. -/
theorem Served.solo_create (h : t.Served) (unwritten : t.core.Unwritten) {task : Task} {plan : Plan}
    (accepted : t.succeeds (.create task plan) = true) :
    ∃ policy, Entry.policyOf plan t.now = .ok policy ∧
      (t.act (.create task plan)).solo t.alarms.length = debut t.moment task policy := by
  simp only [succeeds] at accepted
  rcases h.agrees.toPosted.create_cases task plan with
    ⟨cause, _, hcreate⟩ | ⟨cause, _, _, _, _, _, hcreate⟩ |
    ⟨e, b, journal, hpolicy, htask, _, _, _, hb, hcreate⟩
  · rw [hcreate] at accepted
    cases accepted
  · rw [hcreate] at accepted
    cases accepted
  · refine ⟨_, hpolicy, ?_⟩
    rw [Timetable.act, hcreate]
    obtain rfl : b = { Alarm.ofEntry e with status := .running, generation := 1 } :=
      (Alarm.start_ok hb).2
    subst htask
    generalize (⟨t.roster.entries ++ [e], _, false⟩ : Roster) = roster
    let started : Alarm := { Alarm.ofEntry e with status := .running, generation := 1 }
    have htale : (t.created e started roster journal).tale t.alarms.length = [] :=
      (tale_append rfl ⟨[_, _], rfl, by simp [Deed.vigil?]⟩ unwritten _).trans
        (tale_length h.sound)
    have hvigils : (t.created e started roster journal).vigilsOf t.alarms.length =
        [{ alarm := t.alarms.length, token := 0, generation := 1, since := t.elapsed }] := by
      have hbefore := vigilsOf_length h.sound
      simp only [vigilsOf] at hbefore ⊢
      simp only [created]
      rw [List.filter_append, hbefore]
      simp [started, Alarm.ofEntry]
    simp only [solo, debut]
    rw [htale, hvigils]
    simp [created, isPosted, Alarm.anonymous, Alarm.ofEntry, Vigil.alone, moment]

end Timetable

/-- A service from its beginning, with what is done before and after one entry is added. -/
structure Story where
  start : Instant
  source : IdSource
  replies : List RestartReply
  before : List Beat
  task : Task
  plan : Plan
  later : List Beat

namespace Story

def birth (s : Story) : Timetable := (Timetable.opening s.start s.source s.replies).play s.before

def alarm (s : Story) : Nat := s.birth.alarms.length

def created (s : Story) : Timetable := s.birth.act (.create s.task s.plan)

def finish (s : Story) : Timetable := s.created.play s.later

def upTo (s : Story) (k : Nat) : Story := { s with later := s.later.take k }

/-- What the entry's alarm is told. -/
def cues (s : Story) : List Cue := s.created.cues s.alarm s.later

/-- The entry is added to a service that is only served and whose roster is not spoiled, and the
runs of its task go on as `outcome` says of their numbers. -/
structure IsServed (s : Story) (outcome : Nat → Turn) : Prop where
  before : ∀ b ∈ s.before, b.IsService
  later : ∀ b ∈ s.later, b.IsService
  clock : s.task.LeavesClock
  accepted : s.birth.succeeds (.create s.task s.plan) = true
  plays : s.created.PlaysAs s.alarm outcome (s.created.script s.later)
  sound : s.finish.roster.isSpoiled = false

/-- The entry meets with the same in both stories. -/
structure Matches (s s' : Story) : Prop where
  moment : s.birth.moment = s'.birth.moment
  task : s.task = s'.task
  plan : s.plan = s'.plan
  cues : s.cues = s'.cues

def acts (s : Story) : List Act :=
  (Timetable.opening s.start s.source s.replies).script s.before ++
    .create s.task s.plan :: s.created.script s.later

variable {s s' : Story} {outcome : Nat → Turn}

theorem run_acts (s : Story) :
    (Timetable.opening s.start s.source s.replies).run s.acts = s.finish := by
  rw [acts, Timetable.run_append, Timetable.run_script, Timetable.run_cons]
  exact s.created.run_script s.later

theorem served_birth (before : ∀ b ∈ s.before, b.IsService) : s.birth.Served := by
  rw [birth, ← Timetable.run_script]
  apply (Timetable.served_opening s.start s.source s.replies).run
  · intro act hact
    exact (Timetable.isService_of_mem_script before hact).1
  · intro act hact
    exact (Timetable.isService_of_mem_script before hact).2

theorem unwritten_birth (s : Story) : s.birth.core.Unwritten := by
  rw [birth, ← Timetable.run_script]
  exact (Timetable.unwritten_opening s.start s.source s.replies).steps (Timetable.steps_run _ _)

/-- The alarm of the entry is there, and is to run its task. -/
theorem alarm_created (before : ∀ b ∈ s.before, b.IsService)
    (accepted : s.birth.succeeds (.create s.task s.plan) = true) :
    ∃ a, s.created.alarms[s.alarm]? = some a ∧ a.task = s.task := by
  obtain ⟨policy, _, hdebut⟩ := (served_birth before).solo_create (unwritten_birth s) accepted
  have halarms := s.created.head?_alarms_solo s.alarm
  have hdebut : s.created.solo s.alarm = Timetable.debut s.birth.moment s.task policy := hdebut
  rw [hdebut] at halarms
  obtain ⟨a, ha, hanonymous⟩ := Option.map_eq_some_iff.mp halarms.symm
  exact ⟨a, ha, congrArg Alarm.task hanonymous⟩

namespace IsServed

/-- A task that is no rehearsal leaves the clock alone, and goes on in one way at every run. -/
theorem of_unrehearsed (before : ∀ b ∈ s.before, b.IsService) (later : ∀ b ∈ s.later, b.IsService)
    (plain : s.task.isRehearsal = false)
    (accepted : s.birth.succeeds (.create s.task s.plan) = true)
    (sound : s.finish.roster.isSpoiled = false) :
    s.IsServed fun _ => s.task.turn fun _ => 0 where
  before := before
  later := later
  clock := Timetable.leavesClock_of_unrehearsed plain
  accepted := accepted
  plays := by
    obtain ⟨a, ha, htask⟩ := alarm_created before accepted
    exact Timetable.playsAs_of_unrehearsed plain ha htask _
  sound := sound

theorem isService_of_mem_acts (h : s.IsServed outcome) {act : Act} (hact : act ∈ s.acts) :
    act.isDirect = false ∧ act.LeavesClock := by
  rcases List.mem_append.mp hact with hbefore | hafter
  · exact Timetable.isService_of_mem_script h.before hbefore
  · rcases List.mem_cons.mp hafter with rfl | hlater
    · exact ⟨rfl, h.clock⟩
    · exact Timetable.isService_of_mem_script h.later hlater

/-- The story up to a point is as much served. -/
theorem upTo (h : s.IsServed outcome) (k : Nat) : (s.upTo k).IsServed outcome where
  before := h.before
  later := fun b hb => h.later b (List.mem_of_mem_take hb)
  clock := h.clock
  accepted := h.accepted
  plays := by
    have hplays := h.plays
    rw [← List.take_append_drop k s.later, Timetable.script_append] at hplays
    exact hplays.split.1
  sound := by
    have hfinish : s.finish = (s.upTo k).finish.play (s.later.drop k) :=
      calc
        s.finish = s.created.play (s.later.take k ++ s.later.drop k) := by
          rw [List.take_append_drop]
          rfl
        _ = (s.upTo k).finish.play (s.later.drop k) := List.foldl_append
    have hcreated : s.created.Agrees := (served_birth h.before).agrees.act rfl
    have hagrees : (s.upTo k).finish.Agrees :=
      hcreated.play fun b hb => h.later b (List.mem_of_mem_take hb)
    apply hagrees.sound_of_play fun b hb => h.later b (List.mem_of_mem_drop hb)
    rw [← hfinish]
    exact h.sound

/-- The solo of the entry's alarm is what its cues make of the debut. -/
theorem heeds (h : s.IsServed outcome) :
    ∃ policy, Entry.policyOf s.plan s.birth.now = .ok policy ∧
      Timetable.HeedsAll outcome (Timetable.debut s.birth.moment s.task policy) s.cues
        (s.finish.solo s.alarm) := by
  have hserved := served_birth h.before
  obtain ⟨policy, hpolicy, hdebut⟩ := hserved.solo_create (unwritten_birth s) h.accepted
  obtain ⟨a, ha, _⟩ := alarm_created h.before h.accepted
  have hhosts : s.created.Hosts s.alarm :=
    { toServed := hserved.act rfl h.clock
      unwritten := (unwritten_birth s).steps (s.birth.steps_act _)
      alarm := ⟨a, ha⟩ }
  refine ⟨policy, hpolicy, ?_⟩
  rw [← hdebut]
  exact hhosts.heeds_play h.later h.sound h.plays

/-- At rest clients see of the entry what its solo tells. -/
theorem face_eq (h : s.IsServed outcome) (hrest : s.finish.AtRest) :
    s.finish.face s.alarm = (s.finish.solo s.alarm).faceAlone := by
  have hacts : ∀ act ∈ s.acts, act.isDirect = false :=
    fun act hact => (h.isService_of_mem_acts hact).1
  have hsound := h.sound
  rw [← s.run_acts] at hsound hrest ⊢
  apply Timetable.Custody.face_eq
  · exact (Timetable.custody_opening s.start s.source s.replies).run hacts hsound
  · exact Timetable.Tended.run (Timetable.tended_opening s.start s.source s.replies)
      (Timetable.agrees_opening s.start s.source s.replies) hacts
  · exact Timetable.sound_run s.start s.source s.replies s.acts
  · exact (Timetable.planned_opening s.start s.source s.replies).steps (Timetable.steps_run _ _)
  · exact hrest

end IsServed

/-- What the alarms, the vigils and the deeds of the entries come to is the same. -/
theorem Matches.solo_eq (same : s.Matches s') (h : s.IsServed outcome)
    (h' : s'.IsServed outcome) : s.finish.solo s.alarm = s'.finish.solo s'.alarm := by
  obtain ⟨policy, hpolicy, hheeds⟩ := h.heeds
  obtain ⟨policy', hpolicy', hheeds'⟩ := h'.heeds
  have hnow : s.birth.now = s'.birth.now := congrArg Moment.now same.moment
  rw [same.plan, hnow, hpolicy'] at hpolicy
  cases hpolicy
  rw [same.moment, same.task, same.cues] at hheeds
  exact hheeds.unique hheeds'

/-- Two services run from their beginnings, with whatever creates, updates, removes and failures of
other entries, and without their rosters ever being spoiled. To both an entry is added at the same
moment, for the same task and with the same plan. Up to some point of each it gets the same updates,
the same remove and the same shutdowns in between the same stretches of time, over the same clock,
and its runs go on in the same way, the first like the first and so on. Then up to these points its
vigils have begun their runs at the same instants, and these have come back and the vigils have
ended alike and in the same order; the alarms agree in status, time and period; and if both points
are settled, clients see the same of both entries, and a handle of both or of neither. -/
theorem entries_independent {s s' : Story} {outcome : Nat → Turn} (h : s.IsServed outcome)
    (h' : s'.IsServed outcome) {k k' : Nat} (same : (s.upTo k).Matches (s'.upTo k')) :
    let t := (s.upTo k).finish
    let t' := (s'.upTo k').finish
    t.tale s.alarm = t'.tale s'.alarm ∧
      t.alarms[s.alarm]?.map Alarm.anonymous = t'.alarms[s'.alarm]?.map Alarm.anonymous ∧
      (t.step? = none → t'.step? = none → t.face s.alarm = t'.face s'.alarm) := by
  intro t t'
  have hsolo : t.solo s.alarm = t'.solo s'.alarm := same.solo_eq (h.upTo k) (h'.upTo k')
  refine ⟨congrArg Timetable.annals hsolo, ?_, ?_⟩
  · rw [← Timetable.head?_alarms_solo, hsolo, Timetable.head?_alarms_solo]
  · intro hrest hrest'
    have hface : t.face s.alarm = (t.solo s.alarm).faceAlone :=
      (h.upTo k).face_eq (Timetable.step?_eq_none_iff.mp hrest)
    have hface' : t'.face s'.alarm = (t'.solo s'.alarm).faceAlone :=
      (h'.upTo k').face_eq (Timetable.step?_eq_none_iff.mp hrest')
    rw [hface, hface', hsolo]

/-- An entry pauses, and gets another plan. In one story it is alone; in the other it is the third,
another is refused by the build service, removed or added, and an id is asked for in vain. -/
theorem entries_independent_of_company :
    let nap : Task := .pause ⟨5000000, by decide⟩
    let alone : Story := ⟨.epoch, {}, [], [], nap, .once,
      [.settle, .advance 7, .act (.update 1001 .once), .settle, .advance 7]⟩
    let among : Story := ⟨.epoch, {}, [.failed],
      [.act (.create (.restart "token" 4) .once), .settle, .act (.create nap .once)], nap, .once,
      [.settle, .act (.remove 1002), .advance 4, .act (.create (.fetch "") .once), .advance 3,
        .act (.update 1002 .once), .act (.update 1003 .once), .settle, .act (.update 1001 .once),
        .advance 7]⟩
    let t := (alone.upTo 5).finish
    let t' := (among.upTo 10).finish
    among.alarm = 2 ∧ (alone.upTo 5).cues = [.elapse 7, .update .once, .elapse 7] ∧
      t.runsBegun 0 = 2 ∧ (t.face 0).map Face.hasHandle = some false ∧
      t.tale 0 = t'.tale 2 ∧ t.face 0 = t'.face 2 := by
  intro nap alone among t t'
  have halone : alone.IsServed fun _ => nap.turn fun _ => 0 := by
    apply IsServed.of_unrehearsed
    · simp [alone]
    · simp [alone, Beat.IsService, Act.isDirect, Act.LeavesClock]
    · rfl
    · decide +kernel
    · decide +kernel
  have hrestart : (Task.restart "token" 4).LeavesClock :=
    Timetable.leavesClock_of_unrehearsed rfl
  have hnap : nap.LeavesClock := Timetable.leavesClock_of_unrehearsed rfl
  have hfetch : (Task.fetch "").LeavesClock := Timetable.leavesClock_of_unrehearsed rfl
  have hamong : among.IsServed fun _ => nap.turn fun _ => 0 := by
    apply IsServed.of_unrehearsed
    · simp [among, Beat.IsService, Act.isDirect, Act.LeavesClock, hrestart, hnap]
    · simp [among, Beat.IsService, Act.isDirect, Act.LeavesClock, hfetch]
    · rfl
    · decide +kernel
    · decide +kernel
  have same : (alone.upTo 5).Matches (among.upTo 10) := by
    refine ⟨?_, rfl, rfl, by decide +kernel⟩
    rw [Timetable.moment, Timetable.moment, Moment.mk.injEq]
    decide +kernel
  have halarm : alone.alarm = 0 := by decide +kernel
  have halarm' : among.alarm = 2 := by decide +kernel
  obtain ⟨htale, _, hface⟩ := entries_independent halone hamong same
  rw [halarm, halarm'] at htale hface
  refine ⟨halarm', by decide +kernel, by decide +kernel, by decide +kernel, htale, hface ?_ ?_⟩
  · exact Option.isNone_iff_eq_none.mp (by decide +kernel)
  · exact Option.isNone_iff_eq_none.mp (by decide +kernel)

end Story

end Almanac
