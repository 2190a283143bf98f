import Almanac.Proofs.Steady
import Almanac.Proofs.Stopping

/-!
# Runs that begin at one instant

However often vigils are polled at one instant, each of them begins at most one run, and only one
that is live does. How such a run goes on is for its task to say. Tasks that share no troupe have
nothing to do with each other, so that their runs go on the same whatever else has begun before.
-/

namespace Almanac

/-- Holds of the tasks that go by a script. -/
def Task.isRehearsal : Task → Bool
  | rehearse _ => true
  | _ => false

/-- Two tasks that are no rehearsals of one troupe. -/
def Task.IsApart (task other : Task) : Prop :=
  ∀ r q, task = .rehearse r → other = .rehearse q → r.troupe ≠ q.troupe

/-- How a run goes on once the troupes have begun so many runs. -/
def Task.turn (task : Task) (begun : Nat → Nat) : Turn :=
  match task with
  | pause length => { sleep := length.pauseMillis }
  | rehearse r => r.script (begun r.troupe + 1)
  | _ => {}

/-- How many runs of a troupe one run of the task counts as. -/
def Task.share (task : Task) (troupe : Nat) : Nat :=
  match task with
  | rehearse r => if troupe = r.troupe then 1 else 0
  | _ => 0

/-- A rehearsal goes on by the count of its troupe alone. -/
theorem Task.turn_congr {task : Task} {begun begun' : Nat → Nat}
    (h : ∀ r, task = .rehearse r → begun r.troupe = begun' r.troupe) :
    task.turn begun = task.turn begun' := by
  cases task with
  | rehearse r => exact congrArg (fun n => r.script (n + 1)) (h r rfl)
  | _ => rfl

theorem Task.share_of_apart {r : Rehearsal} {other : Task}
    (h : (Task.rehearse r).IsApart other) : other.share r.troupe = 0 := by
  cases other with
  | rehearse q => exact if_neg (h r q rfl rfl)
  | _ => rfl

namespace Passage

/-- A passage writes down no more than one beginning. -/
theorem beginnings_deeds (p : Passage) (i n : Nat) (annals : List Deed) :
    beginnings i (p.deeds i n ++ annals) = p.began.toList ++ beginnings i annals := by
  obtain ⟨_, _, _, _, _, began, returned, rearmed, ended⟩ := p
  cases began <;> cases returned <;> cases rearmed <;> cases ended <;> simp [deeds, beginnings]

end Passage

namespace Timetable

variable {t u : Timetable} {i j k : Nat} {v w : Vigil} {a b : Alarm}

theorem isReady_eq (ha : t.alarms[v.alarm]? = some a) :
    t.isReady v = v.isReady a t.elapsed := by
  simp only [isReady, Vigil.isReady]
  rw [ha]
  rfl

/-- Polls revoke no token, so that others are as ready as before. -/
theorem isReady_poll (t : Timetable) (i : Nat) : (t.poll i).isReady = t.isReady := by
  rcases t.poll_cases i with hsame | ⟨v, a, hv, ha⟩
  · rw [hsame]
  · funext w
    have halarms : (t.poll i).alarms = _ := congrArg Core.alarms (core_poll hv ha)
    have hrevoked : ((t.poll i).alarms[w.alarm]?.map fun b => b.isRevoked w.token) =
        t.alarms[w.alarm]?.map fun b => b.isRevoked w.token := by
      rw [halarms]
      dsimp only [Core.follow, core]
      rw [Places.getElem?_set ha]
      split
      · next hone =>
          rw [← hone, ha]
          rfl
      · rfl
    simp only [isReady]
    rw [hrevoked, elapsed_poll]

/-- The poll of another vigil leaves a vigil as it is. -/
theorem vigil_poll_of_ne (hij : j ≠ i) : (t.poll j).vigils[i]? = t.vigils[i]? := by
  rcases t.poll_cases j with hsame | ⟨v, a, hv, ha⟩
  · rw [hsame]
  · have hvigils : (t.poll j).vigils = _ := congrArg Core.vigils (core_poll hv ha)
    rw [hvigils]
    dsimp only [Core.follow, core]
    rw [Places.getElem?_set hv, if_neg hij]

theorem isReady_pollWatcher (t : Timetable) (k : Nat) :
    (t.pollWatcher k).isReady = t.isReady := by
  obtain ⟨roster, watchers, journal, hpolled⟩ := t.pollWatcher_eq k
  rw [hpolled]
  rfl

/-- What a poll leaves of a vigil that is not the one polled. -/
theorem poll_bystander {act : Act} (hact : act.isPoll = true) (hother : act ≠ .poll i) :
    (t.act act).vigils[i]? = t.vigils[i]? ∧ (t.act act).isReady = t.isReady ∧
      beginnings i (t.act act).annals = beginnings i t.annals := by
  have hbegun := Core.Steps.beginnings_of_unmoved (t.steps_act act) (mt mayGive_move_iff.mp hother)
  cases act with
  | poll j =>
      refine ⟨vigil_poll_of_ne ?_, t.isReady_poll j, hbegun⟩
      rintro rfl
      exact hother rfl
  | pollWatcher k =>
      have hvigils : (t.pollWatcher k).vigils = t.vigils :=
        congrArg Core.vigils (t.core_pollWatcher k)
      exact ⟨congrArg (·[i]?) hvigils, t.isReady_pollWatcher k, hbegun⟩
  | _ => cases hact

theorem isLive_of_isDue (ha : t.alarms[v.alarm]? = some a) (due : v.isDue a t.moment = true) :
    t.core.IsLive v :=
  ⟨Vigil.isOpen_of_isReady (Vigil.isReady_of_isDue due), a, ha, (Vigil.isDue_iff.mp due).1⟩

/-- Polled itself a vigil begins a run if it is due, and waits afterwards. -/
theorem Served.poll_self (h : t.Served) (hv : t.vigils[i]? = some v)
    (ha : t.alarms[v.alarm]? = some a) :
    let p := v.passage a t.moment (t.beginRun a.task).1
    (t.poll i).vigils[i]? = some (p.vigil v) ∧ (t.poll i).isReady (p.vigil v) = false ∧
      beginnings i (t.poll i).annals =
        (if v.isDue a t.moment then some t.now else none).toList ++ beginnings i t.annals := by
  intro p
  have hcore := core_poll hv ha
  have hvigils : (t.poll i).vigils = _ := congrArg Core.vigils hcore
  have hannals : (t.poll i).annals = _ := congrArg Core.annals hcore
  refine ⟨?_, ?_, ?_⟩
  · rw [hvigils]
    exact Places.getElem?_set_self hv _
  · rw [isReady_poll, isReady_eq (v := p.vigil v) ha]
    exact Vigil.not_isReady_passage (h.steady.alarms ha).period
  · rw [hannals]
    refine (p.beginnings_deeds i v.alarm t.annals).trans ?_
    rw [Vigil.passage_began, now_moment]

/-- A vigil that is not ready stays so and begins nothing, whatever is polled. -/
theorem Served.beginnings_of_not_isReady (h : t.Served) (hv : t.vigils[i]? = some v)
    (waits : t.isReady v = false) {polls : List Act}
    (hpolls : ∀ act ∈ polls, act.isPoll = true) :
    beginnings i (t.run polls).annals = beginnings i t.annals := by
  induction polls generalizing t with
  | nil => rfl
  | cons act polls ih =>
      obtain ⟨hact, hrest⟩ := List.forall_mem_cons.mp hpolls
      have hserved := h.act_of_isPoll hact
      by_cases hown : act = .poll i
      · subst hown
        obtain ⟨a, ha, _⟩ := h.sound.vigils hv
        have hcore : (t.poll i).core = t.core := by
          rw [core_poll hv ha, Vigil.passage_of_not_isReady ((isReady_eq ha).symm.trans waits)]
          exact Core.follow_stay (c := t.core) hv ha
        have hvigils : (t.poll i).vigils = t.vigils := congrArg Core.vigils hcore
        have hannals : (t.poll i).annals = t.annals := congrArg Core.annals hcore
        have hlater := ih hserved (hvigils ▸ hv) ((congrFun (t.isReady_poll i) v).trans waits) hrest
        exact hlater.trans (congrArg (beginnings i) hannals)
      · obtain ⟨hvigil, hready, hbegun⟩ := t.poll_bystander hact hown
        exact (ih hserved (hvigil.trans hv) ((congrFun hready v).trans waits) hrest).trans hbegun

/-- At one instant a vigil begins no more than one run, and only if it is live. -/
theorem Served.beginnings_run (h : t.Served) {polls : List Act}
    (hpolls : ∀ act ∈ polls, act.isPoll = true) (i : Nat) :
    beginnings i (t.run polls).annals = beginnings i t.annals ∨
      ∃ v, t.vigils[i]? = some v ∧ t.core.IsLive v ∧
        beginnings i (t.run polls).annals = t.now :: beginnings i t.annals := by
  induction polls generalizing t with
  | nil => exact Or.inl rfl
  | cons act polls ih =>
      obtain ⟨hact, hrest⟩ := List.forall_mem_cons.mp hpolls
      have hserved := h.act_of_isPoll hact
      by_cases hown : act = .poll i
      · subst hown
        rcases t.poll_cases i with hsame | ⟨v, a, hv, ha⟩
        · have hlater := ih (t := t) h hrest
          rw [run_cons, Timetable.act, hsame]
          exact hlater
        · obtain ⟨hvigil, waits, hbegun⟩ := h.poll_self hv ha
          have hlater := hserved.beginnings_of_not_isReady hvigil waits hrest
          rw [run_cons, hlater, Timetable.act, hbegun]
          cases due : v.isDue a t.moment with
          | false => exact Or.inl rfl
          | true => exact Or.inr ⟨v, hv, isLive_of_isDue ha due, rfl⟩
      · obtain ⟨hvigil, _, hbegun⟩ := t.poll_bystander hact hown
        rcases ih hserved hrest with hsame | ⟨v, hv, live, hone⟩
        · exact Or.inl (hsame.trans hbegun)
        · have hv' : t.vigils[i]? = some v := hvigil ▸ hv
          refine Or.inr ⟨v, hv', h.sound.live_of_steps (t.steps_act act) hv' hv live, ?_⟩
          rw [run_cons, hone, hbegun, ← now_moment, h.moment_act hact, now_moment]

/-- Vigil `i` would begin a run of the task of an alarm if it was polled. -/
def IsDue (t : Timetable) (i : Nat) (a : Alarm) : Prop :=
  ∃ v, t.vigils[i]? = some v ∧ t.alarms[v.alarm]? = some a ∧ v.isDue a t.moment = true

/-- Every run that the acts begin goes on in a way that is allowed: `goes u i turn` says whether the
run that vigil `i` begins in `u` may go on like that. -/
def Plays (goes : Timetable → Nat → Turn → Prop) : Timetable → List Act → Prop
  | _, [] => True
  | t, act :: acts =>
    (∀ i a, act = .poll i → t.IsDue i a → goes t i (t.beginRun a.task).1) ∧
    Plays goes (t.act act) acts

/-- How a run would go on that vigil `i` began at once. -/
def turnOf (t : Timetable) (i : Nat) : Turn :=
  match t.vigils[i]?.bind fun v => t.alarms[v.alarm]? with
  | some a => (t.beginRun a.task).1
  | none => {}

theorem IsDue.turnOf (due : t.IsDue i a) : t.turnOf i = (t.beginRun a.task).1 := by
  obtain ⟨v, hv, ha, _⟩ := due
  simp only [Timetable.turnOf]
  rw [hv, Option.bind_some, ha]

/-- The vigils that are due are of tasks that have no troupe in common. -/
def IsApart (t : Timetable) : Prop :=
  ∀ i j a b, i ≠ j → t.IsDue i a → t.IsDue j b → a.task.IsApart b.task

/-- Only rehearsals have troupes. -/
theorem isApart_of_unrehearsed (h : ∀ a ∈ t.alarms, a.task.isRehearsal = false) : t.IsApart := by
  intro i j a b _ due _ r q htask
  obtain ⟨v, _, ha, _⟩ := due
  have hplain := h a (List.mem_of_getElem? ha)
  rw [htask] at hplain
  cases hplain

theorem runsOf_countRun (t : Timetable) (troupe other : Nat) :
    (t.countRun troupe).runsOf other =
      if other = troupe then t.runsOf troupe + 1 else t.runsOf other := by
  simp only [runsOf, countRun, List.lookup_cons]
  by_cases hone : other = troupe
  · subst hone
    simp
  · rw [if_neg hone, beq_false_of_ne hone]
    dsimp only
    congr 1
    induction t.runs with
    | nil => rfl
    | cons run runs ih =>
        obtain ⟨x, count⟩ := run
        by_cases hx : x = troupe
        · subst hx
          simp only [List.filter_cons, bne_self_eq_false, Bool.false_eq_true, if_false]
          rw [ih, List.lookup_cons, beq_false_of_ne hone]
        · simp only [List.filter_cons, bne_iff_ne.mpr hx, if_true, List.lookup_cons]
          rw [ih]

/-- How a run goes on depends only on how many runs the troupes have begun. -/
theorem beginRun_turn (t : Timetable) (task : Task) :
    (t.beginRun task).1 = task.turn t.runsOf := by
  cases task with
  | pause length => rfl
  | restart token build =>
      simp only [beginRun]
      split <;> rfl
  | fetch url => rfl
  | rehearse r =>
      have hrun : (t.countRun r.troupe).runsOf r.troupe = t.runsOf r.troupe + 1 := by
        rw [runsOf_countRun, if_pos rfl]
      exact congrArg r.script hrun

/-- Only rehearsals move the clock. -/
theorem leavesClock_of_unrehearsed {task : Task} (plain : task.isRehearsal = false) :
    task.LeavesClock := by
  intro t
  rw [beginRun_turn]
  cases task with
  | rehearse r => cases plain
  | _ => rfl

/-- The run of a task counts for the troupe of the task alone. -/
theorem runsOf_beginRun (t : Timetable) (task : Task) (troupe : Nat) :
    (t.beginRun task).2.runsOf troupe = t.runsOf troupe + task.share troupe := by
  cases task with
  | pause length => rfl
  | restart token build =>
      simp only [beginRun]
      split <;> rfl
  | fetch url =>
      obtain ⟨journal, hwarn⟩ := t.warn_eq (Remote.fetchLines .unreachable)
      simp only [beginRun]
      rw [hwarn]
      rfl
  | rehearse r =>
      refine (t.runsOf_countRun r.troupe troupe).trans ?_
      simp only [Task.share]
      split
      · next own => rw [own]
      · rfl

/-- The runs of one task do not matter to a task that has nothing to do with it. -/
theorem turn_of_apart {task other : Task} (h : task.IsApart other) (t : Timetable) :
    task.turn (t.beginRun other).2.runsOf = task.turn t.runsOf := by
  apply Task.turn_congr
  rintro r rfl
  rw [runsOf_beginRun, Task.share_of_apart h, Nat.add_zero]

/-- A poll leaves the alarm of a live vigil alone that is not the one polled. -/
theorem alarm_poll_of_ne (hsound : t.core.Sound) (hij : i ≠ j) (hv : t.vigils[i]? = some v)
    (live : t.core.IsLive v) : (t.poll j).alarms[v.alarm]? = t.alarms[v.alarm]? := by
  rcases t.poll_cases j with hsame | ⟨w, b, hw, hb⟩
  · rw [hsame]
  · have halarms : (t.poll j).alarms = _ := congrArg Core.alarms (core_poll hw hb)
    by_cases live' : t.core.IsLive w
    · rw [halarms]
      dsimp only [Core.follow, core]
      rw [Places.getElem?_set hb, if_neg]
      intro hone
      exact hij (hsound.eq_of_live hv hw hone.symm live live')
    · have hsame : (t.poll j).alarms = t.alarms :=
        hsound.alarms_moves (t.moves_poll j) ⟨w, hw, live'⟩
      rw [hsame]

/-- Only what was due before is due after a poll, and not the vigil that was polled. -/
theorem Served.isDue_of_act (h : t.Served) {act : Act} (hact : act.isPoll = true)
    (due : (t.act act).IsDue i a) : t.IsDue i a ∧ act ≠ .poll i := by
  obtain ⟨v, hv, ha, due⟩ := due
  rw [h.moment_act hact] at due
  have ready : (t.act act).isReady v = true := by
    rw [isReady_eq ha]
    have helapsed : (t.act act).elapsed = t.moment.elapsed :=
      congrArg Moment.elapsed (h.moment_act hact)
    rw [helapsed]
    exact Vigil.isReady_of_isDue due
  have hother : act ≠ .poll i := by
    rintro rfl
    rw [Timetable.act] at hv ha ready
    obtain ⟨w, b, hw, hb⟩ : ∃ w b, t.vigils[i]? = some w ∧ t.alarms[w.alarm]? = some b := by
      rcases t.poll_cases i with hsame | hfound
      · rw [hsame] at hv ha
        exact ⟨v, a, hv, ha⟩
      · exact hfound
    obtain ⟨hself, waits, _⟩ := h.poll_self hw hb
    rw [hself] at hv
    cases hv
    exact Bool.false_ne_true (waits.symm.trans ready)
  refine ⟨⟨v, ?_, ?_, due⟩, hother⟩
  · exact (t.poll_bystander hact hother).1.symm.trans hv
  · have hv' : t.vigils[i]? = some v := (t.poll_bystander hact hother).1.symm.trans hv
    have live' : (t.act act).core.IsLive v :=
      ⟨Vigil.isOpen_of_isReady (Vigil.isReady_of_isDue due), a, ha, (Vigil.isDue_iff.mp due).1⟩
    have live : t.core.IsLive v := h.sound.live_of_steps (t.steps_act act) hv' hv live'
    cases act with
    | poll j =>
        have hij : i ≠ j := fun hij => hother (congrArg Act.poll hij.symm)
        exact (alarm_poll_of_ne h.sound hij hv' live).symm.trans ha
    | pollWatcher k =>
        have halarms : (t.pollWatcher k).alarms = t.alarms :=
          congrArg Core.alarms (t.core_pollWatcher k)
        exact halarms ▸ ha
    | _ => cases hact

/-- A poll leaves the run alone that another vigil is to begin. -/
theorem Served.beginRun_of_apart (h : t.Served) (hapart : t.IsApart) {act : Act}
    (hact : act.isPoll = true) (due : (t.act act).IsDue i a) :
    ((t.act act).beginRun a.task).1 = (t.beginRun a.task).1 := by
  obtain ⟨before, hother⟩ := h.isDue_of_act hact due
  rw [beginRun_turn, beginRun_turn]
  cases act with
  | poll j =>
      rw [Timetable.act]
      rcases t.poll_cases j with hsame | ⟨w, b, hw, hb⟩
      · rw [hsame]
      · have hrunsOf : (t.poll j).hushed.runsOf =
            (t.calling b.task (w.passage b t.moment (t.beginRun b.task).1)).runsOf := by
          rw [hushed_poll hw hb]
          rfl
        change a.task.turn (t.poll j).hushed.runsOf = a.task.turn t.runsOf
        rw [hrunsOf, calling, Vigil.passage_began]
        cases due' : w.isDue b t.moment with
        | false => rfl
        | true =>
            have hij : i ≠ j := fun hij => hother (congrArg Act.poll hij.symm)
            exact turn_of_apart (hapart i j a b hij before ⟨w, hw, hb, due'⟩) t
  | pollWatcher k =>
      obtain ⟨roster, watchers, journal, hpolled⟩ := t.pollWatcher_eq k
      rw [Timetable.act, hpolled]
      rfl
  | _ => cases hact

/-- Runs go on as they would at once, if the tasks have nothing to do with one another. -/
theorem Served.plays_of_apart (h : t.Served) (hapart : t.IsApart) {turns : Nat → Turn}
    (hturns : ∀ i a, t.IsDue i a → (t.beginRun a.task).1 = turns i) {polls : List Act}
    (hpolls : ∀ act ∈ polls, act.isPoll = true) :
    t.Plays (fun _ i turn => turn = turns i) polls := by
  induction polls generalizing t with
  | nil => trivial
  | cons act polls ih =>
      obtain ⟨hact, hpolls⟩ := List.forall_mem_cons.mp hpolls
      refine ⟨fun i a _ due => hturns i a due, ?_⟩
      apply ih (h.act_of_isPoll hact) _ _ hpolls
      · intro i j a b hij due due'
        exact hapart i j a b hij (h.isDue_of_act hact due).1 (h.isDue_of_act hact due').1
      · intro i a due
        rw [h.beginRun_of_apart hapart hact due]
        exact hturns i a (h.isDue_of_act hact due).1

end Timetable

end Almanac
