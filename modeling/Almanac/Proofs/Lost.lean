import Almanac.Proofs.Accounting
import Almanac.Proofs.Handles
import Almanac.Proofs.Rest

/-!
# Alarms that go on running

An alarm is set running by a start and comes to rest by the end of the vigil of that start, by a
cancel or by a new plan. A vigil that is lost does not end: it tells nobody, and it leaves behind
an alarm that still counts as running.
-/

namespace Almanac

/-- A vigil that is lost is not open. -/
theorem Phase.not_isOpen_of_lost {p : Phase} (h : p = .lost) : p.isOpen = false := by
  rw [h]
  rfl

/-- Holds until a vigil has ended, and for good if it is lost. -/
def Phase.isUnended : Phase → Bool
  | .ended _ => false
  | _ => true

theorem Phase.isUnended_iff {p : Phase} :
    p.isUnended = true ↔ p.isOpen = true ∨ p = .lost := by
  cases p <;> simp [isUnended, isOpen]

namespace Core

variable {c d : Core} {i n : Nat} {v : Vigil} {a : Alarm} {may : Impulse → Prop}

/-- A running alarm has the vigil of its last start, which has not ended; and a vigil that has not
ended has a running alarm, as long as its token is not revoked. -/
structure Manned (c : Core) : Prop where
  vigil : ∀ {n : Nat} {a : Alarm}, c.alarms[n]? = some a → a.status = .running →
    ∃ (i : Nat) (v : Vigil), c.vigils[i]? = some v ∧ v.alarm = n ∧
      v.generation = a.generation ∧ v.phase.isUnended = true
  alarm : ∀ {i : Nat} {v : Vigil} {a : Alarm}, c.vigils[i]? = some v →
    c.alarms[v.alarm]? = some a → v.phase.isUnended = true → a.isRevoked v.token = false →
    a.status = .running ∧ v.generation = a.generation

namespace Manned

/-- Stopping an alarm revokes the tokens of all its vigils that have not ended. -/
theorem revoked_stop (h : c.Manned) (hsound : c.Sound) (hv : c.vigils[i]? = some v)
    (ha : c.alarms[v.alarm]? = some a) (unended : v.phase.isUnended = true) :
    a.stop.isRevoked v.token = true := by
  by_cases revoked : a.isRevoked v.token = true
  · exact Alarm.revoked_stop revoked
  · obtain ⟨running, hgeneration⟩ := h.alarm hv ha unended (Bool.eq_false_iff.mpr revoked)
    have hown := (hsound.fits hv ha).own hgeneration running
    rw [hown, Alarm.stop_of_running running, Alarm.isRevoked_eq_true_iff]
    exact List.mem_cons_self

/-- An alarm that is stopped has no use for a vigil. -/
theorem setStopped (h : c.Manned) {b : Alarm} (ha : c.alarms[n]? = some a)
    (stopped : b.status ≠ .running)
    (hrevoked : ∀ {i : Nat} {v : Vigil}, c.vigils[i]? = some v → v.alarm = n →
      v.phase.isUnended = true → b.isRevoked v.token = true) (annals : List Deed) :
    Core.Manned ⟨c.alarms.set n b, c.vigils, annals⟩ where
  vigil := by
    intro m x hx running
    dsimp only at hx
    rw [Places.getElem?_set ha] at hx
    split at hx
    · cases hx
      exact absurd running stopped
    · exact h.vigil hx running
  alarm := by
    intro i v x hv hx unended held
    dsimp only at hv hx
    rw [Places.getElem?_set ha] at hx
    split at hx
    · next hn =>
        cases hx
        rw [hrevoked hv hn.symm unended] at held
        cases held
    · exact h.alarm hv hx unended held

/-- A start sets out the vigil that its alarm needs. -/
theorem start (h : c.Manned) {b : Alarm} (ha : c.alarms[n]? = some a)
    (hstart : a.start = .ok b) (since : Nat) (annals : List Deed) :
    Core.Manned ⟨c.alarms.set n b,
      c.vigils ++ [{ alarm := n, token := b.token, generation := b.generation, since }],
      annals⟩ where
  vigil := by
    intro m x hx running
    dsimp only at hx ⊢
    rw [Places.getElem?_set ha] at hx
    split at hx
    · next hn =>
        cases hx
        exact ⟨_, _, Places.getElem?_last _ _, hn, rfl, rfl⟩
    · obtain ⟨i, v, hv, hm, hgeneration, unended⟩ := h.vigil hx running
      exact ⟨i, v, Places.getElem?_append hv _, hm, hgeneration, unended⟩
  alarm := by
    intro i v x hv hx unended held
    obtain ⟨idle, hb⟩ := Alarm.start_ok hstart
    dsimp only at hx
    rw [Places.getElem?_set ha] at hx
    rcases Places.getElem?_grown hv with hold | ⟨_, rfl⟩
    · split at hx
      · next hn =>
          cases hx
          subst hn
          have held' : a.isRevoked v.token = false := by
            by_contra revoked
            have revoked' := Alarm.revoked_start hstart v.token (Bool.not_eq_false _ ▸ revoked)
            rw [held] at revoked'
            cases revoked'
          exact absurd (h.alarm hold ha unended held').1 idle
      · exact h.alarm hold hx unended held
    · rw [if_pos rfl] at hx
      cases hx
      exact ⟨by rw [hb], rfl⟩

/-- What a move leaves of its own vigil and alarm. -/
theorem of_goes {v' : Vigil} {a' : Alarm} {deeds : List Deed} (hfits : v.Fits a)
    (goes : v.Goes i a v' a' deeds) :
    (a'.status = .running → v.generation = a.generation → v'.phase.isUnended = true) ∧
      (v'.phase.isUnended = true → a'.isRevoked v.token = false →
        a'.status = .running ∧ v.generation = a'.generation) := by
  have hstill : a.isRevoked v.token = false → a.status = .running ∧ v.generation = a.generation :=
    hfits.live goes.isOpen
  have hconclude : ∀ e, (a.conclude v.generation e).status = .running →
      v.generation ≠ a.generation := by
    intro e running hgeneration
    simp only [Alarm.conclude] at running
    split at running
    · dsimp only at running
      split at running <;> cases running
    · next other => exact other ⟨hgeneration.symm, running⟩
  cases goes with
  | waits timer pending => exact ⟨fun _ _ => rfl, fun _ => hstill⟩
  | quits pending revoked =>
      refine ⟨fun running hgeneration => absurd hgeneration (hconclude _ running), ?_⟩
      intro unended
      cases unended
  | begins timer turn since time pending held => exact ⟨fun _ _ => rfl, fun _ => hstill⟩
  | vanishes r running period result => exact ⟨fun _ _ => rfl, fun _ => hstill⟩
  | ends r running period judged =>
      refine ⟨fun running hgeneration => absurd hgeneration (hconclude _ running), ?_⟩
      intro unended
      cases unended
  | rearms r due next since running period result held own recurring inRange =>
      exact ⟨fun _ _ => rfl, fun _ => hstill⟩

section

variable {v' : Vigil} {a' x : Alarm} {deeds : List Deed}

/-- After a move every running alarm has its vigil: the one that has moved, if it was that, and
otherwise the one it had. -/
theorem vigil_move (h : c.Manned) (hsound : c.Sound) (hv : c.vigils[i]? = some v)
    (ha : c.alarms[v.alarm]? = some a) (goes : v.Goes i a v' a' deeds)
    (hx : (c.alarms.set v.alarm a')[n]? = some x) (running : x.status = .running) :
    ∃ (j : Nat) (w : Vigil), (c.vigils.set i v')[j]? = some w ∧ w.alarm = n ∧
      w.generation = x.generation ∧ w.phase.isUnended = true := by
  obtain ⟨hown, _⟩ := of_goes (hsound.fits hv ha) goes
  obtain ⟨halarm, _, hgeneration⟩ := goes.same
  obtain ⟨hsame, hwas, _⟩ := goes.leaves
  have hstays : ∀ {j : Nat} {w : Vigil}, i ≠ j → c.vigils[j]? = some w →
      (c.vigils.set i v')[j]? = some w := by
    intro j w hij hw
    rw [Places.getElem?_set hv, if_neg hij]
    exact hw
  rw [Places.getElem?_set ha] at hx
  split at hx
  · next hn =>
      cases hx
      obtain ⟨j, w, hw, hm, hwgen, unended⟩ := h.vigil ha (hwas running)
      by_cases hij : i = j
      · subst hij
        rw [hv] at hw
        cases hw
        exact ⟨i, v', Places.getElem?_set_self hv _, halarm.trans hn,
          hgeneration.trans (hwgen.trans hsame.symm), hown running hwgen⟩
      · exact ⟨j, w, hstays hij hw, hm.trans hn, hwgen.trans hsame.symm, unended⟩
  · next hn =>
      obtain ⟨j, w, hw, hm, hwgen, unended⟩ := h.vigil hx running
      have hij : i ≠ j := by
        rintro rfl
        rw [hv] at hw
        cases hw
        exact hn hm
      exact ⟨j, w, hstays hij hw, hm, hwgen, unended⟩

/-- After a move every vigil that has not ended has its alarm, unless its token is revoked. A move
of another vigil of the alarm is not one of its last, and leaves its status. -/
theorem alarm_move (h : c.Manned) (hsound : c.Sound) (hv : c.vigils[i]? = some v)
    (ha : c.alarms[v.alarm]? = some a) (goes : v.Goes i a v' a' deeds) {j : Nat} {w : Vigil}
    (hw : (c.vigils.set i v')[j]? = some w) (hx : (c.alarms.set v.alarm a')[w.alarm]? = some x)
    (unended : w.phase.isUnended = true) (held : x.isRevoked w.token = false) :
    x.status = .running ∧ w.generation = x.generation := by
  obtain ⟨_, hstays⟩ := of_goes (hsound.fits hv ha) goes
  obtain ⟨halarm, htoken, hgeneration⟩ := goes.same
  obtain ⟨hsame, _, hother⟩ := goes.leaves
  rw [Places.getElem?_set hv] at hw
  rw [Places.getElem?_set ha] at hx
  split at hw
  · cases hw
    rw [halarm, if_pos rfl] at hx
    cases hx
    rw [htoken] at held
    rw [hgeneration]
    exact hstays unended held
  · next hij =>
      split at hx
      · next hn =>
          cases hx
          rw [goes.isRevoked] at held
          obtain ⟨running, hgen⟩ := h.alarm hw (hn ▸ ha) unended held
          have hdistinct : v.generation ≠ a.generation := by
            intro hsame'
            exact hij (hsound.distinct hv hw hn (hsame'.trans hgen.symm))
          exact ⟨(hother hdistinct).trans running, hgen.trans hsame.symm⟩
      · exact h.alarm hw hx unended held

end

theorem move (h : c.Manned) (hsound : c.Sound) (hmove : Move i c d) : d.Manned := by
  obtain ⟨hv, ha, goes⟩ := hmove
  exact ⟨h.vigil_move hsound hv ha goes, h.alarm_move hsound hv ha goes⟩

theorem step (h : c.Manned) (hsound : c.Sound) (hstep : Step may c d) : d.Manned := by
  cases hstep with
  | setUp e =>
      refine ⟨?_, ?_⟩
      · intro n a ha running
        rcases Places.getElem?_grown ha with hold | ⟨_, rfl⟩
        · exact h.vigil hold running
        · cases running
      · intro i v a hv ha unended held
        obtain ⟨b, hb, _⟩ := hsound.vigils hv
        dsimp only at ha
        rw [Places.getElem?_append hb] at ha
        cases ha
        exact h.alarm hv hb unended held
  | start since allowed alarm started => exact h.start alarm started since _
  | cancel alarm cancelled =>
      obtain ⟨_, rfl⟩ := Alarm.cancel_ok cancelled
      refine h.setStopped alarm ?_ ?_ _
      · intro running
        have hrunning := Alarm.isRunning_eq_true_iff.mpr running
        rw [Alarm.isRunning_stop] at hrunning
        cases hrunning
      · rintro i v hv rfl unended
        exact h.revoked_stop hsound hv alarm unended
  | replan alarm replanned =>
      obtain ⟨due, period, _, rfl⟩ := Alarm.replan_ok replanned
      refine h.setStopped alarm ?_ ?_ _
      · intro running
        have hrunning := Alarm.isRunning_eq_true_iff.mpr running
        exact absurd (hrunning.symm.trans (Alarm.isRunning_stop _)) (by simp)
      · rintro i v hv rfl unended
        exact h.revoked_stop hsound hv alarm unended
  | move i _ moved => exact h.move hsound moved

theorem steps (h : c.Manned) (hsound : c.Sound) (hsteps : Steps may c d) : d.Manned := by
  induction hsteps with
  | refl => exact h
  | tail hbefore hstep ih => exact ih.step (hsound.steps hbefore) hstep

/-- A vigil that has ended leaves its alarm not running, unless the alarm was started since. -/
theorem idle_of_ended (h : c.Manned) (hsound : c.Sound) (hv : c.vigils[i]? = some v)
    (ended : v.phase.isUnended = false) (ha : c.alarms[v.alarm]? = some a)
    (own : v.generation = a.generation) : a.isRunning = false := by
  by_contra running
  have running : a.status = .running :=
    Alarm.isRunning_eq_true_iff.mp (Bool.not_eq_false _ ▸ running)
  obtain ⟨j, w, hw, halarm, hgeneration, unended⟩ := h.vigil ha running
  have hij : i = j := hsound.distinct hv hw halarm.symm (own.trans hgeneration.symm)
  subst hij
  rw [hv] at hw
  cases hw
  rw [ended] at unended
  cases unended

end Manned

end Core

namespace Timetable

variable {t : Timetable} {i n : Nat} {v : Vigil} {a : Alarm}

theorem manned_opening (start : Instant) (source : IdSource) (replies : List RestartReply) :
    (opening start source replies).core.Manned where
  vigil := by
    intro n a ha
    cases ha
  alarm := by
    intro i v a hv
    cases hv

theorem manned_run (start : Instant) (source : IdSource) (replies : List RestartReply)
    (acts : List Act) : ((opening start source replies).run acts).core.Manned :=
  (manned_opening start source replies).steps (sound_opening start source replies)
    (steps_run _ acts)

theorem startAlarm_of_idle (ha : t.alarms[n]? = some a) (idle : a.isRunning = false) :
    ∃ r, t.startAlarm n = .ok r := by
  obtain ⟨b, hb⟩ := Alarm.exists_start idle
  simp only [startAlarm]
  rw [ha]
  dsimp only
  rw [hb]
  exact ⟨_, rfl⟩

theorem startAlarm_of_running (ha : t.alarms[n]? = some a) (running : a.isRunning = true) :
    t.startAlarm n = .error .alreadyRunning := by
  simp only [startAlarm]
  rw [ha]
  dsimp only
  rw [Alarm.start_eq_error_iff.mpr ⟨running, rfl⟩]

/-- At rest a live vigil has a timer that is still to come. -/
theorem AtRest.exists_timer (h : t.AtRest) (hv : t.vigils[i]? = some v) (live : t.core.IsLive v) :
    ∃ timer, t.elapsed < timer ∧
      (v.phase = .waiting timer ∨ ∃ turn, v.phase = .running timer turn) := by
  have waits := h.vigils v (List.mem_of_getElem? hv)
  have isOpen := live.1
  simp only [isReady] at waits
  cases hp : v.phase with
  | setOut =>
      rw [hp] at waits
      cases waits
  | waiting timer =>
      rw [hp, Bool.or_eq_false_iff] at waits
      exact ⟨timer, by simpa using waits.1, .inl rfl⟩
  | running timer turn =>
      rw [hp] at waits
      exact ⟨timer, by simpa using waits, .inr ⟨turn, rfl⟩⟩
  | ended ending =>
      rw [hp] at isOpen
      cases isOpen
  | lost =>
      rw [hp] at isOpen
      cases isOpen

/-- At rest every watcher whose vigil has ended by itself has seen it. -/
theorem AtRest.hasTaken_eq (h : t.AtRest) {w : Watcher} (hw : w ∈ t.watchers) :
    t.hasTaken w = t.hasConcluded w.vigil := by
  have waits := h.watchers w hw
  simp only [hasTaken]
  cases hconcluded : t.hasConcluded w.vigil with
  | false => exact Bool.and_false _
  | true =>
      obtain ⟨v, hv, conclusive⟩ := exists_of_hasConcluded hconcluded
      cases done : w.isDone with
      | true => rfl
      | false =>
          rw [isCalled_iff.mpr ⟨done, v, hv, Phase.not_isOpen_of_isConclusive conclusive⟩] at waits
          cases waits

/-- In every history an alarm that counts as running has the vigil of its last start, and that
one is live or lost; at rest a live one has a timer to come. However a run comes back, a vigil
that has ended has told so once, and unless its alarm was started since, that alarm is not running
and can be started; in a history of requests, polls and time an entry has lost its handle at rest
exactly if the vigil of its last grant has ended by itself. A vigil that is lost tells nothing,
now or later, and unless its token is revoked its alarm counts as running and refuses a start. -/
theorem running_alarm_manned (start : Instant) (source : IdSource) (replies : List RestartReply)
    (acts : List Act) :
    let t := (opening start source replies).run acts
    (∀ (n : Nat) (a : Alarm), t.alarms[n]? = some a → a.status = .running →
      ∃ (i : Nat) (v : Vigil), t.vigils[i]? = some v ∧ v.alarm = n ∧
        v.generation = a.generation ∧ (t.core.IsLive v ∨ v.phase = .lost)) ∧
    (t.step? = none → ∀ (i : Nat) (v : Vigil), t.vigils[i]? = some v → t.core.IsLive v →
      ∃ timer, t.elapsed < timer ∧
        (v.phase = .waiting timer ∨ ∃ turn, v.phase = .running timer turn)) ∧
    (∀ (i : Nat) (v : Vigil) (a : Alarm) (e : Ending), t.vigils[i]? = some v →
      t.alarms[v.alarm]? = some a → v.phase = .ended e → endings i t.annals = [e] ∧
        (v.generation = a.generation → a.isRunning = false ∧ ∃ r, t.startAlarm v.alarm = .ok r)) ∧
    (∀ (i : Nat) (v : Vigil) (a : Alarm), t.vigils[i]? = some v → t.alarms[v.alarm]? = some a →
      v.phase = .lost → (∀ later, endings i (t.run later).annals = []) ∧
        (a.isRevoked v.token = false → v.generation = a.generation ∧ a.isRunning = true ∧
          t.startAlarm v.alarm = .error .alreadyRunning)) ∧
    ((∀ act ∈ acts, act.isDirect = false) → t.roster.isSpoiled = false → t.step? = none →
      ∀ e ∈ t.roster.entries, ∃ (k : Nat) (w : Watcher), t.watchers[k]? = some w ∧
        w.entry = e.id ∧ (∀ j x, k < j → t.watchers[j]? = some x → x.entry ≠ e.id) ∧
        (e.handle = none ↔ t.hasConcluded w.vigil = true)) := by
  intro t
  have hsound : t.core.Sound := sound_run start source replies acts
  have hmanned : t.core.Manned := manned_run start source replies acts
  have hrecorded : ∀ later, (t.run later).core.Recorded := by
    intro later
    have hsteps := steps_run (opening start source replies) (acts ++ later)
    rw [run_append] at hsteps
    exact (recorded_opening start source replies).steps hsteps
  refine ⟨?_, ?_, ?_, ?_, ?_⟩
  · intro n a ha running
    obtain ⟨i, v, hv, rfl, hgeneration, unended⟩ := hmanned.vigil ha running
    refine ⟨i, v, hv, rfl, hgeneration, ?_⟩
    rcases Phase.isUnended_iff.mp unended with isOpen | lost
    · have hown := (hsound.fits hv ha).own hgeneration running
      exact Or.inl ⟨isOpen, a, ha, hown ▸ (hsound.alarms ha).held running⟩
    · exact Or.inr lost
  · intro hrest i v hv live
    exact (step?_eq_none_iff.mp hrest).exists_timer hv live
  · intro i v a e hv ha ended
    have hending := hrecorded [] i
    rw [run_nil, Core.ending?_eq (c := t.core) hv, ended] at hending
    refine ⟨hending, ?_⟩
    intro own
    have idle := hmanned.idle_of_ended hsound hv (by rw [ended]; rfl) ha own
    exact ⟨idle, startAlarm_of_idle ha idle⟩
  · intro i v a hv ha lost
    constructor
    · intro later
      have hlater : (t.run later).vigils[i]? = some v :=
        Core.Steps.closed (c := t.core) (steps_run t later) hv (Phase.not_isOpen_of_lost lost)
      have hending := hrecorded later i
      rw [Core.ending?_eq (c := (t.run later).core) hlater, lost] at hending
      exact hending
    · intro held
      obtain ⟨running, hgeneration⟩ := hmanned.alarm hv ha (by rw [lost]; rfl) held
      have hrunning := Alarm.isRunning_eq_true_iff.mpr running
      exact ⟨hgeneration, hrunning, startAlarm_of_running ha hrunning⟩
  · intro hacts sound hrest e he
    have hcustody := (custody_opening start source replies).run hacts sound
    obtain ⟨k, w, howner⟩ := hcustody.owner e he
    refine ⟨k, w, howner.watcher, howner.entry, howner.latest, ?_⟩
    rw [howner.handle, (step?_eq_none_iff.mp hrest).hasTaken_eq howner.mem]
    split
    · next concluded => exact ⟨fun _ => concluded, fun _ => rfl⟩
    · next other =>
        constructor
        · intro hhandle
          cases hhandle
        · intro concluded
          exact absurd concluded other

/-- A task whose runs all come back at once, in the same way. -/
def Task.always (result : RunResult) : Task :=
  .rehearse { name := "always", troupe := 0, script := fun _ => { result } }

/-- The run of an entry fails: its vigil has told so, and the alarm can be started again. -/
theorem running_alarm_manned_of_failure :
    let t := (opening .epoch {} []).run
      [.create (Task.always (.failed (.failed "no"))) .once, .poll 0, .pollWatcher 0]
    t.step? = none ∧ endings 0 t.annals = [.failed (.failed "no")] ∧
      ∃ r, t.startAlarm 0 = .ok r := by
  intro t
  let vigil : Vigil :=
    { alarm := 0, token := 0, generation := 1, since := 0,
      phase := .ended (.failed (.failed "no")) }
  obtain ⟨_, _, hended, _⟩ := running_alarm_manned .epoch {} []
    [.create (Task.always (.failed (.failed "no"))) .once, .poll 0, .pollWatcher 0]
  have hvigil : t.vigils[0]? = some vigil := by decide +kernel
  obtain ⟨hending, hown⟩ := hended 0 vigil _ _ hvigil rfl rfl
  refine ⟨?_, hending, (hown rfl).2⟩
  rw [step?_eq_none_iff]
  exact ⟨by decide +kernel, by decide +kernel⟩

/-- The alarm of an entry whose run was lost counts as running, although the timetable is at rest
and the one vigil there ever was is over. Nobody was told that it is, the alarm refuses a start,
and the entry has kept its handle. -/
theorem running_alarm_unmanned :
    let t := (opening .epoch {} []).run
      [.create (Task.always .lost) .once, .poll 0, .pollWatcher 0]
    t.step? = none ∧ t.statusOf? 1001 = some .running ∧
      t.vigils.map (fun v => v.phase.isOpen) = [false] ∧ endings 0 t.annals = [] ∧
      t.startAlarm 0 = .error .alreadyRunning ∧
      t.roster.entries.map Entry.handle = [some 1] := by
  intro t
  refine ⟨?_, by decide +kernel, by decide +kernel, by decide +kernel, rfl, by decide +kernel⟩
  rw [step?_eq_none_iff]
  exact ⟨by decide +kernel, by decide +kernel⟩

end Timetable

end Almanac
