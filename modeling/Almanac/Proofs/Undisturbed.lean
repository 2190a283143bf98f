import Almanac.Proofs.LiveVigil
import Almanac.Proofs.Readings
import Almanac.Timetable.Settle

/-!
# Vigils that nothing disturbs

Only its own polls, cancels of its alarm and new plans for it matter to a live vigil. Whatever else
happens leaves the vigil, its alarm and what is written down of it as they are. The clock is moved
by the passing of time, by shifts, and by the runs that a poll ends.
-/

namespace Almanac

namespace Core

variable {c d : Core} {i : Nat} {v : Vigil} {a : Alarm} {may : Impulse → Prop}

/-- What a step writes down of a vigil is written by a move of that vigil. -/
theorem Step.deeds (hstep : Step may c d) :
    ∃ deeds, d.annals = deeds ++ c.annals ∧
      ∀ deed ∈ deeds, ∀ i, deed.vigil? = some i → may (.move i) ∧ Move i c d := by
  have hone : ∀ {e : Core} {deed : Deed}, e.annals = deed :: c.annals → deed.vigil? = none →
      ∃ deeds, e.annals = deeds ++ c.annals ∧
        ∀ deed ∈ deeds, ∀ i, deed.vigil? = some i → may (.move i) ∧ Move i c e := by
    intro e deed he hnone
    refine ⟨[deed], he, ?_⟩
    intro x hx i hi
    rw [List.mem_singleton.mp hx, hnone] at hi
    cases hi
  cases hstep with
  | setUp e => exact hone rfl rfl
  | start since allowed alarm started => exact hone rfl rfl
  | cancel alarm cancelled => exact hone rfl rfl
  | replan alarm replanned => exact hone rfl rfl
  | move j allowed moved =>
      have hmove := moved
      obtain ⟨hw, hx, goes⟩ := moved
      rename_i w w' x x' deeds
      refine ⟨deeds, rfl, ?_⟩
      intro deed hdeed i hi
      rcases (goes.deeds deed hdeed).1 with hnone | hsome
      · rw [hnone] at hi
        cases hi
      · rw [hsome] at hi
        cases hi
        exact ⟨allowed, hmove⟩

/-- Without a move of its own a vigil has no part in what is written down. -/
theorem Steps.deeds_of_unmoved (hsteps : Steps may c d) (hmay : ¬ may (.move i)) :
    ∃ deeds, d.annals = deeds ++ c.annals ∧ ∀ deed ∈ deeds, deed.vigil? ≠ some i := by
  induction hsteps with
  | refl => exact ⟨[], rfl, by simp⟩
  | tail _ hstep ih =>
      obtain ⟨before, hbefore, hother⟩ := ih
      obtain ⟨deeds, hdeeds, hmoved⟩ := hstep.deeds
      refine ⟨deeds ++ before, by rw [hdeeds, hbefore, List.append_assoc], ?_⟩
      intro deed hdeed hi
      rcases List.mem_append.mp hdeed with hnew | hold
      · exact hmay (hmoved deed hnew i hi).1
      · exact hother deed hold hi

/-- Of a vigil that is set out, or is not there yet, nothing is written down. -/
def Unwritten (c : Core) : Prop :=
  ∀ i, (∀ v, c.vigils[i]? = some v → v.phase = .setOut) → ∀ deed ∈ c.annals, deed.vigil? ≠ some i

theorem Unwritten.step (h : c.Unwritten) (hstep : Step may c d) : d.Unwritten := by
  intro i hsetOut
  have still : ¬ Move i c d := by
    intro moved
    obtain ⟨hv, ha, goes⟩ := moved
    have hphase := hsetOut _ (Places.getElem?_set_self hv _)
    cases goes <;> cases hphase
  have hbefore : ∀ deed ∈ c.annals, deed.vigil? ≠ some i := by
    refine h i ?_
    intro v hv
    rcases hstep.vigil hv with hsame | moved
    · exact hsetOut v hsame
    · exact absurd moved still
  obtain ⟨deeds, hdeeds, hmoved⟩ := hstep.deeds
  intro deed hdeed hi
  rw [hdeeds] at hdeed
  rcases List.mem_append.mp hdeed with hnew | hold
  · exact still (hmoved deed hnew i hi).2
  · exact hbefore deed hold hi

theorem Unwritten.steps (h : c.Unwritten) (hsteps : Steps may c d) : d.Unwritten := by
  induction hsteps with
  | refl => exact h
  | tail _ hstep ih => exact ih.step hstep

/-- A step that does not revise the alarm of a live vigil, and is no move of it, leaves both as
they are. -/
theorem Sound.undisturbed_step (h : c.Sound) (hstep : Step may c d) (hmay : ¬ may (.move i))
    (hv : c.vigils[i]? = some v) (ha : c.alarms[v.alarm]? = some a) (live : c.IsLive v)
    (hkept : ∀ deeds, d.annals = deeds ++ c.annals →
      ∀ deed ∈ deeds, deed.revises v.alarm = false) :
    d.vigils[i]? = some v ∧ d.alarms[v.alarm]? = some a := by
  have hset : ∀ {m : Nat} {x y : Alarm}, c.alarms[m]? = some x → m ≠ v.alarm →
      (c.alarms.set m y)[v.alarm]? = some a := by
    intro m x y hx hm
    rw [Places.getElem?_set hx, if_neg hm]
    exact ha
  cases hstep with
  | setUp e => exact ⟨hv, Places.getElem?_append ha _⟩
  | @start m x y since allowed alarm started =>
      refine ⟨Places.getElem?_append hv _, hset alarm ?_⟩
      rintro rfl
      obtain ⟨b, hb, _, _, running⟩ := h.alarm_of_live hv live
      rw [alarm] at hb
      cases hb
      exact (Alarm.start_ok started).1 running
  | @cancel m x y alarm cancelled =>
      refine ⟨hv, hset alarm ?_⟩
      rintro rfl
      have := hkept [.cancelled v.alarm] rfl _ List.mem_cons_self
      simp [Deed.revises] at this
  | @replan m x y plan now alarm replanned =>
      refine ⟨hv, hset alarm ?_⟩
      rintro rfl
      have := hkept [.planned v.alarm x.isRunning y.due y.period] rfl _ List.mem_cons_self
      simp [Deed.revises] at this
  | move j allowed moved =>
      have hij : j ≠ i := by
        rintro rfl
        exact hmay allowed
      by_cases stale : c.IsStale j
      · have halarms := h.alarms_move moved stale
        obtain ⟨hw, _, _⟩ := moved
        refine ⟨?_, by rw [halarms]; exact ha⟩
        dsimp only
        rw [Places.getElem?_set hw, if_neg hij]
        exact hv
      · obtain ⟨hw, hx, goes⟩ := moved
        rename_i w w' x x' deeds
        have live' : c.IsLive w := by
          by_contra hnot
          exact stale ⟨w, hw, hnot⟩
        refine ⟨?_, hset hx ?_⟩
        · dsimp only
          rw [Places.getElem?_set hw, if_neg hij]
          exact hv
        · intro hone
          exact hij (h.eq_of_live hw hv hone live' live)

theorem IsLive.of_same (live : c.IsLive v) (ha : c.alarms[v.alarm]? = some a)
    (ha' : d.alarms[v.alarm]? = some a) : d.IsLive v := by
  obtain ⟨isOpen, x, hx, held⟩ := live
  rw [ha] at hx
  cases hx
  exact ⟨isOpen, a, ha', held⟩

theorem Sound.undisturbed (h : c.Sound) (hsteps : Steps may c d) (hmay : ¬ may (.move i))
    (hv : c.vigils[i]? = some v) (ha : c.alarms[v.alarm]? = some a) (live : c.IsLive v)
    {deeds : List Deed} (hdeeds : d.annals = deeds ++ c.annals)
    (hkept : ∀ deed ∈ deeds, deed.revises v.alarm = false) :
    d.vigils[i]? = some v ∧ d.alarms[v.alarm]? = some a := by
  induction hsteps generalizing deeds with
  | refl => exact ⟨hv, ha⟩
  | tail hbefore hstep ih =>
      obtain ⟨before, hbefore', _⟩ := Steps.deeds_of_unmoved hbefore hmay
      obtain ⟨later, hlater, _⟩ := hstep.deeds
      have hsplit : deeds = later ++ before := by
        rw [hlater, hbefore', ← List.append_assoc] at hdeeds
        exact (List.append_cancel_right hdeeds).symm
      subst hsplit
      obtain ⟨hv', ha'⟩ := ih hbefore' fun deed hdeed => hkept deed (List.mem_append_right _ hdeed)
      refine (h.steps hbefore).undisturbed_step hstep hmay hv' ha' (live.of_same ha ha') ?_
      intro new hnew deed hdeed
      rw [hlater] at hnew
      rw [← List.append_cancel_right hnew] at hdeed
      exact hkept deed (List.mem_append_left _ hdeed)

end Core

namespace Timetable

theorem unwritten_opening (start : Instant) (source : IdSource) (replies : List RestartReply) :
    (opening start source replies).core.Unwritten := by
  intro i _ deed hdeed
  cases hdeed

/-- What the clock shows is made of. -/
def clockwork (t : Timetable) : Instant × Nat × Int := (t.start, t.elapsed, t.skew)

theorem clockwork_startAlarm {t u : Timetable} {n i : Nat} (h : t.startAlarm n = .ok (i, u)) :
    u.clockwork = t.clockwork := by
  obtain ⟨a, b, _, _, _, rfl⟩ := startAlarm_ok h
  rfl

theorem clockwork_cancelAlarm {t u : Timetable} {n : Nat} (h : t.cancelAlarm n = .ok u) :
    u.clockwork = t.clockwork := by
  obtain ⟨a, b, _, _, rfl⟩ := cancelAlarm_ok h
  rfl

theorem clockwork_replanAlarm {t u : Timetable} {n : Nat} {plan : Plan}
    (h : t.replanAlarm n plan = .ok u) : u.clockwork = t.clockwork := by
  obtain ⟨a, b, _, _, rfl⟩ := replanAlarm_ok h
  rfl

theorem clockwork_enroll (t : Timetable) (e : Entry) :
    (t.enroll e).2.clockwork = t.clockwork := by
  obtain ⟨journal, henroll⟩ := t.enroll_eq e
  rw [henroll]
  rfl

theorem clockwork_discard (t : Timetable) (id : Nat) :
    (t.discard id).clockwork = t.clockwork := by
  unfold discard
  split
  · rfl
  · dsimp only
    split
    · next hu => exact (clockwork_cancelAlarm hu).trans rfl
    · rfl

theorem clockwork_assign (t : Timetable) (id number : Nat) :
    (t.assign id number).clockwork = t.clockwork := by
  simp only [assign]
  split
  · next stopped hstopped =>
      obtain ⟨old, _, hold⟩ := Option.map_eq_some_iff.mp hstopped
      exact (clockwork_cancelAlarm hold).trans rfl
  · rfl

theorem clockwork_launch {t : Timetable} {entry : Entry} {number : Nat}
    {withdraw : Timetable → Except RosterError Timetable} {undo publish : Timetable → Timetable}
    (hwithdraw : ∀ u w, withdraw u = .ok w → w.clockwork = u.clockwork)
    (hundo : ∀ u, (undo u).clockwork = u.clockwork)
    (hpublish : ∀ u, (publish u).clockwork = u.clockwork) :
    (t.launch entry number withdraw undo publish).2.clockwork = t.clockwork := by
  simp only [launch]
  split
  · split
    · next w hw => exact hwithdraw t w hw
    · rfl
  · next vigil u hstart =>
      have started := clockwork_startAlarm hstart
      dsimp only [mintHandle]
      split
      · exact (hundo _).trans started
      · exact (hpublish _).trans started

theorem clockwork_create (t : Timetable) (task : Task) (plan : Plan) :
    (t.create task plan).2.clockwork = t.clockwork := by
  unfold create
  split
  · rfl
  · next entry _ =>
      have henroll := t.clockwork_enroll entry
      split
      · next u hu =>
          rw [hu] at henroll
          exact henroll
      · next e u hu =>
          rw [hu] at henroll
          exact henroll
      · next stored u hu =>
          rw [hu] at henroll
          dsimp only
          rw [clockwork_launch]
          · exact henroll
          · intro v w hw
            obtain ⟨roster, _, rfl⟩ := map_eq_ok_iff.mp hw
            rfl
          · intro v
            split
            · next w hw =>
                have cancelled := clockwork_cancelAlarm hw
                exact cancelled
            · rfl
          · intro v
            exact v.clockwork_assign stored.id _

theorem clockwork_update (t : Timetable) (id : Nat) (plan : Plan) :
    (t.update id plan).2.clockwork = t.clockwork := by
  simp only [update]
  split
  · rfl
  · split
    · dsimp only
      split
      · exact t.clockwork_discard id
      · rfl
    · split
      · rfl
      · next u hu =>
          rw [clockwork_launch]
          · exact clockwork_replanAlarm hu
          · intro v w hw
            cases hw
            rfl
          · intro v
            exact v.clockwork_discard id
          · intro v
            rfl

theorem clockwork_remove (t : Timetable) (id : Nat) :
    (t.remove id).2.clockwork = t.clockwork := by
  unfold remove
  split
  · rfl
  · dsimp only
    split
    · exact t.clockwork_discard id
    · exact t.clockwork_discard id

theorem clockwork_stopAll (t : Timetable) (posts : List (Nat × Nat)) :
    (t.stopAll posts).2.clockwork = t.clockwork := by
  induction posts generalizing t with
  | nil => rfl
  | cons post posts ih =>
      simp only [stopAll]
      split
      · next u hu => exact (ih u).trans (clockwork_cancelAlarm hu)
      · exact ih t

/-- Nothing sets the clock going at another instant, and only the passing of time moves timers. -/
theorem timers_act (t : Timetable) (act : Act) :
    (t.act act).start = t.start ∧
      ((t.act act).elapsed = t.elapsed ∨ ∃ millis, act = .pass millis) := by
  have hsame : ∀ {u : Timetable}, u.clockwork = t.clockwork →
      u.start = t.start ∧ (u.elapsed = t.elapsed ∨ ∃ millis, act = .pass millis) :=
    fun hu => ⟨congrArg (fun c => c.1) hu, Or.inl (congrArg (fun c => c.2.1) hu)⟩
  cases act with
  | pass millis => exact ⟨rfl, Or.inr ⟨millis, rfl⟩⟩
  | shiftClock millis => exact ⟨rfl, Or.inl rfl⟩
  | poll vigil => exact ⟨congrArg Frame.start (t.frame_poll vigil), Or.inl (t.elapsed_poll vigil)⟩
  | pollWatcher watcher =>
      obtain ⟨roster, watchers, journal, hpolled⟩ := t.pollWatcher_eq watcher
      exact hsame (by rw [Timetable.act, hpolled]; rfl)
  | create task plan => exact hsame (t.clockwork_create task plan)
  | update id plan => exact hsame (t.clockwork_update id plan)
  | remove id => exact hsame (t.clockwork_remove id)
  | shutdown => exact hsame (t.clockwork_stopAll t.posts)
  | list => exact hsame rfl
  | get id => exact hsame rfl
  | setUp entry => exact hsame rfl
  | start alarm =>
      simp only [Timetable.act]
      split
      · next started hstarted => exact hsame (clockwork_startAlarm hstarted)
      · exact hsame rfl
  | cancel alarm =>
      simp only [Timetable.act]
      split
      · next cancelled hcancelled => exact hsame (clockwork_cancelAlarm hcancelled)
      · exact hsame rfl
  | replan alarm plan =>
      simp only [Timetable.act]
      split
      · next replanned hreplanned => exact hsame (clockwork_replanAlarm hreplanned)
      · exact hsame rfl

/-- Nothing sets the clock going at another instant, and timers never go back. -/
theorem clock_act (t : Timetable) (act : Act) :
    (t.act act).start = t.start ∧ t.elapsed ≤ (t.act act).elapsed := by
  obtain ⟨start, helapsed | ⟨millis, rfl⟩⟩ := t.timers_act act
  · exact ⟨start, Nat.le_of_eq helapsed.symm⟩
  · exact ⟨start, Nat.le_add_right _ _⟩

/-- Either the timers stand still, or the clock moves with them. -/
theorem elapsed_or_skew_act (t : Timetable) (act : Act) :
    (t.act act).elapsed = t.elapsed ∨ (t.act act).skew = t.skew := by
  obtain ⟨_, helapsed | ⟨millis, rfl⟩⟩ := t.timers_act act
  · exact Or.inl helapsed
  · exact Or.inr rfl

theorem start_run (t : Timetable) (acts : List Act) : (t.run acts).start = t.start := by
  induction acts generalizing t with
  | nil => rfl
  | cons act acts ih => exact (ih (t.act act)).trans (t.clock_act act).1

end Timetable

end Almanac
