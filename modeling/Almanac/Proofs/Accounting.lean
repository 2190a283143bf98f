import Almanac.Proofs.Endings

/-!
# The accounts of vigils

A vigil that ends does so once, in one poll of its own, and the annals of its tenure say how it
had to end. Unless its alarm was taken away from it, it leaves the alarm idle; otherwise it
leaves every alarm as it finds it.
-/

namespace Almanac

/-- What the annals of its tenure demand of the end of a vigil. -/
structure Accounts (n i : Nat) (deeds : List Deed) (e : Ending) : Prop where
  finished : e = .finished ↔ EndsWell n i deeds
  failed : ∀ x, e = .failed x ↔ EndsBadly n i deeds x
  cancelled : e = .cancelled ↔ ¬ EndsWell n i deeds ∧ ∀ x, ¬ EndsBadly n i deeds x
  stopped : e = .cancelled → ∃ d ∈ deeds, d.stops n = true

theorem Accounts.of {n i : Nat} {deeds : List Deed} {e : Ending}
    (finished : e = .finished ↔ EndsWell n i deeds)
    (failed : ∀ x, e = .failed x ↔ EndsBadly n i deeds x)
    (stopped : e = .cancelled → ∃ d ∈ deeds, d.stops n = true) : Accounts n i deeds e := by
  refine ⟨finished, failed, ?_, stopped⟩
  rw [← finished]
  constructor
  · rintro rfl
    refine ⟨by simp, ?_⟩
    intro x
    rw [← failed x]
    simp
  · rintro ⟨hfinished, hfailed⟩
    cases e with
    | finished => exact absurd rfl hfinished
    | cancelled => rfl
    | failed x => exact absurd ((failed x).mp rfl) (hfailed x)

namespace Vigil.Told

variable {i : Nat} {v v' : Vigil} {a a' : Alarm} {annals deeds : List Deed} {e : Ending}

/-- The move that ends a vigil agrees with the annals of its tenure. -/
theorem accounts (h : v.Told i a annals) (hfits : v.Fits a) (goes : v.Goes i a v' a' deeds)
    (hended : v'.phase = .ended e) :
    Accounts v.alarm i (deeds ++ tenure v.alarm i annals) e := by
  have isOpen : v.phase.isOpen = true := goes.isOpen
  have hmem : a.isRevoked v.token = true →
      ∃ d ∈ deeds ++ tenure v.alarm i annals, d.stops v.alarm = true := by
    intro revoked
    obtain ⟨d, hd, stops⟩ := h.stopped revoked
    exact ⟨d, List.mem_append_right _ hd, stops⟩
  cases goes with
  | waits timer pending => cases hended
  | quits pending revoked =>
      cases hended
      obtain ⟨hwell, hbadly⟩ := h.verdict_of_quits pending
      refine .of ?_ ?_ fun _ => hmem revoked
      · exact iff_of_false (by simp) hwell
      · intro x
        exact iff_of_false (by simp) (hbadly x)
  | begins timer turn since time pending held => cases hended
  | vanishes r running period result => cases hended
  | ends r running period judged =>
      cases hended
      have hpending : v.phase.isPending = false := by rw [running]; rfl
      obtain ⟨hfinished, hfailed⟩ := h.verdict_of_judged hpending period judged hfits isOpen
      refine .of hfinished hfailed ?_
      rintro rfl
      cases judged with
      | stopped result stale => exact hmem (hfits.revoked_of_stale isOpen stale)
  | rearms r due next since running period result held own recurring inRange => cases hended

/-- A vigil that ends with its alarm still its own leaves it idle. -/
theorem idle (h : v.Told i a annals) (hfits : v.Fits a) (goes : v.Goes i a v' a' deeds)
    (hended : v'.phase = .ended e)
    (hkept : ∀ d ∈ tenure v.alarm i annals, d.takesOver v.alarm = false) :
    e ≠ .cancelled ∧ a'.status = .idle := by
  have held : a.isRevoked v.token = false := by
    by_contra revoked
    obtain ⟨d, hd, stops⟩ := h.stopped (by simpa using revoked)
    have takes := Deed.takesOver_of_revises (Deed.revises_of_stops stops)
    rw [hkept d hd] at takes
    cases takes
  have isOpen : v.phase.isOpen = true := goes.isOpen
  obtain ⟨running, hgeneration⟩ := hfits.live isOpen held
  have hconclude : ∀ e : Ending, e ≠ .cancelled →
      (a.conclude v.generation e).status = .idle := by
    intro e hother
    simp only [Alarm.conclude]
    rw [if_pos ⟨hgeneration.symm, running⟩]
    exact if_neg hother
  cases goes with
  | waits timer pending => cases hended
  | quits pending revoked =>
      rw [held] at revoked
      cases revoked
  | begins timer turn since time pending held => cases hended
  | vanishes r running period result => cases hended
  | ends r running period judged =>
      cases hended
      have hother : e ≠ .cancelled := by
        rintro rfl
        cases judged with
        | stopped result stale =>
            have revoked := hfits.revoked_of_stale isOpen stale
            rw [held] at revoked
            cases revoked
      exact ⟨hother, hconclude e hother⟩
  | rearms r due next since running period result held own recurring inRange => cases hended

end Vigil.Told

/-- How a vigil has ended, if it has. -/
def Phase.ending? : Phase → Option Ending
  | .ended e => some e
  | _ => none

theorem Phase.ending?_of_isOpen {p : Phase} (h : p.isOpen = true) : p.ending? = none := by
  cases p with
  | ended e => cases h
  | _ => rfl

namespace Core

variable {c d : Core} {i : Nat}

def ending? (c : Core) (i : Nat) : Option Ending :=
  (c.vigils[i]?).bind fun v => v.phase.ending?

theorem ending?_eq {v : Vigil} (hv : c.vigils[i]? = some v) : c.ending? i = v.phase.ending? := by
  simp only [ending?]
  rw [hv]
  rfl

/-- The annals hold one end for every vigil that has ended, and none for the others. -/
def Recorded (c : Core) : Prop := ∀ i, endings i c.annals = (c.ending? i).toList

theorem Recorded.endings_eq (h : c.Recorded) {v : Vigil} (hv : c.vigils[i]? = some v) :
    endings i c.annals = v.phase.ending?.toList :=
  (h i).trans (congrArg Option.toList (ending?_eq hv))

/-- A move writes down an end if and only if it is one. -/
theorem Recorded.move (h : c.Recorded) {j : Nat} (hmove : Move j c d) : d.Recorded := by
  obtain ⟨hv, ha, goes⟩ := hmove
  rename_i v v' a a' deeds
  intro i
  by_cases hij : j = i
  · subst hij
    have hnone : endings j c.annals = [] := by
      rw [h j, ending?_eq hv, Phase.ending?_of_isOpen goes.isOpen]
      rfl
    have hv' : (c.vigils.set j v')[j]? = some v' := by
      rw [Places.getElem?_set_self hv]
    dsimp only [ending?]
    rw [hv']
    cases goes with
    | waits timer pending => exact hnone
    | quits pending revoked =>
        change endings j (.ended j .cancelled :: c.annals) = [.cancelled]
        rw [endings_ended, hnone]
    | begins timer turn since time pending held => exact hnone
    | vanishes r running period result => exact hnone
    | ends r running period judged =>
        rename_i e
        change endings j (.ended j e :: .returned j r :: c.annals) = [e]
        rw [endings_ended]
        exact congrArg _ hnone
    | rearms r due next since running period result held own recurring inRange => exact hnone
  · have hsame : (c.vigils.set j v')[i]? = c.vigils[i]? := by
      rw [Places.getElem?_set hv, if_neg hij]
    have hdeeds : endings i (deeds ++ c.annals) = endings i c.annals := by
      apply endings_append
      intro d hd
      rcases (goes.deeds d hd).1 with hnone | hsome
      · rw [hnone]
        simp
      · rw [hsome]
        simpa using hij
    dsimp only [ending?]
    rw [hdeeds, hsame]
    exact h i

theorem Recorded.step (h : c.Recorded) {may : Impulse → Prop} (hstep : Step may c d) :
    d.Recorded := by
  cases hstep with
  | setUp e => exact h
  | @start n a b since allowed alarm started =>
      intro i
      refine (h i).trans ?_
      dsimp only [ending?]
      rcases Nat.lt_trichotomy i c.vigils.length with hlt | rfl | hgt
      · rw [List.getElem?_append_left hlt]
      · simp [Phase.ending?]
      · rw [List.getElem?_eq_none (by omega), List.getElem?_eq_none (by simp; omega)]
  | cancel alarm cancelled => exact h
  | replan alarm replanned => exact h
  | move i _ moved => exact h.move moved

theorem Recorded.steps (h : c.Recorded) {may : Impulse → Prop} (hsteps : Steps may c d) :
    d.Recorded := by
  induction hsteps with
  | refl => exact h
  | tail _ hstep ih => exact ih.step hstep

/-- A vigil that is over never moves again. -/
theorem Steps.closed {may : Impulse → Prop} (hsteps : Steps may c d) {v : Vigil}
    (hv : c.vigils[i]? = some v) (closed : v.phase.isOpen = false) :
    d.vigils[i]? = some v := by
  induction hsteps with
  | refl => exact hv
  | tail _ hstep ih =>
      rcases hstep.vigil ih with hsame | hmove
      · exact hsame
      · obtain ⟨hw, _, goes⟩ := hmove
        rw [ih] at hw
        cases hw
        rw [goes.isOpen] at closed
        cases closed

/-- Moves neither revoke tokens nor change the number of alarms. -/
theorem Moves.isRevoked (hmoves : Moves i c d) {n : Nat} {b : Alarm}
    (hb : d.alarms[n]? = some b) :
    ∃ a, c.alarms[n]? = some a ∧ ∀ token, b.isRevoked token = a.isRevoked token := by
  induction hmoves generalizing b with
  | refl => exact ⟨b, hb, fun _ => rfl⟩
  | tail _ hmove ih =>
      obtain ⟨hv, ha, goes⟩ := hmove
      dsimp only at hb
      rw [Places.getElem?_set ha] at hb
      split at hb
      · next hn =>
          cases hb
          obtain ⟨x, hx, hsame⟩ := ih (hn ▸ ha)
          exact ⟨x, hx, fun token => (goes.isRevoked token).trans (hsame token)⟩
      · exact ih hb

/-- A vigil that is revoked after its moves was stale before them. -/
theorem Moves.isStale_of_revoked (hmoves : Moves i c d) {v w : Vigil} {a : Alarm}
    (hv : c.vigils[i]? = some v) (hw : d.vigils[i]? = some w)
    (ha : d.alarms[w.alarm]? = some a) (revoked : a.isRevoked w.token = true) :
    c.IsStale i := by
  have hsteps : Steps (fun _ => True) c d := Moves.steps hmoves trivial
  obtain ⟨x, hx, halarm, htoken, _⟩ := hsteps.vigil hv
  have hxw : x = w := Option.some.inj (hx.symm.trans hw)
  subst hxw
  obtain ⟨b, hb, hsame⟩ := Moves.isRevoked hmoves ha
  rw [hsame, htoken] at revoked
  rw [halarm] at hb
  exact Core.isStale_of_revoked hv hb revoked

/-- The moves that end a vigil: its last one settles the account. -/
theorem Told.accounts_of_moves (h : c.Told) (hsound : c.Sound) (hmoves : Moves i c d)
    {v w : Vigil} {e : Ending} (hv : c.vigils[i]? = some v) (isOpen : v.phase.isOpen = true)
    (hw : d.vigils[i]? = some w) (hended : w.phase = .ended e) :
    let deeds := tenure w.alarm i d.annals
    (∃ earlier, d.annals = deeds ++ .started w.alarm i :: earlier) ∧
      Accounts w.alarm i deeds e ∧
      ((∀ deed ∈ deeds, deed.takesOver w.alarm = false) →
        e ≠ .cancelled ∧ ∃ a, d.alarms[w.alarm]? = some a ∧ a.status = .idle) ∧
      ((∃ deed ∈ deeds, deed.takesOver w.alarm = true) → d.alarms = c.alarms) := by
  have hall := hmoves
  rcases hmoves with _ | ⟨hbefore, hlast⟩
  · rw [hv] at hw
    cases hw
    rw [hended] at isOpen
    cases isOpen
  · have hsteps : Steps (fun _ => True) c _ := Moves.steps hbefore trivial
    have hsoundBefore := hsound.steps hsteps
    have htoldBefore := h.steps hsound hsteps
    obtain ⟨hx, ha, goes⟩ := hlast
    rename_i b x w' a a' deeds
    dsimp only at hw
    rw [Places.getElem?_set_self hx] at hw
    cases hw
    have htold := htoldBefore.tell hx ha goes.isOpen
    have hfits := hsoundBefore.fits hx ha
    have htakes : ∀ deed ∈ deeds, deed.takesOver x.alarm = false :=
      fun deed hdeed => (goes.deeds deed hdeed).2 x.alarm
    dsimp only
    rw [goes.same.1, goes.tenure_eq, Places.getElem?_set_self ha]
    refine ⟨?_, htold.accounts hfits goes hended, ?_, ?_⟩
    · obtain ⟨earlier, hearlier⟩ := eq_tenure_append htold.started
      refine ⟨earlier, ?_⟩
      rw [List.append_assoc, ← hearlier]
    · intro hkept
      have hkeptBefore := fun deed hdeed => hkept deed (List.mem_append_right _ hdeed)
      obtain ⟨hother, idle⟩ := htold.idle hfits goes hended hkeptBefore
      exact ⟨hother, a', rfl, idle⟩
    · rintro ⟨deed, hdeed, takes⟩
      have hmem : deed ∈ tenure x.alarm i b.annals := by
        rcases List.mem_append.mp hdeed with hnew | hold
        · rw [htakes deed hnew] at takes
          cases takes
        · exact hold
      have revoked := htold.taken deed hmem takes
      exact hsound.alarms_moves hall (Moves.isStale_of_revoked hbefore hv hx ha revoked)

end Core

namespace Timetable

theorem told_opening (start : Instant) (source : IdSource) (replies : List RestartReply) :
    (opening start source replies).core.Told where
  tell := by
    intro i v a hv
    cases hv

theorem recorded_opening (start : Instant) (source : IdSource) (replies : List RestartReply) :
    (opening start source replies).core.Recorded := by
  intro i
  rfl

/-- Only its own polls end a vigil. -/
theorem exists_poll_of_closed {t : Timetable} {acts : List Act} {i : Nat} {w : Vigil}
    (hopen : ∀ v, t.vigils[i]? = some v → v.phase.isOpen = true)
    (hw : (t.run acts).vigils[i]? = some w) (closed : w.phase.isOpen = false) :
    ∃ first later v, acts = first ++ .poll i :: later ∧
      (t.run first).vigils[i]? = some v ∧ v.phase.isOpen = true ∧
      ((t.run first).poll i).vigils[i]? = some w := by
  induction acts generalizing t with
  | nil =>
      rw [hopen w hw] at closed
      cases closed
  | cons act acts ih =>
      by_cases hstill : ∀ v, (t.act act).vigils[i]? = some v → v.phase.isOpen = true
      · obtain ⟨first, later, v, hacts, hv, isOpen, hpoll⟩ := ih hstill hw
        exact ⟨act :: first, later, v, congrArg _ hacts, hv, isOpen, hpoll⟩
      · push Not at hstill
        obtain ⟨w', hw', hclosed'⟩ := hstill
        have closed' : w'.phase.isOpen = false := Bool.eq_false_iff.mpr hclosed'
        have hsame := Core.Steps.closed (steps_run (t.act act) acts) hw' closed'
        have hww : w' = w := Option.some.inj (hsame.symm.trans hw)
        subst hww
        have hact : act = .poll i := by
          by_contra hnot
          rcases Core.Steps.unmoved (t.steps_act act) (mt mayGive_move_iff.mp hnot) with
            hsame | ⟨_, hnew⟩
          · rw [hopen w' (hsame ▸ hw')] at closed
            cases closed
          · rw [hnew w' hw'] at closed
            cases closed
        subst hact
        have hpoll : (t.poll i).vigils[i]? = some w' := hw'
        cases hv : t.vigils[i]? with
        | none =>
            rw [poll, hv] at hpoll
            rw [hv] at hpoll
            cases hpoll
        | some v => exact ⟨[], acts, v, rfl, hv, hopen v hv, hpoll⟩

/-- A vigil that has ended did so once, in a poll of its own. Its end is the one that the annals
of its tenure demand: finished, failed or, after a cancel or a plan that stopped it, cancelled.
Unless a start, a cancel or a plan had taken the alarm over by then, it leaves it idle, and
otherwise it leaves every alarm as it finds it. -/
theorem ending_accounted (start : Instant) (source : IdSource) (replies : List RestartReply)
    (acts : List Act) (i : Nat) (w : Vigil) (e : Ending)
    (hw : ((opening start source replies).run acts).vigils[i]? = some w)
    (hended : w.phase = .ended e) :
    endings i ((opening start source replies).run acts).annals = [e] ∧
    ∃ first later v, acts = first ++ .poll i :: later ∧
      let t := (opening start source replies).run first
      let u := t.poll i
      let deeds := tenure w.alarm i u.annals
      t.vigils[i]? = some v ∧ v.phase.isOpen = true ∧ u.vigils[i]? = some w ∧
      (∃ earlier, u.annals = deeds ++ .started w.alarm i :: earlier) ∧
      Accounts w.alarm i deeds e ∧
      ((∀ d ∈ deeds, d.takesOver w.alarm = false) →
        e ≠ .cancelled ∧ ∃ a, u.alarms[w.alarm]? = some a ∧ a.status = .idle) ∧
      ((∃ d ∈ deeds, d.takesOver w.alarm = true) → u.alarms = t.alarms) := by
  have hsteps := fun acts => steps_run (opening start source replies) acts
  have hclosed : w.phase.isOpen = false := by rw [hended]; rfl
  constructor
  · have hrecorded := (recorded_opening start source replies).steps (hsteps acts)
    exact (hrecorded.endings_eq hw).trans (by rw [hended]; rfl)
  · have hopen : ∀ v, (opening start source replies).vigils[i]? = some v →
        v.phase.isOpen = true := by
      intro v hv
      cases hv
    obtain ⟨first, later, v, hacts, hv, isOpen, hpoll⟩ := exists_poll_of_closed hopen hw hclosed
    refine ⟨first, later, v, hacts, hv, isOpen, hpoll, ?_⟩
    have hsound := sound_run start source replies first
    have htold := (told_opening start source replies).steps
      (sound_opening start source replies) (hsteps first)
    exact htold.accounts_of_moves hsound (moves_poll _ i) hv isOpen hpoll hended

/-- An alarm is cancelled and started again while its task runs, and the run then succeeds: its
vigil ends as cancelled, and leaves the alarm to the new one. -/
theorem ending_accounted_of_restart :
    let paused : Entry := { task := .pause ⟨5000000, by decide⟩, due := .epoch, period := .zero }
    endings 0 ((opening .epoch {} []).run
      [.setUp paused, .start 0, .poll 0, .cancel 0, .start 0, .pass 5, .poll 0]).annals =
        [.cancelled] := by
  intro paused
  let vigil : Vigil :=
    { alarm := 0, token := 0, generation := 1, since := 0, phase := .ended .cancelled }
  exact (ending_accounted .epoch {} [] _ 0 vigil .cancelled (by decide +kernel) rfl).1

end Timetable

end Almanac
