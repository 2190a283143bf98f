import Almanac.Proofs.Beginners
import Almanac.Proofs.Ensuing
import Almanac.Proofs.LeapSeconds
import Almanac.Proofs.Pauses

/-!
# Waiting for the next run

The wait of a vigil is measured once, when it begins. While the vigil waits nothing changes its
timer, and nothing sets its alarm without taking the alarm from it. The next run begins with the
first poll that comes at the timer or later.
-/

namespace Almanac

namespace Core

variable {c d : Core} {i : Nat} {v : Vigil} {a : Alarm} {may : Impulse → Prop}

/-- An alarm is revised only at the cost of its live vigil. -/
theorem Sound.undisturbed_step_of_live (h : c.Sound) (hstep : Step may c d) (hmay : ¬may (.move i))
    (hv : c.vigils[i]? = some v) (ha : c.alarms[v.alarm]? = some a) (before : c.IsLive v)
    (after : d.IsLive v) : d.vigils[i]? = some v ∧ d.alarms[v.alarm]? = some a := by
  have hstop : a.stop.isRevoked v.token = true := (h.fits hv ha).revoked_stop before.1
  obtain ⟨_, b, hb, held⟩ := after
  refine h.undisturbed_step hstep hmay hv ha before fun deeds hdeeds deed hdeed => ?_
  have hone : ∀ x : Deed, d.annals = x :: c.annals → x.revises v.alarm = false →
      deed.revises v.alarm = false := by
    intro x hx hrevises
    have hsingle : deeds = [x] := List.append_cancel_right (hdeeds.symm.trans hx)
    rw [hsingle] at hdeed
    exact List.mem_singleton.mp hdeed ▸ hrevises
  have hset : ∀ {m : Nat} {x y : Alarm}, c.alarms[m]? = some x → d.alarms = c.alarms.set m y →
      (∀ token, x.stop.isRevoked token = true → y.isRevoked token = true) → m ≠ v.alarm := by
    rintro m x y hx hy hkept rfl
    rw [ha] at hx
    cases hx
    rw [hy, Places.getElem?_set_self ha] at hb
    cases hb
    rw [hkept _ hstop] at held
    cases held
  cases hstep with
  | setUp e =>
    have hne : c.alarms.length ≠ v.alarm := Ne.symm (Nat.ne_of_lt (Places.lt_of_getElem? ha))
    exact hone _ rfl (beq_eq_false_iff_ne.mpr hne)
  | start since allowed alarm started => exact hone _ rfl rfl
  | cancel alarm cancelled =>
    obtain ⟨_, rfl⟩ := Alarm.cancel_ok cancelled
    exact hone _ rfl (beq_eq_false_iff_ne.mpr (hset alarm rfl fun _ => id))
  | replan alarm replanned =>
    obtain ⟨_, _, _, rfl⟩ := Alarm.replan_ok replanned
    exact hone _ rfl (beq_eq_false_iff_ne.mpr (hset alarm rfl fun _ => id))
  | move j allowed moved =>
    obtain ⟨_, _, goes⟩ := moved
    rw [List.append_cancel_right hdeeds] at goes
    by_contra hrevises
    have htakes := Deed.takesOver_of_revises (Bool.not_eq_false _ ▸ hrevises)
    rw [(goes.deeds deed hdeed).2 v.alarm] at htakes
    cases htakes

/-- A vigil that is still live has not been disturbed, unless by a move of its own. -/
theorem Sound.undisturbed_of_live (h : c.Sound) (hsteps : Steps may c d) (hmay : ¬may (.move i))
    (hv : c.vigils[i]? = some v) (ha : c.alarms[v.alarm]? = some a) (live : d.IsLive v) :
    d.vigils[i]? = some v ∧ d.alarms[v.alarm]? = some a := by
  have hkept : ∀ {b : Core}, Steps may c b → b.vigils[i]? = some v := by
    intro b hb
    rcases hb.unmoved hmay with hsame | ⟨habsent, _⟩
    · exact hsame.trans hv
    · rw [hv] at habsent
      cases habsent
  induction hsteps with
  | refl => exact ⟨hv, ha⟩
  | @tail b d hbefore hstep ih =>
    have before : b.IsLive v := (h.steps hbefore).live_of_steps (.single hstep) (hkept hbefore)
      (hkept (hbefore.tail hstep)) live
    obtain ⟨hv', ha'⟩ := ih before
    exact (h.steps hbefore).undisturbed_step_of_live hstep hmay hv' ha' before live

/-- What is written down stays there. -/
theorem Steps.grown (hsteps : Steps may c d) : ∃ deeds, d.annals = deeds ++ c.annals := by
  induction hsteps with
  | refl => exact ⟨[], rfl⟩
  | tail _ hstep ih =>
    obtain ⟨before, hbefore⟩ := ih
    obtain ⟨deeds, hdeeds, _⟩ := hstep.deeds
    exact ⟨deeds ++ before, by rw [hdeeds, hbefore, List.append_assoc]⟩

theorem Steps.length_beginnings_le (hsteps : Steps may c d) (i : Nat) :
    (beginnings i c.annals).length ≤ (beginnings i d.annals).length := by
  obtain ⟨deeds, hdeeds⟩ := hsteps.grown
  rw [hdeeds, beginnings, beginnings, List.filterMap_append, List.length_append]
  omega

end Core

namespace Timetable

variable {r s t u : Timetable} {i n timer : Nat} {v : Vigil} {a : Alarm}

/-- A poll before the timer leaves a vigil waiting, and all else as it is. -/
theorem core_poll_of_early (hv : t.vigils[i]? = some v) (ha : t.alarms[v.alarm]? = some a)
    (held : a.isRevoked v.token = false) (pending : v.pendingTimer? a t.moment = some timer)
    (early : t.elapsed < timer) :
    (t.poll i).core =
      ⟨t.alarms, t.vigils.set i { v with phase := .waiting timer }, t.annals⟩ := by
  have hpassage : v.passage a t.moment (t.beginRun a.task).1 = v.wait a timer := by
    rw [Vigil.passage_of_pending pending, Vigil.setOffOrWait, if_neg (Bool.eq_false_iff.mp held),
      if_neg (show ¬timer ≤ t.moment.elapsed from Nat.not_le.mpr early)]
  rw [core_poll hv ha, hpassage]
  change Core.mk (t.alarms.set v.alarm a) _ _ = _
  rw [Places.set_self ha]
  rfl

/-- A poll at the timer or later begins a run. -/
theorem beginnings_poll_of_due (hv : t.vigils[i]? = some v) (ha : t.alarms[v.alarm]? = some a)
    (held : a.isRevoked v.token = false) (pending : v.pendingTimer? a t.moment = some timer)
    (due : timer ≤ t.elapsed) :
    beginnings i (t.poll i).annals = t.now :: beginnings i t.annals := by
  have hdue : v.isDue a t.moment = true := Vigil.isDue_iff.mpr ⟨held, timer, pending, due⟩
  have hannals : (t.poll i).annals = _ := congrArg Core.annals (core_poll hv ha)
  rw [hannals]
  refine (Passage.beginnings_deeds _ i v.alarm t.annals).trans ?_
  rw [Vigil.passage_began, if_pos hdue]
  rfl

/-- What stands somewhere in a longer list is its first element, or one of those after it. -/
theorem exists_split_cons {α : Type*} {l : List α} {a b : α} {P : List α → Prop} :
    (∃ first rest, a :: l = first ++ b :: rest ∧ P first) ↔
      a = b ∧ P [] ∨ ∃ first rest, l = first ++ b :: rest ∧ P (a :: first) := by
  constructor
  · rintro ⟨_ | ⟨x, first⟩, rest, hsplit, hfirst⟩
    · cases hsplit
      exact Or.inl ⟨rfl, hfirst⟩
    · cases hsplit
      exact Or.inr ⟨first, rest, rfl, hfirst⟩
  · rintro (⟨rfl, hfirst⟩ | ⟨first, rest, rfl, hfirst⟩)
    · exact ⟨[], l, rfl, hfirst⟩
    · exact ⟨a :: first, rest, rfl, hfirst⟩

/-- Of a history in which nobody revises an alarm the same holds at its start. -/
theorem countP_run_cons {act : Act} {later : List Act}
    (hcount : (t.run (act :: later)).annals.countP (Deed.revises n) =
      t.annals.countP (Deed.revises n)) :
    (t.act act).annals.countP (Deed.revises n) = t.annals.countP (Deed.revises n) ∧
      ((t.act act).run later).annals.countP (Deed.revises n) =
        (t.act act).annals.countP (Deed.revises n) := by
  obtain ⟨deeds, hdeeds⟩ := (t.steps_act act).grown
  obtain ⟨more, hmore⟩ := ((t.act act).steps_run later).grown
  have hdeeds : (t.act act).annals = deeds ++ t.annals := hdeeds
  have hmore : ((t.act act).run later).annals = more ++ (t.act act).annals := hmore
  rw [run_cons] at hcount
  rw [hmore, List.countP_append] at hcount ⊢
  rw [hdeeds, List.countP_append] at hcount ⊢
  omega

/-- A run that has begun is not taken back. -/
theorem ne_of_begun {time : Instant}
    (hbegun : beginnings i u.annals = time :: beginnings i t.annals) {later : List Act} :
    beginnings i (u.run later).annals ≠ beginnings i t.annals := by
  intro hsame
  have hmore : (beginnings i u.annals).length ≤ (beginnings i (u.run later).annals).length :=
    (u.steps_run later).length_beginnings_le i
  rw [hsame, hbegun, List.length_cons] at hmore
  omega

/-- A vigil that waits begins a run with the first poll at its timer or later, and with none
before. -/
theorem begins_iff_of_waiting (h : t.core.Sound) (hv : t.vigils[i]? = some v)
    (ha : t.alarms[v.alarm]? = some a) (held : a.isRevoked v.token = false)
    (waiting : v.phase = .waiting timer) {later : List Act}
    (hcount : (t.run later).annals.countP (Deed.revises v.alarm) =
      t.annals.countP (Deed.revises v.alarm)) :
    beginnings i (t.run later).annals ≠ beginnings i t.annals ↔
      ∃ first rest, later = first ++ .poll i :: rest ∧ timer ≤ (t.run first).elapsed := by
  -- as long as the alarm is not revised, only a poll of the vigil itself ends the wait
  induction later generalizing t with
  | nil => simp
  | cons act later ih =>
    obtain ⟨hfirst, hlater⟩ := countP_run_cons hcount
    have hsound := h.steps (t.steps_act act)
    have pending : v.pendingTimer? a t.moment = some timer := by
      rw [Vigil.pendingTimer?, waiting]
    have live : t.core.IsLive v := ⟨by rw [waiting]; rfl, a, ha, held⟩
    rw [exists_split_cons, run_cons]
    by_cases hact : act = .poll i
    · subst hact
      rcases Nat.lt_or_ge t.elapsed timer with early | due
      · have hcore := core_poll_of_early hv ha held pending early
        have hsame : { v with phase := .waiting timer } = v := by rw [← waiting]
        rw [hsame, Places.set_self hv] at hcore
        have hvigils : (t.poll i).vigils = t.vigils := congrArg Core.vigils hcore
        have halarms : (t.poll i).alarms = t.alarms := congrArg Core.alarms hcore
        have hannals : (t.poll i).annals = t.annals := congrArg Core.annals hcore
        have hnext := ih (t := t.poll i) hsound (hvigils ▸ hv) (halarms ▸ ha) hlater
        rw [hannals] at hnext
        exact hnext.trans ⟨Or.inr, fun h => h.resolve_left fun now => Nat.not_le.mpr early now.2⟩
      · have hbegun := beginnings_poll_of_due hv ha held pending due
        refine iff_of_true (fun hsame => ?_) (Or.inl ⟨rfl, due⟩)
        -- what has begun is not taken back by what follows
        have hmore : (beginnings i (t.poll i).annals).length ≤
            (beginnings i ((t.poll i).run later).annals).length :=
          ((t.poll i).steps_run later).length_beginnings_le i
        have hsame : beginnings i ((t.poll i).run later).annals = beginnings i t.annals := hsame
        rw [hsame, hbegun, List.length_cons] at hmore
        omega
    · have hmay : ¬t.mayGive act (.move i) := mt mayGive_move_iff.mp hact
      obtain ⟨deeds, hdeeds⟩ := (t.steps_act act).grown
      obtain ⟨hv', ha'⟩ := h.undisturbed (t.steps_act act) hmay hv ha live hdeeds
        (Deed.revises_eq_false_of_countP hdeeds hfirst)
      have hbegun : beginnings i (t.act act).annals = beginnings i t.annals :=
        (t.steps_act act).beginnings_of_unmoved hmay
      have hnext := ih (t := t.act act) hsound hv' ha' hlater
      rw [hbegun] at hnext
      exact hnext.trans ⟨Or.inr, fun h => h.resolve_left fun now => hact now.1⟩

/-- Vigil `i` of alarm `n`, if it is polled at once, begins its next run with the first poll at a
timer or later, and with none before, as long as nobody revises the alarm. -/
structure BeginsAt (t : Timetable) (n i timer : Nat) : Prop where
  ahead : t.elapsed ≤ timer
  begins : ∀ later : List Act,
    (t.run (.poll i :: later)).annals.countP (Deed.revises n) =
        t.annals.countP (Deed.revises n) →
      (beginnings i (t.run (.poll i :: later)).annals ≠ beginnings i t.annals ↔
        ∃ first rest, .poll i :: later = first ++ .poll i :: rest ∧
          timer ≤ (t.run first).elapsed)

/-- A vigil that is set out or waits begins a run at its timer, or now if that has passed. -/
theorem beginsAt (h : t.core.Sound) (hv : t.vigils[i]? = some v)
    (ha : t.alarms[v.alarm]? = some a) (held : a.isRevoked v.token = false)
    (pending : v.pendingTimer? a t.moment = some timer) :
    t.BeginsAt v.alarm i (max t.elapsed timer) where
  ahead := Nat.le_max_left _ _
  begins later hcount := by
    rcases Nat.lt_or_ge t.elapsed timer with early | due
    · -- the first poll lets the vigil wait, if it does not wait already
      obtain ⟨_, hlater⟩ := countP_run_cons hcount
      have hcore := core_poll_of_early hv ha held pending early
      have hvigils : (t.poll i).vigils = _ := congrArg Core.vigils hcore
      have halarms : (t.poll i).alarms = t.alarms := congrArg Core.alarms hcore
      have hannals : (t.poll i).annals = t.annals := congrArg Core.annals hcore
      have hv' : (t.poll i).vigils[i]? = some { v with phase := .waiting timer } := by
        rw [hvigils]
        exact Places.getElem?_set_self hv _
      have hnext := begins_iff_of_waiting (t := t.poll i) (h.steps (t.steps_act (.poll i))) hv'
        (halarms ▸ ha) held rfl hlater
      rw [hannals] at hnext
      rw [exists_split_cons, Nat.max_eq_right (Nat.le_of_lt early)]
      exact hnext.trans ⟨Or.inr, fun h => h.resolve_left fun now => Nat.not_le.mpr early now.2⟩
    · rw [exists_split_cons, Nat.max_eq_left due]
      exact iff_of_true (ne_of_begun (beginnings_poll_of_due hv ha held pending due))
        (Or.inl ⟨rfl, Nat.le_refl _⟩)

variable [Locators]

theorem Ensues.steps (h : s.Ensues t) : ∃ act, act.isDirect = false ∧
    Core.Steps (s.mayGive act) s.core t.core ∧ (s.act act).core = t.core ∧
      (s.act act).moment = t.moment := by
  obtain ⟨act, journal, hact, rfl⟩ := h.isAct
  exact ⟨act, hact, s.steps_act act, rfl, rfl⟩

theorem elapsed_le_of_ensues (h : Relation.ReflTransGen Ensues s t) : s.elapsed ≤ t.elapsed := by
  induction h with
  | refl => exact Nat.le_refl _
  | tail _ hstep ih =>
    obtain ⟨act, journal, _, rfl⟩ := hstep.isAct
    exact Nat.le_trans ih (clock_act _ act).2

/-- A wait is measured when it begins. -/
theorem timer_of_began (hstep : r.Ensues s) (hr : r.vigils[i]? ≠ some v)
    (hs : s.vigils[i]? = some v) (waiting : v.phase = .waiting timer) :
    ∃ a, s.alarms[v.alarm]? = some a ∧ timer = s.timerFor a.due := by
  obtain ⟨act, _, hsteps, hcore, hmoment⟩ := hstep.steps
  have hvigils : s.vigils = (r.act act).vigils := congrArg Core.vigils hcore.symm
  have halarms : s.alarms = (r.act act).alarms := congrArg Core.alarms hcore.symm
  by_cases hact : act = .poll i
  · subst hact
    rcases r.poll_cases i with hsame | ⟨w, x, hw, hx⟩
    · exact absurd (congrArg (·[i]?) (hvigils.trans (congrArg vigils hsame)) ▸ hs) hr
    · have hpoll := core_poll hw hx
      have hshift : s.moment = _ := hmoment.symm.trans (moment_poll hw hx)
      have hwaits := w.waiting_of_passage x r.moment (r.beginRun x.task).1 timer
      generalize w.passage x r.moment (r.beginRun x.task).1 = p at *
      have hafter : (r.poll i).vigils[i]? = some (p.vigil w) := by
        rw [show (r.poll i).vigils = _ from congrArg Core.vigils hpoll]
        exact Places.getElem?_set_self hw _
      obtain rfl : p.vigil w = v := Option.some.inj (hafter.symm.trans (hvigils ▸ hs))
      have halarm : s.alarms[w.alarm]? = some (p.alarm x) := by
        rw [halarms, show (r.act (.poll i)).alarms = _ from congrArg Core.alarms hpoll]
        exact Places.getElem?_set_self hx _
      refine ⟨p.alarm x, halarm, ?_⟩
      change timer = s.moment.timerFor (p.alarm x).due
      rw [hshift]
      -- it waits for the first time, or for another run after one that came back
      rcases hwaits waiting with ⟨pending, rfl⟩ | ⟨due, rearms⟩
      · simp only [Vigil.pendingTimer?] at pending
        split at pending
        · cases pending
          simp [Vigil.wait, Vigil.stay, Moment.shift, Passage.alarm]
        · next hphase =>
          cases pending
          exact absurd (by rw [hw, Passage.vigil, Vigil.wait, Vigil.stay, ← hphase]) hr
        · cases pending
      · rw [rearms.timer, ← rearms.set]
        rfl
  · rcases hsteps.unmoved (mt mayGive_move_iff.mp hact) with hsame | ⟨_, hnew⟩
    · exact absurd (hsame.symm.trans hs) hr
    · rw [hnew v hs] at waiting
      cases waiting

/-- The alarm of a vigil that waits on is not set to another time. -/
theorem Tidy.alarm_of_waits (h : s.Tidy) (hstep : s.Ensues t) (hs : s.vigils[i]? = some v)
    (ht : t.vigils[i]? = some v) (waiting : v.phase = .waiting timer)
    (ha : s.alarms[v.alarm]? = some a) (live : t.core.IsLive v) :
    t.alarms[v.alarm]? = some a := by
  obtain ⟨act, _, hsteps, hcore, _⟩ := hstep.steps
  by_cases hact : act = .poll i
  · subst hact
    have before : s.core.IsLive v := h.sound.live_of_steps hsteps hs ht live
    have held : a.isRevoked v.token = false := by
      obtain ⟨_, b, hb, held⟩ := before
      rw [show s.core.alarms[v.alarm]? = some a from ha] at hb
      cases hb
      exact held
    have hpending : v.pendingTimer? a s.moment = some timer := by
      rw [Vigil.pendingTimer?, waiting]
    have hvigils : t.vigils = (s.poll i).vigils := congrArg Core.vigils hcore.symm
    have halarms : t.alarms = (s.poll i).alarms := congrArg Core.alarms hcore.symm
    rcases Nat.lt_or_ge s.elapsed timer with early | due
    · rw [halarms, show (s.poll i).alarms = s.alarms from
        congrArg Core.alarms (core_poll_of_early hs ha held hpending early)]
      exact ha
    · -- it would have begun a run, and the next timer would lie ahead
      have hnot : ((v.passage a s.moment (s.beginRun a.task).1).vigil v).isReady
          ((v.passage a s.moment (s.beginRun a.task).1).alarm a) s.moment.elapsed = false :=
        v.not_isReady_passage (Checked.mem ha h.checked)
      have hpoll := core_poll hs ha
      generalize v.passage a s.moment (s.beginRun a.task).1 = p at *
      have hafter : (s.poll i).vigils[i]? = some (p.vigil v) := by
        rw [show (s.poll i).vigils = _ from congrArg Core.vigils hpoll]
        exact Places.getElem?_set_self hs _
      have hsame : p.vigil v = v := Option.some.inj (hafter.symm.trans (hvigils ▸ ht))
      rw [hsame, Vigil.isReady, waiting] at hnot
      have hcome : decide (timer ≤ s.moment.elapsed) = true := decide_eq_true due
      dsimp only at hnot
      rw [hcome] at hnot
      cases hnot
  · exact (h.sound.undisturbed_of_live hsteps (mt mayGive_move_iff.mp hact) hs ha live).2

/-- In a history from `o` on, vigil `i` is `v` from `s` to `t`, and was not before. -/
structure Waited (o s t : Timetable) (i : Nat) (v : Vigil) : Prop where
  began : ∃ r, Relation.ReflTransGen Ensues o r ∧ r.Ensues s ∧ r.vigils[i]? ≠ some v
  vigil : s.vigils[i]? = some v
  since : Relation.ReflTransGen (fun x y => x.Ensues y ∧ y.vigils[i]? = some v) s t

/-- Whatever a vigil is, it has become that at some time. -/
theorem exists_waited {o : Timetable} (h : Relation.ReflTransGen Ensues o t)
    (ho : o.vigils[i]? ≠ some v) (hv : t.vigils[i]? = some v) : ∃ s, Waited o s t i v := by
  induction h with
  | refl => exact absurd hv ho
  | @tail r t hbefore hstep ih =>
    by_cases hr : r.vigils[i]? = some v
    · obtain ⟨s, began, vigil, since⟩ := ih hr
      exact ⟨s, began, vigil, since.tail ⟨hstep, hv⟩⟩
    · exact ⟨t, ⟨r, hbefore, hstep, hr⟩, hv, .refl⟩

/-- A vigil that waits goes by the wait as it was measured when it began. -/
theorem Waited.timer_eq {o : Timetable} (h : Waited o s t i v) (ho : o.Tidy)
    (waiting : v.phase = .waiting timer) (live : t.core.IsLive v)
    (ha : t.alarms[v.alarm]? = some a) : timer = s.timerFor a.due ∧ s.elapsed ≤ t.elapsed := by
  obtain ⟨⟨r, hr, hstep, hnot⟩, vigil, since⟩ := h
  have hs : s.Tidy := ho.ensues (hr.tail hstep)
  obtain ⟨b, hb, htimer⟩ := timer_of_began hstep hnot vigil waiting
  have hsteps : Relation.ReflTransGen Ensues s t :=
    Relation.ReflTransGen.mono (fun _ _ h => h.1) _ _ since
  suffices halarm : t.alarms[v.alarm]? = some b ∧ t.vigils[i]? = some v by
    rw [ha] at halarm
    cases halarm.1
    exact ⟨htimer, elapsed_le_of_ensues hsteps⟩
  -- a new time for the alarm would have set up another vigil in place of this one
  clear ha hsteps
  induction since with
  | refl => exact ⟨hb, vigil⟩
  | @tail x y hbefore hlast ih =>
    have hx : Relation.ReflTransGen Ensues s x :=
      Relation.ReflTransGen.mono (fun _ _ h => h.1) _ _ hbefore
    have hvigil : x.vigils[i]? = some v := by
      cases hbefore with
      | refl => exact vigil
      | tail _ h => exact h.2
    obtain ⟨_, _, hsteps, _⟩ := hlast.1.steps
    have before : x.core.IsLive v :=
      (hs.ensues hx).sound.live_of_steps hsteps hvigil hlast.2 live
    exact ⟨(hs.ensues hx).alarm_of_waits hlast.1 hvigil hlast.2 waiting (ih before).1 live, hlast.2⟩

end Timetable

end Almanac
