import Almanac.Proofs.Conducts
import Almanac.Proofs.Ensuing
import Almanac.Proofs.Undisturbed

/-!
# Episodes

Anything may befall a timetable: requests to the router or past it, commands to its alarms, time,
and polls among others who behave as they please. A vigil whose task can be ordered is still not
troubled: its runs succeed, and it fails only where its alarm cannot be set again.
-/

namespace Almanac

/-- What may befall a timetable. -/
inductive Episode where
  | act (act : Act)
  | request (credentials : Option (String × String)) (r : Web.Request)
  | poll (vigil : Nat) (others : Nat → Behaviour)

/-- Holds of the phases of a vigil whose runs succeed. -/
def Phase.IsUntroubled : Phase → Prop
  | running _ turn => turn.result = .succeeded
  | ended (.failed e) => e = outOfRange
  | lost => False
  | _ => True

namespace Vigil

variable {v : Vigil} {a : Alarm} {m : Moment} {turn : Turn}

theorem isUntroubled_goOn (v : Vigil) (a : Alarm) (m : Moment) :
    (v.goOn a m).phase.IsUntroubled := by
  simp only [goOn]
  split
  · trivial
  · split
    · trivial
    · split
      · trivial
      · rfl

/-- A vigil comes back well from a run that succeeds. -/
theorem isUntroubled_comeBack (h : turn.result = .succeeded) (v : Vigil) (a : Alarm) (m : Moment) :
    (v.comeBack a m turn).phase.IsUntroubled ∧
      ∀ r, (v.comeBack a m turn).returned = some r → r.result = .succeeded := by
  simp only [comeBack, h]
  refine ⟨isUntroubled_goOn v a _, ?_⟩
  rintro r hr
  obtain rfl := Option.some.inj hr
  rfl

/-- Runs that succeed keep a vigil untroubled. -/
theorem isUntroubled_passage (h : v.phase.IsUntroubled) (hturn : turn.result = .succeeded) :
    (v.passage a m turn).phase.IsUntroubled ∧
      ∀ r, (v.passage a m turn).returned = some r → r.result = .succeeded := by
  have hway := v.way a m turn
  generalize v.passage a m turn = p at *
  cases hway with
  | quits pending revoked => exact ⟨trivial, fun _ hr => by cases hr⟩
  | setsOff pending held due =>
    simp only [setOff]
    split
    · exact isUntroubled_comeBack hturn v a m
    · exact ⟨hturn, fun _ hr => by cases hr⟩
  | waits pending held early => exact ⟨trivial, fun _ hr => by cases hr⟩
  | comesBack running due =>
    rw [running] at h
    exact isUntroubled_comeBack h v a m
  | stays pending waiting => exact ⟨h, fun _ hr => by cases hr⟩

end Vigil

namespace Core

variable {c d : Core} {i : Nat} {v : Vigil} {a : Alarm} {may : Impulse → Prop}

/-- Of a vigil that has not moved the same comes back as before. -/
theorem Steps.returns_of_unmoved (hsteps : Steps may c d) (hmay : ¬may (.move i)) :
    returns i d.annals = returns i c.annals := by
  obtain ⟨deeds, hdeeds, hother⟩ := hsteps.deeds_of_unmoved hmay
  rw [hdeeds, returns_append hother]

/-- Nothing has come back of a vigil that is set out. -/
theorem Unwritten.returns_of_setOut (h : c.Unwritten) (hv : c.vigils[i]? = some v)
    (setOut : v.phase = .setOut) : returns i c.annals = [] := by
  have hother : ∀ deed ∈ c.annals, deed.vigil? ≠ some i := by
    refine h i fun w hw => ?_
    obtain rfl : v = w := Option.some.inj (hv.symm.trans hw)
    exact setOut
  rw [← List.append_nil c.annals, returns_append hother]
  rfl

/-- Where the task of an alarm can be ordered, all runs have succeeded, and no vigil has failed but
for want of an instant. -/
def Untroubled [Locators] (c : Core) : Prop :=
  ∀ {i : Nat} {v : Vigil} {a : Alarm}, c.vigils[i]? = some v → c.alarms[v.alarm]? = some a →
    a.task.IsOrderable → v.phase.IsUntroubled ∧ ∀ r ∈ returns i c.annals, r.result = .succeeded

end Core

namespace Timetable

variable [Locators] {t u : Timetable} {i : Nat} {v : Vigil} {a : Alarm}

def meet (t : Timetable) : Episode → Timetable
  | .act act => t.act act
  | .request credentials r => (Web.handle credentials t r).2
  | .poll vigil others => t.pollAmong others vigil

def meetAll (t : Timetable) (episodes : List Episode) : Timetable :=
  episodes.foldl meet t

/-- An episode is a poll of vigil `i`, and a run of a task that can be ordered succeeds, whether it
is the one that comes back or the one that begins. -/
structure Polls (t u : Timetable) (i : Nat) (v : Vigil) (a : Alarm) (turn : Turn) : Prop where
  vigil : t.vigils[i]? = some v
  alarm : t.alarms[v.alarm]? = some a
  passing : t.Passing u i v a (v.passage a t.moment turn)
  result : a.task.IsOrderable → turn.result = .succeeded

theorem polls_poll (hv : t.vigils[i]? = some v) (ha : t.alarms[v.alarm]? = some a) :
    t.Polls (t.poll i) i v a (t.beginRun a.task).1 where
  vigil := hv
  alarm := ha
  passing := passing_poll hv ha
  result := by
    intro ordered
    rw [← turn_beginAmong_expected]
    exact result_beginAmong ordered t _

theorem polls_pollAmong (others : Nat → Behaviour) (hv : t.vigils[i]? = some v)
    (ha : t.alarms[v.alarm]? = some a) :
    t.Polls (t.pollAmong others i) i v a (t.beginAmong others a.task).1 where
  vigil := hv
  alarm := ha
  passing := passing_pollAmong others hv ha
  result := fun ordered => result_beginAmong ordered t others

/-- An episode is a poll of vigil `i`, or does not move it. -/
theorem meet_cases (t : Timetable) (x : Episode) (i : Nat) :
    (∃ may : Core.Impulse → Prop, ¬may (.move i) ∧ Core.Steps may t.core (t.meet x).core) ∨
      ∃ v a turn, t.Polls (t.meet x) i v a turn := by
  have hsame : ∀ {u : Timetable}, u = t →
      ∃ may : Core.Impulse → Prop, ¬may (.move i) ∧ Core.Steps may t.core u.core := by
    rintro _ rfl
    exact ⟨fun _ => False, id, .refl⟩
  cases x with
  | act act =>
    by_cases hact : act = .poll i
    · subst hact
      rcases t.poll_cases i with hpoll | ⟨v, a, hv, ha⟩
      · exact Or.inl (hsame hpoll)
      · exact Or.inr ⟨v, a, _, polls_poll hv ha⟩
    · exact Or.inl ⟨t.mayGive act, mt mayGive_move_iff.mp hact, t.steps_act act⟩
  | request credentials r =>
    obtain ⟨act, journal, hmeant, hu⟩ := Web.comesTo_handle credentials t r
    have hact : act ≠ .poll i := by
      rintro rfl
      cases hmeant
    refine Or.inl ⟨t.mayGive act, mt mayGive_move_iff.mp hact, ?_⟩
    simp only [meet]
    rw [hu]
    exact t.steps_act act
  | poll j others =>
    by_cases hij : j = i
    · subst hij
      rcases t.pollAmong_cases others j with hpoll | ⟨v, a, hv, ha⟩
      · exact Or.inl (hsame hpoll)
      · exact Or.inr ⟨v, a, _, polls_pollAmong others hv ha⟩
    · refine Or.inl ⟨(· = .move j), fun hmove => hij ?_, (t.moves_pollAmong others j).steps rfl⟩
      cases hmove
      rfl

theorem steps_meet (t : Timetable) (x : Episode) :
    Core.Steps (fun _ => True) t.core (t.meet x).core := by
  rcases t.meet_cases x 0 with ⟨may, _, hsteps⟩ | ⟨v, a, turn, hpolls⟩
  · exact hsteps.mono fun _ _ => trivial
  · rw [hpolls.passing.core]
    exact (Core.moves_passage hpolls.vigil hpolls.alarm _ _).steps trivial

/-- What an episode does to roster and posts is what an act does. -/
theorem posted_meet (h : t.Posted) (x : Episode) : (t.meet x).Posted := by
  cases x with
  | act act => exact h.posted_act act
  | request credentials r =>
    obtain ⟨act, journal, _, hu⟩ := Web.comesTo_handle credentials t r
    have hposted := h.posted_act act
    simp only [meet]
    rw [hu]
    exact ⟨hposted.ids, hposted.nodup, hposted.alarm⟩
  | poll i others =>
    have hledger := t.ledger_pollAmong others i
    have hkeeps : t.Keeps (t.meet (.poll i others)) := (t.steps_meet (.poll i others)).alarm
    exact h.of_same hkeeps (congrArg Ledger.posts hledger)
      (congrArg (fun l => l.roster.ids) hledger)

/-- What holds of a timetable whatever befalls it. -/
structure Hale (t : Timetable) : Prop where
  posted : t.Posted
  sound : t.core.Sound
  unwritten : t.core.Unwritten
  recorded : t.core.Recorded
  untroubled : t.core.Untroubled

namespace Hale

theorem opening (start : Instant) (source : IdSource) (replies : List RestartReply) :
    (opening start source replies).Hale where
  posted := (agrees_opening start source replies).toPosted
  sound := sound_opening start source replies
  unwritten := unwritten_opening start source replies
  recorded := recorded_opening start source replies
  untroubled := by
    intro i v a hv
    cases hv

theorem untroubled_meet (h : t.Hale) (x : Episode) : (t.meet x).core.Untroubled := by
  intro i w b hw hb ordered
  -- A vigil that is not polled is as it was, or new.
  rcases t.meet_cases x i with ⟨may, hmay, hsteps⟩ | ⟨v, a, turn, hpolls⟩
  · rcases hsteps.unmoved hmay with hsame | ⟨_, hnew⟩
    · have hv : t.vigils[i]? = some w := hsame.symm.trans hw
      obtain ⟨a, ha, _⟩ := h.sound.vigils hv
      obtain ⟨y, hy, hbecomes⟩ := hsteps.alarm ha
      obtain rfl : y = b := Option.some.inj (hy.symm.trans hb)
      rw [hsteps.returns_of_unmoved hmay]
      exact h.untroubled hv ha (hbecomes.task ▸ ordered)
    · have setOut := hnew w hw
      rw [(h.unwritten.steps (t.steps_meet x)).returns_of_setOut hw setOut, setOut]
      exact ⟨trivial, fun _ hr => by cases hr⟩
  · have hvigil := hpolls.passing.vigil hpolls.vigil
    obtain rfl := Option.some.inj (hvigil.symm.trans hw)
    have halarm := hpolls.passing.alarm hpolls.alarm
    obtain rfl := Option.some.inj (halarm.symm.trans hb)
    have hturn := hpolls.result ordered
    obtain ⟨hphase, hreturns⟩ := h.untroubled hpolls.vigil hpolls.alarm ordered
    obtain ⟨hphase', hreturned⟩ := Vigil.isUntroubled_passage hphase hturn
    refine ⟨hphase', fun r hr => ?_⟩
    have hannals : (t.meet x).core.annals = _ := hpolls.passing.annals
    rw [hannals, Passage.returns_deeds] at hr
    rcases List.mem_append.mp hr with hnew | hold
    · exact hreturned r (Option.mem_toList.mp hnew)
    · exact hreturns r hold

theorem meet (h : t.Hale) (x : Episode) : (t.meet x).Hale where
  posted := posted_meet h.posted x
  sound := h.sound.steps (t.steps_meet x)
  unwritten := h.unwritten.steps (t.steps_meet x)
  recorded := h.recorded.steps (t.steps_meet x)
  untroubled := h.untroubled_meet x

theorem meetAll (h : t.Hale) (episodes : List Episode) : (t.meetAll episodes).Hale := by
  induction episodes generalizing t with
  | nil => exact h
  | cons x episodes ih => exact ih (h.meet x)

/-- A vigil whose task can be ordered fails only for want of an instant. -/
theorem failed_eq (h : t.Hale) (hv : t.vigils[i]? = some v) (ha : t.alarms[v.alarm]? = some a)
    (ordered : a.task.IsOrderable) {e : TaskError} (he : .failed e ∈ endings i t.annals) :
    e = outOfRange := by
  have hendings : endings i t.annals = _ := h.recorded.endings_eq hv
  rw [hendings] at he
  have hphase := (h.untroubled hv ha ordered).1
  cases hended : v.phase with
  | ended ending =>
    rw [hended] at he hphase
    obtain rfl := Option.some.inj (Option.mem_toList.mp he)
    exact hphase
  | _ =>
    rw [hended] at he
    cases he

end Hale

end Timetable

end Almanac
