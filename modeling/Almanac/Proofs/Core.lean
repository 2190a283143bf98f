import Almanac.Proofs.Annals
import Almanac.Proofs.Frame
import Almanac.Proofs.History
import Almanac.Proofs.Places
import Mathlib.Logic.Relation

/-!
# Alarms and their vigils

The core of a timetable is its alarms, its vigils and their annals. `Core.Step` lists all that
can happen to it: four commands to an alarm, and the moves of a vigil. Every act of a history
is a chain of such steps (`steps_act`), so that what every step keeps, every history keeps.
-/

namespace Almanac

/-- Holds until a vigil begins its first run, and between two runs. -/
def Phase.isPending : Phase → Bool
  | .setOut => true
  | .waiting _ => true
  | _ => false

/-- Holds until a vigil has ended or is lost. -/
def Phase.isOpen : Phase → Bool
  | .setOut => true
  | .waiting _ => true
  | .running _ _ => true
  | _ => false

theorem Phase.isOpen_of_isPending {p : Phase} (h : p.isPending = true) : p.isOpen = true := by
  cases p with
  | setOut => rfl
  | waiting timer => rfl
  | running timer turn => cases h
  | ended ending => cases h
  | lost => cases h

/-- The words with which a vigil fails whose alarm cannot be set again. -/
def outOfRange : TaskError := .failed "next fire time out of range"

/-- How a vigil of an alarm ends after a run has come back, if it does. -/
inductive Vigil.Judged (v : Vigil) (a : Alarm) (r : Return) : Ending → Prop
  | failed {e : TaskError} (result : r.result = .failed e) : Judged v a r (.failed e)
  | stopped (result : r.result = .succeeded)
      (stale : a.isRevoked v.token = true ∨ a.generation ≠ v.generation) :
      Judged v a r .cancelled
  | finished (result : r.result = .succeeded) (held : a.isRevoked v.token = false)
      (own : a.generation = v.generation) (once : a.period.isZero = true) :
      Judged v a r .finished
  | overflowed (result : r.result = .succeeded) (held : a.isRevoked v.token = false)
      (own : a.generation = v.generation) (recurring : a.period.isZero = false)
      (overflow : r.time.add? a.period = none) :
      Judged v a r (.failed outOfRange)

/-- The moves of vigil `i` of an alarm: the vigil and the alarm afterwards, and what the annals
say of it. -/
inductive Vigil.Goes (i : Nat) (v : Vigil) (a : Alarm) : Vigil → Alarm → List Deed → Prop
  | waits (timer : Nat) (pending : v.phase.isPending = true) :
      Goes i v a { v with phase := .waiting timer } a []
  | quits (pending : v.phase.isPending = true) (revoked : a.isRevoked v.token = true) :
      Goes i v a { v with phase := .ended .cancelled } (a.conclude v.generation .cancelled)
        [.ended i .cancelled]
  | begins (timer : Nat) (turn : Turn) (since : Nat) (time : Instant)
      (pending : v.phase.isPending = true) (held : a.isRevoked v.token = false) :
      Goes i v a { v with phase := .running timer turn, since } a [.began i time]
  | vanishes {timer : Nat} {turn : Turn} (r : Return) (running : v.phase = .running timer turn)
      (period : r.period = a.period) (result : r.result = .lost) :
      Goes i v a { v with phase := .lost } a [.returned i r]
  | ends {timer : Nat} {turn : Turn} {e : Ending} (r : Return)
      (running : v.phase = .running timer turn) (period : r.period = a.period)
      (judged : v.Judged a r e) :
      Goes i v a { v with phase := .ended e } (a.conclude v.generation e)
        [.ended i e, .returned i r]
  | rearms {timer : Nat} {turn : Turn} (r : Return) (due : Instant) (next since : Nat)
      (running : v.phase = .running timer turn) (period : r.period = a.period)
      (result : r.result = .succeeded) (held : a.isRevoked v.token = false)
      (own : a.generation = v.generation) (recurring : a.period.isZero = false)
      (inRange : r.time.add? a.period = some due) :
      Goes i v a { v with phase := .waiting next, since } { a with due }
        [.rearmed v.alarm due, .returned i r]

/-- A move changes neither whose vigil it is nor its start. -/
theorem Vigil.Goes.same {i : Nat} {v v' : Vigil} {a a' : Alarm} {deeds : List Deed}
    (h : v.Goes i a v' a' deeds) :
    v'.alarm = v.alarm ∧ v'.token = v.token ∧ v'.generation = v.generation := by
  cases h <;> exact ⟨rfl, rfl, rfl⟩

/-- Only open vigils move. -/
theorem Vigil.Goes.isOpen {i : Nat} {v v' : Vigil} {a a' : Alarm} {deeds : List Deed}
    (h : v.Goes i a v' a' deeds) : v.phase.isOpen = true := by
  cases h with
  | waits timer pending => exact Phase.isOpen_of_isPending pending
  | quits pending stale => exact Phase.isOpen_of_isPending pending
  | begins timer turn since time pending held => exact Phase.isOpen_of_isPending pending
  | vanishes r running period result => rw [running]; rfl
  | ends r running period judged => rw [running]; rfl
  | rearms r due next since running period result held own recurring inRange =>
      rw [running]; rfl

/-- A move leaves of an alarm all but its status and the time it is set to. -/
theorem Vigil.Goes.keeps {i : Nat} {v v' : Vigil} {a a' : Alarm} {deeds : List Deed}
    (h : v.Goes i a v' a' deeds) :
    a'.entry = a.entry ∧ a'.task = a.task ∧ a'.period = a.period ∧ a'.revoked = a.revoked := by
  have hconclude : ∀ e, (a.conclude v.generation e).entry = a.entry ∧
      (a.conclude v.generation e).task = a.task ∧
      (a.conclude v.generation e).period = a.period ∧
      (a.conclude v.generation e).revoked = a.revoked := by
    intro e
    obtain ⟨hentry, htask, _, hperiod, hrevoked⟩ := a.conclude_keeps v.generation e
    exact ⟨hentry, htask, hperiod, hrevoked⟩
  cases h with
  | waits timer pending => exact ⟨rfl, rfl, rfl, rfl⟩
  | quits pending revoked => exact hconclude _
  | begins timer turn since time pending held => exact ⟨rfl, rfl, rfl, rfl⟩
  | vanishes r running period result => exact ⟨rfl, rfl, rfl, rfl⟩
  | ends r running period judged => exact hconclude _
  | rearms r due next since running period result held own recurring inRange =>
      exact ⟨rfl, rfl, rfl, rfl⟩

/-- A move starts no alarm, and runs none that was not running; only the moves of its last vigil
change its status. -/
theorem Vigil.Goes.leaves {i : Nat} {v v' : Vigil} {a a' : Alarm} {deeds : List Deed}
    (h : v.Goes i a v' a' deeds) :
    a'.generation = a.generation ∧ (a'.status = .running → a.status = .running) ∧
      (v.generation ≠ a.generation → a'.status = a.status) := by
  have hconclude : ∀ e, (a.conclude v.generation e).generation = a.generation ∧
      ((a.conclude v.generation e).status = .running → a.status = .running) ∧
      (v.generation ≠ a.generation → (a.conclude v.generation e).status = a.status) := by
    intro e
    simp only [Alarm.conclude]
    split
    · next own => exact ⟨rfl, fun _ => own.2, fun other => absurd own.1.symm other⟩
    · exact ⟨rfl, id, fun _ => rfl⟩
  cases h with
  | quits pending revoked => exact hconclude _
  | ends r running period judged => exact hconclude _
  | _ => exact ⟨rfl, id, fun _ => rfl⟩

theorem Vigil.Goes.isRevoked {i : Nat} {v v' : Vigil} {a a' : Alarm} {deeds : List Deed}
    (h : v.Goes i a v' a' deeds) (token : Nat) : a'.isRevoked token = a.isRevoked token := by
  simp only [Alarm.isRevoked]
  rw [h.keeps.2.2.2]

/-- A move writes down what the vigil has done, and takes no alarm over. -/
theorem Vigil.Goes.deeds {i : Nat} {v v' : Vigil} {a a' : Alarm} {deeds : List Deed}
    (h : v.Goes i a v' a' deeds) :
    ∀ d ∈ deeds, (d.vigil? = none ∨ d.vigil? = some i) ∧ ∀ n, d.takesOver n = false := by
  have hone : ∀ d : Deed, d.vigil? = some i →
      (d.vigil? = none ∨ d.vigil? = some i) ∧ ∀ n, d.takesOver n = false := by
    intro d hd
    refine ⟨Or.inr hd, ?_⟩
    intro n
    cases d <;> first | rfl | cases hd
  intro d hd
  cases h with
  | waits timer pending => cases hd
  | quits pending revoked =>
      rw [List.mem_singleton.mp hd]
      exact hone _ rfl
  | begins timer turn since time pending held =>
      rw [List.mem_singleton.mp hd]
      exact hone _ rfl
  | vanishes r running period result =>
      rw [List.mem_singleton.mp hd]
      exact hone _ rfl
  | ends r running period judged =>
      rcases List.mem_pair.mp hd with rfl | rfl
      · exact hone _ rfl
      · exact hone _ rfl
  | rearms r due next since running period result held own recurring inRange =>
      rcases List.mem_pair.mp hd with rfl | rfl
      · exact ⟨Or.inl rfl, fun _ => rfl⟩
      · exact hone _ rfl

theorem Vigil.Goes.tenure_eq {i : Nat} {v v' : Vigil} {a a' : Alarm} {deeds : List Deed}
    (h : v.Goes i a v' a' deeds) (n j : Nat) (annals : List Deed) :
    tenure n j (deeds ++ annals) = deeds ++ tenure n j annals :=
  tenure_append (fun d hd => (h.deeds d hd).2 n) annals

/-- The alarms, the vigils and the annals of a timetable. -/
structure Core where
  alarms : List Alarm
  vigils : List Vigil
  annals : List Deed

namespace Core

/-- Vigil `i` makes a move. -/
inductive Move (i : Nat) : Core → Core → Prop
  | go {c : Core} {v v' : Vigil} {a a' : Alarm} {deeds : List Deed}
      (vigil : c.vigils[i]? = some v) (alarm : c.alarms[v.alarm]? = some a)
      (goes : v.Goes i a v' a' deeds) :
      Move i c ⟨c.alarms.set v.alarm a', c.vigils.set i v', deeds ++ c.annals⟩

/-- What sets vigils going: the start of an alarm, and the poll of a vigil. -/
inductive Impulse where
  | start (alarm : Nat)
  | move (vigil : Nat)

/-- All that can happen to a core. Starts and moves come only by the impulses that `may` holds
of. -/
inductive Step (may : Impulse → Prop) : Core → Core → Prop
  | setUp (c : Core) (e : Entry) :
      Step may c ⟨c.alarms ++ [Alarm.ofEntry e], c.vigils,
        .planned c.alarms.length false e.due e.period :: c.annals⟩
  | start {c : Core} {n : Nat} {a b : Alarm} (since : Nat) (allowed : may (.start n))
      (alarm : c.alarms[n]? = some a) (started : a.start = .ok b) :
      Step may c ⟨c.alarms.set n b,
        c.vigils ++ [{ alarm := n, token := b.token, generation := b.generation, since }],
        .started n c.vigils.length :: c.annals⟩
  | cancel {c : Core} {n : Nat} {a b : Alarm} (alarm : c.alarms[n]? = some a)
      (cancelled : a.cancel = .ok b) :
      Step may c ⟨c.alarms.set n b, c.vigils, .cancelled n :: c.annals⟩
  | replan {c : Core} {n : Nat} {a b : Alarm} {plan : Plan} {now : Instant}
      (alarm : c.alarms[n]? = some a) (replanned : a.replan plan now = .ok b) :
      Step may c ⟨c.alarms.set n b, c.vigils,
        .planned n a.isRunning b.due b.period :: c.annals⟩
  | move {c d : Core} (i : Nat) (allowed : may (.move i)) (moved : Move i c d) : Step may c d

abbrev Moves (i : Nat) : Core → Core → Prop := Relation.ReflTransGen (Move i)

abbrev Steps (may : Impulse → Prop) : Core → Core → Prop := Relation.ReflTransGen (Step may)

/-- A move that leaves the alarm alone. -/
theorem Move.still {i : Nat} {c : Core} {v v' : Vigil} {a : Alarm} {deeds : List Deed}
    (vigil : c.vigils[i]? = some v) (alarm : c.alarms[v.alarm]? = some a)
    (goes : v.Goes i a v' a deeds) :
    Move i c ⟨c.alarms, c.vigils.set i v', deeds ++ c.annals⟩ := by
  have moved := Move.go vigil alarm goes
  rwa [Places.set_self alarm] at moved

theorem Moves.steps {i : Nat} {c d : Core} (h : Moves i c d) {may : Impulse → Prop}
    (allowed : may (.move i)) : Steps may c d :=
  Relation.ReflTransGen.mono (fun _ _ moved => Step.move i allowed moved) _ _ h

theorem Steps.mono {may might : Impulse → Prop} {c d : Core} (hmay : ∀ x, may x → might x)
    (h : Steps may c d) : Steps might c d := by
  refine Relation.ReflTransGen.mono ?_ _ _ h
  intro c d hstep
  cases hstep with
  | setUp e => exact .setUp _ e
  | start since allowed alarm started => exact .start since (hmay _ allowed) alarm started
  | cancel alarm cancelled => exact .cancel alarm cancelled
  | replan alarm replanned => exact .replan alarm replanned
  | move i allowed moved => exact .move i (hmay _ allowed) moved

end Core

namespace Timetable

/-- What a timetable is made of below its entries. -/
def core (t : Timetable) : Core := ⟨t.alarms, t.vigils, t.annals⟩

theorem core_pollWatcher (t : Timetable) (number : Nat) :
    (t.pollWatcher number).core = t.core := by
  obtain ⟨roster, watchers, journal, hpolled⟩ := t.pollWatcher_eq number
  rw [hpolled]
  rfl

theorem core_enroll (t : Timetable) (e : Entry) : (t.enroll e).2.core = t.core := by
  obtain ⟨journal, henroll⟩ := t.enroll_eq e
  rw [henroll]
  rfl

end Timetable

namespace Vigil

variable {v : Vigil} {a : Alarm}

/-- An end after a run, as a move. -/
theorem goes_close {timer : Nat} {turn : Turn} (hphase : v.phase = .running timer turn)
    {r : Return} (period : r.period = a.period) {e : Ending} (judged : v.Judged a r e) (i : Nat)
    (shift : Int) :
    let p := (v.close a e).returning shift r
    v.Goes i a (p.vigil v) (p.alarm a) (p.deeds i v.alarm) := by
  have halarm : ((v.close a e).returning shift r).alarm a = a.conclude v.generation e :=
    (a.conclude_eq v.generation e).symm
  dsimp only
  rw [halarm]
  exact .ends r hphase period judged

/-- What follows a run is one move. -/
theorem goes_comeBack {timer : Nat} {turn : Turn} (hphase : v.phase = .running timer turn)
    (a : Alarm) (m : Moment) (i : Nat) :
    let p := v.comeBack a m turn
    v.Goes i a (p.vigil v) (p.alarm a) (p.deeds i v.alarm) := by
  simp only [comeBack]
  cases hresult : turn.result with
  | lost => exact .vanishes _ hphase rfl rfl
  | failed e => exact goes_close hphase rfl (.failed rfl) i _
  | succeeded =>
      simp only [judge, goOn]
      split
      · next stale =>
          have stale : a.isRevoked v.token = true ∨ a.generation ≠ v.generation := by
            simpa using stale
          exact goes_close hphase rfl (.stopped rfl stale) i _
      · next current =>
          have current : a.isRevoked v.token = false ∧ a.generation = v.generation := by
            simpa using current
          obtain ⟨held, own⟩ := current
          split
          · next once => exact goes_close hphase rfl (.finished rfl held own once) i _
          · next recurring =>
              have recurring : a.period.isZero = false := by simpa using recurring
              split
              · next due inRange =>
                  exact .rearms _ due _ _ hphase rfl rfl held own recurring inRange
              · next overflow =>
                  exact goes_close hphase rfl (.overflowed rfl held own recurring overflow) i _

end Vigil

namespace Core

variable {c : Core} {i : Nat} {v : Vigil} {a : Alarm}

def follow (c : Core) (i : Nat) (v : Vigil) (a : Alarm) (p : Passage) : Core :=
  ⟨c.alarms.set v.alarm (p.alarm a), c.vigils.set i (p.vigil v), p.deeds i v.alarm ++ c.annals⟩

theorem follow_stay (hv : c.vigils[i]? = some v) (ha : c.alarms[v.alarm]? = some a) :
    c.follow i v a (v.stay a) = c := by
  have halarm : (v.stay a).alarm a = a := rfl
  have hvigil : (v.stay a).vigil v = v := rfl
  simp only [follow]
  rw [halarm, hvigil, Places.set_self ha, Places.set_self hv]
  rfl

/-- A run that takes no time is two moves at once: `v` is never seen running. -/
theorem moves_setOff (hv : c.vigils[i]? = some v) (ha : c.alarms[v.alarm]? = some a)
    (pending : v.phase.isPending = true) (held : a.isRevoked v.token = false) (m : Moment)
    (turn : Turn) : Moves i c (c.follow i v a (v.setOff a m turn)) := by
  simp only [Vigil.setOff]
  split
  · let running : Vigil := { v with phase := .running m.elapsed turn }
    let between : Core := ⟨c.alarms, c.vigils.set i running, .began i m.now :: c.annals⟩
    have first : Move i c between := .still hv ha (.begins _ _ v.since m.now pending held)
    have hrunning : between.vigils[i]? = some running := Places.getElem?_set_self hv running
    have second := Move.go hrunning ha (Vigil.goes_comeBack (v := running) rfl a m i)
    have hdeeds : ((v.comeBack a m turn).beginning m.now).deeds i v.alarm =
        (v.comeBack a m turn).deeds i v.alarm ++ [.began i m.now] := by
      simp [Passage.deeds, Passage.beginning, Vigil.comeBack_began]
    have hend : c.follow i v a ((v.comeBack a m turn).beginning m.now) =
        between.follow i running a (v.comeBack a m turn) := by
      simp only [follow]
      rw [hdeeds, List.set_set, List.append_assoc]
      rfl
    rw [hend]
    exact .tail (.single first) second
  · exact .single (.go hv ha (.begins _ _ _ m.now pending held))

theorem moves_setOffOrWait (hv : c.vigils[i]? = some v) (ha : c.alarms[v.alarm]? = some a)
    (pending : v.phase.isPending = true) (m : Moment) (timer : Nat) (turn : Turn) :
    Moves i c (c.follow i v a (v.setOffOrWait a m timer turn)) := by
  simp only [Vigil.setOffOrWait]
  split
  · next revoked =>
      have moved := Move.go hv ha (.quits pending revoked)
      rw [a.conclude_eq] at moved
      exact .single moved
  · next held =>
      have held : a.isRevoked v.token = false := by simpa using held
      split
      · exact moves_setOff hv ha pending held m turn
      · exact .single (.go hv ha (.waits timer pending))

/-- A passage is a chain of moves. -/
theorem moves_passage (hv : c.vigils[i]? = some v) (ha : c.alarms[v.alarm]? = some a)
    (m : Moment) (turn : Turn) : Moves i c (c.follow i v a (v.passage a m turn)) := by
  have hstay : Moves i c (c.follow i v a (v.stay a)) := by
    rw [follow_stay hv ha]
  simp only [Vigil.passage]
  cases hphase : v.phase with
  | setOut => exact moves_setOffOrWait hv ha (by rw [hphase]; rfl) m _ turn
  | waiting timer => exact moves_setOffOrWait hv ha (by rw [hphase]; rfl) m timer turn
  | running timer current =>
      dsimp only
      split
      · exact .single (.go hv ha (Vigil.goes_comeBack hphase a m i))
      · exact hstay
  | ended ending => exact hstay
  | lost => exact hstay

end Core

namespace Timetable

theorem core_poll {t : Timetable} {i : Nat} {v : Vigil} {a : Alarm} (hv : t.vigils[i]? = some v)
    (ha : t.alarms[v.alarm]? = some a) :
    (t.poll i).core = t.core.follow i v a (v.passage a t.moment (t.beginRun a.task).1) := by
  refine (congrArg core (hushed_poll hv ha)).trans ?_
  obtain ⟨runs, replies, journal, hcalling⟩ :=
    t.calling_eq a.task (v.passage a t.moment (t.beginRun a.task).1)
  rw [hcalling]
  rfl

/-- A poll of a vigil is a chain of its moves. -/
theorem moves_poll (t : Timetable) (i : Nat) : Core.Moves i t.core (t.poll i).core := by
  rcases t.poll_cases i with hsame | ⟨v, a, hv, ha⟩
  · rw [hsame]
  · rw [core_poll hv ha]
    exact Core.moves_passage (c := t.core) hv ha _ _

theorem startAlarm_ok {t u : Timetable} {n i : Nat} (h : t.startAlarm n = .ok (i, u)) :
    ∃ a b, t.alarms[n]? = some a ∧ a.start = .ok b ∧ i = t.vigils.length ∧
      u = { t with
        alarms := t.alarms.set n b
        vigils := t.vigils ++
          [{ alarm := n, token := b.token, generation := b.generation, since := t.elapsed }]
        annals := .started n t.vigils.length :: t.annals } := by
  simp only [startAlarm] at h
  split at h
  · cases h
  · next a ha =>
      split at h
      · cases h
      · next b hb =>
          cases h
          exact ⟨a, b, ha, hb, rfl, rfl⟩

theorem cancelAlarm_ok {t u : Timetable} {n : Nat} (h : t.cancelAlarm n = .ok u) :
    ∃ a b, t.alarms[n]? = some a ∧ a.cancel = .ok b ∧
      u = { t with alarms := t.alarms.set n b, annals := .cancelled n :: t.annals } := by
  simp only [cancelAlarm] at h
  split at h
  · cases h
  · next a ha =>
      obtain ⟨b, hb, rfl⟩ := map_eq_ok_iff.mp h
      exact ⟨a, b, ha, hb, rfl⟩

theorem replanAlarm_ok {t u : Timetable} {n : Nat} {plan : Plan}
    (h : t.replanAlarm n plan = .ok u) :
    ∃ a b, t.alarms[n]? = some a ∧ a.replan plan t.now = .ok b ∧
      u = { t with
        alarms := t.alarms.set n b
        annals := .planned n a.isRunning b.due b.period :: t.annals } := by
  simp only [replanAlarm] at h
  split at h
  · cases h
  · next a ha =>
      obtain ⟨b, hb, rfl⟩ := map_eq_ok_iff.mp h
      exact ⟨a, b, ha, hb, rfl⟩

section Steps

variable {may : Core.Impulse → Prop}

theorem step_addAlarm (t : Timetable) (e : Entry) :
    Core.Step may t.core (t.addAlarm e).2.core :=
  .setUp t.core e

theorem step_startAlarm {t u : Timetable} {n i : Nat} (hmay : may (.start n))
    (h : t.startAlarm n = .ok (i, u)) : Core.Step may t.core u.core := by
  obtain ⟨a, b, ha, hb, _, rfl⟩ := startAlarm_ok h
  exact .start (c := t.core) t.elapsed hmay ha hb

theorem step_cancelAlarm {t u : Timetable} {n : Nat} (h : t.cancelAlarm n = .ok u) :
    Core.Step may t.core u.core := by
  obtain ⟨a, b, ha, hb, rfl⟩ := cancelAlarm_ok h
  exact .cancel (c := t.core) ha hb

theorem step_replanAlarm {t u : Timetable} {n : Nat} {plan : Plan}
    (h : t.replanAlarm n plan = .ok u) : Core.Step may t.core u.core := by
  obtain ⟨a, b, ha, hb, rfl⟩ := replanAlarm_ok h
  exact .replan (c := t.core) ha hb

theorem steps_discard (t : Timetable) (id : Nat) :
    Core.Steps may t.core (t.discard id).core := by
  unfold discard
  split
  · exact .refl
  · next number _ =>
      dsimp only
      split
      · next u hu =>
          have cancelled : Core.Step may _ u.core := step_cancelAlarm hu
          exact .single cancelled
      · exact .refl

theorem steps_assign (t : Timetable) (id number : Nat) :
    Core.Steps may t.core (t.assign id number).core := by
  simp only [assign]
  split
  · next stopped hstopped =>
      obtain ⟨old, _, hold⟩ := Option.map_eq_some_iff.mp hstopped
      have cancelled : Core.Step may _ stopped.core := step_cancelAlarm hold
      exact .single cancelled
  · exact .refl

theorem steps_launch {t : Timetable} {entry : Entry} {number : Nat}
    {withdraw : Timetable → Except RosterError Timetable} {undo publish : Timetable → Timetable}
    (hmay : may (.start number)) (hwithdraw : ∀ u w, withdraw u = .ok w → w.core = u.core)
    (hundo : ∀ u, Core.Steps may u.core (undo u).core)
    (hpublish : ∀ u, Core.Steps may u.core (publish u).core) :
    Core.Steps may t.core (t.launch entry number withdraw undo publish).2.core := by
  simp only [launch]
  split
  · split
    · next w hw => exact hwithdraw t w hw ▸ .refl
    · exact .refl
  · next vigil u hstart =>
      have started : Core.Steps may t.core u.core := .single (step_startAlarm hmay hstart)
      dsimp only [mintHandle]
      split
      · exact started.trans (hundo { u with nextHandle := u.nextHandle + 1 })
      · next stored roster _ =>
          exact started.trans
            (hpublish { u with nextHandle := u.nextHandle + 1, roster := roster })

theorem steps_create (t : Timetable) (task : Task) (plan : Plan) :
    Core.Steps (· = .start t.alarms.length) t.core (t.create task plan).2.core := by
  unfold create
  split
  · exact .refl
  · next entry _ =>
      have henroll := t.core_enroll entry
      split
      · next u hu =>
          rw [hu] at henroll
          exact henroll ▸ .refl
      · next e u hu =>
          rw [hu] at henroll
          exact henroll ▸ .refl
      · next stored u hu =>
          rw [hu] at henroll
          have hlength : u.alarms.length = t.alarms.length :=
            congrArg (fun c => c.alarms.length) henroll
          dsimp only
          rw [← henroll]
          refine .head (u.step_addAlarm stored) (steps_launch (congrArg _ hlength) ?_ ?_ ?_)
          · intro v w hw
            obtain ⟨roster, _, rfl⟩ := map_eq_ok_iff.mp hw
            rfl
          · intro v
            split
            · next w hw =>
                have cancelled : Core.Step (· = .start t.alarms.length) _ w.core :=
                  step_cancelAlarm hw
                exact .single cancelled
            · exact .refl
          · intro v
            exact v.steps_assign stored.id _

theorem steps_update (t : Timetable) (id : Nat) (plan : Plan) :
    Core.Steps (fun x => ∃ n, t.post? id = some n ∧ x = .start n) t.core
      (t.update id plan).2.core := by
  simp only [update]
  split
  · exact .refl
  · next number hpost =>
      split
      · dsimp only
        split
        · exact t.steps_discard id
        · exact .refl
      · next entry _ =>
          split
          · exact .refl
          · next u hu =>
              refine .head (step_replanAlarm hu) (steps_launch ⟨number, hpost, rfl⟩ ?_ ?_ ?_)
              · intro v w hw
                cases hw
                rfl
              · intro v
                exact v.steps_discard id
              · intro v
                exact .refl

theorem steps_remove (t : Timetable) (id : Nat) :
    Core.Steps may t.core (t.remove id).2.core := by
  unfold remove
  split
  · exact .refl
  · dsimp only
    split
    · exact t.steps_discard id
    · exact t.steps_discard id

theorem steps_stopAll (t : Timetable) (posts : List (Nat × Nat)) :
    Core.Steps may t.core (t.stopAll posts).2.core := by
  induction posts generalizing t with
  | nil => exact .refl
  | cons post posts ih =>
      simp only [stopAll]
      split
      · next u hu => exact .head (step_cancelAlarm hu) (ih u)
      · exact ih t

end Steps

/-- The impulses that an act may give. -/
def mayGive (t : Timetable) : Act → Core.Impulse → Prop
  | .poll vigil, x => x = .move vigil
  | .create _ _, x => x = .start t.alarms.length
  | .update id _, x => ∃ n, t.post? id = some n ∧ x = .start n
  | .start alarm, x => x = .start alarm
  | _, _ => False

/-- Only polls move vigils. -/
theorem mayGive_move_iff {t : Timetable} {act : Act} {i : Nat} :
    t.mayGive act (.move i) ↔ act = .poll i := by
  cases act <;> simp [mayGive, eq_comm]

/-- An act is a chain of steps of alarms and vigils. -/
theorem steps_act (t : Timetable) (act : Act) :
    Core.Steps (t.mayGive act) t.core (t.act act).core := by
  cases act with
  | pass millis => exact .refl
  | shiftClock millis => exact .refl
  | poll vigil => exact (t.moves_poll vigil).steps rfl
  | pollWatcher watcher => exact (t.core_pollWatcher watcher).symm ▸ .refl
  | create task plan => exact t.steps_create task plan
  | update id plan => exact t.steps_update id plan
  | remove id => exact t.steps_remove id
  | shutdown => exact t.steps_stopAll t.posts
  | list => exact .refl
  | get id => exact .refl
  | setUp entry => exact .single (t.step_addAlarm entry)
  | start alarm =>
      simp only [Timetable.act]
      split
      · next started hstarted => exact .single (step_startAlarm rfl hstarted)
      · exact .refl
  | cancel alarm =>
      simp only [Timetable.act]
      split
      · next cancelled hcancelled => exact .single (step_cancelAlarm hcancelled)
      · exact .refl
  | replan alarm plan =>
      simp only [Timetable.act]
      split
      · next replanned hreplanned => exact .single (step_replanAlarm hreplanned)
      · exact .refl

/-- A history is a chain of steps of alarms and vigils. -/
theorem steps_run (t : Timetable) (acts : List Act) :
    Core.Steps (fun _ => True) t.core (t.run acts).core := by
  induction acts generalizing t with
  | nil => exact .refl
  | cons act acts ih =>
      exact ((t.steps_act act).mono fun _ _ => trivial).trans (ih (t.act act))

end Timetable

end Almanac
