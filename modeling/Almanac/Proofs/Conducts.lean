import Almanac.Proofs.Descriptions
import Almanac.Proofs.Effects
import Almanac.Proofs.Rearming
import Almanac.Timetable.Conduct

/-!
# Runs that succeed

A task that a client can order calls at most once, and its run succeeds whatever comes of the call.
`Timetable.pollAmong` polls a vigil among others who behave as they please; the polls of a timetable
are those among others who behave as it says (`Timetable.pollAmong_expected`).
-/

namespace Almanac

open Remote (RestartAnswer RestartError Reply replyLines)

namespace Conduct

variable {lines : List LogLine} {next : Conduct} {others : Nat → Behaviour}

theorem calls_foldr_log :
    ((lines.foldr log next).perform others).calls = (next.perform others).calls := by
  induction lines with
  | nil => rfl
  | cons line lines ih => exact ih

theorem turn_foldr_log :
    ((lines.foldr log next).perform others).turn = (next.perform others).turn := by
  induction lines with
  | nil => rfl
  | cons line lines ih => exact ih

end Conduct

namespace Task

variable {task : Task} {conduct : Conduct}

theorem IsOrderable.exists_conduct [Locators] (h : task.IsOrderable) :
    ∃ conduct, task.conduct? = some conduct := by
  cases h <;> exact ⟨_, rfl⟩

/-- A run makes no second call. -/
theorem length_calls_le (h : task.conduct? = some conduct) (others : Nat → Behaviour) :
    (conduct.perform others).calls.length ≤ 1 := by
  cases task with
  | restart token build =>
    obtain rfl := Option.some.inj h
    exact Nat.le_refl 1
  | fetch url =>
    obtain rfl := Option.some.inj h
    exact Nat.le_of_eq (congrArg (·.length + 1) Conduct.calls_foldr_log)
  | pause length =>
    obtain rfl := Option.some.inj h
    exact Nat.zero_le 1
  | rehearse r => cases h

/-- A run succeeds, whatever the others do. -/
theorem result_perform (h : task.conduct? = some conduct) (others : Nat → Behaviour) :
    (conduct.perform others).turn.result = .succeeded := by
  cases task with
  | restart token build =>
    obtain rfl := Option.some.inj h
    rfl
  | fetch url =>
    obtain rfl := Option.some.inj h
    exact congrArg Turn.result Conduct.turn_foldr_log
  | pause length =>
    obtain rfl := Option.some.inj h
    rfl
  | rehearse r => cases h

end Task

namespace Timetable

variable {t u : Timetable} {i : Nat} {v : Vigil} {a : Alarm} {task : Task}

/-- What the timetable says that the others will do. -/
def expected (t : Timetable) (call : Nat) : Behaviour where
  restart :=
    match t.replies[call]?.getD .accepted with
    | .accepted => .ok { accepted := true }
    | .rejected => .ok { accepted := false }
    | .failed => .error .unreadable

/-- A run begins as it does among others who behave as the timetable says, but that their replies
are not used up. -/
theorem beginAmong_expected (t : Timetable) (h : task.conduct?.isSome) :
    t.beginAmong t.expected task =
      ((t.beginRun task).1, { (t.beginRun task).2 with replies := t.replies }) := by
  cases task with
  | restart token build =>
    simp only [beginAmong, Task.conduct?, beginRun, Conduct.perform, expected,
      List.head?_eq_getElem?]
    cases t.replies[0]?.getD .accepted <;> rfl
  | fetch url => rfl
  | pause length => rfl
  | rehearse r => cases h

theorem turn_beginAmong_expected (t : Timetable) (task : Task) :
    (t.beginAmong t.expected task).1 = (t.beginRun task).1 := by
  cases h : task.conduct? with
  | none =>
    simp only [beginAmong]
    rw [h]
  | some conduct => rw [t.beginAmong_expected (by rw [h]; rfl)]

/-- A run that is conducted goes on as among others who behave as the timetable says. -/
theorem turn_beginRun {conduct : Conduct} (h : task.conduct? = some conduct) (t : Timetable) :
    (t.beginRun task).1 = (conduct.perform t.expected).turn := by
  rw [← turn_beginAmong_expected]
  simp only [beginAmong]
  rw [h]

/-- The runs of tasks that can be ordered succeed. -/
theorem result_beginAmong [Locators] (h : task.IsOrderable) (t : Timetable)
    (others : Nat → Behaviour) :
    (t.beginAmong others task).1.result = .succeeded := by
  obtain ⟨conduct, hconduct⟩ := h.exists_conduct
  simp only [beginAmong]
  rw [hconduct]
  exact Task.result_perform hconduct others

theorem beginAmong_eq (t : Timetable) (others : Nat → Behaviour) (task : Task) :
    ∃ runs replies journal, (t.beginAmong others task).2 = { t with runs, replies, journal } := by
  simp only [beginAmong]
  split
  · exact t.beginRun_eq task
  · exact ⟨t.runs, t.replies, _, rfl⟩

/-- Takes a vigil as far as it can go at once. If it begins a run, the others behave so. -/
def pollAmong (t : Timetable) (others : Nat → Behaviour) (i : Nat) : Timetable :=
  match t.vigils[i]? with
  | none => t
  | some v =>
    match t.alarms[v.alarm]? with
    | none => t
    | some a =>
      let (turn, begun) := t.beginAmong others a.task
      let p := v.passage a t.moment turn
      (if p.began.isSome then begun else t).follow i v a p

/-- A poll among others is the passage that goes on as the run that may begin. -/
theorem exists_pollAmong (others : Nat → Behaviour) (hv : t.vigils[i]? = some v)
    (ha : t.alarms[v.alarm]? = some a) : ∃ runs replies journal, t.pollAmong others i =
      { t with runs, replies, journal }.follow i v a
        (v.passage a t.moment (t.beginAmong others a.task).1) := by
  obtain ⟨runs, replies, journal, hbegun⟩ := t.beginAmong_eq others a.task
  simp only [pollAmong]
  rw [hv]
  dsimp only
  rw [ha]
  dsimp only
  rw [hbegun]
  split
  · exact ⟨runs, replies, journal, rfl⟩
  · exact ⟨t.runs, t.replies, t.journal, rfl⟩

theorem passing_pollAmong (others : Nat → Behaviour) (hv : t.vigils[i]? = some v)
    (ha : t.alarms[v.alarm]? = some a) :
    t.Passing (t.pollAmong others i) i v a
      (v.passage a t.moment (t.beginAmong others a.task).1) := by
  obtain ⟨runs, replies, journal, hpoll⟩ := exists_pollAmong others hv ha
  rw [hpoll]
  exact ⟨rfl, rfl⟩

theorem pollAmong_cases (t : Timetable) (others : Nat → Behaviour) (i : Nat) :
    t.pollAmong others i = t ∨ ∃ v a, t.vigils[i]? = some v ∧ t.alarms[v.alarm]? = some a := by
  unfold pollAmong
  split
  · exact Or.inl rfl
  · next v hv =>
    split
    · exact Or.inl rfl
    · next a ha => exact Or.inr ⟨v, a, hv, ha⟩

theorem moves_pollAmong (t : Timetable) (others : Nat → Behaviour) (i : Nat) :
    Core.Moves i t.core (t.pollAmong others i).core := by
  rcases t.pollAmong_cases others i with hsame | ⟨v, a, hv, ha⟩
  · rw [hsame]
  · rw [(passing_pollAmong others hv ha).core]
    exact Core.moves_passage (c := t.core) hv ha _ _

theorem ledger_pollAmong (t : Timetable) (others : Nat → Behaviour) (i : Nat) :
    (t.pollAmong others i).ledger = t.ledger := by
  rcases t.pollAmong_cases others i with hsame | ⟨v, a, hv, ha⟩
  · rw [hsame]
  · obtain ⟨runs, replies, journal, hpoll⟩ := exists_pollAmong others hv ha
    rw [hpoll]
    rfl

/-- The polls of a timetable are those among others who behave as it says. -/
theorem pollAmong_expected (t : Timetable) (i : Nat) :
    (t.pollAmong t.expected i).core = (t.poll i).core ∧
      (t.pollAmong t.expected i).ledger = (t.poll i).ledger ∧
      (t.pollAmong t.expected i).moment = (t.poll i).moment := by
  by_cases h : ∃ v a, t.vigils[i]? = some v ∧ t.alarms[v.alarm]? = some a
  · obtain ⟨v, a, hv, ha⟩ := h
    have hamong := passing_pollAmong t.expected hv ha
    rw [turn_beginAmong_expected] at hamong
    have hpoll := passing_poll hv ha
    exact ⟨hamong.core.trans hpoll.core.symm,
      (t.ledger_pollAmong _ i).trans (t.ledger_poll i).symm,
      hamong.moment.trans hpoll.moment.symm⟩
  · rw [(t.pollAmong_cases _ i).resolve_right h, (t.poll_cases i).resolve_right h]
    exact ⟨rfl, rfl, rfl⟩

end Timetable

end Almanac
