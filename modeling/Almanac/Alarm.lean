import Almanac.Entry

/-!
# Alarms

An alarm drives one entry. Starting it sets out a vigil, which waits for the time that the
alarm is set to, runs the task, and then ends or sets the alarm again one period later.

A vigil holds the token that the alarm had when it was started, and goes by it: once the
token is revoked the vigil begins no further run. Generations count the starts, so that an
old vigil cannot speak for the alarm any more.
-/

namespace Almanac

inductive AlarmStatus where
  /-- Never started, or ended by itself. -/
  | idle
  | running
  /-- Stopped by a cancel or a new plan. -/
  | cancelled
  deriving DecidableEq, Repr

def AlarmStatus.label : AlarmStatus → String
  | .idle => "idle"
  | .running => "running"
  | .cancelled => "cancelled"

inductive AlarmError where
  | notRunning
  | alreadyRunning
  | plan (cause : PlanError)
  deriving DecidableEq, Repr

def AlarmError.message : AlarmError → String
  | .notRunning => "Scheduler not running"
  | .alreadyRunning => "Scheduler already running"
  | .plan cause => cause.message

/-- How a vigil ends. -/
inductive Ending where
  | finished
  | cancelled
  | failed (cause : TaskError)
  deriving DecidableEq, Repr

/-- An alarm: the entry and the task that it drives, its policy and its state. -/
structure Alarm where
  entry : Nat
  task : Task
  due : Instant
  period : Span
  status : AlarmStatus := .idle
  /-- The token for the next vigil. -/
  token : Nat := 0
  /-- The tokens that are revoked. -/
  revoked : List Nat := []
  /-- The least token never used yet. -/
  unused : Nat := 1
  /-- How many times the alarm was started. -/
  generation : Nat := 0

namespace Alarm

/-- The alarm of an entry, not started yet. -/
def ofEntry (e : Entry) : Alarm :=
  { entry := e.id, task := e.task, due := e.due, period := e.period }

/-- Holds of the alarms that were started and have not ended. -/
def isRunning (a : Alarm) : Bool := a.status == .running

def isRevoked (a : Alarm) (token : Nat) : Bool := a.revoked.contains token

/-- The alarm with a token never used before. -/
def renew (a : Alarm) : Alarm :=
  { a with token := a.unused, unused := a.unused + 1 }

def start (a : Alarm) : Except AlarmError Alarm :=
  if a.isRunning then .error .alreadyRunning
  else
    let a := if a.isRevoked a.token then a.renew else a
    .ok { a with status := .running, generation := a.generation + 1 }

/-- Revokes the token of a running alarm. -/
def stop (a : Alarm) : Alarm :=
  if a.isRunning then { a with status := .cancelled, revoked := a.token :: a.revoked } else a

def cancel (a : Alarm) : Except AlarmError Alarm :=
  if a.isRunning then .ok a.stop else .error .notRunning

/-- Stops an alarm if need be and gives it another plan, once that is found admissible. -/
def replan (a : Alarm) (plan : Plan) (now : Instant) : Except AlarmError Alarm :=
  match Entry.policyOf plan now with
  | .error cause => .error (.plan cause)
  | .ok (due, period) => .ok { a.stop.renew with due, period }

/-- The alarm after a vigil of a generation has ended. It heeds only the vigil of its last
start, and no vigil after it was stopped. -/
def conclude (a : Alarm) (generation : Nat) (ending : Ending) : Alarm :=
  if a.generation = generation ∧ a.status = .running then
    { a with status := if ending = .cancelled then .cancelled else .idle }
  else a

@[simp] theorem isRunning_stop (a : Alarm) : a.stop.isRunning = false := by
  simp only [stop]
  split
  · rfl
  · next h => simpa using h

theorem start_eq_error_iff {a : Alarm} {e : AlarmError} :
    a.start = .error e ↔ a.isRunning = true ∧ e = .alreadyRunning := by
  simp only [start]
  split
  · next h => simp [h, eq_comm]
  · next h => simp [h]

theorem isRunning_eq_true_iff {a : Alarm} : a.isRunning = true ↔ a.status = .running := by
  simp [isRunning]

theorem isRevoked_eq_true_iff {a : Alarm} {token : Nat} :
    a.isRevoked token = true ↔ token ∈ a.revoked := by
  simp [isRevoked]

theorem isRevoked_eq_false_iff {a : Alarm} {token : Nat} :
    a.isRevoked token = false ↔ token ∉ a.revoked := by
  simp [isRevoked]

theorem stop_of_running {a : Alarm} (h : a.status = .running) :
    a.stop = { a with status := .cancelled, revoked := a.token :: a.revoked } :=
  if_pos (isRunning_eq_true_iff.mpr h)

theorem stop_of_not_running {a : Alarm} (h : a.status ≠ .running) : a.stop = a :=
  if_neg fun running => h (isRunning_eq_true_iff.mp running)

@[simp] theorem stop_stop (a : Alarm) : a.stop.stop = a.stop :=
  if_neg (by simp)

theorem start_ok {a b : Alarm} (h : a.start = .ok b) :
    a.status ≠ .running ∧
      b = { (if a.isRevoked a.token then a.renew else a) with
        status := .running, generation := a.generation + 1 } := by
  simp only [start] at h
  split at h
  · cases h
  · next idle =>
    cases h
    refine ⟨fun running => idle (isRunning_eq_true_iff.mpr running), ?_⟩
    dsimp only
    split <;> rfl

theorem revoked_stop {a : Alarm} {token : Nat} (h : a.isRevoked token = true) :
    a.stop.isRevoked token = true := by
  simp only [stop]
  split
  · exact isRevoked_eq_true_iff.mpr (List.mem_cons_of_mem _ (isRevoked_eq_true_iff.mp h))
  · exact h

theorem revoked_start {a b : Alarm} (hstart : a.start = .ok b) (token : Nat)
    (h : a.isRevoked token = true) : b.isRevoked token = true := by
  obtain ⟨_, rfl⟩ := start_ok hstart
  rw [isRevoked_eq_true_iff] at h ⊢
  dsimp only
  split <;> exact h

theorem cancel_ok {a b : Alarm} (h : a.cancel = .ok b) : a.status = .running ∧ b = a.stop := by
  simp only [cancel] at h
  split at h
  · next running =>
    cases h
    exact ⟨isRunning_eq_true_iff.mp running, rfl⟩
  · cases h

theorem stop_keeps (a : Alarm) :
    a.stop.entry = a.entry ∧ a.stop.task = a.task ∧ a.stop.due = a.due ∧
      a.stop.period = a.period := by
  simp only [stop]
  split <;> exact ⟨rfl, rfl, rfl, rfl⟩

theorem start_keeps {a b : Alarm} (h : a.start = .ok b) :
    b.entry = a.entry ∧ b.task = a.task ∧ b.due = a.due ∧ b.period = a.period := by
  obtain ⟨_, rfl⟩ := start_ok h
  dsimp only
  split <;> exact ⟨rfl, rfl, rfl, rfl⟩

/-- The end of a vigil changes no more of an alarm than its status. -/
theorem conclude_eq (a : Alarm) (generation : Nat) (e : Ending) :
    a.conclude generation e = { a with status := (a.conclude generation e).status } := by
  simp only [conclude]
  split <;> rfl

theorem conclude_keeps (a : Alarm) (generation : Nat) (e : Ending) :
    (a.conclude generation e).entry = a.entry ∧ (a.conclude generation e).task = a.task ∧
      (a.conclude generation e).due = a.due ∧ (a.conclude generation e).period = a.period ∧
      (a.conclude generation e).revoked = a.revoked := by
  simp only [conclude]
  split <;> exact ⟨rfl, rfl, rfl, rfl, rfl⟩

theorem replan_ok {a b : Alarm} {plan : Plan} {now : Instant} (h : a.replan plan now = .ok b) :
    ∃ due period, Entry.policyOf plan now = .ok (due, period) ∧
      b = { a.stop.renew with due, period } := by
  simp only [replan] at h
  split at h
  · cases h
  · next due period hpolicy =>
    cases h
    exact ⟨due, period, hpolicy, rfl⟩

theorem replan_keeps {a b : Alarm} {plan : Plan} {now : Instant}
    (h : a.replan plan now = .ok b) : b.entry = a.entry ∧ b.task = a.task := by
  obtain ⟨due, period, _, rfl⟩ := replan_ok h
  obtain ⟨hentry, htask, _⟩ := a.stop_keeps
  exact ⟨hentry, htask⟩

end Alarm

end Almanac
