import Almanac.Time.InstantText
import Almanac.Time.IsoReader
import Almanac.Time.SpanText

/-!
# Plans

A plan says when an entry fires first and how often it repeats. It comes from a client
either in two explicit fields or as an expression: `@once`, `@at <instant>` or
`@every <span>`. A plan is admissible at a reading of the clock if it does not begin
before it and its period is zero, or between a minute and the limit of displacements.
-/

namespace Almanac

/-- When to fire first, none for as soon as possible, and the period, zero for one fire. -/
structure Plan where
  first : Option Instant
  period : Span
  deriving DecidableEq, Repr

inductive PlanError where
  | inPast (time now : Instant)
  | periodOutOfRange (period least : Span)
  | periodTooLarge (period : Span)
  | invalidExpression (text : String)
  | invalidSpan (input reason : String)
  deriving DecidableEq, Repr

def PlanError.message : PlanError → String
  | .inPast time now => s!"Time must not be in the past: {time.spoken} is before {now.spoken}"
  | .periodOutOfRange period least =>
    s!"Frequency must either be 0 or at least {least.brief} (got {period.brief})"
  | .periodTooLarge period => s!"Frequency {period.brief} is too large to schedule"
  | .invalidExpression text => "Invalid schedule expression: " ++ text
  | .invalidSpan input reason => "Invalid duration " ++ Text.quoted input ++ ": " ++ reason

def checkPeriod (period : Span) : Except PlanError Unit :=
  if !period.isZero && period < Span.minute then .error (.periodOutOfRange period Span.minute)
  else if period.isDisplacement then .ok ()
  else .error (.periodTooLarge period)

/-- The time of the first fire: now if none is asked for, and never before now. -/
def firstFire (asked : Option Instant) (now : Instant) : Except PlanError Instant :=
  match asked with
  | none => .ok now
  | some time => if time < now then .error (.inPast time now) else .ok time

/-- Reads a period: a span in words, or a bare zero. -/
def periodOfText (input : String) : Attempt PlanError Span :=
  let inner := Text.trim input.toList
  if inner = ['0'] then .ok Span.zero
  else (Span.ofWords inner).mapReason fun e => .invalidSpan input e.message

namespace Plan

def once : Plan := ⟨none, Span.zero⟩

def onceAt (time : Instant) : Plan := ⟨some time, Span.zero⟩

/-- Fires at a given time and then repeatedly. -/
def recurring (first : Instant) (period : Span) : Plan := ⟨some first, period⟩

/-- A text up to its first blank, and the rest without blanks around it. -/
def splitKeyword (s : List Char) : List Char × List Char :=
  let word := s.takeWhile fun c => !Text.isBlank c
  (word, Text.trim (s.drop word.length))

/-- The plan of `@every` and a span: the first fire is one period from now. -/
def ofInterval (expression interval : List Char) (now : Instant) : Attempt PlanError Plan := do
  let period ← periodOfText (String.ofList interval)
  if period.isZero then
    Attempt.refuse (.invalidExpression
      (String.ofList expression ++ ": interval must be non-zero"))
  else do
    Attempt.ofExcept (checkPeriod period)
    match now.add? period with
    | some first => pure (recurring first period)
    | none => Attempt.refuse (.periodTooLarge period)

def ofExpression (text : String) (now : Instant) : Attempt PlanError Plan :=
  let expression := Text.trim text.toList
  let (keyword, argument) := splitKeyword expression
  if keyword = "@once".toList ∧ argument = [] then pure once
  else if keyword = "@at".toList ∧ argument ≠ [] then
    match Instant.ofIso argument with
    | .ok time => pure (onceAt time)
    | .error e =>
      Attempt.refuse (.invalidExpression (String.ofList expression ++ ": " ++ e.message))
  else if keyword = "@every".toList ∧ argument ≠ [] then ofInterval expression argument now
  else Attempt.refuse (.invalidExpression (String.ofList expression))

end Plan

/-- The fields of a plan as a client sends them: the explicit pair or an expression. -/
structure PlanRequest where
  first : Option Instant := none
  period : Option String := none
  expression : Option String := none
  deriving DecidableEq, Repr

/-- The plan that is asked for. A blank period is no repetition, and an expression stands
alone. Whether the plan is admissible is for the entry to check. -/
def PlanRequest.resolve (r : PlanRequest) (now : Instant) : Attempt PlanError Plan :=
  match r.expression with
  | some text =>
    if r.first.isSome || r.period.isSome then
      Attempt.refuse (.invalidExpression
        "schedule cannot be combined with next_fire_time or frequency")
    else Plan.ofExpression text now
  | none =>
    match r.period with
    | none => pure ⟨r.first, Span.zero⟩
    | some text =>
      if Text.isBlankText text.toList then pure ⟨r.first, Span.zero⟩
      else do
        let period ← periodOfText text
        pure ⟨r.first, period⟩

@[simp] theorem firstFire_none (now : Instant) : firstFire none now = .ok now := rfl

@[simp] theorem checkPeriod_zero : checkPeriod Span.zero = .ok () := rfl

example : checkPeriod Span.minute = .ok () := rfl
example : (Plan.ofExpression "@every 0s" .epoch).toOption = none := by decide +kernel
example : (Plan.ofExpression " @once " .epoch).toOption = some Plan.once := by decide +kernel

end Almanac
