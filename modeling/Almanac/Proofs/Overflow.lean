import Almanac.Plan
import Mathlib.Tactic.LinearCombination

/-!
# Spans that run over

A span in words is summed part by part. A sum that no longer fits is refused at every step but
one: where nanoseconds fill up the last second of all exactly, the sum breaks off. `Overfull` says
so of a text in terms of the running sum, and `periodOfText_eq_broken_iff` shows that no other text
breaks off.
-/

namespace Almanac

namespace SpanText

variable {total sum : Span} {seconds nanos : Nat}

theorem word?_eq_ok_iff {n m : Nat} : word? n = .ok m ↔ n < 2 ^ 64 ∧ n = m := by
  unfold word?
  split
  · next h => simp [h]
  · next h => simp [h]

/-- A number that fits goes on. -/
theorem word?_bind_of_lt {α : Type} {n : Nat} (h : n < 2 ^ 64) (f : Nat → Attempt SpanError α) :
    (Attempt.ofExcept (word? n) >>= f) = f n := by
  rw [word?_eq_ok_iff.mpr ⟨h, rfl⟩]
  rfl

/-- A number that does not fit is refused. -/
theorem word?_bind_of_le {α : Type} {n : Nat} (h : 2 ^ 64 ≤ n) (f : Nat → Attempt SpanError α) :
    (Attempt.ofExcept (word? n) >>= f) = Attempt.refuse .tooLarge := by
  rw [word?, if_neg (Nat.not_lt.mpr h)]
  rfl

theorem seconds_fraction (s : Span) : s.seconds * 10 ^ 9 + s.fraction = s.nanos :=
  Nat.div_add_mod' s.nanos (10 ^ 9)

/-- The seconds that nanoseconds carry over, more than one of them. -/
def carried (nanos : Nat) : Nat := if 10 ^ 9 < nanos then nanos / 10 ^ 9 else 0

/-- The nanoseconds that are left of more than one second, or else all. -/
def remaining (nanos : Nat) : Nat := if 10 ^ 9 < nanos then nanos % 10 ^ 9 else nanos

theorem carried_remaining (nanos : Nat) : carried nanos * 10 ^ 9 + remaining nanos = nanos := by
  unfold carried remaining
  split <;> omega

/-- Nothing but exactly one second is left whole. -/
theorem remaining_lt (h : nanos ≠ 10 ^ 9) : remaining nanos < 10 ^ 9 := by
  unfold remaining
  split <;> omega

/-- A step whose numbers fit ends in the span of these numbers, if there is one. -/
theorem addParts_of_words (hnanos : total.fraction + nanos < 2 ^ 64)
    (hseconds : total.seconds + (seconds + carried (total.fraction + nanos)) < 2 ^ 64) :
    addParts total seconds nanos =
      (Span.ofParts? (total.seconds + (seconds + carried (total.fraction + nanos)))
        (remaining (total.fraction + nanos))).elim Attempt.breakOff .ok := by
  have hcarry : seconds + carried (total.fraction + nanos) < 2 ^ 64 := by omega
  unfold carried at hcarry hseconds
  rw [addParts, word?_bind_of_lt hnanos, word?_bind_of_lt hcarry, word?_bind_of_lt hseconds,
    carried, remaining]
  split
  · next sum hsum => rw [hsum, Option.elim_some]
  · next hnone => rw [hnone, Option.elim_none]

theorem addParts_of_overlong (h : 2 ^ 64 ≤ total.fraction + nanos ∨
      2 ^ 64 ≤ total.seconds + (seconds + carried (total.fraction + nanos))) :
    addParts total seconds nanos = Attempt.refuse .tooLarge := by
  rw [addParts]
  by_cases hnanos : total.fraction + nanos < 2 ^ 64
  · have hseconds : 2 ^ 64 ≤ total.seconds + (seconds + carried (total.fraction + nanos)) :=
      h.resolve_left (Nat.not_le.mpr hnanos)
    rw [word?_bind_of_lt hnanos]
    unfold carried at hseconds
    by_cases hcarry : seconds + carried (total.fraction + nanos) < 2 ^ 64
    · unfold carried at hcarry
      rw [word?_bind_of_lt hcarry, word?_bind_of_le hseconds]
    · unfold carried at hcarry
      exact word?_bind_of_le (Nat.not_lt.mp hcarry) _
  · exact word?_bind_of_le (Nat.not_lt.mp hnanos) _

theorem ofParts?_of_lt {n : Nat} (hn : seconds * 10 ^ 9 + nanos = n)
    (hfits : n < 2 ^ 64 * 10 ^ 9) : Span.ofParts? seconds nanos = some ⟨n, hfits⟩ := by
  subst hn
  exact dif_pos hfits

theorem ofParts?_of_le (h : 2 ^ 64 * 10 ^ 9 ≤ seconds * 10 ^ 9 + nanos) :
    Span.ofParts? seconds nanos = none := by
  rw [Span.ofParts?, Span.ofNanos?, dif_neg (Nat.not_lt.mpr h)]

/-- A step succeeds if what it adds fits, in 64 bits on the way and in a span in the end. -/
theorem addParts_of_fits (hnanos : total.fraction + nanos < 2 ^ 64)
    (hfits : total.nanos + seconds * 10 ^ 9 + nanos < 2 ^ 64 * 10 ^ 9) :
    addParts total seconds nanos = .ok ⟨_, hfits⟩ := by
  have htotal := seconds_fraction total
  have hcarry := carried_remaining (total.fraction + nanos)
  have hsum : Span.ofParts? (total.seconds + (seconds + carried (total.fraction + nanos)))
      (remaining (total.fraction + nanos)) = some ⟨_, hfits⟩ := by
    refine ofParts?_of_lt ?_ hfits
    linear_combination htotal + hcarry
  rw [addParts_of_words hnanos (by omega), hsum, Option.elim_some]

/-- A step breaks off if nanoseconds make up one second that is the first too many. -/
theorem addParts_of_full (hsecond : total.fraction + nanos = 10 ^ 9)
    (hfull : total.seconds + seconds + 1 = 2 ^ 64) :
    addParts total seconds nanos = Attempt.breakOff := by
  have hcarry : carried (total.fraction + nanos) = 0 := by rw [carried, if_neg (by omega)]
  have hremaining : remaining (total.fraction + nanos) = 10 ^ 9 := by
    rw [remaining, if_neg (by omega), hsecond]
  have hnone : Span.ofParts? (total.seconds + (seconds + carried (total.fraction + nanos)))
      (remaining (total.fraction + nanos)) = none := ofParts?_of_le (by omega)
  rw [addParts_of_words (by omega) (by omega), hnone, Option.elim_none]

/-- A step is refused otherwise. -/
theorem addParts_of_over
    (hover : 2 ^ 64 ≤ total.fraction + nanos ∨
      2 ^ 64 * 10 ^ 9 ≤ total.nanos + seconds * 10 ^ 9 + nanos)
    (hnot : ¬(total.fraction + nanos = 10 ^ 9 ∧ total.seconds + seconds + 1 = 2 ^ 64)) :
    addParts total seconds nanos = Attempt.refuse .tooLarge := by
  have htotal := seconds_fraction total
  have hcarry := carried_remaining (total.fraction + nanos)
  refine addParts_of_overlong ?_
  rcases hover with hword | hspan
  · exact Or.inl hword
  · right
    by_cases hsecond : total.fraction + nanos = 10 ^ 9
    · have hfull : total.seconds + seconds + 1 ≠ 2 ^ 64 := fun h => hnot ⟨hsecond, h⟩
      omega
    · have hremaining := remaining_lt hsecond
      omega

/-- What a text has to be summed, part by part, until it ends or a fault is found in it. -/
inductive Parts where
  | done
  | fault (e : SpanError)
  | inSeconds (n : Nat) (rest : Parts)
  | inNanos (n : Nat) (rest : Parts)

namespace Parts

/-- Adds the parts to a span, the first one first. -/
def addTo (total : Span) : Parts → Attempt SpanError Span
  | done => .ok total
  | fault e => Attempt.refuse e
  | inSeconds n rest => (addParts total n 0).bind fun sum => rest.addTo sum
  | inNanos n rest => (addParts total 0 n).bind fun sum => rest.addTo sum

/-- Holds of parts whose sum, from so many nanoseconds on, comes to exactly 2⁶⁴ seconds by
nanoseconds of one second at most, while it fitted before. -/
def Overfills (sum : Nat) : Parts → Prop
  | done => False
  | fault _ => False
  | inSeconds n rest => sum + n * 10 ^ 9 < 2 ^ 64 * 10 ^ 9 ∧ rest.Overfills (sum + n * 10 ^ 9)
  | inNanos n rest =>
    (n ≤ 10 ^ 9 ∧ sum + n = 2 ^ 64 * 10 ^ 9) ∨
      sum % 10 ^ 9 + n < 2 ^ 64 ∧ sum + n < 2 ^ 64 * 10 ^ 9 ∧ rest.Overfills (sum + n)

theorem addTo_inSeconds {n : Nat} {rest : Parts}
    (h : total.nanos + n * 10 ^ 9 < 2 ^ 64 * 10 ^ 9) :
    (inSeconds n rest).addTo total = rest.addTo ⟨_, h⟩ := by
  have hword : total.fraction + 0 < 2 ^ 64 := by
    have := total.fraction_lt
    omega
  have hfits : total.nanos + n * 10 ^ 9 + 0 < 2 ^ 64 * 10 ^ 9 := by rwa [Nat.add_zero]
  have hsum : (⟨_, hfits⟩ : Span) = ⟨_, h⟩ := Span.ext (Nat.add_zero _)
  rw [addTo, addParts_of_fits hword hfits, hsum]
  rfl

theorem addTo_inSeconds_of_over {n : Nat} {rest : Parts}
    (h : ¬total.nanos + n * 10 ^ 9 < 2 ^ 64 * 10 ^ 9) :
    (inSeconds n rest).addTo total = Attempt.refuse .tooLarge := by
  have hpart : ¬(total.fraction + 0 = 10 ^ 9 ∧ total.seconds + n + 1 = 2 ^ 64) := by
    rintro ⟨hsecond, -⟩
    rw [Nat.add_zero] at hsecond
    exact absurd hsecond (Nat.ne_of_lt total.fraction_lt)
  have hover : 2 ^ 64 * 10 ^ 9 ≤ total.nanos + n * 10 ^ 9 + 0 := by
    rw [Nat.add_zero]
    exact Nat.not_lt.mp h
  rw [addTo, addParts_of_over (Or.inr hover) hpart]
  rfl

theorem addTo_inNanos {n : Nat} {rest : Parts} (hword : total.fraction + n < 2 ^ 64)
    (h : total.nanos + n < 2 ^ 64 * 10 ^ 9) :
    (inNanos n rest).addTo total = rest.addTo ⟨_, h⟩ := by
  have hsize : total.nanos + 0 * 10 ^ 9 + n = total.nanos + n := by
    rw [Nat.zero_mul, Nat.add_zero]
  have hfits : total.nanos + 0 * 10 ^ 9 + n < 2 ^ 64 * 10 ^ 9 := hsize ▸ h
  have hsum : (⟨_, hfits⟩ : Span) = ⟨_, h⟩ := Span.ext hsize
  rw [addTo, addParts_of_fits hword hfits, hsum]
  rfl

/-- Nanoseconds that make up 2⁶⁴ seconds with what there is are the rest of its last second. -/
theorem full_iff {n : Nat} :
    (n ≤ 10 ^ 9 ∧ total.nanos + n = 2 ^ 64 * 10 ^ 9) ↔
      total.fraction + n = 10 ^ 9 ∧ total.seconds + 0 + 1 = 2 ^ 64 := by
  have htotal := seconds_fraction total
  have hfraction := total.fraction_lt
  have hseconds := total.seconds_lt
  omega

theorem addTo_inNanos_of_over {n : Nat} {rest : Parts}
    (h : ¬(total.fraction + n < 2 ^ 64 ∧ total.nanos + n < 2 ^ 64 * 10 ^ 9))
    (hpart : ¬(n ≤ 10 ^ 9 ∧ total.nanos + n = 2 ^ 64 * 10 ^ 9)) :
    (inNanos n rest).addTo total = Attempt.refuse .tooLarge := by
  have hover : 2 ^ 64 ≤ total.fraction + n ∨
      2 ^ 64 * 10 ^ 9 ≤ total.nanos + 0 * 10 ^ 9 + n := by omega
  rw [addTo, addParts_of_over hover (mt full_iff.mpr hpart)]
  rfl

/-- The sum breaks off exactly where the parts overfill it. -/
theorem addTo_eq_broken_iff {parts : Parts} {total : Span} :
    parts.addTo total = .error .brokenOff ↔ parts.Overfills total.nanos := by
  induction parts generalizing total with
  | done => exact ⟨nofun, False.elim⟩
  | fault e => exact ⟨nofun, False.elim⟩
  | inSeconds n rest ih =>
    by_cases hfits : total.nanos + n * 10 ^ 9 < 2 ^ 64 * 10 ^ 9
    · rw [addTo_inSeconds hfits, ih]
      exact ⟨fun h => ⟨hfits, h⟩, And.right⟩
    · rw [addTo_inSeconds_of_over hfits]
      exact ⟨nofun, fun h => absurd h.1 hfits⟩
  | inNanos n rest ih =>
    by_cases hfull : n ≤ 10 ^ 9 ∧ total.nanos + n = 2 ^ 64 * 10 ^ 9
    · obtain ⟨hsecond, hlast⟩ := full_iff.mp hfull
      rw [addTo, addParts_of_full hsecond hlast]
      exact ⟨fun _ => Or.inl hfull, fun _ => rfl⟩
    · by_cases hfits : total.fraction + n < 2 ^ 64 ∧ total.nanos + n < 2 ^ 64 * 10 ^ 9
      · rw [addTo_inNanos hfits.1 hfits.2, ih]
        exact ⟨fun h => Or.inr ⟨hfits.1, hfits.2, h⟩,
          fun h => (h.resolve_left hfull).2.2⟩
      · rw [addTo_inNanos_of_over hfits hfull]
        exact ⟨nofun, fun h => absurd ⟨(h.resolve_left hfull).1, (h.resolve_left hfull).2.1⟩ hfits⟩

end Parts

/-- A part of some size, in nanoseconds or else in seconds. -/
def partOf (nanos : Bool) (size : Except SpanError Nat) (rest : Parts) : Parts :=
  match size with
  | .error e => .fault e
  | .ok n => if nanos then .inNanos n rest else .inSeconds n rest

def wholePart (unit : SpanUnit) (number : Nat) (rest : Parts) : Parts :=
  partOf unit.isSubsecond (word? (number * unit.length)) rest

def decimalPart (unit : SpanUnit) (decimals : Decimals) (rest : Parts) : Parts :=
  match unit with
  | .nanosecond => .fault .tooLarge
  | .microsecond | .millisecond => partOf true (share decimals unit.length) rest
  | .second | .minute => partOf true (share decimals (unit.length * 10 ^ 9)) rest
  | .hour | .day | .week | .month | .year => partOf false (share decimals unit.length) rest

/-- The parts of a number with its unit. -/
def termParts (found : Amount) (name : String) (rest : Parts) : Parts :=
  if name.isEmpty then .fault (.unitNeeded found.whole)
  else
    match SpanUnit.ofName? name with
    | none => .fault (.unknownUnit name)
    | some unit =>
      wholePart unit found.whole
        (match found.decimals with
        | none => rest
        | some decimals => decimalPart unit decimals rest)

/-- The parts of the terms from a number on whose first digit has been read. -/
def partsFrom : Nat → Nat → Cursor → Parts
  | 0, _, _ => .done
  | fuel + 1, digit, cursor =>
    match amount digit cursor.offset cursor.rest with
    | .error e => .fault e
    | .ok found =>
      match unitName [] found.after.offset found.after.rest with
      | .error e => .fault e
      | .ok (name, after) =>
        termParts found name
          (match firstDigit after.offset after.offset after.rest with
          | .error e => .fault e
          | .ok none => .done
          | .ok (some (digit, cursor)) => partsFrom fuel digit cursor)

def partsOf (s : List Char) : Parts :=
  match firstDigit 0 0 s with
  | .error e => .fault e
  | .ok none => .fault .empty
  | .ok (some (digit, cursor)) => partsFrom s.length digit cursor

theorem addTo_partOf (nanos : Bool) (size : Except SpanError Nat) (rest : Parts) (total : Span) :
    (partOf nanos size rest).addTo total =
      (Attempt.ofExcept size).bind fun n =>
        (if nanos then addParts total 0 n else addParts total n 0).bind fun sum =>
          rest.addTo sum := by
  cases size with
  | error e => rfl
  | ok n => cases nanos <;> rfl

theorem addTo_wholePart (unit : SpanUnit) (number : Nat) (rest : Parts) (total : Span) :
    (wholePart unit number rest).addTo total =
      (addWhole total unit number).bind fun sum => rest.addTo sum := by
  rw [wholePart, addTo_partOf, addWhole]
  cases word? (number * unit.length) <;> rfl

theorem addTo_decimalPart (unit : SpanUnit) (decimals : Decimals) (rest : Parts) (total : Span) :
    (decimalPart unit decimals rest).addTo total =
      (addDecimals total unit decimals).bind fun sum => rest.addTo sum := by
  have hshare (length : Nat) (nanos : Bool) :
      (partOf nanos (share decimals length) rest).addTo total =
        (do
          let n ← Attempt.ofExcept (share decimals length)
          if nanos then addParts total 0 n else addParts total n 0).bind
        fun sum => rest.addTo sum := by
    rw [addTo_partOf]
    cases share decimals length <;> rfl
  cases unit with
  | nanosecond => rfl
  | microsecond => exact hshare _ true
  | millisecond => exact hshare _ true
  | second => exact hshare _ true
  | minute => exact hshare _ true
  | hour => exact hshare _ false
  | day => exact hshare _ false
  | week => exact hshare _ false
  | month => exact hshare _ false
  | year => exact hshare _ false

theorem addTo_termParts (found : Amount) (name : String) (rest : Parts) (total : Span) :
    (termParts found name rest).addTo total =
      (addTerm total found name).bind fun sum => rest.addTo sum := by
  unfold termParts addTerm
  split
  · rfl
  · cases SpanUnit.ofName? name with
    | none => rfl
    | some unit =>
      refine (addTo_wholePart ..).trans ?_
      dsimp only [bind]
      cases addWhole total unit found.whole with
      | error e => rfl
      | ok sum =>
        cases found.decimals with
        | none => rfl
        | some decimals => exact addTo_decimalPart unit decimals rest sum

theorem addTo_partsFrom (fuel : Nat) (total : Span) (digit : Nat) (cursor : Cursor) :
    (partsFrom fuel digit cursor).addTo total = terms fuel total digit cursor := by
  induction fuel generalizing total digit cursor with
  | zero => rfl
  | succ fuel ih =>
    unfold partsFrom terms
    cases amount digit cursor.offset cursor.rest with
    | error e => rfl
    | ok found =>
      dsimp only [Attempt.ofExcept, bind, Except.bind]
      cases unitName [] found.after.offset found.after.rest with
      | error e => rfl
      | ok read =>
        refine (addTo_termParts ..).trans ?_
        dsimp only
        cases addTerm total found read.1 with
        | error e => rfl
        | ok sum =>
          dsimp only [Except.bind]
          cases firstDigit read.2.offset read.2.offset read.2.rest with
          | error e => rfl
          | ok next =>
            cases next with
            | none => rfl
            | some start => exact ih sum start.1 start.2

/-- Summing the parts of a text is reading it. -/
theorem addTo_partsOf (s : List Char) : (partsOf s).addTo Span.zero = Span.ofWords s := by
  unfold partsOf Span.ofWords
  cases firstDigit 0 0 s with
  | error e => rfl
  | ok next =>
    cases next with
    | none => rfl
    | some start => exact addTo_partsFrom s.length Span.zero start.1 start.2

theorem ofWords_eq_broken_iff {s : List Char} :
    Span.ofWords s = .error .brokenOff ↔ (partsOf s).Overfills 0 := by
  rw [← addTo_partsOf]
  exact Parts.addTo_eq_broken_iff

end SpanText

/-- Holds of the texts of spans whose sum comes to exactly 2⁶⁴ seconds by nanoseconds of one second
at most. -/
def Overfull (text : String) : Prop :=
  (SpanText.partsOf (Text.trim text.toList)).Overfills 0

theorem periodOfText_eq (text : String) :
    periodOfText text =
      if Text.trim text.toList = ['0'] then .ok Span.zero
      else (Span.ofWords (Text.trim text.toList)).mapReason fun e =>
        .invalidSpan text e.message :=
  rfl

/-- A period breaks off exactly where its text is overfull. -/
theorem periodOfText_eq_broken_iff {text : String} :
    periodOfText text = .error .brokenOff ↔ Overfull text := by
  rw [periodOfText_eq, Overfull]
  split
  · next hzero =>
    rw [hzero]
    exact ⟨nofun, False.elim⟩
  · rw [Attempt.mapReason_eq_broken_iff, SpanText.ofWords_eq_broken_iff]

-- a millisecond less fits, and one more is refused
example : (periodOfText "18446744073709551615s 999ms").isOk = true := by decide +kernel
example : periodOfText "18446744073709551615s 1000ms" = Attempt.breakOff := by decide +kernel
example : periodOfText "18446744073709551615s 1001ms" =
    Attempt.refuse (.invalidSpan "18446744073709551615s 1001ms" SpanError.tooLarge.message) := by
  decide +kernel

/-- A period is refused for its text only. -/
theorem eq_invalidSpan_of_periodOfText {text : String} {e : PlanError}
    (h : periodOfText text = .error (.refused e)) : ∃ reason, e = .invalidSpan text reason := by
  rw [periodOfText_eq] at h
  split at h
  · cases h
  · obtain ⟨cause, -, rfl⟩ := Attempt.mapReason_eq_refused_iff.mp h
    exact ⟨_, rfl⟩

theorem not_overfull_of_isBlankText {text : String} (h : Text.isBlankText text.toList = true) :
    ¬Overfull text := by
  have hblank : ∀ c ∈ text.toList, Text.isBlank c = true := List.all_eq_true.mp h
  have htrim : Text.trim (text.toList ++ [] ++ []) = [] :=
    Text.trim_append hblank (by simp) (by simp)
  rw [List.append_nil, List.append_nil] at htrim
  rw [Overfull, htrim]
  exact id

end Almanac
