import Almanac.Proofs.Expressions

/-!
# Two ways to ask for a plan

A client gives the time and the period of an entry in two fields, or an expression in one.
`forms_agree` shows that the second way asks for nothing that the first cannot ask for: what becomes
of an expression is what becomes of the fields that it stands for, at every reading of the clock.
-/

namespace Almanac

namespace IsoReader

variable {s rest : List Char} {n : Nat}

theorem columns_eq_ok {count value : Nat} (h : columns count value s = .ok (n, rest)) :
    ∃ digits, s = digits ++ rest ∧ digits.length = count ∧ ∀ c ∈ digits, c.isDigit = true := by
  induction count generalizing value s with
  | zero =>
    cases h
    exact ⟨[], rfl, rfl, by simp⟩
  | succ count ih =>
    cases s with
    | nil => cases h
    | cons c s =>
      rw [columns] at h
      split at h
      · next d hd =>
        obtain ⟨digits, rfl, hlength, hdigits⟩ := ih h
        refine ⟨c :: digits, rfl, by rw [List.length_cons, hlength], ?_⟩
        exact List.forall_mem_cons.mpr ⟨(Text.digit?_eq_some_iff.mp hd).1, hdigits⟩
      · cases h

theorem columns_suffix {count value : Nat} (h : columns count value s = .ok (n, rest)) :
    rest <:+ s := by
  obtain ⟨digits, rfl, -, -⟩ := columns_eq_ok h
  exact List.suffix_append digits rest

theorem column_suffix {wanted : Char} (h : column wanted s = .ok rest) : rest <:+ s := by
  cases s with
  | nil => cases h
  | cons c s =>
    rw [column] at h
    split at h
    · cases h
      exact List.suffix_cons c rest
    · cases h

theorem separator_suffix {wanted : Char} (h : separator wanted s = .ok rest) : rest <:+ s := by
  cases s with
  | nil => cases h
  | cons c s =>
    rw [separator] at h
    split at h
    · cases h
      exact List.suffix_cons c rest
    · cases h

theorem moreDigits_suffix {width value : Nat} (h : moreDigits width value s = .ok (n, rest)) :
    rest <:+ s := by
  induction width generalizing value s with
  | zero =>
    cases h
    exact List.suffix_rfl
  | succ width ih =>
    cases s with
    | nil =>
      cases h
      exact List.suffix_rfl
    | cons c s =>
      rw [moreDigits] at h
      split at h
      · cases h
        exact List.suffix_rfl
      · split at h
        · exact (ih h).trans (List.suffix_cons c s)
        · cases h

theorem fraction_suffix (h : fraction s = .ok (n, rest)) : rest <:+ s := by
  unfold fraction at h
  split at h
  · next s =>
    obtain ⟨⟨value, after⟩, hnumber, h⟩ := bind_eq_ok_iff.mp h
    cases h
    refine (List.dropWhile_suffix _).trans (List.IsSuffix.trans ?_ (List.suffix_cons '.' s))
    cases s with
    | nil => cases hnumber
    | cons c s =>
      rw [number] at hnumber
      split at hnumber
      · cases hnumber
      · exact (moreDigits_suffix hnumber).trans (List.suffix_cons c s)
  · cases h
    exact List.suffix_rfl

theorem offsetField_eq_ok {tens : Nat} (h : offsetField tens s = .ok (n, rest)) :
    ∃ digits, s = digits ++ rest ∧ digits.length = 2 ∧ ∀ c ∈ digits, c.isDigit = true := by
  obtain ⟨_, _, h⟩ := bind_eq_ok_iff.mp h
  obtain ⟨⟨value, after⟩, hcolumns, h⟩ := bind_eq_ok_iff.mp h
  obtain ⟨_, _, h⟩ := bind_eq_ok_iff.mp h
  cases h
  exact columns_eq_ok hcolumns

/-- An offset that ends a text ends in a letter or a digit. -/
theorem offset_getLast {minutes : Int} (h : offset (separator ':') s = .ok (minutes, [])) :
    ∃ c ∈ s.getLast?, Text.isBlank c = false := by
  cases s with
  | nil => cases h
  | cons c s =>
    rw [offset] at h
    split at h
    · next hzulu =>
      cases h
      refine ⟨c, rfl, ?_⟩
      rcases hzulu with rfl | rfl <;> decide
    · split at h
      · obtain ⟨⟨hours, afterHours⟩, hhours, h⟩ := bind_eq_ok_iff.mp h
        obtain ⟨afterColon, hcolon, h⟩ := bind_eq_ok_iff.mp h
        obtain ⟨⟨size, afterMinutes⟩, hminutes, h⟩ := bind_eq_ok_iff.mp h
        cases h
        obtain ⟨digits, hs, hlength, hdigits⟩ := offsetField_eq_ok hminutes
        rw [List.append_nil] at hs
        rw [← hs] at hlength hdigits
        have hne : afterColon ≠ [] := List.ne_nil_of_length_pos (by rw [hlength]; decide)
        obtain ⟨before, hbefore⟩ : afterColon <:+ c :: s := by
          obtain ⟨_, hs, -, -⟩ := offsetField_eq_ok hhours
          exact (separator_suffix hcolon).trans
            ((hs ▸ List.suffix_append _ afterHours).trans (List.suffix_cons c s))
        refine ⟨afterColon.getLast hne, ?_, ?_⟩
        · rw [← hbefore, List.getLast?_append_of_ne_nil _ hne]
          exact List.getLast?_eq_some_getLast hne
        · exact Text.isBlank_of_isDigit (hdigits _ (List.getLast_mem hne))
      · cases h

end IsoReader

namespace Instant

open IsoReader

variable {s : List Char} {time : Instant}

/-- A text that is read as an instant begins with a digit, and an offset is what it ends in. -/
theorem ends_of_ofIso (h : ofIso s = .ok time) :
    (∃ c ∈ s.head?, c.isDigit = true) ∧
      ∃ rest minutes, rest <:+ s ∧ offset (separator ':') rest = .ok (minutes, []) := by
  obtain ⟨_, _, h⟩ := bind_eq_ok_iff.mp h
  obtain ⟨⟨year, s₁⟩, hyear, h⟩ := bind_eq_ok_iff.mp h
  obtain ⟨s₂, hdash, h⟩ := bind_eq_ok_iff.mp h
  obtain ⟨⟨month, s₃⟩, hmonth, h⟩ := bind_eq_ok_iff.mp h
  obtain ⟨s₄, hdash', h⟩ := bind_eq_ok_iff.mp h
  obtain ⟨⟨day, s₅⟩, hday, h⟩ := bind_eq_ok_iff.mp h
  obtain ⟨_, _, h⟩ := bind_eq_ok_iff.mp h
  have hdate : s₅ <:+ s := (columns_suffix hday).trans <| (column_suffix hdash').trans <|
    (columns_suffix hmonth).trans <| (column_suffix hdash).trans (columns_suffix hyear)
  have hhead : ∃ c ∈ s.head?, c.isDigit = true := by
    obtain ⟨digits, rfl, hlength, hdigits⟩ := columns_eq_ok hyear
    obtain ⟨c, digits, rfl⟩ := List.exists_cons_of_length_eq_add_one hlength
    exact ⟨c, rfl, hdigits c List.mem_cons_self⟩
  refine ⟨hhead, ?_⟩
  cases s₅ with
  | nil => cases h
  | cons c s₆ =>
    dsimp only at h
    split at h
    · obtain ⟨_, hs, h⟩ := bind_eq_ok_iff.mp h
      cases hs
      obtain ⟨⟨hour, s₇⟩, hhour, h⟩ := bind_eq_ok_iff.mp h
      obtain ⟨s₈, hcolon, h⟩ := bind_eq_ok_iff.mp h
      obtain ⟨⟨minute, s₉⟩, hminute, h⟩ := bind_eq_ok_iff.mp h
      obtain ⟨s₁₀, hcolon', h⟩ := bind_eq_ok_iff.mp h
      obtain ⟨⟨second, s₁₁⟩, hsecond, h⟩ := bind_eq_ok_iff.mp h
      obtain ⟨⟨nano, s₁₂⟩, hnano, h⟩ := bind_eq_ok_iff.mp h
      obtain ⟨_, _, h⟩ := bind_eq_ok_iff.mp h
      obtain ⟨⟨minutes, s₁₃⟩, hoffset, h⟩ := bind_eq_ok_iff.mp h
      obtain ⟨_, hend, _⟩ := bind_eq_ok_iff.mp h
      have htime : s₁₂ <:+ s₆ := (fraction_suffix hnano).trans <| (columns_suffix hsecond).trans <|
        (column_suffix hcolon').trans <| (columns_suffix hminute).trans <|
        (column_suffix hcolon).trans (columns_suffix hhour)
      cases s₁₃ with
      | nil => exact ⟨s₁₂, minutes, htime.trans ((List.suffix_cons c s₆).trans hdate), hoffset⟩
      | cons _ _ => cases hend
    · cases h

/-- A text that is read as an instant has no blanks at its ends. -/
theorem trim_of_ofIso (h : ofIso s = .ok time) : Text.trim s = s := by
  obtain ⟨⟨c, hc, hdigit⟩, rest, minutes, ⟨before, hs⟩, hoffset⟩ := ends_of_ofIso h
  obtain ⟨d, hd, hlast⟩ := offset_getLast hoffset
  refine Text.trim_eq_self (fun c' hc' => ?_) fun d' hd' => ?_
  · obtain rfl := Option.mem_unique hc' hc
    exact Text.isBlank_of_isDigit hdigit
  · have hne : rest ≠ [] := by
      rintro rfl
      cases hd
    rw [← hs, List.getLast?_append_of_ne_nil _ hne] at hd'
    obtain rfl := Option.mem_unique hd' hd
    exact hlast

end Instant

namespace PlanRequest

/-- The entry that a request for a plan is turned into for a task. -/
def built (r : PlanRequest) (task : Task) (now : Instant) : Attempt PlanError Entry :=
  (r.resolve now).bind fun plan => Attempt.ofExcept (Entry.new task plan now)

variable {text : String} {task : Task} {now : Instant} {plan : Plan} {e : Entry}

theorem built_of_expression :
    ({ expression := some text } : PlanRequest).built task now =
      (Plan.ofExpression text now).bind fun plan => Attempt.ofExcept (Entry.new task plan now) :=
  rfl

theorem built_of_first (first : Option Instant) :
    ({ first } : PlanRequest).built task now =
      Attempt.ofExcept (Entry.new task ⟨first, Span.zero⟩ now) :=
  rfl

theorem built_of_period {first : Option Instant} (h : Text.isBlankText text.toList = false) :
    ({ first, period := some text } : PlanRequest).built task now =
      (periodOfText text).bind fun period =>
        Attempt.ofExcept (Entry.new task ⟨first, period⟩ now) := by
  rw [built, resolve_of_period rfl rfl, h]
  cases periodOfText text <;> rfl

end PlanRequest

namespace Plan

variable {keyword argument : List Char} {text : String} {now : Instant} {plan : Plan}

/-- A keyword with an argument behind one blank is an expression of that form. -/
theorem hasForm_append (h : IsKeyword keyword) (hargument : Text.trim argument ≠ []) :
    HasForm (Text.trim (keyword ++ ' ' :: argument)) keyword (Text.trim argument) := by
  obtain ⟨before, after, hs, hblank⟩ := Text.exists_trim argument
  obtain ⟨hbefore, hafter⟩ := List.forall_mem_append.mp hblank
  have hinner : Text.trim (before ++ Text.trim argument) = Text.trim argument := by
    rw [Text.trim_append_left hbefore, Text.trim_trim]
  have hwhole : Text.trim (keyword ++ ' ' :: argument) =
      keyword ++ ' ' :: (before ++ Text.trim argument) := by
    have hsame : keyword ++ ' ' :: argument =
        keyword ++ ' ' :: (before ++ Text.trim argument) ++ after := by
      conv_lhs => rw [hs]
      simp
    rw [hsame, Text.trim_append_right hafter]
    refine Text.trim_eq_self (fun c hc => ?_) fun c hc => ?_
    · rcases h with rfl | rfl | rfl <;> cases hc <;> decide
    · rw [List.append_cons, ← List.append_assoc, List.getLast?_append_of_ne_nil _ hargument] at hc
      exact Text.isBlank_getLast_trim hc
  exact ⟨' ', before ++ Text.trim argument, hwhole, by decide, hinner⟩

theorem hasForm_at {time : Instant} (h : Instant.ofIso text.toList = .ok time) :
    HasForm (Text.trim ("@at " ++ text).toList) "@at".toList text.toList := by
  have htrim := Instant.trim_of_ofIso h
  have hargument : Text.trim text.toList ≠ [] := by
    intro hnil
    rw [← htrim, hnil] at h
    cases h
  have hform := hasForm_append (Or.inr (Or.inl rfl)) hargument
  rw [htrim] at hform
  rw [String.toList_append]
  exact hform

theorem hasForm_every (h : Text.isBlankText text.toList = false) :
    HasForm (Text.trim ("@every " ++ text).toList) "@every".toList (Text.trim text.toList) := by
  have hargument : Text.trim text.toList ≠ [] := by
    intro hnil
    rw [Text.isBlankText, List.all_eq_true.mpr (Text.blank_of_trim_eq_nil hnil)] at h
    cases h
  rw [String.toList_append]
  exact hasForm_append (Or.inr (Or.inr rfl)) hargument

/-- A period is the same with and without the blanks at its ends. -/
theorem periodOfText_trim_eq_ok_iff {period : Span} :
    periodOfText (String.ofList (Text.trim text.toList)) = .ok period ↔
      periodOfText text = .ok period := by
  rw [periodOfText_eq, periodOfText_eq, String.toList_ofList, Text.trim_trim]
  split
  · rfl
  · rw [Attempt.mapReason_eq_ok_iff, Attempt.mapReason_eq_ok_iff]

/-- Holds of the instant that an expression asks for, if it is over. -/
def AsksPast (text : String) (now time : Instant) : Prop :=
  time < now ∧ ∃ argument, HasForm (Text.trim text.toList) "@at".toList argument ∧
    Instant.ofIso argument = .ok time

/-- A plan of an expression passes every check, but for an instant that is over. -/
theorem refused_iff_of_expression (h : ofExpression text now = .ok plan) {e : PlanError} :
    plan.Refused now e ↔ ∃ time, AsksPast text now time ∧ e = .inPast time now := by
  have hasks {time : Instant} : AsksPast text now time ↔ time < now ∧ plan = onceAt time := by
    rw [AsksPast, ← denotes_onceAt_iff now, ← ofExpression_eq_ok_iff, h, Except.ok.injEq]
  simp only [hasks, and_assoc]
  have hdenotes := ofExpression_eq_ok_iff.mp h
  generalize Text.trim text.toList = s at hdenotes
  constructor
  · intro hrefused
    cases hdenotes with
    | once =>
      cases hrefused with
      | inPast asked past => cases asked
      | tooShort timely recurring short => cases recurring
      | tooLong timely notShort long => cases long
    | onceAt form read =>
      cases hrefused with
      | inPast asked past =>
        cases asked
        exact ⟨_, past, rfl, rfl⟩
      | tooShort timely recurring short => cases recurring
      | tooLong timely notShort long => cases long
    | every form read least most after =>
      cases hrefused with
      | inPast asked past =>
        cases asked
        exact absurd past (Instant.lt_asymm (after.lt (second_le_of_minute_le least)))
      | tooShort timely recurring short => exact absurd short (Nat.not_lt.mpr least)
      | tooLong timely notShort long => exact absurd most (of_decide_eq_false long)
  · rintro ⟨time, past, rfl, rfl⟩
    exact .inPast rfl past

end Plan

namespace Entry

variable {plan : Plan} {now : Instant} {cause : PlanError}

theorem new_eq_error_iff {task : Task} :
    new task plan now = .error cause ↔ plan.Refused now cause := by
  rw [← policyOf_eq_error_iff]
  refine bind_eq_error_iff.trans ⟨?_, Or.inl⟩
  rintro (h | ⟨policy, -, h⟩)
  · exact h
  · cases h

theorem replan_eq_error_iff {e : Entry} :
    e.replan plan now = .error cause ↔ plan.Refused now cause := by
  rw [← policyOf_eq_error_iff]
  refine bind_eq_error_iff.trans ⟨?_, Or.inl⟩
  rintro (h | ⟨policy, -, h⟩)
  · exact h
  · cases h

end Entry

namespace PlanRequest

variable {text : String} {task : Task} {now : Instant} {e : Entry}

/-- An interval asks for what its sum with now and its period ask for. -/
theorem built_every_eq_ok_iff (h : Text.isBlankText text.toList = false) :
    ({ expression := some ("@every " ++ text) } : PlanRequest).built task now = .ok e ↔
      ∃ period first, periodOfText text = .ok period ∧ period.isZero = false ∧
        now.add? period = some first ∧
        ({ first := some first, period := some text } : PlanRequest).built task now = .ok e := by
  rw [built_of_expression, Plan.ofExpression_of_every (Plan.hasForm_every h), bind_eq_ok_iff]
  simp only [Plan.ofInterval_eq_ok_iff, Plan.periodOfText_trim_eq_ok_iff]
  constructor
  · rintro ⟨plan, ⟨period, first, hread, ⟨least, most⟩, hafter, rfl⟩, hnew⟩
    have hsum := (Instant.add?_eq_some_iff (Plan.second_le_of_minute_le least)).mpr hafter
    refine ⟨period, first, hread, Plan.isZero_of_minute_le least, hsum, ?_⟩
    rw [built_of_period h, hread]
    exact hnew
  · rintro ⟨period, first, hread, hzero, hsum, hbuilt⟩
    rw [built_of_period h, hread] at hbuilt
    have hnew : Entry.new task (Plan.recurring first period) now = .ok e :=
      Attempt.ofExcept_eq_ok_iff.mp hbuilt
    obtain ⟨policy, hpolicy, _⟩ := bind_eq_ok_iff.mp hnew
    obtain ⟨_, _, hpolicy⟩ := bind_eq_ok_iff.mp hpolicy
    obtain ⟨_, hchecked, _⟩ := bind_eq_ok_iff.mp hpolicy
    have hrange := (checkPeriod_eq_ok_iff.mp hchecked).resolve_left (Bool.eq_false_iff.mp hzero)
    have hafter := (Instant.add?_eq_some_iff (Plan.second_le_of_minute_le hrange.1)).mp hsum
    exact ⟨_, ⟨period, first, hread, hrange, hafter, rfl⟩, hbuilt⟩

theorem built_at {time : Instant} (h : Instant.ofIso text.toList = .ok time) :
    ({ expression := some ("@at " ++ text) } : PlanRequest).built task now =
      ({ first := some time } : PlanRequest).built task now := by
  rw [built_of_expression, Plan.ofExpression_of_at (Plan.hasForm_at h), h]
  rfl

theorem built_of_time (task : Task) (time now : Instant) :
    ({ first := some time } : PlanRequest).built task now =
      if time < now then Attempt.refuse (.inPast time now)
      else .ok { task, due := time, period := Span.zero } := by
  rw [built_of_first, Entry.new, Entry.policyOf, firstFire]
  dsimp only
  split <;> rfl

/-- What the two ways to ask for a plan have in common. An interval is the sum with now and the
period, and an instant or the word for once is the time or no time at all. What comes out of an
expression passes every check of an entry and of an alarm, but for an instant that is over. The two
ways are not to be mixed. -/
theorem forms_agree (task : Task) (now : Instant) :
    (∀ text e, Text.isBlankText text.toList = false →
      (({ expression := some ("@every " ++ text) } : PlanRequest).built task now = .ok e ↔
        ∃ period first, periodOfText text = .ok period ∧ period.isZero = false ∧
          now.add? period = some first ∧
          ({ first := some first, period := some text } : PlanRequest).built task now = .ok e)) ∧
    (∀ text time, Instant.ofIso text.toList = .ok time →
      ({ expression := some ("@at " ++ text) } : PlanRequest).built task now =
          ({ first := some time } : PlanRequest).built task now ∧
        ({ first := some time } : PlanRequest).built task now =
          if time < now then Attempt.refuse (.inPast time now)
          else .ok { task, due := time, period := Span.zero }) ∧
    ({ expression := some "@once" } : PlanRequest).built task now =
      ({} : PlanRequest).built task now ∧
    (∀ (r : PlanRequest) text plan, r.expression = some text → r.resolve now = .ok plan →
      (∀ e, Entry.new task plan now = .error e ↔
        ∃ time, Plan.AsksPast text now time ∧ e = .inPast time now) ∧
      (∀ (entry : Entry) e, entry.replan plan now = .error e ↔
        ∃ time, Plan.AsksPast text now time ∧ e = .inPast time now) ∧
      ∀ (alarm : Alarm) cause, alarm.replan plan now = .error cause ↔
        ∃ time, Plan.AsksPast text now time ∧ cause = .plan (.inPast time now)) ∧
    ∀ first period text, (first.isSome || period.isSome) = true →
      ({ first, period, expression := some text } : PlanRequest).resolve now =
        Attempt.refuse (.invalidExpression
          "schedule cannot be combined with next_fire_time or frequency") := by
  refine ⟨fun text e h => built_every_eq_ok_iff h,
    fun text time h => ⟨built_at h, built_of_time task time now⟩, ?_, ?_, ?_⟩
  · have honce : Plan.ofExpression "@once" now = .ok Plan.once :=
      Plan.ofExpression_of_once (by decide)
    rw [built_of_expression, honce]
    rfl
  · intro r text plan hexpression hresolve
    have hread : Plan.ofExpression text now = .ok plan := by
      rw [resolve_of_expression hexpression] at hresolve
      split at hresolve
      · cases hresolve
      · exact hresolve
    have hrefused (e : PlanError) := Plan.refused_iff_of_expression hread (e := e)
    refine ⟨fun e => ?_, fun entry e => ?_, fun alarm cause => ?_⟩
    · rw [Entry.new_eq_error_iff, hrefused]
    · rw [Entry.replan_eq_error_iff, hrefused]
    · rw [Alarm.replan_eq_error_iff]
      simp only [hrefused]
      constructor
      · rintro ⟨_, ⟨time, past, rfl⟩, rfl⟩
        exact ⟨time, past, rfl⟩
      · rintro ⟨time, past, rfl⟩
        exact ⟨_, ⟨time, past, rfl⟩, rfl⟩
  · intro first period text hboth
    rw [resolve_of_expression rfl]
    exact if_pos hboth

/-- A minute from inside a leap second, asked for in both ways. -/
theorem forms_agree_of_leap_second :
    let now : Instant := { day := 0, second := 86399, nano := 10 ^ 9 }
    let first : Instant := { day := 1, second := 59, nano := 0 }
    let e : Entry := { task := .pause Span.zero, due := first, period := Span.minute }
    ({ expression := some ("@every " ++ " 1m") } : PlanRequest).built e.task now = .ok e ∧
      ({ first := some first, period := some " 1m" } : PlanRequest).built e.task now = .ok e := by
  intro now first e
  have hread : periodOfText " 1m" = .ok Span.minute := by decide +kernel
  have hfields :
      ({ first := some first, period := some " 1m" } : PlanRequest).built e.task now = .ok e := by
    rw [built_of_period (by decide), hread]
    rfl
  have hevery := (forms_agree e.task now).1 " 1m" e (by decide)
  exact ⟨hevery.mpr ⟨Span.minute, first, hread, rfl, by decide, hfields⟩, hfields⟩

end PlanRequest

end Almanac
