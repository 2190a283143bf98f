import Almanac.Proofs.Breaks
import Almanac.Proofs.Policies
import Almanac.Proofs.Readings
import Almanac.Proofs.Refusals

/-!
# What expressions stand for

An expression is `@once`, or `@at` or `@every` with a blank and an argument behind it, and blanks
at its ends do not count. `Plan.Denotes` says which plan such a text stands for, and
`Plan.Faults` says of any other text why it is refused. `expressions_exact` shows that reading an
expression is just that, for every text and every reading of the clock.
-/

namespace Almanac

namespace Plan

variable {s keyword argument : List Char} {text : String} {now : Instant} {plan : Plan}
  {e : PlanError}

/-- Holds of a text that is a keyword, a blank, and an argument with or without more blanks around
it. -/
def HasForm (s keyword argument : List Char) : Prop :=
  ∃ c rest, s = keyword ++ c :: rest ∧ Text.isBlank c = true ∧ Text.trim rest = argument

/-- Which plan a text without blanks at its ends stands for. -/
inductive Denotes (now : Instant) : List Char → Plan → Prop
  | once : Denotes now "@once".toList once
  | onceAt {s argument : List Char} {time : Instant} (form : HasForm s "@at".toList argument)
      (read : Instant.ofIso argument = .ok time) : Denotes now s (onceAt time)
  | every {s argument : List Char} {period : Span} {first : Instant}
      (form : HasForm s "@every".toList argument)
      (read : periodOfText (String.ofList argument) = .ok period)
      (least : Span.minute ≤ period) (most : period.nanos ≤ Span.displacementLimit)
      (after : now.IsAfter period first) : Denotes now s (recurring first period)

/-- Why a text without blanks at its ends stands for no plan. -/
inductive Faults (now : Instant) (s : List Char) : PlanError → Prop
  | badInstant {argument : List Char} {cause : InstantError}
      (form : HasForm s "@at".toList argument) (unread : Instant.ofIso argument = .error cause) :
      Faults now s (.invalidExpression (String.ofList s ++ ": " ++ cause.message))
  | unreadable {argument : List Char} {reason : String}
      (form : HasForm s "@every".toList argument)
      (unread : periodOfText (String.ofList argument) =
        .error (.refused (.invalidSpan (String.ofList argument) reason))) :
      Faults now s (.invalidSpan (String.ofList argument) reason)
  | zero {argument : List Char} {period : Span} (form : HasForm s "@every".toList argument)
      (read : periodOfText (String.ofList argument) = .ok period)
      (zero : period.isZero = true) :
      Faults now s (.invalidExpression (String.ofList s ++ ": interval must be non-zero"))
  | tooShort {argument : List Char} {period : Span} (form : HasForm s "@every".toList argument)
      (read : periodOfText (String.ofList argument) = .ok period)
      (positive : period.isZero = false) (short : period < Span.minute) :
      Faults now s (.periodOutOfRange period Span.minute)
  | tooLong {argument : List Char} {period : Span} (form : HasForm s "@every".toList argument)
      (read : periodOfText (String.ofList argument) = .ok period)
      (long : Span.displacementLimit < period.nanos) :
      Faults now s (.periodTooLarge period)
  | unreachable {argument : List Char} {period : Span} (form : HasForm s "@every".toList argument)
      (read : periodOfText (String.ofList argument) = .ok period)
      (least : Span.minute ≤ period) (none : ∀ first, ¬now.IsAfter period first) :
      Faults now s (.periodTooLarge period)
  | formless (once : s ≠ "@once".toList) (noInstant : ∀ argument, ¬HasForm s "@at".toList argument)
      (noInterval : ∀ argument, ¬HasForm s "@every".toList argument) :
      Faults now s (.invalidExpression (String.ofList s))

/-- Holds of the keywords, which have no blank in them. -/
def IsKeyword (keyword : List Char) : Prop :=
  keyword = "@once".toList ∨ keyword = "@at".toList ∨ keyword = "@every".toList

theorem IsKeyword.solid (h : IsKeyword keyword) : ∀ c ∈ keyword, (!Text.isBlank c) = true := by
  rcases h with rfl | rfl | rfl <;> exact List.all_eq_true.mp rfl

theorem takeWhile_keyword (h : IsKeyword keyword) {rest : List Char}
    (hrest : ∀ c ∈ rest.head?, Text.isBlank c = true) :
    ((keyword ++ rest).takeWhile fun c => !Text.isBlank c) = keyword := by
  rw [List.takeWhile_append_of_pos h.solid]
  cases rest with
  | nil => rw [List.takeWhile_nil, List.append_nil]
  | cons c rest =>
    have hc : Text.isBlank c = true := hrest c rfl
    rw [List.takeWhile_cons, hc]
    exact List.append_nil keyword

theorem splitKeyword_append (h : IsKeyword keyword) {rest : List Char}
    (hrest : ∀ c ∈ rest.head?, Text.isBlank c = true) :
    splitKeyword (keyword ++ rest) = (keyword, Text.trim rest) := by
  rw [splitKeyword, takeWhile_keyword h hrest, List.drop_left]

/-- A text is its first word and a rest that is nothing or begins with a blank. -/
theorem exists_splitKeyword (s : List Char) :
    ∃ rest, s = (splitKeyword s).1 ++ rest ∧ (∀ c ∈ rest.head?, Text.isBlank c = true) ∧
      (splitKeyword s).2 = Text.trim rest := by
  refine ⟨s.dropWhile fun c => !Text.isBlank c, List.takeWhile_append_dropWhile.symm, ?_, ?_⟩
  · intro c hc
    have hnot := List.head?_dropWhile_not (fun c => !Text.isBlank c) s
    rw [Option.mem_def.mp hc] at hnot
    simpa using hnot
  · have hdrop : ∀ word rest, word ++ rest = s → s.drop word.length = rest := by
      rintro word rest rfl
      exact List.drop_left
    rw [splitKeyword, hdrop _ _ List.takeWhile_append_dropWhile]

/-- In a text that does not end in a blank, what follows a keyword and a blank is an argument. -/
theorem hasForm_iff (hlast : ∀ c ∈ s.getLast?, Text.isBlank c = false) (h : IsKeyword keyword) :
    HasForm s keyword argument ↔ splitKeyword s = (keyword, argument) ∧ argument ≠ [] := by
  constructor
  · rintro ⟨c, rest, rfl, hc, rfl⟩
    refine ⟨?_, ?_⟩
    · rw [splitKeyword_append h (by simpa using hc), Text.trim_cons hc]
    · intro hnone
      have hblank : ∀ d ∈ c :: rest, Text.isBlank d = true := by
        simpa [hc] using Text.blank_of_trim_eq_nil hnone
      have hend := hlast _ (by
        rw [List.getLast?_append_of_ne_nil _ (List.cons_ne_nil c rest)]
        exact List.getLast?_eq_some_getLast (List.cons_ne_nil c rest))
      rw [hblank _ (List.getLast_mem _)] at hend
      cases hend
  · rintro ⟨hsplit, hargument⟩
    obtain ⟨rest, hs, hrest, htrim⟩ := exists_splitKeyword s
    rw [hsplit] at hs htrim
    cases rest with
    | nil => exact absurd htrim hargument
    | cons c rest =>
      have hc : Text.isBlank c = true := hrest c rfl
      refine ⟨c, rest, hs, hc, ?_⟩
      rw [← Text.trim_cons hc]
      exact htrim.symm

/-- In a text that does not end in a blank, nothing follows a keyword without an argument. -/
theorem splitKeyword_eq_nil_iff (hlast : ∀ c ∈ s.getLast?, Text.isBlank c = false)
    (h : IsKeyword keyword) : splitKeyword s = (keyword, []) ↔ s = keyword := by
  constructor
  · intro hsplit
    obtain ⟨rest, hs, hrest, htrim⟩ := exists_splitKeyword s
    rw [hsplit] at hs htrim
    cases rest with
    | nil => rw [hs, List.append_nil]
    | cons c rest =>
      have hc : Text.isBlank c = true := hrest c rfl
      have hform : HasForm s keyword (Text.trim rest) := ⟨c, rest, hs, hc, rfl⟩
      rw [Text.trim_cons hc] at htrim
      exact absurd htrim.symm ((hasForm_iff hlast h).mp hform).2
  · rintro rfl
    have hend : ∀ c ∈ ([] : List Char).head?, Text.isBlank c = true := by simp
    have hsplit := splitKeyword_append h hend
    rwa [List.append_nil] at hsplit

theorem last_trim (text : String) :
    ∀ c ∈ (Text.trim text.toList).getLast?, Text.isBlank c = false :=
  fun _ => Text.isBlank_getLast_trim

theorem ofExpression_of_once (h : Text.trim text.toList = "@once".toList) :
    ofExpression text now = .ok once := by
  have hsplit := (splitKeyword_eq_nil_iff (last_trim text) (Or.inl rfl)).mpr h
  simp only [ofExpression, hsplit]
  rfl

theorem ofExpression_of_at (h : HasForm (Text.trim text.toList) "@at".toList argument) :
    ofExpression text now =
      match Instant.ofIso argument with
      | .ok time => .ok (onceAt time)
      | .error cause => Attempt.refuse
          (.invalidExpression
            (String.ofList (Text.trim text.toList) ++ ": " ++ cause.message)) := by
  obtain ⟨hsplit, hargument⟩ := (hasForm_iff (last_trim text) (Or.inr (Or.inl rfl))).mp h
  have honce : ¬("@at".toList = "@once".toList ∧ argument = []) := fun h => hargument h.2
  rw [ofExpression]
  dsimp only
  rw [hsplit]
  dsimp only
  rw [if_neg honce, if_pos ⟨rfl, hargument⟩]
  rfl

theorem ofExpression_of_every (h : HasForm (Text.trim text.toList) "@every".toList argument) :
    ofExpression text now = ofInterval (Text.trim text.toList) argument now := by
  obtain ⟨hsplit, hargument⟩ := (hasForm_iff (last_trim text) (Or.inr (Or.inr rfl))).mp h
  have honce : ¬("@every".toList = "@once".toList ∧ argument = []) := fun h => hargument h.2
  have hat : ¬("@every".toList = "@at".toList ∧ argument ≠ []) :=
    fun h => absurd h.1 (by decide)
  rw [ofExpression]
  dsimp only
  rw [hsplit]
  dsimp only
  rw [if_neg honce, if_neg hat, if_pos ⟨rfl, hargument⟩]

theorem ofExpression_of_formless (once : Text.trim text.toList ≠ "@once".toList)
    (noInstant : ∀ argument, ¬HasForm (Text.trim text.toList) "@at".toList argument)
    (noInterval : ∀ argument, ¬HasForm (Text.trim text.toList) "@every".toList argument) :
    ofExpression text now =
      Attempt.refuse (.invalidExpression (String.ofList (Text.trim text.toList))) := by
  have hlast := last_trim text
  simp only [ofExpression]
  generalize hsplit : splitKeyword (Text.trim text.toList) = split
  obtain ⟨keyword, argument⟩ := split
  have honce : ¬(keyword = "@once".toList ∧ argument = []) := by
    rintro ⟨rfl, rfl⟩
    exact once ((splitKeyword_eq_nil_iff hlast (Or.inl rfl)).mp hsplit)
  have hat : ¬(keyword = "@at".toList ∧ argument ≠ []) := by
    rintro ⟨rfl, hargument⟩
    exact noInstant _ ((hasForm_iff hlast (Or.inr (Or.inl rfl))).mpr ⟨hsplit, hargument⟩)
  have hevery : ¬(keyword = "@every".toList ∧ argument ≠ []) := by
    rintro ⟨rfl, hargument⟩
    exact noInterval _ ((hasForm_iff hlast (Or.inr (Or.inr rfl))).mpr ⟨hsplit, hargument⟩)
  rw [if_neg honce, if_neg hat, if_neg hevery]

section

variable {expression interval : List Char} {period : Span}

theorem second_le_of_minute_le (h : Span.minute ≤ period) : 10 ^ 9 ≤ period.nanos := by
  change 60 * 10 ^ 9 ≤ period.nanos at h
  omega

theorem isZero_of_minute_le (h : Span.minute ≤ period) : period.isZero = false := by
  have hsecond := second_le_of_minute_le h
  rw [Span.isZero, beq_eq_false_iff_ne]
  omega

theorem minute_le_of_limit_lt (h : Span.displacementLimit < period.nanos) :
    Span.minute ≤ period := by
  change 60 * 10 ^ 9 ≤ period.nanos
  rw [Span.displacementLimit] at h
  omega

/-- What becomes of an interval whose text is read. -/
theorem ofInterval_of_read (h : periodOfText (String.ofList interval) = .ok period) :
    ofInterval expression interval now =
      if period.isZero then
        Attempt.refuse (.invalidExpression
          (String.ofList expression ++ ": interval must be non-zero"))
      else (Attempt.ofExcept (checkPeriod period)).bind fun _ =>
        match now.add? period with
        | some first => .ok (recurring first period)
        | none => Attempt.refuse (.periodTooLarge period) := by
  rw [ofInterval, h]
  rfl

theorem ofInterval_of_fault (h : periodOfText (String.ofList interval) = .ok period)
    (positive : period.isZero = false) (hfault : checkPeriod period = .error e) :
    ofInterval expression interval now = Attempt.refuse e := by
  rw [ofInterval_of_read h, positive, hfault]
  rfl

theorem ofInterval_of_fits (h : periodOfText (String.ofList interval) = .ok period)
    (least : Span.minute ≤ period) (most : period.nanos ≤ Span.displacementLimit) :
    ofInterval expression interval now =
      match now.add? period with
      | some first => .ok (recurring first period)
      | none => Attempt.refuse (.periodTooLarge period) := by
  rw [ofInterval_of_read h, isZero_of_minute_le least,
    checkPeriod_eq_ok_iff.mpr (Or.inr ⟨least, most⟩)]
  rfl

/-- An interval is a plan if its period and its first fire are in range. -/
theorem ofInterval_eq_ok_iff :
    ofInterval expression interval now = .ok plan ↔
      ∃ period first, periodOfText (String.ofList interval) = .ok period ∧
        (Span.minute ≤ period ∧ period.nanos ≤ Span.displacementLimit) ∧
        now.IsAfter period first ∧ recurring first period = plan := by
  constructor
  · intro h
    obtain ⟨period, hread, h⟩ := bind_eq_ok_iff.mp h
    split at h
    · cases h
    · next hzero =>
      obtain ⟨_, hchecked, h⟩ := bind_eq_ok_iff.mp h
      rw [Attempt.ofExcept_eq_ok_iff, checkPeriod_eq_ok_iff] at hchecked
      have hrange := hchecked.resolve_left hzero
      split at h
      · next first hfirst =>
        rw [Instant.add?_eq_some_iff (second_le_of_minute_le hrange.1)] at hfirst
        exact ⟨period, first, hread, hrange, hfirst, Except.ok.inj h⟩
      · cases h
  · rintro ⟨period, first, hread, hrange, hfirst, rfl⟩
    rw [ofInterval_of_fits hread hrange.1 hrange.2,
      (Instant.add?_eq_some_iff (second_le_of_minute_le hrange.1)).mpr hfirst]

theorem ofInterval_of_tooLong (h : periodOfText (String.ofList interval) = .ok period)
    (long : Span.displacementLimit < period.nanos) :
    ofInterval expression interval now = Attempt.refuse (.periodTooLarge period) := by
  have hminute := minute_le_of_limit_lt long
  refine ofInterval_of_fault h (isZero_of_minute_le hminute) ?_
  refine checkPeriod_eq_error_iff.mpr (Or.inr ⟨Or.inr (Nat.not_lt.mpr hminute), ?_, rfl⟩)
  exact decide_eq_false (Nat.not_le.mpr long)

theorem add?_eq_none_iff (least : Span.minute ≤ period) :
    now.add? period = none ↔ ∀ first, ¬now.IsAfter period first := by
  simp only [Option.eq_none_iff_forall_ne_some, ne_eq,
    Instant.add?_eq_some_iff (second_le_of_minute_le least)]

end

/-- An expression is read as the plan that it stands for. -/
theorem ofExpression_of_denotes (h : Denotes now (Text.trim text.toList) plan) :
    ofExpression text now = .ok plan := by
  generalize hs : Text.trim text.toList = s at h
  cases h with
  | once => exact ofExpression_of_once hs
  | onceAt form read =>
    subst hs
    rw [ofExpression_of_at form, read]
  | every form read least most after =>
    subst hs
    rw [ofExpression_of_every form]
    exact ofInterval_eq_ok_iff.mpr ⟨_, _, read, ⟨least, most⟩, after, rfl⟩

/-- A text with a fault is refused for it. -/
theorem ofExpression_of_faults (h : Faults now (Text.trim text.toList) e) :
    ofExpression text now = Attempt.refuse e := by
  cases h with
  | badInstant form unread => rw [ofExpression_of_at form, unread]
  | unreadable form unread =>
    rw [ofExpression_of_every form, ofInterval, unread]
    rfl
  | zero form read zero => rw [ofExpression_of_every form, ofInterval_of_read read, if_pos zero]
  | tooShort form read positive short =>
    rw [ofExpression_of_every form]
    exact ofInterval_of_fault read positive
      (checkPeriod_eq_error_iff.mpr (Or.inl ⟨positive, short, rfl⟩))
  | tooLong form read long =>
    rw [ofExpression_of_every form]
    exact ofInterval_of_tooLong read long
  | @unreachable argument period form read least none =>
    rw [ofExpression_of_every form]
    by_cases long : Span.displacementLimit < period.nanos
    · exact ofInterval_of_tooLong read long
    · rw [ofInterval_of_fits read least (Nat.not_lt.mp long), (add?_eq_none_iff least).mpr none]
  | formless once noInstant noInterval =>
    exact ofExpression_of_formless once noInstant noInterval

theorem ofExpression_of_overfull (form : HasForm (Text.trim text.toList) "@every".toList argument)
    (hfull : Overfull (String.ofList argument)) :
    ofExpression text now = .error .brokenOff := by
  rw [ofExpression_of_every form]
  exact ofInterval_eq_broken_iff.mpr hfull

/-- An interval is read, refused or overfull. -/
theorem interval_cases (now : Instant) (form : HasForm s "@every".toList argument) :
    (∃ plan, Denotes now s plan) ∨ (∃ e, Faults now s e) ∨ Overfull (String.ofList argument) := by
  cases hread : periodOfText (String.ofList argument) with
  | error failure =>
    right
    cases failure with
    | refused e =>
      obtain ⟨reason, rfl⟩ := eq_invalidSpan_of_periodOfText hread
      exact Or.inl ⟨_, .unreadable form hread⟩
    | brokenOff => exact Or.inr (periodOfText_eq_broken_iff.mp hread)
  | ok period =>
    by_cases hzero : period.isZero = true
    · exact Or.inr (Or.inl ⟨_, .zero form hread hzero⟩)
    · by_cases short : period < Span.minute
      · exact Or.inr (Or.inl ⟨_, .tooShort form hread (Bool.eq_false_iff.mpr hzero) short⟩)
      · have least : Span.minute ≤ period := Nat.not_lt.mp short
        by_cases long : Span.displacementLimit < period.nanos
        · exact Or.inr (Or.inl ⟨_, .tooLong form hread long⟩)
        · by_cases reachable : ∃ first, now.IsAfter period first
          · obtain ⟨first, after⟩ := reachable
            exact Or.inl ⟨_, .every form hread least (Nat.not_lt.mp long) after⟩
          · exact Or.inr (Or.inl ⟨_, .unreachable form hread least (not_exists.mp reachable)⟩)

/-- A text stands for a plan, has a fault, or asks for an overfull interval. -/
theorem expression_cases (now : Instant) (s : List Char) :
    (∃ plan, Denotes now s plan) ∨ (∃ e, Faults now s e) ∨
      ∃ argument, HasForm s "@every".toList argument ∧ Overfull (String.ofList argument) := by
  by_cases once : s = "@once".toList
  · exact Or.inl ⟨Plan.once, once ▸ Denotes.once⟩
  · by_cases instant : ∃ argument, HasForm s "@at".toList argument
    · obtain ⟨argument, form⟩ := instant
      cases hread : Instant.ofIso argument with
      | ok time => exact Or.inl ⟨_, .onceAt form hread⟩
      | error cause => exact Or.inr (Or.inl ⟨_, .badInstant form hread⟩)
    · by_cases interval : ∃ argument, HasForm s "@every".toList argument
      · obtain ⟨argument, form⟩ := interval
        exact (interval_cases now form).imp_right (Or.imp_right fun hfull => ⟨_, form, hfull⟩)
      · exact Or.inr (Or.inl
          ⟨_, .formless once (not_exists.mp instant) (not_exists.mp interval)⟩)

theorem ofExpression_eq_ok_iff :
    ofExpression text now = .ok plan ↔ Denotes now (Text.trim text.toList) plan := by
  refine ⟨fun h => ?_, ofExpression_of_denotes⟩
  rcases expression_cases now (Text.trim text.toList) with
    ⟨other, hother⟩ | ⟨e, he⟩ | ⟨argument, form, hfull⟩
  · rw [ofExpression_of_denotes hother] at h
    cases h
    exact hother
  · rw [ofExpression_of_faults he] at h
    cases h
  · rw [ofExpression_of_overfull form hfull] at h
    cases h

theorem ofExpression_eq_refused_iff :
    ofExpression text now = .error (.refused e) ↔ Faults now (Text.trim text.toList) e := by
  refine ⟨fun h => ?_, ofExpression_of_faults⟩
  rcases expression_cases now (Text.trim text.toList) with
    ⟨plan, hplan⟩ | ⟨other, hother⟩ | ⟨argument, form, hfull⟩
  · rw [ofExpression_of_denotes hplan] at h
    cases h
  · rw [ofExpression_of_faults hother] at h
    cases h
    exact hother
  · rw [ofExpression_of_overfull form hfull] at h
    cases h

theorem ofExpression_breaks_iff :
    ofExpression text now = .error .brokenOff ↔
      ∃ argument, HasForm (Text.trim text.toList) "@every".toList argument ∧
        Overfull (String.ofList argument) := by
  refine ⟨fun h => ?_, fun ⟨_, form, hfull⟩ => ofExpression_of_overfull form hfull⟩
  rcases expression_cases now (Text.trim text.toList) with
    ⟨plan, hplan⟩ | ⟨e, he⟩ | hfull
  · rw [ofExpression_of_denotes hplan] at h
    cases h
  · rw [ofExpression_of_faults he] at h
    cases h
  · exact hfull

/-- Blanks at the ends of an expression make no difference. -/
theorem ofExpression_between {before after : List Char}
    (hbefore : ∀ c ∈ before, Text.isBlank c = true)
    (hafter : ∀ c ∈ after, Text.isBlank c = true) :
    ofExpression (String.ofList (before ++ text.toList ++ after)) now = ofExpression text now := by
  have htrim : Text.trim (String.ofList (before ++ text.toList ++ after)).toList =
      Text.trim text.toList := by
    rw [String.toList_ofList, Text.trim_between hbefore hafter]
  rw [ofExpression, ofExpression, htrim]

theorem denotes_onceAt_iff (now : Instant) {time : Instant} :
    Denotes now s (onceAt time) ↔
      ∃ argument, HasForm s "@at".toList argument ∧ Instant.ofIso argument = .ok time := by
  constructor
  · intro h
    generalize hplan : onceAt time = plan at h
    cases h with
    | once => cases hplan
    | onceAt form read =>
      cases hplan
      exact ⟨_, form, read⟩
    | every form read least most after =>
      cases hplan
      cases isZero_of_minute_le least
  · rintro ⟨argument, form, read⟩
    exact .onceAt form read

/-- Every text is read as the plan that it stands for, refused for its fault, or broken off where
its interval is overfull. Blanks at its ends make no difference, neither to the plan nor to the
fault. -/
theorem expressions_exact (text : String) (now : Instant) :
    let s := Text.trim text.toList
    (∀ plan, ofExpression text now = .ok plan ↔ Denotes now s plan) ∧
      (∀ e, ofExpression text now = .error (.refused e) ↔ Faults now s e) ∧
      (ofExpression text now = .error .brokenOff ↔
        ∃ argument, HasForm s "@every".toList argument ∧ Overfull (String.ofList argument)) ∧
      ∀ before after : List Char, (∀ c ∈ before ++ after, Text.isBlank c = true) →
        ofExpression (String.ofList (before ++ text.toList ++ after)) now =
          ofExpression text now := by
  intro s
  refine ⟨fun plan => ofExpression_eq_ok_iff, fun e => ofExpression_eq_refused_iff,
    ofExpression_breaks_iff, fun before after hblank => ?_⟩
  obtain ⟨hbefore, hafter⟩ := List.forall_mem_append.mp hblank
  exact ofExpression_between hbefore hafter

/-- An interval between blanks of several kinds. -/
theorem expressions_exact_of_blanks :
    let plan := recurring { day := 0, second := 300, nano := 0 } ⟨300 * 10 ^ 9, by decide⟩
    Denotes .epoch "@every 5m".toList plan ∧
      ofExpression (String.ofList ("\u3000\t".toList ++ "@every 5m".toList ++ "\u2003\n".toList))
        .epoch = .ok plan := by
  intro plan
  obtain ⟨hplan, -, -, hblanks⟩ := expressions_exact "@every 5m" .epoch
  have hread : ofExpression "@every 5m" .epoch = .ok plan := by decide +kernel
  have htrim : Text.trim "@every 5m".toList = "@every 5m".toList := by decide +kernel
  refine ⟨htrim ▸ (hplan plan).mp hread, ?_⟩
  exact (hblanks _ _ (List.all_eq_true.mp rfl)).trans hread

end Plan

end Almanac
