import Almanac.Proofs.Overflow
import Mathlib.Data.List.Basic

/-!
# Spans in words, read back

Whole numbers with units, joined by single blanks, are read as their sum. The words of a span are
such a text, and the sum is the span, so that writing a span in words loses nothing, whatever its
size.
-/

namespace Almanac.SpanText

/-- A whole number of a unit, with one of its names. -/
structure Phrase where
  count : Nat
  unit : SpanUnit
  name : String
  named : name ∈ unit.names

namespace Phrase

def text (p : Phrase) : List Char := Text.decimal p.count ++ p.name.toList

def nanos (p : Phrase) : Nat :=
  if p.unit.isSubsecond then p.count * p.unit.length else p.count * p.unit.length * 10 ^ 9

/-- What a phrase adds to a sum, in front of other parts. -/
def part (p : Phrase) (rest : Parts) : Parts :=
  if p.unit.isSubsecond then .inNanos (p.count * p.unit.length) rest
  else .inSeconds (p.count * p.unit.length) rest

end Phrase

def nanosOf (phrases : List Phrase) : Nat := (phrases.map Phrase.nanos).sum

def textOf (phrases : List Phrase) : List Char := [' '].intercalate (phrases.map Phrase.text)

/-- What phrases add to a sum. -/
def partsOfPhrases (phrases : List Phrase) : Parts := phrases.foldr Phrase.part .done

theorem textOf_cons (p : Phrase) (phrases : List Phrase) :
    textOf (p :: phrases) =
      p.text ++ if phrases = [] then [] else ' ' :: textOf phrases := by
  cases phrases with
  | nil => simp [textOf]
  | cons q phrases => simp [textOf, List.intercalate_cons_cons]

theorem length_le_textOf (phrases : List Phrase) : phrases.length ≤ (textOf phrases).length := by
  induction phrases with
  | nil => simp
  | cons p phrases ih =>
    have htext : 0 < p.text.length := by
      have hdigits := List.length_pos_iff.mpr (Text.decimal_ne_nil p.count)
      rw [Phrase.text, List.length_append]
      omega
    rw [textOf_cons]
    split
    · next hnil => simpa [hnil, Nat.one_le_iff_ne_zero, Nat.pos_iff_ne_zero] using htext
    · simp only [List.length_append, List.length_cons]
      omega

theorem isDigit_of_head {phrases : List Phrase} {c : Char} (h : c ∈ (textOf phrases).head?) :
    c.isDigit = true := by
  cases phrases with
  | nil => cases h
  | cons p phrases =>
    obtain ⟨d, digits, hdecimal⟩ := List.exists_cons_of_ne_nil (Text.decimal_ne_nil p.count)
    rw [textOf_cons, Phrase.text, hdecimal] at h
    cases h
    exact Text.isDigit_of_mem_decimal (hdecimal ▸ List.mem_cons_self)

/-- Every name of a unit is of unit letters, and of no other unit. -/
theorem name_spec {name : String} {unit : SpanUnit} (h : name ∈ unit.names) :
    name.toList ≠ [] ∧ (∀ c ∈ name.toList, isUnitLetter c = true) ∧
      SpanUnit.ofName? name = some unit := by
  have hall : ∀ unit ∈ SpanUnit.all, ∀ name ∈ unit.names, name.toList ≠ [] ∧
      name.toList.all isUnitLetter = true ∧ SpanUnit.ofName? name = some unit := by
    decide +kernel
  obtain ⟨hne, hletters, hunit⟩ := hall unit (by cases unit <;> decide) name h
  exact ⟨hne, List.all_eq_true.mp hletters, hunit⟩

theorem unitLetter_spec {c : Char} (h : isUnitLetter c = true) :
    c.isDigit = false ∧ Text.digit? c = none ∧ Text.isBlank c = false := by
  have hrange : 65 ≤ c.toNat ∧ c.toNat ≤ 90 ∨ 97 ≤ c.toNat ∧ c.toNat ≤ 122 ∨ c.toNat = 181 := by
    rw [isUnitLetter, Bool.or_eq_true, beq_iff_eq] at h
    rcases h with hletter | rfl
    · rcases Bool.or_eq_true_iff.mp hletter with hupper | hlower
      · exact Or.inl (of_decide_eq_true hupper)
      · obtain ⟨hfirst, hlast⟩ := Bool.and_eq_true_iff.mp hlower
        exact Or.inr (Or.inl ⟨of_decide_eq_true hfirst, of_decide_eq_true hlast⟩)
    · exact Or.inr (Or.inr rfl)
  have hdigit : c.isDigit = false := by
    rw [Bool.eq_false_iff, Ne, Text.isDigit_iff]
    omega
  have hblank : Text.isBlank c = false := by
    simp only [Text.isBlank, Bool.or_eq_false_iff, Bool.and_eq_false_iff, decide_eq_false_iff_not,
      beq_eq_false_iff_ne]
    omega
  exact ⟨hdigit, by rw [Text.digit?, hdigit]; rfl, hblank⟩

theorem isUnitLetter_of_getLast {phrases : List Phrase} (hne : phrases ≠ []) {c : Char}
    (h : c ∈ (textOf phrases).getLast?) : isUnitLetter c = true := by
  induction phrases with
  | nil => exact absurd rfl hne
  | cons p phrases ih =>
    rw [textOf_cons] at h
    split at h
    · obtain ⟨hname, hletters, -⟩ := name_spec p.named
      rw [List.append_nil, Phrase.text, List.getLast?_append_of_ne_nil _ hname] at h
      exact hletters c (List.mem_of_mem_getLast? h)
    · next hmore =>
      have htext : textOf phrases ≠ [] := by
        obtain ⟨q, rest, rfl⟩ := List.exists_cons_of_ne_nil hmore
        exact List.ne_nil_of_length_pos
          (Nat.lt_of_lt_of_le (Nat.succ_pos _) (length_le_textOf (q :: rest)))
      rw [List.append_cons, List.getLast?_append_of_ne_nil _ htext] at h
      exact ih hmore h

theorem amount_of_digits {digits : List Char} {c : Char} {whole : Nat}
    (hdigits : ∀ d ∈ digits, d.isDigit = true) (hc : isUnitLetter c = true)
    (hfits : Nat.ofDigitChars 10 digits whole < 2 ^ 64) (rest : List Char) (offset : Nat) :
    ∃ passed, amount whole offset (digits ++ c :: rest) =
      .ok ⟨Nat.ofDigitChars 10 digits whole, none, passed, c :: rest⟩ := by
  induction digits generalizing whole offset with
  | nil =>
    obtain ⟨-, hdigit, hblank⟩ := unitLetter_spec hc
    refine ⟨offset, ?_⟩
    simp only [List.nil_append, amount, hdigit, hblank, hc]
    rfl
  | cons d digits ih =>
    obtain ⟨hd, hdigits⟩ := List.forall_mem_cons.mp hdigits
    have hnext : whole * 10 + (d.toNat - 48) < 2 ^ 64 := by
      have hle := Text.le_ofDigitChars digits (10 * whole + (d.toNat - 48))
      rw [Nat.ofDigitChars_cons] at hfits
      have := Nat.lt_of_le_of_lt hle hfits
      omega
    rw [Nat.ofDigitChars_cons, Nat.mul_comm 10 whole] at hfits ⊢
    obtain ⟨passed, hamount⟩ := ih hdigits hfits (offset + 1)
    refine ⟨passed, ?_⟩
    rw [List.cons_append, amount, Text.digit?_eq_some_iff.mpr ⟨hd, rfl⟩]
    simp only [word?_eq_ok_iff.mpr ⟨hnext, rfl⟩, bind, Except.bind]
    exact hamount

/-- A name ends at the end or at a blank, which is passed. -/
theorem unitName_of_letters {letters after tail : List Char}
    (hletters : ∀ c ∈ letters, isUnitLetter c = true)
    (htail : tail = [] ∧ after = [] ∨ tail = ' ' :: after) (read : List Char) (offset : Nat) :
    ∃ passed, unitName read offset (letters ++ tail) =
      .ok (String.ofList (read.reverse ++ letters), ⟨passed, after⟩) := by
  induction letters generalizing read offset with
  | nil =>
    rw [List.append_nil]
    rcases htail with ⟨rfl, rfl⟩ | rfl
    · exact ⟨_, rfl⟩
    · exact ⟨_, rfl⟩
  | cons c letters ih =>
    obtain ⟨hc, hletters⟩ := List.forall_mem_cons.mp hletters
    obtain ⟨hdigit, -, hblank⟩ := unitLetter_spec hc
    obtain ⟨passed, hname⟩ := ih hletters (c :: read) (offset + c.utf8Size)
    refine ⟨passed, ?_⟩
    simp only [List.cons_append, unitName, hdigit, hblank, hc, if_true, Bool.false_eq_true,
      if_false, hname]
    simp

theorem termParts_of_phrase (p : Phrase) (hfits : p.count * p.unit.length < 2 ^ 64)
    (cursor : Cursor) (rest : Parts) :
    termParts ⟨p.count, none, cursor⟩ p.name rest = p.part rest := by
  obtain ⟨hne, -, hunit⟩ := name_spec p.named
  have hname : ¬p.name.isEmpty = true := by
    rw [String.isEmpty_iff]
    rintro hempty
    exact hne (by rw [hempty]; rfl)
  rw [termParts, if_neg hname, hunit]
  simp only [wholePart, word?_eq_ok_iff.mpr ⟨hfits, rfl⟩, partOf, Phrase.part]

/-- A phrase at the front is read whole, and reading goes on after it. -/
theorem partsFrom_phrase (p : Phrase) (hfits : p.count * p.unit.length < 2 ^ 64)
    {tail after : List Char} (htail : tail = [] ∧ after = [] ∨ tail = ' ' :: after)
    (start offset : Nat) :
    ∃ digit cursor, firstDigit start offset (p.text ++ tail) = .ok (some (digit, cursor)) ∧
      ∀ fuel, ∃ passed, partsFrom (fuel + 1) digit cursor =
        p.part (match firstDigit passed passed after with
          | .error e => .fault e
          | .ok none => .done
          | .ok (some (digit, cursor)) => partsFrom fuel digit cursor) := by
  obtain ⟨hname, hletters, -⟩ := name_spec p.named
  obtain ⟨d, digits, hdecimal⟩ := List.exists_cons_of_ne_nil (Text.decimal_ne_nil p.count)
  obtain ⟨l, letters, hl⟩ := List.exists_cons_of_ne_nil hname
  have hdigits : ∀ c ∈ d :: digits, c.isDigit = true := fun c hc =>
    Text.isDigit_of_mem_decimal (hdecimal ▸ hc)
  have hcount : Nat.ofDigitChars 10 digits (d.toNat - 48) = p.count := by
    have hvalue := Text.ofDigitChars_decimal p.count
    rw [hdecimal, Nat.ofDigitChars_cons, Nat.mul_zero, Nat.zero_add] at hvalue
    exact hvalue
  have hword : Nat.ofDigitChars 10 digits (d.toNat - 48) < 2 ^ 64 := by
    have hlength : 1 ≤ p.unit.length := by cases p.unit <;> decide
    rw [hcount]
    exact Nat.lt_of_le_of_lt (Nat.le_mul_of_pos_right _ hlength) hfits
  have htext : p.text ++ tail = d :: (digits ++ l :: (letters ++ tail)) := by
    rw [Phrase.text, hdecimal, hl]
    simp
  refine ⟨d.toNat - 48, ⟨offset + 1, digits ++ l :: (letters ++ tail)⟩, ?_, fun fuel => ?_⟩
  · rw [htext, firstDigit, Text.digit?_eq_some_iff.mpr ⟨hdigits d List.mem_cons_self, rfl⟩]
  · obtain ⟨read, hamount⟩ := amount_of_digits
      (fun c hc => hdigits c (List.mem_cons_of_mem d hc)) (hletters l (hl ▸ List.mem_cons_self))
      hword (letters ++ tail) (offset + 1)
    obtain ⟨passed, hunit⟩ := unitName_of_letters hletters htail [] read
    rw [hl, List.cons_append, List.reverse_nil, List.nil_append, ← hl,
      String.ofList_toList] at hunit
    refine ⟨passed, ?_⟩
    rw [partsFrom]
    simp only [hamount, hunit, hcount]
    exact termParts_of_phrase p hfits _ _

/-- The parts of the text of phrases are those of the phrases. -/
theorem partsFrom_textOf {p : Phrase} {phrases : List Phrase}
    (hfits : ∀ q ∈ p :: phrases, q.count * q.unit.length < 2 ^ 64) {fuel : Nat}
    (hfuel : phrases.length < fuel) (start offset : Nat) :
    ∃ digit cursor, firstDigit start offset (textOf (p :: phrases)) = .ok (some (digit, cursor)) ∧
      partsFrom fuel digit cursor = partsOfPhrases (p :: phrases) := by
  obtain ⟨fuel, rfl⟩ : ∃ n, fuel = n + 1 := ⟨fuel - 1, by omega⟩
  have hp := hfits p List.mem_cons_self
  induction phrases generalizing p fuel start offset with
  | nil =>
    obtain ⟨digit, cursor, hfirst, hparts⟩ := partsFrom_phrase p hp (Or.inl ⟨rfl, rfl⟩) start offset
    obtain ⟨passed, hparts⟩ := hparts fuel
    rw [textOf_cons, if_pos rfl]
    exact ⟨digit, cursor, hfirst, hparts⟩
  | cons q phrases ih =>
    obtain ⟨digit, cursor, hfirst, hparts⟩ :=
      partsFrom_phrase p hp (Or.inr (rfl : ' ' :: textOf (q :: phrases) = _)) start offset
    obtain ⟨passed, hparts⟩ := hparts fuel
    obtain ⟨fuel, rfl⟩ : ∃ n, fuel = n + 1 := ⟨fuel - 1, by simp at hfuel; omega⟩
    have hrest := fun r hr => hfits r (List.mem_cons_of_mem p hr)
    obtain ⟨digit', cursor', hfirst', hparts'⟩ := ih hrest passed passed fuel
      (by simpa using hfuel) (hrest q List.mem_cons_self)
    rw [textOf_cons, if_neg (List.cons_ne_nil q phrases)]
    refine ⟨digit, cursor, hfirst, ?_⟩
    rw [hparts, hfirst']
    exact congrArg p.part hparts'

theorem addTo_partsOfPhrases {phrases : List Phrase} (total : Span)
    (hword : ∀ p ∈ phrases, p.unit.isSubsecond = true → p.count * p.unit.length < 2 ^ 63)
    (hfits : total.nanos + nanosOf phrases < 2 ^ 64 * 10 ^ 9) :
    (partsOfPhrases phrases).addTo total = .ok ⟨total.nanos + nanosOf phrases, hfits⟩ := by
  induction phrases generalizing total with
  | nil => rfl
  | cons p phrases ih =>
    obtain ⟨hp, hword⟩ := List.forall_mem_cons.mp hword
    have hsum : nanosOf (p :: phrases) = p.nanos + nanosOf phrases := rfl
    have hstep : total.nanos + p.nanos < 2 ^ 64 * 10 ^ 9 := by omega
    have hnext : total.nanos + p.nanos + nanosOf phrases < 2 ^ 64 * 10 ^ 9 := by omega
    have hpart : (p.part (partsOfPhrases phrases)).addTo total =
        (partsOfPhrases phrases).addTo ⟨total.nanos + p.nanos, hstep⟩ := by
      unfold Phrase.part
      unfold Phrase.nanos at hstep ⊢
      split
      · next hunit =>
        have hfraction := total.fraction_lt
        have hsmall := hp hunit
        simp only [hunit, if_true] at hstep ⊢
        exact Parts.addTo_inNanos (by omega) hstep
      · next hunit =>
        simp only [hunit] at hstep ⊢
        exact Parts.addTo_inSeconds hstep
    have hparts : partsOfPhrases (p :: phrases) = p.part (partsOfPhrases phrases) := rfl
    rw [hparts, hpart, ih _ hword hnext]
    exact congrArg Except.ok (Span.ext (Nat.add_assoc ..))

theorem le_nanosOf {phrases : List Phrase} {p : Phrase} (h : p ∈ phrases) :
    p.nanos ≤ nanosOf phrases := by
  induction h with
  | head phrases => exact Nat.le_add_right _ _
  | tail q _ ih => exact ih.trans (Nat.le_add_left _ _)

/-- Phrases are read as what they stand for together. -/
theorem ofWords_textOf {phrases : List Phrase} (hne : phrases ≠ [])
    (hword : ∀ p ∈ phrases, p.unit.isSubsecond = true → p.count * p.unit.length < 2 ^ 63)
    (hfits : nanosOf phrases < 2 ^ 64 * 10 ^ 9) :
    Span.ofWords (textOf phrases) = .ok ⟨nanosOf phrases, hfits⟩ := by
  have hcounts : ∀ q ∈ phrases, q.count * q.unit.length < 2 ^ 64 := by
    intro q hq
    have hnanos := le_nanosOf hq
    unfold Phrase.nanos at hnanos
    split at hnanos
    · next hunit => exact (hword q hq hunit).trans (by decide)
    · omega
  have hfuel := length_le_textOf phrases
  have hsum := addTo_partsOfPhrases Span.zero hword
    (by simpa [Span.zero] using hfits)
  obtain ⟨p, phrases, rfl⟩ := List.exists_cons_of_ne_nil hne
  obtain ⟨digit, cursor, hfirst, hparts⟩ :=
    partsFrom_textOf hcounts (Nat.lt_of_succ_le hfuel) 0 0
  rw [← addTo_partsOf, partsOf, hfirst]
  simp only [hparts, hsum]
  exact congrArg Except.ok (Span.ext (Nat.zero_add _))

end Almanac.SpanText

namespace Almanac

/-- The name that a number of a unit is written with. -/
def SpanUnit.spelling (count : Nat) : SpanUnit → String
  | nanosecond => "ns"
  | microsecond => "us"
  | millisecond => "ms"
  | second => "s"
  | minute => "m"
  | hour => "h"
  | day => if count = 1 then "day" else "days"
  | week => if count = 1 then "week" else "weeks"
  | month => if count = 1 then "month" else "months"
  | year => if count = 1 then "year" else "years"

theorem SpanUnit.spelling_mem (count : Nat) (unit : SpanUnit) :
    unit.spelling count ∈ unit.names := by
  by_cases hone : count = 1 <;> cases unit <;> simp [spelling, names, hone]

namespace Span

open SpanText

/-- The phrase of a count, if it is not zero. -/
def phrase (count : Nat) (unit : SpanUnit) : List Phrase :=
  if count = 0 then [] else [⟨count, unit, unit.spelling count, unit.spelling_mem count⟩]

def phrases (s : Span) : List Phrase :=
  phrase (s.seconds / 31557600) .year ++ phrase (s.seconds % 31557600 / 2630016) .month ++
    phrase (s.seconds % 31557600 % 2630016 / 86400) .day ++
    phrase (s.seconds % 31557600 % 2630016 % 86400 / 3600) .hour ++
    phrase (s.seconds % 31557600 % 2630016 % 86400 % 3600 / 60) .minute ++
    phrase (s.seconds % 31557600 % 2630016 % 86400 % 60) .second ++
    phrase (s.fraction / 1000000) .millisecond ++ phrase (s.fraction / 1000 % 1000) .microsecond ++
    phrase (s.fraction % 1000) .nanosecond

theorem wordsTerm_eq (unit : SpanUnit) {count : Nat} {one many : String}
    (h : unit.spelling count = if count = 1 then one else many) :
    (wordsTerm count one many).map String.toList = (phrase count unit).map Phrase.text := by
  unfold wordsTerm phrase
  split
  · rfl
  · simp [Phrase.text, h, Nat.toString_eq_repr, Nat.repr_eq_ofList_toDigits, Text.decimal]

theorem wordsTerms_eq (s : Span) : s.wordsTerms.map String.toList = s.phrases.map Phrase.text := by
  simp only [wordsTerms, phrases, List.map_append]
  rw [wordsTerm_eq .year rfl, wordsTerm_eq .month rfl, wordsTerm_eq .day rfl,
    wordsTerm_eq .hour (by simp [SpanUnit.spelling]),
    wordsTerm_eq .minute (by simp [SpanUnit.spelling]),
    wordsTerm_eq .second (by simp [SpanUnit.spelling]),
    wordsTerm_eq .millisecond (by simp [SpanUnit.spelling]),
    wordsTerm_eq .microsecond (by simp [SpanUnit.spelling]),
    wordsTerm_eq .nanosecond (by simp [SpanUnit.spelling])]

theorem nanosOf_append (a b : List Phrase) : nanosOf (a ++ b) = nanosOf a + nanosOf b := by
  simp [nanosOf]

theorem nanosOf_phrase (count : Nat) (unit : SpanUnit) :
    nanosOf (phrase count unit) =
      if unit.isSubsecond then count * unit.length else count * unit.length * 10 ^ 9 := by
  unfold phrase
  split
  · next h =>
    rw [h]
    simp [nanosOf]
  · simp [nanosOf, Phrase.nanos]

/-- The phrases of a span stand for it. -/
theorem nanosOf_phrases (s : Span) : nanosOf s.phrases = s.nanos := by
  have hclock (n : Nat) : n / 3600 * 3600 + n % 3600 / 60 * 60 + n % 60 = n := by omega
  have hsubsecond (n : Nat) :
      n / 1000000 * 1000000 + n / 1000 % 1000 * 1000 + n % 1000 = n := by omega
  rw [phrases]
  simp only [nanosOf_append, nanosOf_phrase, SpanUnit.isSubsecond, SpanUnit.length,
    if_true, if_false, Bool.false_eq_true]
  linear_combination 10 ^ 9 * (Nat.div_add_mod' s.seconds 31557600 +
    Nat.div_add_mod' (s.seconds % 31557600) 2630016 +
    Nat.div_add_mod' (s.seconds % 31557600 % 2630016) 86400 +
    hclock (s.seconds % 31557600 % 2630016 % 86400)) + hsubsecond s.fraction + seconds_fraction s

theorem mem_phrase {count : Nat} {unit : SpanUnit} {p : Phrase} (h : p ∈ phrase count unit) :
    p.count = count ∧ p.unit = unit := by
  unfold phrase at h
  split at h
  · cases h
  · cases List.mem_singleton.mp h
    exact ⟨rfl, rfl⟩

/-- What is below a second comes to less than one. -/
theorem phrases_lt {s : Span} {p : Phrase} (hp : p ∈ s.phrases)
    (hunit : p.unit.isSubsecond = true) : p.count * p.unit.length < 2 ^ 63 := by
  have hfraction := s.fraction_lt
  simp only [phrases, List.mem_append] at hp
  rcases hp with (((((((hp | hp) | hp) | hp) | hp) | hp) | hp) | hp) | hp
  all_goals
    obtain ⟨hcount, hname⟩ := mem_phrase hp
    rw [hname] at hunit ⊢
    rw [hcount]
    first
    | cases hunit; done
    | simp only [SpanUnit.length]; omega

/-- The words of a span are the text of phrases that stand for it. -/
theorem exists_phrases (s : Span) :
    ∃ phrases, phrases ≠ [] ∧ s.words.toList = textOf phrases ∧ nanosOf phrases = s.nanos ∧
      ∀ p ∈ phrases, p.unit.isSubsecond = true → p.count * p.unit.length < 2 ^ 63 := by
  by_cases hzero : s.isZero = true
  · have hnanos : s.nanos = 0 := by simpa [isZero] using hzero
    refine ⟨[⟨0, .second, "s", by decide⟩], List.cons_ne_nil _ _, ?_, ?_, ?_⟩
    · rw [words, if_pos hzero]
      decide +kernel
    · rw [hnanos]
      rfl
    · intro p hp hunit
      cases List.mem_singleton.mp hp
      cases hunit
  · refine ⟨s.phrases, ?_, ?_, nanosOf_phrases s, fun p hp => phrases_lt hp⟩
    · intro hnil
      have hnanos := nanosOf_phrases s
      rw [hnil] at hnanos
      simp [isZero, ← hnanos, nanosOf] at hzero
    · rw [words, if_neg hzero, String.toList_intercalate, wordsTerms_eq]
      rfl

/-- Writing a span in words loses nothing. -/
theorem ofWords_words (s : Span) : ofWords s.words.toList = .ok s := by
  obtain ⟨phrases, hne, htext, hnanos, hword⟩ := s.exists_phrases
  rw [htext, ofWords_textOf hne hword (hnanos ▸ s.nanos_lt)]
  exact congrArg Except.ok (Span.ext hnanos)

theorem words_not_blank (s : Span) : ¬Text.isBlankText s.words.toList = true := by
  obtain ⟨phrases, hne, htext, -, -⟩ := s.exists_phrases
  have hlength : 0 < s.words.toList.length := by
    rw [htext]
    exact Nat.lt_of_lt_of_le (List.length_pos_iff.mpr hne) (length_le_textOf phrases)
  obtain ⟨c, rest, hc⟩ := List.exists_cons_of_ne_nil (List.length_pos_iff.mp hlength)
  have hblank := Text.isBlank_of_isDigit (isDigit_of_head (by rw [← htext, hc]; rfl : c ∈ _))
  intro hall
  rw [hc] at hall
  rw [List.all_eq_true.mp hall c List.mem_cons_self] at hblank
  cases hblank

end Span

/-- The words of a period are read as it. -/
theorem periodOfText_words (s : Span) : periodOfText s.words = .ok s := by
  obtain ⟨phrases, hne, htext, -, -⟩ := s.exists_phrases
  have htrim : Text.trim s.words.toList = s.words.toList := by
    rw [htext]
    refine Text.trim_eq_self (fun c hc => ?_) fun c hc => ?_
    · exact Text.isBlank_of_isDigit (SpanText.isDigit_of_head hc)
    · exact (SpanText.unitLetter_spec (SpanText.isUnitLetter_of_getLast hne hc)).2.2
  have hnot : s.words.toList ≠ ['0'] := by
    rw [htext]
    intro hzero
    have hletter := SpanText.isUnitLetter_of_getLast hne (c := '0') (by rw [hzero]; rfl)
    exact absurd hletter (by decide)
  rw [periodOfText_eq, htrim, if_neg hnot, Span.ofWords_words]
  rfl

end Almanac
