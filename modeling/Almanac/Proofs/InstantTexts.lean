import Almanac.Proofs.Dates
import Almanac.Time.InstantText
import Almanac.Time.IsoReader

/-!
# Instants in print, read back

The form of data of an instant is read as that instant, to the nanosecond: years with a sign and
more than four digits, fractions of 3, 6 or 9 digits and second 60 included.
-/

namespace Almanac

namespace IsoReader

variable {digits rest : List Char}

/-- Digits are read up to the width of the number, or up to what is no digit. -/
theorem moreDigits_of_digits {width : Nat} (value : Nat) (hdigits : ∀ c ∈ digits, c.isDigit = true)
    (hfits : Nat.ofDigitChars 10 digits value < 2 ^ 63)
    (hwidth : digits.length = width ∨
      digits.length ≤ width ∧ ∀ c ∈ rest.head?, c.isDigit = false) :
    moreDigits width value (digits ++ rest) = .ok (Nat.ofDigitChars 10 digits value, rest) := by
  induction digits generalizing width value with
  | nil =>
    cases width with
    | zero => rfl
    | succ width =>
      have hend := (hwidth.resolve_left (Nat.succ_ne_zero width).symm).2
      cases rest with
      | nil => rfl
      | cons c rest =>
        rw [List.nil_append, moreDigits, Text.digit?, hend c rfl]
        rfl
  | cons d digits ih =>
    obtain ⟨hd, hdigits⟩ := List.forall_mem_cons.mp hdigits
    rw [List.length_cons] at hwidth
    obtain ⟨width, rfl⟩ : ∃ n, width = n + 1 := ⟨width - 1, by omega⟩
    have hnext : 10 * value + (d.toNat - 48) < 2 ^ 63 :=
      Nat.lt_of_le_of_lt (Text.le_ofDigitChars digits _) hfits
    have hmore := ih (10 * value + (d.toNat - 48)) hdigits hfits
      (hwidth.imp Nat.succ_inj.mp fun h => ⟨Nat.succ_le_succ_iff.mp h.1, h.2⟩)
    simp only [List.cons_append, moreDigits, Text.digit?_eq_some_iff.mpr ⟨hd, rfl⟩, hnext, if_true,
      hmore]
    rfl

theorem number_of_digits {width : Nat} (hne : digits ≠ [])
    (hdigits : ∀ c ∈ digits, c.isDigit = true)
    (hfits : Nat.ofDigitChars 10 digits 0 < 2 ^ 63)
    (hwidth : digits.length = width ∨
      digits.length ≤ width ∧ ∀ c ∈ rest.head?, c.isDigit = false) :
    number width (digits ++ rest) = .ok (Nat.ofDigitChars 10 digits 0, rest) := by
  obtain ⟨d, digits, rfl⟩ := List.exists_cons_of_ne_nil hne
  obtain ⟨hd, hdigits⟩ := List.forall_mem_cons.mp hdigits
  rw [List.length_cons] at hwidth
  have hvalue : Nat.ofDigitChars 10 (d :: digits) 0 =
      Nat.ofDigitChars 10 digits (d.toNat - 48) := by
    rw [Nat.ofDigitChars_cons, Nat.mul_zero, Nat.zero_add]
    rfl
  rw [List.cons_append, number, Text.digit?_eq_some_iff.mpr ⟨hd, rfl⟩, hvalue]
  exact moreDigits_of_digits _ hdigits (hvalue ▸ hfits)
    (hwidth.imp (fun h => by omega) fun h => ⟨by omega, h.2⟩)

theorem trimStart_of_digits (hne : digits ≠ []) (hdigits : ∀ c ∈ digits, c.isDigit = true) :
    Text.trimStart (digits ++ rest) = digits ++ rest := by
  obtain ⟨d, digits, rfl⟩ := List.exists_cons_of_ne_nil hne
  exact Text.trimStart_of_head (Text.isBlank_of_isDigit (hdigits d List.mem_cons_self))

/-- Two digits are a field if they keep its limits. -/
theorem looseField_padded {least most n : Nat} (hleast : least ≤ n) (hmost : n ≤ most)
    (hn : n < 100) (rest : List Char) :
    looseField least most (Text.padded 2 n ++ rest) = .ok (n, rest) := by
  have hne : Text.padded 2 n ≠ [] := List.ne_nil_of_length_pos (by rw [Text.length_padded]; decide)
  have hdigits : ∀ c ∈ Text.padded 2 n, c.isDigit = true := fun c => Text.isDigit_of_mem_padded
  have hvalue : Nat.ofDigitChars 10 (Text.padded 2 n) 0 = n := by
    rw [Text.ofDigitChars_padded, Nat.mod_eq_of_lt hn]
  have hnumber : number 2 (Text.padded 2 n ++ rest) = .ok (n, rest) := by
    rw [number_of_digits hne hdigits (by rw [hvalue]; omega) (Or.inl (Text.length_padded 2 n)),
      hvalue]
  have hlimits : (decide (least ≤ n) && decide (n ≤ most)) = true := by simp [hleast, hmost]
  rw [looseField, trimStart_of_digits hne hdigits, hnumber]
  simp only [bind, Except.bind, require, hlimits, if_true]

theorem looseSeparator_of_head {c : Char} (hc : Text.isBlank c = false) (rest : List Char) :
    looseSeparator c (c :: rest) = .ok rest := by
  rw [looseSeparator, Text.trimStart_of_head hc, separator, if_pos rfl]

/-- The digits of a year, four at least. -/
def yearDigits (n : Nat) : List Char :=
  List.replicate (4 - (Text.decimal n).length) '0' ++ Text.decimal n

theorem yearDigits_spec (n : Nat) :
    yearDigits n ≠ [] ∧ (∀ c ∈ yearDigits n, c.isDigit = true) ∧
      Nat.ofDigitChars 10 (yearDigits n) 0 = n := by
  refine ⟨by simp [yearDigits, Text.decimal_ne_nil], fun c hc => ?_, ?_⟩
  · rcases List.mem_append.mp hc with hc | hc
    · rw [List.eq_of_mem_replicate hc]
      rfl
    · exact Text.isDigit_of_mem_decimal hc
  · rw [yearDigits, Nat.ofDigitChars_append, Nat.ofDigitChars_replicate_zero, Nat.mul_zero,
      Text.ofDigitChars_decimal]

theorem length_yearDigits {n : Nat} (h : n ≤ 9999) : (yearDigits n).length = 4 := by
  have hfew : (Text.decimal n).length ≤ 4 :=
    (Nat.length_toDigits_le_iff (by decide) (by decide)).mpr (by omega)
  rw [yearDigits, List.length_append, List.length_replicate]
  omega

/-- A year is read as it is written, with a sign where it has one. -/
theorem looseYear_yearText {year : Int} (hlow : -2 ^ 31 ≤ year) (hhigh : year < 2 ^ 31)
    (hrest : ∀ c ∈ rest.head?, c.isDigit = false) :
    looseYear (Text.trimStart (yearText year ++ rest)) = .ok (year, rest) := by
  obtain ⟨hne, hdigits, hvalue⟩ := yearDigits_spec year.natAbs
  have hfits : Nat.ofDigitChars 10 (yearDigits year.natAbs) 0 < 2 ^ 63 := by rw [hvalue]; omega
  have hlong : number (yearDigits year.natAbs ++ rest).length (yearDigits year.natAbs ++ rest) =
      .ok (year.natAbs, rest) := by
    rw [number_of_digits hne hdigits hfits (.inr ⟨by simp, hrest⟩), hvalue]
  rw [yearText]
  change looseYear (Text.trimStart ((if 0 ≤ year ∧ year ≤ 9999 then yearDigits year.natAbs
    else (if year < 0 then '-' else '+') :: yearDigits year.natAbs) ++ rest)) = _
  split
  · next hplain =>
    have hfour : number 4 (yearDigits year.natAbs ++ rest) = .ok (year.natAbs, rest) := by
      rw [number_of_digits hne hdigits hfits (.inl (length_yearDigits (by omega))), hvalue]
    rw [trimStart_of_digits hne hdigits]
    obtain ⟨d, digits, hd⟩ := List.exists_cons_of_ne_nil hne
    have hdigit : d.isDigit = true := hdigits d (hd ▸ List.mem_cons_self)
    rw [hd, List.cons_append] at hfour ⊢
    rw [looseYear.eq_3 _ (fun s h => by cases h; cases hdigit)
      (fun s h => by cases h; cases hdigit), hfour]
    exact congrArg (fun y => Except.ok (y, rest)) (Int.natAbs_of_nonneg hplain.1)
  · next hsigned =>
    by_cases hneg : year < 0
    · rw [if_pos hneg, List.cons_append, Text.trimStart_of_head rfl, looseYear, hlong]
      exact congrArg (fun y => Except.ok (y, rest)) (by omega)
    · rw [if_neg hneg, List.cons_append, Text.trimStart_of_head rfl, looseYear, hlong]
      exact congrArg (fun y => Except.ok (y, rest)) (by omega)

/-- Up to nine digits after the point count as the first digits of nine. -/
theorem nanoseconds_padded {width n : Nat} (hpos : 0 < width) (hnine : width ≤ 9)
    (hn : n < 10 ^ width) (hrest : ∀ c ∈ rest.head?, c.isDigit = false) :
    nanoseconds (Text.padded width n ++ rest) = .ok (n * 10 ^ (9 - width), rest) := by
  have hlength := Text.length_padded width n
  have hvalue : Nat.ofDigitChars 10 (Text.padded width n) 0 = n := by
    rw [Text.ofDigitChars_padded, Nat.mod_eq_of_lt hn]
  have hfits : n < 2 ^ 63 :=
    Nat.lt_of_lt_of_le hn (Nat.le_trans (Nat.pow_le_pow_right (by decide) hnine) (by decide))
  have hnumber : number 9 (Text.padded width n ++ rest) = .ok (n, rest) := by
    rw [number_of_digits (List.ne_nil_of_length_pos (hlength.symm ▸ hpos))
      (fun c => Text.isDigit_of_mem_padded) (by rwa [hvalue]) (.inr ⟨by omega, hrest⟩), hvalue]
  have hdrop : rest.dropWhile Char.isDigit = rest := by
    cases rest with
    | nil => rfl
    | cons c rest => exact List.dropWhile_cons_of_neg (by rw [hrest c rfl]; decide)
  rw [nanoseconds, hnumber]
  change Except.ok (n * 10 ^ (9 - ((Text.padded width n ++ rest).length - rest.length)),
    rest.dropWhile Char.isDigit) = _
  rw [hdrop, List.length_append, hlength, Nat.add_sub_cancel]

/-- The fraction of a second is read as it is written. -/
theorem fraction_fractionText {nano : Nat} (hnano : nano < 10 ^ 9) (rest : List Char)
    (hrest : ∀ c ∈ rest.head?, c.isDigit = false ∧ c ≠ '.') :
    fraction (fractionText nano ++ rest) = .ok (nano, rest) := by
  have hend : ∀ c ∈ rest.head?, c.isDigit = false := fun c hc => (hrest c hc).1
  rw [fractionText]
  split
  · next hzero =>
    rw [List.nil_append, fraction.eq_2 _ (fun s hs => (hrest '.' (by rw [hs]; rfl)).2 rfl), hzero]
  · split
    · rw [List.cons_append, fraction, nanoseconds_padded (by decide) (by decide) (by omega) hend]
      exact congrArg (fun n => Except.ok (n, rest)) (by omega)
    · split
      · rw [List.cons_append, fraction, nanoseconds_padded (by decide) (by decide) (by omega) hend]
        exact congrArg (fun n => Except.ok (n, rest)) (by omega)
      · rw [List.cons_append, fraction, nanoseconds_padded (by decide) (by decide) hnano hend]
        exact congrArg (fun n => Except.ok (n, rest)) (by omega)

end IsoReader

namespace Instant

open IsoReader

/-- Hours, minutes and seconds in print, a leap second as second 60, are the time of day. -/
theorem timeOfDay_fields (t : Instant) :
    timeOfDay (t.second / 3600) (t.second / 60 % 60)
      (t.second % 60 + if t.inLeapSecond then 1 else 0)
      (t.nano - (if t.inLeapSecond then 1 else 0) * 10 ^ 9) = .ok (t.second, t.nano) := by
  have hsecond := t.second_lt
  have hfields : (t.second / 3600 * 60 + t.second / 60 % 60) * 60 + t.second % 60 = t.second := by
    omega
  cases hleap : t.inLeapSecond with
  | true =>
    have hnano : 10 ^ 9 ≤ t.nano := of_decide_eq_true hleap
    have hlast := t.leap_second hnano
    have hlimits : (decide (t.second / 3600 ≤ 23) && decide (t.second / 60 % 60 ≤ 59) &&
        decide (60 ≤ 60)) = true := by
      simp only [Bool.and_eq_true, decide_eq_true_eq]
      omega
    rw [hlast] at hfields ⊢
    simp only [timeOfDay, bind, Except.bind, require, if_true, hlimits, hfields, Nat.one_mul,
      Nat.add_sub_cancel' hnano]
  | false =>
    have hlimits : (decide (t.second / 3600 ≤ 23) && decide (t.second / 60 % 60 ≤ 59) &&
        decide (t.second % 60 ≤ 60)) = true := by
      simp only [Bool.and_eq_true, decide_eq_true_eq]
      omega
    have hplain : t.second % 60 ≠ 60 := by omega
    simp only [timeOfDay, bind, Except.bind, require, Bool.false_eq_true, if_false, Nat.add_zero,
      hlimits, if_true, if_neg hplain, hfields, Nat.zero_mul, Nat.sub_zero]

theorem of?_self (t : Instant) : of? t.day t.second t.nano = some t :=
  dif_pos ⟨t.day_ge, t.day_le, t.second_lt, t.nano_lt, t.leap_second⟩

/-- The date and the time of day of an instant make up the instant. -/
theorem assemble_date (t : Instant) : assemble t.date (t.second, t.nano) 0 = .ok t := by
  have hyear := Date.year_ofDay t.day_ge t.day_le
  have hdate : (t.date.isValid && -262143 ≤ t.date.year && t.date.year ≤ 262142) = true := by
    simp only [Bool.and_eq_true, decide_eq_true_eq]
    exact ⟨⟨Date.isValid_ofDay t.day, hyear.1⟩, hyear.2⟩
  have hday : (t.day * 86400 + t.second - 0 * 60) / 86400 = t.day := by
    have := t.second_lt
    omega
  have hsecond : ((t.day * 86400 + t.second - 0 * 60) % 86400).toNat = t.second := by
    have := t.second_lt
    omega
  have hnumber : t.date.dayNumber = t.day := Date.dayNumber_ofDay t.day
  simp only [assemble, bind, Except.bind, require, hdate, if_true, Int.natAbs_zero,
    Nat.zero_lt_succ, decide_true, hnumber, hday, hsecond, of?_self]

/-- The fraction of a second is below a second once a leap second is written as second 60. -/
theorem fraction_lt (t : Instant) :
    t.nano - (if t.inLeapSecond then 1 else 0) * 10 ^ 9 < 10 ^ 9 := by
  have hnano := t.nano_lt
  split
  · omega
  · next hplain =>
    have := of_decide_eq_false (eq_false_of_ne_true hplain)
    omega

theorem date_in_limits (t : Instant) :
    1 ≤ t.date.month ∧ t.date.month ≤ 12 ∧ 1 ≤ t.date.day ∧ t.date.day ≤ 31 := by
  have hvalid : t.date.isValid = true := Date.isValid_ofDay t.day
  simp only [Date.isValid, Bool.and_eq_true, decide_eq_true_eq] at hvalid
  obtain ⟨⟨⟨hfirst, hlast⟩, hday⟩, hlength⟩ := hvalid
  refine ⟨hfirst, hlast, hday, Nat.le_trans hlength ?_⟩
  unfold Date.monthLength
  split <;> try split
  all_goals decide

/-- A year, five fields and a fraction are read from their places in the form of data. -/
theorem ofLooseIso_of_fields {year : Int} {month day hour minute second nano : Nat}
    (hyear : -262143 ≤ year ∧ year ≤ 262142) (hmonth : 1 ≤ month ∧ month ≤ 12)
    (hday : 1 ≤ day ∧ day ≤ 31) (hhour : hour ≤ 23) (hminute : minute ≤ 59) (hsecond : second ≤ 60)
    (hnano : nano < 10 ^ 9) :
    ofLooseIso (yearText year ++ ('-' :: (Text.padded 2 month ++ ('-' :: (Text.padded 2 day ++
      ('T' :: (Text.padded 2 hour ++ (':' :: (Text.padded 2 minute ++ (':' ::
      (Text.padded 2 second ++ (fractionText nano ++ ['Z']))))))))))))
      = timeOfDay hour minute second nano >>= fun time => assemble ⟨year, month, day⟩ time 0 := by
  have hlow : -2 ^ 31 ≤ year := by omega
  have hhigh : year < 2 ^ 31 := by omega
  have hlimits : (decide (-2 ^ 31 ≤ year) && decide (year < 2 ^ 31)) = true := by
    rw [decide_eq_true hlow, decide_eq_true hhigh]
    rfl
  have hfraction := fraction_fractionText hnano ['Z'] (by simp)
  have hoffset : looseOffset (Text.trimStart ['Z']) = .ok (0, []) := rfl
  have hfill : Text.isBlankText [] = true := rfl
  rw [ofLooseIso, looseYear_yearText hlow hhigh (by simp)]
  simp only [bind, Except.bind, require, hlimits, if_true, true_or, hfraction, hoffset, hfill,
    looseSeparator_of_head (rfl : Text.isBlank '-' = false),
    looseSeparator_of_head (rfl : Text.isBlank ':' = false),
    looseField_padded hmonth.1 hmonth.2 (by omega), looseField_padded hday.1 hday.2 (by omega),
    looseField_padded (Nat.zero_le _) hhour (by omega),
    looseField_padded (Nat.zero_le _) hminute (by omega),
    looseField_padded (Nat.zero_le _) hsecond (by omega)]

/-- **Printing an instant and reading it is the identity**, years with a sign and leap seconds
included. -/
theorem ofLooseIso_isoText (t : Instant) : ofLooseIso t.isoText = .ok t := by
  have hyear := Date.year_ofDay t.day_ge t.day_le
  obtain ⟨hmonth, hmonth', hday, hday'⟩ := t.date_in_limits
  have hsecond := t.second_lt
  have hlast : t.second % 60 + (if t.inLeapSecond then 1 else 0) ≤ 60 := by split <;> omega
  have hfields := ofLooseIso_of_fields hyear ⟨hmonth, hmonth'⟩ ⟨hday, hday'⟩
    (by omega : t.second / 3600 ≤ 23) (by omega : t.second / 60 % 60 ≤ 59) hlast t.fraction_lt
  rw [t.timeOfDay_fields] at hfields
  rw [isoText, Date.text, clockText]
  simp only [List.append_assoc, List.cons_append]
  exact hfields.trans t.assemble_date

end Instant

end Almanac
