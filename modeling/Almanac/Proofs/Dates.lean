import Almanac.Time.Calendar

/-!
# Dates and their numbers

The date of a number has that number, and is one that the calendar has. The arithmetic goes through
eras of 400 years that begin in March, whose days are parted into years, and those into months.
-/

namespace Almanac.Date

/-- The year of a day of a century `q`, all years of it counted. -/
theorem yearInCentury_spec {q r t z : Nat} (hq : q ≤ 3) (hr : r < 36524)
    (ht : (24 * q + r) / 1460 = t) (hz : (r - t) / 365 = z) :
    z ≤ 99 ∧ 365 * z + z / 4 ≤ r ∧ r < 365 * (z + 1) + (z + 1) / 4 := by
  have htle : 1460 * t ≤ 24 * q + r ∧ 24 * q + r < 1460 * t + 1460 := by omega
  have hzle : 365 * z ≤ r - t ∧ r - t < 365 * z + 365 := by omega
  clear ht hz
  have htr : t ≤ r := by omega
  have hquarter : z / 4 ≤ t := by omega
  have hnext : t ≤ (z + 1) / 4 := by omega
  omega

/-- The year of a day of an era, and the day of that year: a year has a day 365 only if it ends in
a leap day. -/
theorem yearInEra_spec {e y d : Nat} (he : e < 146097)
    (hy : (e - e / 1460 + e / 36524 - e / 146096) / 365 = y)
    (hd : e - (365 * y + y / 4 - y / 100) = d) :
    y ≤ 399 ∧ 365 * y + y / 4 - y / 100 + d = e ∧ d ≤ 365 ∧
      (d = 365 → (y + 1) % 4 = 0 ∧ ((y + 1) % 100 ≠ 0 ∨ y = 399)) := by
  by_cases hlast : e = 146096
  · subst hlast
    subst hy
    subst hd
    decide
  · obtain ⟨q, r, hr, rfl⟩ : ∃ q r, r < 36524 ∧ 36524 * q + r = e :=
      ⟨e / 36524, e % 36524, Nat.mod_lt _ (by decide), Nat.div_add_mod e 36524⟩
    have hq : q ≤ 3 := by omega
    obtain ⟨t, ht⟩ : ∃ t, (24 * q + r) / 1460 = t := ⟨_, rfl⟩
    obtain ⟨z, hz⟩ : ∃ z, (r - t) / 365 = z := ⟨_, rfl⟩
    have hyear : 100 * q + z = y := by
      have hleap : (36524 * q + r) / 1460 = 25 * q + t := by omega
      have hcentury : (36524 * q + r) / 36524 = q := by omega
      have hera : (36524 * q + r) / 146096 = 0 := by omega
      have htr : t ≤ r := by omega
      have hdays : 36524 * q + r - (25 * q + t) + q - 0 = 365 * (100 * q) + (r - t) := by omega
      rw [hleap, hcentury, hera, hdays, Nat.mul_add_div (by decide), hz] at hy
      exact hy
    obtain ⟨hz99, hlow, hhigh⟩ := yearInCentury_spec hq hr ht hz
    clear hy ht hz
    have hquarter : y / 4 = 25 * q + z / 4 := by omega
    have hcentury : y / 100 = q := by omega
    have hday : d = r - (365 * z + z / 4) := by omega
    refine ⟨by omega, by omega, by omega, fun hlong => ?_⟩
    have hlong : r = 365 * z + z / 4 + 365 := by omega
    clear hquarter hcentury hday hd
    have hz98 : z ≤ 98 := by omega
    have hfour : z + 1 = 4 * ((z + 1) / 4) := by omega
    rw [← hyear]
    exact ⟨by omega, Or.inl (by omega)⟩

/-- The date of a day, from its era, the year of the era and the day of the year, both from
March. -/
theorem ofDay_spec (n : Int) :
    ∃ (era : Int) (y d : Nat), y ≤ 399 ∧ d ≤ 365 ∧
      (d = 365 → isLeapYear (era * 400 + y + 1) = true) ∧
      n + 719468 = era * 146097 + (365 * y + y / 4 - y / 100 + d : Nat) ∧
      ofDay n =
        if (5 * d + 2) / 153 < 10 then
          ⟨era * 400 + y, (5 * d + 2) / 153 + 3, d - (153 * ((5 * d + 2) / 153) + 2) / 5 + 1⟩
        else
          ⟨era * 400 + y + 1, (5 * d + 2) / 153 - 9,
            d - (153 * ((5 * d + 2) / 153) + 2) / 5 + 1⟩ := by
  -- the day of the era, the year of the era and the day of the year
  obtain ⟨e, he⟩ : ∃ e, ((n + 719468) % 146097).toNat = e := ⟨_, rfl⟩
  obtain ⟨y, hy⟩ : ∃ y, (e - e / 1460 + e / 36524 - e / 146096) / 365 = y := ⟨_, rfl⟩
  obtain ⟨d, hd⟩ : ∃ d, e - (365 * y + y / 4 - y / 100) = d := ⟨_, rfl⟩
  obtain ⟨hy399, hsum, hd365, hleap⟩ := yearInEra_spec (by omega) hy hd
  refine ⟨(n + 719468) / 146097, y, d, hy399, hd365, fun hlong => ?_, ?_, ?_⟩
  · obtain ⟨hfour, hcentury⟩ := hleap hlong
    simp only [isLeapYear, Bool.and_eq_true, Bool.or_eq_true, beq_iff_eq, bne_iff_ne]
    omega
  · rw [hsum]
    omega
  · simp only [ofDay, he, hy, hd]
    split
    · next hm =>
      have hlate : ¬(5 * d + 2) / 153 + 3 ≤ 2 := by omega
      rw [if_neg hlate, Int.add_zero]
    · next hm =>
      have hearly : (5 * d + 2) / 153 - 9 ≤ 2 := by omega
      rw [if_pos hearly]

/-- Numbering the date of a number gives the number back. -/
theorem dayNumber_ofDay (n : Int) : (ofDay n).dayNumber = n := by
  obtain ⟨era, y, d, hy, hd, -, hn, hdate⟩ := ofDay_spec n
  obtain ⟨m, hm⟩ : ∃ m, (5 * d + 2) / 153 = m := ⟨_, rfl⟩
  rw [hdate, hm]
  have hm11 : m ≤ 11 := by omega
  have hday : (153 * m + 2) / 5 ≤ d := by omega
  have hmarch : daysBeforeMarch (era * 400 + y) =
      era * 146097 + (365 * y + y / 4 - y / 100 : Nat) := by
    have hfour : (era * 400 + y) / 4 = era * 100 + (y / 4 : Nat) := by omega
    have hcentury : (era * 400 + y) / 100 = era * 4 + (y / 100 : Nat) := by omega
    have hera : (era * 400 + y) / 400 = era := by omega
    rw [daysBeforeMarch, hfour, hcentury, hera]
    omega
  split
  · next hearly =>
    have hyear : ¬m + 3 ≤ 2 := by omega
    have hmonth : (m + 3 + 9) % 12 = m := by omega
    simp only [dayNumber, hyear, if_false, hmonth, hmarch]
    omega
  · next hlate =>
    have hyear : m - 9 ≤ 2 := by omega
    have hmonth : (m - 9 + 9) % 12 = m := by omega
    simp only [dayNumber, hyear, if_true, hmonth, Int.add_sub_cancel, hmarch]
    omega

theorem isValid_ofDay (n : Int) : (ofDay n).isValid = true := by
  obtain ⟨era, y, d, hy, hd, hleap, -, hdate⟩ := ofDay_spec n
  obtain ⟨m, hm⟩ : ∃ m, (5 * d + 2) / 153 = m := ⟨_, rfl⟩
  rw [hdate, hm]
  have hm11 : m = 0 ∨ m = 1 ∨ m = 2 ∨ m = 3 ∨ m = 4 ∨ m = 5 ∨ m = 6 ∨ m = 7 ∨ m = 8 ∨ m = 9 ∨
      m = 10 ∨ m = 11 := by omega
  have hfebruary : d ≤ 336 + if isLeapYear (era * 400 + y + 1) then 29 else 28 := by
    split
    · exact hd
    · next hcommon =>
      have hshort : d ≠ 365 := fun hlong => hcommon (hleap hlong)
      omega
  rcases hm11 with rfl | rfl | rfl | rfl | rfl | rfl | rfl | rfl | rfl | rfl | rfl | rfl <;>
    simp only [isValid, monthLength, Bool.and_eq_true, decide_eq_true_eq, Nat.reduceLT,
      Nat.reduceAdd, Nat.reduceSub, if_true, if_false] <;>
    omega

/-- The years of the days that instants have. -/
theorem year_ofDay {n : Int} (hfirst : -96465292 ≤ n) (hlast : n ≤ 95026236) :
    -262143 ≤ (ofDay n).year ∧ (ofDay n).year ≤ 262142 := by
  obtain ⟨era, y, d, hy, hd, -, hn, hdate⟩ := ofDay_spec n
  have hera : era = -656 ∨ -655 ≤ era ∧ era ≤ 654 ∨ era = 655 := by omega
  have hlow : era = -656 → 257 ≤ y ∨ y = 256 ∧ 306 ≤ d := by
    rintro rfl
    rcases Nat.lt_trichotomy y 256 with h | rfl | h <;> omega
  have hhigh : era = 655 → y ≤ 141 ∨ y = 142 ∧ d ≤ 305 := by
    rintro rfl
    rcases Nat.lt_trichotomy y 142 with h | rfl | h <;> omega
  clear hn
  rw [hdate]
  split
  · next hearly =>
    dsimp only
    omega
  · next hlate =>
    dsimp only
    omega

end Almanac.Date
