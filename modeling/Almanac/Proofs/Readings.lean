import Almanac.Timetable.Basic

/-!
# Reading the clock

A clock that was not set going inside a leap second never shows one. It moves with the timers as
long as nothing shifts it, so that its readings are as far apart as the milliseconds that passed.
-/

namespace Almanac

namespace Instant

variable {x y : Instant} {n m : Int}

theorem inLeapSecond_eq_false_iff : x.inLeapSecond = false ↔ x.nano < 10 ^ 9 := by
  simp [inLeapSecond]

/-- Where there is an instant so long after 1970, it is outside leap seconds. -/
theorem ofEpoch?_eq_some (h : ofEpoch? n = some x) :
    x.sinceEpoch = n ∧ x.inLeapSecond = false := by
  simp only [ofEpoch?, of?] at h
  split at h
  · cases h
    rw [inLeapSecond_eq_false_iff]
    simp only [sinceEpoch, dayNanos]
    omega
  · cases h

/-- Outside leap seconds an instant is where its nanoseconds after 1970 say, and there only. -/
theorem ofEpoch?_eq_some_iff :
    ofEpoch? n = some x ↔ x.sinceEpoch = n ∧ x.inLeapSecond = false := by
  refine ⟨ofEpoch?_eq_some, ?_⟩
  rintro ⟨rfl, plain⟩
  rw [inLeapSecond_eq_false_iff] at plain
  have hsecond := x.second_lt
  have hday : x.sinceEpoch / dayNanos = x.day := by
    simp only [sinceEpoch, dayNanos]
    omega
  have hin : (x.sinceEpoch % dayNanos).toNat = x.second * 10 ^ 9 + x.nano := by
    simp only [sinceEpoch, dayNanos]
    omega
  have hparts : (x.sinceEpoch % dayNanos).toNat / 10 ^ 9 = x.second ∧
      (x.sinceEpoch % dayNanos).toNat % 10 ^ 9 = x.nano := by
    rw [hin]
    omega
  rw [ofEpoch?, hday, hparts.1, hparts.2, of?,
    dif_pos ⟨x.day_ge, x.day_le, x.second_lt, x.nano_lt, x.leap_second⟩]

/-- The days decide whether there is an instant so long after 1970. -/
theorem isSome_ofEpoch?_iff :
    (ofEpoch? n).isSome = true ↔ firstDay ≤ n / dayNanos ∧ n / dayNanos ≤ lastDay := by
  simp only [ofEpoch?, of?]
  split
  · next h => simp [h.1, h.2.1]
  · next h =>
      simp only [Option.isSome_none, Bool.false_eq_true, false_iff]
      intro hdays
      apply h
      refine ⟨hdays.1, hdays.2, ?_, ?_, ?_⟩ <;> simp only [dayNanos] <;> omega

/-- What lies between two instants in range is in range. -/
theorem isSome_ofEpoch?_of_le {k : Int} (hn : (ofEpoch? n).isSome = true)
    (hm : (ofEpoch? m).isSome = true) (hnk : n ≤ k) (hkm : k ≤ m) :
    (ofEpoch? k).isSome = true := by
  rw [isSome_ofEpoch?_iff] at hn hm ⊢
  simp only [dayNanos] at hn hm ⊢
  omega

theorem isSome_ofEpoch?_sinceEpoch (hx : x.inLeapSecond = false) :
    (ofEpoch? x.sinceEpoch).isSome = true := by
  rw [inLeapSecond_eq_false_iff] at hx
  rw [isSome_ofEpoch?_iff]
  have hge := x.day_ge
  have hle := x.day_le
  have hsecond := x.second_lt
  simp only [sinceEpoch, dayNanos, firstDay, lastDay]
  omega

theorem lt_asymm (h : x < y) : ¬y < x := by
  change x.day < y.day ∨
    (x.day = y.day ∧ (x.second < y.second ∨ (x.second = y.second ∧ x.nano < y.nano))) at h
  change ¬(y.day < x.day ∨
    (y.day = x.day ∧ (y.second < x.second ∨ (y.second = x.second ∧ y.nano < x.nano))))
  omega

/-- Outside leap seconds instants come in the order of their nanoseconds. -/
theorem lt_iff_sinceEpoch (hx : x.inLeapSecond = false) (hy : y.inLeapSecond = false) :
    x < y ↔ x.sinceEpoch < y.sinceEpoch := by
  rw [inLeapSecond_eq_false_iff] at hx hy
  have hsecond := x.second_lt
  have hsecond' := y.second_lt
  change (x.day < y.day ∨
    (x.day = y.day ∧ (x.second < y.second ∨ (x.second = y.second ∧ x.nano < y.nano)))) ↔ _
  simp only [sinceEpoch, dayNanos]
  omega

/-- Outside leap seconds the time between two instants is the difference of their nanoseconds. -/
theorem between_eq (hx : x.inLeapSecond = false) (hy : y.inLeapSecond = false) :
    x.between y = y.sinceEpoch - x.sinceEpoch := by
  simp [between, hx, hy]

theorem move?_eq (hx : x.inLeapSecond = false) (shift : Int) :
    x.move? shift = ofEpoch? (x.sinceEpoch + shift) := by
  simp [move?, hx]

theorem add?_eq_some {s : Span} (hx : x.inLeapSecond = false) (h : x.add? s = some y) :
    y.sinceEpoch = x.sinceEpoch + s.nanos ∧ y.inLeapSecond = false := by
  rw [add?, move?_eq hx] at h
  exact ofEpoch?_eq_some h

/-- A move by a second and more leaves a leap second behind, and does not count it. -/
theorem move?_of_long {shift : Int} (hshift : 10 ^ 9 ≤ shift) (h : x.move? shift = some y) :
    y.inLeapSecond = false ∧
      y.sinceEpoch = x.sinceEpoch + shift - (if x.inLeapSecond then 10 ^ 9 else 0) := by
  simp only [move?] at h
  split at h
  · next leap =>
      rw [if_pos (Or.inl hshift)] at h
      obtain ⟨hsince, hleap⟩ := ofEpoch?_eq_some h
      rw [if_pos leap]
      exact ⟨hleap, by omega⟩
  · next plain =>
      obtain ⟨hsince, hleap⟩ := ofEpoch?_eq_some h
      rw [if_neg plain]
      exact ⟨hleap, by omega⟩

/-- Holds of the instant that is a span of a second and more after another: it is outside leap
seconds, and a leap second that it is counted from is not counted. -/
def IsAfter (x : Instant) (s : Span) (y : Instant) : Prop :=
  y.sinceEpoch = x.sinceEpoch + s.nanos - (if x.inLeapSecond then 10 ^ 9 else 0) ∧
    y.inLeapSecond = false

theorem isAfter_iff_of_plain {s : Span} (hx : x.inLeapSecond = false) :
    x.IsAfter s y ↔ y.sinceEpoch = x.sinceEpoch + s.nanos ∧ y.inLeapSecond = false := by
  rw [IsAfter, hx]
  simp

/-- A sum is what comes so much later, and it is refused only where nothing does. -/
theorem add?_eq_some_iff {s : Span} (hs : 10 ^ 9 ≤ s.nanos) :
    x.add? s = some y ↔ x.IsAfter s y := by
  have hshift : (10 : Int) ^ 9 ≤ s.nanos := by omega
  rw [add?, move?, IsAfter]
  split
  · next leap =>
    rw [if_pos (Or.inl hshift), ofEpoch?_eq_some_iff]
    have hsum : x.sinceEpoch - 10 ^ 9 + (s.nanos : Int) = x.sinceEpoch + s.nanos - 10 ^ 9 := by
      omega
    rw [hsum]
  · next plain => rw [ofEpoch?_eq_some_iff, Int.sub_zero]

/-- What is a second and more after an instant is later, leap seconds or not. -/
theorem IsAfter.lt {s : Span} (hs : 10 ^ 9 ≤ s.nanos) (h : x.IsAfter s y) : x < y := by
  obtain ⟨hsince, hplain⟩ := h
  rw [inLeapSecond_eq_false_iff] at hplain
  have hsecond := x.second_lt
  have hsecond' := y.second_lt
  have hnano := x.nano_lt
  change x.day < y.day ∨
    (x.day = y.day ∧ (x.second < y.second ∨ (x.second = y.second ∧ x.nano < y.nano)))
  by_cases leap : x.inLeapSecond = true
  · have hleap : 10 ^ 9 ≤ x.nano := of_decide_eq_true leap
    rw [if_pos leap] at hsince
    simp only [sinceEpoch, dayNanos] at hsince
    omega
  · have plain := inLeapSecond_eq_false_iff.mp (Bool.eq_false_iff.mpr leap)
    rw [if_neg leap] at hsince
    simp only [sinceEpoch, dayNanos] at hsince
    omega

/-- What is more than a second away is ahead, leap seconds or not. -/
theorem between_pos {s : Span} (hs : 10 ^ 9 < s.nanos) (h : x.add? s = some y) :
    0 < x.between y := by
  have hshift : (10 : Int) ^ 9 ≤ s.nanos := by omega
  obtain ⟨hleap, hsince⟩ := move?_of_long hshift h
  have hlater : ¬ (y.second < x.second ∧ y.inLeapSecond = true) := by
    rw [hleap]
    simp
  simp only [between]
  rw [if_neg hlater, hsince]
  split <;> split <;> omega

end Instant

namespace Timetable

variable {t : Timetable}

/-- The clock shows an instant in range. -/
def InRange (t : Timetable) : Prop :=
  (t.start.move? ((t.elapsed + t.skew) * 10 ^ 6)).isSome = true

instance (t : Timetable) : Decidable t.InRange :=
  inferInstanceAs (Decidable (_ = true))

/-- What the clock shows, if nothing shifts it, when so many milliseconds have passed. -/
def reading (t : Timetable) (millis : Nat) : Instant :=
  { t with elapsed := millis }.now

theorem reading_elapsed (t : Timetable) : t.reading t.elapsed = t.now := rfl

theorem reading_congr {u : Timetable} (start : u.start = t.start) (skew : u.skew = t.skew) :
    u.reading = t.reading := by
  funext millis
  simp only [reading, now]
  rw [start, skew]

/-- A clock that was not set going inside a leap second never shows one, and moves with the
timers. -/
theorem InRange.now_eq (h : t.InRange) (hstart : t.start.inLeapSecond = false) :
    t.now.sinceEpoch = t.start.sinceEpoch + (t.elapsed + t.skew) * 10 ^ 6 ∧
      t.now.inLeapSecond = false := by
  obtain ⟨x, hx⟩ := Option.isSome_iff_exists.mp h
  have hnow : t.now = x := by
    simp only [now]
    rw [hx]
    rfl
  rw [Instant.move?_eq hstart] at hx
  rw [hnow]
  exact Instant.ofEpoch?_eq_some hx

/-- Between two states of a clock that nothing has shifted, the clock has moved with the timers. -/
theorem InRange.reading_eq {u : Timetable} (h : t.InRange) (hu : u.InRange)
    (hstart : t.start.inLeapSecond = false) (start : u.start = t.start) (skew : u.skew = t.skew)
    {millis : Nat} (hle : t.elapsed ≤ millis) (hle' : millis ≤ u.elapsed) :
    (t.reading millis).sinceEpoch = t.now.sinceEpoch + (millis - t.elapsed) * 10 ^ 6 ∧
      (t.reading millis).inLeapSecond = false := by
  have hthen : { t with elapsed := millis }.InRange := by
    simp only [InRange] at h hu ⊢
    rw [start, skew] at hu
    rw [Instant.move?_eq hstart] at h hu ⊢
    refine Instant.isSome_ofEpoch?_of_le h hu ?_ ?_ <;> omega
  obtain ⟨hsince, hleap⟩ := hthen.now_eq hstart
  refine ⟨?_, hleap⟩
  change { t with elapsed := millis }.now.sinceEpoch = _
  rw [hsince, (h.now_eq hstart).1]
  dsimp only
  omega

/-- From an instant that the clock has shown to one that it shows now, all are in range. -/
theorem InRange.isSome_add? (h : t.InRange) (hstart : t.start.inLeapSecond = false) {x : Instant}
    (hx : x.inLeapSecond = false) {s : Span} (hle : x.sinceEpoch + s.nanos ≤ t.now.sinceEpoch) :
    (x.add? s).isSome = true := by
  obtain ⟨_, hleap⟩ := h.now_eq hstart
  rw [Instant.add?, Instant.move?_eq hx]
  refine Instant.isSome_ofEpoch?_of_le (Instant.isSome_ofEpoch?_sinceEpoch hx)
    (Instant.isSome_ofEpoch?_sinceEpoch hleap) ?_ hle
  omega

/-- A wait for what is one span away takes the milliseconds of that span. -/
theorem InRange.timerFor_add? (h : t.InRange) (hstart : t.start.inLeapSecond = false) {s : Span}
    {due : Instant} (hdue : t.now.add? s = some due) :
    t.timerFor due = t.elapsed + s.ceilMillis := by
  obtain ⟨_, hleap⟩ := h.now_eq hstart
  obtain ⟨hsince, hleap'⟩ := Instant.add?_eq_some hleap hdue
  simp only [timerFor, Span.ceilMillis]
  rw [Instant.between_eq hleap hleap', hsince]
  omega

end Timetable

end Almanac
