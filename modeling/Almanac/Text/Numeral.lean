import Almanac.Number.Power

/-!
# Decimal numerals

Natural numbers and integers in decimal, and reading them under a bound.
-/

namespace Almanac.Text

def decimal (n : Nat) : List Char :=
  Nat.toDigits 10 n

/-- The decimal digits of an integer, a minus in front of a negative one. -/
def signedDecimal (n : Int) : List Char :=
  if n < 0 then '-' :: decimal n.natAbs else decimal n.natAbs

/-- The last `width` decimal digits of a number, zeros in front. -/
def padded : Nat → Nat → List Char
  | 0, _ => []
  | width + 1, n => padded width (n / 10) ++ [Nat.digitChar (n % 10)]

def digit? (c : Char) : Option Nat :=
  if c.isDigit then some (c.toNat - 48) else none

/-- Reads digits onto a number; any other character is refused. -/
def readDigits (n : Nat) : List Char → Option Nat
  | [] => some n
  | c :: rest => (digit? c).bind fun d => readDigits (10 * n + d) rest

/-- The value of a text of at least one decimal digit. -/
def natural? : List Char → Option Nat
  | [] => none
  | s => readDigits 0 s

def hexDigit? (c : Char) : Option Nat :=
  if c.isDigit then some (c.toNat - 48)
  else if 'a' ≤ c ∧ c ≤ 'f' then some (c.toNat - 87)
  else if 'A' ≤ c ∧ c ≤ 'F' then some (c.toNat - 55)
  else none

inductive NumeralError where
  | empty
  | invalidDigit
  | tooLarge
  | tooSmall
  deriving DecidableEq, Repr

def NumeralError.message : NumeralError → String
  | .empty => "cannot parse integer from empty string"
  | .invalidDigit => "invalid digit found in string"
  | .tooLarge => "number too large to fit in target type"
  | .tooSmall => "number too small to fit in target type"

/-- Reads digits onto a number; the first fault met from the left is reported. -/
def readBelow (bound : Nat) (n : Nat) : List Char → Except NumeralError Nat
  | [] => .ok n
  | c :: rest =>
    match digit? c with
    | none => .error .invalidDigit
    | some d => if 10 * n + d < bound then readBelow bound (10 * n + d) rest else .error .tooLarge

/-- Reads a number below `bound`: digits, after at most one plus sign. -/
def numeral (bound : Nat) : List Char → Except NumeralError Nat
  | [] => .error .empty
  | ['+'] => .error .invalidDigit
  | '+' :: rest => readBelow bound 0 rest
  | s => readBelow bound 0 s

/-- The reason for a number whose magnitude is too large, once it has a minus. -/
def NumeralError.negated : NumeralError → NumeralError
  | .tooLarge => .tooSmall
  | e => e

/-- Reads an integer of 64 bits: digits, after at most one sign. -/
def integerNumeral : List Char → Except NumeralError Int
  | '-' :: c :: rest =>
    match readBelow (2 ^ 63 + 1) 0 (c :: rest) with
    | .ok n => .ok (-n)
    | .error e => .error e.negated
  | s => (numeral (2 ^ 63) s).map Int.ofNat

theorem decimal_ne_nil (n : Nat) : decimal n ≠ [] :=
  List.ne_nil_of_length_pos Nat.length_toDigits_pos

theorem isDigit_of_mem_decimal {n : Nat} {c : Char} (h : c ∈ decimal n) : c.isDigit = true :=
  Nat.isDigit_of_mem_toDigits (by decide) (by decide) h

theorem ofDigitChars_decimal (n : Nat) : Nat.ofDigitChars 10 (decimal n) 0 = n :=
  Nat.ofDigitChars_toDigits (by decide) (by decide)

theorem digitChar_spec {d : Nat} (h : d < 10) :
    (Nat.digitChar d).isDigit = true ∧ (Nat.digitChar d).toNat - 48 = d := by
  have hall : ∀ d < 10, (Nat.digitChar d).isDigit = true ∧ (Nat.digitChar d).toNat - 48 = d := by
    decide
  exact hall d h

theorem length_padded (width n : Nat) : (padded width n).length = width := by
  induction width generalizing n with
  | zero => rfl
  | succ width ih => rw [padded, List.length_append, ih, List.length_singleton]

theorem isDigit_of_mem_padded {width n : Nat} {c : Char} (h : c ∈ padded width n) :
    c.isDigit = true := by
  induction width generalizing n with
  | zero => cases h
  | succ width ih =>
    rw [padded, List.mem_append, List.mem_singleton] at h
    rcases h with h | rfl
    · exact ih h
    · exact (digitChar_spec (Nat.mod_lt n (by decide))).1

/-- The last digits of a number stand for what is left of it by a power of ten. -/
theorem ofDigitChars_padded (width n : Nat) :
    Nat.ofDigitChars 10 (padded width n) 0 = n % 10 ^ width := by
  induction width generalizing n with
  | zero => rw [Nat.pow_zero, Nat.mod_one, padded, Nat.ofDigitChars_nil]
  | succ width ih =>
    have hdigit : (Nat.digitChar (n % 10)).toNat - '0'.toNat = n % 10 :=
      (digitChar_spec (Nat.mod_lt n (by decide))).2
    rw [padded, Nat.ofDigitChars_append, ih, Nat.ofDigitChars_cons, Nat.ofDigitChars_nil, hdigit,
      Nat.pow_succ, Nat.mul_comm (10 ^ width), Nat.mod_mul]
    omega

theorem isDigit_iff {c : Char} : c.isDigit = true ↔ 48 ≤ c.toNat ∧ c.toNat ≤ 57 := by
  rw [Char.isDigit, Bool.and_eq_true, decide_eq_true_eq, decide_eq_true_eq]
  exact Iff.rfl

theorem digit?_eq_some_iff {c : Char} {d : Nat} :
    digit? c = some d ↔ c.isDigit = true ∧ c.toNat - 48 = d := by
  rw [digit?, Option.ite_none_right_eq_some, Option.some_inj]

/-- Digits are read if there are only digits, onto what was read before. -/
theorem readDigits_eq_some_iff {s : List Char} {n m : Nat} :
    readDigits n s = some m ↔
      (∀ c ∈ s, c.isDigit = true) ∧ Nat.ofDigitChars 10 s n = m := by
  induction s generalizing n with
  | nil => simp [readDigits, Nat.ofDigitChars]
  | cons c s ih =>
    simp only [readDigits, Option.bind_eq_some_iff, digit?_eq_some_iff, ih, List.forall_mem_cons,
      Nat.ofDigitChars_cons]
    constructor
    · rintro ⟨d, ⟨hc, rfl⟩, hs, hm⟩
      exact ⟨⟨hc, hs⟩, hm⟩
    · rintro ⟨⟨hc, hs⟩, hm⟩
      exact ⟨_, ⟨hc, rfl⟩, hs, hm⟩

theorem natural?_eq_some_iff {s : List Char} {m : Nat} :
    natural? s = some m ↔
      s ≠ [] ∧ (∀ c ∈ s, c.isDigit = true) ∧ Nat.ofDigitChars 10 s 0 = m := by
  cases s with
  | nil => simp [natural?]
  | cons c s =>
    rw [natural?.eq_2 _ (List.cons_ne_nil c s), readDigits_eq_some_iff]
    exact (and_iff_right (List.cons_ne_nil c s)).symm

theorem le_ofDigitChars (s : List Char) (n : Nat) : n ≤ Nat.ofDigitChars 10 s n := by
  rw [Nat.ofDigitChars_eq_ofDigitChars_zero]
  have hpow : 1 * n ≤ 10 ^ s.length * n := Nat.mul_le_mul_right n (Nat.one_le_pow _ _ (by decide))
  omega

/-- A number is read below a bound if there are only digits and the bound is not reached. -/
theorem readBelow_eq_ok_iff {bound : Nat} {s : List Char} {n m : Nat} :
    readBelow bound n s = .ok m ↔
      (∀ c ∈ s, c.isDigit = true) ∧ Nat.ofDigitChars 10 s n = m ∧ (s ≠ [] → m < bound) := by
  induction s generalizing n with
  | nil => simp [readBelow, Nat.ofDigitChars]
  | cons c s ih =>
    rw [readBelow]
    cases hd : digit? c with
    | none =>
      have hc : ¬c.isDigit = true := fun hc => by simp [digit?, hc] at hd
      simp [hc]
    | some d =>
      obtain ⟨hc, rfl⟩ := digit?_eq_some_iff.mp hd
      simp only [Nat.ofDigitChars_cons, List.forall_mem_cons, hc, true_and, ne_eq, reduceCtorEq,
        not_false_eq_true, forall_const]
      have hle := le_ofDigitChars s (10 * n + (c.toNat - 48))
      split
      · next hlt =>
        rw [ih]
        refine and_congr_right fun _ => and_congr_right fun hm => ⟨fun h => ?_, fun h _ => h⟩
        cases s with
        | nil => exact hm ▸ hlt
        | cons c' s => exact h (List.cons_ne_nil c' s)
      · next hge =>
        refine ⟨fun h => (by cases h), ?_⟩
        rintro ⟨-, hm, h⟩
        exact absurd (Nat.lt_of_le_of_lt (hm ▸ hle) h) hge

theorem numeral_eq_ok_iff {bound : Nat} {s : List Char} {m : Nat} :
    numeral bound s = .ok m ↔
      ∃ digits, (s = digits ∨ s = '+' :: digits) ∧ digits ≠ [] ∧
        (∀ c ∈ digits, c.isDigit = true) ∧ Nat.ofDigitChars 10 digits 0 = m ∧ m < bound := by
  have hplus : ¬ '+'.isDigit = true := by decide
  have hread (digits : List Char) (hne : digits ≠ []) :
      readBelow bound 0 digits = .ok m ↔ (∀ c ∈ digits, c.isDigit = true) ∧
        Nat.ofDigitChars 10 digits 0 = m ∧ m < bound := by
    rw [readBelow_eq_ok_iff, forall_prop_of_true hne]
  constructor
  · intro h
    unfold numeral at h
    split at h
    · cases h
    · cases h
    · next rest hrest =>
      have hne : rest ≠ [] := fun hnil => hrest (hnil ▸ rfl)
      exact ⟨rest, .inr rfl, hne, (hread rest hne).mp h⟩
    · next hne _ _ =>
      exact ⟨s, .inl rfl, hne, (hread s hne).mp h⟩
  · rintro ⟨digits, hs, hne, h⟩
    have hfirst : ∀ c rest, digits = c :: rest → c ≠ '+' := by
      rintro c rest rfl rfl
      exact hplus (h.1 '+' List.mem_cons_self)
    obtain ⟨c, rest, rfl⟩ := List.exists_cons_of_ne_nil hne
    rcases hs with rfl | rfl
    · unfold numeral
      split
      · next heq => cases heq
      · next heq => exact absurd (List.cons.inj heq).1 (hfirst c rest rfl)
      · next heq => exact absurd (List.cons.inj heq).1 (hfirst c rest rfl)
      · exact (hread _ hne).mpr h
    · exact (hread _ hne).mpr h

example : numeral 100 "+07".toList = .ok 7 := rfl
example : numeral 100 "-7".toList = .error .invalidDigit := rfl
example : numeral 100 "100".toList = .error .tooLarge := rfl

end Almanac.Text
