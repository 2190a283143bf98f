import Almanac.Proofs.Places
import Almanac.Settings.Variable

/-!
# Words and quoted texts

Which words are numbers, and what a quoted text stands for.
-/

namespace Almanac.Binary64

/-- Holds of the exponent after a number: none, or a letter and digits with at most one sign. -/
def IsPower (s : List Char) : Prop :=
  s = [] ∨ ∃ letter sign digits, (letter = 'e' ∨ letter = 'E') ∧
    (sign = [] ∨ sign = ['+'] ∨ sign = ['-']) ∧ digits ≠ [] ∧
    (∀ c ∈ digits, c.isDigit = true) ∧ s = letter :: (sign ++ digits)

/-- Holds of the texts of numbers without a sign that have a point: digits on either side of it,
at least one, and perhaps an exponent. -/
def IsUnsignedPointed (s : List Char) : Prop :=
  ∃ whole decimals power, (∀ c ∈ whole ++ decimals, c.isDigit = true) ∧ whole ++ decimals ≠ [] ∧
    IsPower power ∧ s = whole ++ '.' :: (decimals ++ power)

def IsPointed (s : List Char) : Prop :=
  ∃ sign magnitude, (sign = [] ∨ sign = ['+'] ∨ sign = ['-']) ∧ IsUnsignedPointed magnitude ∧
    s = sign ++ magnitude

theorem isSome_ofParts?_iff {negative : Bool} {whole decimals : List Char} {power : Int} :
    (ofParts? negative whole decimals power).isSome = true ↔
      (∀ c ∈ whole ++ decimals, c.isDigit = true) ∧ whole ++ decimals ≠ [] := by
  have hempty : (whole.isEmpty && decimals.isEmpty) = true ↔ whole ++ decimals = [] := by
    rw [Bool.and_eq_true, List.isEmpty_iff, List.isEmpty_iff, List.append_eq_nil_iff]
  have hdigits : (digitsOrNone? (whole ++ decimals)).isSome = true ↔
      ∀ c ∈ whole ++ decimals, c.isDigit = true := by
    simp [Option.isSome_iff_exists, digitsOrNone?, Text.readDigits_eq_some_iff]
  rw [ofParts?]
  split
  · next h => simp [hempty.mp h]
  · next h =>
    rw [Option.isSome_map, hdigits]
    exact (and_iff_left fun hnil => h (hempty.mpr hnil)).symm

theorem isSome_exponent?_iff {s : List Char} :
    (exponent? s).isSome = true ↔
      ∃ sign digits, (sign = [] ∨ sign = ['+'] ∨ sign = ['-']) ∧ digits ≠ [] ∧
        (∀ c ∈ digits, c.isDigit = true) ∧ s = sign ++ digits := by
  constructor
  · intro h
    obtain ⟨sign, digits, hsign, rfl, n, hn⟩ : ∃ sign digits,
        (sign = [] ∨ sign = ['+'] ∨ sign = ['-']) ∧ s = sign ++ digits ∧
          ∃ n, Text.natural? digits = some n := by
      unfold exponent? at h
      split at h
      · exact ⟨['+'], _, by simp, rfl, Option.isSome_iff_exists.mp (Option.isSome_map ▸ h)⟩
      · next rest =>
        cases hn : Text.natural? rest with
        | none => simp [hn] at h
        | some n => exact ⟨['-'], rest, by simp, rfl, n, hn⟩
      · exact ⟨[], s, by simp, rfl, Option.isSome_iff_exists.mp (Option.isSome_map ▸ h)⟩
    obtain ⟨hne, hdigits, -⟩ := Text.natural?_eq_some_iff.mp hn
    exact ⟨sign, digits, hsign, hne, hdigits, rfl⟩
  · rintro ⟨sign, digits, hsign, hne, hdigits, rfl⟩
    have hn := Text.natural?_eq_some_iff.mpr ⟨hne, hdigits, rfl⟩
    rcases hsign with rfl | rfl | rfl
    · obtain ⟨c, rest, rfl⟩ := List.exists_cons_of_ne_nil hne
      have hc : c.isDigit = true := hdigits c List.mem_cons_self
      rw [List.nil_append]
      unfold exponent?
      split
      · next heq => exact absurd ((List.cons.inj heq).1 ▸ hc) (by decide)
      · next heq => exact absurd ((List.cons.inj heq).1 ▸ hc) (by decide)
      · rw [hn]
        rfl
    · simp [exponent?, hn]
    · simp [exponent?, hn]

theorem ne_letter_eq_false_iff {c : Char} :
    (c != 'e' && c != 'E') = false ↔ c = 'e' ∨ c = 'E' := by
  simp [imp_iff_not_or]

/-- A digit is no point, and no letter before an exponent. -/
theorem ne_of_isDigit {c : Char} (hc : c.isDigit = true) :
    (c != '.') = true ∧ (c != 'e' && c != 'E') = true := by
  rw [← Bool.not_eq_false (_ && _), ne_letter_eq_false_iff, bne_iff_ne]
  refine ⟨?_, ?_⟩
  · rintro rfl
    cases hc
  · rintro (rfl | rfl) <;> cases hc

theorem IsPower.head {power : List Char} (h : IsPower power) :
    ∀ c ∈ power.head?, (c != 'e' && c != 'E') = false := by
  rintro c hc
  rcases h with rfl | ⟨letter, sign, digits, hl, -, -, -, rfl⟩
  · cases hc
  · cases hc
    exact ne_letter_eq_false_iff.mpr hl

theorem isSome_ofUnsigned?_iff {negative : Bool} {s : List Char} :
    (ofUnsigned? negative s).isSome = true ↔ IsUnsignedPointed s := by
  constructor
  · intro h
    simp only [ofUnsigned?] at h
    split at h
    · cases h
    · next c rest hrest =>
      obtain ⟨hs, -, hc⟩ := Places.parted_iff.mp ⟨rfl, hrest⟩
      obtain rfl : c = '.' := by simpa using hc c rfl
      obtain ⟨whole, hwhole⟩ : ∃ whole, whole = s.takeWhile (· != '.') := ⟨_, rfl⟩
      obtain ⟨decimals, hdecimals⟩ :
          ∃ decimals, decimals = rest.takeWhile fun c => c != 'e' && c != 'E' := ⟨_, rfl⟩
      rw [← hwhole, ← hdecimals] at h
      split at h
      · next hpower =>
        obtain ⟨hrest, -, -⟩ := Places.parted_iff.mp ⟨hdecimals.symm, hpower⟩
        obtain ⟨hdigits, hne⟩ := isSome_ofParts?_iff.mp h
        exact ⟨whole, decimals, [], hdigits, hne, Or.inl rfl, by rw [hs, ← hwhole, hrest]⟩
      · next letter power hpower =>
        obtain ⟨hrest, -, hc⟩ := Places.parted_iff.mp ⟨hdecimals.symm, hpower⟩
        obtain ⟨x, hx⟩ := Option.isSome_iff_exists.mp h
        obtain ⟨n, hn, hx⟩ := Option.bind_eq_some_iff.mp hx
        obtain ⟨hdigits, hne⟩ := isSome_ofParts?_iff.mp (Option.isSome_of_eq_some hx)
        obtain ⟨sign, digits, hsign, hsome, hall, rfl⟩ :=
          isSome_exponent?_iff.mp (Option.isSome_of_eq_some hn)
        exact ⟨whole, decimals, letter :: (sign ++ digits), hdigits, hne,
          Or.inr ⟨letter, sign, digits, ne_letter_eq_false_iff.mp (hc letter rfl), hsign, hsome,
            hall, rfl⟩,
          by rw [hs, ← hwhole, hrest]⟩
  · rintro ⟨whole, decimals, power, hdigits, hne, hpower, rfl⟩
    have hpoints : ∀ c ∈ ('.' :: (decimals ++ power)).head?, (c != '.') = false := by
      simp
    obtain ⟨hwhole, hrest⟩ := Places.parted_iff.mpr ⟨(rfl : whole ++ '.' :: _ = _),
      fun c hc => (ne_of_isDigit (hdigits c (List.mem_append_left _ hc))).1, hpoints⟩
    obtain ⟨hdecimals, hafter⟩ := Places.parted_iff.mpr ⟨(rfl : decimals ++ power = _),
      fun c hc => (ne_of_isDigit (hdigits c (List.mem_append_right _ hc))).2, hpower.head⟩
    simp only [ofUnsigned?, hwhole, hrest, hdecimals, hafter]
    rcases hpower with rfl | ⟨letter, sign, digits, -, hsign, hsome, hall, rfl⟩
    · exact isSome_ofParts?_iff.mpr ⟨hdigits, hne⟩
    · obtain ⟨n, hn⟩ := Option.isSome_iff_exists.mp
        (isSome_exponent?_iff.mpr ⟨sign, digits, hsign, hsome, hall, rfl⟩)
      simp only [hn, Option.bind_some]
      exact isSome_ofParts?_iff.mpr ⟨hdigits, hne⟩

/-- A number without a sign begins with a digit or its point. -/
theorem IsUnsignedPointed.head_ne {s : List Char} (h : IsUnsignedPointed s) (c : Char)
    (hdigit : c.isDigit = false) (hpoint : c ≠ '.') (rest : List Char) : s ≠ c :: rest := by
  obtain ⟨whole, decimals, power, hdigits, -, -, rfl⟩ := h
  intro heq
  cases whole with
  | nil => exact hpoint (List.cons.inj heq).1.symm
  | cons d whole =>
    have hd : d.isDigit = true := hdigits d (by simp)
    rw [(List.cons.inj heq).1, hdigit] at hd
    cases hd

theorem isSome_ofPointed?_iff {s : List Char} :
    (ofPointed? s).isSome = true ↔ IsPointed s := by
  constructor
  · intro h
    unfold ofPointed? at h
    split at h
    · exact ⟨['+'], _, by simp, isSome_ofUnsigned?_iff.mp h, rfl⟩
    · exact ⟨['-'], _, by simp, isSome_ofUnsigned?_iff.mp h, rfl⟩
    · exact ⟨[], s, by simp, isSome_ofUnsigned?_iff.mp h, rfl⟩
  · rintro ⟨sign, magnitude, hsign, hmagnitude, rfl⟩
    rcases hsign with rfl | rfl | rfl
    · rw [List.nil_append]
      unfold ofPointed?
      split
      · next rest => exact absurd rfl (hmagnitude.head_ne '+' (by decide) (by decide) rest)
      · next rest => exact absurd rfl (hmagnitude.head_ne '-' (by decide) (by decide) rest)
      · exact isSome_ofUnsigned?_iff.mpr hmagnitude
    · exact isSome_ofUnsigned?_iff.mpr hmagnitude
    · exact isSome_ofUnsigned?_iff.mpr hmagnitude

theorem IsPointed.point_mem {s : List Char} (h : IsPointed s) : '.' ∈ s := by
  obtain ⟨sign, magnitude, -, ⟨whole, decimals, power, -, -, -, rfl⟩, rfl⟩ := h
  simp

end Almanac.Binary64

namespace Almanac.Variable

/-- Holds of the words that are numbers: of 64 bits, or with a point. -/
inductive IsNumber : List Char → Prop
  | unsigned {sign digits : List Char} (hsign : sign = [] ∨ sign = ['+']) (hne : digits ≠ [])
      (hdigits : ∀ c ∈ digits, c.isDigit = true)
      (hlt : Nat.ofDigitChars 10 digits 0 < 2 ^ 64) : IsNumber (sign ++ digits)
  | negative {digits : List Char} (hne : digits ≠ []) (hdigits : ∀ c ∈ digits, c.isDigit = true)
      (hle : Nat.ofDigitChars 10 digits 0 ≤ 2 ^ 63) : IsNumber ('-' :: digits)
  | pointed {s : List Char} (h : Binary64.IsPointed s) : IsNumber s

theorem isSome_unsigned?_iff {s : List Char} :
    (unsigned? s).isSome = true ↔
      ∃ sign digits, (sign = [] ∨ sign = ['+']) ∧ digits ≠ [] ∧
        (∀ c ∈ digits, c.isDigit = true) ∧ Nat.ofDigitChars 10 digits 0 < 2 ^ 64 ∧
          s = sign ++ digits := by
  have hok : (unsigned? s).isSome = true ↔ ∃ n, Text.numeral (2 ^ 64) s = .ok n := by
    rw [unsigned?]
    cases Text.numeral (2 ^ 64) s <;> simp [Except.toOption]
  rw [hok]
  simp only [Text.numeral_eq_ok_iff]
  constructor
  · rintro ⟨n, digits, hs, hne, hdigits, rfl, hlt⟩
    rcases hs with rfl | rfl
    · exact ⟨[], s, Or.inl rfl, hne, hdigits, hlt, rfl⟩
    · exact ⟨['+'], digits, Or.inr rfl, hne, hdigits, hlt, rfl⟩
  · rintro ⟨sign, digits, hsign, hne, hdigits, hlt, rfl⟩
    rcases hsign with rfl | rfl
    · exact ⟨_, digits, Or.inl rfl, hne, hdigits, rfl, hlt⟩
    · exact ⟨_, digits, Or.inr rfl, hne, hdigits, rfl, hlt⟩

theorem isSome_negative?_iff {s : List Char} :
    (negative? s).isSome = true ↔
      ∃ digits, digits ≠ [] ∧ (∀ c ∈ digits, c.isDigit = true) ∧
        Nat.ofDigitChars 10 digits 0 ≤ 2 ^ 63 ∧ s = '-' :: digits := by
  constructor
  · intro h
    unfold negative? at h
    split at h
    · next digits =>
      cases hfilter : (Text.natural? digits).filter (· ≤ 2 ^ 63) with
      | none =>
        rw [hfilter] at h
        cases h
      | some n =>
        obtain ⟨hn, hle⟩ := Option.filter_eq_some_iff.mp hfilter
        obtain ⟨hne, hdigits, rfl⟩ := Text.natural?_eq_some_iff.mp hn
        exact ⟨digits, hne, hdigits, of_decide_eq_true hle, rfl⟩
    · cases h
  · rintro ⟨digits, hne, hdigits, hle, rfl⟩
    rw [negative?, Text.natural?_eq_some_iff.mpr ⟨hne, hdigits, rfl⟩, Option.isSome_map,
      Option.filter_some, if_pos (decide_eq_true hle)]
    rfl

/-- A word means itself exactly if it is no number. -/
theorem ofWord_eq_text_iff {s : List Char} {t : String} :
    ofWord s = .text t ↔ ¬IsNumber s ∧ String.ofList s = t := by
  have hnumber : IsNumber s ↔ (unsigned? s).isSome = true ∨ (negative? s).isSome = true ∨
      (Binary64.ofPointed? s).isSome = true := by
    rw [isSome_unsigned?_iff, isSome_negative?_iff, Binary64.isSome_ofPointed?_iff]
    constructor
    · intro h
      cases h with
      | unsigned hsign hne hdigits hlt =>
        exact Or.inl ⟨_, _, hsign, hne, hdigits, hlt, rfl⟩
      | negative hne hdigits hle => exact Or.inr (Or.inl ⟨_, hne, hdigits, hle, rfl⟩)
      | pointed h => exact Or.inr (Or.inr h)
    · rintro (⟨sign, digits, hsign, hne, hdigits, hlt, rfl⟩ | ⟨digits, hne, hdigits, hle, rfl⟩ | h)
      · exact .unsigned hsign hne hdigits hlt
      · exact .negative hne hdigits hle
      · exact .pointed h
  have hpointed : (if s.contains '.' then Binary64.ofPointed? s else none) =
      Binary64.ofPointed? s := by
    split
    · rfl
    · next hpoint =>
      refine (Option.not_isSome_iff_eq_none.mp fun h => hpoint ?_).symm
      exact List.contains_iff_mem.mpr (Binary64.isSome_ofPointed?_iff.mp h).point_mem
  rw [ofWord, hpointed, hnumber]
  cases hfloat : Binary64.ofPointed? s with
  | some x => simp
  | none =>
    cases hunsigned : unsigned? s with
    | some n => simp
    | none =>
      cases hnegative : negative? s with
      | some n => simp
      | none => simp

/-- What an escape without its backslash stands for: a character with a letter of its own, or one
given by its number in four or eight hexadecimal digits. -/
inductive Escape : List Char → Char → Prop
  | letter {e c : Char}
      (h : (e, c) ∈ [('b', '\x08'), ('f', '\x0c'), ('n', '\n'), ('r', '\r'), ('t', '\t'),
        ('\x22', '\x22'), ('\\', '\\')]) : Escape [e] c
  | number {mark : Char} {digits : List Char} {n : Nat}
      (hmark : mark = 'u' ∧ digits.length = 4 ∨ mark = 'U' ∧ digits.length = 8)
      (hn : digits.foldlM (fun n c => (Text.hexDigit? c).map (16 * n + ·)) 0 = some n)
      (hvalid : n.isValidChar) : Escape (mark :: digits) (Char.ofNat n)

/-- What a quoted text without its opening quote stands for. -/
inductive Quoted : List Char → List Char → Prop
  | close : Quoted ['\x22'] []
  | plain {c : Char} {s t : List Char} (hquote : c ≠ '\x22') (hescape : c ≠ '\\')
      (hc : c = '\t' ∨ (0x20 ≤ c.toNat ∧ c.toNat ≠ 0x7F)) (h : Quoted s t) :
      Quoted (c :: s) (c :: t)
  | escape {e : List Char} {c : Char} {s t : List Char} (he : Escape e c) (h : Quoted s t) :
      Quoted ('\\' :: (e ++ s)) (c :: t)

theorem hex?_eq_some_iff {width n m : Nat} {s rest : List Char} :
    hex? width n s = some (m, rest) ↔
      ∃ digits, digits.length = width ∧
        digits.foldlM (fun n c => (Text.hexDigit? c).map (16 * n + ·)) n = some m ∧
          s = digits ++ rest := by
  induction width generalizing n s with
  | zero =>
    rw [hex?, Option.some_inj, Prod.mk.injEq]
    constructor
    · rintro ⟨rfl, rfl⟩
      exact ⟨[], rfl, rfl, rfl⟩
    · rintro ⟨digits, hlength, hfold, rfl⟩
      obtain rfl := List.length_eq_zero_iff.mp hlength
      exact ⟨Option.some_inj.mp hfold, rfl⟩
  | succ width ih =>
    cases s with
    | nil =>
      refine ⟨fun h => (by cases h), ?_⟩
      rintro ⟨digits, hlength, -, hs⟩
      obtain ⟨rfl, -⟩ := List.append_eq_nil_iff.mp hs.symm
      cases hlength
    | cons c s =>
      rw [hex?, Option.bind_eq_some_iff]
      simp only [ih]
      constructor
      · rintro ⟨d, hd, digits, hlength, hfold, rfl⟩
        refine ⟨c :: digits, by rw [List.length_cons, hlength], ?_, rfl⟩
        rw [List.foldlM_cons, hd]
        exact hfold
      · rintro ⟨digits, hlength, hfold, hs⟩
        obtain ⟨c, digits, rfl⟩ := List.exists_cons_of_length_eq_add_one hlength
        obtain ⟨rfl, rfl⟩ := List.cons.inj hs
        rw [List.foldlM_cons] at hfold
        obtain ⟨n', hn', hfold⟩ := Option.bind_eq_some_iff.mp hfold
        obtain ⟨d, hd, rfl⟩ := Option.map_eq_some_iff.mp hn'
        exact ⟨d, hd, digits, Nat.succ_inj.mp hlength, hfold, rfl⟩

theorem escape?_eq_some_iff {s rest : List Char} {c : Char} :
    escape? s = some (c, rest) ↔ ∃ e, Escape e c ∧ s = e ++ rest := by
  have hnumbered (width : Nat) (s : List Char) : escape?.numbered width s = some (c, rest) ↔
      ∃ digits n, digits.length = width ∧
        digits.foldlM (fun n c => (Text.hexDigit? c).map (16 * n + ·)) 0 = some n ∧
          n.isValidChar ∧ Char.ofNat n = c ∧ s = digits ++ rest := by
    simp only [escape?.numbered, Option.bind_eq_some_iff, Prod.exists, hex?_eq_some_iff,
      Option.ite_none_right_eq_some, Option.some_inj, Prod.mk.injEq]
    constructor
    · rintro ⟨n, _, ⟨digits, hlength, hfold, rfl⟩, hvalid, rfl, rfl⟩
      exact ⟨digits, n, hlength, hfold, hvalid, rfl, rfl⟩
    · rintro ⟨digits, n, hlength, hfold, hvalid, rfl, rfl⟩
      exact ⟨n, rest, ⟨digits, hlength, hfold, rfl⟩, hvalid, rfl, rfl⟩
  constructor
  · intro h
    unfold escape? at h
    split at h
    case h_8 =>
      obtain ⟨digits, n, hlength, hfold, hvalid, rfl, rfl⟩ := (hnumbered _ _).mp h
      exact ⟨_, .number (Or.inl ⟨rfl, hlength⟩) hfold hvalid, rfl⟩
    case h_9 =>
      obtain ⟨digits, n, hlength, hfold, hvalid, rfl, rfl⟩ := (hnumbered _ _).mp h
      exact ⟨_, .number (Or.inr ⟨rfl, hlength⟩) hfold hvalid, rfl⟩
    case h_10 => cases h
    all_goals
      cases h
      exact ⟨[_], .letter (by decide), rfl⟩
  · rintro ⟨e, he, rfl⟩
    cases he with
    | letter h =>
      simp only [List.mem_cons, Prod.mk.injEq, List.not_mem_nil, or_false] at h
      rcases h with ⟨rfl, rfl⟩ | ⟨rfl, rfl⟩ | ⟨rfl, rfl⟩ | ⟨rfl, rfl⟩ | ⟨rfl, rfl⟩ | ⟨rfl, rfl⟩ |
        ⟨rfl, rfl⟩ <;> rfl
    | number hmark hn hvalid =>
      rcases hmark with ⟨rfl, hlength⟩ | ⟨rfl, hlength⟩
      · exact (hnumbered _ _).mpr ⟨_, _, hlength, hn, hvalid, rfl, rfl⟩
      · exact (hnumbered _ _).mpr ⟨_, _, hlength, hn, hvalid, rfl, rfl⟩

theorem quoted_of_string? {fuel : Nat} {read s rest : List Char} {r : String}
    (h : string? fuel read s = some (r, rest)) :
    ∃ m t, Quoted m t ∧ r = String.ofList (read.reverse ++ t) ∧ s = m ++ rest := by
  fun_induction string? fuel read s with
  | case1 => cases h
  | case2 => cases h
  | case3 fuel read s =>
    cases h
    exact ⟨_, [], .close, by rw [List.append_nil], rfl⟩
  | case4 fuel read s ih =>
    obtain ⟨⟨c, after⟩, hescape, hrest⟩ := Option.bind_eq_some_iff.mp h
    obtain ⟨e, he, rfl⟩ := escape?_eq_some_iff.mp hescape
    obtain ⟨m, t, hm, rfl, rfl⟩ := ih c after hrest
    exact ⟨_, _, .escape he hm, by simp, by simp⟩
  | case5 fuel read c s hquote hescape hc ih =>
    obtain ⟨m, t, hm, rfl, rfl⟩ := ih h
    exact ⟨_, _, .plain hquote hescape hc hm, by simp, rfl⟩
  | case6 => cases h

theorem Quoted.string? {m t : List Char} (h : Quoted m t) {fuel : Nat} (hfuel : m.length ≤ fuel)
    (read rest : List Char) :
    Variable.string? fuel read (m ++ rest) = some (String.ofList (read.reverse ++ t), rest) := by
  induction h generalizing fuel read with
  | close =>
    obtain ⟨fuel, rfl⟩ : ∃ n, fuel = n + 1 := ⟨fuel - 1, by simp at hfuel; omega⟩
    simp [Variable.string?]
  | plain hquote hescape hc h ih =>
    rw [List.length_cons] at hfuel
    obtain ⟨fuel, rfl⟩ : ∃ n, fuel = n + 1 := ⟨fuel - 1, by omega⟩
    rw [List.cons_append, Variable.string?, if_pos hc, ih (by omega)]
    · simp
    · exact hquote
    · exact hescape
  | escape he h ih =>
    rw [List.length_cons, List.length_append] at hfuel
    obtain ⟨fuel, rfl⟩ : ∃ n, fuel = n + 1 := ⟨fuel - 1, by omega⟩
    rw [List.cons_append, List.append_assoc, Variable.string?,
      escape?_eq_some_iff.mpr ⟨_, he, rfl⟩, Option.bind_some]
    exact (ih (by omega) _).trans (by simp)

end Almanac.Variable
