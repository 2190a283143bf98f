import Almanac.Json.Printer
import Almanac.Json.Reader

/-!
# JSON in print, read back

The compact form of a value without floating point numbers is read as that value, as far as it
nests no deeper than the reader goes: `readAsWritten_text`. It takes the reader as many steps as
twice the characters, whatever may follow them that does not go on with a number.
-/

namespace Almanac

namespace Json

mutual

/-- Holds of the values that print without loss: no floating point numbers, integers of 64 bits,
and `depth` levels of nesting at most. -/
def IsExact : Nat → Json → Prop
  | _, number (.integer n) => -2 ^ 63 ≤ n ∧ n < 2 ^ 64
  | _, number (.float _) => False
  | depth, array items => depth ≠ 0 ∧ ItemsExact (depth - 1) items
  | depth, object members => depth ≠ 0 ∧ MembersExact (depth - 1) members
  | _, _ => True

def ItemsExact : Nat → List Json → Prop
  | _, [] => True
  | depth, item :: items => IsExact depth item ∧ ItemsExact depth items

def MembersExact : Nat → List (String × Json) → Prop
  | _, [] => True
  | depth, (_, value) :: members => IsExact depth value ∧ MembersExact depth members

end

theorem isExact_nat {n : Nat} (h : n < 2 ^ 64) (depth : Nat) : (nat n).IsExact depth :=
  ⟨by omega, by omega⟩

def memberText (m : String × Json) : List Char := stringText m.1 ++ ':' :: text m.2

theorem itemsText_cons (item : Json) (items : List Json) :
    itemsText (item :: items) = text item ++ items.flatMap (',' :: text ·) := by
  induction items generalizing item with
  | nil => exact (List.append_nil _).symm
  | cons next items ih => rw [itemsText.eq_3 _ _ (List.cons_ne_nil next items), ih]; rfl

theorem membersText_cons (m : String × Json) (members : List (String × Json)) :
    membersText (m :: members) = memberText m ++ members.flatMap (',' :: memberText ·) := by
  induction members generalizing m with
  | nil => exact (List.append_nil _).symm
  | cons next members ih =>
    rw [membersText.eq_3 _ _ _ (List.cons_ne_nil next members), ih]
    rfl

theorem text_array (item : Json) (more : List Json) (rest : List Char) :
    (array (item :: more)).text ++ rest =
      '[' :: (item.text ++ (more.flatMap (',' :: text ·) ++ ']' :: rest)) := by
  simp [text, itemsText_cons]

theorem text_object (m : String × Json) (more : List (String × Json)) (rest : List Char) :
    (object (m :: more)).text ++ rest =
      '\x7b' :: (memberText m ++ (more.flatMap (',' :: memberText ·) ++ '\x7d' :: rest)) := by
  simp [text, membersText_cons]

theorem memberText_append (name : String) (v : Json) (rest : List Char) :
    memberText (name, v) ++ rest =
      '\x22' :: (name.toList.flatMap escapedChar ++ '\x22' :: ':' :: (v.text ++ rest)) := by
  simp [memberText, stringText]

theorem length_memberText (name : String) (v : Json) :
    v.text.length < (memberText (name, v)).length := by
  simp only [memberText, List.length_append, List.length_cons]
  omega

end Json

namespace JsonReader

/-- The digits of a control character are read as its number. -/
theorem hexUnit_of_control {n : Nat} (hn : n < 0x20) (rest : List Char) :
    hexUnit ('0' :: '0' :: Nat.digitChar (n / 16) :: Nat.digitChar (n % 16) :: rest) =
      .ok (n, rest) := by
  have hdigits : ∀ n < 0x20,
      Text.octetCount ['0', '0', Nat.digitChar (n / 16), Nat.digitChar (n % 16)] = 4 ∧
        Text.hexDigit? (Nat.digitChar (n / 16)) = some (n / 16) ∧
        Text.hexDigit? (Nat.digitChar (n % 16)) = some (n % 16) := by decide
  obtain ⟨hcount, hhigh, hlow⟩ := hdigits n hn
  have hzero : Text.hexDigit? '0' = some 0 := rfl
  simp only [hexUnit, hcount, if_true, hzero, hhigh, hlow]
  exact congrArg (fun m => Except.ok (m, rest)) (by omega)

/-- A character that is escaped is read off its escape, and any other stands for itself. -/
theorem string_escapedChar (c : Char) (fuel : Nat) (read rest : List Char) :
    string (fuel + 1) read (Json.escapedChar c ++ rest) = string fuel (c :: read) rest := by
  unfold Json.escapedChar
  split
  case h_8 _ hquote hslash _ _ _ _ _ =>
    split
    · next hcontrol =>
      have hunit : ¬(0xDC00 ≤ c.toNat ∧ c.toNat ≤ 0xDFFF) ∧
          ¬(0xD800 ≤ c.toNat ∧ c.toNat ≤ 0xDBFF) := by omega
      have hescape : escape ('u' :: '0' :: '0' :: Nat.digitChar (c.toNat / 16) ::
          Nat.digitChar (c.toNat % 16) :: rest) = .ok (c, rest) := by
        simp only [escape, hexUnit_of_control hcontrol, if_neg hunit.1, if_neg hunit.2,
          Char.ofNat_toNat]
      simp only [List.cons_append, List.nil_append, string, hescape]
      rfl
    · next hplain =>
      simp only [List.cons_append, List.nil_append, string, if_neg hquote, if_neg hslash,
        if_neg hplain]
  all_goals rfl

/-- A string is read up to the quote that ends it. -/
theorem string_escaped {s : List Char} {fuel : Nat} (hfuel : s.length < fuel)
    (read rest : List Char) :
    string fuel read (s.flatMap Json.escapedChar ++ '\x22' :: rest) =
      .ok (String.ofList (read.reverse ++ s), rest) := by
  induction s generalizing fuel read with
  | nil =>
    obtain ⟨fuel, rfl⟩ := Nat.exists_eq_succ_of_ne_zero (Nat.ne_zero_of_lt hfuel)
    rw [List.append_nil]
    rfl
  | cons c s ih =>
    obtain ⟨fuel, rfl⟩ := Nat.exists_eq_succ_of_ne_zero (Nat.ne_zero_of_lt hfuel)
    rw [List.flatMap_cons, List.append_assoc, string_escapedChar,
      ih (Nat.lt_of_succ_lt_succ hfuel), List.reverse_cons, List.append_assoc]
    rfl

theorem length_le_escaped (s : List Char) : s.length ≤ (s.flatMap Json.escapedChar).length := by
  induction s with
  | nil => exact Nat.le_refl 0
  | cons c s ih =>
    have hc : 0 < (Json.escapedChar c).length := by
      unfold Json.escapedChar
      split
      case h_8 => split <;> exact Nat.succ_pos _
      all_goals exact Nat.succ_pos _
    rw [List.flatMap_cons, List.length_append, List.length_cons]
    omega

/-- The fuel of a string lasts if it counts the characters to be read. -/
theorem string_of_length (s : String) (rest : List Char) :
    string ((s.toList.flatMap Json.escapedChar ++ '\x22' :: rest).length + 1) []
      (s.toList.flatMap Json.escapedChar ++ '\x22' :: rest) = .ok (s, rest) := by
  have hlength := length_le_escaped s.toList
  rw [string_escaped (by rw [List.length_append, List.length_cons]; omega), List.reverse_nil,
    List.nil_append, String.ofList_toList]

/-- Holds of the characters that may go on with a number. -/
def goesOn (c : Char) : Bool :=
  c.isDigit || c == '.' || c == 'e' || c == 'E'

variable {rest : List Char}

theorem afterInteger_of_end {c : Char} (hend : goesOn c = false) (negative : Bool) (n : Nat) :
    afterInteger negative n (c :: rest) = integer negative n (c :: rest) := by
  unfold afterInteger
  split <;> rename_i heq <;> first | (cases heq; cases hend) | rfl

theorem digit?_of_end {c : Char} (hend : goesOn c = false) : Text.digit? c = none := by
  simp only [goesOn, Bool.or_eq_false_iff] at hend
  rw [Text.digit?, hend.1.1.1]
  rfl

/-- The digits after the first are read as far as they go. -/
theorem integerDigits_of_digits {digits : List Char} {n : Nat} {negative : Bool}
    (hdigits : ∀ c ∈ digits, c.isDigit = true) (hfits : Nat.ofDigitChars 10 digits n < 2 ^ 64)
    (hend : ∀ c ∈ rest.head?, goesOn c = false) :
    integerDigits negative n (digits ++ rest) =
      integer negative (Nat.ofDigitChars 10 digits n) rest := by
  induction digits generalizing n with
  | nil =>
    cases rest with
    | nil => rfl
    | cons c rest =>
      have hc := hend c rfl
      rw [List.nil_append, integerDigits, digit?_of_end hc]
      exact afterInteger_of_end hc negative n
  | cons d digits ih =>
    obtain ⟨hd, hdigits⟩ := List.forall_mem_cons.mp hdigits
    have hnext : 10 * n + (d.toNat - 48) < 2 ^ 64 :=
      Nat.lt_of_le_of_lt (Text.le_ofDigitChars digits _) hfits
    rw [List.cons_append, integerDigits, Text.digit?_eq_some_iff.mpr ⟨hd, rfl⟩]
    simp only [if_pos hnext]
    exact ih hdigits hfits

/-- The decimal digits of a positive number begin with no zero. -/
theorem head_decimal_ne_zero {n : Nat} (hn : n ≠ 0) : ∀ c ∈ (Text.decimal n).head?, c ≠ '0' := by
  induction n using Nat.strongRecOn with
  | ind n ih =>
    by_cases hlast : n < 10
    · rw [Text.decimal, Nat.toDigits_of_lt_base hlast]
      rintro c ⟨⟩ hzero
      exact hn (Nat.digitChar_eq_zero.mp hzero)
    · have hshorter := ih (n / 10) (by omega) (by omega)
      obtain ⟨d, digits, hdigits⟩ := List.exists_cons_of_ne_nil (Text.decimal_ne_nil (n / 10))
      rw [hdigits] at hshorter
      rw [Text.decimal, Nat.toDigits_of_base_le (by decide) (by omega), ← Text.decimal, hdigits]
      exact hshorter

/-- The digits of a number are read as the number. -/
theorem number_decimal (negative : Bool) {n : Nat} (hfits : n < 2 ^ 64)
    (hend : ∀ c ∈ rest.head?, goesOn c = false) :
    number negative (Text.decimal n ++ rest) = integer negative n rest := by
  by_cases hn : n = 0
  · subst hn
    cases rest with
    | nil => rfl
    | cons c rest =>
      have hc := hend c rfl
      have hdigit : c.isDigit = false := by
        simp only [goesOn, Bool.or_eq_false_iff] at hc
        exact hc.1.1.1
      change number negative ('0' :: c :: rest) = _
      rw [number, hdigit]
      exact afterInteger_of_end hc negative 0
  · obtain ⟨d, digits, hdecimal⟩ := List.exists_cons_of_ne_nil (Text.decimal_ne_nil n)
    have hd : d ≠ '0' := head_decimal_ne_zero hn d (by rw [hdecimal]; rfl)
    have hdigits : ∀ c ∈ d :: digits, c.isDigit = true := fun c hc =>
      Text.isDigit_of_mem_decimal (hdecimal ▸ hc)
    have hvalue : Nat.ofDigitChars 10 digits (d.toNat - 48) = n := by
      have hall := Text.ofDigitChars_decimal n
      rw [hdecimal, Nat.ofDigitChars_cons, Nat.mul_zero, Nat.zero_add] at hall
      exact hall
    rw [hdecimal, List.cons_append, number.eq_3 _ _ _ (fun c s hzero => absurd hzero hd),
      Text.digit?_eq_some_iff.mpr ⟨hdigits d List.mem_cons_self, rfl⟩]
    refine (integerDigits_of_digits (fun c hc => hdigits c (List.mem_cons_of_mem d hc)) ?_
      hend).trans (congrArg (fun m => integer negative m rest) hvalue)
    rwa [hvalue]

theorem skip_of_mark {c : Char} (hc : isSpace c = false) (s : List Char) : skip (c :: s) = c :: s :=
  List.dropWhile_cons_of_neg (by rw [hc]; decide)

/-- Holds of the characters that a value begins with. -/
def Opens (c : Char) : Prop := isSpace c = false ∧ c ≠ ',' ∧ c ≠ ']'

theorem opens_of_isDigit {c : Char} (h : c.isDigit = true) : Opens c := by
  refine ⟨?_, ?_, ?_⟩
  · cases hspace : isSpace c with
    | false => rfl
    | true =>
      simp only [isSpace, Bool.or_eq_true, beq_iff_eq] at hspace
      rcases hspace with ((rfl | rfl) | rfl) | rfl <;> cases h
  · rintro rfl
    cases h
  · rintro rfl
    cases h

theorem exists_text {v : Json} {depth : Nat} (hv : v.IsExact depth) :
    ∃ c s, v.text = c :: s ∧ Opens c := by
  match v, hv with
  | .null, _ => exact ⟨_, _, rfl, rfl, by decide, by decide⟩
  | .bool true, _ => exact ⟨_, _, rfl, rfl, by decide, by decide⟩
  | .bool false, _ => exact ⟨_, _, rfl, rfl, by decide, by decide⟩
  | .string s, _ => exact ⟨_, _, rfl, rfl, by decide, by decide⟩
  | .array items, _ => exact ⟨_, _, rfl, rfl, by decide, by decide⟩
  | .object members, _ => exact ⟨_, _, rfl, rfl, by decide, by decide⟩
  | .number (.integer n), _ =>
    by_cases hneg : n < 0
    · exact ⟨_, _, if_pos hneg, rfl, by decide, by decide⟩
    · obtain ⟨d, digits, hdecimal⟩ := List.exists_cons_of_ne_nil (Text.decimal_ne_nil n.natAbs)
      refine ⟨d, digits, (if_neg hneg).trans hdecimal, opens_of_isDigit ?_⟩
      exact Text.isDigit_of_mem_decimal (hdecimal ▸ List.mem_cons_self)

section

variable {c : Char} {s : List Char} {fuel depth : Nat} {read : List Json}

theorem items_first (hc : Opens c) :
    items (fuel + 1) depth true read (c :: s) = item fuel depth read (c :: s) := by
  rw [items, skip_of_mark hc.1]
  split
  · next heq => cases heq
  · next heq => exact absurd (List.cons.inj heq).1 hc.2.2
  · next heq => exact absurd (List.cons.inj heq).1 hc.2.1
  · rfl

theorem items_next (hc : Opens c) :
    items (fuel + 1) depth false read (',' :: c :: s) = item fuel depth read (c :: s) := by
  simp only [items, skip_of_mark (rfl : isSpace ',' = false), skip_of_mark hc.1, Bool.false_eq_true,
    if_false]
  split
  · next heq => cases heq
  · next heq => exact absurd (List.cons.inj heq).1 hc.2.2
  · rfl

end

theorem value_number {n : Int} (hlow : -2 ^ 63 ≤ n) (hhigh : n < 2 ^ 64) (fuel depth : Nat)
    (hend : ∀ c ∈ rest.head?, goesOn c = false) :
    value (fuel + 1) depth (Text.signedDecimal n ++ rest) = .ok (.number (.integer n), rest) := by
  by_cases hneg : n < 0
  · have hinteger : integer true n.natAbs rest = .ok (.integer n, rest) := by
      rw [integer, Bool.not_true, if_neg Bool.false_ne_true, if_pos (by omega)]
      exact congrArg (fun m => Except.ok (JsonNumber.integer m, rest)) (by omega)
    rw [Text.signedDecimal, if_pos hneg, List.cons_append, value, skip_of_mark rfl]
    simp only [number_decimal true (by omega : n.natAbs < 2 ^ 64) hend, hinteger]
    rfl
  · have hnumber := number_decimal false (by omega : n.natAbs < 2 ^ 64) hend
    obtain ⟨d, digits, hdecimal⟩ := List.exists_cons_of_ne_nil (Text.decimal_ne_nil n.natAbs)
    have hd : d.isDigit = true := Text.isDigit_of_mem_decimal (hdecimal ▸ List.mem_cons_self)
    rw [hdecimal, List.cons_append] at hnumber
    rw [Text.signedDecimal, if_neg hneg, hdecimal, List.cons_append, value,
      skip_of_mark (opens_of_isDigit hd).1]
    have hinteger : integer false n.natAbs rest = .ok (.integer n, rest) :=
      congrArg (fun m => Except.ok (JsonNumber.integer m, rest)) (by omega)
    split <;> rename_i heq <;> cases heq <;> try cases hd
    rw [if_pos hd, hnumber, hinteger]
    rfl

/-- What follows an item goes on with no number: a comma, or what closes the whole. -/
theorem goesOn_of_more {α : Type} (f : α → List Char) (more : List α) (close : Char)
    (rest : List Char) (hclose : goesOn close = false) :
    ∀ c ∈ (more.flatMap (',' :: f ·) ++ close :: rest).head?, goesOn c = false := by
  cases more with
  | nil =>
    rintro _ ⟨⟩
    exact hclose
  | cons a more =>
    rintro _ ⟨⟩
    rfl

/-- An item is read off its compact form, and so are those after it. -/
theorem item_of_value {v : Json} {s : List Char} {fuel depth : Nat}
    (hvalue : value fuel depth s = .ok (v, rest)) (read : List Json) :
    item (fuel + 1) depth read s = items fuel depth false (v :: read) rest := by
  rw [item, hvalue]

/-- A member is read off its compact form, and so are those after it. -/
theorem memberFrom_of_value {v : Json} {fuel depth : Nat} {s : List Char}
    (hvalue : value fuel depth s = .ok (v, rest)) (name : String) (read : List (String × Json)) :
    memberFrom (fuel + 1) depth read (name.toList.flatMap Json.escapedChar ++ '\x22' :: ':' :: s) =
      members fuel depth false ((name, v) :: read) rest := by
  have hcolon : colon (':' :: s) = .ok s := by
    rw [colon, skip_of_mark rfl]
    rfl
  rw [memberFrom, string_of_length]
  simp only [hcolon, hvalue]

mutual

/-- A value is read off its compact form, whatever follows that does not go on with a number. -/
theorem value_text (v : Json) (fuel : Nat) {depth : Nat} {rest : List Char} (hv : v.IsExact depth)
    (hfuel : 2 * v.text.length ≤ fuel) (hend : ∀ c ∈ rest.head?, goesOn c = false) :
    value fuel depth (v.text ++ rest) = .ok (v, rest) := by
  obtain ⟨c, s, hopen, -⟩ := exists_text hv
  rw [hopen, List.length_cons] at hfuel
  obtain ⟨fuel, rfl⟩ : ∃ n, fuel = n + 1 := ⟨fuel - 1, by omega⟩
  rw [← List.length_cons, ← hopen] at hfuel
  match v, hv with
  | .null, _ => rw [value]; rfl
  | .bool true, _ => rw [value]; rfl
  | .bool false, _ => rw [value]; rfl
  | .number (.integer n), ⟨hlow, hhigh⟩ => exact value_number hlow hhigh fuel depth hend
  | .string s, _ =>
    rw [Json.text, Json.stringText, List.cons_append, List.cons_append, List.append_assoc, value,
      skip_of_mark rfl]
    simp only [List.cons_append, List.nil_append, string_of_length]
    rfl
  | .array [], ⟨hdepth, _⟩ =>
    obtain ⟨fuel, rfl⟩ : ∃ n, fuel = n + 1 := ⟨fuel - 1, by simp [Json.text] at hfuel; omega⟩
    rw [value]
    change (if depth = 0 then _ else items (fuel + 1) (depth - 1) true [] (']' :: rest)) = _
    rw [if_neg hdepth, items]
    rfl
  | .array (item :: more), ⟨hdepth, hitem, hmore⟩ =>
    obtain ⟨c, s, hitemOpen, hc⟩ := exists_text hitem
    rw [Json.text, Json.itemsText_cons, List.length_append, List.length_cons, List.length_append,
      List.length_singleton] at hfuel
    -- `items` and `item` take one each before the first item is read
    obtain ⟨fuel, rfl⟩ : ∃ n, fuel = n + 2 := ⟨fuel - 2, by omega⟩
    have hfirst := value_text item fuel hitem (by omega)
      (goesOn_of_more Json.text more ']' rest rfl)
    have hrest := items_text more fuel [item] rest hmore (by omega)
    rw [Json.text_array, value, skip_of_mark rfl]
    change (if depth = 0 then _ else items (fuel + 2) (depth - 1) true [] (item.text ++ _)) = _
    rw [if_neg hdepth, hitemOpen, List.cons_append, items_first hc, ← List.cons_append, ← hitemOpen,
      item_of_value hfirst, hrest]
    rfl
  | .object [], ⟨hdepth, _⟩ =>
    obtain ⟨fuel, rfl⟩ : ∃ n, fuel = n + 1 := ⟨fuel - 1, by simp [Json.text] at hfuel; omega⟩
    rw [value]
    change (if depth = 0 then _ else members (fuel + 1) (depth - 1) true [] ('\x7d' :: rest)) = _
    rw [if_neg hdepth, members]
    rfl
  | .object ((name, v) :: more), ⟨hdepth, hv, hmore⟩ =>
    have hlength := Json.length_memberText name v
    rw [Json.text, Json.membersText_cons, List.length_append, List.length_cons, List.length_append,
      List.length_singleton] at hfuel
    obtain ⟨fuel, rfl⟩ : ∃ n, fuel = n + 2 := ⟨fuel - 2, by omega⟩
    have hfirst := value_text v fuel hv (by omega)
      (goesOn_of_more Json.memberText more '\x7d' rest rfl)
    have hrest := members_text more fuel [(name, v)] rest hmore (by omega)
    rw [Json.text_object, Json.memberText_append, value, skip_of_mark rfl]
    change (if depth = 0 then _ else members (fuel + 2) (depth - 1) true [] ('\x22' :: _)) = _
    rw [if_neg hdepth, members, skip_of_mark rfl]
    change memberFrom (fuel + 1) (depth - 1) [] _ = _
    rw [memberFrom_of_value hfirst, hrest]
    rfl

/-- The items of an array after the first are read off their compact forms. -/
theorem items_text (vs : List Json) (fuel : Nat) {depth : Nat} (read : List Json)
    (rest : List Char) (hvs : Json.ItemsExact depth vs)
    (hfuel : 2 * (vs.flatMap (',' :: Json.text ·)).length < fuel) :
    items fuel depth false read (vs.flatMap (',' :: Json.text ·) ++ ']' :: rest) =
      .ok (.array (read.reverse ++ vs), rest) := by
  obtain ⟨fuel, rfl⟩ : ∃ n, fuel = n + 1 := ⟨fuel - 1, by omega⟩
  match vs, hvs with
  | [], _ =>
    rw [items, List.append_nil]
    rfl
  | v :: vs, ⟨hv, hvs⟩ =>
    obtain ⟨c, s, hopen, hc⟩ := exists_text hv
    rw [List.flatMap_cons, List.length_append, List.length_cons] at hfuel
    obtain ⟨fuel, rfl⟩ : ∃ n, fuel = n + 1 := ⟨fuel - 1, by omega⟩
    have hfirst := value_text v fuel hv (by omega)
      (goesOn_of_more Json.text vs ']' rest rfl)
    have hrest := items_text vs fuel (v :: read) rest hvs (by omega)
    rw [List.flatMap_cons, List.cons_append, List.cons_append, List.append_assoc, hopen,
      List.cons_append, items_next hc, ← List.cons_append, ← hopen, item_of_value hfirst, hrest,
      List.reverse_cons, List.append_assoc]
    rfl

/-- The members of an object after the first are read off their compact forms. -/
theorem members_text (ms : List (String × Json)) (fuel : Nat) {depth : Nat}
    (read : List (String × Json)) (rest : List Char) (hms : Json.MembersExact depth ms)
    (hfuel : 2 * (ms.flatMap (',' :: Json.memberText ·)).length < fuel) :
    members fuel depth false read (ms.flatMap (',' :: Json.memberText ·) ++ '\x7d' :: rest) =
      .ok (.object (read.reverse ++ ms), rest) := by
  obtain ⟨fuel, rfl⟩ : ∃ n, fuel = n + 1 := ⟨fuel - 1, by omega⟩
  match ms, hms with
  | [], _ =>
    rw [members, List.append_nil]
    rfl
  | (name, v) :: ms, ⟨hv, hms⟩ =>
    have hlength := Json.length_memberText name v
    rw [List.flatMap_cons, List.length_append, List.length_cons] at hfuel
    obtain ⟨fuel, rfl⟩ : ∃ n, fuel = n + 1 := ⟨fuel - 1, by omega⟩
    have hfirst := value_text v fuel hv (by omega)
      (goesOn_of_more Json.memberText ms '\x7d' rest rfl)
    have hrest := members_text ms fuel ((name, v) :: read) rest hms (by omega)
    rw [List.flatMap_cons, List.cons_append, List.cons_append, List.append_assoc,
      Json.memberText_append, members, skip_of_mark rfl]
    simp only [skip_of_mark (rfl : isSpace '\x22' = false), Bool.false_eq_true, if_false]
    rw [memberFrom_of_value hfirst, hrest, List.reverse_cons, List.append_assoc]
    rfl

end

/-- A text that is the compact form of a value is read as the value. -/
theorem document_text {v : Json} (hv : v.IsExact depthLimit) : document v.text = .ok v := by
  have hvalue : value (4 * v.text.length + 4) depthLimit (v.text ++ []) = .ok (v, []) :=
    value_text v _ hv (by omega) (by simp)
  rw [List.append_nil] at hvalue
  rw [document, hvalue]
  rfl

end JsonReader

namespace Json

theorem readAsWritten_text {v : Json} (hv : v.IsExact JsonReader.depthLimit) :
    readAsWritten v.text = .ok v := by
  rw [readAsWritten, JsonReader.document_text hv]
  rfl

/-- **Octets of the compact form of a value are read as the value**, its members in their
places. -/
theorem readOctets_text {v : Json} (hv : v.IsExact JsonReader.depthLimit) :
    readOctets (Text.encode v.text) = .ok v.sorted := by
  have hdecode : Text.decodePart (Text.encode v.text) = (v.text, []) :=
    Text.decodeUpTo_encode (Text.length_le_encode v.text)
  rw [readOctets, hdecode]
  change read v.text = _
  rw [read, readAsWritten_text hv]
  rfl

end Json

end Almanac
