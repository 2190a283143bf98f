/-!
# Text as octets

The UTF-8 form of a text: how many octets it takes, the octets themselves, and
reading them back. Positions in messages count octets, and bodies of requests
arrive as octets that need not be well formed. Octets are the form of at most one text,
and they are read as that text only: `decode?_eq_some_iff`.
-/

namespace Almanac.Text

def octetCount (s : List Char) : Nat :=
  s.foldl (fun n c => n + c.utf8Size) 0

def encode (s : List Char) : List UInt8 :=
  s.flatMap String.utf8EncodeChar

/-- The six bits that an octet after the first carries. -/
def continuation? (b : UInt8) : Option Nat :=
  if 0x80 ≤ b.toNat ∧ b.toNat < 0xC0 then some (b.toNat - 0x80) else none

/-- A scalar value that needs its length: at least `least`, and no surrogate. -/
def scalar? (least value : Nat) : Option Char :=
  if least ≤ value ∧ value.isValidChar then some (Char.ofNat value) else none

/-- The character that a sequence of octets begins with, and the octets after it. -/
def decodeChar? : List UInt8 → Option (Char × List UInt8)
  | [] => none
  | a :: rest =>
    let n := a.toNat
    if n < 0x80 then some (Char.ofNat n, rest)
    else if n < 0xC0 then none
    else if n < 0xE0 then
      match rest with
      | b :: rest => do
        let x ← continuation? b
        let c ← scalar? 0x80 ((n - 0xC0) * 64 + x)
        some (c, rest)
      | _ => none
    else if n < 0xF0 then
      match rest with
      | b :: c :: rest => do
        let x ← continuation? b
        let y ← continuation? c
        let c ← scalar? 0x800 (((n - 0xE0) * 64 + x) * 64 + y)
        some (c, rest)
      | _ => none
    else if n < 0xF8 then
      match rest with
      | b :: c :: d :: rest => do
        let x ← continuation? b
        let y ← continuation? c
        let z ← continuation? d
        let c ← scalar? 0x10000 ((((n - 0xF0) * 64 + x) * 64 + y) * 64 + z)
        some (c, rest)
      | _ => none
    else none

/-- Reads at most `n` characters: those up to the first ill-formed octet, and what is left. -/
def decodeUpTo : Nat → List UInt8 → List Char × List UInt8
  | 0, bytes => ([], bytes)
  | n + 1, bytes =>
    match decodeChar? bytes with
    | none => ([], bytes)
    | some (c, rest) =>
      let (chars, left) := decodeUpTo n rest
      (c :: chars, left)

/-- The longest well-formed beginning of a sequence of octets, and what is left of it. -/
def decodePart (bytes : List UInt8) : List Char × List UInt8 :=
  decodeUpTo bytes.length bytes

/-- The text of a well-formed sequence of octets. -/
def decode? (bytes : List UInt8) : Option (List Char) :=
  match decodePart bytes with
  | (chars, []) => some chars
  | _ => none

/-- The text of a sequence of octets, each ill-formed one replaced by U+FFFD. -/
def decodeLossy : Nat → List UInt8 → List Char
  | 0, _ => []
  | _ + 1, [] => []
  | n + 1, b :: bytes =>
    match decodeChar? (b :: bytes) with
    | none => Char.ofNat 0xFFFD :: decodeLossy n bytes
    | some (c, rest) => c :: decodeLossy n rest

/-- The octet of a number below 256 has that number. -/
theorem toNat_ofNat_octet {n : Nat} (hn : n < 256) : (UInt8.ofNat n).toNat = n :=
  UInt8.toNat_ofNat_of_lt' hn

theorem eq_ofNat_iff {b : UInt8} {n : Nat} (hn : n < 256) : b = UInt8.ofNat n ↔ b.toNat = n := by
  rw [← UInt8.toNat_inj, toNat_ofNat_octet hn]

theorem toNat_lt_of_valid (c : Char) : c.toNat < 0x110000 := by
  rcases c.valid with h | h
  · exact Nat.lt_trans h (by decide)
  · exact h.2

theorem continuation?_eq_some_iff {b : UInt8} {x : Nat} :
    continuation? b = some x ↔ x < 64 ∧ b = UInt8.ofNat (x + 128) := by
  rw [continuation?, Option.ite_none_right_eq_some, Option.some_inj]
  constructor
  · rintro ⟨⟨hlow, hhigh⟩, hx⟩
    exact ⟨by omega, (eq_ofNat_iff (by omega)).mpr (by omega)⟩
  · rintro ⟨hx, hb⟩
    rw [eq_ofNat_iff (by omega)] at hb
    omega

theorem scalar?_eq_some_iff {least value : Nat} {c : Char} :
    scalar? least value = some c ↔ least ≤ value ∧ c.toNat = value := by
  rw [scalar?, Option.ite_none_right_eq_some, Option.some_inj]
  constructor
  · rintro ⟨⟨hl, hv⟩, rfl⟩
    have hchar : Char.ofNat value = Char.ofNatAux value hv := dif_pos hv
    exact ⟨hl, congrArg Char.toNat hchar⟩
  · rintro ⟨hl, rfl⟩
    exact ⟨⟨hl, c.valid⟩, Char.ofNat_toNat c⟩

/-- The octets of a character by the number of it. -/
theorem encodeChar_eq (c : Char) :
    String.utf8EncodeChar c =
      if c.toNat ≤ 0x7F then [UInt8.ofNat c.toNat]
      else if c.toNat ≤ 0x7FF then
        [UInt8.ofNat (c.toNat / 64 % 32 + 192), UInt8.ofNat (c.toNat % 64 + 128)]
      else if c.toNat ≤ 0xFFFF then
        [UInt8.ofNat (c.toNat / 4096 % 16 + 224), UInt8.ofNat (c.toNat / 64 % 64 + 128),
          UInt8.ofNat (c.toNat % 64 + 128)]
      else
        [UInt8.ofNat (c.toNat / 262144 % 8 + 240), UInt8.ofNat (c.toNat / 4096 % 64 + 128),
          UInt8.ofNat (c.toNat / 64 % 64 + 128), UInt8.ofNat (c.toNat % 64 + 128)] :=
  rfl

theorem encodeChar_of_one {a : UInt8} (ha : a.toNat < 0x80) :
    String.utf8EncodeChar (Char.ofNat a.toNat) = [a] := by
  have hn : (Char.ofNat a.toNat).toNat = a.toNat :=
    (scalar?_eq_some_iff.mp (if_pos ⟨Nat.zero_le _, Or.inl (by omega)⟩)).2
  rw [encodeChar_eq, hn, if_pos (by omega), UInt8.ofNat_toNat]

theorem encodeChar_of_two {a : UInt8} {c : Char} {x : Nat} (hx : x < 64)
    (ha : 0xC0 ≤ a.toNat ∧ a.toNat < 0xE0)
    (hc : 0x80 ≤ (a.toNat - 0xC0) * 64 + x ∧ c.toNat = (a.toNat - 0xC0) * 64 + x) :
    String.utf8EncodeChar c = [a, UInt8.ofNat (x + 128)] := by
  have hlead : a = UInt8.ofNat (c.toNat / 64 % 32 + 192) :=
    (eq_ofNat_iff (by omega)).mpr (by omega)
  have hlast : c.toNat % 64 = x := by omega
  rw [encodeChar_eq, if_neg (by omega), if_pos (by omega), ← hlead, hlast]

theorem encodeChar_of_three {a : UInt8} {c : Char} {x y : Nat} (hx : x < 64) (hy : y < 64)
    (ha : 0xE0 ≤ a.toNat ∧ a.toNat < 0xF0)
    (hc : 0x800 ≤ ((a.toNat - 0xE0) * 64 + x) * 64 + y ∧
      c.toNat = ((a.toNat - 0xE0) * 64 + x) * 64 + y) :
    String.utf8EncodeChar c = [a, UInt8.ofNat (x + 128), UInt8.ofNat (y + 128)] := by
  have hlead : a = UInt8.ofNat (c.toNat / 4096 % 16 + 224) :=
    (eq_ofNat_iff (by omega)).mpr (by omega)
  have hmiddle : c.toNat / 64 % 64 = x := by omega
  have hlast : c.toNat % 64 = y := by omega
  rw [encodeChar_eq, if_neg (by omega), if_neg (by omega), if_pos (by omega), ← hlead, hmiddle,
    hlast]

theorem encodeChar_of_four {a : UInt8} {c : Char} {x y z : Nat} (hx : x < 64) (hy : y < 64)
    (hz : z < 64) (ha : 0xF0 ≤ a.toNat ∧ a.toNat < 0xF8)
    (hc : 0x10000 ≤ (((a.toNat - 0xF0) * 64 + x) * 64 + y) * 64 + z ∧
      c.toNat = (((a.toNat - 0xF0) * 64 + x) * 64 + y) * 64 + z) :
    String.utf8EncodeChar c =
      [a, UInt8.ofNat (x + 128), UInt8.ofNat (y + 128), UInt8.ofNat (z + 128)] := by
  have hlead : a = UInt8.ofNat (c.toNat / 262144 % 8 + 240) :=
    (eq_ofNat_iff (by omega)).mpr (by omega)
  have hsecond : c.toNat / 4096 % 64 = x := by omega
  have hthird : c.toNat / 64 % 64 = y := by omega
  have hlast : c.toNat % 64 = z := by omega
  rw [encodeChar_eq, if_neg (by omega), if_neg (by omega), if_neg (by omega), ← hlead, hsecond,
    hthird, hlast]

/-- A character is read back from its octets, whatever follows them. -/
theorem decodeChar?_encodeChar_append (c : Char) (rest : List UInt8) :
    decodeChar? (String.utf8EncodeChar c ++ rest) = some (c, rest) := by
  have hc := toNat_lt_of_valid c
  have hscalar {least n : Nat} (hl : least ≤ c.toNat) (hn : n = c.toNat) :
      scalar? least n = some c := scalar?_eq_some_iff.mpr ⟨hn ▸ hl, hn.symm⟩
  have hcont {x : Nat} (hx : x < 64) : continuation? (UInt8.ofNat (x + 128)) = some x :=
    continuation?_eq_some_iff.mpr ⟨hx, rfl⟩
  rw [encodeChar_eq]
  split
  · have ha : (UInt8.ofNat c.toNat).toNat = c.toNat := toNat_ofNat_octet (by omega)
    simp only [List.cons_append, List.nil_append, decodeChar?, ha]
    rw [if_pos (by omega), Char.ofNat_toNat]
  · split
    · have ha : (UInt8.ofNat (c.toNat / 64 % 32 + 192)).toNat = c.toNat / 64 % 32 + 192 :=
        toNat_ofNat_octet (by omega)
      simp only [List.cons_append, List.nil_append, decodeChar?, ha]
      rw [if_neg (by omega), if_neg (by omega), if_pos (by omega), hcont (by omega)]
      simp only [Option.bind_eq_bind, Option.bind_some]
      rw [hscalar (by omega) (by omega), Option.bind_some]
    · split
      · have ha : (UInt8.ofNat (c.toNat / 4096 % 16 + 224)).toNat = c.toNat / 4096 % 16 + 224 :=
          toNat_ofNat_octet (by omega)
        simp only [List.cons_append, List.nil_append, decodeChar?, ha]
        rw [if_neg (by omega), if_neg (by omega), if_neg (by omega), if_pos (by omega),
          hcont (by omega), hcont (by omega)]
        simp only [Option.bind_eq_bind, Option.bind_some]
        rw [hscalar (by omega) (by omega), Option.bind_some]
      · have ha : (UInt8.ofNat (c.toNat / 262144 % 8 + 240)).toNat =
            c.toNat / 262144 % 8 + 240 := toNat_ofNat_octet (by omega)
        simp only [List.cons_append, List.nil_append, decodeChar?, ha]
        rw [if_neg (by omega), if_neg (by omega), if_neg (by omega), if_neg (by omega),
          if_pos (by omega), hcont (by omega), hcont (by omega), hcont (by omega)]
        simp only [Option.bind_eq_bind, Option.bind_some]
        rw [hscalar (by omega) (by omega), Option.bind_some]

/-- What is read as a character is the octets of that character: no longer form of it is. -/
theorem eq_append_of_decodeChar? {bytes rest : List UInt8} {c : Char}
    (h : decodeChar? bytes = some (c, rest)) : bytes = String.utf8EncodeChar c ++ rest := by
  cases bytes with
  | nil => cases h
  | cons a bytes =>
    simp only [decodeChar?] at h
    split at h
    · next hone =>
      simp only [Option.some.injEq, Prod.mk.injEq] at h
      obtain ⟨rfl, rfl⟩ := h
      rw [encodeChar_of_one hone, List.cons_append, List.nil_append]
    · rw [Option.ite_none_left_eq_some] at h
      obtain ⟨hlow, h⟩ := h
      split at h
      · next htwo =>
        split at h
        · simp only [Option.bind_eq_bind, Option.bind_eq_some_iff, continuation?_eq_some_iff,
            scalar?_eq_some_iff, Option.some.injEq, Prod.mk.injEq] at h
          obtain ⟨x, ⟨hx, rfl⟩, c, hc, rfl, rfl⟩ := h
          rw [encodeChar_of_two hx ⟨Nat.le_of_not_lt hlow, htwo⟩ hc]
          rfl
        · cases h
      · next htwo =>
        split at h
        · next hthree =>
          split at h
          · simp only [Option.bind_eq_bind, Option.bind_eq_some_iff, continuation?_eq_some_iff,
              scalar?_eq_some_iff, Option.some.injEq, Prod.mk.injEq] at h
            obtain ⟨x, ⟨hx, rfl⟩, y, ⟨hy, rfl⟩, c, hc, rfl, rfl⟩ := h
            rw [encodeChar_of_three hx hy ⟨Nat.le_of_not_lt htwo, hthree⟩ hc]
            rfl
          · cases h
        · next hthree =>
          rw [Option.ite_none_right_eq_some] at h
          obtain ⟨hhigh, h⟩ := h
          split at h
          · simp only [Option.bind_eq_bind, Option.bind_eq_some_iff, continuation?_eq_some_iff,
              scalar?_eq_some_iff, Option.some.injEq, Prod.mk.injEq] at h
            obtain ⟨x, ⟨hx, rfl⟩, y, ⟨hy, rfl⟩, z, ⟨hz, rfl⟩, c, hc, rfl, rfl⟩ := h
            rw [encodeChar_of_four hx hy hz ⟨Nat.le_of_not_lt hthree, hhigh⟩ hc]
            rfl
          · cases h

theorem decodeChar?_eq_some_iff {bytes rest : List UInt8} {c : Char} :
    decodeChar? bytes = some (c, rest) ↔ bytes = String.utf8EncodeChar c ++ rest := by
  constructor
  · exact eq_append_of_decodeChar?
  · rintro rfl
    exact decodeChar?_encodeChar_append c rest

/-- What `decodeUpTo` reads and what it leaves make up what it was given. -/
theorem encode_decodeUpTo (n : Nat) (bytes : List UInt8) :
    encode (decodeUpTo n bytes).1 ++ (decodeUpTo n bytes).2 = bytes := by
  induction n generalizing bytes with
  | zero => rfl
  | succ n ih =>
    rw [decodeUpTo]
    split
    · rfl
    · next c rest h =>
      rw [decodeChar?_eq_some_iff.mp h]
      simp only [encode, List.flatMap_cons, List.append_assoc]
      exact congrArg (String.utf8EncodeChar c ++ ·) (ih rest)

theorem decodeUpTo_encode {n : Nat} {s : List Char} (h : s.length ≤ n) :
    decodeUpTo n (encode s) = (s, []) := by
  induction s generalizing n with
  | nil => cases n <;> rfl
  | cons c s ih =>
    cases n with
    | zero => cases h
    | succ n =>
      have hread : decodeChar? (encode (c :: s)) = some (c, encode s) :=
        decodeChar?_eq_some_iff.mpr rfl
      simp only [decodeUpTo, hread, ih (Nat.le_of_succ_le_succ h)]

theorem length_le_encode (s : List Char) : s.length ≤ (encode s).length := by
  induction s with
  | nil => exact Nat.le_refl 0
  | cons c s ih =>
    have hc : 0 < (String.utf8EncodeChar c).length := by
      rw [String.length_utf8EncodeChar]
      exact Char.utf8Size_pos c
    have hlen : (encode (c :: s)).length =
        (String.utf8EncodeChar c).length + (encode s).length := List.length_append
    rw [List.length_cons]
    omega

/-- Octets are the form of one text at most, and are read as that text only. -/
theorem decode?_eq_some_iff {bytes : List UInt8} {s : List Char} :
    decode? bytes = some s ↔ bytes = encode s := by
  constructor
  · intro h
    have hparts := encode_decodeUpTo bytes.length bytes
    rw [decode?, decodePart] at h
    split at h
    · next chars hread =>
      cases h
      rw [hread, List.append_nil] at hparts
      exact hparts.symm
    · cases h
  · rintro rfl
    rw [decode?, decodePart, decodeUpTo_encode (length_le_encode s)]

example : decode? (encode "aé€😀".toList) = some "aé€😀".toList := by decide
example : decode? [0xED, 0xA0, 0x80] = none := by decide
example : decode? [0xC0, 0x80] = none := by decide

end Almanac.Text
