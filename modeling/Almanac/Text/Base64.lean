import Almanac.Text.Octets

/-!
# Base 64

Octets in the standard alphabet, three to four characters, padded with `=`. Reading is
strict: padding is required, and the bits that are left over have to be zero. So octets
have one form, and only that form is read as them: `decode?_eq_some_iff`.
-/

namespace Almanac.Text.Base64

def charOf (n : Nat) : Char :=
  if n < 26 then Char.ofNat (65 + n)
  else if n < 52 then Char.ofNat (97 + (n - 26))
  else if n < 62 then Char.ofNat (48 + (n - 52))
  else if n = 62 then '+' else '/'

def valueOf? (c : Char) : Option Nat :=
  if 'A' ≤ c ∧ c ≤ 'Z' then some (c.toNat - 65)
  else if 'a' ≤ c ∧ c ≤ 'z' then some (c.toNat - 97 + 26)
  else if '0' ≤ c ∧ c ≤ '9' then some (c.toNat - 48 + 52)
  else if c = '+' then some 62
  else if c = '/' then some 63
  else none

def encode : List UInt8 → List Char
  | [] => []
  | [a] =>
    let n := a.toNat * 16
    [charOf (n / 64), charOf (n % 64), '=', '=']
  | [a, b] =>
    let n := (a.toNat * 256 + b.toNat) * 4
    [charOf (n / 4096), charOf (n / 64 % 64), charOf (n % 64), '=']
  | a :: b :: c :: rest =>
    let n := (a.toNat * 256 + b.toNat) * 256 + c.toNat
    charOf (n / 262144) :: charOf (n / 4096 % 64) :: charOf (n / 64 % 64) :: charOf (n % 64) ::
      encode rest

def decode? : List Char → Option (List UInt8)
  | [] => some []
  | [a, b, '=', '='] => do
    let x ← valueOf? a
    let y ← valueOf? b
    if y % 16 = 0 then some [UInt8.ofNat (x * 4 + y / 16)] else none
  | [a, b, c, '='] => do
    let x ← valueOf? a
    let y ← valueOf? b
    let z ← valueOf? c
    let n := (x * 64 + y) * 64 + z
    if n % 4 = 0 then some [UInt8.ofNat (n / 1024), UInt8.ofNat (n / 4 % 256)] else none
  | a :: b :: c :: d :: rest => do
    let x ← valueOf? a
    let y ← valueOf? b
    let z ← valueOf? c
    let w ← valueOf? d
    let n := ((x * 64 + y) * 64 + z) * 64 + w
    let more ← decode? rest
    some (UInt8.ofNat (n / 65536) :: UInt8.ofNat (n / 256 % 256) :: UInt8.ofNat (n % 256) :: more)
  | _ => none

theorem valueOf?_charOf {n : Nat} (h : n < 64) : valueOf? (charOf n) = some n := by
  have hall : ∀ k : Fin 64, valueOf? (charOf k) = some k.val := by decide
  exact hall ⟨n, h⟩

theorem charOf_ne_padding {n : Nat} (h : n < 64) : charOf n ≠ '=' := by
  have hall : ∀ k : Fin 64, charOf k ≠ '=' := by decide
  exact hall ⟨n, h⟩

theorem ofNat_first_add {c : Char} {first : Nat} (h : first ≤ c.toNat) :
    Char.ofNat (first + (c.toNat - first)) = c := by
  rw [Nat.add_sub_cancel' h, Char.ofNat_toNat]

/-- Each of the 64 characters has one number, and no other character has one. -/
theorem valueOf?_eq_some_iff {c : Char} {n : Nat} :
    valueOf? c = some n ↔ n < 64 ∧ c = charOf n := by
  constructor
  · intro h
    have hle {a b : Char} : a ≤ b ↔ a.toNat ≤ b.toNat := Iff.rfl
    simp only [valueOf?, hle, Char.reduceToNat] at h
    split at h
    · next hc =>
      obtain rfl := Option.some.inj h
      refine ⟨by omega, ?_⟩
      rw [charOf, if_pos (by omega), ofNat_first_add hc.1]
    · split at h
      · next hc =>
        obtain rfl := Option.some.inj h
        refine ⟨by omega, ?_⟩
        rw [charOf, if_neg (by omega), if_pos (by omega), Nat.add_sub_cancel, ofNat_first_add hc.1]
      · split at h
        · next hc =>
          obtain rfl := Option.some.inj h
          refine ⟨by omega, ?_⟩
          rw [charOf, if_neg (by omega), if_neg (by omega), if_pos (by omega), Nat.add_sub_cancel,
            ofNat_first_add hc.1]
        · split at h
          · next hc =>
            obtain rfl := Option.some.inj h
            exact ⟨by decide, hc⟩
          · rw [Option.ite_none_right_eq_some] at h
            obtain ⟨hc, hn⟩ := h
            obtain rfl := Option.some.inj hn
            exact ⟨by decide, hc⟩
  · rintro ⟨hn, rfl⟩
    exact valueOf?_charOf hn

/-- What is written is read back. -/
theorem decode?_encode (bytes : List UInt8) : decode? (encode bytes) = some bytes := by
  fun_induction encode bytes with
  | case1 => rfl
  | case2 a n =>
    have ha := a.toNat_lt
    rw [decode?, valueOf?_charOf (by omega), valueOf?_charOf (by omega)]
    simp only [Option.bind_eq_bind, Option.bind_some]
    rw [if_pos (by omega), show n / 64 * 4 + n % 64 / 16 = a.toNat by omega, UInt8.ofNat_toNat]
  | case3 a b n =>
    have ha := a.toNat_lt
    have hb := b.toNat_lt
    rw [decode?.eq_3 _ _ _ (charOf_ne_padding (by omega)), valueOf?_charOf (by omega),
      valueOf?_charOf (by omega), valueOf?_charOf (by omega)]
    simp only [Option.bind_eq_bind, Option.bind_some]
    have hn : (n / 4096 * 64 + n / 64 % 64) * 64 + n % 64 = n := by omega
    rw [hn, if_pos (by omega), show n / 1024 = a.toNat by omega,
      show n / 4 % 256 = b.toNat by omega, UInt8.ofNat_toNat, UInt8.ofNat_toNat]
  | case4 a b c rest n ih =>
    have ha := a.toNat_lt
    have hb := b.toNat_lt
    have hc := c.toNat_lt
    have hlast : charOf (n % 64) ≠ '=' := charOf_ne_padding (by omega)
    rw [decode?.eq_4 _ _ _ _ _ (fun _ h _ => hlast h) (fun h _ => hlast h),
      valueOf?_charOf (by omega), valueOf?_charOf (by omega), valueOf?_charOf (by omega),
      valueOf?_charOf (by omega), ih]
    simp only [Option.bind_eq_bind, Option.bind_some]
    have hn : ((n / 262144 * 64 + n / 4096 % 64) * 64 + n / 64 % 64) * 64 + n % 64 = n := by omega
    rw [hn, show n / 65536 = a.toNat by omega, show n / 256 % 256 = b.toNat by omega,
      show n % 256 = c.toNat by omega, UInt8.ofNat_toNat, UInt8.ofNat_toNat, UInt8.ofNat_toNat]

/-- What is read is the written form of the octets it gives, so nothing else is read as them. -/
theorem eq_encode_of_decode? {s : List Char} {bytes : List UInt8} (h : decode? s = some bytes) :
    s = encode bytes := by
  fun_induction decode? s generalizing bytes with
  | case1 =>
    cases h
    rfl
  | case2 a b =>
    simp only [Option.bind_eq_bind, Option.bind_eq_some_iff, valueOf?_eq_some_iff,
      Option.ite_none_right_eq_some, Option.some.injEq] at h
    obtain ⟨x, ⟨hx, rfl⟩, y, ⟨hy, rfl⟩, hspare, rfl⟩ := h
    have ha : (UInt8.ofNat (x * 4 + y / 16)).toNat = x * 4 + y / 16 :=
      toNat_ofNat_octet (by omega)
    simp only [encode, ha]
    rw [show (x * 4 + y / 16) * 16 / 64 = x by omega,
      show (x * 4 + y / 16) * 16 % 64 = y by omega]
  | case3 a b c hc =>
    simp only [Option.bind_eq_bind, Option.bind_eq_some_iff, valueOf?_eq_some_iff,
      Option.ite_none_right_eq_some, Option.some.injEq] at h
    obtain ⟨x, ⟨hx, rfl⟩, y, ⟨hy, rfl⟩, z, ⟨hz, rfl⟩, hspare, rfl⟩ := h
    obtain ⟨n, hn⟩ : ∃ n, n = (x * 64 + y) * 64 + z := ⟨_, rfl⟩
    rw [← hn] at hspare ⊢
    have ha : (UInt8.ofNat (n / 1024)).toNat = n / 1024 := toNat_ofNat_octet (by omega)
    have hb : (UInt8.ofNat (n / 4 % 256)).toNat = n / 4 % 256 := toNat_ofNat_octet (by omega)
    have hsame : (n / 1024 * 256 + n / 4 % 256) * 4 = n := by omega
    simp only [encode, ha, hb, hsame]
    rw [show n / 4096 = x by omega, show n / 64 % 64 = y by omega, show n % 64 = z by omega]
  | case4 a b c d rest h1 h2 ih =>
    simp only [Option.bind_eq_bind, Option.bind_eq_some_iff, valueOf?_eq_some_iff,
      Option.some.injEq] at h
    obtain ⟨x, ⟨hx, rfl⟩, y, ⟨hy, rfl⟩, z, ⟨hz, rfl⟩, w, ⟨hw, rfl⟩, more, hmore, rfl⟩ := h
    obtain ⟨n, hn⟩ : ∃ n, n = ((x * 64 + y) * 64 + z) * 64 + w := ⟨_, rfl⟩
    rw [← hn, ih hmore]
    have ha : (UInt8.ofNat (n / 65536)).toNat = n / 65536 := toNat_ofNat_octet (by omega)
    have hb : (UInt8.ofNat (n / 256 % 256)).toNat = n / 256 % 256 :=
      toNat_ofNat_octet (by omega)
    have hc : (UInt8.ofNat (n % 256)).toNat = n % 256 := toNat_ofNat_octet (by omega)
    have hsame : (n / 65536 * 256 + n / 256 % 256) * 256 + n % 256 = n := by omega
    simp only [encode, ha, hb, hc, hsame]
    rw [show n / 262144 = x by omega, show n / 4096 % 64 = y by omega,
      show n / 64 % 64 = z by omega, show n % 64 = w by omega]
  | case5 => cases h

/-- What is written is characters of the alphabet and padding. -/
theorem mem_encode {c : Char} {bytes : List UInt8} (h : c ∈ encode bytes) :
    c = '=' ∨ ∃ n, n < 64 ∧ c = charOf n := by
  fun_induction encode bytes with
  | case1 => cases h
  | case2 a n =>
    have ha := a.toNat_lt
    simp only [List.mem_cons, List.not_mem_nil, or_false] at h
    rcases h with h | h | h | h
    · exact .inr ⟨_, by omega, h⟩
    · exact .inr ⟨_, by omega, h⟩
    · exact .inl h
    · exact .inl h
  | case3 a b n =>
    have ha := a.toNat_lt
    have hb := b.toNat_lt
    simp only [List.mem_cons, List.not_mem_nil, or_false] at h
    rcases h with h | h | h | h
    · exact .inr ⟨_, by omega, h⟩
    · exact .inr ⟨_, by omega, h⟩
    · exact .inr ⟨_, by omega, h⟩
    · exact .inl h
  | case4 a b c rest n ih =>
    have ha := a.toNat_lt
    have hb := b.toNat_lt
    have hc := c.toNat_lt
    simp only [List.mem_cons] at h
    rcases h with h | h | h | h | h
    · exact .inr ⟨_, by omega, h⟩
    · exact .inr ⟨_, by omega, h⟩
    · exact .inr ⟨_, by omega, h⟩
    · exact .inr ⟨_, by omega, h⟩
    · exact ih h

theorem decode?_eq_some_iff {s : List Char} {bytes : List UInt8} :
    decode? s = some bytes ↔ s = encode bytes := by
  constructor
  · exact eq_encode_of_decode?
  · rintro rfl
    exact decode?_encode bytes

example : encode [77, 97] = ['T', 'W', 'E', '='] := by decide
example : decode? ['T', 'W', 'E', '='] = some [77, 97] := by decide
example : decode? ['T', 'W', 'F', '='] = none := by decide

end Almanac.Text.Base64
