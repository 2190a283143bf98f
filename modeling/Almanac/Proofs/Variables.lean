import Almanac.Proofs.Grammar

/-!
# What variables mean

A text is read as the grammar says, and one that it has no meaning for is taken as it stands. So
the texts that come through unchanged are those without a meaning, and the words without blanks
around them that are no number.
-/

namespace Almanac.Variable

/-- What is written by the grammar is read with so much fuel. -/
structure ReadsAll (fuel : Nat) : Prop where
  value {v rest : List Char} {d : Datum} (h : Means v d) (hrest : IsEnd rest)
    (hfuel : 2 * v.length < fuel) : value? fuel (v ++ rest) = some (d, rest)
  items {m : List Char} {new : List Datum} (h : Items m new) (hfuel : 2 * m.length ≤ fuel)
    (read : List Datum) (rest : List Char) :
    items? fuel read (m ++ rest) = some (read.reverse ++ new, rest)
  members {read members : List (String × Datum)} {m : List Char} (h : Members read m members)
    (hfuel : 2 * m.length ≤ fuel) (rest : List Char) :
    members? fuel read (m ++ rest) = some (members, rest)

/-- What a word does not begin with, it does not begin with in front of a separator either. -/
theorem IsEnd.not_prefix {s rest start : List Char} (hrest : IsEnd rest)
    (hstart : start.any Variable.isSeparator = false) (h : ¬start <+: s) :
    ¬start <+: s ++ rest := by
  intro hprefix
  rcases List.prefix_or_prefix_of_prefix hprefix (List.prefix_append s rest) with hle | hle
  · exact h hle
  · obtain ⟨more, rfl⟩ := hle
    rw [List.prefix_append_right_inj] at hprefix
    cases more with
    | nil => exact h (by simp)
    | cons c more =>
      obtain ⟨after, rfl⟩ := hprefix
      have hc := hrest.isSeparator c rfl
      exact List.any_eq_false.mp hstart c (by simp) hc

theorem ReadsAll.word_succ {fuel : Nat} {before s rest : List Char} (hbefore : IsSpaces before)
    (hs : IsWord s) (hrest : IsEnd rest) :
    value? (fuel + 1) (before ++ s ++ rest) =
      some (.scalar .environment (ofWord (Text.trim s)), rest) := by
  have hhead : ∀ c ∈ (s ++ rest).head?, isSpace c = false ∧ c ≠ '\x22' ∧ c ≠ '\x27' ∧
      c ≠ '\x7b' ∧ c ≠ '[' := by
    intro c hc
    cases s with
    | nil => rcases hrest c hc with rfl | rfl | rfl <;> decide
    | cons a s =>
      obtain rfl : a = c := Option.some_inj.mp hc
      obtain ⟨hspace, hquote, hmark⟩ := hs.opens a rfl
      have hfree := hs.free a List.mem_cons_self
      refine ⟨hspace, hquote, hmark, ?_, ?_⟩
      · rintro rfl
        cases hfree
      · rintro rfl
        cases hfree
  have hskip : skip (before ++ s ++ rest) = s ++ rest := by
    rw [List.append_assoc]
    exact skip_append hbefore fun c hc => (hhead c hc).1
  have htrue : after? "true".toList (s ++ rest) = none :=
    after?_eq_none_iff.mpr (hrest.not_prefix (by decide) hs.truth)
  have hfalse : after? "false".toList (s ++ rest) = none :=
    after?_eq_none_iff.mpr (hrest.not_prefix (by decide) hs.falsehood)
  obtain ⟨hword, hafter⟩ := Places.parted_iff (p := fun c => !isSeparator c) |>.mpr
    ⟨rfl, fun c hc => by simp [hs.free c hc], fun c hc => by simp [hrest.isSeparator c hc]⟩
  have hend : skip rest = rest := hrest.skip_append isSpaces_nil
  simp only [value?, hskip, htrue, hfalse]
  split
  · next heq => exact absurd rfl (hhead _ (by rw [heq]; rfl)).2.2.2.1
  · next heq => exact absurd rfl (hhead _ (by rw [heq]; rfl)).2.2.2.2
  · next heq => exact absurd rfl (hhead _ (by rw [heq]; rfl)).2.1
  · next heq => exact absurd rfl (hhead _ (by rw [heq]; rfl)).2.2.1
  · next heq => exact absurd rfl (hhead _ (by rw [heq]; rfl)).2.2.1
  · rw [hword, hafter, hend]

theorem ReadsAll.value_succ {fuel : Nat} (ih : ReadsAll fuel) {v rest : List Char} {d : Datum}
    (h : Means v d) (hrest : IsEnd rest) (hfuel : 2 * v.length < fuel + 1) :
    value? (fuel + 1) (v ++ rest) = some (d, rest) := by
  have hskip (core after : List Char) {before : List Char} (hbefore : IsSpaces before) {c : Char}
      {core' : List Char} (hcore : core = c :: core') (hc : isSpace c = false) :
      skip (before ++ (core ++ after) ++ rest) = core ++ (after ++ rest) := by
    rw [List.append_assoc, List.append_assoc]
    refine skip_append hbefore fun a ha => ?_
    rw [hcore] at ha
    exact Option.some_inj.mp ha ▸ hc
  have htrue {c : Char} {s : List Char} (hc : c ≠ 't') : after? "true".toList (c :: s) = none :=
    if_neg (Ne.symm hc)
  have hfalse {c : Char} {s : List Char} (hc : c ≠ 'f') : after? "false".toList (c :: s) = none :=
    if_neg (Ne.symm hc)
  cases h with
  | @truth before after hbefore hafter =>
    have hcore := hskip "true".toList after hbefore rfl rfl
    simp only [value?, hcore, after?_eq_some_iff.mpr rfl, hrest.skip_append hafter]
  | @falsehood before after hbefore hafter =>
    have hcore := hskip "false".toList after hbefore rfl rfl
    have hnone : after? "true".toList ("false".toList ++ (after ++ rest)) = none := rfl
    simp only [value?, hcore, hnone, after?_eq_some_iff.mpr rfl, hrest.skip_append hafter]
  | @table before m after members hbefore hm hafter =>
    have hcore := hskip ('\x7b' :: m) after hbefore rfl rfl
    rw [List.cons_append] at hcore
    have hlength : 2 * m.length ≤ fuel := by
      simp only [List.length_append, List.length_cons] at hfuel
      omega
    simp only [value?, hcore, List.cons_append, htrue (by decide : '\x7b' ≠ 't'),
      hfalse (by decide : '\x7b' ≠ 'f'), ih.members hm hlength, Option.map_some,
      hrest.skip_append hafter]
  | @list before m after items hbefore hm hafter =>
    have hcore := hskip ('[' :: m) after hbefore rfl rfl
    rw [List.cons_append] at hcore
    have hlength : 2 * m.length ≤ fuel := by
      simp only [List.length_append, List.length_cons] at hfuel
      omega
    simp only [value?, hcore, List.cons_append, htrue (by decide : '[' ≠ 't'),
      hfalse (by decide : '[' ≠ 'f'), ih.items hm hlength, Option.map_some,
      hrest.skip_append hafter, List.reverse_nil, List.nil_append]
  | @quoted before m after t hbefore hm hafter =>
    have hcore := hskip ('\x22' :: m) after hbefore rfl rfl
    rw [List.cons_append] at hcore
    have hlength : m.length ≤ (m ++ (after ++ rest)).length + 1 := by
      rw [List.length_append]
      omega
    simp only [value?, hcore, List.cons_append, htrue (by decide : '\x22' ≠ 't'),
      hfalse (by decide : '\x22' ≠ 'f'), hm.string? hlength, Option.bind_some,
      hrest.skip_append hafter, List.reverse_nil, List.nil_append]
  | @single before after c hbefore hafter =>
    have hcore := hskip ['\x27', c, '\x27'] after hbefore rfl rfl
    simp only [List.cons_append, List.nil_append] at hcore
    simp only [value?, hcore, htrue (by decide : '\x27' ≠ 't'), hfalse (by decide : '\x27' ≠ 'f'),
      hrest.skip_append hafter]
  | word hbefore hs => exact ReadsAll.word_succ hbefore hs hrest

theorem IsSpaces.head {P : Char → Prop} {before core : List Char} (h : IsSpaces before)
    (hspace : ∀ c, isSpace c = true → P c) (hcore : ∀ c ∈ core.head?, P c) :
    ∀ c ∈ (before ++ core).head?, P c := by
  intro c hc
  cases before with
  | nil => exact hcore c hc
  | cons b before =>
    obtain rfl : b = c := Option.some_inj.mp hc
    exact hspace b (h b List.mem_cons_self)

/-- No value begins as a list ends. -/
theorem Means.head_ne {s : List Char} {d : Datum} (h : Means s d) : ∀ c ∈ s.head?, c ≠ ']' := by
  have hspace (c : Char) (hc : isSpace c = true) : c ≠ ']' := by
    rintro rfl
    cases hc
  have hopen {c : Char} {core : List Char} (hc : c ≠ ']') : ∀ a ∈ (c :: core).head?, a ≠ ']' := by
    intro a ha
    exact Option.some_inj.mp ha ▸ hc
  cases h with
  | truth hbefore => exact hbefore.head hspace (hopen (by decide))
  | falsehood hbefore => exact hbefore.head hspace (hopen (by decide))
  | table hbefore => exact hbefore.head hspace (hopen (by decide))
  | list hbefore => exact hbefore.head hspace (hopen (by decide))
  | quoted hbefore => exact hbefore.head hspace (hopen (by decide))
  | single hbefore => exact hbefore.head hspace (hopen (by decide))
  | word hbefore hs =>
    refine hbefore.head hspace fun c hc => ?_
    rintro rfl
    have hfree := hs.free ']' (List.mem_of_mem_head? hc)
    cases hfree

theorem Name.head {n : List Char} {name : String} (h : Name n name) (rest : List Char) :
    ∀ c ∈ (n ++ rest).head?, isSpace c = false ∧ c ≠ '\x7d' := by
  intro c hc
  cases h with
  | quoted h =>
    obtain rfl := Option.some_inj.mp hc
    decide
  | bare hne h =>
    obtain ⟨a, n, rfl⟩ := List.exists_cons_of_ne_nil hne
    obtain rfl : a = c := Option.some_inj.mp hc
    have ha := h a List.mem_cons_self
    refine ⟨Bool.not_eq_true _ ▸ fun hspace => ?_, ?_⟩
    · simp only [isSpace, Bool.or_eq_true, beq_iff_eq] at hspace
      rcases hspace with (((rfl | rfl) | rfl) | rfl) | rfl <;> cases ha
    · rintro rfl
      cases ha

theorem ReadsAll.items_succ {fuel : Nat} (ih : ReadsAll fuel) {m : List Char} {new : List Datum}
    (h : Items m new) (hfuel : 2 * m.length ≤ fuel + 1) (read : List Datum) (rest : List Char) :
    items? (fuel + 1) read (m ++ rest) = some (read.reverse ++ new, rest) := by
  cases h with
  | close =>
    rw [List.append_nil]
    rfl
  | @last s d hs hne =>
    have hvalue : value? fuel (s ++ ']' :: rest) = some (d, ']' :: rest) := by
      refine ih.value hs (fun c hc => Or.inr (Or.inl (Option.some_inj.mp hc).symm)) ?_
      simp only [List.length_append, List.length_cons, List.length_nil] at hfuel
      omega
    have hopen (after : List Char) (heq : s ++ ']' :: rest = ']' :: after) : False := by
      obtain ⟨c, s, rfl⟩ := List.exists_cons_of_ne_nil hne
      exact hs.head_ne c rfl (List.cons.inj heq).1
    rw [List.append_assoc, List.singleton_append, items?.eq_3 _ _ _ hopen, hvalue]
    simp
  | @more s m d items hs hm =>
    simp only [List.length_append, List.length_cons] at hfuel
    have hvalue : value? fuel (s ++ ',' :: (m ++ rest)) = some (d, ',' :: (m ++ rest)) :=
      ih.value hs (fun c hc => Or.inl (Option.some_inj.mp hc).symm) (by omega)
    have hopen (after : List Char) (heq : s ++ ',' :: (m ++ rest) = ']' :: after) : False := by
      cases s with
      | nil => exact absurd (List.cons.inj heq).1 (by decide)
      | cons c s => exact hs.head_ne c rfl (List.cons.inj heq).1
    rw [List.append_assoc, List.cons_append, items?.eq_3 _ _ _ hopen, hvalue]
    exact (ih.items hm (by omega) _ rest).trans (by simp)

/-- Reading one member, up to what follows its value. -/
theorem members?_of_member {fuel : Nat} {read : List (String × Datum)}
    {before n after written : List Char} {name : String} (hbefore : IsSpaces before)
    (hn : Name n name) (hafter : IsSpaces after) :
    members? (fuel + 1) read (before ++ (n ++ (after ++ '=' :: written))) =
      (value? fuel written).bind fun r =>
        match r.2 with
        | ',' :: rest => members? fuel (Datum.put name r.1 read) rest
        | '\x7d' :: rest => some (Datum.put name r.1 read, rest)
        | _ => none := by
  have hspace (c : Char) (hc : isSpace c = true) : c ≠ '\x7d' ∧ isNameChar c = false := by
    simp only [isSpace, Bool.or_eq_true, beq_iff_eq] at hc
    rcases hc with (((rfl | rfl) | rfl) | rfl) | rfl <;> decide
  have hequals : ∀ c ∈ ('=' :: written).head?, isSpace c = false ∧ isNameChar c = false := by
    intro c hc
    obtain rfl := Option.some_inj.mp hc
    decide
  have hopen (rest : List Char)
      (heq : before ++ (n ++ (after ++ '=' :: written)) = '\x7d' :: rest) : False :=
    hbefore.head (P := (· ≠ '\x7d')) (fun c hc => (hspace c hc).1) (fun c hc => (hn.head _ c hc).2)
      '\x7d' (by rw [heq]; rfl) rfl
  have hname := hn.name? (hafter.head (P := (isNameChar · = false)) (fun c hc => (hspace c hc).2)
    fun c hc => (hequals c hc).2)
  have hsign : skip (after ++ '=' :: written) = '=' :: written :=
    skip_append hafter fun c hc => (hequals c hc).1
  rw [members?.eq_3 _ _ _ hopen, skip_append hbefore fun c hc => (hn.head _ c hc).1, hname,
    Option.bind_eq_bind, Option.bind_some]
  dsimp only
  rw [hsign]
  rfl

theorem ReadsAll.members_succ {fuel : Nat} (ih : ReadsAll fuel) {m : List Char}
    {read members : List (String × Datum)} (h : Members read m members)
    (hfuel : 2 * m.length ≤ fuel + 1) (rest : List Char) :
    members? (fuel + 1) read (m ++ rest) = some (members, rest) := by
  cases h with
  | close => rfl
  | @last _ before n after s name d hbefore hn hafter hs =>
    simp only [List.length_append, List.length_cons] at hfuel
    have hvalue : value? fuel (s ++ '\x7d' :: rest) = some (d, '\x7d' :: rest) :=
      ih.value hs (fun c hc => Or.inr (Or.inr (Option.some_inj.mp hc).symm)) (by omega)
    simp only [List.append_assoc, List.cons_append, List.nil_append,
      members?_of_member hbefore hn hafter, hvalue, Option.bind_some]
  | @more _ _ before n after s m name d hbefore hn hafter hs hm =>
    simp only [List.length_append, List.length_cons] at hfuel
    have hvalue : value? fuel (s ++ ',' :: (m ++ rest)) = some (d, ',' :: (m ++ rest)) :=
      ih.value hs (fun c hc => Or.inl (Option.some_inj.mp hc).symm) (by omega)
    simp only [List.append_assoc, List.cons_append, members?_of_member hbefore hn hafter, hvalue,
      Option.bind_some]
    exact ih.members hm (by omega) rest

theorem readsAll (fuel : Nat) : ReadsAll fuel := by
  induction fuel with
  | zero =>
    refine ⟨fun _ _ hfuel => ?_, fun h hfuel => ?_, fun h hfuel => ?_⟩
    · omega
    · cases h <;> simp at hfuel
    · cases h <;> simp at hfuel
  | succ fuel ih => exact ⟨ih.value_succ, ih.items_succ, ih.members_succ⟩

/-- A text with a meaning is read as what it means. -/
theorem datum_of_means {text : String} {d : Datum} (h : Means text.toList d) : datum text = d := by
  have hfuel : 2 * text.toList.length < 2 * text.length + 2 := by
    rw [String.length_toList]
    omega
  have hvalue := (readsAll (2 * text.length + 2)).value h isEnd_nil hfuel
  rw [List.append_nil] at hvalue
  rw [datum, hvalue]

/-- A text without a meaning is taken as it stands. -/
theorem datum_of_meaningless {text : String} (h : ∀ d, ¬Means text.toList d) :
    datum text = .scalar .environment (.text text) := by
  rw [datum]
  split
  · next d hvalue =>
    obtain ⟨v, hv, htext⟩ := (readsByGrammar _).value hvalue
    rw [List.append_nil] at htext
    exact absurd (htext ▸ hv) (h d)
  · rfl

/-- Holds of the texts that come through as they are: those without a meaning, and the words
without blanks around them that are no number. -/
def Stands (s : List Char) : Prop :=
  (∀ d, ¬Means s d) ∨ IsWord s ∧ Text.trim s = s ∧ ¬IsNumber s

theorem Quoted.length_lt {m t : List Char} (h : Quoted m t) : t.length < m.length := by
  induction h with
  | close => decide
  | plain _ _ _ _ ih => simpa using ih
  | escape _ _ ih =>
    simp only [List.length_cons, List.length_append]
    omega

/-- A text that means itself is a word without blanks around it, and no number. -/
theorem Means.of_text {s : List Char}
    (h : Means s (.scalar .environment (.text (String.ofList s)))) :
    IsWord s ∧ Text.trim s = s ∧ ¬IsNumber s := by
  generalize hd : Datum.scalar .environment (.text (String.ofList s)) = d at h
  cases h with
  | truth => cases hd
  | falsehood => cases hd
  | table => cases hd
  | list => cases hd
  | quoted hbefore hm hafter =>
    have hlength := congrArg String.length (Scalar.text.inj (Datum.scalar.inj hd).2)
    have hshort := hm.length_lt
    simp only [String.length_ofList, List.length_append, List.length_cons] at hlength
    omega
  | single hbefore hafter =>
    have hlength := congrArg String.length (Scalar.text.inj (Datum.scalar.inj hd).2)
    simp only [String.length_ofList, List.length_append, List.length_cons, Char.toString,
      String.length_singleton] at hlength
    omega
  | @word before s hbefore hs =>
    obtain ⟨hnumber, htext⟩ := ofWord_eq_text_iff.mp (Datum.scalar.inj hd).2.symm
    have htrim : Text.trim s = before ++ s := by simpa using congrArg String.toList htext
    obtain ⟨front, back, hs', -⟩ := Text.exists_trim s
    have hlength := congrArg List.length hs'
    simp only [htrim, List.length_append] at hlength
    obtain rfl : before = [] := List.length_eq_zero_iff.mp (by omega)
    rw [List.nil_append] at htrim ⊢
    exact ⟨hs, htrim, htrim ▸ hnumber⟩

theorem datum_eq_text_iff {text : String} :
    datum text = .scalar .environment (.text text) ↔ Stands text.toList := by
  constructor
  · intro h
    by_cases hmeans : ∃ d, Means text.toList d
    · obtain ⟨d, hd⟩ := hmeans
      rw [datum_of_means hd] at h
      rw [h] at hd
      exact Or.inr (Means.of_text (String.ofList_toList.symm ▸ hd))
    · exact Or.inl fun d hd => hmeans ⟨d, hd⟩
  · rintro (h | ⟨hword, htrim, hnumber⟩)
    · exact datum_of_meaningless h
    · have hmeans : Means text.toList (.scalar .environment (ofWord (Text.trim text.toList))) :=
        .word isSpaces_nil hword
      rw [datum_of_means hmeans, htrim, ofWord_eq_text_iff.mpr ⟨hnumber, String.ofList_toList⟩]

end Almanac.Variable
