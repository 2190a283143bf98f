import Almanac.Proofs.Words

/-!
# The grammar of variables

A grammar of the texts of variables, with what each of them means. What is read of a text is
written by the grammar, and means what it is read as.
-/

namespace Almanac.Variable

/-- Holds of texts of blanks that are skipped. -/
def IsSpaces (s : List Char) : Prop := ∀ c ∈ s, isSpace c = true

@[simp] theorem isSpaces_nil : IsSpaces [] := List.forall_mem_nil _

/-- Holds of the texts that are words: without separators, and with no beginning that is read
otherwise. -/
structure IsWord (s : List Char) : Prop where
  free : ∀ c ∈ s, isSeparator c = false
  opens : ∀ c ∈ s.head?, isSpace c = false ∧ c ≠ '\x22' ∧ c ≠ '\x27'
  truth : ¬"true".toList <+: s
  falsehood : ¬"false".toList <+: s

/-- The names in tables, quoted or bare, as they are written. -/
inductive Name : List Char → String → Prop
  | quoted {m t : List Char} (h : Quoted m t) : Name ('\x22' :: m) (String.ofList t)
  | bare {s : List Char} (hne : s ≠ []) (h : ∀ c ∈ s, isNameChar c = true) :
      Name s (String.ofList s)

mutual

/-- What a text means, with blanks around it. -/
inductive Means : List Char → Datum → Prop
  | truth {before after : List Char} (hbefore : IsSpaces before) (hafter : IsSpaces after) :
      Means (before ++ ("true".toList ++ after)) (.scalar .environment (.boolean true))
  | falsehood {before after : List Char} (hbefore : IsSpaces before) (hafter : IsSpaces after) :
      Means (before ++ ("false".toList ++ after)) (.scalar .environment (.boolean false))
  | table {before m after : List Char} {members : List (String × Datum)}
      (hbefore : IsSpaces before) (hm : Members [] m members) (hafter : IsSpaces after) :
      Means (before ++ '\x7b' :: (m ++ after)) (.table .environment members)
  | list {before m after : List Char} {items : List Datum}
      (hbefore : IsSpaces before) (hm : Items m items) (hafter : IsSpaces after) :
      Means (before ++ '[' :: (m ++ after)) (.list .environment items)
  | quoted {before m after t : List Char}
      (hbefore : IsSpaces before) (hm : Quoted m t) (hafter : IsSpaces after) :
      Means (before ++ '\x22' :: (m ++ after)) (.scalar .environment (.text (String.ofList t)))
  | single {before after : List Char} {c : Char}
      (hbefore : IsSpaces before) (hafter : IsSpaces after) :
      Means (before ++ '\x27' :: c :: '\x27' :: after) (.scalar .environment (.text c.toString))
  | word {before s : List Char} (hbefore : IsSpaces before) (hs : IsWord s) :
      Means (before ++ s) (.scalar .environment (ofWord (Text.trim s)))

/-- The items of a list, as they are written after its bracket. -/
inductive Items : List Char → List Datum → Prop
  | close : Items [']'] []
  | last {s : List Char} {d : Datum} (hs : Means s d) (hne : s ≠ []) : Items (s ++ [']']) [d]
  | more {s m : List Char} {d : Datum} {items : List Datum} (hs : Means s d) (hm : Items m items) :
      Items (s ++ ',' :: m) (d :: items)

/-- The members of a table, as they are written after its brace, put to those before them. -/
inductive Members : List (String × Datum) → List Char → List (String × Datum) → Prop
  | close {read : List (String × Datum)} : Members read ['\x7d'] read
  | last {read : List (String × Datum)} {before n after s : List Char} {name : String} {d : Datum}
      (hbefore : IsSpaces before) (hn : Name n name) (hafter : IsSpaces after) (hs : Means s d) :
      Members read (before ++ (n ++ (after ++ '=' :: (s ++ ['\x7d'])))) (Datum.put name d read)
  | more {read members : List (String × Datum)} {before n after s m : List Char} {name : String}
      {d : Datum} (hbefore : IsSpaces before) (hn : Name n name) (hafter : IsSpaces after)
      (hs : Means s d) (hm : Members (Datum.put name d read) m members) :
      Members read (before ++ (n ++ (after ++ '=' :: (s ++ ',' :: m)))) members

end

/-- Holds of what may follow a value: nothing, or what ends an item or a member. -/
def IsEnd (s : List Char) : Prop := ∀ c ∈ s.head?, c = ',' ∨ c = ']' ∨ c = '\x7d'

@[simp] theorem isEnd_nil : IsEnd [] := by simp [IsEnd]

theorem isSpace_of_isSeparator {c : Char} (h : isSeparator c = true) : isSpace c = false := by
  simp only [isSeparator, Bool.or_eq_true, beq_iff_eq] at h
  rcases h with (((rfl | rfl) | rfl) | rfl) | rfl <;> decide

theorem exists_skip (s : List Char) : ∃ before, IsSpaces before ∧ s = before ++ skip s :=
  ⟨s.takeWhile isSpace, List.all_eq_true.mp List.all_takeWhile,
    List.takeWhile_append_dropWhile.symm⟩

theorem head_skip (s : List Char) : ∀ c ∈ (skip s).head?, isSpace c = false := by
  intro c hc
  have hhead := List.head?_dropWhile_not isSpace s
  rw [skip] at hc
  rw [hc] at hhead
  simpa using hhead

theorem skip_append {before s : List Char} (hbefore : IsSpaces before)
    (hs : ∀ c ∈ s.head?, isSpace c = false) : skip (before ++ s) = s := by
  rw [skip, List.dropWhile_append_of_pos hbefore]
  cases s with
  | nil => rfl
  | cons c s => exact List.dropWhile_cons_of_neg (by simp [hs c rfl])

theorem IsEnd.isSeparator {s : List Char} (h : IsEnd s) :
    ∀ c ∈ s.head?, isSeparator c = true := by
  intro c hc
  rcases h c hc with rfl | rfl | rfl <;> rfl

theorem IsEnd.skip_append {after rest : List Char} (hrest : IsEnd rest) (hafter : IsSpaces after) :
    skip (after ++ rest) = rest :=
  Variable.skip_append hafter fun c hc => isSpace_of_isSeparator (hrest.isSeparator c hc)

theorem after?_eq_some_iff {start s rest : List Char} :
    after? start s = some rest ↔ s = start ++ rest := by
  induction start generalizing s with
  | nil => simp [after?]
  | cons a start ih =>
    cases s with
    | nil => simp [after?]
    | cons c s =>
      rw [after?, Option.ite_none_right_eq_some, ih, List.cons_append, List.cons.injEq]
      exact and_congr_left fun _ => eq_comm

theorem after?_eq_none_iff {start s : List Char} : after? start s = none ↔ ¬start <+: s := by
  rw [Option.eq_none_iff_forall_ne_some]
  exact ⟨fun h ⟨rest, hs⟩ => h rest (after?_eq_some_iff.mpr hs.symm),
    fun h rest hrest => h ⟨rest, (after?_eq_some_iff.mp hrest).symm⟩⟩

theorem name_of_name? {s rest : List Char} {name : String} (h : name? s = some (name, rest)) :
    ∃ n, Name n name ∧ s = n ++ rest := by
  unfold name? at h
  split at h
  · obtain ⟨m, t, hm, rfl, rfl⟩ := quoted_of_string? h
    exact ⟨_, .quoted hm, rfl⟩
  · split at h
    · cases h
    · next hne =>
      cases h
      exact ⟨_, .bare hne (List.all_eq_true.mp List.all_takeWhile),
        (List.prefix_iff_eq_append.mp (List.takeWhile_prefix _)).symm⟩

theorem Name.name? {n rest : List Char} {name : String} (h : Name n name)
    (hrest : ∀ c ∈ rest.head?, isNameChar c = false) :
    Variable.name? (n ++ rest) = some (name, rest) := by
  cases h with
  | quoted h =>
    rw [List.cons_append, Variable.name?, h.string?]
    · rfl
    · rw [List.length_append]
      omega
  | bare hne h =>
    obtain ⟨hname, hafter⟩ := Places.parted_iff.mpr ⟨rfl, h, hrest⟩
    unfold Variable.name?
    split
    · next s heq =>
      obtain ⟨c, n, rfl⟩ := List.exists_cons_of_ne_nil hne
      have hc := h c List.mem_cons_self
      rw [(List.cons.inj heq).1] at hc
      exact absurd hc (by decide)
    · rw [hname]
      obtain ⟨c, n, rfl⟩ := List.exists_cons_of_ne_nil hne
      exact congrArg (fun rest => some (String.ofList (c :: n), rest)) hafter

/-- What is not opened otherwise begins with a word, behind the blanks. -/
theorem exists_word {s : List Char} (htrue : after? "true".toList (skip s) = none)
    (hfalse : after? "false".toList (skip s) = none) (hquote : ∀ rest, skip s ≠ '\x22' :: rest)
    (hmark : ∀ rest, skip s ≠ '\x27' :: rest) :
    ∃ word after, word = ((skip s).takeWhile fun c => !isSeparator c) ∧
      after = (skip s).drop word.length ∧ skip s = word ++ after ∧ IsWord word ∧
        skip after = after := by
  obtain ⟨word, hword⟩ : ∃ word, word = (skip s).takeWhile fun c => !isSeparator c := ⟨_, rfl⟩
  obtain ⟨after, hafter⟩ : ∃ after, after = (skip s).drop word.length := ⟨_, rfl⟩
  obtain ⟨hcore, hfree, hend⟩ := Places.parted_iff.mp ⟨hword.symm, hafter.symm⟩
  have hstarts : word <+: skip s := ⟨after, hcore.symm⟩
  refine ⟨word, after, hword, hafter, hcore, ?_, ?_⟩
  · exact
      { free := fun c hc => by simpa using hfree c hc
        opens := fun c hc => by
          obtain ⟨inner, rfl⟩ := List.head?_eq_some_iff.mp hc
          refine ⟨head_skip s c (by rw [hcore]; rfl), ?_, ?_⟩
          · rintro rfl
            exact hquote _ hcore
          · rintro rfl
            exact hmark _ hcore
        truth := fun h => after?_eq_none_iff.mp htrue (h.trans hstarts)
        falsehood := fun h => after?_eq_none_iff.mp hfalse (h.trans hstarts) }
  · exact skip_append isSpaces_nil fun c hc => isSpace_of_isSeparator (by simpa using hend c hc)

/-- What is read with some fuel is written by the grammar. -/
structure ReadsByGrammar (fuel : Nat) : Prop where
  value {s rest : List Char} {d : Datum} (h : value? fuel s = some (d, rest)) :
    ∃ v, Means v d ∧ s = v ++ rest
  items {read items : List Datum} {s rest : List Char}
    (h : items? fuel read s = some (items, rest)) :
    ∃ m new, Items m new ∧ items = read.reverse ++ new ∧ s = m ++ rest
  members {read members : List (String × Datum)} {s rest : List Char}
    (h : members? fuel read s = some (members, rest)) : ∃ m, Members read m members ∧ s = m ++ rest

theorem ReadsByGrammar.value_succ {fuel : Nat} (ih : ReadsByGrammar fuel) {s rest : List Char}
    {d : Datum} (h : value? (fuel + 1) s = some (d, rest)) : ∃ v, Means v d ∧ s = v ++ rest := by
  obtain ⟨before, hbefore, hs⟩ := exists_skip s
  have hjoin (core : List Char) {inner : List Char} (hcore : skip s = core ++ inner) :
      ∃ after, IsSpaces after ∧ s = (before ++ (core ++ after)) ++ skip inner := by
    obtain ⟨after, hafter, hinner⟩ := exists_skip inner
    refine ⟨after, hafter, ?_⟩
    rw [List.append_assoc, List.append_assoc, ← hinner, ← hcore]
    exact hs
  simp only [value?] at h
  split at h
  · next htrue =>
    cases h
    obtain ⟨after, hafter, hs⟩ := hjoin _ (after?_eq_some_iff.mp htrue)
    exact ⟨_, .truth hbefore hafter, hs⟩
  · next hfalse =>
    cases h
    obtain ⟨after, hafter, hs⟩ := hjoin _ (after?_eq_some_iff.mp hfalse)
    exact ⟨_, .falsehood hbefore hafter, hs⟩
  · next htrue hfalse =>
    split at h
    · next inner hinner =>
      obtain ⟨⟨members, rest⟩, hmembers, h⟩ := Option.map_eq_some_iff.mp h
      cases h
      obtain ⟨m, hm, rfl⟩ := ih.members hmembers
      obtain ⟨after, hafter, hs⟩ := hjoin ('\x7b' :: m) hinner
      exact ⟨_, .table hbefore hm hafter, hs⟩
    · next inner hinner =>
      obtain ⟨⟨items, rest⟩, hitems, h⟩ := Option.map_eq_some_iff.mp h
      cases h
      obtain ⟨m, new, hm, rfl, rfl⟩ := ih.items hitems
      obtain ⟨after, hafter, hs⟩ := hjoin ('[' :: m) hinner
      exact ⟨_, .list hbefore hm hafter, hs⟩
    · next inner hinner =>
      obtain ⟨⟨r, rest⟩, hstring, h⟩ := Option.bind_eq_some_iff.mp h
      cases h
      obtain ⟨m, t, hm, rfl, rfl⟩ := quoted_of_string? hstring
      obtain ⟨after, hafter, hs⟩ := hjoin ('\x22' :: m) hinner
      exact ⟨_, .quoted hbefore hm hafter, hs⟩
    · next c inner hinner =>
      cases h
      obtain ⟨after, hafter, hs⟩ := hjoin ['\x27', c, '\x27'] hinner
      exact ⟨_, .single hbefore hafter, hs⟩
    · cases h
    · next hquote _ hmark =>
      obtain ⟨word, after, hword, hafter, hcore, hmeans, hskip⟩ :=
        exists_word htrue hfalse hquote hmark
      rw [← hword, ← hafter] at h
      cases h
      refine ⟨before ++ word, .word hbefore hmeans, ?_⟩
      rw [hskip, List.append_assoc, ← hcore]
      exact hs

theorem ReadsByGrammar.items_succ {fuel : Nat} (ih : ReadsByGrammar fuel) {read items : List Datum}
    {s rest : List Char} (h : items? (fuel + 1) read s = some (items, rest)) :
    ∃ m new, Items m new ∧ items = read.reverse ++ new ∧ s = m ++ rest := by
  by_cases hbracket : ∃ after, s = ']' :: after
  · obtain ⟨after, rfl⟩ := hbracket
    rw [items?] at h
    cases h
    exact ⟨_, [], .close, (List.append_nil _).symm, rfl⟩
  · rw [items?.eq_3 _ _ _ fun after hs => hbracket ⟨after, hs⟩] at h
    obtain ⟨⟨d, inner⟩, hvalue, hrest⟩ := Option.bind_eq_some_iff.mp h
    obtain ⟨v, hv, rfl⟩ := ih.value hvalue
    dsimp only at hrest
    split at hrest
    · obtain ⟨m, new, hm, rfl, rfl⟩ := ih.items hrest
      exact ⟨_, d :: new, .more hv hm, by simp, by simp⟩
    · cases hrest
      have hne : v ≠ [] := by
        rintro rfl
        exact hbracket ⟨_, rfl⟩
      exact ⟨_, [d], .last hv hne, by simp, by simp⟩
    · cases hrest

theorem ReadsByGrammar.members_succ {fuel : Nat} (ih : ReadsByGrammar fuel)
    {read members : List (String × Datum)} {s rest : List Char}
    (h : members? (fuel + 1) read s = some (members, rest)) :
    ∃ m, Members read m members ∧ s = m ++ rest := by
  by_cases hbrace : ∃ after, s = '\x7d' :: after
  · obtain ⟨after, rfl⟩ := hbrace
    rw [members?] at h
    cases h
    exact ⟨_, .close, rfl⟩
  · rw [members?.eq_3 _ _ _ fun after hs => hbrace ⟨after, hs⟩] at h
    obtain ⟨before, hbefore, hs⟩ := exists_skip s
    obtain ⟨⟨name, inner⟩, hname, hinner⟩ := Option.bind_eq_some_iff.mp h
    obtain ⟨n, hn, hcore⟩ := name_of_name? hname
    obtain ⟨after, hafter, hjoin⟩ := exists_skip inner
    dsimp only at hinner
    split at hinner
    · next written hwritten =>
      obtain ⟨⟨d, inner⟩, hvalue, hrest⟩ := Option.bind_eq_some_iff.mp hinner
      obtain ⟨v, hv, rfl⟩ := ih.value hvalue
      rw [hcore, hjoin, hwritten] at hs
      dsimp only at hrest
      split at hrest
      · obtain ⟨m, hm, rfl⟩ := ih.members hrest
        exact ⟨_, .more hbefore hn hafter hv hm, by rw [hs]; simp⟩
      · cases hrest
        exact ⟨_, .last hbefore hn hafter hv, by rw [hs]; simp⟩
      · cases hrest
    · cases hinner

theorem readsByGrammar (fuel : Nat) : ReadsByGrammar fuel := by
  -- the three readers call each other with less fuel, so that none is settled without the others
  induction fuel with
  | zero => constructor <;> intros <;> contradiction
  | succ fuel ih => exact ⟨ih.value_succ, ih.items_succ, ih.members_succ⟩

end Almanac.Variable
