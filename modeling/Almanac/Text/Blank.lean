/-!
# White space

The characters that Unicode counts as white space, and trimming by them.
-/

namespace Almanac.Text

/-- The characters with the Unicode property `White_Space`. -/
def isBlank (c : Char) : Bool :=
  let n := c.toNat
  (9 ≤ n && n ≤ 13) || n == 0x20 || n == 0x85 || n == 0xA0 || n == 0x1680 ||
    (0x2000 ≤ n && n ≤ 0x200A) || n == 0x2028 || n == 0x2029 || n == 0x202F ||
    n == 0x205F || n == 0x3000

def trimStart (s : List Char) : List Char :=
  s.dropWhile isBlank

def trimEnd (s : List Char) : List Char :=
  (s.reverse.dropWhile isBlank).reverse

def trim (s : List Char) : List Char :=
  trimEnd (trimStart s)

/-- Holds of texts of blanks only, the empty one included. -/
def isBlankText (s : List Char) : Bool :=
  s.all isBlank

theorem isBlank_of_isDigit {c : Char} (h : c.isDigit = true) : isBlank c = false := by
  have hrange : 48 ≤ c.toNat ∧ c.toNat ≤ 57 := by
    rw [Char.isDigit, Bool.and_eq_true, decide_eq_true_eq, decide_eq_true_eq] at h
    exact h
  simp only [isBlank, Bool.or_eq_false_iff, Bool.and_eq_false_iff, decide_eq_false_iff_not,
    beq_eq_false_iff_ne]
  omega

/-- Trimming takes blanks from both ends and nothing else. -/
theorem exists_trim (s : List Char) :
    ∃ before after, s = before ++ trim s ++ after ∧ ∀ c ∈ before ++ after, isBlank c = true := by
  have hstart : s = s.takeWhile isBlank ++ trimStart s := List.takeWhile_append_dropWhile.symm
  obtain ⟨r, hr⟩ : ∃ r, r = (trimStart s).reverse := ⟨_, rfl⟩
  have hend : trimStart s = trim s ++ (r.takeWhile isBlank).reverse := by
    rw [trim, trimEnd, ← hr, ← List.reverse_append, List.takeWhile_append_dropWhile, hr,
      List.reverse_reverse]
  refine ⟨s.takeWhile isBlank, (r.takeWhile isBlank).reverse, ?_, ?_⟩
  · rw [List.append_assoc, ← hend]
    exact hstart
  · intro c hc
    rw [List.mem_append, List.mem_reverse] at hc
    rcases hc with hc | hc <;> exact List.all_eq_true.mp List.all_takeWhile c hc

theorem trimStart_append {before s : List Char} (h : ∀ c ∈ before, isBlank c = true) :
    trimStart (before ++ s) = trimStart s :=
  List.dropWhile_append_of_pos h

theorem trimStart_of_head {c : Char} {s : List Char} (h : isBlank c = false) :
    trimStart (c :: s) = c :: s :=
  List.dropWhile_cons_of_neg (by simp [h])

theorem trimEnd_append {s after : List Char} (h : ∀ c ∈ after, isBlank c = true) :
    trimEnd (s ++ after) = trimEnd s := by
  have hrev : ∀ c ∈ after.reverse, isBlank c = true := fun c hc => h c (List.mem_reverse.mp hc)
  rw [trimEnd, trimEnd, List.reverse_append]
  exact congrArg List.reverse (trimStart_append hrev)

/-- A text without blanks at its ends is left as it is. -/
theorem trim_eq_self {s : List Char} (hfirst : ∀ c ∈ s.head?, isBlank c = false)
    (hlast : ∀ c ∈ s.getLast?, isBlank c = false) : trim s = s := by
  have hstart : trimStart s = s := by
    cases s with
    | nil => rfl
    | cons c s => exact trimStart_of_head (hfirst c rfl)
  have hend : s.reverse.dropWhile isBlank = s.reverse := by
    cases hr : s.reverse with
    | nil => rfl
    | cons c r =>
      have hc : isBlank c = false := hlast c (by rw [List.getLast?_eq_head?_reverse, hr]; rfl)
      exact trimStart_of_head hc
  rw [trim, hstart, trimEnd, hend, List.reverse_reverse]

/-- Blanks around a text make no difference to what trimming leaves. -/
theorem trim_between {before after : List Char} (hbefore : ∀ c ∈ before, isBlank c = true)
    (hafter : ∀ c ∈ after, isBlank c = true) (s : List Char) :
    trim (before ++ s ++ after) = trim s := by
  rw [trim, List.append_assoc, trimStart_append hbefore, trimStart, List.dropWhile_append]
  split
  · next hblank =>
    have hnone : trimStart (after ++ []) = [] := trimStart_append hafter
    rw [List.append_nil] at hnone
    rw [trim, trimStart, List.isEmpty_iff.mp hblank, ← trimStart, hnone]
  · exact trimEnd_append hafter

theorem trim_append_left {before : List Char} (h : ∀ c ∈ before, isBlank c = true)
    (s : List Char) : trim (before ++ s) = trim s := by
  have hbetween := trim_between h (List.forall_mem_nil fun c => isBlank c = true) s
  rwa [List.append_nil] at hbetween

theorem trim_append_right {after : List Char} (h : ∀ c ∈ after, isBlank c = true)
    (s : List Char) : trim (s ++ after) = trim s :=
  trim_between (List.forall_mem_nil fun c => isBlank c = true) h s

theorem trim_cons {c : Char} (h : isBlank c = true) (s : List Char) : trim (c :: s) = trim s :=
  trim_append_left (List.forall_mem_singleton.mpr h) s

theorem trim_trim (s : List Char) : trim (trim s) = trim s := by
  obtain ⟨before, after, hs, hblank⟩ := exists_trim s
  obtain ⟨hbefore, hafter⟩ := List.forall_mem_append.mp hblank
  have hbetween := trim_between hbefore hafter (trim s)
  rw [← hs] at hbetween
  exact hbetween.symm

/-- Blanks around a text without blanks are what trimming takes off. -/
theorem trim_append {before inner after : List Char} (hbefore : ∀ c ∈ before, isBlank c = true)
    (hinner : ∀ c ∈ inner, isBlank c = false) (hafter : ∀ c ∈ after, isBlank c = true) :
    trim (before ++ inner ++ after) = inner := by
  rw [trim_between hbefore hafter]
  exact trim_eq_self (fun c hc => hinner c (List.mem_of_mem_head? hc))
    fun c hc => hinner c (List.mem_of_mem_getLast? hc)

/-- Only blanks are trimmed to nothing. -/
theorem blank_of_trim_eq_nil {s : List Char} (h : trim s = []) : ∀ c ∈ s, isBlank c = true := by
  obtain ⟨before, after, hs, hblank⟩ := exists_trim s
  rw [h, List.append_nil] at hs
  exact hs ▸ hblank

/-- What trimming leaves has no blank at its end. -/
theorem isBlank_getLast_trim {s : List Char} {c : Char} (h : c ∈ (trim s).getLast?) :
    isBlank c = false := by
  rw [trim, trimEnd, List.getLast?_reverse] at h
  have hnot := List.head?_dropWhile_not isBlank (trimStart s).reverse
  rw [Option.mem_def.mp h] at hnot
  simpa using hnot

end Almanac.Text
