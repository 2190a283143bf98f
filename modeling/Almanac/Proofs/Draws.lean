import Almanac.Proofs.Rosters
import Almanac.Timetable.Service
import Mathlib.Data.List.Perm.Subperm
import Mathlib.Data.Nat.Find

/-!
# Drawing ids

A source gives its candidates one after the other, and a hunt for an id draws them without a
bound of its own, until one is neither 0 nor taken. It counts in 32 bits what it rejects, and
warns when it has counted `Roster.longStreak`: once in a streak, until the counter comes round.

A draw from a source comes to what the hunt through its candidates comes to. So an entry that is
enrolled gets the first fresh candidate, however far that is, and the source goes on behind it.
-/

namespace Almanac

namespace IdSource

/-- The candidate at a place, unless the source breaks off there. -/
def candidate (s : IdSource) (place : Nat) : Option Nat :=
  s.script.getD place (some (s.next + (place - s.script.length)))

/-- The source after so many candidates. -/
def skip (s : IdSource) (count : Nat) : IdSource :=
  ⟨s.script.drop count, s.next + (count - s.script.length)⟩

section

variable (head : Option Nat) (script : List (Option Nat)) (next : Nat)

@[simp] theorem candidate_cons_succ (place : Nat) :
    (⟨head :: script, next⟩ : IdSource).candidate (place + 1) =
      (⟨script, next⟩ : IdSource).candidate place := by
  simp [candidate]

@[simp] theorem skip_cons_succ (count : Nat) :
    (⟨head :: script, next⟩ : IdSource).skip (count + 1) =
      (⟨script, next⟩ : IdSource).skip count := by
  simp [skip]

end

/-- What is left of a source are its candidates from there on. -/
theorem candidate_skip (s : IdSource) (count place : Nat) :
    (s.skip count).candidate place = s.candidate (count + place) := by
  simp only [candidate, skip, List.getD_eq_getElem?_getD, List.getElem?_drop, List.length_drop]
  rcases Nat.lt_or_ge (count + place) s.script.length with hin | hpast
  · rw [List.getElem?_eq_getElem hin, Option.getD_some, Option.getD_some]
  · have hcounted : s.next + (count - s.script.length) + (place - (s.script.length - count)) =
        s.next + (count + place - s.script.length) := by omega
    rw [hcounted]

/-- A source that begins like a sequence of candidates. -/
def ofSequence (c : Nat → Nat) (count : Nat) : IdSource where
  script := (List.range count).map fun place => some (c place)

/-- Any sequence can be drawn, as far as one likes. -/
theorem candidate_ofSequence {c : Nat → Nat} {count place : Nat} (h : place < count) :
    (ofSequence c count).candidate place = some (c place) := by
  simp [candidate, ofSequence, h]

theorem isFresh_eq_false_iff {live : List Nat} {candidate : Nat} :
    isFresh live candidate = false ↔ candidate = 0 ∨ candidate ∈ live := by
  rw [Bool.eq_false_iff, ne_eq, isFresh_iff]
  tauto

/-- The place of the first candidate of a sequence that may become an id. -/
structure FirstFresh (live : List Nat) (c : Nat → Nat) (place : Nat) : Prop where
  fresh : c place ≠ 0 ∧ c place ∉ live
  stale : ∀ i < place, c i = 0 ∨ c i ∈ live

section

variable {live : List Nat} {c : Nat → Nat} {n k : Nat}

theorem exists_firstFresh (h : c k ≠ 0 ∧ c k ∉ live) : ∃ n ≤ k, FirstFresh live c n := by
  have hsome : ∃ place, c place ≠ 0 ∧ c place ∉ live := ⟨k, h⟩
  refine ⟨Nat.find hsome, Nat.find_min' hsome h, Nat.find_spec hsome, ?_⟩
  intro i hi
  rw [← isFresh_eq_false_iff, Bool.eq_false_iff, ne_eq, isFresh_iff]
  exact Nat.find_min hsome hi

theorem FirstFresh.isFresh (h : FirstFresh live c n) : isFresh live (c n) = true :=
  isFresh_iff.mpr h.fresh

theorem FirstFresh.isFresh_of_lt (h : FirstFresh live c n) {i : Nat} (hi : i < n) :
    IdSource.isFresh live (c i) = false :=
  isFresh_eq_false_iff.mpr (h.stale i hi)

end

def longStreakLine : LogLine :=
  ⟨.warning, "implausibly long entry id collision streak", none⟩

/-- Where a hunt for an id stands. -/
structure Hunt where
  /-- How many candidates have been drawn. -/
  drawn : Nat := 0
  /-- How many were rejected, as 32 bits count them. -/
  streak : BitVec 32 := 0
  /-- What was written into the log on the way, the latest first. -/
  lines : List LogLine := []

def Hunt.reject (x : Hunt) : Hunt :=
  let streak := x.streak + 1
  { drawn := x.drawn + 1
    streak
    lines :=
      if streak = BitVec.ofNat 32 Roster.longStreak then longStreakLine :: x.lines else x.lines }

/-- A hunt through a sequence from where it stands to its end, which comes when a candidate is
fresh: the id that it finds, and where it stands then. -/
inductive Hunts (live : List Nat) (c : Nat → Nat) : Hunt → Nat → Hunt → Prop
  | found {x : Hunt} (fresh : isFresh live (c x.drawn) = true) :
      Hunts live c x (c x.drawn) { x with drawn := x.drawn + 1 }
  | rejected {x y : Hunt} {id : Nat} (stale : isFresh live (c x.drawn) = false)
      (rest : Hunts live c x.reject id y) : Hunts live c x id y

/-- Where a hunt stands that has rejected so many candidates. It has warned when it first counted
`Roster.longStreak`, and again whenever the counter came round to it. -/
def Hunt.rejected (count : Nat) : Hunt where
  drawn := count
  streak := BitVec.ofNat 32 count
  lines := List.replicate ((count + (2 ^ 32 - Roster.longStreak)) / 2 ^ 32) longStreakLine

theorem Hunt.reject_rejected (count : Nat) : (rejected count).reject = rejected (count + 1) := by
  have hstreak : BitVec.ofNat 32 count + 1 = BitVec.ofNat 32 (count + 1) :=
    (BitVec.ofNat_add count 1).symm
  have hlong : BitVec.ofNat 32 (count + 1) = BitVec.ofNat 32 Roster.longStreak ↔
      (count + 1) % 2 ^ 32 = Roster.longStreak := by
    rw [← BitVec.toNat_inj, BitVec.toNat_ofNat, BitVec.toNat_ofNat]
    rfl
  have height : Roster.longStreak = 8 := rfl
  simp only [reject, rejected, hstreak, hlong, Hunt.mk.injEq, true_and]
  split
  · next hcount =>
      have hone : (count + 1 + (2 ^ 32 - Roster.longStreak)) / 2 ^ 32 =
          (count + (2 ^ 32 - Roster.longStreak)) / 2 ^ 32 + 1 := by omega
      rw [hone, List.replicate_succ]
  · next hcount =>
      have hsame : (count + 1 + (2 ^ 32 - Roster.longStreak)) / 2 ^ 32 =
          (count + (2 ^ 32 - Roster.longStreak)) / 2 ^ 32 := by omega
      rw [hsame]

/-- As long as the counter has not come round, a streak is worth one line or none. -/
theorem Hunt.lines_rejected {count : Nat} (h : count < 2 ^ 32) :
    (rejected count).lines = if Roster.longStreak ≤ count then [longStreakLine] else [] := by
  have height : Roster.longStreak = 8 := rfl
  simp only [rejected]
  by_cases hlong : Roster.longStreak ≤ count
  · have hone : (count + (2 ^ 32 - Roster.longStreak)) / 2 ^ 32 = 1 := by omega
    rw [hone, List.replicate_one, if_pos hlong]
  · have hnone : (count + (2 ^ 32 - Roster.longStreak)) / 2 ^ 32 = 0 := by omega
    rw [hnone, List.replicate_zero, if_neg hlong]

section

variable {live : List Nat} {c : Nat → Nat} {n : Nat}

/-- A hunt has no more than one end. -/
theorem Hunts.unique {x y z : Hunt} {id other : Nat} (h : Hunts live c x id y)
    (h' : Hunts live c x other z) : other = id ∧ z = y := by
  induction h with
  | found fresh =>
      cases h' with
      | found _ => exact ⟨rfl, rfl⟩
      | rejected stale _ => exact absurd (fresh.symm.trans stale) (by decide)
  | rejected stale _ ih =>
      cases h' with
      | found fresh => exact absurd (fresh.symm.trans stale) (by decide)
      | rejected _ rest => exact ih rest

/-- A hunt on its way to the first fresh candidate gets there. -/
theorem hunts_rejected (h : FirstFresh live c n) {count : Nat} (hcount : count ≤ n) :
    Hunts live c (.rejected count) (c n) { Hunt.rejected n with drawn := n + 1 } := by
  -- what bounds the hunt is how far the fresh candidate is away
  induction hleft : n - count generalizing count with
  | zero =>
      have hhere : count = n := by omega
      subst hhere
      exact .found h.isFresh
  | succ left ih =>
      have hbefore : count < n := by omega
      refine .rejected (h.isFresh_of_lt hbefore) ?_
      rw [Hunt.reject_rejected]
      exact ih hbefore (by omega)

/-- A hunt ends where the first fresh candidate stands, and nowhere else. -/
theorem hunts_iff (h : FirstFresh live c n) {id : Nat} {y : Hunt} :
    Hunts live c {} id y ↔ id = c n ∧ y = { Hunt.rejected n with drawn := n + 1 } := by
  have hends := hunts_rejected h (Nat.zero_le n)
  constructor
  · intro h'
    exact hends.unique h'
  · rintro ⟨rfl, rfl⟩
    exact hends

end

section

variable {live : List Nat} {next rejected n : Nat}

/-- No more candidates in a row are stale than ids are taken, and one for 0. -/
theorem le_of_stale (h : ∀ i < n, isFresh live (next + i) = false) : n ≤ live.length + 1 := by
  have htaken : List.range' next n ⊆ 0 :: live := by
    intro candidate hmem
    obtain ⟨i, hi, rfl⟩ := List.mem_range'.mp hmem
    rw [Nat.one_mul, List.mem_cons]
    exact isFresh_eq_false_iff.mp (h i hi)
  simpa using (List.Nodup.subperm List.nodup_range' htaken).length_le

/-- Counting up ends at the first fresh candidate that it can reach. -/
theorem countUp_eq {fuel : Nat} (hfuel : n ≤ fuel)
    (hstale : ∀ i < n, isFresh live (next + i) = false) (hfresh : isFresh live (next + n) = true) :
    countUp live fuel next rejected = ⟨some (next + n), ⟨[], next + n + 1⟩, rejected + n⟩ := by
  induction n generalizing fuel next rejected with
  | zero =>
      cases fuel with
      | zero => rfl
      | succ fuel => exact if_pos hfresh
  | succ n ih =>
      obtain ⟨fuel, rfl⟩ : ∃ m, fuel = m + 1 := ⟨fuel - 1, by omega⟩
      have hfirst : isFresh live next = false := hstale 0 (Nat.succ_pos n)
      rw [countUp, if_neg (Bool.eq_false_iff.mp hfirst)]
      have hshift : ∀ m i, m + (i + 1) = m + 1 + i := fun m i => by omega
      have hstale' : ∀ i < n, isFresh live (next + 1 + i) = false := fun i hi =>
        hshift next i ▸ hstale (i + 1) (Nat.succ_lt_succ hi)
      rw [ih (Nat.le_of_succ_le_succ hfuel) hstale' (hshift next n ▸ hfresh), hshift next n,
        hshift rejected n]

/-- A search through a script, and by counting up behind it, ends at the first fresh candidate. -/
theorem search_eq {script : List (Option Nat)} {c : Nat → Nat} (h : FirstFresh live c n)
    (hgives : ∀ i ≤ n, (⟨script, next⟩ : IdSource).candidate i = some (c i)) :
    search live next script rejected =
      ⟨some (c n), (⟨script, next⟩ : IdSource).skip (n + 1), rejected + n⟩ := by
  induction script generalizing c n rejected with
  | nil =>
      have hcounted : ∀ i ≤ n, c i = next + i := fun i hi =>
        (Option.some.inj (hgives i hi)).symm
      have hstale : ∀ i < n, isFresh live (next + i) = false := fun i hi =>
        hcounted i (Nat.le_of_lt hi) ▸ h.isFresh_of_lt hi
      have hfresh : isFresh live (next + n) = true := hcounted n le_rfl ▸ h.isFresh
      rw [search, countUp_eq (le_of_stale hstale) hstale hfresh, hcounted n le_rfl]
      rfl
  | cons candidate script ih =>
      have hhead : candidate = some (c 0) := hgives 0 (Nat.zero_le n)
      subst hhead
      cases n with
      | zero =>
          rw [search, if_pos h.isFresh]
          simp [skip]
      | succ n =>
          rw [search, if_neg (Bool.eq_false_iff.mp (h.isFresh_of_lt (Nat.succ_pos n)))]
          have hrest : FirstFresh live (fun i => c (i + 1)) n :=
            ⟨h.fresh, fun i hi => h.stale (i + 1) (Nat.succ_lt_succ hi)⟩
          have hbehind : ∀ i ≤ n, (⟨script, next⟩ : IdSource).candidate i = some (c (i + 1)) :=
            fun i hi => candidate_cons_succ _ script next i ▸ hgives (i + 1) (Nat.succ_le_succ hi)
          rw [ih hrest hbehind, skip_cons_succ, Nat.add_assoc, Nat.add_comm 1 n]

/-- A draw ends at the first fresh candidate, and the source goes on behind it. -/
theorem draw_of_firstFresh {s : IdSource} {c : Nat → Nat} (h : FirstFresh live c n)
    (hgives : ∀ i ≤ n, s.candidate i = some (c i)) :
    s.draw live = ⟨some (c n), s.skip (n + 1), n⟩ := by
  rw [draw, search_eq h hgives, Nat.zero_add]

end

end IdSource

namespace Roster

variable {r : Roster} {e : Entry} {c : Nat → Nat} {n : Nat}

theorem add_of_firstFresh (hs : r.isSpoiled = false) (hid : e.id = 0)
    (h : IdSource.FirstFresh r.ids c n) (hgives : ∀ i ≤ n, r.source.candidate i = some (c i)) :
    r.add e =
      ⟨.ok { e with id := c n },
        ⟨r.entries ++ [{ e with id := c n }], r.source.skip (n + 1), false⟩, n⟩ := by
  have hunassigned : ¬ e.id ≠ 0 := fun hne => hne hid
  rw [add, if_neg hunassigned, if_neg (Bool.eq_false_iff.mp hs)]
  simp only [IdSource.draw_of_firstFresh h hgives, hs]

/-- An entry that joined under a free id is found there, and every other id as before. -/
theorem byId_of_joined (hs : r.isSpoiled = false) (hfree : e.id ∉ r.ids) (source : IdSource)
    (id : Nat) :
    (⟨r.entries ++ [e], source, false⟩ : Roster).byId id =
      if id = e.id then .ok (some e) else r.byId id := by
  rw [byId_of_not_spoiled rfl, List.find?_append]
  split
  · next hjoined =>
      subst hjoined
      have hnone : r.entries.find? (fun x => x.id == e.id) = none := by
        have hmissing := byId_of_missing hs hfree
        rw [byId_of_not_spoiled hs] at hmissing
        exact Except.ok.inj hmissing
      rw [hnone, Option.none_or]
      simp
  · next hother =>
      have hapart : ¬ (e.id == id) = true := fun heq => hother (beq_iff_eq.mp heq).symm
      rw [List.find?_singleton, if_neg hapart, Option.or_none, byId_of_not_spoiled hs]

end Roster

namespace Timetable

theorem enroll_of_firstFresh {t : Timetable} {e : Entry} {c : Nat → Nat} {n : Nat}
    (hs : t.roster.isSpoiled = false) (hid : e.id = 0)
    (h : IdSource.FirstFresh t.roster.ids c n)
    (hgives : ∀ i ≤ n, t.roster.source.candidate i = some (c i)) :
    t.enroll e =
      (.ok { e with id := c n },
        { t with
          roster :=
            ⟨t.roster.entries ++ [{ e with id := c n }], t.roster.source.skip (n + 1), false⟩
          journal :=
            (if Roster.longStreak ≤ n then [IdSource.longStreakLine] else []).map .logged ++
              t.journal }) := by
  simp only [enroll, Roster.add_of_firstFresh hs hid h hgives]
  split
  · rfl
  · rfl

/-- An entry that has no id yet joins a roster in use under the first candidate of its source that
is neither 0 nor taken, if there is one, however far it is. It comes last, the others stay as they
are, and the source goes on behind the candidate. There the hunt ends as well, and the log gets
what the hunt has written, as long as the streak fits into the hunt's counter: one line about a
streak of `Roster.longStreak` candidates or more, and none about a shorter one. -/
theorem first_fresh_enrolled (t : Timetable) (e : Entry) (c : Nat → Nat) (k : Nat)
    (hs : t.roster.isSpoiled = false) (hid : e.id = 0)
    (hfresh : c k ≠ 0 ∧ c k ∉ t.roster.ids)
    (hgives : ∀ i ≤ k, t.roster.source.candidate i = some (c i)) :
    ∃ n ≤ k, IdSource.FirstFresh t.roster.ids c n ∧
      let added : Entry := { e with id := c n }
      let roster : Roster := ⟨t.roster.entries ++ [added], t.roster.source.skip (n + 1), false⟩
      t.roster.add e = ⟨.ok added, roster, n⟩ ∧
      (∀ i, roster.source.candidate i = t.roster.source.candidate (n + 1 + i)) ∧
      (∀ id, roster.byId id = if id = c n then .ok (some added) else t.roster.byId id) ∧
      ∃ x journal,
        (∀ id y, IdSource.Hunts t.roster.ids c {} id y ↔ id = c n ∧ y = x) ∧ x.drawn = n + 1 ∧
        t.enroll e = (.ok added, { t with roster, journal }) ∧
        (n < 2 ^ 32 →
          x.lines = (if Roster.longStreak ≤ n then [IdSource.longStreakLine] else []) ∧
          journal = x.lines.map .logged ++ t.journal) := by
  obtain ⟨n, hn, h⟩ := IdSource.exists_firstFresh hfresh
  have hgives' : ∀ i ≤ n, t.roster.source.candidate i = some (c i) :=
    fun i hi => hgives i (Nat.le_trans hi hn)
  refine ⟨n, hn, h, Roster.add_of_firstFresh hs hid h hgives', ?_, ?_, ?_⟩
  · exact IdSource.candidate_skip t.roster.source (n + 1)
  · exact Roster.byId_of_joined hs h.fresh.2 _
  · refine ⟨_, _, fun id y => IdSource.hunts_iff h, rfl,
      enroll_of_firstFresh hs hid h hgives', ?_⟩
    intro hshort
    have hlines := IdSource.Hunt.lines_rejected hshort
    exact ⟨hlines, by rw [hlines]⟩

/-- Zeros and the one id that is taken come by turns, fifty in all. The candidate behind the fresh
one is left for the next entry. -/
theorem first_fresh_enrolled_of_streak :
    let c : Nat → Nat := fun i => if i < 50 then 5 * (i % 2) else i - 44
    let e : Entry := { task := .pause .zero, due := .epoch, period := .zero }
    let t : Timetable :=
      { start := .epoch
        roster := { entries := [{ e with id := 5 }], source := .ofSequence c 52 } }
    (t.enroll e).1 = .ok { e with id := 6 } ∧
      (t.enroll e).2.roster.entries = [{ e with id := 5 }, { e with id := 6 }] ∧
      (t.enroll e).2.roster.source.candidate 0 = some 7 ∧
      (t.enroll e).2.journal = [.logged IdSource.longStreakLine] := by
  intro c e t
  have hgives : ∀ i < 52, t.roster.source.candidate i = some (c i) :=
    fun i hi => IdSource.candidate_ofSequence hi
  obtain ⟨n, hn, hfirst, -, hbehind, -, x, journal, -, -, henroll, hlog⟩ :=
    first_fresh_enrolled t e c 50 rfl rfl (by decide)
      fun i hi => hgives i (Nat.lt_of_le_of_lt hi (by decide))
  have hplace : n = 50 := by
    have hstale : ∀ i < 50, ¬ (c i ≠ 0 ∧ c i ∉ t.roster.ids) := by decide
    have hlong : ¬ n < 50 := fun hlt => hstale n hlt hfirst.fresh
    omega
  subst hplace
  obtain ⟨hlines, hjournal⟩ := hlog (by decide)
  rw [henroll]
  refine ⟨rfl, rfl, ?_, ?_⟩
  · exact (hbehind 0).trans (hgives 51 (by decide))
  · exact hjournal.trans (congrArg (fun lines => lines.map Happening.logged ++ t.journal) hlines)

end Timetable

end Almanac
