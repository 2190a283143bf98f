import Almanac.Timetable.Basic

/-!
# Reading the annals

What the annals say of one vigil: when it began runs, how its last run came back and what came
before that, how it ended, and what befell its alarm during its tenure, from its start on. The
latest deed is always the first.
-/

namespace Almanac

namespace Deed

/-- The vigil that a deed is one of, a start apart. -/
def vigil? : Deed → Option Nat
  | began i _ => some i
  | returned i _ => some i
  | ended i _ => some i
  | _ => none

/-- Holds of a cancel of an alarm and of a new plan for it. -/
def revises (n : Nat) : Deed → Bool
  | planned m _ _ _ => m == n
  | cancelled m => m == n
  | _ => false

/-- Holds of the deeds that take an alarm away from its vigil: cancels, new plans and starts. -/
def takesOver (n : Nat) : Deed → Bool
  | planned m _ _ _ => m == n
  | started m _ => m == n
  | cancelled m => m == n
  | _ => false

/-- Holds of a cancel of an alarm, and of a new plan for it while it runs. -/
def stops (n : Nat) : Deed → Bool
  | planned m stopped _ _ => m == n && stopped
  | cancelled m => m == n
  | _ => false

/-- Holds of the deeds that give an alarm a policy. -/
def plans (n : Nat) : Deed → Bool
  | planned m _ _ _ => m == n
  | _ => false

/-- Holds of the deeds that set an alarm to a time. -/
def sets (n : Nat) : Deed → Bool
  | planned m _ _ _ => m == n
  | rearmed m _ => m == n
  | _ => false

theorem plans_of_sets {n : Nat} {d : Deed} (h : d.sets n = false) : d.plans n = false := by
  cases d with
  | planned m stopped due period => exact h
  | _ => rfl

theorem plans_of_takesOver {n : Nat} {d : Deed} (h : d.takesOver n = false) :
    d.plans n = false := by
  cases d with
  | planned m stopped due period => exact h
  | _ => rfl

theorem ne_started_of_takesOver {n i : Nat} {d : Deed} (h : d.takesOver n = false) :
    d ≠ .started n i := by
  rintro rfl
  simp [takesOver] at h

theorem takesOver_of_revises {n : Nat} {d : Deed} (h : d.revises n = true) :
    d.takesOver n = true := by
  cases d <;> first | exact h | cases h

theorem revises_of_stops {n : Nat} {d : Deed} (h : d.stops n = true) : d.revises n = true := by
  cases d with
  | planned m stopped due period =>
      simp only [stops, Bool.and_eq_true] at h
      exact h.1
  | cancelled m => exact h
  | _ => cases h

/-- Where no more revisions of an alarm are written down than before, none is among what is new. -/
theorem revises_eq_false_of_countP {n : Nat} {annals later deeds : List Deed}
    (hgrown : later = deeds ++ annals)
    (hcount : later.countP (revises n) = annals.countP (revises n)) :
    ∀ deed ∈ deeds, deed.revises n = false := by
  rw [hgrown, List.countP_append] at hcount
  have hnone : deeds.countP (revises n) = 0 := by omega
  intro deed hdeed
  simpa using List.countP_eq_zero.mp hnone deed hdeed

end Deed

/-- When vigil `i` has begun runs. -/
def beginnings (i : Nat) (annals : List Deed) : List Instant :=
  annals.filterMap fun
    | .began j time => if j = i then some time else none
    | _ => none

/-- How vigil `i` has ended, once for every end. -/
def endings (i : Nat) (annals : List Deed) : List Ending :=
  annals.filterMap fun
    | .ended j e => if j = i then some e else none
    | _ => none

/-- How the runs of vigil `i` have come back. -/
def returns (i : Nat) (annals : List Deed) : List Return :=
  annals.filterMap fun
    | .returned j r => if j = i then some r else none
    | _ => none

/-- What has happened since alarm `n` set out vigil `i`. -/
def tenure (n i : Nat) : List Deed → List Deed
  | [] => []
  | d :: earlier => if d = .started n i then [] else d :: tenure n i earlier

/-- How the last run that vigil `i` has begun came back, and what had happened before that. There
is none before the first run and during a run. -/
def lastReturn? (i : Nat) : List Deed → Option (Return × List Deed)
  | [] => none
  | .began j _ :: earlier => if j = i then none else lastReturn? i earlier
  | .returned j r :: earlier => if j = i then some (r, earlier) else lastReturn? i earlier
  | _ :: earlier => lastReturn? i earlier

/-- The policy that alarm `n` was last given. -/
def planOf? (n : Nat) : List Deed → Option (Instant × Span)
  | [] => none
  | .planned m _ due period :: earlier => if m = n then some (due, period) else planOf? n earlier
  | _ :: earlier => planOf? n earlier

/-- What a vigil has set alarm `n` to since it was last given a policy. -/
def rearmedTo? (n : Nat) : List Deed → Option Instant
  | [] => none
  | .planned m _ _ _ :: earlier => if m = n then none else rearmedTo? n earlier
  | .rearmed m due :: earlier => if m = n then some due else rearmedTo? n earlier
  | _ :: earlier => rearmedTo? n earlier

section

variable {n i : Nat} {d : Deed}

theorem beginnings_cons (h : d.vigil? ≠ some i) (earlier : List Deed) :
    beginnings i (d :: earlier) = beginnings i earlier := by
  cases d with
  | began j time =>
      have hj : j ≠ i := fun hj => h (congrArg some hj)
      simp [beginnings, hj]
  | _ => rfl

theorem beginnings_began (i : Nat) (time : Instant) (earlier : List Deed) :
    beginnings i (.began i time :: earlier) = time :: beginnings i earlier := by
  simp [beginnings]

theorem beginnings_append {deeds : List Deed} (h : ∀ d ∈ deeds, d.vigil? ≠ some i)
    (earlier : List Deed) : beginnings i (deeds ++ earlier) = beginnings i earlier := by
  induction deeds with
  | nil => rfl
  | cons d deeds ih =>
      rw [List.cons_append, beginnings_cons (h d List.mem_cons_self)]
      exact ih fun e he => h e (List.mem_cons_of_mem _ he)

theorem endings_cons (h : d.vigil? ≠ some i) (earlier : List Deed) :
    endings i (d :: earlier) = endings i earlier := by
  cases d with
  | ended j e =>
      have hj : j ≠ i := fun hj => h (congrArg some hj)
      simp [endings, hj]
  | _ => rfl

theorem endings_ended (i : Nat) (e : Ending) (earlier : List Deed) :
    endings i (.ended i e :: earlier) = e :: endings i earlier := by
  simp [endings]

theorem endings_append {deeds : List Deed} (h : ∀ d ∈ deeds, d.vigil? ≠ some i)
    (earlier : List Deed) : endings i (deeds ++ earlier) = endings i earlier := by
  induction deeds with
  | nil => rfl
  | cons d deeds ih =>
      rw [List.cons_append, endings_cons (h d List.mem_cons_self)]
      exact ih fun e he => h e (List.mem_cons_of_mem _ he)

theorem returns_cons (h : d.vigil? ≠ some i) (earlier : List Deed) :
    returns i (d :: earlier) = returns i earlier := by
  cases d with
  | returned j r =>
      have hj : j ≠ i := fun hj => h (congrArg some hj)
      simp [returns, hj]
  | _ => rfl

theorem returns_returned (i : Nat) (r : Return) (earlier : List Deed) :
    returns i (.returned i r :: earlier) = r :: returns i earlier := by
  simp [returns]

theorem returns_append {deeds : List Deed} (h : ∀ d ∈ deeds, d.vigil? ≠ some i)
    (earlier : List Deed) : returns i (deeds ++ earlier) = returns i earlier := by
  induction deeds with
  | nil => rfl
  | cons d deeds ih =>
      rw [List.cons_append, returns_cons (h d List.mem_cons_self)]
      exact ih fun e he => h e (List.mem_cons_of_mem _ he)

theorem lastReturn?_cons (h : d.vigil? ≠ some i) (earlier : List Deed) :
    lastReturn? i (d :: earlier) = lastReturn? i earlier := by
  cases d with
  | began j time =>
      have hj : j ≠ i := fun hj => h (congrArg some hj)
      simp [lastReturn?, hj]
  | returned j r =>
      have hj : j ≠ i := fun hj => h (congrArg some hj)
      simp [lastReturn?, hj]
  | _ => rfl

theorem lastReturn?_returned (i : Nat) (r : Return) (earlier : List Deed) :
    lastReturn? i (.returned i r :: earlier) = some (r, earlier) := by
  simp [lastReturn?]

theorem tenure_cons (h : d ≠ .started n i) (earlier : List Deed) :
    tenure n i (d :: earlier) = d :: tenure n i earlier :=
  if_neg h

theorem tenure_started (n i : Nat) (earlier : List Deed) :
    tenure n i (.started n i :: earlier) = [] :=
  if_pos rfl

theorem tenure_append {deeds : List Deed} (h : ∀ d ∈ deeds, d.takesOver n = false)
    (earlier : List Deed) : tenure n i (deeds ++ earlier) = deeds ++ tenure n i earlier := by
  induction deeds with
  | nil => rfl
  | cons d deeds ih =>
      rw [List.cons_append, tenure_cons (Deed.ne_started_of_takesOver (h d List.mem_cons_self)),
        ih fun e he => h e (List.mem_cons_of_mem _ he), List.cons_append]

theorem planOf?_cons (h : d.plans n = false) (earlier : List Deed) :
    planOf? n (d :: earlier) = planOf? n earlier := by
  cases d with
  | planned m stopped due period =>
      have hm : m ≠ n := by simpa [Deed.plans] using h
      simp [planOf?, hm]
  | _ => rfl

theorem planOf?_append {deeds : List Deed} (h : ∀ d ∈ deeds, d.plans n = false)
    (earlier : List Deed) : planOf? n (deeds ++ earlier) = planOf? n earlier := by
  induction deeds with
  | nil => rfl
  | cons d deeds ih =>
      rw [List.cons_append, planOf?_cons (h d List.mem_cons_self)]
      exact ih fun e he => h e (List.mem_cons_of_mem _ he)

theorem rearmedTo?_cons (h : d.sets n = false) (earlier : List Deed) :
    rearmedTo? n (d :: earlier) = rearmedTo? n earlier := by
  cases d with
  | planned m stopped due period =>
      have hm : m ≠ n := by simpa [Deed.sets] using h
      simp [rearmedTo?, hm]
  | rearmed m due =>
      have hm : m ≠ n := by simpa [Deed.sets] using h
      simp [rearmedTo?, hm]
  | _ => rfl

theorem rearmedTo?_append {deeds : List Deed} (h : ∀ d ∈ deeds, d.sets n = false)
    (earlier : List Deed) : rearmedTo? n (deeds ++ earlier) = rearmedTo? n earlier := by
  induction deeds with
  | nil => rfl
  | cons d deeds ih =>
      rw [List.cons_append, rearmedTo?_cons (h d List.mem_cons_self)]
      exact ih fun e he => h e (List.mem_cons_of_mem _ he)

/-- A tenure goes back to the start, and no further. -/
theorem eq_tenure_append {annals : List Deed} (h : .started n i ∈ annals) :
    ∃ earlier, annals = tenure n i annals ++ .started n i :: earlier := by
  induction annals with
  | nil => cases h
  | cons d annals ih =>
      by_cases hd : d = .started n i
      · subst hd
        exact ⟨annals, by rw [tenure_started]; rfl⟩
      · obtain ⟨earlier, hearlier⟩ := ih (List.mem_of_ne_of_mem (Ne.symm hd) h)
        refine ⟨earlier, ?_⟩
        rw [tenure_cons hd, List.cons_append, ← hearlier]

end

end Almanac
