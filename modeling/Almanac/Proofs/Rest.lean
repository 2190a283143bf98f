import Almanac.Timetable.Settle

/-!
# Timetables at rest

A timetable is at rest where every vigil and every watcher waits: no poll would take anything
further, and settling is over.
-/

namespace Almanac.Timetable

/-- Holds where every vigil and every watcher waits. -/
structure AtRest (t : Timetable) : Prop where
  vigils : ∀ v ∈ t.vigils, t.isReady v = false
  watchers : ∀ w ∈ t.watchers, t.isCalled w = false

variable {t : Timetable} {v : Vigil} {w : Watcher}

theorem mem_readyVigils_iff {i : Nat} :
    (i, v) ∈ t.readyVigils ↔ t.vigils[i]? = some v ∧ t.isReady v = true := by
  simp only [readyVigils, List.mem_filter, List.mem_map, Prod.exists, Prod.mk.injEq,
    List.mem_zipIdx_iff_getElem?]
  constructor
  · rintro ⟨⟨x, j, hx, rfl, rfl⟩, ready⟩
    exact ⟨hx, ready⟩
  · rintro ⟨hv, ready⟩
    exact ⟨⟨v, i, hv, rfl, rfl⟩, ready⟩

theorem foldl_earlier_mem (first : Nat × Vigil) (vs : List (Nat × Vigil)) :
    vs.foldl earlier first ∈ first :: vs := by
  induction vs generalizing first with
  | nil => exact List.mem_cons_self
  | cons x vs ih =>
      rcases List.mem_cons.mp (ih (earlier first x)) with heq | hmem
      · rw [List.foldl_cons, heq, earlier]
        split
        · exact List.mem_cons_of_mem _ List.mem_cons_self
        · exact List.mem_cons_self
      · exact List.mem_cons_of_mem _ (List.mem_cons_of_mem _ hmem)

/-- The vigil to poll next is one that is ready. -/
theorem ready_of_nextVigil? {i : Nat} (h : t.nextVigil? = some i) :
    ∃ v, t.vigils[i]? = some v ∧ t.isReady v = true := by
  simp only [nextVigil?] at h
  split at h
  · cases h
  · next first vs hready =>
      cases h
      have hmem := foldl_earlier_mem first vs
      rw [← hready] at hmem
      exact ⟨_, mem_readyVigils_iff.mp hmem⟩

theorem nextVigil?_eq_none_iff : t.nextVigil? = none ↔ ∀ v ∈ t.vigils, t.isReady v = false := by
  have hnone : t.nextVigil? = none ↔ t.readyVigils = [] := by
    simp only [nextVigil?]
    split
    · next hready => simp [hready]
    · next first vs hready => simp [hready]
  rw [hnone, List.eq_nil_iff_forall_not_mem]
  constructor
  · intro h v hv
    obtain ⟨i, hi⟩ := List.mem_iff_getElem?.mp hv
    rw [Bool.eq_false_iff]
    intro ready
    exact h (i, v) (mem_readyVigils_iff.mpr ⟨hi, ready⟩)
  · rintro h ⟨i, v⟩ hmem
    obtain ⟨hv, ready⟩ := mem_readyVigils_iff.mp hmem
    rw [h v (List.mem_of_getElem? hv)] at ready
    cases ready

/-- Settling is over exactly at rest. -/
theorem step?_eq_none_iff : t.step? = none ↔ t.AtRest := by
  have hwatchers : t.nextWatcher? = none ↔ ∀ w ∈ t.watchers, t.isCalled w = false :=
    List.findIdx?_eq_none_iff
  constructor
  · intro h
    simp only [step?] at h
    split at h
    · cases h
    · next hvigil =>
        exact ⟨nextVigil?_eq_none_iff.mp hvigil, hwatchers.mp (Option.map_eq_none_iff.mp h)⟩
  · intro h
    simp only [step?]
    rw [nextVigil?_eq_none_iff.mpr h.vigils, hwatchers.mpr h.watchers]
    rfl

end Almanac.Timetable
