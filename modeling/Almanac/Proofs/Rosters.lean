import Almanac.Roster
import Mathlib.Data.List.Basic
import Mathlib.Data.List.Nodup

/-!
# Using the roster

What each use of the roster comes to if it succeeds, and that an id that is drawn is fresh.
-/

namespace Almanac

namespace IdSource

theorem isFresh_iff {live : List Nat} {candidate : Nat} :
    isFresh live candidate = true ↔ candidate ≠ 0 ∧ candidate ∉ live := by
  simp [isFresh]

/-- Counting up ends at a fresh candidate as soon as no taken one can be left. -/
theorem countUp_fresh {live : List Nat} {fuel next : Nat}
    (hfuel : ((0 :: live).filter fun c => decide (next ≤ c)).length ≤ fuel) (rejected : Nat) :
    ∃ id, (countUp live fuel next rejected).id = some id ∧ isFresh live id = true := by
  induction fuel generalizing next rejected with
  | zero =>
      refine ⟨next, rfl, ?_⟩
      have hempty := List.length_eq_zero_iff.mp (Nat.le_zero.mp hfuel)
      have hnone : ∀ c ∈ 0 :: live, ¬ next ≤ c := by simpa using hempty
      rw [isFresh_iff]
      constructor
      · rintro rfl
        exact hnone 0 List.mem_cons_self (Nat.le_refl 0)
      · intro hmem
        exact hnone next (List.mem_cons_of_mem _ hmem) (Nat.le_refl next)
  | succ fuel ih =>
      by_cases hfresh : isFresh live next = true
      · refine ⟨next, ?_, hfresh⟩
        rw [countUp, if_pos hfresh]
      · rw [countUp, if_neg hfresh]
        apply ih
        -- the candidate that was rejected is one of those that were left
        have htaken : next ∈ 0 :: live := by
          rw [isFresh_iff] at hfresh
          by_contra hmem
          simp only [List.mem_cons, not_or] at hmem
          exact hfresh hmem
        have hrest : ((0 :: live).filter fun c => decide (next + 1 ≤ c)) =
            ((0 :: live).filter fun c => decide (next ≤ c)).filter fun c => decide (c ≠ next) := by
          rw [List.filter_filter]
          apply List.filter_congr
          intro c _
          rw [← Bool.decide_and, decide_eq_decide]
          omega
        have hshorter : (((0 :: live).filter fun c => decide (next ≤ c)).filter
            fun c => decide (c ≠ next)).length <
              ((0 :: live).filter fun c => decide (next ≤ c)).length := by
          rw [List.length_filter_lt_length_iff_exists]
          exact ⟨next, List.mem_filter.mpr ⟨htaken, by simp⟩, by simp⟩
        rw [hrest]
        omega

theorem search_fresh {live : List Nat} {next rejected : Nat} {script : List (Option Nat)}
    {id : Nat} (h : (search live next script rejected).id = some id) :
    isFresh live id = true := by
  induction script generalizing rejected with
  | nil =>
      have hfuel : ((0 :: live).filter fun c => decide (next ≤ c)).length ≤ live.length + 1 :=
        List.length_filter_le _ _
      obtain ⟨drawn, hdrawn, hfresh⟩ := countUp_fresh hfuel rejected
      rw [search, hdrawn] at h
      cases h
      exact hfresh
  | cons candidate script ih =>
      cases candidate with
      | none =>
          rw [search] at h
          cases h
      | some candidate =>
          rw [search] at h
          split at h
          · next hfresh =>
              cases h
              exact hfresh
          · exact ih h

/-- An id that is drawn is neither 0 nor taken. -/
theorem draw_fresh {s : IdSource} {live : List Nat} {id : Nat} (h : (s.draw live).id = some id) :
    id ≠ 0 ∧ id ∉ live :=
  isFresh_iff.mp (search_fresh h)

end IdSource

namespace Roster

variable {r r' : Roster} {e stored : Entry} {id handle : Nat}

theorem sound_ok (h : r.sound = .ok ()) : r.isSpoiled = false := by
  simp only [sound] at h
  split at h
  · cases h
  · next hs => exact Bool.eq_false_iff.mpr hs

/-- A free id may join. -/
theorem nodup_append_of_free (hnodup : r.ids.Nodup) (hfree : id ∉ r.ids) :
    (r.ids ++ [id]).Nodup := by
  rw [List.nodup_append]
  refine ⟨hnodup, List.nodup_singleton _, ?_⟩
  intro other hother new hnew
  rw [List.mem_singleton.mp hnew]
  rintro rfl
  exact hfree hother

theorem all_ok {entries : List Entry} (h : r.all = .ok entries) : entries = r.entries := by
  obtain ⟨_, _, hentries⟩ := bind_eq_ok_iff.mp h
  exact (Except.ok.inj hentries).symm

theorem byId_ok {found : Option Entry} (h : r.byId id = .ok found) :
    r.isSpoiled = false ∧ r.entries.find? (fun e => e.id == id) = found := by
  obtain ⟨_, hsound, hfind⟩ := bind_eq_ok_iff.mp h
  exact ⟨sound_ok hsound, Except.ok.inj hfind⟩

theorem byId_of_not_spoiled (h : r.isSpoiled = false) (id : Nat) :
    r.byId id = .ok (r.entries.find? fun e => e.id == id) := by
  simp only [byId, sound]
  rw [h]
  rfl

theorem byId_some (h : r.byId id = .ok (some e)) : e ∈ r.entries ∧ e.id = id := by
  obtain ⟨_, hfind⟩ := byId_ok h
  exact ⟨List.mem_of_find?_eq_some hfind, by simpa using List.find?_some hfind⟩

theorem byId_none (h : r.byId id = .ok none) : id ∉ r.ids := by
  obtain ⟨_, hfind⟩ := byId_ok h
  rw [List.find?_eq_none] at hfind
  intro hmem
  obtain ⟨e, he, rfl⟩ := List.mem_map.mp hmem
  exact hfind e he (by simp)

/-- Where ids differ, a search finds the one entry of an id. -/
theorem find?_eq_some_iff (hnodup : r.ids.Nodup) :
    r.entries.find? (fun e => e.id == id) = some e ↔ e ∈ r.entries ∧ e.id = id := by
  constructor
  · intro hfind
    exact ⟨List.mem_of_find?_eq_some hfind, by simpa using List.find?_some hfind⟩
  · rintro ⟨he, rfl⟩
    cases hfind : r.entries.find? fun x => x.id == e.id with
    | none =>
        rw [List.find?_eq_none] at hfind
        exact absurd (by simp) (hfind e he)
    | some x =>
        have hx := List.mem_of_find?_eq_some hfind
        have hid : x.id = e.id := by simpa using List.find?_some hfind
        rw [List.inj_on_of_nodup_map hnodup hx he hid]

theorem byId_of_mem (hs : r.isSpoiled = false) (hnodup : r.ids.Nodup) (he : e ∈ r.entries) :
    r.byId e.id = .ok (some e) := by
  rw [byId_of_not_spoiled hs, (find?_eq_some_iff hnodup).mpr ⟨he, rfl⟩]

theorem byId_of_missing (hs : r.isSpoiled = false) (hid : id ∉ r.ids) : r.byId id = .ok none := by
  rw [byId_of_not_spoiled hs]
  cases hfind : r.entries.find? fun e => e.id == id with
  | none => rfl
  | some e =>
      have hfound : r.byId id = .ok (some e) := by rw [byId_of_not_spoiled hs, hfind]
      obtain ⟨he, rfl⟩ := byId_some hfound
      exact absurd (List.mem_map_of_mem he) hid

/-- An entry that is added has an id drawn for it and comes last. -/
theorem add_ok (h : (r.add e).outcome = .ok stored) :
    r.isSpoiled = false ∧ (r.source.draw r.ids).id = some stored.id ∧
      stored = { e with id := stored.id } ∧
      (r.add e).roster =
        ⟨r.entries ++ [stored], (r.source.draw r.ids).source, false⟩ := by
  unfold add at h ⊢
  split
  · next hid =>
      rw [if_pos hid] at h
      cases h
  · next hid =>
      rw [if_neg hid] at h
      split
      · next hs =>
          rw [if_pos hs] at h
          cases h
      · next hs =>
          rw [if_neg hs] at h
          have hs : r.isSpoiled = false := Bool.eq_false_iff.mpr hs
          dsimp only at h ⊢
          split
          · next hdrawn =>
              rw [hdrawn] at h
              cases h
          · next drawn hdrawn =>
              rw [hdrawn] at h
              cases h
              refine ⟨hs, hdrawn, rfl, ?_⟩
              dsimp only
              rw [hs]

/-- An entry that has no id yet is refused by a spoiled roster, or else spoils it, and leaves no
trace among the entries. -/
theorem add_error {cause : Failure RosterError} (hid : e.id = 0)
    (h : (r.add e).outcome = .error cause) :
    (r.isSpoiled = true ∨ (r.source.draw r.ids).id = none) ∧
      (r.add e).roster.entries = r.entries ∧ (r.add e).roster.isSpoiled = true := by
  have hid : ¬ e.id ≠ 0 := fun hne => hne hid
  unfold add at h ⊢
  rw [if_neg hid] at h ⊢
  split
  · next hs => exact ⟨Or.inl hs, rfl, hs⟩
  · next hs =>
      rw [if_neg hs] at h
      dsimp only at h ⊢
      split
      · next hdrawn => exact ⟨Or.inr hdrawn, rfl, rfl⟩
      · next drawn hdrawn =>
          rw [hdrawn] at h
          cases h

theorem update_of_byId (policy : Entry) (h : r.byId policy.id = .ok (some stored)) :
    r.update policy =
      .ok ({ stored with due := policy.due, period := policy.period, handle := policy.handle },
        r.modify policy.id fun s =>
          { s with due := policy.due, period := policy.period, handle := policy.handle }) := by
  simp only [update]
  rw [h]
  rfl

theorem remove_of_byId (h : r.byId id = .ok (some e)) :
    r.remove id = .ok { r with entries := r.entries.filter fun e => e.id != id } := by
  simp only [remove]
  rw [h]
  rfl

/-- A release changes no more than a handle. -/
theorem release_ok {released : Bool} (h : r.release id handle = .ok (released, r')) :
    r' = r ∨ r' = r.modify id fun e => { e with handle := none } := by
  obtain ⟨found, _, hfound⟩ := bind_eq_ok_iff.mp h
  split at hfound
  · cases hfound
    exact Or.inr rfl
  · cases hfound
    exact Or.inl rfl

/-- A change to the entry that was added last leaves the others alone. -/
theorem entries_modify_last {entries : List Entry} (hentries : r.entries = entries ++ [stored])
    (hfree : stored.id ∉ entries.map Entry.id) (f : Entry → Entry) :
    (r.modify stored.id f).entries = entries ++ [f stored] := by
  have hold : entries.map (fun e => if e.id = stored.id then f e else e) = entries := by
    conv_rhs => rw [← List.map_id entries]
    apply List.map_congr_left
    intro e he
    rw [if_neg, id]
    intro hid
    exact hfree (hid ▸ List.mem_map_of_mem he)
  simp only [modify]
  rw [hentries, List.map_append, hold]
  simp

theorem mem_entries_modify {f : Entry → Entry} :
    e ∈ (r.modify id f).entries ↔ ∃ x ∈ r.entries, (if x.id = id then f x else x) = e :=
  List.mem_map

end Roster

end Almanac
