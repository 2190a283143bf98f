import Almanac.Proofs.Accounting
import Almanac.Proofs.Agreement

/-!
# Handles that are given away

Every create and every update that succeeds gives away a handle that was never given before, and
sets a watcher on the vigil that it sets out. So watchers, handles and vigils come in pairs, all in
the same order.
-/

namespace Almanac

/-- An entry after the release of a handle of an id. -/
def Entry.without (id handle : Nat) (e : Entry) : Entry :=
  if e.id = id ∧ e.handle = some handle then { e with handle := none } else e

namespace Entry

variable {e : Entry} {id handle : Nat}

theorem without_of_held (h : e.id = id ∧ e.handle = some handle) :
    e.without id handle = { e with handle := none } :=
  if_pos h

theorem without_of_not_held (h : ¬ (e.id = id ∧ e.handle = some handle)) :
    e.without id handle = e :=
  if_neg h

theorem without_of_none (h : e.handle = none) : e.without id handle = e :=
  without_of_not_held fun held => by simp [h] at held

theorem without_comm (e : Entry) (id handle other grip : Nat) :
    (e.without id handle).without other grip = (e.without other grip).without id handle := by
  by_cases h : e.id = id ∧ e.handle = some handle
  · by_cases h' : e.id = other ∧ e.handle = some grip
    · rw [without_of_held h, without_of_held h', without_of_none rfl, without_of_none rfl]
    · rw [without_of_held h, without_of_not_held h', without_of_held h, without_of_none rfl]
  · by_cases h' : e.id = other ∧ e.handle = some grip
    · rw [without_of_not_held h, without_of_held h', without_of_none rfl]
    · rw [without_of_not_held h, without_of_not_held h', without_of_not_held h]

end Entry

namespace Roster

variable {r : Roster} {e : Entry} {id handle : Nat}

/-- Where no entry of the id has the handle, there is nothing to release. -/
theorem released_of_not_held (h : ∀ e ∈ r.entries, e.id = id → e.handle ≠ some handle) :
    r.released id handle = r := by
  simp only [released, release]
  cases hfound : r.byId id with
  | error cause => rfl
  | ok found =>
      cases found with
      | none => rfl
      | some e =>
          obtain ⟨he, hid⟩ := byId_some hfound
          have hnot := h e he hid
          simp only [bind, Except.bind, Option.bind_some]
          rw [if_neg hnot]

/-- The entry that has the handle loses it. -/
theorem released_of_held (hs : r.isSpoiled = false) (hnodup : r.ids.Nodup) (he : e ∈ r.entries)
    (hheld : e.handle = some handle) :
    r.released e.id handle = r.modify e.id fun e => { e with handle := none } := by
  simp only [released, release]
  rw [byId_of_mem hs hnodup he]
  simp only [bind, Except.bind, Option.bind_some]
  rw [if_pos hheld]

/-- Whoever is in the roster after a release was there before, and has lost its handle if that was
the one to release. -/
theorem exists_of_mem_released (hs : r.isSpoiled = false) (hnodup : r.ids.Nodup)
    (he : e ∈ (r.released id handle).entries) :
    ∃ x ∈ r.entries, e.id = x.id ∧
      e.handle = if x.id = id ∧ x.handle = some handle then none else x.handle := by
  by_cases held : ∃ x ∈ r.entries, x.id = id ∧ x.handle = some handle
  · obtain ⟨x, hx, rfl, hheld⟩ := held
    rw [released_of_held hs hnodup hx hheld] at he
    obtain ⟨y, hy, rfl⟩ := mem_entries_modify.mp he
    by_cases hid : y.id = x.id
    · obtain rfl := List.inj_on_of_nodup_map hnodup hy hx hid
      exact ⟨y, hy, by simp, by simp [hheld]⟩
    · exact ⟨y, hy, by simp [hid], by simp [hid]⟩
  · have hnot : ∀ x ∈ r.entries, x.id = id → x.handle ≠ some handle :=
      fun x hx hid hhandle => held ⟨x, hx, hid, hhandle⟩
    rw [released_of_not_held hnot] at he
    exact ⟨e, he, rfl, (if_neg fun h => hnot e he h.1 h.2).symm⟩

/-- A release leaves no entry a handle that it did not have. -/
theorem handle_of_mem_released (he : e ∈ (r.released id handle).entries) :
    ∃ x ∈ r.entries, x.id = e.id ∧ (e.handle = x.handle ∨ e.handle = none) := by
  have hsame : e ∈ r.entries →
      ∃ x ∈ r.entries, x.id = e.id ∧ (e.handle = x.handle ∨ e.handle = none) :=
    fun he => ⟨e, he, rfl, .inl rfl⟩
  simp only [released] at he
  split at he
  · next hrelease =>
      rcases release_ok hrelease with rfl | rfl
      · exact hsame he
      · obtain ⟨x, hx, rfl⟩ := mem_entries_modify.mp he
        by_cases hid : x.id = id
        · exact ⟨x, hx, by simp [hid], .inr (by simp [hid])⟩
        · exact ⟨x, hx, by simp [hid], .inl (by simp [hid])⟩
  · exact hsame he

theorem ids_released (r : Roster) (id handle : Nat) : (r.released id handle).ids = r.ids := by
  simp only [released]
  split
  · next hrelease =>
      rcases release_ok hrelease with rfl | rfl
      · rfl
      · exact ids_modify _ _ fun _ => rfl
  · rfl

theorem isSpoiled_released (r : Roster) (id handle : Nat) :
    (r.released id handle).isSpoiled = r.isSpoiled := by
  simp only [released]
  split
  · next hrelease =>
      rcases release_ok hrelease with rfl | rfl <;> rfl
  · rfl

/-- A release is one change made to every entry. -/
theorem entries_released_eq (hs : r.isSpoiled = false) (hnodup : r.ids.Nodup) (id handle : Nat) :
    r.released id handle = { r with entries := r.entries.map (Entry.without id handle) } := by
  by_cases held : ∃ x ∈ r.entries, x.id = id ∧ x.handle = some handle
  · obtain ⟨x, hx, rfl, hheld⟩ := held
    rw [released_of_held hs hnodup hx hheld, modify]
    congr 1
    apply List.map_congr_left
    intro y hy
    by_cases hid : y.id = x.id
    · obtain rfl := List.inj_on_of_nodup_map hnodup hy hx hid
      simp [Entry.without, hheld]
    · simp [Entry.without, hid]
  · rw [released_of_not_held fun x hx hid hhandle => held ⟨x, hx, hid, hhandle⟩]
    have hsame : r.entries.map (Entry.without id handle) = r.entries := by
      conv_rhs => rw [← List.map_id r.entries]
      apply List.map_congr_left
      intro x hx
      exact Entry.without_of_not_held fun h => held ⟨x, hx, h⟩
    rw [hsame]

theorem released_of_spoiled (hs : r.isSpoiled = true) (id handle : Nat) :
    r.released id handle = r := by
  simp only [released, release, byId, sound]
  rw [hs]
  rfl

/-- Two releases come to the same in either order. -/
theorem released_comm (hnodup : r.ids.Nodup) (id handle other grip : Nat) :
    (r.released id handle).released other grip = (r.released other grip).released id handle := by
  cases hs : r.isSpoiled with
  | true => simp only [released_of_spoiled hs]
  | false =>
      have hpair : ∀ id handle other grip : Nat, (r.released id handle).released other grip =
          { r with entries :=
              r.entries.map fun e => (e.without id handle).without other grip } := by
        intro id handle other grip
        rw [entries_released_eq ((r.isSpoiled_released id handle).trans hs)
          (r.ids_released id handle ▸ hnodup), entries_released_eq hs hnodup, List.map_map]
        rfl
      rw [hpair, hpair]
      congr 1
      apply List.map_congr_left
      intro e _
      exact e.without_comm id handle other grip

end Roster

namespace Timetable

variable {t u : Timetable} {i j k : Nat} {e : Entry} {v : Vigil} {w x : Watcher}

/-- Once a roster is spoiled it stays so. -/
theorem Outcome.sound {act : Act} (h : t.Outcome act u) (hu : u.roster.isSpoiled = false) :
    t.roster.isSpoiled = false := by
  have hsame : ∀ {l : Ledger}, u.ledger = l → l.roster.isSpoiled = false := by
    rintro l rfl
    exact hu
  cases h with
  | idle core ledger failed => exact hsame ledger
  | broken core ledger cause entries spoiled failed =>
      have hsound := hsame ledger
      dsimp only at hsound
      rw [spoiled] at hsound
      cases hsound
  | polled i moves ledger => exact hsame ledger
  | watched watcher waiting vigil closed core ledger =>
      have hsound := hsame ledger
      dsimp only at hsound
      split at hsound
      · rwa [Roster.isSpoiled_released] at hsound
      · exact hsound
  | created journal policy same handle sound drawn started result => exact sound
  | updated post found alarm replanned started result => exact hu
  | removed post alarm result => exact hu
  | stopped alarms deeds deeds_cancelled stops => exact hu

theorem Agrees.sound_of_run (h : t.Agrees) {acts : List Act}
    (hacts : ∀ act ∈ acts, act.isDirect = false) (hu : (t.run acts).roster.isSpoiled = false) :
    t.roster.isSpoiled = false := by
  induction acts generalizing t with
  | nil => exact hu
  | cons act acts ih =>
      obtain ⟨hact, hacts⟩ := List.forall_mem_cons.mp hacts
      exact (h.outcome hact).sound (ih (h.act hact) hacts hu)

/-- What a create or an update that succeeds gives away: the handle in its answer, for the entry
of its answer, and the vigil that it has set out. -/
structure Grant where
  entry : Nat
  handle : Option Nat
  vigil : Nat
  deriving DecidableEq, Repr

def grant? (t : Timetable) : Act → Option Grant
  | .create task plan =>
    match (t.create task plan).1 with
    | .ok view => some ⟨view.id, view.handle, t.vigils.length⟩
    | .error _ => none
  | .update id plan =>
    match (t.update id plan).1 with
    | .ok view => some ⟨view.id, view.handle, t.vigils.length⟩
    | .error _ => none
  | _ => none

/-- What the acts of a history give away, one after the other. -/
def grants (t : Timetable) : List Act → List Grant
  | [] => []
  | act :: acts => (t.grant? act).toList ++ (t.act act).grants acts

theorem grant?_of_failed {act : Act} (h : t.succeeds act = false) : t.grant? act = none := by
  cases act with
  | create task plan =>
      obtain ⟨cause, hcause⟩ := exists_error_of_not_isOk h
      simp only [grant?]
      rw [hcause]
  | update other plan =>
      obtain ⟨cause, hcause⟩ := exists_error_of_not_isOk h
      simp only [grant?]
      rw [hcause]
  | _ => rfl

/-- The grant that a watcher came with. -/
def watcherGrant (w : Watcher) : Grant := ⟨w.entry, some w.handle, w.vigil⟩

theorem viewOf_handle (t : Timetable) (e : Entry) : (t.viewOf e).handle = e.handle := by
  simp only [viewOf]
  split <;> rfl

theorem map_set_done {α : Type} {f : Watcher → α} (hf : f { w with isDone := true } = f w)
    {watchers : List Watcher} (hw : watchers[j]? = some w) :
    (watchers.set j { w with isDone := true }).map f = watchers.map f := by
  rw [List.map_set, hf]
  exact Places.set_self (by rw [List.getElem?_map, hw]; rfl)

/-- Every grant comes with a watcher, and there are no others. -/
theorem Outcome.watchers {act : Act} (h : t.Outcome act u) :
    u.watchers.map watcherGrant = t.watchers.map watcherGrant ++ (t.grant? act).toList := by
  have hnone : ∀ {l : Ledger}, u.ledger = l → t.succeeds act = false →
      l.watchers.map watcherGrant = t.watchers.map watcherGrant →
      u.watchers.map watcherGrant = t.watchers.map watcherGrant ++ (t.grant? act).toList := by
    rintro l rfl failed hsame
    rw [grant?_of_failed failed, Option.toList_none, List.append_nil]
    exact hsame
  cases h with
  | idle core ledger failed => exact hnone ledger failed rfl
  | broken core ledger cause entries spoiled failed => exact hnone ledger failed rfl
  | polled i moves ledger => exact hnone ledger rfl rfl
  | watched watcher waiting vigil closed core ledger =>
      exact hnone ledger rfl (map_set_done rfl watcher)
  | created journal policy same handle sound drawn started result =>
      rw [grant?, result]
      dsimp only
      rw [viewOf_id, viewOf_handle, handle]
      exact List.map_append
  | updated post found alarm replanned started result =>
      obtain ⟨_, hid⟩ := Roster.byId_some found
      rw [grant?, result]
      dsimp only
      rw [viewOf_id, viewOf_handle]
      dsimp only
      rw [hid]
      exact List.map_append
  | removed post alarm result => exact (List.append_nil _).symm
  | stopped alarms deeds deeds_cancelled stops => exact (List.append_nil _).symm

theorem Agrees.watchers_run (h : t.Agrees) {acts : List Act}
    (hacts : ∀ act ∈ acts, act.isDirect = false) :
    (t.run acts).watchers.map watcherGrant = t.watchers.map watcherGrant ++ t.grants acts := by
  induction acts generalizing t with
  | nil => simp [grants]
  | cons act acts ih =>
      obtain ⟨hact, hacts⟩ := List.forall_mem_cons.mp hacts
      rw [run_cons, ih (h.act hact) hacts, (h.outcome hact).watchers, grants, List.append_assoc]

/-- A watcher watches a vigil of an alarm of its entry, and is done only once that is over. -/
def Watches (t : Timetable) (w : Watcher) : Prop :=
  ∃ v a, t.vigils[w.vigil]? = some v ∧ t.alarms[v.alarm]? = some a ∧ a.entry = w.entry ∧
    (w.isDone = true → v.phase.isOpen = false)

/-- No two watchers came with the same handle or the same vigil. -/
structure Numbered (t : Timetable) : Prop where
  handle_lt : ∀ w ∈ t.watchers, w.handle < t.nextHandle
  handles : (t.watchers.map Watcher.handle).Pairwise (· < ·)
  vigils : (t.watchers.map Watcher.vigil).Pairwise (· < ·)
  watches : ∀ w ∈ t.watchers, t.Watches w

theorem Watches.steps (h : t.Watches w) {may : Core.Impulse → Prop}
    (hsteps : Core.Steps may t.core u.core) : u.Watches w := by
  obtain ⟨v, a, hv, ha, hentry, hdone⟩ := h
  obtain ⟨v', hv', halarm, _⟩ := Core.Steps.vigil (c := t.core) hsteps hv
  obtain ⟨b, hb, hbecomes⟩ := Core.Steps.alarm (c := t.core) hsteps ha
  refine ⟨v', b, hv', ?_, hbecomes.entry.trans hentry, ?_⟩
  · rw [halarm]
    exact hb
  · intro done
    have hsame : u.vigils[w.vigil]? = some v :=
      Core.Steps.closed (c := t.core) hsteps hv (hdone done)
    have hv' : u.vigils[w.vigil]? = some v' := hv'
    rw [hsame] at hv'
    cases hv'
    exact hdone done

theorem Watches.vigil_lt (h : t.Watches w) : w.vigil < t.vigils.length := by
  obtain ⟨v, _, hv, _⟩ := h
  exact Places.lt_of_getElem? hv

namespace Numbered

theorem of_same (h : t.Numbered) {may : Core.Impulse → Prop}
    (hsteps : Core.Steps may t.core u.core) (hwatchers : u.watchers = t.watchers)
    (hnext : u.nextHandle = t.nextHandle) : u.Numbered where
  handle_lt := by rw [hwatchers, hnext]; exact h.handle_lt
  handles := by rw [hwatchers]; exact h.handles
  vigils := by rw [hwatchers]; exact h.vigils
  watches := by
    rw [hwatchers]
    exact fun w hw => (h.watches w hw).steps hsteps

/-- A watcher is done once its vigil is over. -/
theorem done (h : t.Numbered) {may : Core.Impulse → Prop}
    (hsteps : Core.Steps may t.core u.core) (hw : t.watchers[j]? = some w)
    (hv : t.vigils[w.vigil]? = some v) (closed : v.phase.isOpen = false)
    (hwatchers : u.watchers = t.watchers.set j { w with isDone := true })
    (hnext : u.nextHandle = t.nextHandle) : u.Numbered := by
  have hdone : t.Watches { w with isDone := true } := by
    obtain ⟨v', a, hv', ha, hentry, _⟩ := h.watches w (List.mem_of_getElem? hw)
    rw [hv] at hv'
    cases hv'
    exact ⟨v, a, hv, ha, hentry, fun _ => closed⟩
  have hmem : ∀ x ∈ u.watchers, x ∈ t.watchers ∨ x = { w with isDone := true } := by
    intro x hx
    rw [hwatchers] at hx
    exact List.mem_or_eq_of_mem_set hx
  refine ⟨?_, ?_, ?_, ?_⟩
  · intro x hx
    rw [hnext]
    rcases hmem x hx with hold | rfl
    · exact h.handle_lt x hold
    · exact h.handle_lt w (List.mem_of_getElem? hw)
  · rw [hwatchers, map_set_done rfl hw]
    exact h.handles
  · rw [hwatchers, map_set_done rfl hw]
    exact h.vigils
  · intro x hx
    rcases hmem x hx with hold | rfl
    · exact (h.watches x hold).steps hsteps
    · exact hdone.steps hsteps

/-- A grant comes with numbers of its own. -/
theorem granted (h : t.Numbered) {may : Core.Impulse → Prop}
    (hsteps : Core.Steps may t.core u.core)
    (hwatchers : u.watchers = t.watchers ++ [x]) (hnext : u.nextHandle = t.nextHandle + 1)
    (hhandle : x.handle = t.nextHandle) (hvigil : x.vigil = t.vigils.length)
    (hwatches : u.Watches x) : u.Numbered := by
  have hmem : ∀ w ∈ u.watchers, w ∈ t.watchers ∨ w = x := by
    intro w hw
    rw [hwatchers] at hw
    exact (List.mem_append.mp hw).imp_right List.mem_singleton.mp
  refine ⟨?_, ?_, ?_, ?_⟩
  · intro w hw
    rw [hnext]
    rcases hmem w hw with hold | rfl
    · exact Nat.lt_succ_of_lt (h.handle_lt w hold)
    · exact Nat.lt_succ_of_le (Nat.le_of_eq hhandle)
  · rw [hwatchers, List.map_append, List.pairwise_append]
    refine ⟨h.handles, List.pairwise_singleton _ _, ?_⟩
    intro old hold new hnew
    obtain ⟨w, hw, rfl⟩ := List.mem_map.mp hold
    rw [List.mem_singleton.mp hnew, hhandle]
    exact h.handle_lt w hw
  · rw [hwatchers, List.map_append, List.pairwise_append]
    refine ⟨h.vigils, List.pairwise_singleton _ _, ?_⟩
    intro old hold new hnew
    obtain ⟨w, hw, rfl⟩ := List.mem_map.mp hold
    rw [List.mem_singleton.mp hnew, hvigil]
    exact (h.watches w hw).vigil_lt
  · intro w hw
    rcases hmem w hw with hold | rfl
    · exact (h.watches w hold).steps hsteps
    · exact hwatches

end Numbered

theorem Posted.numbered_act (h : t.Posted) (hnumbered : t.Numbered) {act : Act}
    (hact : act.isDirect = false) : (t.act act).Numbered := by
  have houtcome := h.outcome hact
  have hsteps := t.steps_act act
  generalize t.act act = u at houtcome hsteps
  cases houtcome with
  | idle core ledger failed =>
      exact hnumbered.of_same hsteps (congrArg Ledger.watchers ledger)
        (congrArg Ledger.nextHandle ledger)
  | broken core ledger cause entries spoiled failed =>
      exact hnumbered.of_same hsteps (congrArg Ledger.watchers ledger)
        (congrArg Ledger.nextHandle ledger)
  | polled i moves ledger =>
      exact hnumbered.of_same hsteps (congrArg Ledger.watchers ledger)
        (congrArg Ledger.nextHandle ledger)
  | watched watcher waiting vigil closed core ledger =>
      exact hnumbered.done hsteps watcher vigil closed (congrArg Ledger.watchers ledger)
        (congrArg Ledger.nextHandle ledger)
  | created journal policy same handle sound drawn started result =>
      obtain ⟨hentry, _⟩ := Alarm.start_keeps started
      exact hnumbered.granted hsteps rfl rfl rfl rfl
        ⟨_, _, Places.getElem?_last _ _, Places.getElem?_last _ _, hentry,
          fun done => by cases done⟩
  | @updated id n plan e a y b post found alarm replanned started result =>
      obtain ⟨z, hz, hid⟩ := h.alarm post
      rw [alarm] at hz
      cases hz
      obtain ⟨hentry, _⟩ := Alarm.start_keeps started
      obtain ⟨hentry', _⟩ := Alarm.replan_keeps replanned
      exact hnumbered.granted hsteps rfl rfl rfl rfl
        ⟨_, b, Places.getElem?_last _ _, Places.getElem?_set_self alarm b,
          hentry.trans (hentry'.trans hid), fun done => by cases done⟩
  | removed post alarm result => exact hnumbered.of_same hsteps rfl rfl
  | stopped alarms deeds deeds_cancelled stops => exact hnumbered.of_same hsteps rfl rfl

theorem Agrees.numbered_run (h : t.Agrees) (hnumbered : t.Numbered) {acts : List Act}
    (hacts : ∀ act ∈ acts, act.isDirect = false) : (t.run acts).Numbered := by
  induction acts generalizing t with
  | nil => exact hnumbered
  | cons act acts ih =>
      obtain ⟨hact, hacts⟩ := List.forall_mem_cons.mp hacts
      exact ih (h.act hact) (h.numbered_act hnumbered hact) hacts

end Timetable

end Almanac
