import Almanac.Proofs.Agreement
import Almanac.Proofs.Lost

/-!
# The last grant of an entry

The last watcher that came for the id of an entry watches the vigil that the entry's alarm has set
out last, whatever became of the id before. So at rest an entry has lost its handle exactly if that
vigil has ended by itself.
-/

namespace Almanac

namespace Timetable

variable {t u : Timetable} {i k n id : Nat} {v : Vigil} {w x : Watcher} {a b : Alarm} {e : Entry}

/-- Vigil `i` was set out by the last start of alarm `n`. -/
def IsLatest (t : Timetable) (n i : Nat) : Prop :=
  ∃ v a, t.vigils[i]? = some v ∧ v.alarm = n ∧ t.alarms[n]? = some a ∧
    v.generation = a.generation

/-- The last grant for an id came with watcher `k`, and was for the last start of alarm `n`. -/
structure Tends (t : Timetable) (id n k : Nat) (w : Watcher) : Prop where
  watcher : t.watchers[k]? = some w
  entry : w.entry = id
  latest : ∀ j x, k < j → t.watchers[j]? = some x → x.entry ≠ id
  vigil : t.IsLatest n w.vigil

/-- Every post has such a grant. -/
def Tended (t : Timetable) : Prop :=
  ∀ {id n : Nat}, (id, n) ∈ t.posts → ∃ k w, t.Tends id n k w

/-- Alarm `n` has been started as often in `u` as in `t`. -/
def StartsAlike (t u : Timetable) (n : Nat) : Prop :=
  ∀ a b, t.alarms[n]? = some a → u.alarms[n]? = some b → b.generation = a.generation

/-- A vigil was set out by the last start as long as there was no other start. -/
theorem IsLatest.keep (h : t.IsLatest n i) {may : Core.Impulse → Prop}
    (hsteps : Core.Steps may t.core u.core) (alike : t.StartsAlike u n) : u.IsLatest n i := by
  obtain ⟨v, a, hv, own, ha, hlast⟩ := h
  obtain ⟨v', hv', halarm, _, hsame⟩ := Core.Steps.vigil hsteps hv
  obtain ⟨b, hb, _⟩ := Core.Steps.alarm hsteps ha
  exact ⟨v', b, hv', halarm.trans own, hb, hsame.trans (hlast.trans (alike a b ha hb).symm)⟩

namespace Tends

theorem of_same (h : t.Tends id n k w) (hwatchers : u.watchers = t.watchers)
    (hlatest : u.IsLatest n w.vigil) : u.Tends id n k w where
  watcher := by rw [hwatchers]; exact h.watcher
  entry := h.entry
  latest := by rw [hwatchers]; exact h.latest
  vigil := hlatest

theorem append (h : t.Tends id n k w) (hwatchers : u.watchers = t.watchers ++ [x])
    (hother : x.entry ≠ id) (hlatest : u.IsLatest n w.vigil) : u.Tends id n k w where
  watcher := by rw [hwatchers]; exact Places.getElem?_append h.watcher _
  entry := h.entry
  latest := by
    intro j y hj hy
    rw [hwatchers] at hy
    rcases Places.getElem?_grown hy with hold | ⟨_, rfl⟩
    · exact h.latest j y hj hold
    · exact hother
  vigil := hlatest

theorem granted (hwatchers : u.watchers = t.watchers ++ [x]) (hentry : x.entry = id)
    (hlatest : u.IsLatest n x.vigil) : u.Tends id n t.watchers.length x where
  watcher := by rw [hwatchers]; exact Places.getElem?_last _ _
  entry := hentry
  latest := by
    intro j y hj hy
    have hlt := Places.lt_of_getElem? hy
    rw [hwatchers, List.length_append, List.length_singleton] at hlt
    omega
  vigil := hlatest

/-- A grant that is taken is still the last. -/
theorem of_done (h : t.Tends id n k w) {j : Nat} (hx : t.watchers[j]? = some x)
    (hwatchers : u.watchers = t.watchers.set j { x with isDone := true })
    (core : u.core = t.core) : ∃ w, u.Tends id n k w := by
  have hlatest : ∀ {i}, t.IsLatest n i → u.IsLatest n i := by
    rintro i ⟨v, a, hv, own, ha, hlast⟩
    have hvigils : u.vigils = t.vigils := congrArg Core.vigils core
    have halarms : u.alarms = t.alarms := congrArg Core.alarms core
    exact ⟨v, a, hvigils ▸ hv, own, halarms ▸ ha, hlast⟩
  have hafter : ∀ j' y, k < j' → u.watchers[j']? = some y → y.entry ≠ id := by
    intro j' y hj hy
    rw [hwatchers, Places.getElem?_set hx] at hy
    split at hy
    · next hone =>
        cases hy
        exact h.latest j x (hone ▸ hj) hx
    · exact h.latest j' y hj hy
  by_cases hjk : j = k
  · subst hjk
    obtain rfl : x = w := Option.some.inj (hx.symm.trans h.watcher)
    refine ⟨{ x with isDone := true }, ?_, h.entry, hafter, hlatest h.vigil⟩
    rw [hwatchers]
    exact Places.getElem?_set_self hx _
  · refine ⟨w, ?_, h.entry, hafter, hlatest h.vigil⟩
    rw [hwatchers, Places.getElem?_set hx, if_neg hjk]
    exact h.watcher

end Tends

/-- Moves do not count as starts. -/
theorem generation_of_moves {c d : Core} (hmoves : Core.Moves i c d) (ha : c.alarms[n]? = some a)
    (hb : d.alarms[n]? = some b) : b.generation = a.generation := by
  induction hmoves generalizing b with
  | refl =>
      rw [ha] at hb
      cases hb
      rfl
  | tail _ hmove ih =>
      obtain ⟨hv, hx, goes⟩ := hmove
      dsimp only at hb
      rw [Places.getElem?_set hx] at hb
      split at hb
      · next hn =>
          cases hb
          subst hn
          exact goes.leaves.1.trans (ih hx)
      · exact ih hb

theorem generation_stop (a : Alarm) : a.stop.generation = a.generation := by
  simp only [Alarm.stop]
  split <;> rfl

namespace StartsAlike

theorem of_alarm (h : u.alarms[n]? = t.alarms[n]?) : t.StartsAlike u n := by
  intro a b ha hb
  rw [h, ha] at hb
  cases hb
  rfl

theorem of_core (core : u.core = t.core) : t.StartsAlike u n := by
  have halarms : u.alarms = t.alarms := congrArg Core.alarms core
  exact of_alarm (congrArg (·[n]?) halarms)

/-- To stop an alarm is not to start it. -/
theorem of_stop {m : Nat} (ha : t.alarms[m]? = some a) (hset : u.alarms = t.alarms.set m a.stop) :
    t.StartsAlike u n := by
  intro x y hx hy
  rw [hset, Places.getElem?_set ha] at hy
  split at hy
  · next hn =>
      subst hn
      cases hy
      rw [ha] at hx
      cases hx
      exact generation_stop a
  · rw [hx] at hy
    cases hy
    rfl

/-- Vigils start no alarm. -/
theorem of_moves (hmoves : Core.Moves i t.core u.core) : t.StartsAlike u n :=
  fun _ _ => generation_of_moves hmoves

end StartsAlike

/-- Without a grant the last ones are still the last, if no alarm was started. -/
theorem Tended.keep (h : t.Tended) (hpost : (id, n) ∈ t.posts) {may : Core.Impulse → Prop}
    (hsteps : Core.Steps may t.core u.core) (alike : t.StartsAlike u n)
    (hwatchers : u.watchers = t.watchers) : ∃ k w, u.Tends id n k w := by
  obtain ⟨k, w, htends⟩ := h hpost
  exact ⟨k, w, htends.of_same hwatchers (htends.vigil.keep hsteps alike)⟩

theorem Tended.act (h : t.Tended) (hposted : t.Posted) {act : Act} (hact : act.isDirect = false) :
    (t.act act).Tended := by
  have houtcome := hposted.outcome hact
  have hsteps := t.steps_act act
  generalize t.act act = u at houtcome hsteps
  intro id n hpost
  cases houtcome with
  | idle core ledger failed =>
      have hposts : u.posts = t.posts := congrArg Ledger.posts ledger
      exact h.keep (hposts ▸ hpost) hsteps (.of_core core) (congrArg Ledger.watchers ledger)
  | broken core ledger cause entries spoiled failed =>
      have hposts : u.posts = t.posts := congrArg Ledger.posts ledger
      exact h.keep (hposts ▸ hpost) hsteps (.of_core core) (congrArg Ledger.watchers ledger)
  | polled i moves ledger =>
      have hposts : u.posts = t.posts := congrArg Ledger.posts ledger
      exact h.keep (hposts ▸ hpost) hsteps (.of_moves moves) (congrArg Ledger.watchers ledger)
  | watched watcher waiting vigil closed core ledger =>
      have hposts : u.posts = t.posts := congrArg Ledger.posts ledger
      obtain ⟨k, w, htends⟩ := h (hposts ▸ hpost)
      exact ⟨k, htends.of_done watcher (congrArg Ledger.watchers ledger) core⟩
  | @created task plan e b journal policy same handle sound drawn started result =>
      obtain ⟨_, hfree⟩ := IdSource.draw_fresh drawn
      rcases List.mem_append.mp hpost with hold | hnew
      · obtain ⟨k, w, htends⟩ := h hold
        obtain ⟨x, hx, _⟩ := hposted.alarm hold
        refine ⟨k, w, htends.append rfl ?_ (htends.vigil.keep hsteps (.of_alarm ?_))⟩
        · rintro rfl
          exact hfree (hposted.mem_ids hold)
        · exact List.getElem?_append_left (Places.lt_of_getElem? hx)
      · cases List.mem_singleton.mp hnew
        exact ⟨_, _, .granted rfl rfl
          ⟨_, b, Places.getElem?_last _ _, rfl, Places.getElem?_last _ _, rfl⟩⟩
  | @updated other m plan e x y b post found alarm replanned started result =>
      by_cases hid : id = other
      · subst hid
        obtain rfl := hposted.eq_of_post post hpost
        exact ⟨_, _, .granted rfl rfl
          ⟨_, b, Places.getElem?_last _ _, rfl, Places.getElem?_set_self alarm b, rfl⟩⟩
      · have hother : m ≠ n := by
          rintro rfl
          exact hid (hposted.id_eq_of_post post hpost)
        obtain ⟨k, w, htends⟩ := h hpost
        refine ⟨k, w, htends.append rfl (Ne.symm hid) (htends.vigil.keep hsteps (.of_alarm ?_))⟩
        exact (Places.getElem?_set alarm n).trans (if_neg hother)
  | removed post alarm result =>
      exact h.keep (List.mem_filter.mp hpost).1 hsteps (.of_stop alarm rfl) rfl
  | stopped alarms deeds deeds_cancelled stops =>
      apply h.keep hpost hsteps _ rfl
      intro a b ha hb
      have hb' : alarms[n]? = some b := hb
      rw [stops, ha, Option.map_some] at hb'
      cases hb'
      split
      · exact generation_stop a
      · rfl

theorem Tended.run (h : t.Tended) (hagrees : t.Agrees) {acts : List Act}
    (hacts : ∀ act ∈ acts, act.isDirect = false) : (t.run acts).Tended := by
  induction acts generalizing t with
  | nil => exact h
  | cons act acts ih =>
      obtain ⟨hact, hacts⟩ := List.forall_mem_cons.mp hacts
      exact ih (h.act hagrees.toPosted hact) (hagrees.act hact) hacts

theorem tended_opening (start : Instant) (source : IdSource) (replies : List RestartReply) :
    (opening start source replies).Tended := by
  intro id n hpost
  cases hpost

/-- The last grant for an entry was for the last start of its alarm. -/
theorem Custody.exists_owner_latest (h : t.Custody) (htended : t.Tended)
    (he : e ∈ t.roster.entries) (hpost : (e.id, n) ∈ t.posts) :
    ∃ k w, t.Owner e k w ∧ t.IsLatest n w.vigil := by
  obtain ⟨k, w, howner⟩ := h.owner e he
  obtain ⟨j, x, htends⟩ := htended hpost
  have hone : j = k := by
    rcases Nat.lt_trichotomy j k with hlt | heq | hgt
    · exact absurd howner.entry (htends.latest k w hlt howner.watcher)
    · exact heq
    · exact absurd htends.entry (howner.latest j x hgt htends.watcher)
  subst hone
  obtain rfl : w = x := Option.some.inj (howner.watcher.symm.trans htends.watcher)
  exact ⟨j, w, howner, htends.vigil⟩

/-- At rest an entry has lost its handle exactly if the vigil of the last start of its alarm has
ended by itself. -/
theorem Custody.handle_atRest (h : t.Custody) (htended : t.Tended) (hrest : t.AtRest)
    (he : e ∈ t.roster.entries) (hpost : (e.id, n) ∈ t.posts) :
    ∃ i, t.IsLatest n i ∧ e.handle.isSome = !t.hasConcluded i := by
  obtain ⟨k, w, howner, hlatest⟩ := h.exists_owner_latest htended he hpost
  refine ⟨w.vigil, hlatest, ?_⟩
  rw [howner.handle, hrest.hasTaken_eq howner.mem]
  cases t.hasConcluded w.vigil <;> rfl

end Timetable

end Almanac
