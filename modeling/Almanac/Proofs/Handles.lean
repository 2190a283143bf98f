import Almanac.Proofs.Grants
import Mathlib.Data.List.Induction

/-!
# Who holds a handle

Watchers outlive what they watch, and ids are used again. An entry still only ever loses its handle
to the watcher that came with that handle, once the vigil that this one watches has ended by
itself.
-/

namespace Almanac

namespace Timetable

variable {t u : Timetable} {i j k : Nat} {e : Entry} {v : Vigil} {w x : Watcher}

/-- Holds of the vigils that have ended by themselves. -/
def hasConcluded (t : Timetable) (i : Nat) : Bool :=
  (t.vigils[i]?.map fun v => v.phase.isConclusive).getD false

/-- Holds of the watchers that have seen their vigil end by itself. -/
def hasTaken (t : Timetable) (w : Watcher) : Bool := w.isDone && t.hasConcluded w.vigil

/-- The last grant for the id of entry `e` is that of watcher `k`, and the entry has its handle
until that watcher takes it. -/
structure Owner (t : Timetable) (e : Entry) (k : Nat) (w : Watcher) : Prop where
  watcher : t.watchers[k]? = some w
  entry : w.entry = e.id
  latest : ∀ j x, k < j → t.watchers[j]? = some x → x.entry ≠ e.id
  handle : e.handle = if t.hasTaken w then none else some w.handle

/-- Every entry has such a grant. -/
structure Custody (t : Timetable) : Prop where
  agrees : t.Agrees
  numbered : t.Numbered
  owner : ∀ e ∈ t.roster.entries, ∃ k w, t.Owner e k w

/-- Whether a watcher has taken its handle does not change but by its own poll. -/
theorem Watches.hasTaken_steps (h : t.Watches w) {may : Core.Impulse → Prop}
    (hsteps : Core.Steps may t.core u.core) : u.hasTaken w = t.hasTaken w := by
  simp only [hasTaken]
  cases hdone : w.isDone with
  | false => rfl
  | true =>
      obtain ⟨v, _, hv, _, _, hover⟩ := h
      have hv' : u.vigils[w.vigil]? = some v :=
        Core.Steps.closed (c := t.core) hsteps hv (hover hdone)
      simp only [hasConcluded]
      rw [hv, hv']

namespace Owner

theorem mem (h : t.Owner e k w) : w ∈ t.watchers := List.mem_of_getElem? h.watcher

theorem of_same (h : t.Owner e k w) (hwatchers : u.watchers = t.watchers)
    (htaken : u.hasTaken w = t.hasTaken w) : u.Owner e k w where
  watcher := by rw [hwatchers]; exact h.watcher
  entry := h.entry
  latest := by rw [hwatchers]; exact h.latest
  handle := by rw [htaken]; exact h.handle

/-- A grant for another id changes nothing. -/
theorem append (h : t.Owner e k w) (hwatchers : u.watchers = t.watchers ++ [x])
    (hother : x.entry ≠ e.id) (htaken : u.hasTaken w = t.hasTaken w) : u.Owner e k w where
  watcher := by rw [hwatchers]; exact Places.getElem?_append h.watcher _
  entry := h.entry
  latest := by
    intro j y hj hy
    rw [hwatchers] at hy
    rcases Places.getElem?_grown hy with hold | ⟨_, rfl⟩
    · exact h.latest j y hj hold
    · exact hother
  handle := by rw [htaken]; exact h.handle

/-- A grant for the id of an entry is the last one for it. -/
theorem granted (hwatchers : u.watchers = t.watchers ++ [x]) (hentry : x.entry = e.id)
    (hfresh : x.isDone = false) (hhandle : e.handle = some x.handle) :
    u.Owner e t.watchers.length x where
  watcher := by rw [hwatchers]; exact Places.getElem?_last _ _
  entry := hentry
  latest := by
    intro j y hj hy
    have hlt := Places.lt_of_getElem? hy
    rw [hwatchers, List.length_append, List.length_singleton] at hlt
    omega
  handle := by simp [hasTaken, hfresh, hhandle]

end Owner

/-- Where a number of the watchers grows, two watchers with the same one are one. -/
theorem eq_of_pairwise {f : Watcher → Nat} (h : (t.watchers.map f).Pairwise (· < ·))
    (hw : t.watchers[j]? = some w) (hx : t.watchers[k]? = some x) (hsame : f w = f x) : j = k := by
  have hnodup : (t.watchers.map f).Nodup := h.imp Nat.ne_of_lt
  have hj : (t.watchers.map f)[j]? = some (f w) := by
    rw [List.getElem?_map, hw]
    rfl
  have hk : (t.watchers.map f)[k]? = some (f w) := by
    rw [List.getElem?_map, hx, hsame]
    rfl
  exact (List.getElem?_inj (Places.lt_of_getElem? hj) hnodup).mp (hj.trans hk.symm)

/-- Two watchers with the same handle are one. -/
theorem Numbered.eq_of_handle (h : t.Numbered) (hw : t.watchers[j]? = some w)
    (hx : t.watchers[k]? = some x) (hsame : w.handle = x.handle) : j = k :=
  eq_of_pairwise h.handles hw hx hsame

/-- Two watchers of the same vigil are one. -/
theorem Numbered.eq_of_vigil (h : t.Numbered) (hw : t.watchers[j]? = some w)
    (hx : t.watchers[k]? = some x) (hsame : w.vigil = x.vigil) : j = k :=
  eq_of_pairwise h.vigils hw hx hsame

/-- An entry never has the handle of a watcher that is not that of its last grant. -/
theorem Owner.handle_ne (h : t.Owner e k x) (hnumbered : t.Numbered)
    (hw : t.watchers[j]? = some w) (hjk : j ≠ k) : e.handle ≠ some w.handle := by
  intro hsame
  rw [h.handle] at hsame
  split at hsame
  · cases hsame
  · exact hjk (hnumbered.eq_of_handle hw h.watcher (Option.some.inj hsame).symm)

/-- That a watcher is done does not make another grant the last one. -/
theorem Owner.of_done (h : t.Owner e k x) (hw : t.watchers[j]? = some w)
    (hwatchers : u.watchers = t.watchers.set j { w with isDone := true }) {o : Entry} {y : Watcher}
    (hy : u.watchers[k]? = some y) (hentry : y.entry = x.entry) (hid : o.id = e.id)
    (hhandle : o.handle = if u.hasTaken y then none else some y.handle) : u.Owner o k y where
  watcher := hy
  entry := hentry.trans (h.entry.trans hid.symm)
  latest := by
    intro m z hm hz
    rw [hid]
    rw [hwatchers, Places.getElem?_set hw] at hz
    split at hz
    · next hjm =>
        cases hz
        subst hjm
        exact h.latest j w hm hw
    · exact h.latest m z hm hz
  handle := hhandle

/-- A watcher takes the handle that it came with, if its grant is the last one for an entry, and no
other handle. -/
theorem Custody.watched (h : t.Custody) (hu : t.roster.isSpoiled = false)
    {may : Core.Impulse → Prop} (hsteps : Core.Steps may t.core u.core)
    (hw : t.watchers[j]? = some w) (waiting : w.isDone = false)
    (hv : t.vigils[w.vigil]? = some v) (core : u.core = t.core)
    (hwatchers : u.watchers = t.watchers.set j { w with isDone := true })
    (hroster : u.roster =
      if v.phase.isConclusive then t.roster.released w.entry w.handle else t.roster) :
    ∀ e ∈ u.roster.entries, ∃ k w, u.Owner e k w := by
  have hvigils : u.vigils = t.vigils := congrArg Core.vigils core
  have htaken : u.hasTaken { w with isDone := true } = v.phase.isConclusive := by
    simp only [hasTaken, hasConcluded]
    rw [hvigils, hv]
    rfl
  have hset : ∀ k, u.watchers[k]? =
      if j = k then some { w with isDone := true } else t.watchers[k]? := by
    intro k
    rw [hwatchers, Places.getElem?_set hw]
  intro e he
  obtain ⟨y, hy, hid, hhandle⟩ : ∃ y ∈ t.roster.entries, e.id = y.id ∧
      e.handle = if v.phase.isConclusive ∧ y.id = w.entry ∧ y.handle = some w.handle then none
        else y.handle := by
    rw [hroster] at he
    cases hphase : v.phase.isConclusive with
    | true =>
        rw [hphase, if_pos rfl] at he
        simpa using Roster.exists_of_mem_released hu h.agrees.nodup he
    | false =>
        rw [hphase, if_neg Bool.false_ne_true] at he
        exact ⟨e, he, rfl, by simp⟩
  obtain ⟨k, x, howner⟩ := h.owner y hy
  by_cases hjk : j = k
  · -- the last grant is that of the watcher, and its handle is still there
    subst hjk
    have hx := howner.watcher
    rw [hw] at hx
    cases hx
    have hheld : y.handle = some w.handle := by
      rw [howner.handle]
      simp [hasTaken, waiting]
    refine ⟨j, { w with isDone := true }, howner.of_done hw hwatchers ?_ rfl hid ?_⟩
    · rw [hset, if_pos rfl]
    · rw [htaken, hhandle, hheld, howner.entry]
      simp
  · -- the last grant is that of another watcher, and its handle is another one
    have hne := howner.handle_ne h.numbered hw hjk
    refine ⟨k, x, howner.of_done hw hwatchers ?_ rfl hid ?_⟩
    · rw [hset, if_neg hjk]
      exact howner.watcher
    · rw [hhandle, if_neg fun hheld => hne hheld.2.2,
        (h.numbered.watches x howner.mem).hasTaken_steps hsteps]
      exact howner.handle

theorem Custody.act (h : t.Custody) {act : Act} (hact : act.isDirect = false)
    (hu : (t.act act).roster.isSpoiled = false) : (t.act act).Custody := by
  refine ⟨h.agrees.act hact, h.agrees.numbered_act h.numbered hact, ?_⟩
  have houtcome := h.agrees.outcome hact
  have hsteps := t.steps_act act
  generalize t.act act = u at houtcome hsteps hu
  have hsound := houtcome.sound hu
  have htaken : ∀ {e : Entry} {k : Nat} {w : Watcher}, t.Owner e k w →
      u.hasTaken w = t.hasTaken w :=
    fun howner => (h.numbered.watches _ howner.mem).hasTaken_steps hsteps
  have hsame : u.watchers = t.watchers →
      ∀ e ∈ t.roster.entries, ∃ k w, u.Owner e k w := by
    intro hwatchers e he
    obtain ⟨k, w, howner⟩ := h.owner e he
    exact ⟨k, w, howner.of_same hwatchers (htaken howner)⟩
  have hkept : u.ledger = t.ledger → ∀ e ∈ u.roster.entries, ∃ k w, u.Owner e k w := by
    intro ledger
    have hroster : u.roster = t.roster := congrArg Ledger.roster ledger
    rw [hroster]
    exact hsame (congrArg Ledger.watchers ledger)
  cases houtcome with
  | idle core ledger failed => exact hkept ledger
  | broken core ledger cause entries spoiled failed =>
      have hroster : u.roster = _ := congrArg Ledger.roster ledger
      rw [hroster] at hu
      dsimp only at hu
      rw [spoiled] at hu
      cases hu
  | polled i moves ledger => exact hkept ledger
  | watched watcher waiting vigil closed core ledger =>
      exact h.watched hsound hsteps watcher waiting vigil core (congrArg Ledger.watchers ledger)
        (congrArg Ledger.roster ledger)
  | @created task plan new b journal policy same handle sound drawn started result =>
      obtain ⟨_, hfree⟩ := IdSource.draw_fresh drawn
      intro e he
      rcases List.mem_append.mp he with hold | hnew
      · obtain ⟨k, w, howner⟩ := h.owner e hold
        refine ⟨k, w, howner.append rfl ?_ (htaken howner)⟩
        intro hid
        have hid : new.id = e.id := hid
        exact hfree (hid ▸ List.mem_map_of_mem hold)
      · rw [List.mem_singleton.mp hnew]
        exact ⟨_, _, .granted rfl rfl rfl handle⟩
  | @updated id n plan x a y b post found alarm replanned started result =>
      intro e he
      obtain ⟨z, hz, hze⟩ := Roster.mem_entries_modify.mp he
      split at hze
      · next hid =>
          subst hze
          exact ⟨_, _, .granted rfl hid.symm rfl rfl⟩
      · next hid =>
          subst hze
          obtain ⟨k, w, howner⟩ := h.owner z hz
          exact ⟨k, w, howner.append rfl (Ne.symm hid) (htaken howner)⟩
  | removed post alarm result =>
      intro e he
      exact hsame rfl e (List.mem_filter.mp he).1
  | stopped alarms deeds deeds_cancelled stops => exact hsame rfl

theorem Custody.run (h : t.Custody) {acts : List Act} (hacts : ∀ act ∈ acts, act.isDirect = false)
    (hu : (t.run acts).roster.isSpoiled = false) : (t.run acts).Custody := by
  induction acts generalizing t with
  | nil => exact h
  | cons act acts ih =>
      obtain ⟨hact, hacts⟩ := List.forall_mem_cons.mp hacts
      exact ih (h.act hact ((h.agrees.act hact).sound_of_run hacts hu)) hacts hu

theorem custody_opening (start : Instant) (source : IdSource) (replies : List RestartReply) :
    (opening start source replies).Custody where
  agrees := agrees_opening start source replies
  numbered := by
    refine ⟨?_, .nil, .nil, ?_⟩
    · intro w hw
      cases hw
    · intro w hw
      cases hw
  owner := by
    intro e he
    cases he

/-- Holds of the vigils that are over. -/
def hasEnded (t : Timetable) (i : Nat) : Bool :=
  (t.vigils[i]?.map fun v => !v.phase.isOpen).getD false

theorem exists_of_hasConcluded (h : t.hasConcluded i = true) :
    ∃ v, t.vigils[i]? = some v ∧ v.phase.isConclusive = true := by
  simp only [hasConcluded] at h
  cases hv : t.vigils[i]? with
  | none =>
      rw [hv] at h
      cases h
  | some v =>
      rw [hv] at h
      exact ⟨v, rfl, h⟩

theorem hasEnded_of_hasConcluded (h : t.hasConcluded i = true) : t.hasEnded i = true := by
  obtain ⟨v, hv, hphase⟩ := exists_of_hasConcluded h
  simp only [hasEnded]
  rw [hv, Option.map_some, Phase.not_isOpen_of_isConclusive hphase]
  rfl

theorem not_isOpen_of_hasEnded (h : t.hasEnded i = true) :
    ∃ v, t.vigils[i]? = some v ∧ v.phase.isOpen = false := by
  simp only [hasEnded] at h
  cases hv : t.vigils[i]? with
  | none =>
      rw [hv] at h
      cases h
  | some v =>
      rw [hv] at h
      exact ⟨v, rfl, by simpa using h⟩

/-- How a vigil has ended is settled. -/
theorem hasConcluded_steps (h : t.hasEnded i = true) {may : Core.Impulse → Prop}
    (hsteps : Core.Steps may t.core u.core) : u.hasConcluded i = t.hasConcluded i := by
  obtain ⟨v, hv, closed⟩ := not_isOpen_of_hasEnded h
  have hv' : u.vigils[i]? = some v := Core.Steps.closed (c := t.core) hsteps hv closed
  simp only [hasConcluded]
  rw [hv, hv']

/-- A watcher that is polled is done if its vigil is over. -/
theorem watcher_pollWatcher (hw : t.watchers[k]? = some w) :
    (t.pollWatcher k).watchers[k]? =
      some { w with isDone := w.isDone || t.hasEnded w.vigil } := by
  have hself : ∀ {done : Bool}, w.isDone = done → { w with isDone := done } = w := by
    rintro done rfl
    rfl
  cases done : w.isDone with
  | true =>
      rw [pollWatcher_of_done hw done, Bool.true_or, hself done]
      exact hw
  | false =>
      rw [Bool.false_or]
      cases ended : t.hasEnded w.vigil with
      | true =>
          obtain ⟨v, hv, closed⟩ := not_isOpen_of_hasEnded ended
          obtain ⟨_, hledger⟩ := pollWatcher_of_over hw done hv closed
          have hwatchers : (t.pollWatcher k).watchers = _ := congrArg Ledger.watchers hledger
          rw [hwatchers]
          exact Places.getElem?_set_self hw _
      | false =>
          rw [hself done, pollWatcher_of_open hw]
          · exact hw
          · intro v hv
            rw [hasEnded, hv] at ended
            simpa using ended

/-- Nothing else touches a watcher. -/
theorem Outcome.watcher {act : Act} (h : t.Outcome act u) (hact : act ≠ .pollWatcher k)
    (hw : t.watchers[k]? = some w) : u.watchers[k]? = some w := by
  have hsame : ∀ {l : Ledger}, u.ledger = l → l.watchers[k]? = some w →
      u.watchers[k]? = some w := by
    rintro l rfl hl
    exact hl
  cases h with
  | idle core ledger failed => exact hsame ledger hw
  | broken core ledger cause entries spoiled failed => exact hsame ledger hw
  | polled i moves ledger => exact hsame ledger hw
  | @watched _ j x v watcher waiting vigil closed core ledger =>
      refine hsame ledger ?_
      dsimp only
      rw [Places.getElem?_set watcher, if_neg]
      · exact hw
      · rintro rfl
        exact hact rfl
  | created journal policy same handle sound drawn started result =>
      exact Places.getElem?_append hw _
  | updated post found alarm replanned started result => exact Places.getElem?_append hw _
  | removed post alarm result => exact hw
  | stopped alarms deeds deeds_cancelled stops => exact hw

/-- A watcher that is new watches a vigil that is new. -/
theorem Outcome.new_watcher {act : Act} (h : t.Outcome act u) (hnone : t.watchers[k]? = none)
    (hw : u.watchers[k]? = some w) : w.isDone = false ∧ w.vigil = t.vigils.length := by
  have hsame : ∀ {l : Ledger}, u.ledger = l → l.watchers[k]? = none →
      w.isDone = false ∧ w.vigil = t.vigils.length := by
    rintro l rfl hl
    have hl : u.watchers[k]? = none := hl
    rw [hw] at hl
    cases hl
  have hnew : ∀ {x : Watcher}, u.watchers = t.watchers ++ [x] → w = x := by
    intro x hwatchers
    rw [hwatchers] at hw
    rcases Places.getElem?_grown hw with hold | ⟨_, rfl⟩
    · rw [hnone] at hold
      cases hold
    · rfl
  cases h with
  | idle core ledger failed => exact hsame ledger hnone
  | broken core ledger cause entries spoiled failed => exact hsame ledger hnone
  | polled i moves ledger => exact hsame ledger hnone
  | @watched _ j x v watcher waiting vigil closed core ledger =>
      refine hsame ledger ?_
      dsimp only
      rw [Places.getElem?_set watcher, if_neg]
      · exact hnone
      · rintro rfl
        rw [watcher] at hnone
        cases hnone
  | created journal policy same handle sound drawn started result =>
      rw [hnew rfl]
      exact ⟨rfl, rfl⟩
  | updated post found alarm replanned started result =>
      rw [hnew rfl]
      exact ⟨rfl, rfl⟩
  | removed post alarm result =>
      have hw : t.watchers[k]? = some w := hw
      rw [hnone] at hw
      cases hw
  | stopped alarms deeds deeds_cancelled stops =>
      have hw : t.watchers[k]? = some w := hw
      rw [hnone] at hw
      cases hw

/-- What an act adds to what a watcher has seen. -/
theorem Posted.hasTaken_act (h : t.Posted) (hnumbered : t.Numbered) {act : Act}
    (hact : act.isDirect = false) (hw : t.watchers[k]? = some w)
    (hx : (t.act act).watchers[k]? = some x) :
    x.vigil = w.vigil ∧ ((t.act act).hasTaken x = true ↔
      t.hasTaken w = true ∨ act = .pollWatcher k ∧ t.hasConcluded w.vigil = true) := by
  have hwatches := hnumbered.watches w (List.mem_of_getElem? hw)
  have hsteps := t.steps_act act
  by_cases hpoll : act = .pollWatcher k
  · subst hpoll
    have hx' : (t.pollWatcher k).watchers[k]? = some x := hx
    rw [watcher_pollWatcher hw] at hx'
    cases hx'
    refine ⟨rfl, ?_⟩
    have hold := hwatches.hasTaken_steps hsteps
    cases hdone : w.isDone with
    | true =>
        have hself : { w with isDone := true || t.hasEnded w.vigil } = w := by
          rw [Bool.true_or, ← hdone]
        rw [hself, hold]
        constructor
        · exact Or.inl
        · rintro (htaken | ⟨_, hconcluded⟩)
          · exact htaken
          · rw [hasTaken, hdone, hconcluded]
            rfl
    | false =>
        have hnot : t.hasTaken w = false := by rw [hasTaken, hdone, Bool.false_and]
        rw [hnot, Bool.false_or]
        simp only [hasTaken, Bool.and_eq_true, Bool.false_eq_true, false_or, true_and]
        constructor
        · rintro ⟨hended, hconcluded⟩
          rw [hasConcluded_steps hended hsteps] at hconcluded
          exact hconcluded
        · intro hconcluded
          have hended := hasEnded_of_hasConcluded hconcluded
          exact ⟨hended, (hasConcluded_steps hended hsteps).trans hconcluded⟩
  · rw [(h.outcome hact).watcher hpoll hw] at hx
    cases hx
    refine ⟨rfl, ?_⟩
    rw [hwatches.hasTaken_steps hsteps]
    simp [hpoll]

/-- What stands somewhere in a longer list is its last element, or one of those before it. -/
theorem exists_split_append_singleton {α : Type*} {l : List α} {a b : α} {P : List α → Prop} :
    (∃ first rest, l ++ [a] = first ++ b :: rest ∧ P first) ↔
      (∃ first rest, l = first ++ b :: rest ∧ P first) ∨ a = b ∧ P l := by
  constructor
  · rintro ⟨first, rest, hsplit, hfirst⟩
    rcases List.eq_nil_or_concat rest with rfl | ⟨rest, last, rfl⟩
    · obtain ⟨rfl, hlast⟩ := List.append_inj' hsplit rfl
      exact Or.inr ⟨List.head_eq_of_cons_eq hlast, hfirst⟩
    · rw [List.concat_eq_append, ← List.cons_append, ← List.append_assoc] at hsplit
      obtain ⟨rfl, _⟩ := List.append_inj' hsplit rfl
      exact Or.inl ⟨first, rest, rfl, hfirst⟩
  · rintro (⟨first, rest, rfl, hfirst⟩ | ⟨rfl, hlast⟩)
    · exact ⟨first, rest ++ [a], by simp, hfirst⟩
    · exact ⟨l, [], rfl, hlast⟩

/-- The watcher of a grant has taken the handle exactly if it was polled once the vigil had ended
by itself. -/
theorem Agrees.hasTaken_iff {s : Timetable} (h : s.Agrees) (hnumbered : s.Numbered)
    (hnone : s.watchers = []) {acts : List Act} (hacts : ∀ act ∈ acts, act.isDirect = false)
    (hw : (s.run acts).watchers[k]? = some w) :
    (s.run acts).hasTaken w = true ↔ ∃ first rest, acts = first ++ .pollWatcher k :: rest ∧
      (s.run first).hasConcluded w.vigil = true := by
  induction acts using List.reverseRecOn generalizing w with
  | nil =>
      rw [run_nil, hnone] at hw
      cases hw
  | append_singleton acts act ih =>
      have hacts' : ∀ act ∈ acts, act.isDirect = false :=
        fun act hact => hacts act (List.mem_append_left _ hact)
      have hact : act.isDirect = false :=
        hacts act (List.mem_append_right _ List.mem_cons_self)
      have hagrees := h.run hacts'
      have hnumbered' := h.numbered_run hnumbered hacts'
      rw [run_append, run_cons, run_nil] at hw ⊢
      cases hold : (s.run acts).watchers[k]? with
      | some x =>
          obtain ⟨hvigil, htaken⟩ := hagrees.hasTaken_act hnumbered' hact hold hw
          rw [htaken, exists_split_append_singleton, ih hacts' hold, hvigil]
      | none =>
          -- nobody can have polled the watcher of a vigil that was not there yet
          obtain ⟨fresh, hvigil⟩ := (hagrees.outcome hact).new_watcher hold hw
          have hnot : ((s.run acts).act act).hasTaken w = false := by
            rw [hasTaken, fresh, Bool.false_and]
          have habsent : ∀ first rest, acts = first ++ rest →
              (s.run first).hasConcluded w.vigil = false := by
            intro first rest hacts
            by_contra hconcluded
            obtain ⟨v, hv, _⟩ := exists_of_hasConcluded (Bool.not_eq_false _ ▸ hconcluded)
            have hsteps := (s.run first).steps_run rest
            obtain ⟨v', hv', _⟩ := Core.Steps.vigil hsteps hv
            rw [← run_append, ← hacts] at hv'
            have hlt := Places.lt_of_getElem? hv'
            rw [hvigil] at hlt
            exact Nat.lt_irrefl _ hlt
          rw [hnot, exists_split_append_singleton]
          simp only [Bool.false_eq_true, false_iff, not_or, not_exists, not_and]
          constructor
          · intro first rest hacts
            rw [habsent first _ hacts]
            exact Bool.false_ne_true
          · intro _
            rw [habsent acts [] (List.append_nil _).symm]
            exact Bool.false_ne_true

/-- A watcher whose handle no entry of its id has releases nothing. -/
theorem roster_pollWatcher_of_not_held (hw : t.watchers[k]? = some w)
    (hnot : ∀ e ∈ t.roster.entries, e.id = w.entry → e.handle ≠ some w.handle) :
    (t.pollWatcher k).roster = t.roster := by
  have houtcome := t.outcome_pollWatcher k
  generalize t.pollWatcher k = u at houtcome
  cases houtcome with
  | idle core ledger failed => exact congrArg Ledger.roster ledger
  | watched watcher waiting vigil closed core ledger =>
      rw [hw] at watcher
      cases watcher
      have hroster : u.roster = _ := congrArg Ledger.roster ledger
      dsimp only at hroster
      rw [Roster.released_of_not_held hnot, ite_self] at hroster
      exact hroster

/-- A watcher whose grant is no longer the last one for an entry releases nothing. -/
theorem Custody.roster_pollWatcher (h : t.Custody) (hw : t.watchers[k]? = some w)
    (hstale : w.entry ∉ t.roster.ids ∨
      ∃ j x, k < j ∧ t.watchers[j]? = some x ∧ x.entry = w.entry) :
    (t.pollWatcher k).roster = t.roster := by
  apply roster_pollWatcher_of_not_held hw
  intro e he hid
  obtain ⟨m, y, howner⟩ := h.owner e he
  refine howner.handle_ne h.numbered hw ?_
  rintro rfl
  rcases hstale with hgone | ⟨j, x, hj, hx, hentry⟩
  · exact hgone (hid ▸ List.mem_map_of_mem he)
  · exact howner.latest j x hj hx (hentry.trans hid.symm)

/-- In every history of requests, polls and time after which the roster is in use: the handles that
creates and updates give away grow, and no two of them are for the same vigil, which is always one
of an alarm of the entry. An entry has the handle of the last grant for its id, or none, and it has
none exactly if the watcher of that grant was polled after the vigil had finished or failed. The
watchers of all other grants, whether for an entry that was updated since, for one that was removed,
or for an earlier one of the same id, change no entry. -/
theorem handle_owned (start : Instant) (source : IdSource) (replies : List RestartReply)
    (acts : List Act) (hacts : ∀ act ∈ acts, act.isDirect = false)
    (hsound : ((opening start source replies).run acts).roster.isSpoiled = false) :
    let s := opening start source replies
    let t := s.run acts
    let grants := s.grants acts
    (∃ handles : List Nat,
      grants.map Grant.handle = handles.map some ∧ handles.Pairwise (· < ·)) ∧
    (grants.map Grant.vigil).Pairwise (· < ·) ∧
    (∀ g ∈ grants, ∃ v a, t.vigils[g.vigil]? = some v ∧ t.alarms[v.alarm]? = some a ∧
      a.entry = g.entry) ∧
    (∀ e ∈ t.roster.entries, ∃ (k : Nat) (g : Grant), grants[k]? = some g ∧ g.entry = e.id ∧
      (∀ (j : Nat) (x : Grant), k < j → grants[j]? = some x → x.entry ≠ e.id) ∧
      (e.handle = g.handle ∨ e.handle = none) ∧
      (e.handle = none ↔ ∃ first rest, acts = first ++ .pollWatcher k :: rest ∧
        (s.run first).hasConcluded g.vigil = true)) ∧
    ∀ (k : Nat) (g : Grant), grants[k]? = some g →
      (g.entry ∉ t.roster.ids ∨
        ∃ (j : Nat) (x : Grant), k < j ∧ grants[j]? = some x ∧ x.entry = g.entry) →
      (t.pollWatcher k).roster = t.roster := by
  intro s t grants
  have hopening : s.Custody := custody_opening start source replies
  have hcustody : t.Custody := hopening.run hacts hsound
  have hgrants : t.watchers.map watcherGrant = grants := hopening.agrees.watchers_run hacts
  have hplace : ∀ (k : Nat) (g : Grant), grants[k]? = some g ↔
      ∃ w, t.watchers[k]? = some w ∧ watcherGrant w = g := by
    intro k g
    rw [← hgrants, List.getElem?_map, Option.map_eq_some_iff]
  refine ⟨?_, ?_, ?_, ?_, ?_⟩
  · refine ⟨t.watchers.map Watcher.handle, ?_, hcustody.numbered.handles⟩
    rw [← hgrants, List.map_map, List.map_map]
    rfl
  · rw [← hgrants, List.map_map]
    exact hcustody.numbered.vigils
  · intro g hg
    rw [← hgrants] at hg
    obtain ⟨w, hw, rfl⟩ := List.mem_map.mp hg
    obtain ⟨v, a, hv, ha, hentry, _⟩ := hcustody.numbered.watches w hw
    exact ⟨v, a, hv, ha, hentry⟩
  · intro e he
    obtain ⟨k, w, howner⟩ := hcustody.owner e he
    have htaken := hopening.agrees.hasTaken_iff hopening.numbered rfl hacts howner.watcher
    refine ⟨k, watcherGrant w, (hplace k _).mpr ⟨w, howner.watcher, rfl⟩, howner.entry, ?_, ?_, ?_⟩
    · intro j g hj hg
      obtain ⟨x, hx, rfl⟩ := (hplace j g).mp hg
      exact howner.latest j x hj hx
    · rw [howner.handle]
      split
      · exact Or.inr rfl
      · exact Or.inl rfl
    · change e.handle = none ↔ ∃ first rest, acts = first ++ .pollWatcher k :: rest ∧
        (s.run first).hasConcluded w.vigil = true
      rw [← htaken, howner.handle]
      split
      · next taken => exact ⟨fun _ => taken, fun _ => rfl⟩
      · next waiting =>
          constructor
          · intro h
            cases h
          · intro taken
            exact absurd taken waiting
  · intro k g hg hstale
    obtain ⟨w, hw, rfl⟩ := (hplace k g).mp hg
    refine hcustody.roster_pollWatcher hw (hstale.imp_right ?_)
    rintro ⟨j, y, hj, hy, hentry⟩
    obtain ⟨x, hx, rfl⟩ := (hplace j y).mp hy
    exact ⟨j, x, hj, hx, hentry⟩

/-- An entry is removed and its id is used again; the first watcher is polled only after that, and
leaves the new entry its handle. -/
theorem handle_owned_of_reuse :
    let source : IdSource := { script := [some 7, some 7] }
    let acts : List Act := [.create (.pause .zero) .once, .poll 0, .remove 7,
      .create (.pause .zero) .once]
    let t := (opening .epoch source []).run acts
    t.roster.entries.map Entry.handle = [some 2] ∧ t.hasConcluded 0 = true ∧
      (t.pollWatcher 0).roster = t.roster := by
  intro source acts t
  obtain ⟨_, _, _, _, hstale⟩ :=
    handle_owned .epoch source [] acts (by simp [acts, Act.isDirect]) (by decide +kernel)
  refine ⟨by decide +kernel, by decide +kernel, ?_⟩
  exact hstale 0 ⟨7, some 1, 0⟩ (by decide +kernel)
    (Or.inr ⟨1, ⟨7, some 2, 1⟩, by decide, by decide +kernel, rfl⟩)

end Timetable

end Almanac
