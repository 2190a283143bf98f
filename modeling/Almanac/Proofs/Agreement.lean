import Almanac.Proofs.Effects
import Almanac.Proofs.LiveVigil

/-!
# Roster and alarms agree

Requests write a policy twice, into the entry and into its alarm, and vigils go on to change the
time of the alarm alone. Nevertheless an entry, its post and its alarm are always of one policy.
-/

namespace Almanac

namespace Core

variable {c d : Core} {i n : Nat}

/-- An alarm has the period that it was last given, and the time of the last re-arm since, or
else the time it was given. -/
structure Planned (c : Core) : Prop where
  plan : ∀ {n : Nat} {a : Alarm}, c.alarms[n]? = some a →
    ∃ due, planOf? n c.annals = some (due, a.period) ∧
      a.due = (rearmedTo? n c.annals).getD due

/-- A deed that sets no alarm but `n`, and the alarm that it leaves there. -/
theorem Planned.setAlarm (h : c.Planned) {a b : Alarm} (ha : c.alarms[n]? = some a) {deed : Deed}
    (hother : ∀ m, m ≠ n → deed.sets m = false) {vigils : List Vigil}
    (hb : ∃ due, planOf? n (deed :: c.annals) = some (due, b.period) ∧
      b.due = (rearmedTo? n (deed :: c.annals)).getD due) :
    Core.Planned ⟨c.alarms.set n b, vigils, deed :: c.annals⟩ := by
  refine ⟨?_⟩
  intro m x hx
  dsimp only at hx ⊢
  rw [Places.getElem?_set ha] at hx
  split at hx
  · next hn =>
      cases hx
      exact hn ▸ hb
  · next hn =>
      have hsets := hother m (Ne.symm hn)
      rw [planOf?_cons (Deed.plans_of_sets hsets), rearmedTo?_cons hsets]
      exact h.plan hx

/-- A move sets no alarm but that of its vigil, and writes down what it sets it to. -/
theorem Planned.move (h : c.Planned) (hmove : Move i c d) : d.Planned := by
  obtain ⟨hv, ha, goes⟩ := hmove
  rename_i v v' a a' deeds
  refine ⟨?_⟩
  intro m x hx
  dsimp only at hx ⊢
  rw [Places.getElem?_set ha] at hx
  split at hx
  · next hn =>
      cases hx
      subst hn
      have hconclude : ∀ e, ∃ due,
          planOf? v.alarm c.annals = some (due, (a.conclude v.generation e).period) ∧
            (a.conclude v.generation e).due = (rearmedTo? v.alarm c.annals).getD due := by
        intro e
        obtain ⟨_, _, hdue, hperiod, _⟩ := a.conclude_keeps v.generation e
        rw [hdue, hperiod]
        exact h.plan ha
      cases goes with
      | waits timer pending => exact h.plan ha
      | quits pending revoked => exact hconclude _
      | begins timer turn since time pending held => exact h.plan ha
      | vanishes r running period result => exact h.plan ha
      | ends r running period judged => exact hconclude _
      | rearms r due next since running period result held own recurring inRange =>
          obtain ⟨planned, hplan, _⟩ := h.plan ha
          exact ⟨planned, hplan, by simp [rearmedTo?]⟩
  · next hn =>
      have hsets : ∀ deed ∈ deeds, deed.sets m = false := by
        intro deed hdeed
        cases goes with
        | rearms r due next since running period result held own recurring inRange =>
            rcases List.mem_pair.mp hdeed with rfl | rfl
            · exact beq_eq_false_iff_ne.mpr hn
            · rfl
        | ends r running period judged =>
            rcases List.mem_pair.mp hdeed with rfl | rfl <;> rfl
        | _ => simp_all [Deed.sets]
      have hplans := fun deed hdeed => Deed.plans_of_sets (hsets deed hdeed)
      rw [planOf?_append hplans, rearmedTo?_append hsets]
      exact h.plan hx

theorem Planned.step (h : c.Planned) {may : Impulse → Prop} (hstep : Step may c d) :
    d.Planned := by
  cases hstep with
  | setUp e =>
      refine ⟨?_⟩
      intro m x hx
      rcases Places.getElem?_grown hx with hold | ⟨rfl, rfl⟩
      · have hm : c.alarms.length ≠ m := Ne.symm (Nat.ne_of_lt (Places.lt_of_getElem? hold))
        have hsets : (Deed.planned c.alarms.length false e.due e.period).sets m = false :=
          beq_eq_false_iff_ne.mpr hm
        dsimp only
        rw [planOf?_cons (Deed.plans_of_sets hsets), rearmedTo?_cons hsets]
        exact h.plan hold
      · exact ⟨e.due, by simp [planOf?, Alarm.ofEntry], by simp [rearmedTo?, Alarm.ofEntry]⟩
  | start since allowed alarm started =>
      obtain ⟨_, _, hdue, hperiod⟩ := Alarm.start_keeps started
      refine h.setAlarm alarm (fun _ _ => rfl) ?_
      rw [hdue, hperiod]
      exact h.plan alarm
  | cancel alarm cancelled =>
      obtain ⟨_, rfl⟩ := Alarm.cancel_ok cancelled
      obtain ⟨_, _, hdue, hperiod⟩ := Alarm.stop_keeps _
      refine h.setAlarm alarm (fun _ _ => rfl) ?_
      rw [hdue, hperiod]
      exact h.plan alarm
  | @replan n a b plan now alarm replanned =>
      let deed : Deed := .planned n a.isRunning b.due b.period
      have hsets : ∀ m, m ≠ n → deed.sets m = false :=
        fun m hm => beq_eq_false_iff_ne.mpr (Ne.symm hm)
      have hplan : planOf? n (deed :: c.annals) = some (b.due, b.period) := by
        simp [deed, planOf?]
      have hdue : b.due = (rearmedTo? n (deed :: c.annals)).getD b.due := by
        simp [deed, rearmedTo?]
      exact h.setAlarm alarm hsets ⟨b.due, hplan, hdue⟩
  | move i _ moved => exact h.move moved

theorem Planned.steps (h : c.Planned) {may : Impulse → Prop} (hsteps : Steps may c d) :
    d.Planned := by
  induction hsteps with
  | refl => exact h
  | tail _ hstep ih => exact ih.step hstep

/-- Polls give no alarm a policy. -/
theorem Moves.planOf?_eq (hmoves : Moves i c d) (n : Nat) :
    planOf? n d.annals = planOf? n c.annals := by
  induction hmoves with
  | refl => rfl
  | tail _ hmove ih =>
      obtain ⟨_, _, goes⟩ := hmove
      rw [← ih]
      exact planOf?_append (fun deed hdeed =>
        Deed.plans_of_takesOver ((goes.deeds deed hdeed).2 n)) _

end Core

namespace Timetable

variable {t : Timetable}

/-- Alarm `n` drives the entry, with the policy that the entry has. -/
structure Drives (t : Timetable) (n : Nat) (e : Entry) : Prop where
  plan : planOf? n t.annals = some (e.due, e.period)
  alarm : ∃ a, t.alarms[n]? = some a ∧ a.entry = e.id ∧ a.task = e.task

/-- Every entry is driven by the alarm of its post. -/
structure Agrees (t : Timetable) : Prop extends Posted t where
  drives : ∀ {e : Entry} {n : Nat}, e ∈ t.roster.entries → (e.id, n) ∈ t.posts → t.Drives n e

theorem agrees_opening (start : Instant) (source : IdSource) (replies : List RestartReply) :
    (opening start source replies).Agrees where
  ids := rfl
  nodup := List.nodup_nil
  alarm := by
    intro id n hmem
    cases hmem
  drives := by
    intro e n he
    cases he

/-- All that there is of alarms is still there. -/
def Keeps (t u : Timetable) : Prop :=
  ∀ {n : Nat} {a : Alarm}, t.alarms[n]? = some a → ∃ b, u.alarms[n]? = some b ∧ a.Becomes b

theorem keeps_act (t : Timetable) (act : Act) : t.Keeps (t.act act) :=
  (t.steps_act act).alarm

/-- An alarm that was given no other plan drives what it drove. -/
theorem Drives.keep {u : Timetable} {n : Nat} {e : Entry} (h : t.Drives n e) (hkeeps : t.Keeps u)
    (plan : planOf? n u.annals = planOf? n t.annals) : u.Drives n e where
  plan := plan.trans h.plan
  alarm := by
    obtain ⟨a, ha, hentry, htask⟩ := h.alarm
    obtain ⟨b, hb, hbecomes⟩ := hkeeps ha
    exact ⟨b, hb, hbecomes.entry.trans hentry, hbecomes.task.trans htask⟩

theorem Posted.keep {u : Timetable} (h : t.Posted) (hkeeps : t.Keeps u) {id n : Nat}
    (hmem : (id, n) ∈ t.posts) : ∃ b, u.alarms[n]? = some b ∧ b.entry = id := by
  obtain ⟨a, ha, hid⟩ := h.alarm hmem
  obtain ⟨b, hb, hbecomes⟩ := hkeeps ha
  exact ⟨b, hb, hbecomes.entry.trans hid⟩

theorem Posted.of_same {u : Timetable} (h : t.Posted) (hkeeps : t.Keeps u)
    (posts : u.posts = t.posts) (ids : u.roster.ids = t.roster.ids) : u.Posted where
  ids := by rw [posts, ids, h.ids]
  nodup := by rw [ids]; exact h.nodup
  alarm := by
    intro id n hmem
    rw [posts] at hmem
    exact h.keep hkeeps hmem

theorem Posted.of_created (h : t.Posted) {e : Entry} {b : Alarm} {roster : Roster}
    {journal : List Happening} (hkeeps : t.Keeps (t.created e b roster journal))
    (free : e.id ∉ t.roster.ids) (started : (Alarm.ofEntry e).start = .ok b)
    (entries : roster.entries = t.roster.entries ++ [e]) :
    (t.created e b roster journal).Posted := by
  have hids : roster.ids = t.roster.ids ++ [e.id] := by
    simp [Roster.ids, entries]
  refine ⟨?_, ?_, ?_⟩
  · simp [Timetable.created, hids, h.ids]
  · change roster.ids.Nodup
    rw [hids]
    exact Roster.nodup_append_of_free h.nodup free
  · intro id n hmem
    rcases List.mem_append.mp hmem with hold | hnew
    · exact h.keep hkeeps hold
    · cases List.mem_singleton.mp hnew
      exact ⟨b, Places.getElem?_last _ _, (Alarm.start_keeps started).1⟩

theorem Posted.of_removed (h : t.Posted) {id n : Nat} {a : Alarm}
    (hkeeps : t.Keeps (t.removed id n a)) : (t.removed id n a).Posted := by
  have hids : (t.removed id n a).roster.ids = t.roster.ids.filter fun i => i != id := by
    simp only [Roster.ids, List.filter_map]
    rfl
  have hkeys : (t.removed id n a).posts.map Prod.fst =
      (t.posts.map Prod.fst).filter fun i => i != id := by
    simp only [List.filter_map]
    rfl
  refine ⟨?_, ?_, ?_⟩
  · rw [hids, hkeys, h.ids]
  · rw [hids]
    exact h.nodup.filter _
  · intro other m hmem
    exact h.keep hkeeps (List.mem_filter.mp hmem).1

/-- Posts and ids belong together after whatever effect. -/
theorem Posted.of_effect {u : Timetable} (h : t.Posted) (hkeeps : t.Keeps u) {act : Act}
    (heffect : t.Effect act u) : u.Posted := by
  cases heffect with
  | minor handle core posts entries fixes =>
      exact h.of_same hkeeps posts (by simp [Roster.ids, entries])
  | polled i moves posts roster => exact h.of_same hkeeps posts (congrArg Roster.ids roster)
  | created view roster journal policy same free started entries id result =>
      exact h.of_created hkeeps free started entries
  | updated view post alarm replanned started result =>
      exact h.of_same hkeeps rfl (Roster.ids_modify _ _ fun _ => rfl)
  | removed post alarm => exact h.of_removed hkeeps
  | stopped alarms deeds deeds_cancelled stops => exact h.of_same hkeeps rfl rfl

/-- Whoever acts, posts and ids belong together. -/
theorem Posted.posted_act (h : t.Posted) (act : Act) : (t.act act).Posted := by
  cases hact : act.isDirect with
  | false => exact h.of_effect (t.keeps_act act) (h.effect hact)
  | true =>
      have hledger := t.ledger_of_direct hact
      exact h.of_same (t.keeps_act act) (congrArg Ledger.posts hledger)
        (congrArg (fun l => l.roster.ids) hledger)

/-- Where posts and ids stay as they are, only the plans count. -/
theorem Agrees.of_same {u : Timetable} (h : t.Agrees) (hkeeps : t.Keeps u)
    (posts : u.posts = t.posts) (ids : u.roster.ids = t.roster.ids)
    (drives : ∀ {e : Entry} {n : Nat}, e ∈ u.roster.entries → (e.id, n) ∈ t.posts →
      u.Drives n e) : u.Agrees where
  toPosted := h.toPosted.of_same hkeeps posts ids
  drives := by
    intro e n he hmem
    rw [posts] at hmem
    exact drives he hmem

/-- Nothing else of a timetable matters than its core, its posts and its entries. -/
theorem Agrees.congr {u : Timetable} (h : t.Agrees) (core : u.core = t.core)
    (posts : u.posts = t.posts) (entries : u.roster.entries = t.roster.entries) : u.Agrees := by
  have halarms : u.alarms = t.alarms := congrArg Core.alarms core
  have hannals : u.annals = t.annals := congrArg Core.annals core
  refine h.of_same ?_ posts (congrArg (List.map Entry.id) entries) ?_
  · intro n a ha
    exact ⟨a, halarms ▸ ha, .refl a⟩
  · intro e n he hmem
    obtain ⟨plan, alarm⟩ := h.drives (entries ▸ he) hmem
    exact ⟨hannals ▸ plan, halarms ▸ alarm⟩

theorem Agrees.created (h : t.Agrees) {e : Entry} {b : Alarm} {roster : Roster}
    {journal : List Happening} (hkeeps : t.Keeps (t.created e b roster journal))
    (free : e.id ∉ t.roster.ids) (started : (Alarm.ofEntry e).start = .ok b)
    (entries : roster.entries = t.roster.entries ++ [e]) :
    (t.created e b roster journal).Agrees := by
  obtain ⟨hentry, htask, _⟩ := Alarm.start_keeps started
  have hfree : ∀ {n : Nat}, (e.id, n) ∉ t.posts := by
    intro n hmem
    exact free (h.mem_ids hmem)
  refine ⟨h.toPosted.of_created hkeeps free started entries, ?_⟩
  intro x n hx hmem
  have hx' : x ∈ t.roster.entries ++ [e] := entries ▸ hx
  rcases List.mem_append.mp hx' with hx | hx
  · rcases List.mem_append.mp hmem with hold | hnew
    · have hdrives := h.drives hx hold
      obtain ⟨a, ha, _⟩ := hdrives.alarm
      have hn : t.alarms.length ≠ n := Ne.symm (Nat.ne_of_lt (Places.lt_of_getElem? ha))
      have hplans : (Deed.planned t.alarms.length false e.due e.period).plans n = false :=
        beq_eq_false_iff_ne.mpr hn
      exact hdrives.keep hkeeps (planOf?_cons hplans _)
    · obtain ⟨hid, _⟩ := Prod.mk.inj (List.mem_singleton.mp hnew)
      exact absurd (hid ▸ List.mem_map_of_mem hx) free
  · cases List.mem_singleton.mp hx
    rcases List.mem_append.mp hmem with hold | hnew
    · exact absurd hold hfree
    · cases List.mem_singleton.mp hnew
      exact ⟨by simp [Timetable.created, planOf?], b, Places.getElem?_last _ _, hentry, htask⟩

theorem Agrees.updated (h : t.Agrees) {id n : Nat} {a b : Alarm}
    (hkeeps : t.Keeps (t.updated id n a.isRunning b)) (post : (id, n) ∈ t.posts) :
    (t.updated id n a.isRunning b).Agrees := by
  refine h.of_same hkeeps rfl (Roster.ids_modify _ _ fun _ => rfl) ?_
  intro e m he hmem
  obtain ⟨y, hy, hey⟩ := Roster.mem_entries_modify.mp he
  split at hey
  · next hid =>
      subst hey
      have hmem : (id, m) ∈ t.posts := hid ▸ hmem
      cases h.eq_of_post post hmem
      obtain ⟨_, z, hz, hzid, hztask⟩ := h.drives hy (hid ▸ post)
      obtain ⟨x, hx, hbecomes⟩ := hkeeps hz
      refine ⟨by simp [Timetable.updated, planOf?], x, hx, ?_, ?_⟩
      · exact hbecomes.entry.trans hzid
      · exact hbecomes.task.trans hztask
  · next hid =>
      subst hey
      have hnm : n ≠ m := by
        rintro rfl
        exact hid (h.id_eq_of_post post hmem)
      have hplans : (Deed.planned n a.isRunning b.due b.period).plans m = false :=
        beq_eq_false_iff_ne.mpr hnm
      exact (h.drives hy hmem).keep hkeeps (planOf?_cons hplans _)

theorem Agrees.removed (h : t.Agrees) {id n : Nat} {a : Alarm}
    (hkeeps : t.Keeps (t.removed id n a)) : (t.removed id n a).Agrees := by
  refine ⟨h.toPosted.of_removed hkeeps, ?_⟩
  intro e m he hmem
  have hdrives := h.drives (List.mem_filter.mp he).1 (List.mem_filter.mp hmem).1
  refine hdrives.keep hkeeps (planOf?_append ?_ _)
  intro d hd
  split at hd
  · rw [List.mem_singleton.mp hd]
    rfl
  · cases hd

/-- Every act keeps entries and alarms in agreement. -/
theorem Agrees.act (h : t.Agrees) {act : Act} (hact : act.isDirect = false) :
    (t.act act).Agrees := by
  have heffect := h.effect hact
  have hkeeps : t.Keeps (t.act act) := t.keeps_act act
  generalize t.act act = u at heffect hkeeps
  cases heffect with
  | minor handle core posts entries fixes =>
      have hannals : u.annals = t.annals := congrArg Core.annals core
      refine h.of_same hkeeps posts ?_ ?_
      · simp [Roster.ids, entries]
      · intro e n he hmem
        rw [entries] at he
        obtain ⟨x, hx, rfl⟩ := List.mem_map.mp he
        obtain ⟨hplan, hdrives⟩ := (h.drives hx hmem).keep hkeeps (by rw [hannals])
        exact ⟨hplan, hdrives⟩
  | polled i moves posts roster =>
      refine h.of_same hkeeps posts (congrArg Roster.ids roster) ?_
      intro e n he hmem
      rw [roster] at he
      exact (h.drives he hmem).keep hkeeps (moves.planOf?_eq n)
  | created view roster journal policy same free started entries id result =>
      exact h.created hkeeps free started entries
  | updated view post alarm replanned started result => exact h.updated hkeeps post
  | removed post alarm => exact h.removed hkeeps
  | stopped alarms deeds deeds_cancelled stops =>
      refine h.of_same hkeeps rfl rfl ?_
      intro e n he hmem
      refine (h.drives he hmem).keep hkeeps (planOf?_append ?_ _)
      intro d hd
      obtain ⟨m, rfl⟩ := deeds_cancelled d hd
      rfl

theorem Agrees.run (h : t.Agrees) {acts : List Act}
    (hacts : ∀ act ∈ acts, act.isDirect = false) : (t.run acts).Agrees := by
  induction acts generalizing t with
  | nil => exact h
  | cons act acts ih =>
      obtain ⟨hact, hacts⟩ := List.forall_mem_cons.mp hacts
      exact ih (h.act hact) hacts

/-- The policy that the last create or update of a history has fixed for the entry of an id. -/
def lastPolicy? (t : Timetable) (id : Nat) : List Act → Option (Instant × Span)
  | [] => none
  | act :: acts => ((t.act act).lastPolicy? id acts).or (t.fixes? id act)

/-- An entry has its policy from the act, or else from before. -/
theorem Posted.fixes (h : t.Posted) {act : Act} (hact : act.isDirect = false) {e : Entry}
    (he : e ∈ (t.act act).roster.entries) :
    t.fixes? e.id act = some (e.due, e.period) ∨
      t.fixes? e.id act = none ∧
        ∃ x ∈ t.roster.entries, x.id = e.id ∧ x.due = e.due ∧ x.period = e.period := by
  have heffect := h.effect hact
  generalize t.act act = u at heffect he
  cases heffect with
  | minor handle core posts entries fixes =>
      rw [entries] at he
      obtain ⟨x, hx, rfl⟩ := List.mem_map.mp he
      exact Or.inr ⟨fixes _, x, hx, rfl, rfl, rfl⟩
  | polled i moves posts roster =>
      rw [roster] at he
      exact Or.inr ⟨rfl, e, he, rfl, rfl, rfl⟩
  | @created task plan new b view roster journal policy same free started entries id result =>
      have he : e ∈ t.roster.entries ++ [new] := entries ▸ he
      rcases List.mem_append.mp he with hold | hnew
      · have hother : view.id ≠ e.id := by
          rw [id]
          intro hid
          exact free (hid ▸ List.mem_map_of_mem hold)
        exact Or.inr ⟨by simp [fixes?, result, hother], e, hold, rfl, rfl, rfl⟩
      · rw [List.mem_singleton.mp hnew]
        exact Or.inl (by simp [fixes?, result, id, policy, Except.toOption])
  | @updated id n plan a y b view post alarm replanned started result =>
      obtain ⟨x, hx, hxe⟩ := Roster.mem_entries_modify.mp he
      split at hxe
      · next hid =>
          subst hxe
          obtain ⟨due, period, hpolicy, rfl⟩ := Alarm.replan_ok replanned
          obtain ⟨_, _, hdue, hperiod⟩ := Alarm.start_keeps started
          refine Or.inl ?_
          simp [fixes?, result, hid, hpolicy, Except.toOption, hdue, hperiod]
      · next hid =>
          subst hxe
          exact Or.inr ⟨by simp [fixes?, result, Ne.symm hid], x, hx, rfl, rfl, rfl⟩
  | removed post alarm => exact Or.inr ⟨rfl, e, (List.mem_filter.mp he).1, rfl, rfl, rfl⟩
  | stopped alarms deeds deeds_cancelled stops => exact Or.inr ⟨rfl, e, he, rfl, rfl, rfl⟩

theorem Agrees.lastPolicy? (h : t.Agrees) {acts : List Act}
    (hacts : ∀ act ∈ acts, act.isDirect = false) {e : Entry}
    (he : e ∈ (t.run acts).roster.entries) :
    t.lastPolicy? e.id acts = some (e.due, e.period) ∨
      t.lastPolicy? e.id acts = none ∧
        ∃ x ∈ t.roster.entries, x.id = e.id ∧ x.due = e.due ∧ x.period = e.period := by
  induction acts generalizing t with
  | nil => exact Or.inr ⟨rfl, e, he, rfl, rfl, rfl⟩
  | cons act acts ih =>
      obtain ⟨hact, hacts⟩ := List.forall_mem_cons.mp hacts
      rw [Timetable.lastPolicy?]
      rcases ih (h.act hact) hacts he with hlater | ⟨hnone, x, hx, hid, hdue, hperiod⟩
      · exact Or.inl (by rw [hlater]; rfl)
      · rw [hnone, Option.none_or, ← hid, ← hdue, ← hperiod]
        exact h.fixes hact hx

theorem get_ok {id : Nat} {view : EntryView} (h : t.get id = .ok view) :
    ∃ e ∈ t.roster.entries, e.id = id ∧ view = t.viewOf e := by
  obtain ⟨e, hentry, rfl⟩ := map_eq_ok_iff.mp h
  simp only [entryOf] at hentry
  split at hentry
  · cases hentry
  · cases hentry
  · next found hfound =>
      cases hentry
      obtain ⟨he, hid⟩ := Roster.byId_some hfound
      exact ⟨e, he, hid, rfl⟩

theorem list_ok {views : List EntryView} (h : t.list = .ok views) :
    views = t.roster.entries.map t.viewOf := by
  simp only [list] at h
  split at h
  · next entries hall =>
      cases h
      rw [Roster.all_ok hall]
  · cases h

/-- An entry, its post and its alarm are of one policy. The time that the alarm is set to is that
of the policy, or what the alarm was re-armed to last since. -/
structure Tallies (t : Timetable) (e : Entry) (n : Nat) (a : Alarm) : Prop where
  post : t.post? e.id = some n
  alarm : t.alarms[n]? = some a
  entry : a.entry = e.id
  task : a.task = e.task
  period : a.period = e.period
  plan : planOf? n t.annals = some (e.due, e.period)
  due : a.due = (rearmedTo? n t.annals).getD e.due

theorem Agrees.tallies (h : t.Agrees) (hplanned : t.core.Planned) {e : Entry}
    (he : e ∈ t.roster.entries) : ∃ n a, t.Tallies e n a := by
  obtain ⟨n, hmem⟩ := h.exists_post he
  obtain ⟨hplan, a, ha, hid, htask⟩ := h.drives he hmem
  obtain ⟨due, hplan', hdue⟩ := hplanned.plan ha
  have hsame : (due, a.period) = (e.due, e.period) := Option.some.inj (hplan'.symm.trans hplan)
  obtain ⟨hdue', hperiod⟩ := Prod.mk.inj hsame
  exact ⟨n, a, h.post?_eq_some_iff.mpr hmem, ha, hid, htask, hperiod, hplan, hdue' ▸ hdue⟩

/-- A description mixes no policies. -/
theorem Tallies.viewOf_eq {e : Entry} {n : Nat} {a : Alarm} (h : t.Tallies e n a) :
    t.viewOf e = ⟨e.id, a.due, a.period.words, e.handle, a.task.view⟩ := by
  rw [viewOf_of_post h.post h.alarm, h.period, h.task]
  rfl

theorem planned_opening (start : Instant) (source : IdSource) (replies : List RestartReply) :
    (opening start source replies).core.Planned where
  plan := by
    intro n a ha
    cases ha

/-- In every history of requests, polls and time, whether requests succeed or not, the ids with a
post are those of the roster, and every entry tallies with its post and its alarm under the policy
that the last create or update has fixed. What `get` and `list` return describes that policy. -/
theorem roster_tallies (start : Instant) (source : IdSource) (replies : List RestartReply)
    (acts : List Act) (hacts : ∀ act ∈ acts, act.isDirect = false) :
    let t := (opening start source replies).run acts
    t.posts.map Prod.fst = t.roster.ids ∧ t.roster.ids.Nodup ∧
    (∀ e ∈ t.roster.entries,
      (opening start source replies).lastPolicy? e.id acts = some (e.due, e.period) ∧
        ∃ n a, t.Tallies e n a) ∧
    (∀ id view, t.get id = .ok view → ∃ e ∈ t.roster.entries, e.id = id ∧
      ∃ n a, t.Tallies e n a ∧ view = ⟨id, a.due, a.period.words, e.handle, a.task.view⟩) ∧
    (∀ views, t.list = .ok views → List.Forall₂ (fun e view => ∃ n a, t.Tallies e n a ∧
      view = ⟨e.id, a.due, a.period.words, e.handle, a.task.view⟩) t.roster.entries views) := by
  intro t
  have hagrees : t.Agrees := (agrees_opening start source replies).run hacts
  have hplanned : t.core.Planned :=
    (planned_opening start source replies).steps (steps_run _ acts)
  refine ⟨hagrees.ids, hagrees.nodup, ?_, ?_, ?_⟩
  · intro e he
    refine ⟨?_, hagrees.tallies hplanned he⟩
    rcases (agrees_opening start source replies).lastPolicy? hacts he with hlast | ⟨_, x, hx, _⟩
    · exact hlast
    · cases hx
  · intro id view hget
    obtain ⟨e, he, rfl, rfl⟩ := get_ok hget
    obtain ⟨n, a, htallies⟩ := hagrees.tallies hplanned he
    exact ⟨e, he, rfl, n, a, htallies, htallies.viewOf_eq⟩
  · intro views hlist
    rw [list_ok hlist, List.forall₂_map_right_iff, List.forall₂_same]
    intro e he
    obtain ⟨n, a, htallies⟩ := hagrees.tallies hplanned he
    exact ⟨n, a, htallies, htallies.viewOf_eq⟩

/-- A recurring entry whose alarm has been re-armed once. -/
theorem roster_tallies_of_recurring :
    let t := (opening .epoch {} []).run
      [.create (.pause .zero) (.recurring .epoch .minute), .poll 0]
    t.roster.ids = [1001] ∧ t.posts.map Prod.fst = [1001] ∧ ∃ e n a, t.Tallies e n a := by
  intro t
  have hids : t.roster.ids = [1001] := by decide +kernel
  obtain ⟨hposts, _, htallies, _⟩ := roster_tallies .epoch {} []
    [.create (.pause .zero) (.recurring .epoch .minute), .poll 0] (by simp [Act.isDirect])
  have hmem : 1001 ∈ t.roster.ids := by
    rw [hids]
    exact List.mem_singleton_self 1001
  obtain ⟨e, he, _⟩ := List.mem_map.mp hmem
  obtain ⟨_, n, a, htally⟩ := htallies e he
  exact ⟨hids, hposts.trans hids, e, n, a, htally⟩

end Timetable

end Almanac
