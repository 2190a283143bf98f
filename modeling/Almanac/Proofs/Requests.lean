import Almanac.Proofs.Core
import Almanac.Proofs.Rosters

/-!
# What requests come to

As long as posts and entries have the same ids, a request either fails and leaves entries,
posts and alarms as they are, or it does all that it is to do. The ways out half way, for
entries that have vanished, are never taken.
-/

namespace Almanac

/-- In a list of pairs whose keys differ, a lookup finds every pair. -/
theorem lookup_eq_some_iff_mem {α β : Type*} [DecidableEq α] {l : List (α × β)}
    (hnodup : (l.map Prod.fst).Nodup) {k : α} {b : β} :
    l.lookup k = some b ↔ (k, b) ∈ l := by
  induction l with
  | nil => simp
  | cons p l ih =>
      obtain ⟨key, value⟩ := p
      rw [List.map_cons, List.nodup_cons] at hnodup
      obtain ⟨hkey, hnodup⟩ := hnodup
      by_cases hk : k = key
      · subst hk
        rw [List.lookup_cons_self, Option.some.injEq, List.mem_cons, Prod.mk.injEq]
        constructor
        · rintro rfl
          exact Or.inl ⟨rfl, rfl⟩
        · rintro (⟨_, hb⟩ | hmem)
          · exact hb.symm
          · exact absurd (List.mem_map_of_mem hmem) hkey
      · rw [List.lookup_cons, beq_eq_false_iff_ne.mpr hk, ih hnodup, List.mem_cons,
          Prod.mk.injEq]
        simp [hk]

/-- An alarm that does not run can be started. -/
theorem Alarm.exists_start {a : Alarm} (h : a.isRunning = false) : ∃ b, a.start = .ok b := by
  cases hstart : a.start with
  | error e =>
      rw [start_eq_error_iff, h] at hstart
      cases hstart.1
  | ok b => exact ⟨b, rfl⟩

namespace Timetable

/-- Posts and entries have the same ids, each once, and a post is that of an alarm of its id. -/
structure Posted (t : Timetable) : Prop where
  ids : t.posts.map Prod.fst = t.roster.ids
  nodup : t.roster.ids.Nodup
  alarm : ∀ {id n : Nat}, (id, n) ∈ t.posts → ∃ a, t.alarms[n]? = some a ∧ a.entry = id

namespace Posted

variable {t : Timetable} {id n : Nat}

theorem post?_eq_some_iff (h : t.Posted) : t.post? id = some n ↔ (id, n) ∈ t.posts := by
  simp only [post?]
  exact lookup_eq_some_iff_mem (h.ids ▸ h.nodup)

theorem mem_ids (h : t.Posted) (hpost : (id, n) ∈ t.posts) : id ∈ t.roster.ids := by
  rw [← h.ids]
  exact List.mem_map_of_mem (f := Prod.fst) hpost

theorem exists_entry (h : t.Posted) (hpost : (id, n) ∈ t.posts) :
    ∃ e ∈ t.roster.entries, e.id = id :=
  List.mem_map.mp (h.mem_ids hpost)

theorem post?_eq_none (h : t.Posted) (hid : id ∉ t.roster.ids) : t.post? id = none := by
  cases hpost : t.post? id with
  | none => rfl
  | some n => exact absurd (h.mem_ids (h.post?_eq_some_iff.mp hpost)) hid

theorem eq_of_post (h : t.Posted) {m : Nat} (hn : (id, n) ∈ t.posts) (hm : (id, m) ∈ t.posts) :
    m = n := by
  rw [← h.post?_eq_some_iff] at hn hm
  exact Option.some.inj (hm.symm.trans hn)

theorem id_eq_of_post (h : t.Posted) {other : Nat} (hid : (id, n) ∈ t.posts)
    (hother : (other, n) ∈ t.posts) : other = id := by
  obtain ⟨a, ha, rfl⟩ := h.alarm hid
  obtain ⟨b, hb, rfl⟩ := h.alarm hother
  rw [ha] at hb
  cases hb
  rfl

theorem exists_post (h : t.Posted) {e : Entry} (he : e ∈ t.roster.entries) :
    ∃ n, (e.id, n) ∈ t.posts := by
  have hid : e.id ∈ t.posts.map Prod.fst := by
    rw [h.ids]
    exact List.mem_map_of_mem he
  obtain ⟨⟨id, n⟩, hmem, hkey⟩ := List.mem_map.mp hid
  exact ⟨n, hkey ▸ hmem⟩

end Posted

/-- What an alarm that starts sets going. -/
def launched (t : Timetable) (n : Nat) (b : Alarm) : Timetable :=
  { t with
    alarms := t.alarms.set n b
    vigils := t.vigils ++
      [{ alarm := n, token := b.token, generation := b.generation, since := t.elapsed }]
    annals := .started n t.vigils.length :: t.annals
    nextHandle := t.nextHandle + 1 }

theorem launch_ok {t : Timetable} {entry stored : Entry} {n : Nat} {a b : Alarm}
    (ha : t.alarms[n]? = some a) (hstart : a.start = .ok b)
    (hstored : t.roster.byId entry.id = .ok (some stored))
    (withdraw : Timetable → Except RosterError Timetable) (undo publish : Timetable → Timetable) :
    let policy (s : Entry) : Entry :=
      { s with due := entry.due, period := entry.period, handle := some t.nextHandle }
    t.launch entry n withdraw undo publish =
      let u := (publish { t.launched n b with
        roster := t.roster.modify entry.id policy }).watch stored.id t.nextHandle t.vigils.length
      (.ok (u.viewOf (policy stored)), u) := by
  intro policy
  have hstarted : t.startAlarm n = .ok (t.vigils.length,
      { t with
        alarms := t.alarms.set n b
        vigils := t.vigils ++
          [{ alarm := n, token := b.token, generation := b.generation, since := t.elapsed }]
        annals := .started n t.vigils.length :: t.annals }) := by
    simp only [startAlarm]
    rw [ha]
    dsimp only
    rw [hstart]
    rfl
  simp only [launch]
  rw [hstarted]
  dsimp only [mintHandle]
  rw [Roster.update_of_byId { entry with handle := some t.nextHandle } hstored]
  rfl

theorem assign_of_none {t : Timetable} {id : Nat} (h : t.post? id = none) (n : Nat) :
    t.assign id n = { t with posts := t.posts ++ [(id, n)] } := by
  have hothers : (t.posts.filter fun p => p.1 != id) = t.posts := by
    rw [List.filter_eq_self]
    intro p hp
    have hkey := List.lookup_eq_none_iff.mp h p hp
    simpa [bne, Bool.beq_comm] using hkey
  simp only [assign]
  rw [h, hothers]
  rfl

theorem viewOf_id (t : Timetable) (e : Entry) : (t.viewOf e).id = e.id := by
  simp only [viewOf]
  split <;> rfl

/-- What is shown of an entry whose alarm has its post. -/
theorem viewOf_of_post {t : Timetable} {e : Entry} {n : Nat} {a : Alarm}
    (hpost : t.post? e.id = some n) (ha : t.alarms[n]? = some a) :
    t.viewOf e = { e.view with due := a.due } := by
  have halarm : t.alarmOf? e.id = some a := by
    rw [alarmOf?, hpost]
    exact ha
  rw [viewOf, halarm]

theorem entryOf_of_byId {t : Timetable} {id : Nat} {e : Entry}
    (h : t.roster.byId id = .ok (some e)) : t.entryOf id = .ok e := by
  rw [entryOf, h]

/-- The timetable with a new entry `e`, whose alarm was started as `b`, before the alarm has its
post and a watcher. -/
def enrolled (t : Timetable) (e : Entry) (b : Alarm) (roster : Roster)
    (journal : List Happening) : Timetable :=
  { t with
    roster, journal
    alarms := t.alarms ++ [b]
    vigils := t.vigils ++ [{ alarm := t.alarms.length, token := b.token,
                             generation := b.generation, since := t.elapsed }]
    annals := .started t.alarms.length t.vigils.length ::
      .planned t.alarms.length false e.due e.period :: t.annals
    nextHandle := t.nextHandle + 1 }

/-- The timetable with a new entry `e`, whose alarm was started as `b`. -/
def created (t : Timetable) (e : Entry) (b : Alarm) (roster : Roster)
    (journal : List Happening) : Timetable :=
  { t with
    roster, journal
    alarms := t.alarms ++ [b]
    vigils := t.vigils ++ [{ alarm := t.alarms.length, token := b.token,
                             generation := b.generation, since := t.elapsed }]
    annals := .started t.alarms.length t.vigils.length ::
      .planned t.alarms.length false e.due e.period :: t.annals
    posts := t.posts ++ [(e.id, t.alarms.length)]
    nextHandle := t.nextHandle + 1
    watchers := t.watchers ++
      [{ entry := e.id, handle := t.nextHandle, vigil := t.vigils.length }] }

theorem watch_assign_of_none {t : Timetable} {e : Entry} (h : t.post? e.id = none) (b : Alarm)
    (roster : Roster) (journal : List Happening) :
    ((t.enrolled e b roster journal).assign e.id t.alarms.length).watch e.id t.nextHandle
        t.vigils.length = t.created e b roster journal := by
  have hnone : (t.enrolled e b roster journal).post? e.id = none := h
  rw [assign_of_none hnone]
  rfl

/-- A create whose entry is registered does all the rest, whether the id has a post or not. -/
theorem create_of_add {t : Timetable} (hnodup : t.roster.ids.Nodup) {task : Task} {plan : Plan}
    {entry stored : Entry} (hnew : Entry.new task plan t.now = .ok entry)
    (hadd : (t.roster.add entry).outcome = .ok stored) :
    ∃ b journal, (Alarm.ofEntry stored).start = .ok b ∧
      let e : Entry := { stored with handle := some t.nextHandle }
      let u := ((t.enrolled e b
        ⟨t.roster.entries ++ [e], (t.roster.source.draw t.roster.ids).source, false⟩
        journal).assign e.id t.alarms.length).watch e.id t.nextHandle t.vigils.length
      t.create task plan = (.ok (u.viewOf e), u) := by
  obtain ⟨journal, henroll⟩ := t.enroll_eq entry
  obtain ⟨_, hdrawn, _, hroster⟩ := Roster.add_ok hadd
  obtain ⟨_, hfree⟩ := IdSource.draw_fresh hdrawn
  rw [hadd] at henroll
  generalize (t.roster.add entry).roster = roster at *
  have hids : roster.ids = t.roster.ids ++ [stored.id] := by
    rw [hroster]
    simp [Roster.ids]
  have hnodup' : roster.ids.Nodup := by
    rw [hids]
    exact Roster.nodup_append_of_free hnodup hfree
  have hmem : stored ∈ roster.entries := by
    rw [hroster]
    exact List.mem_append_right _ List.mem_cons_self
  have hsound : roster.isSpoiled = false := by rw [hroster]
  have hbyId := Roster.byId_of_mem hsound hnodup' hmem
  obtain ⟨b, hb⟩ := Alarm.exists_start (a := Alarm.ofEntry stored) rfl
  -- the entry in the roster, its alarm, the start of that, the handle and at last the post
  let u : Timetable := ({ t with roster, journal }.addAlarm stored).2
  have hlast : u.alarms[t.alarms.length]? = some (Alarm.ofEntry stored) :=
    Places.getElem?_last _ _
  let policy (s : Entry) : Entry :=
    { s with due := stored.due, period := stored.period, handle := some t.nextHandle }
  have hset : u.alarms.set t.alarms.length b = t.alarms ++ [b] := by
    simp [u, addAlarm, note]
  have hmodified : roster.modify stored.id policy =
      ⟨t.roster.entries ++ [policy stored], (t.roster.source.draw t.roster.ids).source, false⟩ := by
    have hentries := Roster.entries_modify_last (r := roster) (by rw [hroster]) hfree policy
    simp only [Roster.modify] at hentries ⊢
    rw [hentries, hroster]
  have henrolled : { u.launched t.alarms.length b with
      roster := roster.modify stored.id policy } =
        t.enrolled (policy stored) b (roster.modify stored.id policy) journal := by
    dsimp only [launched]
    rw [hset]
    rfl
  let w : Timetable := ((t.enrolled (policy stored) b (roster.modify stored.id policy)
    journal).assign stored.id t.alarms.length).watch stored.id t.nextHandle t.vigils.length
  have hcreate : t.create task plan = (.ok (w.viewOf (policy stored)), w) := by
    dsimp only [w]
    rw [← henrolled]
    simp only [create]
    rw [hnew]
    dsimp only
    rw [henroll]
    exact launch_ok hlast hb hbyId _ _ _
  refine ⟨b, journal, hb, ?_⟩
  dsimp only [w] at hcreate
  rw [hmodified] at hcreate
  exact hcreate

/-- A create whose plan is not admissible changes nothing. -/
theorem create_of_refused {t : Timetable} {plan : Plan} {cause : PlanError}
    (h : Entry.policyOf plan t.now = .error cause) (task : Task) :
    t.create task plan = (Attempt.refuse (.plan cause), t) := by
  simp only [create, Entry.new]
  rw [h]
  rfl

/-- A create either is refused for its plan and changes nothing, or fails because the roster is
spoiled or spoils it, or adds an entry with an alarm of its own, which gets the post of the id. -/
theorem create_cases {t : Timetable} (hnodup : t.roster.ids.Nodup) (task : Task) (plan : Plan) :
    (∃ cause, Entry.policyOf plan t.now = .error cause ∧
      t.create task plan = (Attempt.refuse (.plan cause), t)) ∨
    (∃ cause roster journal,
      (t.roster.isSpoiled = true ∨ (t.roster.source.draw t.roster.ids).id = none) ∧
      roster.entries = t.roster.entries ∧ roster.isSpoiled = true ∧
      t.create task plan = (.error cause, { t with roster, journal })) ∨
    ∃ e b journal, Entry.policyOf plan t.now = .ok (e.due, e.period) ∧ e.task = task ∧
      e.handle = some t.nextHandle ∧ t.roster.isSpoiled = false ∧
      (t.roster.source.draw t.roster.ids).id = some e.id ∧ (Alarm.ofEntry e).start = .ok b ∧
      let u := ((t.enrolled e b
        ⟨t.roster.entries ++ [e], (t.roster.source.draw t.roster.ids).source, false⟩
        journal).assign e.id t.alarms.length).watch e.id t.nextHandle t.vigils.length
      t.create task plan = (.ok (u.viewOf e), u) := by
  cases hpolicy : Entry.policyOf plan t.now with
  | error cause => exact Or.inl ⟨cause, rfl, create_of_refused hpolicy task⟩
  | ok policy =>
      obtain ⟨due, period⟩ := policy
      have hnew : Entry.new task plan t.now = .ok { task, due, period } := by
        simp only [Entry.new]
        rw [hpolicy]
        rfl
      cases hadd : (t.roster.add { task, due, period }).outcome with
      | error cause =>
          obtain ⟨journal, henroll⟩ := t.enroll_eq { task, due, period }
          obtain ⟨hbroken, hentries, hspoiled⟩ := Roster.add_error rfl hadd
          rw [hadd] at henroll
          refine Or.inr (Or.inl ?_)
          cases cause with
          | refused e =>
              refine ⟨.refused (.roster e), _, journal, hbroken, hentries, hspoiled, ?_⟩
              simp only [create]
              rw [hnew]
              dsimp only
              rw [henroll]
              rfl
          | brokenOff =>
              refine ⟨.brokenOff, _, journal, hbroken, hentries, hspoiled, ?_⟩
              simp only [create]
              rw [hnew]
              dsimp only
              rw [henroll]
              rfl
      | ok stored =>
          obtain ⟨hsound, hdrawn, hstored, _⟩ := Roster.add_ok hadd
          obtain ⟨b, journal, hb, hcreate⟩ := create_of_add hnodup hnew hadd
          refine Or.inr (Or.inr ⟨{ stored with handle := some t.nextHandle }, b, journal, ?_,
            congrArg Entry.task hstored, rfl, hsound, hdrawn, hb, hcreate⟩)
          dsimp only
          rw [congrArg Entry.due hstored, congrArg Entry.period hstored]

/-- Where posts and entries have the same ids, the post of a new entry is a new one. -/
theorem Posted.create_cases {t : Timetable} (h : t.Posted) (task : Task) (plan : Plan) :
    (∃ cause, Entry.policyOf plan t.now = .error cause ∧
      t.create task plan = (Attempt.refuse (.plan cause), t)) ∨
    (∃ cause roster journal,
      (t.roster.isSpoiled = true ∨ (t.roster.source.draw t.roster.ids).id = none) ∧
      roster.entries = t.roster.entries ∧ roster.isSpoiled = true ∧
      t.create task plan = (.error cause, { t with roster, journal })) ∨
    ∃ e b journal, Entry.policyOf plan t.now = .ok (e.due, e.period) ∧ e.task = task ∧
      e.handle = some t.nextHandle ∧ t.roster.isSpoiled = false ∧
      (t.roster.source.draw t.roster.ids).id = some e.id ∧ (Alarm.ofEntry e).start = .ok b ∧
      let u := t.created e b
        ⟨t.roster.entries ++ [e], (t.roster.source.draw t.roster.ids).source, false⟩ journal
      t.create task plan = (.ok (u.viewOf e), u) := by
  rcases Timetable.create_cases h.nodup task plan with
    hrefused | hbroken | ⟨e, b, journal, hpolicy, htask, hhandle, hsound, hdrawn, hb, hcreate⟩
  · exact Or.inl hrefused
  · exact Or.inr (Or.inl hbroken)
  · obtain ⟨_, hfree⟩ := IdSource.draw_fresh hdrawn
    refine Or.inr (Or.inr ⟨e, b, journal, hpolicy, htask, hhandle, hsound, hdrawn, hb, ?_⟩)
    dsimp only at hcreate ⊢
    rw [watch_assign_of_none (h.post?_eq_none hfree)] at hcreate
    exact hcreate

/-- The timetable with another policy for the entry of an id, whose alarm `n` was stopped,
changed and started as `b`. -/
def updated (t : Timetable) (id n : Nat) (stopped : Bool) (b : Alarm) : Timetable :=
  { t with
    roster := t.roster.modify id fun e =>
      { e with due := b.due, period := b.period, handle := some t.nextHandle }
    alarms := t.alarms.set n b
    vigils := t.vigils ++
      [{ alarm := n, token := b.token, generation := b.generation, since := t.elapsed }]
    annals := .started n t.vigils.length :: .planned n stopped b.due b.period :: t.annals
    nextHandle := t.nextHandle + 1
    watchers := t.watchers ++ [{ entry := id, handle := t.nextHandle, vigil := t.vigils.length }] }

/-- An update whose plan the alarm takes does all the rest. -/
theorem update_of_replan {t : Timetable} {id n : Nat} {plan : Plan} {e : Entry} {a x : Alarm}
    (hpost : t.post? id = some n) (hfound : t.roster.byId id = .ok (some e))
    (ha : t.alarms[n]? = some a) (hreplan : a.replan plan t.now = .ok x) :
    ∃ b, x.start = .ok b ∧
      let u := t.updated id n a.isRunning b
      t.update id plan = (.ok (u.viewOf
        { e with due := b.due, period := b.period, handle := some t.nextHandle }), u) := by
  have hx : x.isRunning = false := by
    obtain ⟨due, period, _, rfl⟩ := Alarm.replan_ok hreplan
    exact a.isRunning_stop
  obtain ⟨b, hb⟩ := Alarm.exists_start hx
  obtain ⟨_, hid⟩ := Roster.byId_some hfound
  obtain ⟨_, _, hdue, hperiod⟩ := Alarm.start_keeps hb
  -- the plan for the alarm, its start, the handle and at last the policy of the entry
  let u : Timetable :=
    { t with
      alarms := t.alarms.set n x
      annals := .planned n a.isRunning x.due x.period :: t.annals }
  have hreplanned : t.replanAlarm n plan = .ok u := by
    simp only [replanAlarm]
    rw [ha]
    dsimp only
    rw [hreplan]
    rfl
  have hset : u.alarms[n]? = some x := by
    dsimp only [u]
    rw [Places.getElem?_set_self ha]
  let entry : Entry := { e with due := x.due, period := x.period }
  have hstored : u.roster.byId entry.id = .ok (some e) := by
    rw [← hid] at hfound
    exact hfound
  have hentry := entryOf_of_byId hfound
  have hlaunch := launch_ok hset hb hstored .ok (fun t => t.discard id) fun t => t
  have hupdated : ({ u.launched n b with
      roster := u.roster.modify entry.id fun s =>
        { s with due := entry.due, period := entry.period, handle := some u.nextHandle } }).watch
          e.id u.nextHandle u.vigils.length = t.updated id n a.isRunning b := by
    simp only [updated]
    rw [hdue, hperiod, ← hid]
    dsimp only [u, launched]
    rw [List.set_set]
    rfl
  dsimp only at hlaunch
  rw [hupdated] at hlaunch
  have hupdate : t.update id plan = u.launch entry n .ok (fun t => t.discard id) fun t => t := by
    simp only [update]
    rw [hpost]
    dsimp only
    rw [hentry]
    dsimp only
    rw [hreplanned]
    dsimp only
    rw [hset]
  refine ⟨b, hb, ?_⟩
  rw [hdue, hperiod]
  exact hupdate.trans hlaunch

/-- An update of an id that is not there changes nothing. -/
theorem Posted.update_of_missing {t : Timetable} (h : t.Posted) {id : Nat}
    (hid : id ∉ t.roster.ids) (plan : Plan) :
    t.update id plan = (Attempt.refuse (.roster (.notFound id)), t) := by
  simp only [update]
  rw [h.post?_eq_none hid]

/-- An update that the alarm refuses changes nothing. -/
theorem update_of_refused {t : Timetable} {id n : Nat} {plan : Plan} {e : Entry} {a : Alarm}
    {cause : AlarmError} (hpost : t.post? id = some n)
    (hfound : t.roster.byId id = .ok (some e)) (ha : t.alarms[n]? = some a)
    (hreplan : a.replan plan t.now = .error cause) :
    t.update id plan = (Attempt.refuse (.alarm cause), t) := by
  have hentry := entryOf_of_byId hfound
  simp only [update, replanAlarm]
  rw [hpost]
  dsimp only
  rw [hentry, ha]
  dsimp only
  rw [hreplan]
  rfl

/-- An update either fails and changes nothing, or it changes an entry and starts its alarm
anew. -/
theorem Posted.update_cases {t : Timetable} (h : t.Posted) (id : Nat) (plan : Plan) :
    (∃ cause, t.update id plan = (.error cause, t)) ∨
    ∃ n e a x b, (id, n) ∈ t.posts ∧ t.roster.byId id = .ok (some e) ∧ t.alarms[n]? = some a ∧
      a.replan plan t.now = .ok x ∧ x.start = .ok b ∧
      let u := t.updated id n a.isRunning b
      t.update id plan = (.ok (u.viewOf
        { e with due := b.due, period := b.period, handle := some t.nextHandle }), u) := by
  by_cases hid : id ∈ t.roster.ids
  · obtain ⟨x, hx, rfl⟩ := List.mem_map.mp hid
    obtain ⟨n, hmem⟩ := h.exists_post hx
    have hpost := h.post?_eq_some_iff.mpr hmem
    cases hspoiled : t.roster.isSpoiled with
    | true =>
        refine Or.inl ⟨.refused (.roster .spoiled), ?_⟩
        simp only [update, entryOf, Roster.byId, Roster.sound]
        rw [hpost, hspoiled]
        rfl
    | false =>
        have hfound := Roster.byId_of_mem hspoiled h.nodup hx
        obtain ⟨a, ha, _⟩ := h.alarm hmem
        cases hreplan : a.replan plan t.now with
        | error cause =>
            exact Or.inl ⟨_, update_of_refused hpost hfound ha hreplan⟩
        | ok y =>
            obtain ⟨b, hb, hupdate⟩ := update_of_replan hpost hfound ha hreplan
            exact Or.inr ⟨n, x, a, y, b, hmem, hfound, ha, hreplan, hb, hupdate⟩
  · exact Or.inl ⟨_, h.update_of_missing hid plan⟩

theorem cancelAlarm_of_running {t : Timetable} {n : Nat} {a : Alarm} (ha : t.alarms[n]? = some a)
    (running : a.isRunning = true) :
    t.cancelAlarm n =
      .ok { t with alarms := t.alarms.set n a.stop, annals := .cancelled n :: t.annals } := by
  simp only [cancelAlarm]
  rw [ha]
  dsimp only
  simp only [Alarm.cancel]
  rw [if_pos running]
  rfl

theorem cancelAlarm_of_stopped {t : Timetable} {n : Nat}
    (h : ∀ a, t.alarms[n]? = some a → a.isRunning = false) :
    t.cancelAlarm n = .error .notRunning := by
  simp only [cancelAlarm]
  split
  · rfl
  · next a ha =>
      simp only [Alarm.cancel]
      rw [h a ha]
      rfl

/-- The timetable without the entry of an id, whose alarm `n` was stopped as `a`. -/
def removed (t : Timetable) (id n : Nat) (a : Alarm) : Timetable :=
  { t with
    roster := { t.roster with entries := t.roster.entries.filter fun e => e.id != id }
    posts := t.posts.filter fun p => p.1 != id
    alarms := t.alarms.set n a.stop
    annals := (if a.isRunning then [.cancelled n] else []) ++ t.annals }

theorem discard_of_post {t : Timetable} {id n : Nat} {a : Alarm} (hpost : t.post? id = some n)
    (ha : t.alarms[n]? = some a) :
    t.discard id =
      { t with
        posts := t.posts.filter fun p => p.1 != id
        alarms := t.alarms.set n a.stop
        annals := (if a.isRunning then [.cancelled n] else []) ++ t.annals } := by
  let u : Timetable := { t with posts := t.posts.filter fun p => p.1 != id }
  have hu : u.alarms[n]? = some a := ha
  simp only [discard]
  rw [hpost]
  dsimp only
  by_cases running : a.isRunning = true
  · rw [cancelAlarm_of_running hu running, if_pos running]
    rfl
  · have hstop : t.alarms.set n a.stop = t.alarms := by
      simp only [Alarm.stop]
      rw [if_neg running]
      exact Places.set_self ha
    have stopped : ∀ b, u.alarms[n]? = some b → b.isRunning = false := by
      intro b hb
      rw [hu] at hb
      cases hb
      exact Bool.eq_false_iff.mpr running
    rw [cancelAlarm_of_stopped stopped, if_neg running, hstop]
    rfl

/-- A remove of an id that is not there changes nothing. -/
theorem Posted.remove_of_missing {t : Timetable} (h : t.Posted) {id : Nat}
    (hsound : t.roster.isSpoiled = false) (hid : id ∉ t.roster.ids) :
    t.remove id = (.error (.roster (.notFound id)), t) := by
  have hfound := Roster.byId_of_missing hsound hid
  have hdiscard : t.discard id = t := by
    simp only [discard]
    rw [h.post?_eq_none hid]
  have hremove : t.roster.remove id = .error (.notFound id) := by
    simp only [Roster.remove]
    rw [hfound]
    rfl
  simp only [remove]
  rw [hfound]
  dsimp only
  rw [hdiscard, hremove]

/-- A remove of an id that is there stops its alarm and takes its entry and its post away. -/
theorem Posted.remove_of_mem {t : Timetable} (h : t.Posted) {id : Nat}
    (hsound : t.roster.isSpoiled = false) (hid : id ∈ t.roster.ids) :
    ∃ n a, (id, n) ∈ t.posts ∧ t.alarms[n]? = some a ∧
      t.remove id = (.ok (), t.removed id n a) := by
  obtain ⟨e, he, rfl⟩ := List.mem_map.mp hid
  have hfound := Roster.byId_of_mem hsound h.nodup he
  obtain ⟨n, hmem⟩ := h.exists_post he
  obtain ⟨a, ha, _⟩ := h.alarm hmem
  refine ⟨n, a, hmem, ha, ?_⟩
  simp only [remove]
  rw [hfound]
  dsimp only
  rw [discard_of_post (h.post?_eq_some_iff.mpr hmem) ha]
  dsimp only
  rw [Roster.remove_of_byId hfound]
  rfl

/-- A remove either fails and changes nothing, or does all that it is to do. -/
theorem Posted.remove_cases {t : Timetable} (h : t.Posted) (id : Nat) :
    (∃ cause, t.remove id = (.error cause, t)) ∨
    ∃ n a, (id, n) ∈ t.posts ∧ t.alarms[n]? = some a ∧
      t.remove id = (.ok (), t.removed id n a) := by
  cases hspoiled : t.roster.isSpoiled with
  | true =>
      refine Or.inl ⟨.roster .spoiled, ?_⟩
      simp only [remove, Roster.byId, Roster.sound]
      rw [hspoiled]
      rfl
  | false =>
      by_cases hid : id ∈ t.roster.ids
      · exact Or.inr (h.remove_of_mem hspoiled hid)
      · exact Or.inl ⟨_, h.remove_of_missing hspoiled hid⟩

/-- Stopping the alarms of some posts. -/
theorem stopAll_eq (t : Timetable) (posts : List (Nat × Nat)) :
    ∃ alarms deeds, (t.stopAll posts).2 = { t with alarms, annals := deeds ++ t.annals } ∧
      (∀ d ∈ deeds, ∃ n, d = .cancelled n) ∧
      ∀ n, alarms[n]? =
        t.alarms[n]?.map fun a => if n ∈ posts.map Prod.snd then a.stop else a := by
  induction posts generalizing t with
  | nil => exact ⟨t.alarms, [], rfl, by simp, by simp⟩
  | cons post posts ih =>
      obtain ⟨id, m⟩ := post
      simp only [stopAll]
      split
      · next u hu =>
          obtain ⟨a, b, ha, hb, rfl⟩ := cancelAlarm_ok hu
          obtain ⟨_, rfl⟩ := Alarm.cancel_ok hb
          obtain ⟨alarms, deeds, hstop, hdeeds, halarms⟩ :=
            ih { t with alarms := t.alarms.set m a.stop, annals := .cancelled m :: t.annals }
          refine ⟨alarms, deeds ++ [.cancelled m], ?_, ?_, ?_⟩
          · rw [List.append_assoc]
            exact hstop
          · intro d hd
            rcases List.mem_append.mp hd with hd | hd
            · exact hdeeds d hd
            · exact ⟨m, List.mem_singleton.mp hd⟩
          · intro n
            rw [halarms n]
            dsimp only
            rw [Places.getElem?_set ha]
            by_cases hmn : m = n
            · subst hmn
              rw [if_pos rfl, ha]
              simp
            · rw [if_neg hmn]
              simp only [List.map_cons, List.mem_cons, Ne.symm hmn, false_or]
      · next e he =>
          obtain ⟨alarms, deeds, hstop, hdeeds, halarms⟩ := ih t
          refine ⟨alarms, deeds, hstop, hdeeds, ?_⟩
          intro n
          rw [halarms n]
          by_cases hmn : m = n
          · subst hmn
            cases ha : t.alarms[m]? with
            | none => rfl
            | some a =>
                have idle : a.status ≠ .running := by
                  intro running
                  have hrunning := Alarm.isRunning_eq_true_iff.mpr running
                  rw [cancelAlarm_of_running ha hrunning] at he
                  cases he
                simp [Alarm.stop_of_not_running idle]
          · simp only [List.map_cons, List.mem_cons, Ne.symm hmn, false_or]

/-- Where no alarm runs, nothing is left to stop. -/
theorem stopAll_of_stopped {t : Timetable} {posts : List (Nat × Nat)}
    (h : ∀ p ∈ posts, ∀ a, t.alarms[p.2]? = some a → a.isRunning = false) :
    t.stopAll posts = (0, t) := by
  induction posts with
  | nil => rfl
  | cons post posts ih =>
      obtain ⟨id, n⟩ := post
      simp only [stopAll]
      rw [cancelAlarm_of_stopped (h (id, n) List.mem_cons_self)]
      exact ih fun p hp => h p (List.mem_cons_of_mem _ hp)

end Timetable

end Almanac
