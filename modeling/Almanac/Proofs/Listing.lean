import Almanac.Proofs.Grants
import Almanac.Proofs.Stopping
import Almanac.Web.Router

/-!
# Listing entries

What `list` returns is an ordered map from ids to descriptions: a create puts its entry at the end,
an update changes it in its place, a remove takes it out, and nothing else moves anything. Each act
is about one id at most, and leaves what is seen of all others as it was.
-/

namespace Almanac

namespace Roster

variable {r : Roster} {e : Entry} {id : Nat}

theorem mem_modify_of_ne {f : Entry → Entry} {other : Nat} (hf : ∀ e, (f e).id = e.id)
    (hid : e.id = id) (hother : other ≠ id) :
    e ∈ (r.modify other f).entries ↔ e ∈ r.entries := by
  rw [mem_entries_modify]
  constructor
  · rintro ⟨x, hx, hxe⟩
    split at hxe
    · next hsame =>
        rw [← hxe, hf, hsame] at hid
        exact absurd hid hother
    · rw [← hxe]
      exact hx
  · intro he
    refine ⟨e, he, if_neg ?_⟩
    rw [hid]
    exact Ne.symm hother

theorem mem_released_of_ne {other handle : Nat} (hid : e.id = id) (hother : other ≠ id) :
    e ∈ (r.released other handle).entries ↔ e ∈ r.entries := by
  simp only [released]
  split
  · next hrelease =>
      rcases release_ok hrelease with rfl | rfl
      · rfl
      · exact mem_modify_of_ne (fun _ => rfl) hid hother
  · rfl

end Roster

namespace Timetable

variable {t u : Timetable} {id i n : Nat} {e : Entry} {v : Vigil} {a : Alarm}

theorem viewOf_of_alarmOf? (h : u.alarmOf? e.id = t.alarmOf? e.id) : u.viewOf e = t.viewOf e := by
  simp only [viewOf]
  rw [h]

theorem viewOf_task (t : Timetable) (e : Entry) : (t.viewOf e).task = e.task.view := by
  simp only [viewOf]
  split <;> rfl

/-- An alarm is seen through the post of its id. -/
theorem Posted.alarmOf?_congr (ht : t.Posted) (hu : u.Posted)
    (posts : ∀ n, (id, n) ∈ u.posts ↔ (id, n) ∈ t.posts)
    (alarms : ∀ n, (id, n) ∈ t.posts → u.alarms[n]? = t.alarms[n]?) :
    u.alarmOf? id = t.alarmOf? id := by
  have hpost : u.post? id = t.post? id := by
    apply Option.ext
    intro n
    rw [ht.post?_eq_some_iff, hu.post?_eq_some_iff]
    exact posts n
  simp only [alarmOf?]
  rw [hpost]
  cases hn : t.post? id with
  | none => rfl
  | some n => exact alarms n (ht.post?_eq_some_iff.mp hn)

theorem get_of_not_spoiled (sound : t.roster.isSpoiled = false) (id : Nat) :
    t.get id = match t.roster.entries.find? fun e => e.id == id with
      | some e => .ok (t.viewOf e)
      | none => .error (.roster (.notFound id)) := by
  simp only [get, entryOf]
  rw [Roster.byId_of_not_spoiled sound]
  cases t.roster.entries.find? fun e => e.id == id <;> rfl

/-- What is seen of an id is its entry and the alarm of its post. -/
theorem Posted.get_congr (ht : t.Posted) (hu : u.Posted) (sound : t.roster.isSpoiled = false)
    (sound' : u.roster.isSpoiled = false)
    (entries : ∀ e : Entry, e.id = id → (e ∈ u.roster.entries ↔ e ∈ t.roster.entries))
    (alarm : u.alarmOf? id = t.alarmOf? id) :
    u.get id = t.get id ∧ u.statusOf? id = t.statusOf? id := by
  have hfind : u.roster.entries.find? (fun e => e.id == id) =
      t.roster.entries.find? (fun e => e.id == id) := by
    apply Option.ext
    intro e
    rw [Roster.find?_eq_some_iff ht.nodup, Roster.find?_eq_some_iff hu.nodup]
    exact and_congr_left fun hid => entries e hid
  constructor
  · rw [get_of_not_spoiled sound, get_of_not_spoiled sound', hfind]
    split
    · next e he =>
        have hid : e.id = id := by simpa using List.find?_some he
        rw [viewOf_of_alarmOf?]
        rw [hid]
        exact alarm
    · rfl
  · simp only [statusOf?]
    rw [alarm]

/-- Holds of the id that an act is about: that of the entry that it creates, changes or removes, or
of the alarm or the watcher that it moves. -/
def Concerns (t : Timetable) (id : Nat) : Act → Prop
  | .create task plan => ∃ view, (t.create task plan).1 = .ok view ∧ view.id = id
  | .update other _ => other = id
  | .remove other => other = id
  | .poll i => ∃ v a, t.vigils[i]? = some v ∧ t.alarms[v.alarm]? = some a ∧ a.entry = id
  | .pollWatcher j => ∃ w, t.watchers[j]? = some w ∧ w.entry = id
  | .shutdown => True
  | _ => False

/-- The moves of a vigil leave all alarms alone but its own. -/
theorem Core.Moves.alarm_of_ne {c d : Core} (hmoves : Core.Moves i c d)
    (hne : ∀ v, c.vigils[i]? = some v → v.alarm ≠ n) : d.alarms[n]? = c.alarms[n]? := by
  induction hmoves using Relation.ReflTransGen.head_induction_on with
  | refl => rfl
  | head hmove _ ih =>
      obtain ⟨hv, ha, goes⟩ := hmove
      rw [ih ?_]
      · dsimp only
        rw [Places.getElem?_set ha, if_neg (hne _ hv)]
      · intro w hw
        dsimp only at hw
        rw [Places.getElem?_set_self hv] at hw
        cases hw
        rw [goes.same.1]
        exact hne _ hv

/-- An act leaves all alarms alone that it is not about. -/
theorem Agrees.alarmOf?_act (h : t.Agrees) {act : Act} (hact : act.isDirect = false)
    (hother : ¬ t.Concerns id act) : (t.act act).alarmOf? id = t.alarmOf? id := by
  have houtcome := h.outcome hact
  have hagrees := h.act hact
  generalize t.act act = u at houtcome hagrees
  have hseen : ∀ {l : Ledger}, u.ledger = l → (∀ n, (id, n) ∈ l.posts ↔ (id, n) ∈ t.posts) →
      (∀ n, (id, n) ∈ t.posts → u.alarms[n]? = t.alarms[n]?) →
      u.alarmOf? id = t.alarmOf? id := by
    rintro l rfl posts alarms
    exact h.alarmOf?_congr hagrees.toPosted posts alarms
  have halarms : u.core = t.core → ∀ n, (id, n) ∈ t.posts → u.alarms[n]? = t.alarms[n]? := by
    intro core n _
    have hsame : u.alarms = t.alarms := congrArg Core.alarms core
    rw [hsame]
  cases houtcome with
  | idle core ledger failed => exact hseen ledger (fun _ => Iff.rfl) (halarms core)
  | broken core ledger cause entries spoiled failed =>
      exact hseen ledger (fun _ => Iff.rfl) (halarms core)
  | polled i moves ledger =>
      refine hseen ledger (fun _ => Iff.rfl) ?_
      intro n hmem
      refine Core.Moves.alarm_of_ne (c := t.core) moves ?_
      rintro v hv rfl
      obtain ⟨a, ha, hid⟩ := h.alarm hmem
      exact hother ⟨v, a, hv, ha, hid⟩
  | watched watcher waiting vigil closed core ledger =>
      exact hseen ledger (fun _ => Iff.rfl) (halarms core)
  | @created task plan new b journal policy same handle isSound drawn started result =>
      have hne : new.id ≠ id := fun hid => hother ⟨_, result, (viewOf_id _ _).trans hid⟩
      refine hseen rfl ?_ ?_
      · intro n
        dsimp only [Timetable.ledger, Timetable.created]
        rw [List.mem_append, List.mem_singleton, Prod.mk.injEq]
        exact or_iff_left fun hsame => hne hsame.1.symm
      · intro n hmem
        obtain ⟨a, ha, _⟩ := h.alarm hmem
        rw [ha]
        exact Places.getElem?_append ha _
  | @updated other m plan x a y b post found alarm replanned started result =>
      have hne : other ≠ id := hother
      refine hseen rfl (fun _ => Iff.rfl) ?_
      -- no alarm has the posts of two ids
      intro n hmem
      dsimp only [Timetable.updated]
      rw [Places.getElem?_set alarm, if_neg]
      rintro rfl
      exact hne (h.id_eq_of_post hmem post)
  | @removed other m a post alarm result =>
      have hne : other ≠ id := hother
      refine hseen rfl ?_ ?_
      · intro n
        dsimp only [Timetable.ledger, Timetable.removed]
        rw [List.mem_filter]
        refine and_iff_left ?_
        simpa using Ne.symm hne
      · intro n hmem
        dsimp only [Timetable.removed]
        rw [Places.getElem?_set alarm, if_neg]
        rintro rfl
        exact hne (h.id_eq_of_post hmem post)
  | stopped alarms deeds deeds_cancelled stops => exact absurd trivial hother

/-- An act leaves all entries alone that it is not about. -/
theorem Outcome.mem_entries {act : Act} (h : t.Outcome act u) (hother : ¬ t.Concerns id act)
    (hid : e.id = id) : e ∈ u.roster.entries ↔ e ∈ t.roster.entries := by
  have hseen : ∀ {l : Ledger}, u.ledger = l →
      (e ∈ l.roster.entries ↔ e ∈ t.roster.entries) →
      (e ∈ u.roster.entries ↔ e ∈ t.roster.entries) := by
    rintro l rfl hentries
    exact hentries
  cases h with
  | idle core ledger failed => exact hseen ledger Iff.rfl
  | broken core ledger cause entries spoiled failed => exact hseen ledger (by rw [entries])
  | polled i moves ledger => exact hseen ledger Iff.rfl
  | @watched _ j w v watcher waiting vigil closed core ledger =>
      refine hseen ledger ?_
      dsimp only
      split
      · exact Roster.mem_released_of_ne hid fun hsame => hother ⟨w, watcher, hsame⟩
      · rfl
  | @created task plan new b journal policy same handle isSound drawn started result =>
      dsimp only [Timetable.created]
      rw [List.mem_append, List.mem_singleton]
      refine or_iff_left ?_
      rintro rfl
      exact hother ⟨_, result, (viewOf_id _ _).trans hid⟩
  | updated post found alarm replanned started result =>
      exact Roster.mem_modify_of_ne (fun _ => rfl) hid hother
  | removed post alarm result =>
      dsimp only [Timetable.removed]
      rw [List.mem_filter]
      refine and_iff_left ?_
      rw [hid]
      simpa using Ne.symm hother
  | stopped alarms deeds deeds_cancelled stops => exact absurd trivial hother

/-- What an act is not about is seen as before. -/
theorem Agrees.frame (h : t.Agrees) {act : Act} (hact : act.isDirect = false)
    (hother : ¬ t.Concerns id act) (sound : (t.act act).roster.isSpoiled = false) :
    (t.act act).get id = t.get id ∧ (t.act act).statusOf? id = t.statusOf? id := by
  have houtcome := h.outcome hact
  exact h.get_congr (h.act hact).toPosted (houtcome.sound sound) sound
    (fun _ hid => houtcome.mem_entries hother hid) (h.alarmOf?_act hact hother)

/-- What an act makes of the ids and the tasks that are listed: a create that succeeds adds the id
of its answer and its task at the end, and a remove that succeeds takes its id out. -/
def booked (t : Timetable) (book : List (Nat × TaskView)) : Act → List (Nat × TaskView)
  | .create task plan =>
    match (t.create task plan).1 with
    | .ok view => book ++ [(view.id, task.view)]
    | .error _ => book
  | .remove id =>
    match (t.remove id).1 with
    | .ok _ => book.filter fun p => p.1 != id
    | .error _ => book
  | _ => book

/-- What a history makes of them. -/
def bookOf (t : Timetable) (book : List (Nat × TaskView)) : List Act → List (Nat × TaskView)
  | [] => book
  | act :: acts => (t.act act).bookOf (t.booked book act) acts

def book (t : Timetable) : List (Nat × TaskView) :=
  t.roster.entries.map fun e => (e.id, e.task.view)

theorem booked_of_failed {act : Act} (h : t.succeeds act = false)
    (book : List (Nat × TaskView)) : t.booked book act = book := by
  cases act with
  | create task plan =>
      obtain ⟨cause, hcause⟩ := exists_error_of_not_isOk h
      simp only [booked]
      rw [hcause]
  | remove id =>
      obtain ⟨cause, hcause⟩ := exists_error_of_not_isOk h
      simp only [booked]
      rw [hcause]
  | _ => rfl

theorem Outcome.book {act : Act} (h : t.Outcome act u) : u.book = t.booked t.book act := by
  have hsame : ∀ {l : Ledger}, u.ledger = l → t.succeeds act = false →
      l.roster.entries = t.roster.entries → u.book = t.booked t.book act := by
    rintro l rfl failed hentries
    rw [booked_of_failed failed]
    exact congrArg (fun entries => entries.map fun e => (e.id, e.task.view)) hentries
  cases h with
  | idle core ledger failed => exact hsame ledger failed rfl
  | broken core ledger cause entries spoiled failed => exact hsame ledger failed entries
  | polled i moves ledger => exact hsame ledger rfl rfl
  | @watched _ j w v watcher waiting vigil closed core ledger =>
      have hroster : u.roster = _ := congrArg Ledger.roster ledger
      rw [booked_of_failed rfl, Timetable.book, Timetable.book, hroster]
      dsimp only
      split
      · obtain ⟨f, hentries⟩ := entries_released t.roster w.entry w.handle
        rw [hentries, List.map_map]
        rfl
      · rfl
  | created journal policy same handle isSound drawn started result =>
      rw [booked, result]
      dsimp only
      rw [viewOf_id, ← same]
      exact List.map_append
  | @updated id m plan x a y b post found alarm replanned started result =>
      change (t.updated id m a.isRunning b).book = t.book
      simp only [Timetable.book, Timetable.updated, Roster.modify]
      rw [List.map_map]
      apply List.map_congr_left
      intro e _
      dsimp only [Function.comp]
      split <;> rfl
  | removed post alarm result =>
      rw [booked, result]
      dsimp only
      simp only [Timetable.book, Timetable.removed, List.filter_map]
      rfl
  | stopped alarms deeds deeds_cancelled stops => rfl

/-- Ids and tasks are listed as creates and removes have booked them. -/
theorem Agrees.book_run (h : t.Agrees) {acts : List Act}
    (hacts : ∀ act ∈ acts, act.isDirect = false) : (t.run acts).book = t.bookOf t.book acts := by
  induction acts generalizing t with
  | nil => rfl
  | cons act acts ih =>
      obtain ⟨hact, hacts⟩ := List.forall_mem_cons.mp hacts
      rw [run_cons, ih (h.act hact) hacts, bookOf, (h.outcome hact).book]

/-- A create answers with an id that was drawn for it. -/
theorem Posted.drawn_of_create (h : t.Posted) {task : Task} {plan : Plan} {view : EntryView}
    (hok : (t.create task plan).1 = .ok view) :
    (t.roster.source.draw t.roster.ids).id = some view.id := by
  rcases h.create_cases task plan with
    ⟨cause, _, hcreate⟩ | ⟨cause, roster, journal, _, _, _, hcreate⟩ |
    ⟨e, b, journal, _, _, _, _, hdrawn, _, hcreate⟩
  · rw [hcreate] at hok
    cases hok
  · rw [hcreate] at hok
    cases hok
  · rw [hcreate] at hok
    cases hok
    rw [viewOf_id]
    exact hdrawn

/-- The id 0 is never booked. -/
theorem Posted.booked_ne_zero (h : t.Posted) {book : List (Nat × TaskView)}
    (hbook : ∀ p ∈ book, p.1 ≠ 0) (act : Act) : ∀ p ∈ t.booked book act, p.1 ≠ 0 := by
  intro p hp
  cases act with
  | create task plan =>
      simp only [booked] at hp
      split at hp
      · next view hview =>
          rcases List.mem_append.mp hp with hold | hnew
          · exact hbook p hold
          · rw [List.mem_singleton.mp hnew]
            exact (IdSource.draw_fresh (h.drawn_of_create hview)).1
      · exact hbook p hp
  | remove id =>
      simp only [booked] at hp
      split at hp
      · exact hbook p (List.mem_of_mem_filter hp)
      · exact hbook p hp
  | _ => exact hbook p hp

theorem Agrees.bookOf_ne_zero (h : t.Agrees) {book : List (Nat × TaskView)}
    (hbook : ∀ p ∈ book, p.1 ≠ 0) {acts : List Act}
    (hacts : ∀ act ∈ acts, act.isDirect = false) : ∀ p ∈ t.bookOf book acts, p.1 ≠ 0 := by
  induction acts generalizing t book with
  | nil => exact hbook
  | cons act acts ih =>
      obtain ⟨hact, hacts⟩ := List.forall_mem_cons.mp hacts
      exact ih (h.act hact) (h.booked_ne_zero hbook act) hacts

/-- Holds where requests show these descriptions, in this order, and no others. -/
structure Shows (t : Timetable) (views : List EntryView) : Prop where
  list : t.list = .ok views
  size : t.size = .ok views.length
  health : Web.showHealth t = .data 200 (Json.ofMembers [("status", .string "ok"),
    ("version", .string Web.version), ("entries", .nat views.length)])
  nodup : (views.map EntryView.id).Nodup
  ne_zero : ∀ v ∈ views, v.id ≠ 0
  get : ∀ v ∈ views, t.get v.id = .ok v
  missing : ∀ id, id ∉ views.map EntryView.id → t.get id = .error (.roster (.notFound id))

theorem id_viewOf (t : Timetable) : EntryView.id ∘ t.viewOf = Entry.id :=
  funext fun e => t.viewOf_id e

/-- The descriptions of the entries are what is shown. -/
theorem Posted.shows (h : t.Posted) (sound : t.roster.isSpoiled = false)
    (hzero : ∀ p ∈ t.book, p.1 ≠ 0) : t.Shows (t.roster.entries.map t.viewOf) := by
  have hids : (t.roster.entries.map t.viewOf).map EntryView.id = t.roster.ids := by
    rw [List.map_map, id_viewOf]
    rfl
  have hsize : t.size = .ok (t.roster.entries.map t.viewOf).length := by
    simp only [Timetable.size, Roster.size, Roster.sound]
    rw [sound, List.length_map]
    rfl
  refine ⟨?_, hsize, ?_, ?_, ?_, ?_, ?_⟩
  · simp only [Timetable.list, Roster.all, Roster.sound]
    rw [sound]
    rfl
  · rw [Web.showHealth, hsize]
    rfl
  · rw [hids]
    exact h.nodup
  · intro v hv
    obtain ⟨e, he, rfl⟩ := List.mem_map.mp hv
    rw [viewOf_id]
    exact hzero _ (List.mem_map_of_mem he)
  · intro v hv
    obtain ⟨e, he, rfl⟩ := List.mem_map.mp hv
    rw [viewOf_id, get_of_not_spoiled sound, (Roster.find?_eq_some_iff h.nodup).mpr ⟨he, rfl⟩]
  · intro id hid
    rw [hids] at hid
    have hfound := Roster.byId_of_missing sound hid
    simp only [Timetable.get, entryOf]
    rw [hfound]
    rfl

theorem Agrees.viewOf_act (h : t.Agrees) {act : Act} (hact : act.isDirect = false)
    (hu : t.act act = u) (hother : ¬ t.Concerns e.id act) : u.viewOf e = t.viewOf e := by
  subst hu
  exact viewOf_of_alarmOf? (h.alarmOf?_act hact hother)

theorem Posted.statusOf?_of_start (h : t.Posted) (hpost : (id, n) ∈ t.posts) {b : Alarm}
    (hb : t.alarms[n]? = some b) (hstart : a.start = .ok b) :
    t.statusOf? id = some .running := by
  obtain ⟨_, rfl⟩ := Alarm.start_ok hstart
  simp only [statusOf?, alarmOf?]
  rw [h.post?_eq_some_iff.mpr hpost]
  change t.alarms[n]?.map Alarm.status = _
  rw [hb]
  rfl

theorem Agrees.shows_act (h : t.Agrees) (hzero : ∀ p ∈ t.book, p.1 ≠ 0) {act : Act}
    (hact : act.isDirect = false) (hu : t.act act = u) (sound : u.roster.isSpoiled = false) :
    u.Shows (u.roster.entries.map u.viewOf) := by
  subst hu
  refine (h.act hact).toPosted.shows sound ?_
  rw [(h.outcome hact).book]
  exact h.booked_ne_zero hzero act

/-- A create puts its description at the end. -/
theorem Agrees.create_shows (h : t.Agrees) (hzero : ∀ p ∈ t.book, p.1 ≠ 0) {task : Task}
    {plan : Plan} {view : EntryView} (hok : (t.create task plan).1 = .ok view) :
    let u := (t.create task plan).2
    u.Shows (t.roster.entries.map t.viewOf ++ [view]) ∧ u.statusOf? view.id = some .running := by
  have hfree := (IdSource.draw_fresh (h.drawn_of_create hok)).2
  have hothers : ∀ e ∈ t.roster.entries, (t.create task plan).2.viewOf e = t.viewOf e := by
    intro e he
    -- the id that was drawn is not that of an entry
    have hother : ¬ t.Concerns e.id (.create task plan) := by
      rintro ⟨other, hother, hid⟩
      rw [hok] at hother
      cases hother
      exact hfree (hid ▸ List.mem_map_of_mem he)
    exact h.viewOf_act rfl rfl hother
  have hagrees : (t.act (.create task plan)).Agrees := h.act rfl
  have hagrees : (t.create task plan).2.Agrees := hagrees
  rcases h.create_cases task plan with
    ⟨cause, _, hcreate⟩ | ⟨cause, roster, journal, _, _, _, hcreate⟩ |
    ⟨e, b, journal, _, _, _, _, _, hstart, hcreate⟩
  · rw [hcreate] at hok
    cases hok
  · rw [hcreate] at hok
    cases hok
  · have hact : t.act (.create task plan) = _ := congrArg Prod.snd hcreate
    rw [hcreate] at hok hothers hagrees ⊢
    cases hok
    intro u
    have hviews : u.roster.entries.map u.viewOf =
        t.roster.entries.map t.viewOf ++ [u.viewOf e] := by
      rw [← List.map_congr_left hothers]
      exact List.map_append
    refine ⟨hviews ▸ h.shows_act hzero rfl hact rfl, ?_⟩
    rw [viewOf_id]
    exact hagrees.statusOf?_of_start (List.mem_append_right _ (List.mem_singleton.mpr rfl))
      (Places.getElem?_last _ _) hstart

/-- An update changes one description in its place. -/
theorem Agrees.update_shows (h : t.Agrees) (hzero : ∀ p ∈ t.book, p.1 ≠ 0) {plan : Plan}
    {view : EntryView} (hok : (t.update id plan).1 = .ok view) :
    let u := (t.update id plan).2
    view.id = id ∧ id ∈ t.roster.ids ∧
      u.Shows ((t.roster.entries.map t.viewOf).map fun v => if v.id = id then view else v) ∧
      u.statusOf? id = some .running := by
  have hagrees : (t.act (.update id plan)).Agrees := h.act rfl
  have hagrees : (t.update id plan).2.Agrees := hagrees
  rcases h.update_cases id plan with
    ⟨cause, hupdate⟩ | ⟨n, e, a, x, b, hpost, hfound, ha, _, hstart, hupdate⟩
  · rw [hupdate] at hok
    cases hok
  · have hact : t.act (.update id plan) = _ := congrArg Prod.snd hupdate
    obtain ⟨he, hid⟩ := Roster.byId_some hfound
    obtain ⟨hsound, _⟩ := Roster.byId_ok hfound
    rw [hupdate] at hok hagrees ⊢
    cases hok
    intro u
    have hviews : u.roster.entries.map u.viewOf =
        (t.roster.entries.map t.viewOf).map fun v => if v.id = id then u.viewOf
          { e with due := b.due, period := b.period, handle := some t.nextHandle } else v := by
      dsimp only [u, Timetable.updated, Roster.modify]
      rw [List.map_map, List.map_map]
      apply List.map_congr_left
      intro y hy
      dsimp only [Function.comp]
      rw [viewOf_id]
      by_cases hyid : y.id = id
      · rw [if_pos hyid, if_pos hyid, List.inj_on_of_nodup_map h.nodup hy he (hyid.trans hid.symm)]
      · rw [if_neg hyid, if_neg hyid]
        exact h.viewOf_act rfl hact (Ne.symm hyid)
    refine ⟨(viewOf_id _ _).trans hid, hid ▸ List.mem_map_of_mem he,
      hviews ▸ h.shows_act hzero rfl hact hsound, ?_⟩
    exact hagrees.statusOf?_of_start hpost (Places.getElem?_set_self ha b) hstart

/-- A remove takes one description out. -/
theorem Agrees.remove_shows (h : t.Agrees) (hzero : ∀ p ∈ t.book, p.1 ≠ 0)
    (sound : t.roster.isSpoiled = false) (hok : (t.remove id).1 = .ok ()) :
    (t.remove id).2.Shows ((t.roster.entries.map t.viewOf).filter fun v => v.id != id) := by
  rcases h.remove_cases id with ⟨cause, hremove⟩ | ⟨n, a, _, _, hremove⟩
  · rw [hremove] at hok
    cases hok
  · have hact : t.act (.remove id) = _ := congrArg Prod.snd hremove
    rw [hremove]
    have hids : ((fun v : EntryView => v.id != id) ∘ t.viewOf) = fun e : Entry => e.id != id := by
      funext e
      dsimp only [Function.comp]
      rw [viewOf_id]
    have hviews : (t.removed id n a).roster.entries.map (t.removed id n a).viewOf =
        (t.roster.entries.map t.viewOf).filter fun v => v.id != id := by
      rw [List.filter_map, hids]
      apply List.map_congr_left
      intro e he
      refine h.viewOf_act rfl hact (Ne.symm ?_)
      simpa using (List.mem_filter.mp he).2
    exact hviews ▸ h.shows_act hzero rfl hact sound

/-- A shutdown shows what it showed before. -/
theorem Agrees.shutdown_shows (h : t.Agrees) (hzero : ∀ p ∈ t.book, p.1 ≠ 0)
    (sound : t.roster.isSpoiled = false) :
    t.shutdown.2.Shows (t.roster.entries.map t.viewOf) := by
  obtain ⟨hroster, _, _, _, hlist, _⟩ := t.shutdown_keeps
  have hsound : t.shutdown.2.roster.isSpoiled = false := by rw [hroster, sound]
  have hact : t.act .shutdown = t.shutdown.2 := rfl
  have hshows := h.shows_act hzero rfl hact hsound
  have hsame := hlist.symm.trans hshows.list
  rw [(h.shows sound hzero).list] at hsame
  rw [Except.ok.inj hsame]
  exact hshows

/-- In every history of requests, polls and time that has not spoiled the roster, requests show
an ordered map. It lists the ids and tasks of the creates that have succeeded and were not
removed, in the order of the creates, no id twice and none of them 0; what is read of an id is what
is listed for it; and the size is the length of the list. A create puts its answer at the end, an
update puts its answer in place of what was there, and a remove takes one description out; the
answers are what is read next, of an alarm that runs. A shutdown shows what was shown before. And
whatever an act is not about is seen as before, its alarm included. -/
theorem listing_ordered (start : Instant) (source : IdSource) (replies : List RestartReply)
    (acts : List Act) (hacts : ∀ act ∈ acts, act.isDirect = false)
    (sound : ((opening start source replies).run acts).roster.isSpoiled = false) :
    let t := (opening start source replies).run acts
    ∃ views, t.Shows views ∧
      views.map (fun v => (v.id, v.task)) = (opening start source replies).bookOf [] acts ∧
      (∀ task plan view, (t.create task plan).1 = .ok view →
        let u := (t.create task plan).2
        u.Shows (views ++ [view]) ∧ u.get view.id = .ok view ∧
          u.statusOf? view.id = some .running) ∧
      (∀ id plan view, (t.update id plan).1 = .ok view →
        let u := (t.update id plan).2
        view.id = id ∧ u.Shows (views.map fun v => if v.id = id then view else v) ∧
          u.get id = .ok view ∧ u.statusOf? id = some .running) ∧
      (∀ id, (t.remove id).1 = .ok () →
        (t.remove id).2.Shows (views.filter fun v => v.id != id)) ∧
      t.shutdown.2.Shows views ∧
      ∀ act id, act.isDirect = false → ¬ t.Concerns id act →
        (t.act act).roster.isSpoiled = false →
        (t.act act).get id = t.get id ∧ (t.act act).statusOf? id = t.statusOf? id := by
  intro t
  have hopening := agrees_opening start source replies
  have hagrees : t.Agrees := hopening.run hacts
  have hbook : t.book = (opening start source replies).bookOf [] acts := hopening.book_run hacts
  have hzero : ∀ p ∈ t.book, p.1 ≠ 0 := by
    rw [hbook]
    exact hopening.bookOf_ne_zero (by simp) hacts
  refine ⟨t.roster.entries.map t.viewOf, hagrees.shows sound hzero, ?_, ?_, ?_, ?_, ?_, ?_⟩
  · rw [← hbook, List.map_map]
    apply List.map_congr_left
    intro e _
    dsimp only [Function.comp]
    rw [viewOf_id, viewOf_task]
  · intro task plan view hok u
    obtain ⟨hshows, hrunning⟩ := hagrees.create_shows hzero hok
    exact ⟨hshows, hshows.get view (by simp), hrunning⟩
  · intro id plan view hok u
    obtain ⟨hid, hmem, hshows, hrunning⟩ := hagrees.update_shows hzero hok
    obtain ⟨e, he, heid⟩ := List.mem_map.mp hmem
    have hlisted : view ∈ (t.roster.entries.map t.viewOf).map
        fun v => if v.id = id then view else v := by
      refine List.mem_map.mpr ⟨t.viewOf e, List.mem_map_of_mem he, if_pos ?_⟩
      rw [viewOf_id, heid]
    exact ⟨hid, hshows, hid ▸ hshows.get view hlisted, hrunning⟩
  · intro id hok
    exact hagrees.remove_shows hzero sound hok
  · exact hagrees.shutdown_shows hzero sound
  · intro act id hact hother hsound
    exact hagrees.frame hact hother hsound

/-- An id that is taken out and drawn again goes to the end, and an update of another entry leaves
it alone. -/
theorem listing_ordered_of_reuse :
    let t := (opening .epoch ⟨[some 7, some 9, some 7], 1001⟩ []).run
      [.create (.pause .zero) .once, .create (.pause .zero) .once, .remove 7,
        .create (.pause .zero) .once]
    (∃ views, t.list = .ok views ∧ views.map EntryView.id = [9, 7]) ∧
      (t.act (.update 9 .once)).get 7 = t.get 7 := by
  intro t
  obtain ⟨views, hshows, hbook, _, _, _, _, hframe⟩ :=
    listing_ordered .epoch ⟨[some 7, some 9, some 7], 1001⟩ []
      [.create (.pause .zero) .once, .create (.pause .zero) .once, .remove 7,
        .create (.pause .zero) .once] (by simp [Act.isDirect]) (by decide +kernel)
  refine ⟨⟨views, hshows.list, ?_⟩, ?_⟩
  · have hids := congrArg (List.map Prod.fst) hbook
    rw [List.map_map] at hids
    exact hids
  · exact (hframe (.update 9 .once) 7 rfl (by simp [Concerns]) (by decide +kernel)).1

end Timetable

end Almanac
