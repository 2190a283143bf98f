import Almanac.Proofs.Answers
import Almanac.Proofs.Descriptions
import Almanac.Proofs.Ensuing
import Almanac.Proofs.InstantTexts

/-!
# Putting back what was read

The description of an entry, as a request for a change, asks for the policy that the entry has. The
request is taken as long as the time in it has not passed. It sets the alarm to the time and the
period that it had, and changes no more than a handle and what goes with it.
-/

namespace Almanac

namespace EntryView

variable {v : EntryView}

def members (v : EntryView) : List (String × Json) :=
  [("id", .nat v.id), ("next_fire_time", .string v.due.iso), ("frequency", .string v.period),
    ("entry_handle", Json.ofOption Json.nat v.handle), ("task", .object v.task.members)]

/-- Holds of the descriptions whose numbers have 64 bits at most. -/
structure Fits (v : EntryView) : Prop where
  id : v.id < 2 ^ 64
  handle : ∀ handle, v.handle = some handle → handle < 2 ^ 64
  task : ∀ token build, v.task = .restart token build → build < 2 ^ 64

/-- The JSON form, with the members in their places. -/
theorem json_eq (v : EntryView) : v.json = .object
    [("entry_handle", Json.ofOption Json.nat v.handle), ("frequency", .string v.period),
      ("id", .nat v.id), ("next_fire_time", .string v.due.iso), ("task", v.task.json)] := by
  have hfirst : "entry_handle" < "frequency" := by decide +kernel
  have hsecond : "frequency" < "id" := by decide +kernel
  have hthird : ¬"next_fire_time" < "id" := by decide +kernel
  have hlast : ¬"task" < "entry_handle" ∧ ¬"task" < "frequency" ∧ ¬"task" < "id" ∧
      ¬"task" < "next_fire_time" := by decide +kernel
  simp [json, Json.ofMembers, Json.placed, Json.putMember, hfirst, hsecond, hthird, hlast]

theorem sorted_members (v : EntryView) : (Json.object v.members).sorted = v.json := by
  have hhandle : (Json.ofOption Json.nat v.handle).sorted = Json.ofOption Json.nat v.handle := by
    cases v.handle <;> rfl
  have htask : (Json.object v.task.members).sorted = v.task.json := by
    cases v.task <;> rfl
  simp only [members, Json.sorted, Json.sortedMembers, Json.nat, hhandle] at htask ⊢
  rw [htask]
  rfl

/-- The compact form of a description is read as the description. -/
theorem readOctets_members (h : v.Fits) :
    Json.readOctets (Text.encode (Json.object v.members).text) = .ok v.json := by
  have hhandle : (Json.ofOption Json.nat v.handle).IsExact 126 := by
    cases hv : v.handle with
    | none => trivial
    | some n => exact Json.isExact_nat (h.handle n hv) 126
  have htask : (Json.object v.task.members).IsExact 126 := by
    cases hv : v.task with
    | restart token build =>
      exact ⟨by decide, trivial, trivial, Json.isExact_nat (h.task token build hv) 125, trivial⟩
    | fetch url => exact ⟨by decide, trivial, trivial, trivial⟩
    | pause length => exact ⟨by decide, trivial, trivial, trivial⟩
  have hexact : (Json.object v.members).IsExact JsonReader.depthLimit :=
    ⟨by decide, Json.isExact_nat h.id 126, trivial, trivial, hhandle, htask, trivial⟩
  rw [Json.readOctets_text hexact, v.sorted_members]

theorem asInstant_iso (t : Instant) : Json.asInstant (.string t.iso) = .ok t := by
  rw [Json.asInstant, Instant.iso, String.toList_ofList, Instant.ofLooseIso_isoText]

/-- A description asks for its own time and its own period. -/
theorem ofJson_json (v : EntryView) :
    PlanRequest.ofJson v.json = .ok { first := some v.due, period := some v.period } := by
  have hdue := asInstant_iso v.due
  have htake (r : PlanRequest) : r.take ("next_fire_time", .string v.due.iso) =
      .ok { r with first := some v.due } := by
    simp only [PlanRequest.take, Json.asOptional, hdue]
    rfl
  have hpass (r : PlanRequest) {name : String} (value : Json)
      (hname : name = "entry_handle" ∨ name = "id" ∨ name = "task") :
      r.take (name, value) = .ok r := by
    rcases hname with rfl | rfl | rfl <;> rfl
  have hperiod (r : PlanRequest) : r.take ("frequency", .string v.period) =
      .ok { r with period := some v.period } := rfl
  rw [json_eq]
  simp only [PlanRequest.ofJson, List.foldlM_cons, List.foldlM_nil, bind, Except.bind, hpass,
    hperiod, htake, true_or, or_true]
  rfl

end EntryView

namespace Web

variable {t : Timetable} {credentials : Option (String × String)} {r : Request} {raw : List Char}
  {id : Nat} {view : EntryView}

/-- A description asks for the plan that it describes. -/
theorem asks_json {period : Span} (hperiod : view.period = period.words) (now : Instant) :
    Asks view.json now ⟨some view.due, period⟩ := by
  refine ⟨_, view.ofJson_json, ?_⟩
  simp only [PlanRequest.resolve]
  rw [hperiod, if_neg period.words_not_blank, periodOfText_words]
  rfl

theorem handle_get [Locators] {name : List Char} (hroute : Route.ofPath? r.path = some (.entry raw))
    (hdecode : Text.decode? (Text.percentDecode raw) = some name)
    (hadmitted : judge credentials r = .admitted) (hget : r.method = "GET") :
    handle credentials t r = conclude t (showEntry t name) := by
  rw [handle_of_admitted hroute hadmitted (by simp [hget, Route.methods]) (by simp [hget])]
  simp only [dispatch, handleEntry, hdecode, hget]
  rfl

/-- An entry that is there is shown. -/
theorem conclude_showEntry {name : List Char} (hnames : Names name id)
    (hview : t.get id = .ok view) : conclude t (showEntry t name) = (.data 200 view.json, t) := by
  rw [showEntry, idOf_eq_ok_iff.mpr hnames]
  dsimp only
  rw [hview]
  rfl

/-- A description that is sent for a change is taken for the plan that it describes. -/
theorem conclude_changeEntry {name : List Char} {body : List UInt8} {period : Span}
    {answer : EntryView} {u : Timetable} (hnames : Names name id)
    (hbody : Json.readOctets body = .ok view.json) (hperiod : view.period = period.words)
    (hupdate : t.update id ⟨some view.due, period⟩ = (.ok answer, u)) :
    conclude (changeEntry t name body).2 (changeEntry t name body).1 =
      (.data 200 answer.json, u) := by
  have hplan : planOf view.json t.now = .ok ⟨some view.due, period⟩ :=
    planOf_eq_ok_iff.mpr (asks_json hperiod t.now)
  have hchange : changeOf name body t.now = .ok (id, ⟨some view.due, period⟩) := by
    rw [changeOf_of_names hnames ⟨hbody, rfl⟩, hplan]
    rfl
  simp only [changeEntry, hchange, hupdate]
  rfl

end Web

namespace Timetable

variable {t : Timetable} {id : Nat} {view : EntryView}

/-- The entry of an id goes on as it was, but under a new handle. -/
structure Resumes (t : Timetable) (id : Nat) (view : EntryView) (n : Nat) (a b : Alarm)
    (u : Timetable) : Prop where
  post : t.post? id = some n
  alarm : t.alarms[n]? = some a
  shown : view.due = a.due ∧ view.period = a.period.words ∧ view.task = a.task.view
  replanned : ∃ x, a.replan ⟨some view.due, a.period⟩ t.now = .ok x ∧ x.start = .ok b
  same : b.due = a.due ∧ b.period = a.period ∧ b.task = a.task ∧ b.entry = a.entry
  update : t.update id ⟨some view.due, a.period⟩ =
    (.ok { view with handle := some t.nextHandle }, u)
  state : u = t.updated id n a.isRunning b
  entries : u.roster.entries = t.roster.entries.map fun e =>
    if e.id = id then { e with due := view.due, handle := some t.nextHandle } else e

/-- What is shown of an entry is taken for its plan, unless its time has passed. -/
theorem Tidy.resumes (h : t.Tidy) (sound : t.roster.isSpoiled = false)
    (hget : t.get id = .ok view) (hdue : ¬view.due < t.now) :
    ∃ n a b u, t.Resumes id view n a b u := by
  obtain ⟨e, he, rfl, rfl⟩ := get_ok hget
  obtain ⟨n, a, htallies⟩ := h.agrees.tallies h.planned he
  have hview := htallies.viewOf_eq
  generalize t.viewOf e = view at *
  subst hview
  have hperiod := Checked.mem htallies.alarm h.checked
  have hpolicy : Entry.policyOf ⟨some a.due, a.period⟩ t.now = .ok (a.due, a.period) := by
    simp only [Entry.policyOf, firstFire, if_neg hdue]
    rw [hperiod]
    rfl
  have hreplan : a.replan ⟨some a.due, a.period⟩ t.now = .ok { a.stop.renew with
      due := a.due, period := a.period } := by
    simp only [Alarm.replan]
    rw [hpolicy]
  have hfound := Roster.byId_of_mem sound h.agrees.nodup he
  obtain ⟨b, hb, hupdate⟩ := update_of_replan htallies.post hfound htallies.alarm hreplan
  obtain ⟨hentry, htask, hbdue, hbperiod⟩ := Alarm.start_keeps hb
  obtain ⟨hentry', htask', -, -⟩ := a.stop_keeps
  have hdue' : b.due = a.due := hbdue
  have hperiod' : b.period = a.period := hbperiod
  let u := t.updated e.id n a.isRunning b
  let x : Entry := { e with due := b.due, period := b.period, handle := some t.nextHandle }
  have hshown : u.viewOf x = ⟨e.id, a.due, a.period.words, some t.nextHandle, a.task.view⟩ := by
    have hpost : u.post? x.id = some n := htallies.post
    have halarm : u.alarms[n]? = some b := Places.getElem?_set_self htallies.alarm b
    rw [viewOf_of_post hpost halarm, htallies.task, ← hdue', ← hperiod']
    rfl
  have hentries : u.roster.entries = t.roster.entries.map fun x =>
      if x.id = e.id then { x with due := a.due, handle := some t.nextHandle } else x := by
    refine List.map_congr_left fun x hx => ?_
    split
    · next hid =>
      obtain rfl := List.inj_on_of_nodup_map h.agrees.nodup hx he hid
      rw [hdue', hperiod', htallies.period]
    · rfl
  refine ⟨n, a, b, u, htallies.post, htallies.alarm, ⟨rfl, rfl, rfl⟩, ⟨_, hreplan, hb⟩,
    ⟨hdue', hperiod', htask.trans htask', hentry.trans hentry'⟩, ?_, rfl, hentries⟩
  rw [hupdate, hshown]

end Timetable

end Almanac
