import Almanac.Proofs.Gate
import Almanac.Proofs.Refusals

/-!
# Visits

Histories behind the gate: requests of any kind, milliseconds that pass, and polls. A request
either leaves the timetable as it was, but for a line in the log, or is answered with success and
is one act of the timetable. So what holds after every history of acts holds for every client.
-/

namespace Almanac.Web

/-- One thing that happens to a timetable that is served: a request, or what happens by itself. -/
inductive Visit where
  | request (r : Request)
  | pass (millis : Nat)
  | shiftClock (millis : Int)
  | poll (vigil : Nat)
  | pollWatcher (watcher : Nat)

def receive [Locators] (credentials : Option (String × String)) (t : Timetable) : Visit → Timetable
  | .request r => (handle credentials t r).2
  | .pass millis => t.act (.pass millis)
  | .shiftClock millis => t.act (.shiftClock millis)
  | .poll vigil => t.act (.poll vigil)
  | .pollWatcher watcher => t.act (.pollWatcher watcher)

def serve [Locators] (credentials : Option (String × String)) (t : Timetable)
    (visits : List Visit) : Timetable :=
  visits.foldl (receive credentials) t

end Almanac.Web

namespace Almanac.Timetable

variable {t : Timetable}

/-- A timetable whose parts agree and whose source of ids has no gap. -/
structure InOrder (t : Timetable) : Prop extends Agrees t where
  whole : t.roster.Whole

theorem inOrder_opening (start : Instant) {source : IdSource} (replies : List RestartReply)
    (hsource : none ∉ source.script) : (opening start source replies).InOrder where
  toAgrees := agrees_opening start source replies
  whole := ⟨rfl, hsource⟩

theorem InOrder.act (h : t.InOrder) (act : Act) (hact : act.isDirect = false) :
    (t.act act).InOrder where
  toAgrees := h.toAgrees.act hact
  whole := h.toPosted.whole_act h.whole hact

/-- Nothing depends on the journal. -/
theorem InOrder.withJournal (h : t.InOrder) (journal : List Happening) :
    { t with journal }.InOrder where
  toAgrees := h.toAgrees.congr rfl rfl rfl
  whole := h.whole

/-- A create fails for its plan, or sets the entry up. -/
theorem InOrder.create_result (h : t.InOrder) (task : Task) (plan : Plan) :
    (∃ e, plan.Refused t.now e ∧ t.create task plan = (Attempt.refuse (.plan e), t)) ∨
      (∀ e, ¬plan.Refused t.now e) ∧
        ∃ view, t.create task plan = (.ok view, t.act (.create task plan)) := by
  have herror (cause : Failure TimetableError) :
      ((t.create task plan).1 = .error cause ↔
        ∃ e, plan.Refused t.now e ∧ cause = .refused (.plan e)) ∧
      ((t.create task plan).1 = .error cause → (t.create task plan).2 = t) :=
    h.create_eq_error_iff h.whole
  cases hresult : (t.create task plan).1 with
  | error cause =>
    obtain ⟨e, hrefused, rfl⟩ := (herror cause).1.mp hresult
    exact Or.inl ⟨e, hrefused, Prod.ext hresult ((herror _).2 hresult)⟩
  | ok view =>
    refine Or.inr ⟨fun e hrefused => ?_, view, Prod.ext hresult rfl⟩
    have hfails := (herror _).1.mpr ⟨e, hrefused, rfl⟩
    rw [hresult] at hfails
    cases hfails

/-- An update fails for its id, then for its plan, or gives the entry the plan. -/
theorem InOrder.update_result (h : t.InOrder) (id : Nat) (plan : Plan) :
    (id ∉ t.roster.ids ∧ t.update id plan = (Attempt.refuse (.roster (.notFound id)), t)) ∨
      (id ∈ t.roster.ids ∧ ∃ e, plan.Refused t.now e ∧
        t.update id plan = (Attempt.refuse (.alarm (.plan e)), t)) ∨
      id ∈ t.roster.ids ∧ (∀ e, ¬plan.Refused t.now e) ∧
        ∃ view, t.update id plan = (.ok view, t.act (.update id plan)) := by
  have herror (cause : Failure TimetableError) :
      ((t.update id plan).1 = .error cause ↔
        id ∉ t.roster.ids ∧ cause = .refused (.roster (.notFound id)) ∨
        id ∈ t.roster.ids ∧ ∃ e, plan.Refused t.now e ∧ cause = .refused (.alarm (.plan e))) ∧
      ((t.update id plan).1 = .error cause → (t.update id plan).2 = t) :=
    h.update_eq_error_iff h.whole.sound
  cases hresult : (t.update id plan).1 with
  | error cause =>
    have hsame : t.update id plan = (.error cause, t) :=
      Prod.ext hresult ((herror cause).2 hresult)
    rcases (herror cause).1.mp hresult with ⟨habsent, rfl⟩ | ⟨hlive, e, hrefused, rfl⟩
    · exact Or.inl ⟨habsent, hsame⟩
    · exact Or.inr (Or.inl ⟨hlive, e, hrefused, hsame⟩)
  | ok view =>
    have hfails (cause : Failure TimetableError) : (t.update id plan).1 ≠ .error cause := by
      rw [hresult]
      exact fun h => by cases h
    have hlive : id ∈ t.roster.ids := by
      by_contra habsent
      exact hfails _ ((herror _).1.mpr (Or.inl ⟨habsent, rfl⟩))
    refine Or.inr (Or.inr ⟨hlive, fun e hrefused => ?_, view, Prod.ext hresult rfl⟩)
    exact hfails _ ((herror _).1.mpr (Or.inr ⟨hlive, e, hrefused, rfl⟩))

/-- A remove fails for its id, or takes the entry out. -/
theorem InOrder.remove_result (h : t.InOrder) (id : Nat) :
    (id ∉ t.roster.ids ∧ t.remove id = (.error (.roster (.notFound id)), t)) ∨
      id ∈ t.roster.ids ∧ t.remove id = (.ok (), t.act (.remove id)) := by
  have herror (cause : TimetableError) :
      ((t.remove id).1 = .error cause ↔ id ∉ t.roster.ids ∧ cause = .roster (.notFound id)) ∧
      ((t.remove id).1 = .error cause → (t.remove id).2 = t) :=
    h.remove_eq_error_iff h.whole.sound
  cases hresult : (t.remove id).1 with
  | error cause =>
    obtain ⟨habsent, rfl⟩ := (herror cause).1.mp hresult
    exact Or.inl ⟨habsent, Prod.ext hresult ((herror _).2 hresult)⟩
  | ok done =>
    refine Or.inr ⟨?_, Prod.ext hresult rfl⟩
    by_contra habsent
    have hfails := (herror _).1.mpr ⟨habsent, rfl⟩
    rw [hresult] at hfails
    cases hfails

end Almanac.Timetable

namespace Almanac.Web

variable {t : Timetable} {credentials : Option (String × String)}

theorem createEntry_of_error [Locators] {body : List UInt8} {e : Failure Problem}
    (h : orderOf body t.now = .error e) : createEntry t body = (.error e, t) := by
  rw [createEntry, h]

/-- A request that reads well fails for its plan, or creates the entry. -/
theorem createEntry_of_ok [Locators] (h : t.InOrder) {body : List UInt8} {task : Task} {plan : Plan}
    (horder : orderOf body t.now = .ok (task, plan)) :
    (∃ e, plan.Refused t.now e ∧
        createEntry t body = (Attempt.refuse (.service (.plan e)), t)) ∨
      (∀ e, ¬plan.Refused t.now e) ∧ ∃ view : EntryView,
        createEntry t body = (.ok (.data 201 view.json), t.act (.create task plan)) := by
  rcases h.create_result task plan with ⟨e, hrefused, hcreate⟩ | ⟨hadmissible, view, hcreate⟩
  · exact Or.inl ⟨e, hrefused, by simp only [createEntry, horder, hcreate]; rfl⟩
  · exact Or.inr ⟨hadmissible, view, by simp only [createEntry, horder, hcreate]; rfl⟩

theorem changeEntry_of_error {raw : List Char} {body : List UInt8} {e : Failure Problem}
    (h : changeOf raw body t.now = .error e) : changeEntry t raw body = (.error e, t) := by
  rw [changeEntry, h]

/-- A request that reads well fails for its id, then for its plan, or changes the entry. -/
theorem changeEntry_of_ok (h : t.InOrder) {raw : List Char} {body : List UInt8} {id : Nat}
    {plan : Plan} (hchange : changeOf raw body t.now = .ok (id, plan)) :
    (id ∉ t.roster.ids ∧
        changeEntry t raw body = (Attempt.refuse (.service (.roster (.notFound id))), t)) ∨
      (id ∈ t.roster.ids ∧ ∃ e, plan.Refused t.now e ∧
        changeEntry t raw body = (Attempt.refuse (.service (.alarm (.plan e))), t)) ∨
      id ∈ t.roster.ids ∧ (∀ e, ¬plan.Refused t.now e) ∧ ∃ view : EntryView,
        changeEntry t raw body = (.ok (.data 200 view.json), t.act (.update id plan)) := by
  rcases h.update_result id plan with
    ⟨habsent, hupdate⟩ | ⟨hlive, e, hrefused, hupdate⟩ | ⟨hlive, hadmissible, view, hupdate⟩
  · exact Or.inl ⟨habsent, by simp only [changeEntry, hchange, hupdate]; rfl⟩
  · exact Or.inr (Or.inl ⟨hlive, e, hrefused, by simp only [changeEntry, hchange, hupdate]; rfl⟩)
  · exact Or.inr (Or.inr ⟨hlive, hadmissible, view,
      by simp only [changeEntry, hchange, hupdate]; rfl⟩)

theorem deleteEntry_of_error {raw : List Char} {p : Problem} (h : idOf raw = .error p) :
    deleteEntry t raw = (Attempt.refuse p, t) := by
  rw [deleteEntry, h]

/-- A request that names an id finds no entry of it, or takes the entry out. -/
theorem deleteEntry_of_ok (h : t.InOrder) {raw : List Char} {id : Nat} (hid : idOf raw = .ok id) :
    (id ∉ t.roster.ids ∧
        deleteEntry t raw = (Attempt.refuse (.service (.roster (.notFound id))), t)) ∨
      id ∈ t.roster.ids ∧ deleteEntry t raw = (.ok ⟨204, [], .empty⟩, t.act (.remove id)) := by
  rcases h.remove_result id with ⟨habsent, hremove⟩ | ⟨hlive, hremove⟩
  · exact Or.inl ⟨habsent, by simp only [deleteEntry, hid, hremove]⟩
  · exact Or.inr ⟨hlive, by simp only [deleteEntry, hid, hremove]⟩

/-- Holds of the responses to requests that were carried out. -/
def Response.isSuccess (response : Response) : Bool :=
  200 ≤ response.status && response.status < 300

/-- What a request leaves of a timetable: all of it, with lines in the log, or, with an answer of
success, what one act makes of it. -/
inductive Leaves (t : Timetable) : Response × Timetable → Prop
  | asItWas {response : Response} (lines : List LogLine) :
      Leaves t (response, { t with journal := lines.map .logged ++ t.journal })
  | after {response : Response} (act : Act) (hact : act.isDirect = false)
      (success : response.isSuccess = true) : Leaves t (response, t.act act)

theorem leaves_conclude (t : Timetable) (handled : Handled) : Leaves t (conclude t handled) := by
  rcases handled with (p | _) | response
  · exact .asItWas [p.logLine]
  · exact .asItWas []
  · exact .asItWas []

theorem leaves_createEntry [Locators] (h : t.InOrder) (body : List UInt8) :
    Leaves t (conclude (createEntry t body).2 (createEntry t body).1) := by
  cases horder : orderOf body t.now with
  | error e =>
    rw [createEntry_of_error horder]
    exact leaves_conclude t _
  | ok order =>
    rcases createEntry_of_ok h horder with ⟨e, -, hresult⟩ | ⟨-, view, hresult⟩
    · rw [hresult]
      exact leaves_conclude t _
    · rw [hresult]
      exact .after (.create order.1 order.2) rfl rfl

theorem leaves_changeEntry (h : t.InOrder) (raw : List Char) (body : List UInt8) :
    Leaves t (conclude (changeEntry t raw body).2 (changeEntry t raw body).1) := by
  cases hchange : changeOf raw body t.now with
  | error e =>
    rw [changeEntry_of_error hchange]
    exact leaves_conclude t _
  | ok change =>
    rcases changeEntry_of_ok h hchange with
      ⟨-, hresult⟩ | ⟨-, e, -, hresult⟩ | ⟨-, -, view, hresult⟩
    · rw [hresult]
      exact leaves_conclude t _
    · rw [hresult]
      exact leaves_conclude t _
    · rw [hresult]
      exact .after (.update change.1 change.2) rfl rfl

theorem leaves_deleteEntry (h : t.InOrder) (raw : List Char) :
    Leaves t (conclude (deleteEntry t raw).2 (deleteEntry t raw).1) := by
  cases hid : idOf raw with
  | error p =>
    rw [deleteEntry_of_error hid]
    exact leaves_conclude t _
  | ok id =>
    rcases deleteEntry_of_ok h hid with ⟨-, hresult⟩ | ⟨-, hresult⟩
    · rw [hresult]
      exact leaves_conclude t _
    · rw [hresult]
      exact .after (.remove id) rfl rfl

theorem leaves_handleEntry (h : t.InOrder) (method : String) (raw : List Char)
    (body : List UInt8) : Leaves t (handleEntry t method raw body) := by
  unfold handleEntry
  split
  · exact .asItWas []
  · split
    · split
      · exact .asItWas []
      · exact leaves_changeEntry h _ body
    · exact leaves_deleteEntry h _
    · exact leaves_conclude t _

theorem leaves_dispatch [Locators] (h : t.InOrder) (route : Route) (r : Request) :
    Leaves t (dispatch t route r) := by
  cases route with
  | home => exact .asItWas []
  | health => exact .asItWas []
  | entries =>
    simp only [dispatch]
    split
    · split
      · exact .asItWas []
      · exact leaves_createEntry h r.body
    · exact leaves_conclude t _
  | entry id => exact leaves_handleEntry h r.method id r.body

theorem leaves_answer [Locators] (h : t.InOrder) (credentials : Option (String × String))
    (route : Route) (r : Request) :
    Leaves t (answer credentials t route r) := by
  unfold answer
  split
  · split
    · exact leaves_dispatch h route r
    · exact .asItWas []
  · exact .asItWas [_]
  · exact .asItWas [_]

theorem leaves_handle [Locators] (h : t.InOrder) (credentials : Option (String × String))
    (r : Request) :
    Leaves t (handle credentials t r) := by
  unfold handle
  split
  · exact .asItWas []
  · next route hroute =>
    have hleaves := leaves_answer h credentials route r
    generalize answer credentials t route r = result at hleaves
    cases hleaves with
    | asItWas lines => exact .asItWas lines
    | after act hact success =>
      refine .after act hact ?_
      rw [Response.isSuccess, forMethod_status]
      exact success

theorem inOrder_receive [Locators] (h : t.InOrder) (visit : Visit) :
    (receive credentials t visit).InOrder := by
  cases visit with
  | request r =>
    have hleaves := leaves_handle h credentials r
    simp only [receive]
    generalize handle credentials t r = result at hleaves
    cases hleaves with
    | asItWas lines => exact h.withJournal _
    | after act hact success => exact h.act act hact
  | pass millis => exact h.act (.pass millis) rfl
  | shiftClock millis => exact h.act (.shiftClock millis) rfl
  | poll vigil => exact h.act (.poll vigil) rfl
  | pollWatcher watcher => exact h.act (.pollWatcher watcher) rfl

/-- Whatever clients ask for, the timetable stays in order. -/
theorem inOrder_serve [Locators] (h : t.InOrder) (visits : List Visit) :
    (serve credentials t visits).InOrder := by
  induction visits generalizing t with
  | nil => exact h
  | cons visit visits ih => exact ih (inOrder_receive h visit)

end Almanac.Web
