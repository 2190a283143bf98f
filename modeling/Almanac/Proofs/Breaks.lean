import Almanac.Proofs.Answers
import Almanac.Proofs.Overflow

/-!
# Requests that break off

The one way to make a handler break off is a text of a span that overfills it: the length of a
pause, a period, or the interval of an expression. `breaks_exact` lists the requests in which such a
text is read. Any other request gets the response of its handler, and none of them, even one that
breaks off, leaves anything half done.
-/

namespace Almanac

/-- Holds of the values that ask for a pause of an overfull length. -/
def Task.Overfills (value : Json) : Prop :=
  value.member? "type" = some (.string "no-op") ∧
    ∃ text, value.member? "sleep_duration" = some (.string text) ∧ Overfull text

/-- The text of the span that a request for a plan gives, in its period or in an expression. -/
def PlanRequest.spanText? (r : PlanRequest) : Option String :=
  match r.expression with
  | none => r.period
  | some expression =>
    let (keyword, argument) := Plan.splitKeyword (Text.trim expression.toList)
    if r.first = none ∧ r.period = none ∧ keyword = "@every".toList ∧ argument ≠ [] then
      some (String.ofList argument)
    else none

/-- Holds of the values that ask for a plan by an overfull span. -/
def PlanRequest.Overfills (value : Json) : Prop :=
  ∃ request text, PlanRequest.ofJson value = .ok request ∧ request.spanText? = some text ∧
    Overfull text

variable {value : Json} {now : Instant} {text : String}

namespace Task

theorem ofPause_eq_broken_iff {length : Option String} :
    ofPause length = .error .brokenOff ↔ ∃ text, length = some text ∧ Overfull text := by
  cases length with
  | none => simp [ofPause]
  | some text =>
    simp only [ofPause, Option.some.injEq, exists_eq_left']
    split
    · next hblank => exact ⟨nofun, fun h => absurd h (not_overfull_of_isBlankText hblank)⟩
    · exact map_eq_error_iff.trans
        (Attempt.mapReason_eq_broken_iff.trans periodOfText_eq_broken_iff)

theorem orderedKind_eq_ok_iff {kind : String} :
    orderedKind value = .ok kind ↔ value.member? "type" = some (.string kind) ∧ kind ≠ "" := by
  unfold orderedKind
  split
  · next hmember => simp [hmember]
  · next hmember => simp [hmember]
  · next found hmember =>
    rw [hmember]
    simp only [Option.some.injEq, Json.string.injEq]
    split
    · next hempty =>
      rw [String.isEmpty_iff] at hempty
      exact ⟨nofun, fun h => absurd (h.1 ▸ hempty) h.2⟩
    · next hempty =>
      rw [String.isEmpty_iff] at hempty
      rw [Except.ok.injEq]
      exact ⟨fun h => ⟨h, h ▸ hempty⟩, And.left⟩
  · next found _ hstring hmember =>
    rw [hmember]
    exact ⟨nofun, fun h => absurd (Option.some.inj h.1) (hstring kind)⟩

theorem field_eq_some_iff :
    field value "sleep_duration" (Json.asOptional Json.asString) none = .ok (some text) ↔
      value.member? "sleep_duration" = some (.string text) := by
  unfold field
  cases value.member? "sleep_duration" with
  | none => simp
  | some found => cases found <;> simp [Json.asOptional, Json.asString, Except.map, Except.mapError]

/-- An order breaks off exactly where it asks for a pause of an overfull length. -/
theorem ofJson_eq_broken_iff [Locators] :
    ofJson value = .error .brokenOff ↔ Task.Overfills value := by
  constructor
  · intro h
    rcases bind_eq_error_iff.mp h with h | ⟨kind, hkind, h⟩
    · exact absurd h Attempt.ofExcept_ne_broken
    · have htype := (orderedKind_eq_ok_iff.mp (Attempt.ofExcept_eq_ok_iff.mp hkind)).1
      split at h
      · rcases bind_eq_error_iff.mp h with h | ⟨build, -, h⟩
        · exact absurd h Attempt.ofExcept_ne_broken
        · rcases bind_eq_error_iff.mp h with h | ⟨token, -, h⟩
          · exact absurd h Attempt.ofExcept_ne_broken
          · exact absurd h Attempt.ofExcept_ne_broken
      · rcases bind_eq_error_iff.mp h with h | ⟨url, -, h⟩
        · exact absurd h Attempt.ofExcept_ne_broken
        · exact absurd h Attempt.ofExcept_ne_broken
      · rcases bind_eq_error_iff.mp h with h | ⟨length, hlength, h⟩
        · exact absurd h Attempt.ofExcept_ne_broken
        · obtain ⟨text, rfl, hfull⟩ := ofPause_eq_broken_iff.mp h
          exact ⟨htype, text, field_eq_some_iff.mp (Attempt.ofExcept_eq_ok_iff.mp hlength), hfull⟩
      · cases h
  · rintro ⟨htype, text, hlength, hfull⟩
    have hkind : Attempt.ofExcept (orderedKind value) = .ok "no-op" :=
      Attempt.ofExcept_eq_ok_iff.mpr (orderedKind_eq_ok_iff.mpr ⟨htype, by decide⟩)
    have hfield := Attempt.ofExcept_eq_ok_iff.mpr (field_eq_some_iff.mpr hlength)
    refine bind_eq_error_iff.mpr (Or.inr ⟨_, hkind, ?_⟩)
    refine bind_eq_error_iff.mpr (Or.inr ⟨_, hfield, ?_⟩)
    exact ofPause_eq_broken_iff.mpr ⟨text, rfl, hfull⟩

end Task

namespace Plan

theorem ofInterval_eq_broken_iff {expression interval : List Char} :
    ofInterval expression interval now = .error .brokenOff ↔
      Overfull (String.ofList interval) := by
  rw [← periodOfText_eq_broken_iff]
  refine bind_eq_error_iff.trans ⟨?_, Or.inl⟩
  rintro (h | ⟨period, -, h⟩)
  · exact h
  · split at h
    · cases h
    · rcases bind_eq_error_iff.mp h with h | ⟨checked, -, h⟩
      · exact absurd h Attempt.ofExcept_ne_broken
      · split at h <;> cases h

theorem ofExpression_eq_broken_iff :
    ofExpression text now = .error .brokenOff ↔
      let split := splitKeyword (Text.trim text.toList)
      (split.1 = "@every".toList ∧ split.2 ≠ []) ∧ Overfull (String.ofList split.2) := by
  simp only [ofExpression]
  generalize splitKeyword (Text.trim text.toList) = split
  split
  · next honce =>
    refine ⟨nofun, fun h => absurd honce.2 h.1.2⟩
  · split
    · next hat =>
      constructor
      · intro h
        split at h <;> cases h
      · rintro ⟨⟨hevery, -⟩, -⟩
        exact absurd (hat.1.symm.trans hevery) (by decide)
    · split
      · next hevery =>
        rw [ofInterval_eq_broken_iff]
        exact ⟨fun h => ⟨hevery, h⟩, And.right⟩
      · next hother => exact ⟨nofun, fun h => absurd h.1 hother⟩

end Plan

namespace PlanRequest

variable {r : PlanRequest} {expression : String}

theorem spanText?_eq_some_iff (h : r.expression = some expression) :
    r.spanText? = some text ↔
      let split := Plan.splitKeyword (Text.trim expression.toList)
      (r.first = none ∧ r.period = none) ∧ (split.1 = "@every".toList ∧ split.2 ≠ []) ∧
        String.ofList split.2 = text := by
  simp only [spanText?, h, Option.ite_none_right_eq_some, Option.some.injEq, and_assoc]

theorem resolve_of_expression (h : r.expression = some expression) :
    r.resolve now =
      if r.first.isSome || r.period.isSome then
        Attempt.refuse (.invalidExpression
          "schedule cannot be combined with next_fire_time or frequency")
      else Plan.ofExpression expression now := by
  rw [resolve, h]

theorem resolve_of_period {period : String} (h : r.expression = none)
    (hperiod : r.period = some period) :
    r.resolve now =
      if Text.isBlankText period.toList then .ok ⟨r.first, Span.zero⟩
      else (periodOfText period).bind fun period => .ok ⟨r.first, period⟩ := by
  simp only [resolve, h, hperiod]
  rfl

/-- A plan breaks off exactly where the span that it is asked by is overfull. -/
theorem resolve_eq_broken_iff :
    r.resolve now = .error .brokenOff ↔ ∃ text, r.spanText? = some text ∧ Overfull text := by
  cases hexpression : r.expression with
  | some expression =>
    have halone_iff : ¬(r.first.isSome || r.period.isSome) = true ↔
        r.first = none ∧ r.period = none := by simp
    rw [resolve_of_expression hexpression]
    simp only [spanText?_eq_some_iff hexpression]
    split
    · next hboth =>
      refine ⟨nofun, ?_⟩
      rintro ⟨text, ⟨halone, -⟩, -⟩
      exact absurd hboth (halone_iff.mpr halone)
    · next halone =>
      rw [Plan.ofExpression_eq_broken_iff]
      dsimp only
      generalize Plan.splitKeyword (Text.trim expression.toList) = split
      constructor
      · rintro ⟨hevery, hfull⟩
        exact ⟨String.ofList split.2, ⟨halone_iff.mp halone, hevery, rfl⟩, hfull⟩
      · rintro ⟨text, ⟨-, hevery, rfl⟩, hfull⟩
        exact ⟨hevery, hfull⟩
  | none =>
    have htext : r.spanText? = r.period := by rw [spanText?, hexpression]
    rw [htext]
    cases hperiod : r.period with
    | none => simp [resolve, hexpression, hperiod, pure, Except.pure]
    | some period =>
      rw [resolve_of_period hexpression hperiod]
      simp only [Option.some.injEq, exists_eq_left']
      split
      · next hblank => exact ⟨nofun, fun h => absurd h (not_overfull_of_isBlankText hblank)⟩
      · rw [← periodOfText_eq_broken_iff, bind_eq_error_iff]
        refine ⟨?_, Or.inl⟩
        rintro (h | ⟨period, -, h⟩)
        · exact h
        · cases h

end PlanRequest

namespace Web

variable {t : Timetable} {credentials : Option (String × String)} {r : Request} {route : Route}
  {body : List UInt8} {raw id : List Char} {code : Option String}

/-- Holds of the bodies of requests for a new entry in which an overfull span is read: the length
of its pause, or else, if there is a task, the span of its plan. -/
def OrderOverfills [Locators] (body : List UInt8) : Prop :=
  ∃ value, Carries body value ∧
    (Task.Overfills value ∨ (∃ task, Task.ofJson value = .ok task) ∧ PlanRequest.Overfills value)

/-- Holds of the requests for another plan in which an overfull span is read. -/
def ChangeOverfills (id : List Char) (body : List UInt8) : Prop :=
  (∃ n, Names id n) ∧ ∃ value, Carries body value ∧ PlanRequest.Overfills value

theorem planOf_of_overfills (h : PlanRequest.Overfills value) :
    planOf value now = .error .brokenOff := by
  obtain ⟨request, text, shape, htext, hfull⟩ := h
  rw [planOf_of_shape shape, PlanRequest.resolve_eq_broken_iff.mpr ⟨text, htext, hfull⟩]
  rfl

theorem orderOf_of_overfills [Locators] (h : OrderOverfills body) :
    orderOf body now = .error .brokenOff := by
  obtain ⟨value, carries, hpause | ⟨⟨task, ordered⟩, hplan⟩⟩ := h
  · rw [orderOf_of_carries carries, Task.ofJson_eq_broken_iff.mpr hpause]
    rfl
  · rw [orderOf_of_carries carries, ordered, planOf_of_overfills hplan]
    rfl

theorem changeOf_of_overfills (h : ChangeOverfills raw body) :
    changeOf raw body now = .error .brokenOff := by
  obtain ⟨⟨n, names⟩, value, carries, hplan⟩ := h
  rw [changeOf_of_names names carries, planOf_of_overfills hplan]
  rfl

theorem overfills_of_misplanned (h : Misplanned value now ⟨500, code⟩) :
    PlanRequest.Overfills value := by
  cases h with
  | broken shape broken =>
    obtain ⟨text, htext, hfull⟩ := PlanRequest.resolve_eq_broken_iff.mp broken
    exact ⟨_, text, shape, htext, hfull⟩

theorem overfills_of_creation [Locators] (h : Creation body now ⟨500, code⟩) :
    OrderOverfills body := by
  cases h with
  | broken carries broken => exact ⟨_, carries, Or.inl (Task.ofJson_eq_broken_iff.mp broken)⟩
  | misplanned carries ordered misplanned =>
    exact ⟨_, carries, Or.inr ⟨⟨_, ordered⟩, overfills_of_misplanned misplanned⟩⟩

theorem overfills_of_change (h : Change t raw body ⟨500, code⟩) : ChangeOverfills raw body := by
  cases h with
  | misplanned names carries misplanned =>
    exact ⟨⟨_, names⟩, _, carries, overfills_of_misplanned misplanned⟩

/-- Holds of the requests that break off: let through, of a length that is read, and with an
overfull span in what is read of them. -/
inductive Breaks [Locators] (credentials : Option (String × String)) (r : Request) : Prop
  | order (route : Route.ofPath? r.path = some .entries) (post : r.method = "POST")
      (admitted : judge credentials r = .admitted) (fits : r.body.length ≤ bodyLimit)
      (overfills : OrderOverfills r.body)
  | change {raw id : List Char} (route : Route.ofPath? r.path = some (.entry raw))
      (decodes : Text.decode? (Text.percentDecode raw) = some id) (put : r.method = "PUT")
      (admitted : judge credentials r = .admitted) (fits : r.body.length ≤ bodyLimit)
      (overfills : ChangeOverfills id r.body)

/-- A request that breaks off gets the answer for that and changes nothing at all. -/
theorem handle_of_breaks [Locators] (t : Timetable) (h : Breaks credentials r) :
    handle credentials t r = (.plain 500 "Service panicked", t) := by
  cases h with
  | order route post admitted fits overfills =>
    rw [handle_post route admitted post fits, createEntry_of_error (orderOf_of_overfills overfills)]
    rfl
  | change route decodes put admitted fits overfills =>
    rw [handle_put route decodes admitted put fits,
      changeEntry_of_error (changeOf_of_overfills overfills)]
    rfl

theorem status_createEntry_ne [Locators] (h : t.InOrder) (hnot : ¬OrderOverfills body) :
    (conclude (createEntry t body).2 (createEntry t body).1).1.status ≠ 500 := by
  obtain ⟨⟨status, code⟩, hcreation⟩ := exists_creation body t.now
  have hstatus := congrArg Reply.status (reply_createEntry h hcreation)
  rintro hbroken
  obtain rfl : 500 = status := hbroken.symm.trans hstatus
  exact hnot (overfills_of_creation hcreation)

theorem status_changeEntry_ne (h : t.InOrder) (hnot : ¬ChangeOverfills id body) :
    (conclude (changeEntry t id body).2 (changeEntry t id body).1).1.status ≠ 500 := by
  obtain ⟨⟨status, code⟩, hchange⟩ := exists_change t id body
  have hstatus := congrArg Reply.status (reply_changeEntry h hchange)
  rintro hbroken
  obtain rfl : 500 = status := hbroken.symm.trans hstatus
  exact hnot (overfills_of_change hchange)

theorem status_deleteEntry_ne (h : t.InOrder) (id : List Char) :
    (conclude (deleteEntry t id).2 (deleteEntry t id).1).1.status ≠ 500 := by
  obtain ⟨⟨status, code⟩, hdeletion⟩ := exists_deletion t id
  have hstatus := congrArg Reply.status (reply_deleteEntry h hdeletion)
  rintro hbroken
  obtain rfl : 500 = status := hbroken.symm.trans hstatus
  cases hdeletion

theorem status_listEntries_ne (h : t.InOrder) : (conclude t (listEntries t)).1.status ≠ 500 := by
  have hlist : t.list = .ok (t.roster.entries.map t.viewOf) := by
    rw [Timetable.list, Roster.all, Roster.sound, h.whole.sound]
    rfl
  rw [listEntries, hlist]
  exact (by decide : (200 : Nat) ≠ 500)

theorem status_showEntry_ne (h : t.InOrder) (id : List Char) :
    (conclude t (showEntry t id)).1.status ≠ 500 := by
  by_cases hnames : ∃ n, Names id n
  · obtain ⟨n, names⟩ := hnames
    have hshow : showEntry t id = shown 200 (Attempt.ofExcept (t.get n)) := by
      rw [showEntry, idOf_eq_ok_iff.mpr names]
    rw [hshow]
    cases hget : t.get n with
    | ok view => exact (by decide : (200 : Nat) ≠ 500)
    | error cause =>
      obtain ⟨-, rfl⟩ := (Timetable.get_eq_error_iff h.whole.sound).mp hget
      exact (by decide : (404 : Nat) ≠ 500)
  · obtain ⟨text, hid⟩ := idOf_of_nameless (not_exists.mp hnames)
    rw [showEntry, hid]
    exact (by decide : (404 : Nat) ≠ 500)

theorem status_dispatch_ne [Locators] (h : t.InOrder) (hroute : Route.ofPath? r.path = some route)
    (hadmitted : route.isGuarded = true → judge credentials r = .admitted)
    (hnot : ¬Breaks credentials r) : (dispatch t route r).1.status ≠ 500 := by
  cases route with
  | home => exact (by decide : (200 : Nat) ≠ 500)
  | health => exact (by decide : (200 : Nat) ≠ 500)
  | entries =>
    simp only [dispatch]
    split
    · next hpost =>
      split
      · exact (by decide : (413 : Nat) ≠ 500)
      · next hfits =>
        exact status_createEntry_ne h fun hover =>
          hnot (.order hroute hpost (hadmitted rfl) (Nat.not_lt.mp hfits) hover)
    · exact status_listEntries_ne h
  | entry raw =>
    simp only [dispatch, handleEntry]
    split
    · exact (by decide : (400 : Nat) ≠ 500)
    · next id hdecode =>
      split
      · next hput =>
        split
        · exact (by decide : (413 : Nat) ≠ 500)
        · next hfits =>
          exact status_changeEntry_ne h fun hover =>
            hnot (.change hroute hdecode hput (hadmitted rfl) (Nat.not_lt.mp hfits) hover)
      · exact status_deleteEntry_ne h id
      · exact status_showEntry_ne h id

/-- What does not break off is answered with another status. -/
theorem status_handle_ne [Locators] (h : t.InOrder) (hnot : ¬Breaks credentials r) :
    (handle credentials t r).1.status ≠ 500 := by
  intro h500
  obtain ⟨route, hroute, hadmitted, hdispatch⟩ := dispatch_of_status h500 (by decide)
  exact status_dispatch_ne h hroute hadmitted hnot hdispatch

/-- After any history of visits, a request is answered with status 500 exactly if it breaks off,
which depends on no state, and then the whole timetable is as it was. A text of a period is read,
refused as such, or overfull. -/
theorem breaks_exact [Locators] (credentials : Option (String × String)) (start : Instant)
    (source : IdSource) (replies : List RestartReply) (hsource : none ∉ source.script)
    (visits : List Visit) :
    let t := serve credentials (Timetable.opening start source replies) visits
    (∀ r : Request, ((handle credentials t r).1.status = 500 ↔ Breaks credentials r) ∧
      (Breaks credentials r → handle credentials t r = (.plain 500 "Service panicked", t))) ∧
    ∀ text : String, (periodOfText text = .error .brokenOff ↔ Overfull text) ∧
      ∀ e, periodOfText text = .error (.refused e) → ∃ reason, e = .invalidSpan text reason := by
  intro t
  have horder : t.InOrder := inOrder_serve (Timetable.inOrder_opening start replies hsource) visits
  refine ⟨fun r => ⟨⟨fun hstatus => ?_, fun hbreaks => ?_⟩, handle_of_breaks t⟩, fun text =>
    ⟨periodOfText_eq_broken_iff, fun e => eq_invalidSpan_of_periodOfText⟩⟩
  · by_contra hnot
    exact status_handle_ne horder hnot hstatus
  · rw [handle_of_breaks t hbreaks]
    rfl

/-- The length of a pause that breaks off. -/
theorem breaks_exact_of_pause :
    let body := Text.encode
      "\x7b\"type\":\"no-op\",\"sleep_duration\":\"18446744073709551615s 1000ms\"\x7d".toList
    let r : Request := ⟨"POST", "/api/v0/tasks", [], body⟩
    let t := serve none (Timetable.opening .epoch {} []) [.pass 5]
    Breaks none r ∧ handle none t r = (.plain 500 "Service panicked", t) := by
  intro body r t
  obtain ⟨hbreaks, hhandle⟩ := (breaks_exact none .epoch {} [] (by simp) [.pass 5]).1 r
  have hstatus : (handle none t r).1.status = 500 := by decide +kernel
  exact ⟨hbreaks.mp hstatus, hhandle (hbreaks.mp hstatus)⟩

/-- One request that breaks off: its period is the first that no span can be. -/
theorem handler_breaks_off :
    (handle none (Timetable.opening .epoch {} []) ⟨"POST", "/api/v0/tasks", [], Text.encode
      "\x7b\"type\":\"no-op\",\"frequency\":\"18446744073709551615s 1000ms\"\x7d".toList⟩).1.status =
        500 ∧
      periodOfText "18446744073709551615s 1000ms" = .error .brokenOff := by
  decide +kernel

end Web

end Almanac
