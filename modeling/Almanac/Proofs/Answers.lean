import Almanac.Proofs.Visits

/-!
# Answers

Which answer a request about entries gets, and what it leaves. A request passes its stages one
after the other, and the first that it fails settles the status and the code of the answer: the
relations `Creation`, `Change` and `Deletion` list the stages, and `answers_exact` shows that the
answer is the one that they give. Whatever is not answered with success leaves the timetable as it
was, but for lines in the log.
-/

namespace Almanac

namespace Task

variable {value : Json} {text : String}

theorem orderedKind_ne_failed : orderedKind value ≠ .error (.failed text) := by
  unfold orderedKind
  split
  · nofun
  · nofun
  · split <;> nofun
  · nofun

theorem field_ne_failed {α : Type} {name : String} {shape : Json → Shaped α} {default : α} :
    field value name shape default ≠ .error (.failed text) := by
  unfold field
  split
  · nofun
  · intro h
    cases hshape : shape _ <;> rw [hshape] at h <;> cases h

theorem ofRestart_ne_failed {token : String} {build : Nat} :
    ofRestart token build ≠ .error (.failed text) := by
  unfold ofRestart
  split
  · nofun
  · split <;> nofun

theorem ofFetch_ne_failed [Locators] {url : String} : ofFetch url ≠ .error (.failed text) := by
  unfold ofFetch
  split
  · nofun
  · split <;> nofun

theorem ofPause_ne_failed {length : Option String} :
    ofPause length ≠ .error (.refused (.failed text)) := by
  unfold ofPause
  split
  · nofun
  · split
    · nofun
    · intro h
      obtain ⟨e, -, h⟩ := Attempt.mapReason_eq_refused_iff.mp (map_eq_error_iff.mp h)
      cases h

theorem ofExcept_ne_failed {α : Type} {x : Except TaskError α} (h : x ≠ .error (.failed text)) :
    Attempt.ofExcept x ≠ .error (.refused (.failed text)) := by
  intro hx
  obtain ⟨e, he, hreason⟩ := Attempt.ofExcept_eq_error_iff.mp hx
  cases hreason
  exact h he

/-- No order is refused as a run that failed. -/
theorem ofJson_ne_failed [Locators] : ofJson value ≠ .error (.refused (.failed text)) := by
  intro h
  rcases bind_eq_error_iff.mp h with h | ⟨kind, -, h⟩
  · exact ofExcept_ne_failed orderedKind_ne_failed h
  · split at h
    · rcases bind_eq_error_iff.mp h with h | ⟨build, -, h⟩
      · exact ofExcept_ne_failed field_ne_failed h
      · rcases bind_eq_error_iff.mp h with h | ⟨token, -, h⟩
        · exact ofExcept_ne_failed field_ne_failed h
        · exact ofExcept_ne_failed ofRestart_ne_failed h
    · rcases bind_eq_error_iff.mp h with h | ⟨url, -, h⟩
      · exact ofExcept_ne_failed field_ne_failed h
      · exact ofExcept_ne_failed ofFetch_ne_failed h
    · rcases bind_eq_error_iff.mp h with h | ⟨length, -, h⟩
      · exact ofExcept_ne_failed field_ne_failed h
      · exact ofPause_ne_failed h
    · cases h

end Task

namespace Web

/-- What a client goes by: the status, and the code where there is a problem. -/
structure Reply where
  status : Nat
  code : Option String := none
  deriving DecidableEq, Repr

/-- The code that a response shows. -/
def Response.code? (response : Response) : Option String :=
  match response.content with
  | .json value =>
    match value.member? "code" with
    | some (.string code) => some code
    | _ => none
  | _ => none

def Response.reply (response : Response) : Reply := ⟨response.status, response.code?⟩

theorem Problem.reply_response (p : Problem) : p.response.reply = ⟨p.status, some p.code⟩ := by
  simp [Problem.response, Response.reply, Response.code?, Response.data, Json.member?_ofMembers]

/-- The description of an entry has no code. -/
theorem reply_data_view (status : Nat) (view : EntryView) :
    (Response.data status view.json).reply = ⟨status, none⟩ := by
  simp [EntryView.json, Response.reply, Response.code?, Response.data, Json.member?_ofMembers,
    Json.lookup_member]

/-- Holds of bodies that are the JSON form of an object. -/
def Carries (body : List UInt8) (value : Json) : Prop :=
  Json.readOctets body = .ok value ∧ value.isObject = true

/-- Holds of the texts that name an id: numerals of 32 bits, but for zero. -/
def Names (raw : List Char) (id : Nat) : Prop :=
  Text.numeral (2 ^ 32) raw = .ok id ∧ id ≠ 0

/-- Holds of the plans that a value asks for. -/
def Asks (value : Json) (now : Instant) (plan : Plan) : Prop :=
  ∃ request, PlanRequest.ofJson value = .ok request ∧ request.resolve now = .ok plan

/-- The reply to a value that asks for no plan. -/
inductive Misplanned (value : Json) (now : Instant) : Reply → Prop
  | misshapen {e : ShapeError} (shape : PlanRequest.ofJson value = .error e) :
      Misplanned value now ⟨400, some "INVALID_BODY"⟩
  | unresolved {request : PlanRequest} {e : PlanError}
      (shape : PlanRequest.ofJson value = .ok request)
      (refused : request.resolve now = .error (.refused e)) :
      Misplanned value now ⟨400, some "INVALID_SCHEDULE"⟩
  | broken {request : PlanRequest} (shape : PlanRequest.ofJson value = .ok request)
      (broken : request.resolve now = .error .brokenOff) : Misplanned value now ⟨500, none⟩

/-- The reply to a request for a new entry: the first stage that fails settles it. -/
inductive Creation [Locators] (body : List UInt8) (now : Instant) : Reply → Prop
  | unreadable (unreadable : ∀ value, ¬Carries body value) :
      Creation body now ⟨400, some "INVALID_BODY"⟩
  | unknownKind {value : Json} {kind : String} (carries : Carries body value)
      (refused : Task.ofJson value = .error (.refused (.unknownKind kind))) :
      Creation body now ⟨422, some "UNRECOGNIZED_TASK_TYPE"⟩
  | misordered {value : Json} {e : TaskError} (carries : Carries body value)
      (refused : Task.ofJson value = .error (.refused e)) (known : ∀ kind, e ≠ .unknownKind kind) :
      Creation body now ⟨400, some "INVALID_TASK"⟩
  | broken {value : Json} (carries : Carries body value)
      (broken : Task.ofJson value = .error .brokenOff) : Creation body now ⟨500, none⟩
  | misplanned {value : Json} {task : Task} {reply : Reply} (carries : Carries body value)
      (ordered : Task.ofJson value = .ok task) (misplanned : Misplanned value now reply) :
      Creation body now reply
  | inadmissible {value : Json} {task : Task} {plan : Plan} {e : PlanError}
      (carries : Carries body value) (ordered : Task.ofJson value = .ok task)
      (asks : Asks value now plan) (refused : plan.Refused now e) :
      Creation body now ⟨400, some "INVALID_SCHEDULE"⟩
  | created {value : Json} {task : Task} {plan : Plan} (carries : Carries body value)
      (ordered : Task.ofJson value = .ok task) (asks : Asks value now plan)
      (admissible : ∀ e, ¬plan.Refused now e) : Creation body now ⟨201, none⟩

inductive Change (t : Timetable) (raw : List Char) (body : List UInt8) : Reply → Prop
  | nameless (nameless : ∀ id, ¬Names raw id) : Change t raw body ⟨404, some "NOT_FOUND"⟩
  | unreadable {id : Nat} (names : Names raw id) (unreadable : ∀ value, ¬Carries body value) :
      Change t raw body ⟨400, some "INVALID_BODY"⟩
  | misplanned {id : Nat} {value : Json} {reply : Reply} (names : Names raw id)
      (carries : Carries body value) (misplanned : Misplanned value t.now reply) :
      Change t raw body reply
  | absent {id : Nat} {value : Json} {plan : Plan} (names : Names raw id)
      (carries : Carries body value) (asks : Asks value t.now plan) (absent : id ∉ t.roster.ids) :
      Change t raw body ⟨404, some "NOT_FOUND"⟩
  | inadmissible {id : Nat} {value : Json} {plan : Plan} {e : PlanError} (names : Names raw id)
      (carries : Carries body value) (asks : Asks value t.now plan) (live : id ∈ t.roster.ids)
      (refused : plan.Refused t.now e) : Change t raw body ⟨400, some "INVALID_SCHEDULE"⟩
  | changed {id : Nat} {value : Json} {plan : Plan} (names : Names raw id)
      (carries : Carries body value) (asks : Asks value t.now plan) (live : id ∈ t.roster.ids)
      (admissible : ∀ e, ¬plan.Refused t.now e) : Change t raw body ⟨200, none⟩

inductive Deletion (t : Timetable) (raw : List Char) : Reply → Prop
  | nameless (nameless : ∀ id, ¬Names raw id) : Deletion t raw ⟨404, some "NOT_FOUND"⟩
  | absent {id : Nat} (names : Names raw id) (absent : id ∉ t.roster.ids) :
      Deletion t raw ⟨404, some "NOT_FOUND"⟩
  | deleted {id : Nat} (names : Names raw id) (live : id ∈ t.roster.ids) :
      Deletion t raw ⟨204, none⟩

variable {t : Timetable} {body : List UInt8} {raw : List Char} {value : Json} {now : Instant}
  {reply : Reply} {plan : Plan}

theorem objectOf_eq_ok_iff : objectOf body = .ok value ↔ Carries body value := by
  unfold objectOf Carries
  split
  · next e he => simp [he]
  · next found hfound =>
    rw [hfound, Except.ok.injEq]
    split
    · next hobject =>
      rw [Except.ok.injEq]
      exact ⟨fun h => ⟨h, h ▸ hobject⟩, And.left⟩
    · next hobject =>
      refine ⟨nofun, ?_⟩
      rintro ⟨rfl, h⟩
      exact absurd h hobject

theorem objectOf_of_unreadable (h : ∀ value, ¬Carries body value) :
    ∃ text, objectOf body = .error (.invalidBody text) := by
  cases hobject : objectOf body with
  | ok value => exact absurd (objectOf_eq_ok_iff.mp hobject) (h value)
  | error p =>
    unfold objectOf at hobject
    split at hobject
    · cases hobject
      exact ⟨_, rfl⟩
    · split at hobject
      · cases hobject
      · cases hobject
        exact ⟨_, rfl⟩

theorem idOf_eq_ok_iff {id : Nat} : idOf raw = .ok id ↔ Names raw id := by
  unfold idOf Names
  split
  · next n hn =>
    rw [hn, Except.ok.injEq, Except.ok.injEq]
    exact ⟨fun h => ⟨h, h ▸ Nat.succ_ne_zero n⟩, And.left⟩
  · next hnone =>
    refine ⟨nofun, ?_⟩
    rintro ⟨hid, hne⟩
    obtain ⟨n, rfl⟩ := Nat.exists_eq_succ_of_ne_zero hne
    exact absurd hid (hnone n)

theorem idOf_of_nameless (h : ∀ id, ¬Names raw id) :
    ∃ text, idOf raw = .error (.invalidId text) := by
  cases hid : idOf raw with
  | ok id => exact absurd (idOf_eq_ok_iff.mp hid) (h id)
  | error p =>
    unfold idOf at hid
    split at hid
    · cases hid
    · cases hid
      exact ⟨_, rfl⟩

theorem planOf_eq_ok_iff : planOf value now = .ok plan ↔ Asks value now plan := by
  unfold planOf Asks
  split
  · next e he => simp [he, Attempt.refuse]
  · next request hrequest =>
    rw [Attempt.mapReason_eq_ok_iff]
    simp [hrequest]

/-- The reply to what comes to nothing. -/
def replyTo : Failure Problem → Reply
  | .refused p => ⟨p.status, some p.code⟩
  | .brokenOff => ⟨500, none⟩

theorem reply_conclude_error (t : Timetable) (e : Failure Problem) :
    (conclude t (.error e)).1.reply = replyTo e := by
  cases e with
  | refused p => exact p.reply_response
  | brokenOff => rfl

theorem planOf_of_shape {request : PlanRequest} (h : PlanRequest.ofJson value = .ok request) :
    planOf value now = (request.resolve now).mapReason fun e => .service (.plan e) := by
  rw [planOf, h]

theorem planOf_of_misplanned (h : Misplanned value now reply) :
    ∃ e, planOf value now = .error e ∧ replyTo e = reply := by
  cases h with
  | misshapen shape => exact ⟨_, by rw [planOf, shape]; rfl, rfl⟩
  | unresolved shape refused => exact ⟨_, by rw [planOf_of_shape shape, refused]; rfl, rfl⟩
  | broken shape broken => exact ⟨_, by rw [planOf_of_shape shape, broken]; rfl, rfl⟩

theorem planned_or_misplanned (value : Json) (now : Instant) :
    (∃ plan, Asks value now plan) ∨ ∃ reply, Misplanned value now reply := by
  cases hshape : PlanRequest.ofJson value with
  | error e => exact Or.inr ⟨_, .misshapen hshape⟩
  | ok request =>
    cases hresolve : request.resolve now with
    | ok plan => exact Or.inl ⟨plan, request, hshape, hresolve⟩
    | error e =>
      cases e with
      | refused e => exact Or.inr ⟨_, .unresolved hshape hresolve⟩
      | brokenOff => exact Or.inr ⟨_, .broken hshape hresolve⟩

theorem orderOf_of_carries [Locators] (h : Carries body value) :
    orderOf body now = ((Task.ofJson value).mapReason fun e => .service (.task e)).bind
      fun task => (planOf value now).bind fun plan => .ok (task, plan) := by
  rw [orderOf, objectOf_eq_ok_iff.mpr h]
  rfl

theorem changeOf_of_names {id : Nat} (hnames : Names raw id) (h : Carries body value) :
    changeOf raw body now = (planOf value now).bind fun plan => .ok (id, plan) := by
  rw [changeOf, idOf_eq_ok_iff.mpr hnames, objectOf_eq_ok_iff.mpr h]
  rfl

theorem reply_createEntry [Locators] (h : t.InOrder) (hcreation : Creation body t.now reply) :
    (conclude (createEntry t body).2 (createEntry t body).1).1.reply = reply := by
  have hfails {e : Failure Problem} (horder : orderOf body t.now = .error e) :
      (conclude (createEntry t body).2 (createEntry t body).1).1.reply = replyTo e := by
    rw [createEntry_of_error horder]
    exact reply_conclude_error t e
  have horder {value : Json} {task : Task} {plan : Plan} (carries : Carries body value)
      (ordered : Task.ofJson value = .ok task) (asks : Asks value t.now plan) :
      orderOf body t.now = .ok (task, plan) := by
    rw [orderOf_of_carries carries, ordered, planOf_eq_ok_iff.mpr asks]
    rfl
  cases hcreation with
  | unreadable unreadable =>
    obtain ⟨text, hobject⟩ := objectOf_of_unreadable unreadable
    exact hfails (e := .refused (.invalidBody text)) (by rw [orderOf, hobject]; rfl)
  | unknownKind carries refused =>
    exact hfails (by rw [orderOf_of_carries carries, refused]; rfl)
  | @misordered value cause carries refused known =>
    rw [hfails (by rw [orderOf_of_carries carries, refused]; rfl)]
    cases cause with
    | missingField field => rfl
    | invalidField field reason => rfl
    | unknownKind kind => exact absurd rfl (known kind)
    | failed text => exact absurd refused Task.ofJson_ne_failed
  | broken carries broken => exact hfails (by rw [orderOf_of_carries carries, broken]; rfl)
  | misplanned carries ordered misplanned =>
    obtain ⟨e, hplan, rfl⟩ := planOf_of_misplanned misplanned
    exact hfails (by rw [orderOf_of_carries carries, ordered, hplan]; rfl)
  | inadmissible carries ordered asks refused =>
    rcases createEntry_of_ok h (horder carries ordered asks) with
      ⟨e, -, hresult⟩ | ⟨hadmissible, -⟩
    · rw [hresult]
      exact reply_conclude_error t _
    · exact absurd refused (hadmissible _)
  | created carries ordered asks admissible =>
    rcases createEntry_of_ok h (horder carries ordered asks) with
      ⟨e, hrefused, -⟩ | ⟨-, view, hresult⟩
    · exact absurd hrefused (admissible e)
    · rw [hresult]
      exact reply_data_view 201 view

theorem exists_creation [Locators] (body : List UInt8) (now : Instant) :
    ∃ reply, Creation body now reply := by
  by_cases hcarries : ∃ value, Carries body value
  · obtain ⟨value, carries⟩ := hcarries
    cases hordered : Task.ofJson value with
    | ok task =>
      rcases planned_or_misplanned value now with ⟨plan, asks⟩ | ⟨reply, misplanned⟩
      · by_cases hrefused : ∃ e, plan.Refused now e
        · obtain ⟨e, refused⟩ := hrefused
          exact ⟨_, .inadmissible carries hordered asks refused⟩
        · exact ⟨_, .created carries hordered asks (not_exists.mp hrefused)⟩
      · exact ⟨reply, .misplanned carries hordered misplanned⟩
    | error e =>
      cases e with
      | brokenOff => exact ⟨_, .broken carries hordered⟩
      | refused cause =>
        by_cases hkind : ∃ kind, cause = .unknownKind kind
        · obtain ⟨kind, rfl⟩ := hkind
          exact ⟨_, .unknownKind carries hordered⟩
        · exact ⟨_, .misordered carries hordered (not_exists.mp hkind)⟩
  · exact ⟨_, .unreadable (not_exists.mp hcarries)⟩

theorem reply_changeEntry (h : t.InOrder) (hchange : Change t raw body reply) :
    (conclude (changeEntry t raw body).2 (changeEntry t raw body).1).1.reply = reply := by
  have hfails {e : Failure Problem} (hread : changeOf raw body t.now = .error e) :
      (conclude (changeEntry t raw body).2 (changeEntry t raw body).1).1.reply = replyTo e := by
    rw [changeEntry_of_error hread]
    exact reply_conclude_error t e
  have hread {id : Nat} {value : Json} {plan : Plan} (names : Names raw id)
      (carries : Carries body value) (asks : Asks value t.now plan) :
      changeOf raw body t.now = .ok (id, plan) := by
    rw [changeOf_of_names names carries, planOf_eq_ok_iff.mpr asks]
    rfl
  cases hchange with
  | nameless nameless =>
    obtain ⟨text, hid⟩ := idOf_of_nameless nameless
    exact hfails (e := .refused (.invalidId text)) (by rw [changeOf, hid]; rfl)
  | unreadable names unreadable =>
    obtain ⟨text, hobject⟩ := objectOf_of_unreadable unreadable
    exact hfails (e := .refused (.invalidBody text))
      (by rw [changeOf, idOf_eq_ok_iff.mpr names, hobject]; rfl)
  | misplanned names carries misplanned =>
    obtain ⟨e, hplan, rfl⟩ := planOf_of_misplanned misplanned
    exact hfails (by rw [changeOf_of_names names carries, hplan]; rfl)
  | absent names carries asks absent =>
    rcases changeEntry_of_ok h (hread names carries asks) with
      ⟨-, hresult⟩ | ⟨hlive, -⟩ | ⟨hlive, -⟩
    · rw [hresult]
      exact reply_conclude_error t _
    · exact absurd hlive absent
    · exact absurd hlive absent
  | inadmissible names carries asks live refused =>
    rcases changeEntry_of_ok h (hread names carries asks) with
      ⟨habsent, -⟩ | ⟨-, e, -, hresult⟩ | ⟨-, hadmissible, -⟩
    · exact absurd live habsent
    · rw [hresult]
      exact reply_conclude_error t _
    · exact absurd refused (hadmissible _)
  | changed names carries asks live admissible =>
    rcases changeEntry_of_ok h (hread names carries asks) with
      ⟨habsent, -⟩ | ⟨-, e, hrefused, -⟩ | ⟨-, -, view, hresult⟩
    · exact absurd live habsent
    · exact absurd hrefused (admissible e)
    · rw [hresult]
      exact reply_data_view 200 view

theorem exists_change (t : Timetable) (raw : List Char) (body : List UInt8) :
    ∃ reply, Change t raw body reply := by
  by_cases hnames : ∃ id, Names raw id
  · obtain ⟨id, names⟩ := hnames
    by_cases hcarries : ∃ value, Carries body value
    · obtain ⟨value, carries⟩ := hcarries
      rcases planned_or_misplanned value t.now with ⟨plan, asks⟩ | ⟨reply, misplanned⟩
      · by_cases live : id ∈ t.roster.ids
        · by_cases hrefused : ∃ e, plan.Refused t.now e
          · obtain ⟨e, refused⟩ := hrefused
            exact ⟨_, .inadmissible names carries asks live refused⟩
          · exact ⟨_, .changed names carries asks live (not_exists.mp hrefused)⟩
        · exact ⟨_, .absent names carries asks live⟩
      · exact ⟨reply, .misplanned names carries misplanned⟩
    · exact ⟨_, .unreadable names (not_exists.mp hcarries)⟩
  · exact ⟨_, .nameless (not_exists.mp hnames)⟩

theorem reply_deleteEntry (h : t.InOrder) (hdeletion : Deletion t raw reply) :
    (conclude (deleteEntry t raw).2 (deleteEntry t raw).1).1.reply = reply := by
  cases hdeletion with
  | nameless nameless =>
    obtain ⟨text, hid⟩ := idOf_of_nameless nameless
    rw [deleteEntry_of_error hid]
    exact reply_conclude_error t _
  | absent names absent =>
    rcases deleteEntry_of_ok h (idOf_eq_ok_iff.mpr names) with ⟨-, hresult⟩ | ⟨hlive, -⟩
    · rw [hresult]
      exact reply_conclude_error t _
    · exact absurd hlive absent
  | deleted names live =>
    rcases deleteEntry_of_ok h (idOf_eq_ok_iff.mpr names) with ⟨habsent, -⟩ | ⟨-, hresult⟩
    · exact absurd live habsent
    · rw [hresult]
      rfl

theorem exists_deletion (t : Timetable) (raw : List Char) : ∃ reply, Deletion t raw reply := by
  by_cases hnames : ∃ id, Names raw id
  · obtain ⟨id, names⟩ := hnames
    by_cases live : id ∈ t.roster.ids
    · exact ⟨_, .deleted names live⟩
    · exact ⟨_, .absent names live⟩
  · exact ⟨_, .nameless (not_exists.mp hnames)⟩

variable {credentials : Option (String × String)} {route : Route} {r : Request}

/-- What is let through gets the answer of its handler, with its content unless only the headers
are asked for. -/
theorem handle_of_admitted [Locators] (hroute : Route.ofPath? r.path = some route)
    (hadmitted : judge credentials r = .admitted) (hmethod : r.method ∈ route.methods)
    (hcontent : r.method ≠ "HEAD") : handle credentials t r = dispatch t route r := by
  have hknown : route.methods.contains r.method = true := List.contains_iff_mem.mpr hmethod
  have hanswer : answer credentials t route r = dispatch t route r :=
    answer_of_admitted hknown fun _ => hadmitted
  simp only [handle, hroute, hanswer, Response.forMethod, hknown, if_true, if_neg hcontent]

theorem handle_post [Locators] (hroute : Route.ofPath? r.path = some .entries)
    (hadmitted : judge credentials r = .admitted) (hpost : r.method = "POST")
    (hfits : r.body.length ≤ bodyLimit) :
    handle credentials t r = conclude (createEntry t r.body).2 (createEntry t r.body).1 := by
  rw [handle_of_admitted hroute hadmitted (by simp [hpost, Route.methods]) (by simp [hpost])]
  simp only [dispatch, hpost, if_neg (Nat.not_lt.mpr hfits)]

theorem handle_put [Locators] {id : List Char} (hroute : Route.ofPath? r.path = some (.entry raw))
    (hdecode : Text.decode? (Text.percentDecode raw) = some id)
    (hadmitted : judge credentials r = .admitted) (hput : r.method = "PUT")
    (hfits : r.body.length ≤ bodyLimit) :
    handle credentials t r = conclude (changeEntry t id r.body).2 (changeEntry t id r.body).1 := by
  rw [handle_of_admitted hroute hadmitted (by simp [hput, Route.methods]) (by simp [hput])]
  simp only [dispatch, handleEntry, hdecode, hput, if_neg (Nat.not_lt.mpr hfits)]

theorem handle_delete [Locators] {id : List Char}
    (hroute : Route.ofPath? r.path = some (.entry raw))
    (hdecode : Text.decode? (Text.percentDecode raw) = some id)
    (hadmitted : judge credentials r = .admitted) (hdelete : r.method = "DELETE") :
    handle credentials t r = conclude (deleteEntry t id).2 (deleteEntry t id).1 := by
  rw [handle_of_admitted hroute hadmitted (by simp [hdelete, Route.methods]) (by simp [hdelete])]
  simp only [dispatch, handleEntry, hdecode, hdelete]

/-- After any history of visits, a request that is let through is answered as its first failing
stage says, or with success if it passes them all; and a request that is not answered with success
changes nothing but the log. -/
theorem answers_exact [Locators] (credentials : Option (String × String)) (start : Instant)
    (source : IdSource) (replies : List RestartReply) (hsource : none ∉ source.script)
    (visits : List Visit) :
    let t := serve credentials (Timetable.opening start source replies) visits
    (∀ r : Request, judge credentials r = .admitted → r.body.length ≤ bodyLimit →
      (Route.ofPath? r.path = some .entries → r.method = "POST" → ∀ reply,
        (handle credentials t r).1.reply = reply ↔ Creation r.body t.now reply) ∧
      ∀ raw id, Route.ofPath? r.path = some (.entry raw) →
        Text.decode? (Text.percentDecode raw) = some id →
        (r.method = "PUT" → ∀ reply,
          (handle credentials t r).1.reply = reply ↔ Change t id r.body reply) ∧
        (r.method = "DELETE" → ∀ reply,
          (handle credentials t r).1.reply = reply ↔ Deletion t id reply)) ∧
    ∀ r : Request, (handle credentials t r).1.isSuccess = false →
      ∃ lines : List LogLine,
        (handle credentials t r).2 = { t with journal := lines.map .logged ++ t.journal } := by
  intro t
  have horder : t.InOrder := inOrder_serve (Timetable.inOrder_opening start replies hsource) visits
  refine ⟨fun r hadmitted hfits => ⟨fun hroute hpost reply => ?_, fun raw id hroute hdecode =>
    ⟨fun hput reply => ?_, fun hdelete reply => ?_⟩⟩, fun r hfailed => ?_⟩
  · rw [handle_post hroute hadmitted hpost hfits]
    obtain ⟨actual, hactual⟩ := exists_creation r.body t.now
    constructor
    · rintro rfl
      rwa [reply_createEntry horder hactual]
    · exact reply_createEntry horder
  · rw [handle_put hroute hdecode hadmitted hput hfits]
    obtain ⟨actual, hactual⟩ := exists_change t id r.body
    constructor
    · rintro rfl
      rwa [reply_changeEntry horder hactual]
    · exact reply_changeEntry horder
  · rw [handle_delete hroute hdecode hadmitted hdelete]
    obtain ⟨actual, hactual⟩ := exists_deletion t id
    constructor
    · rintro rfl
      rwa [reply_deleteEntry horder hactual]
    · exact reply_deleteEntry horder
  · have hleaves := leaves_handle horder credentials r
    generalize handle credentials t r = result at hfailed hleaves
    cases hleaves with
    | asItWas lines => exact ⟨lines, rfl⟩
    | after act hact success =>
      rw [success] at hfailed
      cases hfailed

/-- Of two entries that are to be taken out, one is there. -/
theorem answers_exact_of_removals :
    let octets (s : String) : List UInt8 := Text.encode s.toList
    let order : Request := ⟨"POST", "/api/v0/tasks", [], octets "\x7b\"type\":\"no-op\"\x7d"⟩
    let t := serve none (Timetable.opening .epoch {} []) [.request order, .pass 5]
    (handle none t ⟨"DELETE", "/api/v0/tasks/1001", [], []⟩).1.reply = ⟨204, none⟩ ∧
      (handle none t ⟨"DELETE", "/api/v0/tasks/7", [], []⟩).1.reply = ⟨404, some "NOT_FOUND"⟩ ∧
      ∃ lines : List LogLine, (handle none t ⟨"DELETE", "/api/v0/tasks/7", [], []⟩).2 =
        { t with journal := lines.map .logged ++ t.journal } := by
  intro octets order t
  obtain ⟨hanswers, hunchanged⟩ :=
    answers_exact none .epoch {} [] (by simp) [.request order, .pass 5]
  have hreply (path : String) (raw id : List Char)
      (hroute : Route.ofPath? path = some (.entry raw))
      (hdecode : Text.decode? (Text.percentDecode raw) = some id) (reply : Reply) :
      Deletion t id reply → (handle none t ⟨"DELETE", path, [], []⟩).1.reply = reply := by
    have hanswer := (hanswers ⟨"DELETE", path, [], []⟩ rfl (Nat.zero_le _)).2 raw id hroute hdecode
    exact (hanswer.2 rfl reply).mpr
  have hdeletion : Deletion t "1001".toList ⟨204, none⟩ :=
    .deleted (⟨by decide +kernel, by decide⟩ : Names "1001".toList 1001) (by decide +kernel)
  have hmissing : Deletion t ['7'] ⟨404, some "NOT_FOUND"⟩ :=
    .absent (⟨by decide +kernel, by decide⟩ : Names ['7'] 7) (by decide +kernel)
  have hdeleted := hreply "/api/v0/tasks/1001" "1001".toList _ (by decide +kernel)
    (by decide +kernel) _ hdeletion
  have habsent := hreply "/api/v0/tasks/7" ['7'] _ (by decide +kernel) (by decide +kernel) _
    hmissing
  have hfailed : (handle none t ⟨"DELETE", "/api/v0/tasks/7", [], []⟩).1.isSuccess = false := by
    have hstatus : (handle none t ⟨"DELETE", "/api/v0/tasks/7", [], []⟩).1.status = 404 :=
      congrArg Reply.status habsent
    rw [Response.isSuccess, hstatus]
    rfl
  exact ⟨hdeleted, habsent, hunchanged _ hfailed⟩

end Web

end Almanac
