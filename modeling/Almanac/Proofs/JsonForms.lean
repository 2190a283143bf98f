import Almanac.Proofs.PuttingBack

/-!
# Reading the JSON forms back

Descriptions of tasks and of entries and the fields of a plan are read back as they were written,
as values and as texts. Members that have no part in an object change nothing, and null is as good
as no member where one may be missing. So writing what was read gives what reads the same again.
-/

namespace Almanac

namespace Json

variable {σ : Type} {take : σ → String × Json → Shaped σ}

theorem foldlM_of_take {m : String × Json} {start next : σ} (h : take start m = .ok next)
    (members : List (String × Json)) :
    (m :: members).foldlM take start = members.foldlM take next := by
  rw [List.foldlM_cons, h]
  rfl

/-- Members that are passed over may be left out. -/
theorem foldlM_filter {known : List String}
    (hpass : ∀ f m, m.1 ∉ known → take f m = .ok f) (members : List (String × Json)) (start : σ) :
    members.foldlM take start = (members.filter fun m => m.1 ∈ known).foldlM take start := by
  induction members generalizing start with
  | nil => rfl
  | cons m members ih =>
    by_cases hm : m.1 ∈ known
    · rw [List.filter_cons_of_pos (by simpa using hm), List.foldlM_cons, List.foldlM_cons]
      exact congrArg _ (funext ih)
    · rw [List.filter_cons_of_neg (by simpa using hm), List.foldlM_cons, hpass start m hm]
      exact ih start

/-- Only the members that are not passed over matter. -/
theorem foldlM_congr {known : List String} (hpass : ∀ f m, m.1 ∉ known → take f m = .ok f)
    {members others : List (String × Json)}
    (h : members.filter (fun m => m.1 ∈ known) = others.filter fun m => m.1 ∈ known) (start : σ) :
    others.foldlM take start = members.foldlM take start := by
  rw [foldlM_filter hpass others, ← h, ← foldlM_filter hpass members]

/-- A member that leaves what was read is as good as none where nothing was read under its name. -/
theorem foldlM_putMember (Clean : σ → Prop) {name : String} {value : Json}
    (hkeep : ∀ f f' m, m.1 ≠ name → take f m = .ok f' → Clean f → Clean f')
    (hvalue : ∀ f, Clean f → take f (name, value) = .ok f) {members : List (String × Json)}
    (habsent : members.lookup name = none) {start : σ} (hstart : Clean start) :
    (putMember name value members).foldlM take start = members.foldlM take start := by
  induction members generalizing start with
  | nil =>
    rw [putMember, List.foldlM_cons, hvalue start hstart]
    rfl
  | cons m members ih =>
    obtain ⟨other, old⟩ := m
    rw [lookup_member] at habsent
    split at habsent
    · cases habsent
    · next hother =>
      rw [putMember]
      -- either the new member comes first, or it comes later and nothing is read for it before
      split
      · rw [List.foldlM_cons, hvalue start hstart]
        rfl
      · rw [List.foldlM_cons, List.foldlM_cons]
        cases htake : take start (other, old) with
        | error e => rfl
        | ok f =>
          exact ih habsent (hkeep start f (other, old) (Ne.symm hother) htake hstart)

/-- What holds of the start and is kept by every member holds of what is read. -/
theorem foldlM_keeps {P : σ → Prop} (hkeep : ∀ f f' m, take f m = .ok f' → P f → P f')
    {members : List (String × Json)} {start final : σ} (hstart : P start)
    (h : members.foldlM take start = .ok final) : P final := by
  induction members generalizing start with
  | nil =>
    cases h
    exact hstart
  | cons m members ih =>
    rw [List.foldlM_cons] at h
    obtain ⟨f, hf, h⟩ := bind_eq_ok_iff.mp h
    exact ih (hkeep start f m hf hstart) h

theorem required_eq_ok_iff {α : Type} {name : String} {field : Option α} {a : α} :
    required name field = .ok a ↔ field = some a := by
  cases field <;> simp [required]

end Json

/-- Holds of a way to write values that fit as JSON, and to read them, if what is written is read
back, as a value and as a text, and if objects are read for their known members alone, of which
null counts as missing for those that may be missing. -/
structure IsForm {α : Type} (json : α → Json) (members : α → List (String × Json))
    (read : Json → Shaped α) (known : Json → List String) (optional : List String)
    (Fits : α → Prop) : Prop where
  /-- What is written is read back. -/
  back : ∀ a, Fits a → read (json a) = .ok a
  /-- What is printed, the members in the order of the fields, is read back. -/
  printed : ∀ a, Fits a → ∃ value,
    Json.readOctets (Text.encode (Json.object (members a)).text) = .ok value ∧ read value = .ok a
  /-- What is read of any value is read again once it is written. -/
  again : ∀ value a, read value = .ok a → read (json a) = .ok a
  /-- Other members change nothing, wherever they are put in, replaced or taken out. -/
  foreign : ∀ ms others, ms.filter (fun m => m.1 ∈ known (.object ms)) =
    others.filter (fun m => m.1 ∈ known (.object ms)) → read (.object others) = read (.object ms)
  /-- Null is as good as no member. -/
  null : ∀ ms, ∀ name ∈ optional, ms.lookup name = none →
    read (.object (Json.putMember name .null ms)) = read (.object ms)

namespace TaskView

variable {v : TaskView} {kind : String}

/-- Holds of the descriptions whose number has 64 bits at most. -/
def Fits (v : TaskView) : Prop :=
  ∀ token build, v = restart token build → build < 2 ^ 64

/-- The members that an object is read for: the tag, and the fields of the kind that it names. -/
def known (value : Json) : List String :=
  "type" ::
    match value.member? "type" with
    | some (.string kind) => fieldNames kind
    | _ => []

theorem tag_mem_known (value : Json) : "type" ∈ known value :=
  List.mem_cons_self

theorem take_of_unknown {f : Fields} {m : String × Json} (h : m.1 ∉ fieldNames kind) :
    f.take kind m = .ok f := by
  unfold Fields.take
  split
  · exact absurd (by simp [fieldNames]) h
  · exact absurd (by simp [fieldNames]) h
  · exact absurd (by simp [fieldNames]) h
  · exact absurd (by simp [fieldNames]) h
  · rfl

/-- The JSON form, with the members in their places. -/
theorem json_eq (v : TaskView) : v.json = .object
    (match v with
    | restart token build =>
      [("build_id", .nat build), ("token", .string token), ("type", .string "travis-re-run")]
    | fetch url => [("type", .string "url-get"), ("url", .string url)]
    | pause length => [("sleep_duration", .string length), ("type", .string "no-op")]) := by
  have hbuild : "build_id" < "type" ∧ "build_id" < "token" := by decide +kernel
  have htoken : "token" < "type" := by decide +kernel
  have hurl : ¬"url" < "type" := by decide +kernel
  have hlength : "sleep_duration" < "type" := by decide +kernel
  cases v <;> simp [json, kind, Json.ofMembers, Json.placed, Json.putMember, hbuild, htoken, hurl,
    hlength]

/-- An object with a tag is read for the fields of the kind. -/
theorem ofJson_object {members : List (String × Json)}
    (htag : members.lookup "type" = some (.string kind)) (hkind : kind ∈ kinds) :
    ofJson (.object members) =
      (members.foldlM (Fields.take kind) {}).bind (ofFields kind) := by
  have hcontains : kinds.contains kind = true := by simpa using hkind
  have hkindOf : kindOf (.string kind) = .ok kind := if_pos hcontains
  rw [ofJson, htag]
  change (kindOf (.string kind)).bind _ = _
  rw [hkindOf]
  rfl

/-- An object without a known tag is refused for its tag alone. -/
theorem ofJson_untagged {members others : List (String × Json)}
    (hsame : others.lookup "type" = members.lookup "type")
    (htag : ∀ kind ∈ kinds, members.lookup "type" ≠ some (.string kind)) :
    ofJson (.object others) = ofJson (.object members) := by
  rw [ofJson, ofJson, hsame]
  cases hlookup : members.lookup "type" with
  | none => rfl
  | some tag =>
    have hrefused : ∃ e, kindOf tag = .error e := by
      cases tag with
      | string kind =>
        refine ⟨.unknownVariant kind kinds, if_neg fun hcontains => ?_⟩
        exact htag kind (by simpa using hcontains) hlookup
      | _ => exact ⟨_, rfl⟩
    obtain ⟨e, he⟩ := hrefused
    change (kindOf tag).bind _ = (kindOf tag).bind _
    rw [he]
    rfl

theorem ofJson_json (h : v.Fits) : ofJson v.json = .ok v := by
  rw [json_eq]
  cases v with
  | restart token build =>
    have hbuild : (Json.nat build).asWord 64 = .ok build :=
      Task.asWord_eq_ok_iff.mpr ⟨rfl, h token build rfl⟩
    have htake (f : Fields) : f.take "travis-re-run" ("build_id", .nat build) =
        .ok { f with build := some build } := by
      simp only [Fields.take, hbuild]
      rfl
    rw [ofJson_object rfl (by decide), List.foldlM_cons, htake]
    rfl
  | fetch url => rfl
  | pause length => rfl

/-- Holds of fields whose number has 64 bits at most. -/
def Fields.Fit (f : Fields) : Prop :=
  ∀ build, f.build = some build → build < 2 ^ 64

theorem Fields.Fit.take {f f' : Fields} {m : String × Json} (h : f.take kind m = .ok f')
    (hf : f.Fit) : f'.Fit := by
  unfold Fields.take at h
  split at h
  · obtain ⟨n, hn, h⟩ := bind_eq_ok_iff.mp h
    cases h
    rintro build ⟨⟩
    exact (Task.asWord_eq_ok_iff.mp hn).2
  · obtain ⟨s, -, h⟩ := bind_eq_ok_iff.mp h
    cases h
    exact hf
  · obtain ⟨s, -, h⟩ := bind_eq_ok_iff.mp h
    cases h
    exact hf
  · obtain ⟨s, -, h⟩ := bind_eq_ok_iff.mp h
    cases h
    exact hf
  · cases h
    exact hf

theorem Fields.Fit.ofFields {f : Fields} (hf : f.Fit) (h : ofFields kind f = .ok v) : v.Fits := by
  unfold TaskView.ofFields at h
  split at h
  · obtain ⟨token, -, h⟩ := bind_eq_ok_iff.mp h
    obtain ⟨build, hbuild, h⟩ := bind_eq_ok_iff.mp h
    cases h
    rintro _ _ ⟨⟩
    exact hf build (Json.required_eq_ok_iff.mp hbuild)
  · obtain ⟨url, -, h⟩ := bind_eq_ok_iff.mp h
    cases h
    rintro _ _ ⟨⟩
  · obtain ⟨length, -, h⟩ := bind_eq_ok_iff.mp h
    cases h
    rintro _ _ ⟨⟩

/-- What is read has a number of 64 bits at most. -/
theorem fits_of_ofJson {value : Json} (h : ofJson value = .ok v) : v.Fits := by
  have hstart : Fields.Fit {} := fun build h => by cases h
  unfold ofJson at h
  split at h
  · obtain ⟨tag, -, h⟩ := bind_eq_ok_iff.mp h
    obtain ⟨kind, -, h⟩ := bind_eq_ok_iff.mp h
    obtain ⟨f, hf, h⟩ := bind_eq_ok_iff.mp h
    exact (Json.foldlM_keeps (fun _ _ _ => Fields.Fit.take) hstart hf).ofFields h
  · cases h
  · obtain ⟨kind, -, h⟩ := bind_eq_ok_iff.mp h
    obtain ⟨f, hf, h⟩ := bind_eq_ok_iff.mp h
    split at h
    · cases h
    split at h
    · cases h
    exact (Json.foldlM_keeps (fun _ _ _ => Fields.Fit.take) hstart hf).ofFields h
  · cases h

/-- Members that an object is not read for change nothing. -/
theorem ofJson_congr {members others : List (String × Json)}
    (h : members.filter (fun m => m.1 ∈ known (.object members)) =
      others.filter fun m => m.1 ∈ known (.object members)) :
    ofJson (.object others) = ofJson (.object members) := by
  have hsame : others.lookup "type" = members.lookup "type" := by
    have htag : decide ("type" ∈ known (.object members)) = true :=
      decide_eq_true (tag_mem_known (.object members))
    rw [← Json.lookup_filter (p := fun n => n ∈ known (.object members)) htag others, ← h,
      Json.lookup_filter (p := fun n => n ∈ known (.object members)) htag]
  -- without a known tag nothing but the tag is looked at
  by_cases htag : ∃ kind ∈ kinds, members.lookup "type" = some (.string kind)
  · obtain ⟨kind, hkind, htag⟩ := htag
    have hknown : known (.object members) = "type" :: fieldNames kind := by
      have hmember : (Json.object members).member? "type" = some (.string kind) := htag
      rw [known, hmember]
    rw [hknown] at h
    have hpass (f : Fields) (m : String × Json) (hm : m.1 ∉ "type" :: fieldNames kind) :
        f.take kind m = .ok f := take_of_unknown fun hmem => hm (List.mem_cons_of_mem _ hmem)
    rw [ofJson_object htag hkind, ofJson_object (hsame.trans htag) hkind,
      Json.foldlM_congr hpass h]
  · exact ofJson_untagged hsame fun kind hkind heq => htag ⟨kind, hkind, heq⟩

theorem isForm : IsForm json members ofJson known [] Fits where
  back v h := ofJson_json h
  printed v h := ⟨v.json, readOctets_members h, ofJson_json h⟩
  again value v h := ofJson_json (fits_of_ofJson h)
  foreign ms others h := ofJson_congr h
  null ms name hname := by cases hname

end TaskView

namespace EntryView

variable {v : EntryView}

/-- Holds of the descriptions with an id of 32 bits and other numbers of 64 bits at most. -/
structure Proper (v : EntryView) : Prop where
  id : v.id < 2 ^ 32
  handle : ∀ handle, v.handle = some handle → handle < 2 ^ 64
  task : v.task.Fits

theorem Proper.fits (h : v.Proper) : v.Fits :=
  ⟨Nat.lt_trans h.id (by decide), h.handle, h.task⟩

theorem asOptional_of_ne_null {α : Type} {value : Json} (h : value ≠ .null)
    (shape : Json → Shaped α) : value.asOptional shape = (shape value).map some := by
  cases value with
  | null => exact absurd rfl h
  | _ => rfl

/-- A number or none is read back from a number or null. -/
theorem asOptional_ofOption {handle : Option Nat} (h : ∀ n, handle = some n → n < 2 ^ 64) :
    (Json.ofOption Json.nat handle).asOptional (Json.asWord 64) = .ok handle := by
  cases handle with
  | none => rfl
  | some n =>
    have hword : (Json.nat n).asWord 64 = .ok n := Task.asWord_eq_ok_iff.mpr ⟨rfl, h n rfl⟩
    rw [Json.ofOption, asOptional_of_ne_null (by simp [Json.nat]), hword]
    rfl

section

variable (f : Fields) {value : Json}

theorem take_id {id : Nat} (h : value.asWord 32 = .ok id) :
    f.take ("id", value) = .ok { f with id := some id } := by
  simp only [Fields.take, h]
  rfl

theorem take_due {due : Instant} (h : value.asInstant = .ok due) :
    f.take ("next_fire_time", value) = .ok { f with due := some due } := by
  simp only [Fields.take, h]
  rfl

theorem take_handle {handle : Option Nat} (h : value.asOptional (Json.asWord 64) = .ok handle) :
    f.take ("entry_handle", value) = .ok { f with handle } := by
  simp only [Fields.take, h]
  rfl

theorem take_task {task : TaskView} (h : TaskView.ofJson value = .ok task) :
    f.take ("task", value) = .ok { f with task := some task } := by
  simp only [Fields.take, h]
  rfl

end

/-- A description of an entry is read back. -/
theorem ofJson_json_self (h : v.Proper) : EntryView.ofJson v.json = .ok v := by
  have hid : (Json.nat v.id).asWord 32 = .ok v.id := Task.asWord_eq_ok_iff.mpr ⟨rfl, h.id⟩
  have hperiod (f : Fields) : f.take ("frequency", .string v.period) =
      .ok { f with period := some v.period } := rfl
  rw [json_eq, EntryView.ofJson, Json.foldlM_of_take (take_handle _ (asOptional_ofOption h.handle)),
    Json.foldlM_of_take (hperiod _), Json.foldlM_of_take (take_id _ hid),
    Json.foldlM_of_take (take_due _ (asInstant_iso v.due)),
    Json.foldlM_of_take (take_task _ (TaskView.ofJson_json h.task))]
  rfl

theorem take_of_unknown {f : Fields} {m : String × Json} (h : m.1 ∉ fieldNames) :
    f.take m = .ok f := by
  unfold Fields.take
  split
  · exact absurd (by simp [fieldNames]) h
  · exact absurd (by simp [fieldNames]) h
  · exact absurd (by simp [fieldNames]) h
  · exact absurd (by simp [fieldNames]) h
  · exact absurd (by simp [fieldNames]) h
  · rfl

/-- Holds of fields with numbers that are not too large. -/
structure Fields.Proper (f : Fields) : Prop where
  id : ∀ id, f.id = some id → id < 2 ^ 32
  handle : ∀ handle, f.handle = some handle → handle < 2 ^ 64
  task : ∀ task, f.task = some task → task.Fits

theorem Fields.Proper.take {f f' : Fields} {m : String × Json} (h : f.take m = .ok f')
    (hf : f.Proper) : f'.Proper := by
  unfold Fields.take at h
  split at h
  · obtain ⟨id, hid, h⟩ := bind_eq_ok_iff.mp h
    cases h
    exact { hf with id := fun _ heq => by cases heq; exact (Task.asWord_eq_ok_iff.mp hid).2 }
  · obtain ⟨due, -, h⟩ := bind_eq_ok_iff.mp h
    cases h
    exact { hf with }
  · obtain ⟨period, -, h⟩ := bind_eq_ok_iff.mp h
    cases h
    exact { hf with }
  · next value =>
    obtain ⟨handle, hhandle, h⟩ := bind_eq_ok_iff.mp h
    cases h
    refine { hf with handle := fun n hn => ?_ }
    cases hn
    by_cases hnull : value = .null
    · subst hnull
      cases hhandle
    · rw [asOptional_of_ne_null hnull] at hhandle
      obtain ⟨m, hm, heq⟩ := map_eq_ok_iff.mp hhandle
      cases heq
      exact (Task.asWord_eq_ok_iff.mp hm).2
  · obtain ⟨task, htask, h⟩ := bind_eq_ok_iff.mp h
    cases h
    exact { hf with task := fun _ heq => by cases heq; exact TaskView.fits_of_ofJson htask }
  · cases h
    exact hf

/-- Holds of fields without a handle. -/
theorem Fields.handle_of_take {f f' : Fields} {m : String × Json} (hm : m.1 ≠ "entry_handle")
    (h : f.take m = .ok f') (hf : f.handle = none) : f'.handle = none := by
  unfold Fields.take at h
  split at h
  · obtain ⟨id, -, h⟩ := bind_eq_ok_iff.mp h
    cases h
    exact hf
  · obtain ⟨due, -, h⟩ := bind_eq_ok_iff.mp h
    cases h
    exact hf
  · obtain ⟨period, -, h⟩ := bind_eq_ok_iff.mp h
    cases h
    exact hf
  · exact absurd rfl hm
  · obtain ⟨task, -, h⟩ := bind_eq_ok_iff.mp h
    cases h
    exact hf
  · cases h
    exact hf

theorem Fields.Proper.ofFields {f : Fields} (hf : f.Proper) (h : ofFields f = .ok v) :
    v.Proper := by
  obtain ⟨id, hid, h⟩ := bind_eq_ok_iff.mp h
  obtain ⟨due, -, h⟩ := bind_eq_ok_iff.mp h
  obtain ⟨period, -, h⟩ := bind_eq_ok_iff.mp h
  obtain ⟨task, htask, h⟩ := bind_eq_ok_iff.mp h
  cases h
  exact ⟨hf.id id (Json.required_eq_ok_iff.mp hid), hf.handle,
    hf.task task (Json.required_eq_ok_iff.mp htask)⟩

/-- What is read has numbers that are not too large. -/
theorem proper_of_ofJson {value : Json} (h : EntryView.ofJson value = .ok v) : v.Proper := by
  have hstart : Fields.Proper {} :=
    ⟨fun _ h => (by cases h), fun _ h => (by cases h), fun _ h => (by cases h)⟩
  unfold EntryView.ofJson at h
  split at h
  · obtain ⟨f, hf, h⟩ := bind_eq_ok_iff.mp h
    exact (Json.foldlM_keeps (fun _ _ _ => Fields.Proper.take) hstart hf).ofFields h
  · obtain ⟨f, hf, h⟩ := bind_eq_ok_iff.mp h
    split at h
    · cases h
    split at h
    · cases h
    exact (Json.foldlM_keeps (fun _ _ _ => Fields.Proper.take) hstart hf).ofFields h
  · cases h

/-- Members that a description is not read for change nothing. -/
theorem ofJson_congr {ms others : List (String × Json)}
    (h : ms.filter (fun m => m.1 ∈ fieldNames) = others.filter fun m => m.1 ∈ fieldNames) :
    EntryView.ofJson (.object others) = EntryView.ofJson (.object ms) := by
  rw [EntryView.ofJson, EntryView.ofJson, Json.foldlM_congr (fun _ _ => take_of_unknown) h]

/-- No handle is as good as null. -/
theorem ofJson_null {ms : List (String × Json)} (h : ms.lookup "entry_handle" = none) :
    EntryView.ofJson (.object (Json.putMember "entry_handle" .null ms)) =
      EntryView.ofJson (.object ms) := by
  have hnull (f : Fields) (hf : f.handle = none) : f.take ("entry_handle", .null) = .ok f := by
    obtain ⟨id, due, period, handle, task⟩ := f
    cases hf
    rfl
  rw [EntryView.ofJson, EntryView.ofJson, Json.foldlM_putMember (fun f => f.handle = none)
    (fun _ _ _ => Fields.handle_of_take) hnull h rfl]

/-- What a task is written like does not matter as long as the same is read of it. -/
theorem ofJson_task {before after : List (String × Json)} {a b : Json}
    (h : TaskView.ofJson a = TaskView.ofJson b) :
    EntryView.ofJson (.object (before ++ ("task", a) :: after)) =
      EntryView.ofJson (.object (before ++ ("task", b) :: after)) := by
  have htake (f : Fields) : f.take ("task", a) = f.take ("task", b) := by
    simp only [Fields.take, h]
  simp only [EntryView.ofJson, List.foldlM_append, List.foldlM_cons, htake]

theorem isForm : IsForm json members EntryView.ofJson (fun _ => fieldNames) ["entry_handle"]
    Proper where
  back v h := ofJson_json_self h
  printed v h := ⟨v.json, readOctets_members h.fits, ofJson_json_self h⟩
  again value v h := ofJson_json_self (proper_of_ofJson h)
  foreign ms others h := ofJson_congr h
  null ms name hname h := by
    cases List.mem_singleton.mp hname
    exact ofJson_null h

end EntryView

namespace PlanRequest

variable {r r' : PlanRequest}

/-- A member, if there is a value for it. -/
def given (name : String) (value : Option Json) : List (String × Json) :=
  (value.map fun v => (name, v)).toList

/-- The value that a name has in the JSON form, if it is there. -/
def written (r : PlanRequest) : String → Option Json
  | "next_fire_time" => r.first.map fun t => .string t.iso
  | "frequency" => r.period.map .string
  | "schedule" => r.expression.map .string
  | _ => none

def members (r : PlanRequest) : List (String × Json) :=
  fieldNames.flatMap fun name => given name (r.written name)

/-- The JSON form, with the members in their places. -/
theorem json_eq (r : PlanRequest) : r.json = .object
    (["frequency", "next_fire_time", "schedule"].flatMap fun name =>
      given name (r.written name)) := by
  have hfirst : "frequency" < "next_fire_time" ∧ ¬"schedule" < "frequency" := by decide +kernel
  have hlast : ¬"schedule" < "next_fire_time" := by decide +kernel
  obtain ⟨first, period, expression⟩ := r
  cases first <;> cases period <;> cases expression <;>
    simp [json, given, written, Json.ofMembers, Json.placed, Json.putMember, hfirst, hlast]

theorem lookup_given (wanted name : String) (value : Option Json) (ms : List (String × Json)) :
    (given name value ++ ms).lookup wanted =
      if wanted = name then value.or (ms.lookup wanted) else ms.lookup wanted := by
  cases value with
  | none => exact (ite_self _).symm
  | some v => exact Json.lookup_member wanted name v ms

/-- A field is in the JSON form exactly if it is given. -/
theorem member?_json (r : PlanRequest) (name : String) : r.json.member? name = r.written name := by
  rw [json_eq]
  change List.lookup name _ = _
  simp only [List.flatMap_cons, List.flatMap_nil, lookup_given, List.lookup_nil, Option.or_none]
  split
  · next h => simp [h]
  split
  · next h => simp [h]
  split
  · next h => simp [h]
  · next hperiod hfirst hexpression =>
    unfold written
    split
    · exact absurd rfl hfirst
    · exact absurd rfl hperiod
    · exact absurd rfl hexpression
    · rfl

theorem take_of_unknown {m : String × Json} (h : m.1 ∉ fieldNames) : r.take m = .ok r := by
  unfold take
  split
  · exact absurd (by simp [fieldNames]) h
  · exact absurd (by simp [fieldNames]) h
  · exact absurd (by simp [fieldNames]) h
  · rfl

/-- A member bears on its own field alone. -/
theorem frame_of_take {m : String × Json} (h : r.take m = .ok r') :
    (m.1 ≠ "next_fire_time" → r'.first = r.first) ∧ (m.1 ≠ "frequency" → r'.period = r.period) ∧
      (m.1 ≠ "schedule" → r'.expression = r.expression) := by
  unfold take at h
  split at h
  · obtain ⟨first, -, h⟩ := bind_eq_ok_iff.mp h
    cases h
    exact ⟨fun hne => absurd rfl hne, fun _ => rfl, fun _ => rfl⟩
  · obtain ⟨period, -, h⟩ := bind_eq_ok_iff.mp h
    cases h
    exact ⟨fun _ => rfl, fun hne => absurd rfl hne, fun _ => rfl⟩
  · obtain ⟨expression, -, h⟩ := bind_eq_ok_iff.mp h
    cases h
    exact ⟨fun _ => rfl, fun _ => rfl, fun hne => absurd rfl hne⟩
  · cases h
    exact ⟨fun _ => rfl, fun _ => rfl, fun _ => rfl⟩

/-- Reading a field that may be there. -/
theorem foldlM_given {name : String} {value : Option Json}
    (h : match value with
      | none => r = r'
      | some v => r.take (name, v) = .ok r') (ms : List (String × Json)) :
    (given name value ++ ms).foldlM take r = ms.foldlM take r' := by
  cases value with
  | none => rw [h]; rfl
  | some v => exact Json.foldlM_of_take h ms

/-- A request is read back. -/
theorem ofJson_json (r : PlanRequest) : PlanRequest.ofJson r.json = .ok r := by
  have hperiod : match r.written "frequency" with
      | none => ({} : PlanRequest) = { period := r.period }
      | some v => ({} : PlanRequest).take ("frequency", v) = .ok { period := r.period } := by
    obtain ⟨first, period, expression⟩ := r
    cases period <;> rfl
  have hfirst : match r.written "next_fire_time" with
      | none => ({ period := r.period } : PlanRequest) = { first := r.first, period := r.period }
      | some v => ({ period := r.period } : PlanRequest).take ("next_fire_time", v) =
        .ok { first := r.first, period := r.period } := by
    obtain ⟨first, period, expression⟩ := r
    cases first with
    | none => rfl
    | some t =>
      have ht := EntryView.asInstant_iso t
      simp only [written, Option.map_some, take, Json.asOptional, ht]
      rfl
  have hexpression : match r.written "schedule" with
      | none => ({ first := r.first, period := r.period } : PlanRequest) = r
      | some v => ({ first := r.first, period := r.period } : PlanRequest).take ("schedule", v) =
        .ok r := by
    obtain ⟨first, period, expression⟩ := r
    cases expression <;> rfl
  rw [json_eq, PlanRequest.ofJson, List.flatMap_cons, foldlM_given hperiod, List.flatMap_cons,
    foldlM_given hfirst, List.flatMap_cons, foldlM_given hexpression]
  rfl

theorem readOctets_members (r : PlanRequest) :
    Json.readOctets (Text.encode (Json.object r.members).text) = .ok r.json := by
  have hexact : (Json.object r.members).IsExact JsonReader.depthLimit := by
    obtain ⟨first, period, expression⟩ := r
    cases first <;> cases period <;> cases expression <;>
      simp [members, fieldNames, written, given, Json.IsExact, Json.MembersExact,
        JsonReader.depthLimit]
  have hsorted : (Json.object r.members).sorted = r.json := by
    obtain ⟨first, period, expression⟩ := r
    cases first <;> cases period <;> cases expression <;> rfl
  rw [Json.readOctets_text hexact, hsorted]

/-- Members that a request is not read for change nothing. -/
theorem ofJson_congr {ms others : List (String × Json)}
    (h : ms.filter (fun m => m.1 ∈ fieldNames) = others.filter fun m => m.1 ∈ fieldNames) :
    PlanRequest.ofJson (.object others) = PlanRequest.ofJson (.object ms) := by
  rw [PlanRequest.ofJson, PlanRequest.ofJson, Json.foldlM_congr (fun _ _ => take_of_unknown) h]

/-- Null is as good as no field. -/
theorem ofJson_null {ms : List (String × Json)} {name : String} (hname : name ∈ fieldNames)
    (h : ms.lookup name = none) :
    PlanRequest.ofJson (.object (Json.putMember name .null ms)) =
      PlanRequest.ofJson (.object ms) := by
  rw [PlanRequest.ofJson, PlanRequest.ofJson]
  simp only [fieldNames, List.mem_cons, List.not_mem_nil, or_false] at hname
  rcases hname with rfl | rfl | rfl
  · refine Json.foldlM_putMember (fun r => r.first = none)
      (fun r r' m hm htake hr => ((frame_of_take htake).1 hm).trans hr) (fun r hr => ?_) h rfl
    obtain ⟨first, period, expression⟩ := r
    cases hr
    rfl
  · refine Json.foldlM_putMember (fun r => r.period = none)
      (fun r r' m hm htake hr => ((frame_of_take htake).2.1 hm).trans hr) (fun r hr => ?_) h rfl
    obtain ⟨first, period, expression⟩ := r
    cases hr
    rfl
  · refine Json.foldlM_putMember (fun r => r.expression = none)
      (fun r r' m hm htake hr => ((frame_of_take htake).2.2 hm).trans hr) (fun r hr => ?_) h rfl
    obtain ⟨first, period, expression⟩ := r
    cases hr
    rfl

theorem isForm : IsForm json members PlanRequest.ofJson (fun _ => fieldNames) fieldNames
    fun _ => True where
  back r _ := r.ofJson_json
  printed r _ := ⟨r.json, r.readOctets_members, r.ofJson_json⟩
  again _ r _ := r.ofJson_json
  foreign _ _ h := ofJson_congr h
  null _ _ hname h := ofJson_null hname h

end PlanRequest

/-- Descriptions of tasks, descriptions of entries and the fields of a plan are read back as they
were written. Objects are read for their own members alone, the one of a task in an entry as well,
and null for a handle or a field of a plan is as good as none. A plan is written without the
fields that are not given. -/
theorem forms_read_back :
    IsForm TaskView.json TaskView.members TaskView.ofJson TaskView.known [] TaskView.Fits ∧
      IsForm EntryView.json EntryView.members EntryView.ofJson (fun _ => EntryView.fieldNames)
        ["entry_handle"] EntryView.Proper ∧
      IsForm PlanRequest.json PlanRequest.members PlanRequest.ofJson
        (fun _ => PlanRequest.fieldNames) PlanRequest.fieldNames (fun _ => True) ∧
      (∀ before after a b, TaskView.ofJson a = TaskView.ofJson b →
        EntryView.ofJson (.object (before ++ ("task", a) :: after)) =
          EntryView.ofJson (.object (before ++ ("task", b) :: after))) ∧
      ∀ (r : PlanRequest) name, r.json.member? name = r.written name :=
  ⟨TaskView.isForm, EntryView.isForm, PlanRequest.isForm, fun _ _ _ _ => EntryView.ofJson_task,
    PlanRequest.member?_json⟩

/-- The largest numbers, the first day of all, and a leap second in it. -/
def extremeView : EntryView where
  id := 2 ^ 32 - 1
  due := { day := -96465292, second := 86399, nano := 1999999999 }
  period := "now and \u0000 then"
  handle := some (2 ^ 64 - 1)
  task := .restart "" (2 ^ 64 - 1)

theorem forms_read_back_of_extreme :
    let pause := [("sleep_duration", Json.string "1s"), ("type", .string "no-op")]
    let other := pause ++ [("url", .null)]
    extremeView.Proper ∧ EntryView.ofJson extremeView.json = .ok extremeView ∧
      (∃ value, Json.readOctets (Text.encode (Json.object extremeView.members).text) = .ok value ∧
        EntryView.ofJson value = .ok extremeView) ∧
      EntryView.ofJson (.object (Json.putMember "entry_handle" .null [("id", .nat 1)])) =
        EntryView.ofJson (.object [("id", .nat 1)]) ∧
      EntryView.ofJson (.object [("id", .nat 1), ("task", .object other)]) =
        EntryView.ofJson (.object [("id", .nat 1), ("task", .object pause)]) ∧
      PlanRequest.ofJson (.object [("a", .null), ("frequency", .string "1h")]) =
        PlanRequest.ofJson (.object [("frequency", .string "1h")]) := by
  intro pause other
  obtain ⟨htask, hentry, hplan, hinner, -⟩ := forms_read_back
  have hproper : extremeView.Proper :=
    ⟨by decide, fun _ h => by cases h; decide, fun _ _ h => by cases h; decide⟩
  have hpause : TaskView.ofJson (.object other) = TaskView.ofJson (.object pause) :=
    htask.foreign _ _ rfl
  exact ⟨hproper, hentry.back _ hproper, hentry.printed _ hproper,
    hentry.null _ _ (by decide) rfl, hinner [("id", .nat 1)] [] _ _ hpause,
    hplan.foreign _ _ rfl⟩

end Almanac
