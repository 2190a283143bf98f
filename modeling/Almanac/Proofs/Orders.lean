import Almanac.Proofs.Breaks
import Almanac.Proofs.Descriptions

/-!
# Orders

`Task.OrderedBy` says which task a value orders, and `Task.Misordered` why a value orders none: of
several faults the first counts, in the order of its constructors. `orders_exact` shows that making
a task of a value is just that, except that an overfull length of a pause breaks off, and that no
member matters but the type and those of its kind. What a locator is, `Locators` decides: this holds
of any.
-/

namespace Almanac

namespace Json

variable {v : Json}

/-- What a member is at fault for that should be a natural number of 64 bits. -/
def wordFault (v : Json) : ShapeError :=
  match v with
  | number (.integer _) => .wrongValue v "u64"
  | _ => .wrongType v "u64"

theorem asString_of_misfit (h : ∀ s, v ≠ string s) :
    v.asString = .error (.wrongType v "a string") := by
  cases v with
  | string s => exact absurd rfl (h s)
  | _ => rfl

theorem asWord_of_misfit (h : ∀ n < 2 ^ 64, v ≠ nat n) : v.asWord 64 = .error v.wordFault := by
  unfold asWord
  split
  · next n =>
    rw [if_neg]
    · rfl
    · rintro ⟨hlow, hhigh⟩
      obtain ⟨k, rfl⟩ := Int.eq_ofNat_of_zero_le hlow
      exact h k (by omega) rfl
  · next hinteger =>
    unfold wordFault
    split
    · next n => exact absurd rfl (hinteger n)
    · rfl

theorem asOptional_of_misfit (hnull : v ≠ null) (h : ∀ s, v ≠ string s) :
    v.asOptional asString = .error (.wrongType v "a string") := by
  cases v with
  | null => exact absurd rfl hnull
  | string s => exact absurd rfl (h s)
  | _ => rfl

theorem isObject_of_member? {name : String} {w : Json} (h : v.member? name = some w) :
    v.isObject = true := by
  cases v with
  | object members => rfl
  | _ => cases h

end Json

namespace Task

/-- Which task a value orders. -/
inductive OrderedBy [Locators] (value : Json) : Task → Prop
  | restart {token : String} {build : Nat}
      (type : value.member? "type" = some (.string "travis-re-run"))
      (withToken : value.member? "token" = some (.string token)) (named : token ≠ "")
      (withBuild : value.member? "build_id" = some (.nat build)) (counted : 1 ≤ build)
      (fits : build < 2 ^ 64) : OrderedBy value (.restart token build)
  | fetch {url : String} {locator : Url} (type : value.member? "type" = some (.string "url-get"))
      (withUrl : value.member? "url" = some (.string url))
      (worded : Text.isBlankText url.toList = false) (read : Locators.read url = .ok locator) :
      OrderedBy value (.fetch url)
  | noPause (type : value.member? "type" = some (.string "no-op"))
      (withLength : value.member? "sleep_duration" = none ∨
        value.member? "sleep_duration" = some .null ∨
        ∃ text, value.member? "sleep_duration" = some (.string text) ∧
          Text.isBlankText text.toList = true) :
      OrderedBy value (.pause Span.zero)
  | pause {text : String} {length : Span} (type : value.member? "type" = some (.string "no-op"))
      (withLength : value.member? "sleep_duration" = some (.string text))
      (worded : Text.isBlankText text.toList = false) (read : periodOfText text = .ok length) :
      OrderedBy value (.pause length)

/-- Why a value orders no task. Where several faults meet, it is the first of them. -/
inductive Misordered [Locators] (value : Json) : TaskError → Prop
  | untyped (type : value.member? "type" = none ∨ value.member? "type" = some .null ∨
        value.member? "type" = some (.string "")) :
      Misordered value (.missingField "type")
  | mistyped {found : Json} (type : value.member? "type" = some found) (given : found ≠ .null)
      (misfit : ∀ s, found ≠ .string s) :
      Misordered value (.invalidField "type" ("expected a string, got " ++ found.compact))
  | unknown {kind : String} (type : value.member? "type" = some (.string kind)) (named : kind ≠ "")
      (unknown : kind ∉ TaskView.kinds) : Misordered value (.unknownKind kind)
  | badBuild {found : Json} (type : value.member? "type" = some (.string "travis-re-run"))
      (withBuild : value.member? "build_id" = some found) (misfit : ∀ n < 2 ^ 64, found ≠ .nat n) :
      Misordered value (.invalidField "body" found.wordFault.message)
  | badToken {found : Json} (type : value.member? "type" = some (.string "travis-re-run"))
      (withBuild : ∀ v, value.member? "build_id" = some v → ∃ n < 2 ^ 64, v = .nat n)
      (withToken : value.member? "token" = some found) (misfit : ∀ s, found ≠ .string s) :
      Misordered value (.invalidField "body" (ShapeError.wrongType found "a string").message)
  | tokenless (type : value.member? "type" = some (.string "travis-re-run"))
      (withBuild : ∀ v, value.member? "build_id" = some v → ∃ n < 2 ^ 64, v = .nat n)
      (withToken : value.member? "token" = none ∨ value.member? "token" = some (.string "")) :
      Misordered value (.missingField "token")
  | buildless {token : String} (type : value.member? "type" = some (.string "travis-re-run"))
      (withBuild : value.member? "build_id" = none ∨ value.member? "build_id" = some (.nat 0))
      (withToken : value.member? "token" = some (.string token)) (named : token ≠ "") :
      Misordered value (.missingField "build_id")
  | badUrl {found : Json} (type : value.member? "type" = some (.string "url-get"))
      (withUrl : value.member? "url" = some found) (misfit : ∀ s, found ≠ .string s) :
      Misordered value (.invalidField "body" (ShapeError.wrongType found "a string").message)
  | urlless (type : value.member? "type" = some (.string "url-get"))
      (withUrl : value.member? "url" = none ∨
        ∃ text, value.member? "url" = some (.string text) ∧
          Text.isBlankText text.toList = true) :
      Misordered value (.missingField "url")
  | unlocated {url : String} {cause : UrlError}
      (type : value.member? "type" = some (.string "url-get"))
      (withUrl : value.member? "url" = some (.string url))
      (worded : Text.isBlankText url.toList = false) (unread : Locators.read url = .error cause) :
      Misordered value (.invalidField "url" cause.message)
  | badLength {found : Json} (type : value.member? "type" = some (.string "no-op"))
      (withLength : value.member? "sleep_duration" = some found) (given : found ≠ .null)
      (misfit : ∀ s, found ≠ .string s) :
      Misordered value (.invalidField "body" (ShapeError.wrongType found "a string").message)
  | unmeasured {text reason : String} (type : value.member? "type" = some (.string "no-op"))
      (withLength : value.member? "sleep_duration" = some (.string text))
      (worded : Text.isBlankText text.toList = false)
      (unread : periodOfText text = .error (.refused (.invalidSpan text reason))) :
      Misordered value (.invalidField "sleep_duration" (PlanError.invalidSpan text reason).message)

variable {value other : Json} {task : Task} {e : TaskError} {name : String}

section

variable {α : Type} {shape : Json → Shaped α} {default : α}

theorem field_of_absent (h : value.member? name = none) :
    Attempt.ofExcept (field value name shape default) = .ok default := by
  rw [field, h]
  rfl

theorem field_of_misfit {found : Json} {cause : ShapeError} (h : value.member? name = some found)
    (hshape : shape found = .error cause) :
    Attempt.ofExcept (field value name shape default) =
      Attempt.refuse (.invalidField "body" cause.message) := by
  rw [field, h]
  simp only [hshape]
  rfl

theorem field_congr (h : other.member? name = value.member? name) :
    field other name shape default = field value name shape default := by
  rw [field, field, h]

end

theorem ofJson_of_restart [Locators] (h : value.member? "type" = some (.string "travis-re-run")) :
    ofJson value =
      (Attempt.ofExcept (field value "build_id" (Json.asWord 64) 0)).bind fun build =>
        (Attempt.ofExcept (field value "token" Json.asString "")).bind fun token =>
          Attempt.ofExcept (ofRestart token build) := by
  rw [ofJson, orderedKind_of_member h (by decide)]
  rfl

theorem ofJson_of_fetch [Locators] (h : value.member? "type" = some (.string "url-get")) :
    ofJson value = (Attempt.ofExcept (field value "url" Json.asString "")).bind fun url =>
      Attempt.ofExcept (ofFetch url) := by
  rw [ofJson, orderedKind_of_member h (by decide)]
  rfl

theorem ofJson_of_pause [Locators] (h : value.member? "type" = some (.string "no-op")) :
    ofJson value = (Attempt.ofExcept
      (field value "sleep_duration" (Json.asOptional Json.asString) none)).bind ofPause := by
  rw [ofJson, orderedKind_of_member h (by decide)]
  rfl

/-- Once the number of its build is read, a restart is read off its token. -/
theorem ofJson_of_build [Locators] {build : Nat}
    (type : value.member? "type" = some (.string "travis-re-run"))
    (hbuild : Attempt.ofExcept (field value "build_id" (Json.asWord 64) 0) = .ok build) :
    ofJson value = (Attempt.ofExcept (field value "token" Json.asString "")).bind fun token =>
      Attempt.ofExcept (ofRestart token build) := by
  rw [ofJson_of_restart type, hbuild]
  rfl

theorem ofJson_of_token [Locators] {build : Nat} {token : String}
    (type : value.member? "type" = some (.string "travis-re-run"))
    (hbuild : Attempt.ofExcept (field value "build_id" (Json.asWord 64) 0) = .ok build)
    (htoken : value.member? "token" = some (.string token)) :
    ofJson value = Attempt.ofExcept (ofRestart token build) := by
  rw [ofJson_of_build type hbuild, field_of_member Json.asString htoken rfl]
  rfl

theorem ofJson_of_url [Locators] {url : String}
    (type : value.member? "type" = some (.string "url-get"))
    (hurl : value.member? "url" = some (.string url)) :
    ofJson value = Attempt.ofExcept (ofFetch url) := by
  rw [ofJson_of_fetch type, field_of_member Json.asString hurl rfl]
  rfl

theorem ofJson_of_length [Locators] {text : String}
    (type : value.member? "type" = some (.string "no-op"))
    (length : value.member? "sleep_duration" = some (.string text)) :
    ofJson value = ofPause (some text) := by
  rw [ofJson_of_pause type, field_of_member (Json.asOptional Json.asString) length rfl]
  rfl

theorem ofFetch_of_blank [Locators] {url : String} (h : Text.isBlankText url.toList = true) :
    ofFetch url = .error (.missingField "url") := by
  rw [ofFetch, if_pos h]

theorem ofPause_of_worded {text : String} (h : Text.isBlankText text.toList = false) :
    ofPause (some text) = ((periodOfText text).mapReason fun e =>
      .invalidField "sleep_duration" e.message).map .pause := by
  have hworded : ¬Text.isBlankText text.toList = true := by simp [h]
  rw [ofPause, if_neg hworded]

theorem ofJson_of_orderedBy [Locators] (h : OrderedBy value task) : ofJson value = .ok task := by
  cases h with
  | restart type token named build counted fits =>
    have hbuild : Attempt.ofExcept (field value "build_id" (Json.asWord 64) 0) = .ok _ :=
      field_of_member _ build (asWord_eq_ok_iff.mpr ⟨rfl, fits⟩)
    rw [ofJson_of_token type hbuild token]
    exact Attempt.ofExcept_eq_ok_iff.mpr
      (ofRestart_eq_ok_iff.mpr ⟨named, Nat.one_le_iff_ne_zero.mp counted, rfl⟩)
  | fetch type url worded read =>
    rw [ofJson_of_url type url, ofFetch, if_neg (by simp [worded]), read]
    rfl
  | noPause type length =>
    rcases length with length | length | ⟨text, length, hblank⟩
    · rw [ofJson_of_pause type, field_of_absent length]
      rfl
    · rw [ofJson_of_pause type, field_of_member (Json.asOptional Json.asString) length rfl]
      rfl
    · rw [ofJson_of_length type length]
      exact if_pos hblank
  | pause type length worded read =>
    rw [ofJson_of_length type length, ofPause_of_worded worded, read]
    rfl

/-- A number of a build that is not there counts as zero. -/
theorem exists_build
    (h : ∀ v, value.member? "build_id" = some v → ∃ n < 2 ^ 64, v = .nat n) :
    ∃ build, Attempt.ofExcept (field value "build_id" (Json.asWord 64) 0) = .ok build := by
  cases hbuild : value.member? "build_id" with
  | none => exact ⟨0, field_of_absent hbuild⟩
  | some v =>
    obtain ⟨n, hn, rfl⟩ := h v hbuild
    exact ⟨n, field_of_member _ hbuild (asWord_eq_ok_iff.mpr ⟨rfl, hn⟩)⟩

theorem ofJson_of_misordered [Locators] (h : Misordered value e) :
    ofJson value = .error (.refused e) := by
  cases h with
  | untyped type =>
    rcases type with type | type | type <;> rw [ofJson, orderedKind, type] <;> rfl
  | mistyped type given misfit =>
    rename_i found
    have hkind : orderedKind value =
        .error (.invalidField "type" ("expected a string, got " ++ found.compact)) := by
      rw [orderedKind, type]
      cases found with
      | null => exact absurd rfl given
      | string s => exact absurd rfl (misfit s)
      | _ => rfl
    rw [ofJson, hkind]
    rfl
  | unknown type named unknown =>
    rename_i kind
    simp only [TaskView.kinds, List.mem_cons, List.not_mem_nil, or_false, not_or] at unknown
    obtain ⟨hrestart, hfetch, hpause⟩ := unknown
    rw [ofJson, orderedKind_of_member type named]
    dsimp only [bind, Except.bind]
    split
    · exact absurd rfl hrestart
    · exact absurd rfl hfetch
    · exact absurd rfl hpause
    · rfl
  | badBuild type build misfit =>
    rw [ofJson_of_restart type, field_of_misfit build (Json.asWord_of_misfit misfit)]
    rfl
  | badToken type build token misfit =>
    obtain ⟨build, hbuild⟩ := exists_build build
    rw [ofJson_of_build type hbuild, field_of_misfit token (Json.asString_of_misfit misfit)]
    rfl
  | tokenless type build token =>
    obtain ⟨build, hbuild⟩ := exists_build build
    rcases token with token | token
    · rw [ofJson_of_build type hbuild, field_of_absent token]
      rfl
    · rw [ofJson_of_token type hbuild token]
      rfl
  | buildless type build token named =>
    have hbuild : Attempt.ofExcept (field value "build_id" (Json.asWord 64) 0) = .ok 0 := by
      rcases build with build | build
      · exact field_of_absent build
      · exact field_of_member _ build (asWord_eq_ok_iff.mpr ⟨rfl, by decide⟩)
    rw [ofJson_of_token type hbuild token, ofRestart, if_neg (by simpa using named), if_pos rfl]
    rfl
  | badUrl type url misfit =>
    rw [ofJson_of_fetch type, field_of_misfit url (Json.asString_of_misfit misfit)]
    rfl
  | urlless type url =>
    rcases url with url | ⟨text, url, hblank⟩
    · rw [ofJson_of_fetch type, field_of_absent url]
      rfl
    · rw [ofJson_of_url type url, ofFetch_of_blank hblank]
      rfl
  | unlocated type url worded unread =>
    rw [ofJson_of_url type url, ofFetch, if_neg (by simp [worded]), unread]
    rfl
  | badLength type length given misfit =>
    rw [ofJson_of_pause type, field_of_misfit length (Json.asOptional_of_misfit given misfit)]
    rfl
  | unmeasured type length worded unread =>
    rw [ofJson_of_length type length, ofPause_of_worded worded, unread]
    rfl

/-- A member is not there, a text, or something else. -/
theorem text_cases (value : Json) (name : String) :
    value.member? name = none ∨ (∃ s, value.member? name = some (.string s)) ∨
      ∃ found, value.member? name = some found ∧ ∀ s, found ≠ .string s := by
  cases h : value.member? name with
  | none => exact Or.inl rfl
  | some found =>
    cases found with
    | string s => exact Or.inr (Or.inl ⟨s, rfl⟩)
    | _ => exact Or.inr (Or.inr ⟨_, rfl, nofun⟩)

theorem restart_cases [Locators] (type : value.member? "type" = some (.string "travis-re-run")) :
    (∃ task, OrderedBy value task) ∨ ∃ e, Misordered value e := by
  by_cases build : ∀ v, value.member? "build_id" = some v → ∃ n < 2 ^ 64, v = .nat n
  · rcases text_cases value "token" with token | ⟨token, htoken⟩ | ⟨found, token, misfit⟩
    · exact Or.inr ⟨_, .tokenless type build (Or.inl token)⟩
    · by_cases named : token = ""
      · exact Or.inr ⟨_, .tokenless type build (Or.inr (named ▸ htoken))⟩
      · cases hbuild : value.member? "build_id" with
        | none => exact Or.inr ⟨_, .buildless type (Or.inl hbuild) htoken named⟩
        | some v =>
          obtain ⟨n, fits, rfl⟩ := build v hbuild
          rcases Nat.eq_zero_or_pos n with rfl | counted
          · exact Or.inr ⟨_, .buildless type (Or.inr hbuild) htoken named⟩
          · exact Or.inl ⟨_, .restart type htoken named hbuild counted fits⟩
    · exact Or.inr ⟨_, .badToken type build token misfit⟩
  · obtain ⟨v, hv⟩ := not_forall.mp build
    obtain ⟨hbuild, misfit⟩ := Classical.not_imp.mp hv
    exact Or.inr ⟨_, .badBuild type hbuild fun n hn heq => misfit ⟨n, hn, heq⟩⟩

theorem fetch_cases [Locators] (type : value.member? "type" = some (.string "url-get")) :
    (∃ task, OrderedBy value task) ∨ ∃ e, Misordered value e := by
  rcases text_cases value "url" with url | ⟨text, url⟩ | ⟨found, url, misfit⟩
  · exact Or.inr ⟨_, .urlless type (Or.inl url)⟩
  · cases blank : Text.isBlankText text.toList with
    | true => exact Or.inr ⟨_, .urlless type (Or.inr ⟨text, url, blank⟩)⟩
    | false =>
      cases read : Locators.read text with
      | ok locator => exact Or.inl ⟨_, .fetch type url blank read⟩
      | error cause => exact Or.inr ⟨_, .unlocated type url blank read⟩
  · exact Or.inr ⟨_, .badUrl type url misfit⟩

theorem pause_cases [Locators] (type : value.member? "type" = some (.string "no-op")) :
    (∃ task, OrderedBy value task) ∨ (∃ e, Misordered value e) ∨ Overfills value := by
  rcases text_cases value "sleep_duration" with length | ⟨text, length⟩ | ⟨found, length, misfit⟩
  · exact Or.inl ⟨_, .noPause type (Or.inl length)⟩
  · cases blank : Text.isBlankText text.toList with
    | true => exact Or.inl ⟨_, .noPause type (Or.inr (Or.inr ⟨text, length, blank⟩))⟩
    | false =>
      rcases read : periodOfText text with (e | _) | span
      · obtain ⟨reason, rfl⟩ := eq_invalidSpan_of_periodOfText read
        exact Or.inr (Or.inl ⟨_, .unmeasured type length blank read⟩)
      · exact Or.inr (Or.inr ⟨type, text, length, periodOfText_eq_broken_iff.mp read⟩)
      · exact Or.inl ⟨_, .pause type length blank read⟩
  · by_cases given : found = .null
    · exact Or.inl ⟨_, .noPause type (Or.inr (Or.inl (given ▸ length)))⟩
    · exact Or.inr (Or.inl ⟨_, .badLength type length given misfit⟩)

/-- Every value orders a task, has a fault, or asks for a pause of an overfull length. -/
theorem order_cases [Locators] (value : Json) :
    (∃ task, OrderedBy value task) ∨ (∃ e, Misordered value e) ∨ Overfills value := by
  rcases text_cases value "type" with type | ⟨kind, type⟩ | ⟨found, type, misfit⟩
  · exact Or.inr (Or.inl ⟨_, .untyped (Or.inl type)⟩)
  · by_cases named : kind = ""
    · exact Or.inr (Or.inl ⟨_, .untyped (Or.inr (Or.inr (named ▸ type)))⟩)
    · by_cases known : kind ∈ TaskView.kinds
      · simp only [TaskView.kinds, List.mem_cons, List.not_mem_nil, or_false] at known
        rcases known with rfl | rfl | rfl
        · exact (restart_cases type).imp_right Or.inl
        · exact (fetch_cases type).imp_right Or.inl
        · exact pause_cases type
      · exact Or.inr (Or.inl ⟨_, .unknown type named known⟩)
  · by_cases given : found = .null
    · exact Or.inr (Or.inl ⟨_, .untyped (Or.inr (Or.inl (given ▸ type)))⟩)
    · exact Or.inr (Or.inl ⟨_, .mistyped type given misfit⟩)

theorem ofJson_eq_ok_iff [Locators] : ofJson value = .ok task ↔ OrderedBy value task := by
  refine ⟨fun h => ?_, ofJson_of_orderedBy⟩
  rcases order_cases value with ⟨made, hmade⟩ | ⟨e, he⟩ | hfull
  · rw [ofJson_of_orderedBy hmade] at h
    cases h
    exact hmade
  · rw [ofJson_of_misordered he] at h
    cases h
  · rw [ofJson_eq_broken_iff.mpr hfull] at h
    cases h

theorem ofJson_eq_refused_iff [Locators] :
    ofJson value = .error (.refused e) ↔ Misordered value e := by
  refine ⟨fun h => ?_, ofJson_of_misordered⟩
  rcases order_cases value with ⟨task, htask⟩ | ⟨cause, hcause⟩ | hfull
  · rw [ofJson_of_orderedBy htask] at h
    cases h
  · rw [ofJson_of_misordered hcause] at h
    cases h
    exact hcause
  · rw [ofJson_eq_broken_iff.mpr hfull] at h
    cases h

theorem OrderedBy.isObject [Locators] (h : OrderedBy value task) : value.isObject = true := by
  cases h with
  | restart type => exact Json.isObject_of_member? type
  | fetch type => exact Json.isObject_of_member? type
  | noPause type => exact Json.isObject_of_member? type
  | pause type => exact Json.isObject_of_member? type

def memberNames : String → List String
  | "travis-re-run" => ["token", "build_id"]
  | "url-get" => ["url"]
  | "no-op" => ["sleep_duration"]
  | _ => []

/-- The names of the members of a value that matter: its type, and those that belong to it. -/
def weighed (value : Json) : List String :=
  "type" :: match value.member? "type" with
    | some (.string kind) => memberNames kind
    | _ => []

/-- Values that agree in what matters to one of them are alike. -/
theorem ofJson_congr [Locators]
    (h : ∀ name ∈ weighed value, other.member? name = value.member? name) :
    ofJson other = ofJson value := by
  have htype : other.member? "type" = value.member? "type" := h "type" List.mem_cons_self
  have hmember (kind name : String) (hkind : value.member? "type" = some (.string kind))
      (hname : name ∈ memberNames kind) : other.member? name = value.member? name := by
    refine h name (List.mem_cons_of_mem _ ?_)
    rwa [hkind]
  have hsame : orderedKind other = orderedKind value := by rw [orderedKind, orderedKind, htype]
  cases hkind : orderedKind value with
  | error e =>
    rw [ofJson, ofJson, hsame, hkind]
    rfl
  | ok kind =>
    obtain ⟨type, named⟩ := orderedKind_eq_ok_iff.mp hkind
    by_cases known : kind ∈ TaskView.kinds
    · simp only [TaskView.kinds, List.mem_cons, List.not_mem_nil, or_false] at known
      rcases known with rfl | rfl | rfl
      · have htoken := hmember _ "token" type (by decide)
        have hbuild := hmember _ "build_id" type (by decide)
        rw [ofJson_of_restart type, ofJson_of_restart (htype.trans type), field_congr htoken,
          field_congr hbuild]
      · rw [ofJson_of_fetch type, ofJson_of_fetch (htype.trans type),
          field_congr (hmember _ "url" type (by decide))]
      · rw [ofJson_of_pause type, ofJson_of_pause (htype.trans type),
          field_congr (hmember _ "sleep_duration" type (by decide))]
    · rw [ofJson_of_misordered (.unknown type named known),
        ofJson_of_misordered (.unknown (htype.trans type) named known)]

/-- **Making a task of a value**: every value makes the task that it orders, is refused for its
first fault, or breaks off over an overfull length of a pause. Nothing but its type and the members
that belong to its type has a part in that, so that any other member may be put in, replaced or
taken out. -/
theorem orders_exact [Locators] (value : Json) :
    (∀ task, ofJson value = .ok task ↔ OrderedBy value task) ∧
      (∀ task, OrderedBy value task → value.isObject = true) ∧
      (∀ e, ofJson value = .error (.refused e) ↔ Misordered value e) ∧
      (ofJson value = .error .brokenOff ↔ Overfills value) ∧
      (∀ other : Json, (∀ name ∈ weighed value, other.member? name = value.member? name) →
        ofJson other = ofJson value) ∧
      ∀ members name, value = .object members → name ∉ weighed value →
        (∀ v, ofJson (.object (Json.putMember name v members)) = ofJson value) ∧
        ofJson (.object (members.filter (·.1 ≠ name))) = ofJson value := by
  refine ⟨fun task => ofJson_eq_ok_iff, fun task h => h.isObject, fun e => ofJson_eq_refused_iff,
    ofJson_eq_broken_iff, fun other h => ofJson_congr h, ?_⟩
  rintro members name rfl hname
  have hne : ∀ n ∈ weighed (.object members), n ≠ name := fun n hn heq => hname (heq ▸ hn)
  refine ⟨fun v => ofJson_congr fun n hn => ?_, ofJson_congr fun n hn => ?_⟩
  · exact (Json.lookup_putMember n name v members).trans (if_neg (hne n hn))
  · exact Json.lookup_filter (p := fun key => key ≠ name) (decide_eq_true (hne n hn)) members

/-- The order of a restart of the last build there can be, with members that have no part in it. -/
theorem orders_exact_of_last_build :
    let members := [("build_id", Json.nat (2 ^ 64 - 1)), ("token", .string "t"),
      ("type", .string "travis-re-run"), ("url", .null)]
    OrderedBy (.object members) (.restart "t" (2 ^ 64 - 1)) ∧
      "url" ∉ weighed (.object members) ∧
      ofJson (.object (Json.putMember "url" (.nat 7) members)) =
        .ok (.restart "t" (2 ^ 64 - 1)) ∧
      ofJson (.object (members.filter (·.1 ≠ "url"))) = .ok (.restart "t" (2 ^ 64 - 1)) := by
  intro members
  obtain ⟨hok, -, -, -, -, hothers⟩ := orders_exact (.object members)
  have hread : ofJson (.object members) = .ok (.restart "t" (2 ^ 64 - 1)) := rfl
  have hname : "url" ∉ weighed (.object members) := by decide
  obtain ⟨hput, htaken⟩ := hothers members "url" rfl hname
  exact ⟨(hok _).mp hread, hname, (hput (.nat 7)).trans hread, htaken.trans hread⟩

/-- A value that is neither accepted nor refused: the length of its pause breaks off. -/
theorem order_breaks_off :
    let value := Json.object
      [("sleep_duration", .string "18446744073709551615s 1000ms"), ("type", .string "no-op")]
    ofJson value = .error .brokenOff ∧ (∀ task, ofJson value ≠ .ok task) ∧
      ∀ e, ofJson value ≠ .error (.refused e) := by
  intro value
  have hread : periodOfText "18446744073709551615s 1000ms" = .error .brokenOff := by
    decide +kernel
  rw [periodOfText_eq_broken_iff] at hread
  have hfull : Overfills value := ⟨rfl, "18446744073709551615s 1000ms", rfl, hread⟩
  have hbroken : ofJson value = .error .brokenOff := ofJson_eq_broken_iff.mpr hfull
  refine ⟨hbroken, fun task h => ?_, fun e h => ?_⟩
  · rw [hbroken] at h
    cases h
  · rw [hbroken] at h
    cases h

end Task

end Almanac
