import Almanac.Settings.Basic
import Almanac.Url.Letters
import Almanac.Url.Reader
import Almanac.Web.Router

/-!
# The gate

With a user and a password set, a request about entries reaches its handler if and only if its
first header of credentials spells that pair, and every other one gets the same answer whatever
the timetable holds. A pair is spelt in one way: the colon that ends the user is the first one,
text has one form in octets, and octets have one form in base 64.
-/

namespace Almanac.Web

def encodedPair (user password : String) : List Char :=
  Text.Base64.encode (Text.encode (user.toList ++ ':' :: password.toList))

/-- Holds of the headers that spell a pair: the encoded pair after the scheme, with blanks around
it at most. -/
def Spells (header user password : String) : Prop :=
  ∃ before after : List Char, (∀ c ∈ before ++ after, c = ' ' ∨ c = '\t') ∧
    header.toList = "Basic ".toList ++ (before ++ encodedPair user password ++ after)

/-- Holds of the requests whose first header of credentials spells a pair. -/
def Request.Presents (r : Request) (user password : String) : Prop :=
  ∃ header, r.header? "authorization" = some header ∧ Spells header user password

/-- A text is parted at its first colon. -/
theorem splitColon?_eq_some_iff {s user password : List Char} :
    splitColon? s = some (user, password) ↔ ':' ∉ user ∧ s = user ++ ':' :: password := by
  have hsplit : s = s.takeWhile (· != ':') ++ s.drop (s.takeWhile (· != ':')).length :=
    (List.prefix_iff_eq_append.mp (List.takeWhile_prefix _)).symm
  constructor
  · intro h
    simp only [splitColon?] at h
    split at h
    · next rest hrest =>
      obtain ⟨rfl, rfl⟩ : s.takeWhile (· != ':') = user ∧ rest = password := by
        simpa using h
      refine ⟨fun hmem => ?_, hrest ▸ hsplit⟩
      simpa using List.all_eq_true.mp List.all_takeWhile _ hmem
    · cases h
  · rintro ⟨hfree, rfl⟩
    have htake : (user ++ ':' :: password).takeWhile (· != ':') = user := by
      rw [List.takeWhile_append_of_pos]
      · simp
      · intro c hc
        simpa using ne_of_mem_of_not_mem hc hfree
    simp only [splitColon?, htake, List.drop_left]

/-- Of the characters of a header, two are blank. -/
theorem isBlank_iff_of_isHeaderText {c : Char} (h : isHeaderText c = true) :
    Text.isBlank c = true ↔ c = ' ' ∨ c = '\t' := by
  have hspace : c = ' ' ↔ c.toNat = 32 := Char.toNat_inj.symm
  have htab : c = '\t' ↔ c.toNat = 9 := Char.toNat_inj.symm
  simp only [isHeaderText, Bool.or_eq_true, Bool.and_eq_true, decide_eq_true_eq, beq_iff_eq,
    htab] at h
  simp only [Text.isBlank, Bool.or_eq_true, Bool.and_eq_true, decide_eq_true_eq, beq_iff_eq,
    hspace, htab]
  omega

theorem isHeaderText_of_mem_encode {bytes : List UInt8} {c : Char}
    (h : c ∈ Text.Base64.encode bytes) : isHeaderText c = true ∧ Text.isBlank c = false := by
  have hall : ∀ n : Fin 64, isHeaderText (Text.Base64.charOf n) = true ∧
      Text.isBlank (Text.Base64.charOf n) = false := by decide
  rcases Text.Base64.mem_encode h with rfl | ⟨n, hn, rfl⟩
  · decide
  · exact hall ⟨n, hn⟩

theorem isHeaderText_of_isBlank {c : Char} (h : c = ' ' ∨ c = '\t') :
    isHeaderText c = true ∧ Text.isBlank c = true := by
  rcases h with rfl | rfl <;> decide

theorem Spells.all_isHeaderText {header user password : String}
    (h : Spells header user password) : header.toList.all isHeaderText = true := by
  obtain ⟨before, after, hblank, hheader⟩ := h
  rw [hheader, List.all_eq_true]
  intro c hc
  rw [List.mem_append, List.append_assoc, List.mem_append, List.mem_append] at hc
  rcases hc with hc | hc | hc | hc
  · exact List.all_eq_true.mp (by decide : "Basic ".toList.all isHeaderText = true) c hc
  · exact (isHeaderText_of_isBlank (hblank c (List.mem_append_left after hc))).1
  · exact (isHeaderText_of_mem_encode hc).1
  · exact (isHeaderText_of_isBlank (hblank c (List.mem_append_right before hc))).1

/-- A header gives a pair exactly if it spells it; a user with a colon is never given. -/
theorem credentialsOf?_eq_some_iff {header user password : String} :
    credentialsOf? header = some (user, password) ↔
      ':' ∉ user.toList ∧ Spells header user password := by
  constructor
  · intro h
    rw [credentialsOf?, Option.ite_none_right_eq_some] at h
    obtain ⟨htext, h⟩ := h
    split at h
    · next encoded hheader =>
      simp only [Option.bind_eq_bind, Option.bind_eq_some_iff, Prod.exists, Option.some.injEq,
        Prod.mk.injEq, Text.Base64.decode?_eq_some_iff, Text.decode?_eq_some_iff,
        splitColon?_eq_some_iff] at h
      obtain ⟨bytes, hbytes, s, rfl, u, p, ⟨hfree, rfl⟩, rfl, rfl⟩ := h
      obtain ⟨before, after, hencoded, hblank⟩ := Text.exists_trim encoded
      have hpair : encodedPair (String.ofList u) (String.ofList p) = Text.trim encoded := by
        rw [encodedPair, String.toList_ofList, String.toList_ofList, hbytes]
      rw [String.toList_ofList]
      refine ⟨hfree, before, after, fun c hc => ?_, ?_⟩
      · have hmem : c ∈ header.toList := by
          rw [hheader, hencoded]
          rcases List.mem_append.mp hc with hc | hc <;> simp [hc]
        exact (isBlank_iff_of_isHeaderText (List.all_eq_true.mp htext c hmem)).mp (hblank c hc)
      · rw [hpair, ← hencoded, hheader]
        rfl
    · cases h
  · rintro ⟨hfree, hspells⟩
    have htext := hspells.all_isHeaderText
    obtain ⟨before, after, hblank, hheader⟩ := hspells
    have htrim : Text.trim (before ++ encodedPair user password ++ after) =
        encodedPair user password :=
      Text.trim_append
        (fun c hc => (isHeaderText_of_isBlank (hblank c (List.mem_append_left after hc))).2)
        (fun c hc => (isHeaderText_of_mem_encode hc).2)
        (fun c hc => (isHeaderText_of_isBlank (hblank c (List.mem_append_right before hc))).2)
    have hdecode : Text.Base64.decode? (encodedPair user password) =
        some (Text.encode (user.toList ++ ':' :: password.toList)) :=
      Text.Base64.decode?_encode _
    have hread : Text.decode? (Text.encode (user.toList ++ ':' :: password.toList)) =
        some (user.toList ++ ':' :: password.toList) := Text.decode?_eq_some_iff.mpr rfl
    have hsplit : splitColon? (user.toList ++ ':' :: password.toList) =
        some (user.toList, password.toList) := splitColon?_eq_some_iff.mpr ⟨hfree, rfl⟩
    rw [credentialsOf?, if_pos htext, hheader]
    simp only [String.reduceToList, List.cons_append, List.nil_append, htrim, hdecode, hread,
      hsplit, Option.bind_eq_bind, Option.bind_some, String.ofList_toList]

variable {credentials : Option (String × String)} {user password : String} {route : Route}
  {r : Request} {t : Timetable} {id : List Char}

theorem judge_eq_admitted_iff :
    judge (some (user, password)) r = .admitted ↔
      ':' ∉ user.toList ∧ r.Presents user password := by
  have hgiven : judge (some (user, password)) r = .admitted ↔
      (r.header? "authorization").bind credentialsOf? = some (user, password) := by
    simp only [judge]
    split
    · next given hgiven =>
      rw [hgiven, Option.some_inj]
      split <;> simp_all
    · next hnone =>
      rw [hnone]
      simp
  rw [hgiven, Option.bind_eq_some_iff]
  simp only [credentialsOf?_eq_some_iff, Request.Presents]
  constructor
  · rintro ⟨header, hheader, hfree, hspells⟩
    exact ⟨hfree, header, hheader, hspells⟩
  · rintro ⟨hfree, header, hheader, hspells⟩
    exact ⟨header, hheader, hfree, hspells⟩

/-- What is not let through gets the one answer, and leaves a line in the log. -/
theorem answer_of_not_admitted [Locators] (hguard : route.isGuarded = true)
    (h : judge credentials r ≠ .admitted) :
    ∃ line, answer credentials t route r = (unauthorized, t.record (.logged line)) := by
  rw [answer, if_pos hguard]
  cases hjudge : judge credentials r with
  | admitted => exact absurd hjudge h
  | badCredentials => exact ⟨_, rfl⟩
  | noCredentials => exact ⟨_, rfl⟩

theorem answer_of_admitted [Locators] (hmethod : route.methods.contains r.method = true)
    (h : route.isGuarded = true → judge credentials r = .admitted) :
    answer credentials t route r = dispatch t route r := by
  have hverdict : (if route.isGuarded = true then judge credentials r else .admitted) =
      .admitted := by
    split
    · next hguard => exact h hguard
    · rfl
  rw [answer, hverdict]
  exact if_pos hmethod

theorem Problem.status_mem (p : Problem) : p.status ∈ [400, 404, 409, 422, 500] := by
  unfold Problem.status
  split <;> decide

theorem conclude_status_ne {status : Nat} (hstatus : status ∉ [400, 404, 409, 422, 500])
    {handled : Handled} (h : ∀ response, handled = .ok response → response.status ≠ status) :
    (conclude t handled).1.status ≠ status := by
  cases handled with
  | ok response => exact h response rfl
  | error e =>
    cases e with
    | refused p => exact ne_of_mem_of_not_mem p.status_mem hstatus
    | brokenOff => exact ne_of_mem_of_not_mem (by decide : 500 ∈ [400, 404, 409, 422, 500]) hstatus

theorem shown_status {status : Nat} {outcome : Attempt TimetableError EntryView}
    {response : Response} (h : shown status outcome = .ok response) : response.status = status := by
  obtain ⟨view, -, rfl⟩ := map_eq_ok_iff.mp h
  rfl

theorem listEntries_status {response : Response} (h : listEntries t = .ok response) :
    response.status = 200 := by
  unfold listEntries at h
  split at h
  · cases h
    rfl
  · cases h

theorem createEntry_status [Locators] {body : List UInt8} {response : Response}
    (h : (createEntry t body).1 = .ok response) : response.status = 201 := by
  unfold createEntry at h
  split at h
  · cases h
  · exact shown_status h

theorem showEntry_status {response : Response} (h : showEntry t id = .ok response) :
    response.status = 200 := by
  unfold showEntry at h
  split at h
  · cases h
  · exact shown_status h

theorem changeEntry_status {body : List UInt8} {response : Response}
    (h : (changeEntry t id body).1 = .ok response) : response.status = 200 := by
  unfold changeEntry at h
  split at h
  · cases h
  · exact shown_status h

theorem deleteEntry_status {response : Response} (h : (deleteEntry t id).1 = .ok response) :
    response.status = 204 := by
  unfold deleteEntry at h
  split at h
  · cases h
  · split at h
    · cases h
      rfl
    · cases h

/-- The answers to requests about one entry. -/
theorem handleEntry_status_ne {status : Nat}
    (hstatus : status ∉ [200, 204, 400, 404, 409, 413, 422, 500]) (method : String)
    (raw : List Char) (body : List UInt8) : (handleEntry t method raw body).1.status ≠ status := by
  have hsubset : [400, 404, 409, 422, 500] ⊆ [200, 204, 400, 404, 409, 413, 422, 500] := by simp
  have hproblem : status ∉ [400, 404, 409, 422, 500] := mt (fun h => hsubset h) hstatus
  have hne (n : Nat) (hn : n ∈ [200, 204, 400, 404, 409, 413, 422, 500]) : n ≠ status :=
    ne_of_mem_of_not_mem hn hstatus
  unfold handleEntry
  split
  · exact hne 400 (by decide)
  · split
    · split
      · exact hne 413 (by decide)
      · exact conclude_status_ne hproblem fun _ h => changeEntry_status h ▸ hne 200 (by decide)
    · exact conclude_status_ne hproblem fun _ h => deleteEntry_status h ▸ hne 204 (by decide)
    · exact conclude_status_ne hproblem fun _ h => showEntry_status h ▸ hne 200 (by decide)

/-- No handler asks for credentials. -/
theorem dispatch_status_ne_unauthorized [Locators] (t : Timetable) (route : Route) (r : Request) :
    (dispatch t route r).1.status ≠ 401 := by
  cases route with
  | home => exact (by decide : (200 : Nat) ≠ 401)
  | health => exact (by decide : (200 : Nat) ≠ 401)
  | entries =>
    simp only [dispatch]
    split
    · split
      · exact (by decide : (413 : Nat) ≠ 401)
      · exact conclude_status_ne (by decide) fun _ h => by simp [createEntry_status h]
    · exact conclude_status_ne (by decide) fun _ h => by simp [listEntries_status h]
  | entry id => exact handleEntry_status_ne (by decide) r.method id r.body

theorem forMethod_status (response : Response) (route : Route) (method : String) :
    (response.forMethod route method).status = response.status := by
  unfold Response.forMethod
  split
  · split <;> rfl
  · rfl

/-- A status that neither the gate nor the routes give is that of a handler. -/
theorem dispatch_of_status [Locators] {status : Nat}
    (h : (handle credentials t r).1.status = status) (hstatus : status ∉ [401, 404, 405]) :
    ∃ route, Route.ofPath? r.path = some route ∧
      (route.isGuarded = true → judge credentials r = .admitted) ∧
      (dispatch t route r).1.status = status := by
  have hne (n : Nat) (hn : n ∈ [401, 404, 405]) (hsame : n = status) : False :=
    hstatus (hsame ▸ hn)
  unfold handle at h
  split at h
  · exact (hne 404 (by decide) h).elim
  · next route hroute =>
    rw [forMethod_status] at h
    unfold answer at h
    split at h
    · next hverdict =>
      split at h
      · refine ⟨route, hroute, fun hguard => ?_, h⟩
        rwa [if_pos hguard] at hverdict
      · exact (hne 405 (by decide) h).elim
    · exact (hne 401 (by decide) h).elim
    · exact (hne 401 (by decide) h).elim

/-- Only the guarded routes look at the headers, and no handler does. -/
theorem handle_of_open [Locators] {headers : List (String × String)}
    (hroute : Route.ofPath? r.path = some route) (hopen : route.isGuarded = false) :
    handle credentials t { r with headers } = handle none t r := by
  have hguard : ¬route.isGuarded = true := by simp [hopen]
  have hdispatch : dispatch t route { r with headers } = dispatch t route r := by
    cases route <;> rfl
  simp only [handle, hroute, answer, if_neg hguard, hdispatch]

/-- A request about entries is handled exactly if it presents the pair that is set, which none
does where the user has a colon in it. Every other one gets one and the same answer in every
state, and leaves no more than a line in the log. Of what is not about entries, the headers are
not looked at. -/
theorem gate_exact [Locators] {s : Settings} (huser : s.auth.username = some user)
    (hpassword : s.auth.password = some password) (hset : user ≠ "" ∧ password ≠ "")
    (hroute : Route.ofPath? r.path = some route) (hguard : route.isGuarded = true)
    (hmethod : r.method ∈ route.methods) (t : Timetable) :
    (':' ∉ user.toList ∧ r.Presents user password →
      handle s.credentials t r =
          ((dispatch t route r).1.forMethod route r.method, (dispatch t route r).2) ∧
        (handle s.credentials t r).1.status ≠ 401) ∧
      (¬(':' ∉ user.toList ∧ r.Presents user password) →
        (handle s.credentials t r).1 = unauthorized.forMethod route r.method ∧
          (handle s.credentials t r).1.status = 401 ∧
          ("www-authenticate", "Basic realm=\"Authorization Required\"") ∈
            (handle s.credentials t r).1.headers ∧
          ∃ line, (handle s.credentials t r).2 =
            { t with journal := .logged line :: t.journal }) ∧
      ∀ (other : Request) (free : Route), Route.ofPath? other.path = some free →
        free.isGuarded = false → ∀ headers,
          handle s.credentials t { other with headers } = handle none t other := by
  have hcredentials : s.credentials = some (user, password) :=
    Settings.credentials_eq_some_iff.mpr ⟨huser, hpassword, hset⟩
  have hknown : route.methods.contains r.method = true := List.contains_iff_mem.mpr hmethod
  have hhandle : handle s.credentials t r =
      ((answer s.credentials t route r).1.forMethod route r.method,
        (answer s.credentials t route r).2) := by
    rw [handle, hroute]
  refine ⟨fun hpresents => ?_, fun hpresents => ?_, fun other free hfree hopen headers =>
    handle_of_open hfree hopen⟩
  · have hanswer : answer s.credentials t route r = dispatch t route r :=
      answer_of_admitted hknown fun _ => by rw [hcredentials, judge_eq_admitted_iff.mpr hpresents]
    rw [hhandle, hanswer]
    refine ⟨rfl, ?_⟩
    rw [forMethod_status]
    exact dispatch_status_ne_unauthorized t route r
  · have hjudge : judge s.credentials r ≠ .admitted := by
      rw [hcredentials]
      exact fun h => hpresents (judge_eq_admitted_iff.mp h)
    obtain ⟨line, hanswer⟩ := answer_of_not_admitted (t := t) hguard hjudge
    rw [hhandle, hanswer]
    refine ⟨rfl, forMethod_status .., ?_, line, rfl⟩
    simp only [Response.forMethod, hknown, if_true]
    split <;> exact List.mem_cons_self

/-- A password with a colon in it, given with blanks around, and not given. -/
theorem gate_exact_of_blanks :
    let s : Settings := { auth := ⟨some "u", some "p:q"⟩ }
    let t : Timetable := { start := .epoch }
    let r : Request := ⟨"GET", "/api/v0/tasks", [("Authorization", "Basic \t dTpwOnE= ")], []⟩
    (handle s.credentials t r).1.status ≠ 401 ∧
      (handle s.credentials t { r with headers := [] }).1.status = 401 := by
  intro s t r
  have hpresents : r.Presents "u" "p:q" :=
    ⟨"Basic \t dTpwOnE= ", by decide +kernel, ['\t', ' '], [' '], by simp, by decide +kernel⟩
  have hroute : Route.ofPath? r.path = some .entries := by decide +kernel
  have hgiven := @gate_exact "u" "p:q" .entries r _ s rfl rfl (by decide) hroute rfl (by decide) t
  have hmissing := @gate_exact "u" "p:q" .entries { r with headers := [] } _ s rfl rfl (by decide)
    hroute rfl (by decide) t
  refine ⟨(hgiven.1 ⟨by decide, hpresents⟩).2, (hmissing.2.1 ?_).2.1⟩
  rintro ⟨-, header, hheader, -⟩
  cases hheader

end Almanac.Web
