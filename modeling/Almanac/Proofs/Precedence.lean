import Almanac.Proofs.Credentials
import Almanac.Proofs.Layers

/-!
# Which source a setting comes from

Every setting comes from its flag, else from its variable, else from the file, else it keeps its
default, whatever the other settings come from. Where the file is no document, or a value that the
variables leave in place or put there is of a wrong kind, all settings keep their defaults and only
the flags count.
-/

namespace Almanac

inductive Setting where
  | bind
  | port
  | username
  | password
  | baseUrl
  | timeout
  | fetchTimeout
  deriving DecidableEq, Repr

namespace Setting

def all : List Setting :=
  [bind, port, username, password, baseUrl, timeout, fetchTimeout]

theorem mem_all (x : Setting) : x ∈ all := by
  cases x <;> decide

/-- The section that a setting is in, and its field there. -/
def place : Setting → String × String
  | bind => ("server", "bind")
  | port => ("server", "port")
  | username => ("auth", "username")
  | password => ("auth", "password")
  | baseUrl => ("travis", "base_url")
  | timeout => ("travis", "timeout_secs")
  | fetchTimeout => ("tasks", "url_get_timeout_secs")

def path (x : Setting) : List String :=
  [x.place.1, x.place.2]

/-- The variable of a setting: section and field in upper case, two underscores between them. -/
def variableName (x : Setting) : String :=
  "PRODDA_" ++ x.place.1.map Char.toUpper ++ "__" ++ x.place.2.map Char.toUpper

/-- The variable of a setting means its path: single underscores stay in the names. -/
theorem path?_variableName (x : Setting) : Variable.path? x.variableName = some x.path := by
  cases x <;> decide +kernel

end Setting

def Datum.text? : Datum → Option String
  | scalar _ (.text s) => some s
  | _ => none

/-- The natural number of so many bits that a tree is. -/
def Datum.word? (bits : Nat) : Datum → Option Nat
  | scalar _ (.signed n) => if 0 ≤ n ∧ n < 2 ^ bits then some n.toNat else none
  | scalar _ (.unsigned n) => if n < 2 ^ bits then some n else none
  | _ => none

/-- What a tree is for a setting, if it is of the right kind. -/
def Setting.read : Setting → Datum → Option Scalar
  | port, d => (d.word? 16).map .unsigned
  | timeout, d | fetchTimeout, d => (d.word? 64).map .unsigned
  | _, d => d.text?.map .text

def Settings.value (s : Settings) : Setting → Option Scalar
  | .bind => some (.text s.server.bind)
  | .port => some (.unsigned s.server.port)
  | .username => s.auth.username.map .text
  | .password => s.auth.password.map .text
  | .baseUrl => some (.text s.travis.baseUrl)
  | .timeout => some (.unsigned s.travis.timeout)
  | .fetchTimeout => some (.unsigned s.tasks.fetchTimeout)

def Flags.value (f : Flags) : Setting → Option Scalar
  | .bind => f.bind.map .text
  | .port => f.port.map .unsigned
  | _ => none

theorem Flags.value_override (f : Flags) (s : Settings) (x : Setting) :
    (f.override s).value x = (f.value x).or (s.value x) := by
  cases x with
  | bind => cases hbind : f.bind <;> simp [override, value, Settings.value, hbind]
  | port => cases hport : f.port <;> simp [override, value, Settings.value, hport]
  | _ => rfl

namespace Settings

theorem asText_eq_ok_iff {path : List String} {d : Datum} {t : String} :
    asText path d = .ok t ↔ d.text? = some t := by
  unfold asText Datum.text?
  split
  · simp
  · simp [mistyped]

theorem asWord_eq_ok_iff {bits : Nat} {path : List String} {d : Datum} {n : Nat} :
    asWord bits path d = .ok n ↔ d.word? bits = some n := by
  unfold asWord Datum.word?
  split
  · dsimp only
    split <;> simp
  · next m =>
    have hbound : (0 ≤ (m : Int) ∧ (m : Int) < 2 ^ bits) ↔ m < 2 ^ bits := by
      rw [and_iff_right (Int.natCast_nonneg m)]
      exact_mod_cast Iff.rfl
    dsimp only
    split
    · next h => simp [hbound.mp h]
    · next h => simp [hbound.not.mp h]
  · simp [mistyped]

/-- What is read of a tree, or what there is without one. -/
def takenOr {β : Type} (read : Datum → Option β) (start : β) : Option Datum → Option β
  | none => some start
  | some d => read d

/-- Holds of the fields that put what they read of a tree into a part of a section. -/
structure Field.Stores {α β : Type} (field : Field α) (read : Datum → Option β) (get : α → β)
    (set : α → β → α) : Prop where
  take : ∀ path d a r, field.take path d a = .ok r ↔ ∃ b, read d = some b ∧ set a b = r
  self : ∀ a, set a (get a) = a

namespace Schema

variable {α β γ : Type} {s : Schema α} {members : List (String × Datum)} {start r : α}
  {first second : Field α} {read₁ : Datum → Option β} {get₁ : α → β} {set₁ : α → β → α}
  {read₂ : Datum → Option γ} {get₂ : α → γ} {set₂ : α → γ → α}

theorem takeMember_eq_ok_iff (h : first.Stores read₁ get₁ set₁) :
    s.takeMember members start first = .ok r ↔
      ∃ b, takenOr read₁ (get₁ start) (members.lookup first.name) = some b ∧ set₁ start b = r := by
  rw [takeMember]
  cases members.lookup first.name with
  | some d => exact h.take _ d start r
  | none => simp [takenOr, h.self]

theorem ofMembers_single_eq_ok_iff (hfields : s.fields = [first])
    (h : first.Stores read₁ get₁ set₁) : s.ofMembers start members = .ok r ↔
      ∃ b, takenOr read₁ (get₁ start) (members.lookup first.name) = some b ∧ set₁ start b = r := by
  rw [ofMembers, hfields, List.mergeSort_singleton, List.foldlM_cons]
  simp only [List.foldlM_nil, bind_pure]
  exact takeMember_eq_ok_iff h

/-- Two fields are taken up one after the other. -/
theorem ofMembers_pair_eq_ok_iff
    (hfields : (s.fields.mergeSort fun a b => decide (a.name ≤ b.name)) = [first, second])
    (h₁ : first.Stores read₁ get₁ set₁) (h₂ : second.Stores read₂ get₂ set₂) :
    s.ofMembers start members = .ok r ↔
      ∃ b c, takenOr read₁ (get₁ start) (members.lookup first.name) = some b ∧
        takenOr read₂ (get₂ (set₁ start b)) (members.lookup second.name) = some c ∧
          set₂ (set₁ start b) c = r := by
  rw [ofMembers, hfields, List.foldlM_cons]
  simp only [List.foldlM_cons, List.foldlM_nil, bind_pure]
  refine bind_eq_ok_iff.trans ?_
  simp only [takeMember_eq_ok_iff h₁, takeMember_eq_ok_iff h₂]
  constructor
  · rintro ⟨_, ⟨b, hb, rfl⟩, c, hc, hr⟩
    exact ⟨b, c, hb, hc, hr⟩
  · rintro ⟨b, c, hb, hc, hr⟩
    exact ⟨_, ⟨b, hb, rfl⟩, c, hc, hr⟩

theorem ofMembers_nil : s.ofMembers start [] = .ok start := by
  rw [ofMembers]
  generalize s.fields.mergeSort _ = fields
  induction fields with
  | nil => rfl
  | cons field fields ih => exact ih

/-- A section that is missing is read like an empty one. -/
theorem exists_members (s : Schema α) (start : α) {d : Option Datum} (h : Datum.IsSection d) :
    ∃ members, s.read start d = s.ofMembers start members ∧
      ∀ name, members.lookup name = d.bind (Datum.at? [name]) := by
  cases d with
  | none => exact ⟨[], ofMembers_nil.symm, fun name => rfl⟩
  | some d =>
    obtain ⟨origin, members, rfl⟩ := h d rfl
    refine ⟨members, rfl, fun name => ?_⟩
    rw [Option.bind_some, Datum.at?_cons_table]
    cases members.lookup name <;> rfl

/-- A section of one field. -/
theorem read_single_eq_ok_iff {d : Option Datum} (hd : Datum.IsSection d)
    (hfields : s.fields = [first]) (h : first.Stores read₁ get₁ set₁)
    (hset : ∀ b, set₁ start b = r ↔ b = get₁ r) :
    s.read start d = .ok r ↔
      takenOr read₁ (get₁ start) (d.bind (Datum.at? [first.name])) = some (get₁ r) := by
  obtain ⟨members, hread, hlookup⟩ := exists_members s start hd
  rw [hread, ofMembers_single_eq_ok_iff hfields h]
  simp only [hlookup, hset]
  exact exists_eq_right

/-- A section of two fields is what is read of each of them. -/
theorem read_pair_eq_ok_iff {d : Option Datum} (hd : Datum.IsSection d)
    (hfields : (s.fields.mergeSort fun a b => decide (a.name ≤ b.name)) = [first, second])
    (h₁ : first.Stores read₁ get₁ set₁) (h₂ : second.Stores read₂ get₂ set₂)
    (hget : ∀ b, get₂ (set₁ start b) = get₂ start)
    (hset : ∀ b c, set₂ (set₁ start b) c = r ↔ b = get₁ r ∧ c = get₂ r) :
    s.read start d = .ok r ↔
      takenOr read₁ (get₁ start) (d.bind (Datum.at? [first.name])) = some (get₁ r) ∧
        takenOr read₂ (get₂ start) (d.bind (Datum.at? [second.name])) = some (get₂ r) := by
  obtain ⟨members, hread, hlookup⟩ := exists_members s start hd
  rw [hread, ofMembers_pair_eq_ok_iff hfields h₁ h₂]
  simp only [hlookup, hget, hset]
  constructor
  · rintro ⟨b, c, hb, hc, rfl, rfl⟩
    exact ⟨hb, hc⟩
  · rintro ⟨hb, hc⟩
    exact ⟨_, _, hb, hc, rfl, rfl⟩

end Schema

section

variable {α : Type} (name : String)

theorem stores_text (get : α → String) (set : α → String → α)
    (hself : ∀ a, set a (get a) = a) :
    (⟨name, fun path d a => (asText path d).map (set a)⟩ : Field α).Stores
      Datum.text? get set := by
  refine ⟨fun path d a r => ?_, hself⟩
  simp only [map_eq_ok_iff, asText_eq_ok_iff]

theorem stores_word (bits : Nat) (get : α → Nat) (set : α → Nat → α)
    (hself : ∀ a, set a (get a) = a) :
    (⟨name, fun path d a => (asWord bits path d).map (set a)⟩ : Field α).Stores
      (Datum.word? bits) get set := by
  refine ⟨fun path d a r => ?_, hself⟩
  simp only [map_eq_ok_iff, asWord_eq_ok_iff]

/-- The text that a tree is, where there may be none. -/
def optionalText (d : Datum) : Option (Option String) :=
  d.text?.map some

theorem stores_optionalText (get : α → Option String) (set : α → Option String → α)
    (hself : ∀ a, set a (get a) = a) :
    (⟨name, fun path d a => (asText path d).map fun t => set a (some t)⟩ : Field α).Stores
      optionalText get set := by
  refine ⟨fun path d a r => ?_, hself⟩
  simp [optionalText, map_eq_ok_iff, asText_eq_ok_iff]

end

variable {d : Option Datum}

/-- Holds of a value that a setting has by what may stand at its path: that must be of the right
kind, and without it there is the default. -/
def Follows (x : Setting) (d : Option Datum) (v : Option Scalar) : Prop :=
  (∀ inner, d = some inner → (x.read inner).isSome = true) ∧
    v = (d.bind x.read).or (({} : Settings).value x)

/-- Holds of a way to read a setting: what is read is shown as the value of the setting, and
without a tree there is the default. -/
structure ReadsAs {β : Type} (x : Setting) (read : Datum → Option β) (shown : β → Option Scalar)
    (start : β) : Prop where
  injective : Function.Injective shown
  reads : ∀ d, x.read d = (read d).bind shown
  shows : ∀ d b, read d = some b → (shown b).isSome = true
  start : ({} : Settings).value x = shown start

section

variable {β : Type} {x : Setting} {read : Datum → Option β} {shown : β → Option Scalar}
  {start b : β}

theorem ReadsAs.follows_iff (h : ReadsAs x read shown start) :
    Follows x d (shown b) ↔ takenOr read start d = some b := by
  cases d with
  | none =>
    have hb : shown b = shown start ↔ start = b := h.injective.eq_iff.trans eq_comm
    simp [takenOr, Follows, h.start, hb]
  | some d =>
    cases hread : read d with
    | none => simp [takenOr, Follows, h.reads, hread]
    | some b' =>
      obtain ⟨v, hv⟩ := Option.isSome_iff_exists.mp (h.shows d b' hread)
      have hb : shown b = some v ↔ b' = b := by
        rw [← hv, h.injective.eq_iff, eq_comm]
      simp [takenOr, Follows, h.reads, hread, hv, hb]

/-- A value of the right kind, or none, makes a setting. -/
theorem ReadsAs.exists_follows (h : ReadsAs x read shown start)
    (hd : ∀ inner, d = some inner → (x.read inner).isSome = true) :
    ∃ b, Follows x d (shown b) := by
  simp only [h.follows_iff]
  cases d with
  | none => exact ⟨start, rfl⟩
  | some inner =>
    have hinner := hd inner rfl
    rw [h.reads] at hinner
    exact Option.isSome_iff_exists.mp (Option.isSome_of_isSome_bind hinner)

end

theorem readsAs_text {x : Setting} {start : String} (hread : ∀ d, x.read d = d.text?.map .text)
    (hstart : ({} : Settings).value x = some (.text start)) :
    ReadsAs x Datum.text? (fun t => some (.text t)) start where
  injective _ _ h := Scalar.text.inj (Option.some.inj h)
  reads d := by
    rw [hread]
    cases d.text? <;> rfl
  shows _ _ _ := rfl
  start := hstart

theorem readsAs_word {x : Setting} {bits start : Nat}
    (hread : ∀ d, x.read d = (d.word? bits).map .unsigned)
    (hstart : ({} : Settings).value x = some (.unsigned start)) :
    ReadsAs x (Datum.word? bits) (fun n => some (.unsigned n)) start where
  injective _ _ h := Scalar.unsigned.inj (Option.some.inj h)
  reads d := by
    rw [hread]
    cases d.word? bits <;> rfl
  shows _ _ _ := rfl
  start := hstart

theorem readsAs_optionalText {x : Setting} (hread : ∀ d, x.read d = d.text?.map .text)
    (hstart : ({} : Settings).value x = none) :
    ReadsAs x optionalText (Option.map .text) none where
  injective := Option.map_injective fun _ _ => Scalar.text.inj
  reads d := by
    rw [hread, optionalText]
    cases d.text? <;> rfl
  shows d b h := by
    obtain ⟨t, -, rfl⟩ := Option.map_eq_some_iff.mp h
    rfl
  start := hstart

theorem readsAs_bind : ReadsAs .bind Datum.text? (fun t => some (.text t)) "0.0.0.0" :=
  readsAs_text (fun _ => rfl) rfl

theorem readsAs_port : ReadsAs .port (Datum.word? 16) (fun n => some (.unsigned n)) 3000 :=
  readsAs_word (fun _ => rfl) rfl

theorem readsAs_username : ReadsAs .username optionalText (Option.map .text) none :=
  readsAs_optionalText (fun _ => rfl) rfl

theorem readsAs_password : ReadsAs .password optionalText (Option.map .text) none :=
  readsAs_optionalText (fun _ => rfl) rfl

theorem readsAs_baseUrl :
    ReadsAs .baseUrl Datum.text? (fun t => some (.text t)) "https://api.travis-ci.org" :=
  readsAs_text (fun _ => rfl) rfl

theorem readsAs_timeout : ReadsAs .timeout (Datum.word? 64) (fun n => some (.unsigned n)) 30 :=
  readsAs_word (fun _ => rfl) rfl

theorem readsAs_fetchTimeout :
    ReadsAs .fetchTimeout (Datum.word? 64) (fun n => some (.unsigned n)) 30 :=
  readsAs_word (fun _ => rfl) rfl

theorem server_read_eq_ok_iff (h : Datum.IsSection d) {r : ServerSettings} :
    serverSchema.read {} d = .ok r ↔
      Follows .bind (d.bind (Datum.at? ["bind"])) (some (.text r.bind)) ∧
        Follows .port (d.bind (Datum.at? ["port"])) (some (.unsigned r.port)) := by
  have hfields : (serverSchema.fields.mergeSort fun a b => decide (a.name ≤ b.name)) =
      serverSchema.fields := by
    simp [serverSchema, List.mergeSort]
  rw [readsAs_bind.follows_iff, readsAs_port.follows_iff]
  refine Schema.read_pair_eq_ok_iff h hfields
    (stores_text "bind" ServerSettings.bind (fun s bind => { s with bind }) fun _ => rfl)
    (stores_word "port" 16 ServerSettings.port (fun s port => { s with port }) fun _ => rfl)
    (fun _ => rfl) fun bind port => ?_
  rw [ServerSettings.mk.injEq]

theorem auth_read_eq_ok_iff (h : Datum.IsSection d) {r : AuthSettings} :
    authSchema.read {} d = .ok r ↔
      Follows .password (d.bind (Datum.at? ["password"])) (r.password.map .text) ∧
        Follows .username (d.bind (Datum.at? ["username"])) (r.username.map .text) := by
  have hfields : (authSchema.fields.mergeSort fun a b => decide (a.name ≤ b.name)) =
      authSchema.fields.reverse := by
    simp [authSchema, List.mergeSort]
  rw [readsAs_password.follows_iff, readsAs_username.follows_iff]
  refine Schema.read_pair_eq_ok_iff h hfields
    (stores_optionalText "password" AuthSettings.password
      (fun s password => { s with password }) fun _ => rfl)
    (stores_optionalText "username" AuthSettings.username
      (fun s username => { s with username }) fun _ => rfl)
    (fun _ => rfl) fun password username => ?_
  rw [AuthSettings.mk.injEq, and_comm]

theorem travis_read_eq_ok_iff (h : Datum.IsSection d) {r : TravisSettings} :
    travisSchema.read {} d = .ok r ↔
      Follows .baseUrl (d.bind (Datum.at? ["base_url"])) (some (.text r.baseUrl)) ∧
        Follows .timeout (d.bind (Datum.at? ["timeout_secs"])) (some (.unsigned r.timeout)) := by
  have hfields : (travisSchema.fields.mergeSort fun a b => decide (a.name ≤ b.name)) =
      travisSchema.fields := by
    simp [travisSchema, List.mergeSort]
  rw [readsAs_baseUrl.follows_iff, readsAs_timeout.follows_iff]
  refine Schema.read_pair_eq_ok_iff h hfields
    (stores_text "base_url" TravisSettings.baseUrl (fun s baseUrl => { s with baseUrl })
      fun _ => rfl)
    (stores_word "timeout_secs" 64 TravisSettings.timeout (fun s timeout => { s with timeout })
      fun _ => rfl)
    (fun _ => rfl) fun baseUrl timeout => ?_
  rw [TravisSettings.mk.injEq]

theorem tasks_read_eq_ok_iff (h : Datum.IsSection d) {r : TaskSettings} :
    taskSchema.read {} d = .ok r ↔
      Follows .fetchTimeout (d.bind (Datum.at? ["url_get_timeout_secs"]))
        (some (.unsigned r.fetchTimeout)) := by
  rw [readsAs_fetchTimeout.follows_iff]
  refine Schema.read_single_eq_ok_iff h rfl
    (stores_word "url_get_timeout_secs" 64 TaskSettings.fetchTimeout
      (fun s fetchTimeout => { s with fetchTimeout }) fun _ => rfl) fun fetchTimeout => ?_
  rw [TaskSettings.mk.injEq]

theorem at?_path (m : Datum) (x : Setting) :
    m.at? x.path = (m.at? [x.place.1]).bind (Datum.at? [x.place.2]) :=
  Datum.at?_append [x.place.1] [x.place.2] m

/-- The parts that settings are read from. -/
theorem ofDatum_eq_ok_iff_parts {m : Datum} {s : Settings} : ofDatum m = .ok s ↔
    authSchema.read {} (m.at? ["auth"]) = .ok s.auth ∧
      serverSchema.read {} (m.at? ["server"]) = .ok s.server ∧
      taskSchema.read {} (m.at? ["tasks"]) = .ok s.tasks ∧
      travisSchema.read {} (m.at? ["travis"]) = .ok s.travis := by
  constructor
  · intro h
    obtain ⟨auth, hauth, h⟩ := bind_eq_ok_iff.mp h
    obtain ⟨server, hserver, h⟩ := bind_eq_ok_iff.mp h
    obtain ⟨tasks, htasks, h⟩ := bind_eq_ok_iff.mp h
    obtain ⟨travis, htravis, h⟩ := bind_eq_ok_iff.mp h
    cases h
    exact ⟨hauth, hserver, htasks, htravis⟩
  · rintro ⟨hauth, hserver, htasks, htravis⟩
    exact bind_eq_ok_iff.mpr ⟨_, hauth, bind_eq_ok_iff.mpr ⟨_, hserver,
      bind_eq_ok_iff.mpr ⟨_, htasks, bind_eq_ok_iff.mpr ⟨_, htravis, rfl⟩⟩⟩⟩

/-- Settings that are read follow the sections that are tables. -/
theorem follows_of_ofDatum {m : Datum} {s : Settings} (h : ofDatum m = .ok s) {x : Setting}
    (hx : Datum.IsSection (m.at? [x.place.1])) : Follows x (m.at? x.path) (s.value x) := by
  obtain ⟨hauth, hserver, htasks, htravis⟩ := ofDatum_eq_ok_iff_parts.mp h
  rw [at?_path]
  cases x with
  | bind => exact ((server_read_eq_ok_iff hx).mp hserver).1
  | port => exact ((server_read_eq_ok_iff hx).mp hserver).2
  | username => exact ((auth_read_eq_ok_iff hx).mp hauth).2
  | password => exact ((auth_read_eq_ok_iff hx).mp hauth).1
  | baseUrl => exact ((travis_read_eq_ok_iff hx).mp htravis).1
  | timeout => exact ((travis_read_eq_ok_iff hx).mp htravis).2
  | fetchTimeout => exact (tasks_read_eq_ok_iff hx).mp htasks

/-- The settings that values of the right kinds make are read. -/
theorem ofDatum_of_follows {m : Datum} {s : Settings}
    (hsections : ∀ x : Setting, Datum.IsSection (m.at? [x.place.1]))
    (h : ∀ x : Setting, Follows x (m.at? x.path) (s.value x)) : ofDatum m = .ok s := by
  simp only [at?_path] at h
  exact ofDatum_eq_ok_iff_parts.mpr
    ⟨(auth_read_eq_ok_iff (hsections .username)).mpr ⟨h .password, h .username⟩,
      (server_read_eq_ok_iff (hsections .bind)).mpr ⟨h .bind, h .port⟩,
      (tasks_read_eq_ok_iff (hsections .fetchTimeout)).mpr (h .fetchTimeout),
      (travis_read_eq_ok_iff (hsections .baseUrl)).mpr ⟨h .baseUrl, h .timeout⟩⟩

/-- Where a value of a wrong kind stands at the path of a setting, no settings are read. -/
theorem ofDatum_eq_error {m d : Datum} {x : Setting} (hd : m.at? x.path = some d)
    (hx : x.read d = none) : ∃ e, ofDatum m = .error e := by
  cases h : ofDatum m with
  | error e => exact ⟨e, rfl⟩
  | ok s =>
    have hsection : Datum.IsSection (m.at? [x.place.1]) := by
      intro inner hinner
      rw [at?_path, hinner, Option.bind_some] at hd
      cases inner with
      | table o members => exact ⟨o, members, rfl⟩
      | scalar o v => cases hd
      | list o items => cases hd
    have hread := (follows_of_ofDatum h hsection).1 d hd
    rw [hx] at hread
    cases hread

/-- Values of the right kinds make settings. -/
theorem exists_follows {m : Datum}
    (h : ∀ (x : Setting) d, m.at? x.path = some d → (x.read d).isSome = true) :
    ∃ s : Settings, ∀ x, Follows x (m.at? x.path) (s.value x) := by
  obtain ⟨bind, hbind⟩ := readsAs_bind.exists_follows (h .bind)
  obtain ⟨port, hport⟩ := readsAs_port.exists_follows (h .port)
  obtain ⟨username, husername⟩ := readsAs_username.exists_follows (h .username)
  obtain ⟨password, hpassword⟩ := readsAs_password.exists_follows (h .password)
  obtain ⟨baseUrl, hbaseUrl⟩ := readsAs_baseUrl.exists_follows (h .baseUrl)
  obtain ⟨timeout, htimeout⟩ := readsAs_timeout.exists_follows (h .timeout)
  obtain ⟨fetchTimeout, hfetchTimeout⟩ := readsAs_fetchTimeout.exists_follows (h .fetchTimeout)
  refine ⟨⟨⟨bind, port⟩, ⟨username, password⟩, ⟨baseUrl, timeout⟩, ⟨fetchTimeout⟩⟩, fun x => ?_⟩
  cases x <;> assumption

/-- The tree of the file, which is empty where there is no file. -/
def ground (file : Option (String × String)) : Reading Datum :=
  match file with
  | some (name, text) => layerOf (.file name) text
  | none => .ok (.table .environment [])

variable {file : Option (String × String)} {env : List (String × String)} {under : Datum}

theorem load_eq (file : Option (String × String)) (env : List (String × String)) :
    load file env =
      (ground file).bind fun under => ofDatum (under.lay (Variable.layer env)) := by
  cases file with
  | none => rfl
  | some file =>
    rw [load, ground]
    cases layerOf (.file file.1) file.2 <;> rfl

end Settings

namespace Setting

variable {x : Setting} {env : List (String × String)} {under : Datum}

/-- What the variable of a setting gives it. -/
def given (x : Setting) (env : List (String × String)) : Option Datum :=
  Variable.given x.path env

/-- What a setting has from its variable, else from the file. -/
def inEffect (x : Setting) (under : Datum) (env : List (String × String)) : Option Datum :=
  (x.given env).or (under.at? x.path)

theorem read_layOver (x : Setting) (under : Option Datum) (d : Datum) :
    x.read (Datum.layOver under d) = x.read d := by
  cases under with
  | none => rfl
  | some old =>
    cases d with
    | scalar o v => rfl
    | list o items => rfl
    | table o members => cases old <;> cases x <;> rfl

/-- The merged tree gives a setting what is in effect. -/
theorem follows_merged_iff (h : Variable.Single x.path env) {v : Option Scalar} :
    Settings.Follows x ((under.lay (Variable.layer env)).at? x.path) v ↔
      Settings.Follows x (x.inEffect under env) v := by
  rw [h.at?_lay_layer (List.cons_ne_nil _ _), inEffect, given]
  cases Variable.given x.path env with
  | none => rfl
  | some d => simp [Settings.Follows, Datum.merged, read_layOver]

/-- The variables leave a section a section. -/
theorem isSection_merged (h : Variable.Single x.path env)
    (hunder : Datum.IsSection (under.at? [x.place.1])) :
    Datum.IsSection ((under.lay (Variable.layer env)).at? [x.place.1]) := by
  have hopens : (Variable.layer env).Opens ([x.place.1] ++ [x.place.2]) := h.opens_layer
  have hfirst : (Variable.layer env).Opens [x.place.1] := hopens.take 1
  rw [hfirst.at?_lay]
  exact hunder.merged fun inner hinner => hopens.table_at? hinner

end Setting

namespace Settings

variable {file : Option (String × String)} {env : List (String × String)} {under : Datum}

/-- Settings load where the sections of the file are tables, each setting has one variable at most,
and what is in effect is of the right kinds. Every setting follows what is in effect for it. -/
theorem exists_load (hunder : ground file = .ok under)
    (hsections : ∀ x : Setting, Datum.IsSection (under.at? [x.place.1]))
    (henv : ∀ x : Setting, Variable.Single x.path env)
    (hread : ∀ (x : Setting) d, x.inEffect under env = some d → (x.read d).isSome = true) :
    ∃ s, load file env = .ok s ∧ ∀ x, Follows x (x.inEffect under env) (s.value x) := by
  have hmerged : ∀ (x : Setting) d, (under.lay (Variable.layer env)).at? x.path = some d →
      (x.read d).isSome = true :=
    fun x => ((Setting.follows_merged_iff (henv x)).mpr ⟨hread x, rfl⟩).1
  obtain ⟨s, hs⟩ := exists_follows hmerged
  refine ⟨s, ?_, fun x => (Setting.follows_merged_iff (henv x)).mp (hs x)⟩
  rw [load_eq, hunder]
  exact ofDatum_of_follows (fun x => Setting.isSection_merged (henv x) (hsections x)) hs

/-- Settings do not load from what is no document, nor with a value of a wrong kind in effect. -/
theorem exists_load_error (h : ground file = .error .noToml ∨ ∃ under x d,
    ground file = .ok under ∧ (under.lay (Variable.layer env)).at? (Setting.path x) = some d ∧
      x.read d = none) : ∃ e, load file env = .error e := by
  rw [load_eq]
  rcases h with h | ⟨under, x, d, hunder, hd, hx⟩
  · exact ⟨_, by rw [h]; rfl⟩
  · rw [hunder]
    exact ofDatum_eq_error hd hx

end Settings

namespace Startup

/-- The settings that the program runs with. -/
def effective (flags : Flags) (file : Option (String × String)) (env : List (String × String)) :
    Settings :=
  flags.override (settled (Settings.load file env)).1

/-- The program runs with settings of which each comes from its flag, else from its variable, else
from the file, else is its default, whatever the others come from, where every value in effect is of
the right kind. Where the file is no document or a value in effect is of a wrong kind, the settings
do not load, and then each comes from its flag or is its default. -/
theorem settings_layered (flags : Flags) (file : Option (String × String))
    (env : List (String × String)) :
    (∀ x : Setting, Variable.path? x.variableName = some x.path) ∧
      (∀ arguments files settings address log,
        Command.ofArguments arguments = .ok (.serve flags) → files (flags.path env) = file →
          ofArguments arguments env files = listening settings address log →
            settings = effective flags file env) ∧
      (∀ under, Settings.ground file = .ok under →
        (∀ x : Setting, Datum.IsSection (under.at? [x.place.1])) →
        (∀ x : Setting, Variable.Single x.path env) →
        (∀ (x : Setting) d, (x.given env).or (under.at? x.path) = some d →
          (x.read d).isSome = true) →
        (∃ s, Settings.load file env = .ok s) ∧
          ∀ x : Setting, (effective flags file env).value x =
            (flags.value x).or (((x.given env).bind x.read).or
              (((under.at? x.path).bind x.read).or (({} : Settings).value x)))) ∧
      ((Settings.ground file = .error .noToml ∨ ∃ under x d, Settings.ground file = .ok under ∧
        (under.lay (Variable.layer env)).at? (Setting.path x) = some d ∧ x.read d = none) →
        ∃ e, Settings.load file env = .error e) ∧
      ∀ e, Settings.load file env = .error e →
        ∀ x, (effective flags file env).value x =
          (flags.value x).or (({} : Settings).value x) := by
  refine ⟨Setting.path?_variableName,
    fun arguments files settings address log hserve hfile hlistening => ?_,
    fun under hunder hsections henv hread => ?_, Settings.exists_load_error, fun e he x => ?_⟩
  · rw [ofArguments, hserve] at hlistening
    obtain ⟨rfl, -⟩ := serve_eq_listening_iff.mp hlistening
    rw [effective, ← hfile]
  · obtain ⟨s, hs, hfollows⟩ := Settings.exists_load hunder hsections henv hread
    refine ⟨⟨s, hs⟩, fun x => ?_⟩
    rw [effective, hs, Flags.value_override]
    refine congrArg _ ((hfollows x).2.trans ?_)
    have hx := hread x
    -- a value that a variable gives is of the right kind, so that the file does not come in
    cases hgiven : x.given env with
    | none => simp [Setting.inEffect, hgiven]
    | some d =>
      obtain ⟨v, hv⟩ := Option.isSome_iff_exists.mp (hx d (by rw [hgiven]; rfl))
      simp [Setting.inEffect, hgiven, hv]
  · rw [effective, he, Flags.value_override]
    rfl

/-- A file with a section partly filled and a key that means nothing, and variables over it. Then a
file that is no document, and a port that is no number. -/
theorem settings_layered_of_part :
    let file := some ("prodda.toml", "[server]\nport = 81\nhost = 1\n[travis]\ntimeout_secs = 9")
    let env := [("PRODDA_SERVER__HOST", "a"), ("PRODDA_TRAVIS__TIMEOUT_SECS", "5")]
    let flags : Flags := { bind := some "127.0.0.1" }
    (∃ under, Settings.ground file = .ok under ∧ ∀ x ∈ Setting.all,
        Datum.IsSection (under.at? [x.place.1]) ∧ Variable.Single x.path env) ∧
      (∀ x, (effective flags file env).value x =
        ({ server := ⟨"127.0.0.1", 81⟩, travis := { timeout := 5 } } : Settings).value x) ∧
      (∀ x, (effective flags (some ("prodda.toml", "[server")) env).value x =
        (flags.value x).or (({} : Settings).value x)) ∧
      ∀ x, (effective flags none [("PRODDA_SERVER__PORT", "x")]).value x =
        (flags.value x).or (({} : Settings).value x) := by
  intro file env flags
  have hcheck : (Settings.ground file).toOption.any (fun under => decide (∀ x ∈ Setting.all,
      Datum.IsSection (under.at? [x.place.1]) ∧ Variable.Single x.path env ∧
        ((x.given env).or (under.at? x.path)).all (fun d => (x.read d).isSome) = true ∧
        (flags.value x).or (((x.given env).bind x.read).or
          (((under.at? x.path).bind x.read).or (({} : Settings).value x))) =
            ({ server := ⟨"127.0.0.1", 81⟩, travis := { timeout := 5 } } : Settings).value x)) =
      true := by
    decide +kernel
  have hnoToml : Settings.ground (some ("prodda.toml", "[server")) = .error .noToml := by
    have hread : (Toml.ofText? "[server").isNone = true := by decide +kernel
    rw [Settings.ground, Settings.layerOf, Option.isNone_iff_eq_none.mp hread]
  have hport : (((Datum.table .environment []).lay
      (Variable.layer [("PRODDA_SERVER__PORT", "x")])).at? (Setting.path .port)).map
        Setting.port.read = some none := by
    decide +kernel
  obtain ⟨d, hd, hread⟩ := Option.map_eq_some_iff.mp hport
  obtain ⟨-, -, -, hfails, htogether⟩ := settings_layered flags none [("PRODDA_SERVER__PORT", "x")]
  obtain ⟨e, he⟩ := hfails (.inr ⟨_, .port, d, rfl, hd, hread⟩)
  obtain ⟨-, -, -, hfails', htogether'⟩ :=
    settings_layered flags (some ("prodda.toml", "[server")) env
  obtain ⟨e', he'⟩ := hfails' (.inl hnoToml)
  cases hground : Settings.ground file with
  | error e =>
    rw [hground] at hcheck
    cases hcheck
  | ok under =>
    rw [hground] at hcheck
    have hall := fun x => of_decide_eq_true hcheck x (Setting.mem_all x)
    have hread (x : Setting) (d : Datum) (hd : (x.given env).or (under.at? x.path) = some d) :
        (x.read d).isSome = true := by
      have hx := (hall x).2.2.1
      rw [hd] at hx
      exact hx
    obtain ⟨-, hvalue⟩ := (settings_layered flags file env).2.2.1 under hground
      (fun x => (hall x).1) (fun x => (hall x).2.1) hread
    exact ⟨⟨under, rfl, fun x _ => ⟨(hall x).1, (hall x).2.1⟩⟩,
      fun x => (hvalue x).trans (hall x).2.2.2, htogether' e' he', htogether e he⟩

end Startup

end Almanac
