import Almanac.Proofs.Gate
import Almanac.Proofs.Variables
import Almanac.Startup
import Mathlib.Data.List.Permutation

/-!
# Credentials in the environment

A user and a password given by variables alone are the ones that requests must present if and only
if both texts come through as they stand. A text that is taken for a number, a truth value, a list
or a table makes the settings refuse to load, and then the program starts with its defaults, which
ask for no credentials.
-/

namespace Almanac

def userVariable : String := "PRODDA_AUTH__USERNAME"

def passwordVariable : String := "PRODDA_AUTH__PASSWORD"

/-- Holds of the surroundings in which a user and a password are the only settings, in either
order and among variables that mean no setting. -/
def GivesOnly (env : List (String × String)) (user password : String) : Prop :=
  (env.filter fun v => (Variable.path? v.1).isSome).Perm
    [(userVariable, user), (passwordVariable, password)]

/-- Holds of the texts that are taken for a text, if not for themselves. -/
def Variable.IsTextual (s : List Char) : Prop :=
  ∀ d, Means s d → ∃ t, d = .scalar .environment (.text t)

theorem Variable.Means.origin {s : List Char} {d : Datum} (h : Means s d) :
    d.origin = .environment := by
  cases h <;> rfl

/-- A setting is a text exactly if its variable is taken for it. -/
theorem Variable.asText_datum {path : List String} {text t : String} :
    Settings.asText path (datum text) = .ok t ↔ datum text = .scalar .environment (.text t) := by
  constructor
  · intro h
    have horigin : (datum text).origin = .environment := by
      by_cases hmeans : ∃ d, Means text.toList d
      · obtain ⟨d, hd⟩ := hmeans
        rw [datum_of_means hd, hd.origin]
      · rw [datum_of_meaningless fun d hd => hmeans ⟨d, hd⟩, Datum.origin]
    unfold Settings.asText at h
    split at h
    · next heq =>
      cases h
      rw [heq] at horigin ⊢
      exact congrArg (Datum.scalar · _) horigin
    · cases h
  · intro h
    rw [h, Settings.asText]

theorem Variable.isTextual_iff (path : List String) {text : String} :
    IsTextual text.toList ↔ ∃ t, Settings.asText path (datum text) = .ok t := by
  simp only [asText_datum]
  by_cases hmeans : ∃ d, Means text.toList d
  · obtain ⟨d, hd⟩ := hmeans
    constructor
    · intro h
      obtain ⟨t, rfl⟩ := h d hd
      exact ⟨t, datum_of_means hd⟩
    · rintro ⟨t, ht⟩ d' hd'
      exact ⟨t, (datum_of_means hd').symm.trans ht⟩
  · have hnone : ∀ d, ¬Means text.toList d := fun d hd => hmeans ⟨d, hd⟩
    exact ⟨fun _ => ⟨text, datum_of_meaningless hnone⟩, fun _ d hd => absurd hd (hnone d)⟩

variable {env : List (String × String)} {user password : String}

/-- Variables that mean no setting leave the tree as it is. -/
theorem Variable.layer_filter (env : List (String × String)) :
    Variable.layer env = Variable.layer (env.filter fun v => (Variable.path? v.1).isSome) := by
  rw [Variable.layer, Variable.layer, List.foldl_filter]
  refine congrArg (fun f => env.foldl f _) (funext fun under => funext fun v => ?_)
  cases Variable.path? v.1 <;> rfl

/-- The members that the two variables make, in the order that they stand in. -/
theorem GivesOnly.layer (h : GivesOnly env user password) :
    ∃ members, Variable.layer env = .table .environment [("auth", .table .environment members)] ∧
      members.lookup "username" = some (Variable.datum user) ∧
      members.lookup "password" = some (Variable.datum password) := by
  have huser : Variable.path? userVariable = some ["auth", "username"] := by decide +kernel
  have hpassword : Variable.path? passwordVariable = some ["auth", "password"] := by
    decide +kernel
  have hlist := List.perm_pair.mp h
  rw [Variable.layer_filter]
  rcases hlist with hlist | hlist
  · refine ⟨[("username", Variable.datum user), ("password", Variable.datum password)], ?_,
      rfl, rfl⟩
    simp only [hlist, Variable.layer, List.foldl_cons, List.foldl_nil, huser, hpassword]
    rfl
  · refine ⟨[("password", Variable.datum password), ("username", Variable.datum user)], ?_,
      rfl, rfl⟩
    simp only [hlist, Variable.layer, List.foldl_cons, List.foldl_nil, huser, hpassword]
    rfl

namespace Settings

/-- What loading comes to where the two variables are all there is: the password is read first. -/
theorem load_of_givesOnly (h : GivesOnly env user password) :
    load none env = (do
      let p ← asText ["auth", "password"] (Variable.datum password)
      let u ← asText ["auth", "username"] (Variable.datum user)
      .ok { auth := ⟨some u, some p⟩ }) := by
  obtain ⟨members, hlayer, huser, hpassword⟩ := h.layer
  have hfields : (authSchema.fields.mergeSort fun a b => decide (a.name ≤ b.name)) =
      [⟨"password", fun path d s => (asText path d).map fun t => { s with password := some t }⟩,
        ⟨"username", fun path d s =>
          (asText path d).map fun t => { s with username := some t }⟩] := by
    simp [authSchema, List.mergeSort]
  have htree : load none env =
      ofDatum (.table .environment [("auth", .table .environment members)]) := by
    rw [load, hlayer]
    rfl
  have hauth : authSchema.ofMembers {} members = (do
      let p ← asText ["auth", "password"] (Variable.datum password)
      let u ← asText ["auth", "username"] (Variable.datum user)
      .ok ⟨some u, some p⟩) := by
    rw [Schema.ofMembers, hfields]
    simp only [List.foldlM_cons, List.foldlM_nil, Schema.takeMember, huser, hpassword]
    rw [show authSchema.name = "auth" from rfl]
    cases asText ["auth", "password"] (Variable.datum password) with
    | error e => rfl
    | ok p => cases asText ["auth", "username"] (Variable.datum user) <;> rfl
  have hread : ofDatum (.table .environment [("auth", .table .environment members)]) =
      (authSchema.ofMembers {} members).map fun auth => { auth } := by
    cases h : authSchema.ofMembers {} members <;> simp [ofDatum, Datum.at?, Schema.read, h] <;> rfl
  rw [htree, hread, hauth]
  cases asText ["auth", "password"] (Variable.datum password) with
  | error e => rfl
  | ok p => cases asText ["auth", "username"] (Variable.datum user) <;> rfl

theorem load_eq_ok_iff (h : GivesOnly env user password) {s : Settings} :
    load none env = .ok s ↔ ∃ u p, Variable.datum user = .scalar .environment (.text u) ∧
      Variable.datum password = .scalar .environment (.text p) ∧
        s = { auth := ⟨some u, some p⟩ } := by
  rw [load_of_givesOnly h]
  constructor
  · intro hload
    obtain ⟨p, hp, hload⟩ := bind_eq_ok_iff.mp hload
    obtain ⟨u, hu, hload⟩ := bind_eq_ok_iff.mp hload
    cases hload
    exact ⟨u, p, Variable.asText_datum.mp hu, Variable.asText_datum.mp hp, rfl⟩
  · rintro ⟨u, p, hu, hp, rfl⟩
    exact bind_eq_ok_iff.mpr ⟨p, Variable.asText_datum.mpr hp,
      bind_eq_ok_iff.mpr ⟨u, Variable.asText_datum.mpr hu, rfl⟩⟩

/-- Settings load with a pair exactly if both halves come through as they stand. -/
theorem load_credentials_iff (h : GivesOnly env user password)
    (hset : user ≠ "" ∧ password ≠ "") :
    (∃ s, load none env = .ok s ∧ s.credentials = some (user, password)) ↔
      Variable.Stands user.toList ∧ Variable.Stands password.toList := by
  simp only [load_eq_ok_iff h, ← Variable.datum_eq_text_iff]
  constructor
  · rintro ⟨s, ⟨u, p, hu, hp, rfl⟩, hs⟩
    obtain ⟨hu', hp', -⟩ := credentials_eq_some_iff.mp hs
    cases hu'
    cases hp'
    exact ⟨hu, hp⟩
  · rintro ⟨hu, hp⟩
    exact ⟨_, ⟨user, password, hu, hp, rfl⟩, credentials_eq_some_iff.mpr ⟨rfl, rfl, hset⟩⟩

/-- Settings do not load exactly if one of the halves is taken for something that is no text. -/
theorem load_eq_error_iff (h : GivesOnly env user password) :
    (∃ e, load none env = .error e) ↔
      ¬(Variable.IsTextual user.toList ∧ Variable.IsTextual password.toList) := by
  have hok : (∃ s, load none env = .ok s) ↔
      Variable.IsTextual user.toList ∧ Variable.IsTextual password.toList := by
    simp only [load_eq_ok_iff h, Variable.isTextual_iff [], Variable.asText_datum]
    constructor
    · rintro ⟨s, u, p, hu, hp, -⟩
      exact ⟨⟨u, hu⟩, ⟨p, hp⟩⟩
    · rintro ⟨⟨u, hu⟩, ⟨p, hp⟩⟩
      exact ⟨_, u, p, hu, hp, rfl⟩
  rw [← hok]
  cases load none env <;> simp

end Settings

namespace Startup

variable {arguments : List String} {flags : Flags} {file : String → Option (String × String)}

variable (env file) in
theorem ofArguments_of_serve (hserve : Command.ofArguments arguments = .ok (.serve flags))
    (hfile : file (flags.path env) = none) :
    ofArguments arguments env file = serve flags (Settings.load none env) := by
  rw [ofArguments, hserve]
  exact congrArg (fun f => serve flags (Settings.load f env)) hfile

theorem serve_eq_listening_iff {loaded : Except SettingsError Settings} {settings : Settings}
    {address : SocketAddress} {log : List LogLine} :
    serve flags loaded = listening settings address log ↔
      settings = flags.override (settled loaded).1 ∧
        SocketAddress.ofText? settings.listenAddress.toList = some address ∧
          log = (settled loaded).2 ++ openLines settings ++
            [⟨.info, "Prodda listening on " ++ address.text, none⟩] := by
  rw [serve]
  constructor
  · intro h
    dsimp only at h
    split at h
    · cases h
    · next haddress =>
      cases h
      exact ⟨rfl, haddress, rfl⟩
  · rintro ⟨rfl, haddress, rfl⟩
    simp only [haddress]

/-- Two variables that give a user and a password, and no other setting, are what requests must
present if and only if both texts come through as they stand. If one of them is taken for
something that is no text, the program says that it uses its defaults and lets every request
through. -/
theorem credentials_enforced_iff (henv : GivesOnly env user password)
    (hset : user ≠ "" ∧ password ≠ "")
    (hserve : Command.ofArguments arguments = .ok (.serve flags))
    (hfile : file (flags.path env) = none) :
    ((∃ s, Settings.load none env = .ok s ∧ s.credentials = some (user, password)) ↔
        Variable.Stands user.toList ∧ Variable.Stands password.toList) ∧
      (flags.bind = none → flags.port = none → ∃ settings address log,
        ofArguments arguments env file = listening settings address log) ∧
      ∀ settings address log, ofArguments arguments env file = listening settings address log →
        (settings.credentials = some (user, password) ↔
          Variable.Stands user.toList ∧ Variable.Stands password.toList) ∧
        (Variable.Stands user.toList ∧ Variable.Stands password.toList →
          log = [⟨.info, "Prodda listening on " ++ address.text, none⟩] ∧
            ∀ r, Web.judge settings.credentials r = .admitted ↔
              ':' ∉ user.toList ∧ r.Presents user password) ∧
        (¬(Variable.IsTextual user.toList ∧ Variable.IsTextual password.toList) →
          settings = flags.override {} ∧
            (∃ e, log.head? = some
              ⟨.warning, "Config load failed (" ++ e ++ "), using defaults", none⟩) ∧
            ∀ r, Web.judge settings.credentials r = .admitted) := by
  have hload := Settings.load_credentials_iff henv hset
  have hstart := ofArguments_of_serve env file hserve hfile
  -- no flag has to do with credentials
  have hkept (s : Settings) : (flags.override s).credentials = s.credentials := rfl
  refine ⟨hload, fun hbind hport => ?_, fun settings address log hlistening => ?_⟩
  · have haddress : (flags.override (settled (Settings.load none env)).1).listenAddress =
        "0.0.0.0:3000" := by
      have hserver : (settled (Settings.load none env)).1.server = {} := by
        cases hloaded : Settings.load none env with
        | error e => rfl
        | ok s =>
          obtain ⟨u, p, -, -, rfl⟩ := (Settings.load_eq_ok_iff henv).mp hloaded
          rfl
      rw [Flags.override, hbind, hport, hserver]
      exact (by decide +kernel : ({} : Settings).listenAddress = "0.0.0.0:3000")
    have hread : (SocketAddress.ofText? "0.0.0.0:3000".toList).isSome = true := by decide +kernel
    obtain ⟨address, hread⟩ := Option.isSome_iff_exists.mp hread
    rw [← haddress] at hread
    exact ⟨_, address, _, hstart.trans (serve_eq_listening_iff.mpr ⟨rfl, hread, rfl⟩)⟩
  · obtain ⟨rfl, -, rfl⟩ := serve_eq_listening_iff.mp (hstart ▸ hlistening)
    have hloaded : (flags.override (settled (Settings.load none env)).1).credentials =
        some (user, password) ↔
          ∃ s, Settings.load none env = .ok s ∧ s.credentials = some (user, password) := by
      rw [hkept]
      cases Settings.load none env with
      | error e => simp [settled, Settings.credentials]
      | ok s => simp [settled]
    refine ⟨hloaded.trans hload, fun hstands => ?_, fun htextual => ?_⟩
    · obtain ⟨s, hs, -⟩ := hload.mpr hstands
      have hcredentials := (hloaded.trans hload).mpr hstands
      refine ⟨?_, fun r => ?_⟩
      · rw [openLines, hcredentials, hs]
        rfl
      · rw [hcredentials]
        exact Web.judge_eq_admitted_iff
    · obtain ⟨e, he⟩ := (Settings.load_eq_error_iff henv).mpr htextual
      rw [he]
      exact ⟨rfl, ⟨e.message, rfl⟩, fun r => rfl⟩

/-- A password that begins as a list does and is none, behind a user with a point. -/
theorem credentials_enforced_of_bracket :
    let env := [("LANG", "C"), (passwordVariable, "[secret"), (userVariable, "j.doe")]
    (∃ s, Settings.load none env = .ok s ∧ s.credentials = some ("j.doe", "[secret")) ∧
      ∃ settings address log, ofArguments [] env (fun _ => none) = listening settings address log ∧
        settings.credentials = some ("j.doe", "[secret") := by
  intro env
  have henv : GivesOnly env "j.doe" "[secret" := by
    have hfilter : env.filter (fun v => (Variable.path? v.1).isSome) =
        [(passwordVariable, "[secret"), (userVariable, "j.doe")] := by decide +kernel
    exact List.perm_pair.mpr (Or.inr hfilter)
  have huser : Settings.asText [] (Variable.datum "j.doe") = .ok "j.doe" := by decide +kernel
  have hpassword : Settings.asText [] (Variable.datum "[secret") = .ok "[secret" := by
    decide +kernel
  have hstands : Variable.Stands "j.doe".toList ∧ Variable.Stands "[secret".toList :=
    ⟨Variable.datum_eq_text_iff.mp (Variable.asText_datum.mp huser),
      Variable.datum_eq_text_iff.mp (Variable.asText_datum.mp hpassword)⟩
  obtain ⟨hload, hlistens, hexact⟩ :=
    @credentials_enforced_iff env "j.doe" "[secret" [] {} (fun _ => none) henv (by decide) rfl rfl
  obtain ⟨settings, address, log, hlistening⟩ := hlistens rfl rfl
  exact ⟨hload.mpr hstands, settings, address, log, hlistening,
    (hexact settings address log hlistening).1.mpr hstands⟩

/-- A password of digits is taken for a number: the settings do not load, and the program listens
and lets every request through. -/
theorem credentials_lost :
    let env := [(userVariable, "u"), (passwordVariable, "1234")]
    Settings.load none env = .error (.misfit
      (.wrongType "unsigned int `1234`" "a string") ["auth", "password"] .environment) ∧
      ∃ settings address log, ofArguments [] env (fun _ => none) = listening settings address log ∧
        ∀ r, Web.judge settings.credentials r = .admitted := by
  intro env
  have henv : GivesOnly env "u" "1234" := by
    have hfilter : env.filter (fun v => (Variable.path? v.1).isSome) = env := by decide +kernel
    exact List.perm_pair.mpr (Or.inl hfilter)
  have hnumber : Settings.asText ["auth", "password"] (Variable.datum "1234") = .error (.misfit
      (.wrongType "unsigned int `1234`" "a string") ["auth", "password"] .environment) := by
    decide +kernel
  have hload : Settings.load none env = .error (.misfit
      (.wrongType "unsigned int `1234`" "a string") ["auth", "password"] .environment) := by
    rw [Settings.load_of_givesOnly henv, hnumber]
    rfl
  have hread : (SocketAddress.ofText? ({} : Settings).listenAddress.toList).isSome = true := by
    decide +kernel
  obtain ⟨address, haddress⟩ := Option.isSome_iff_exists.mp hread
  have hserve : Command.ofArguments [] = .ok (.serve {}) := rfl
  have hstart := ofArguments_of_serve env (fun _ => none) hserve rfl
  rw [hload] at hstart
  exact ⟨hload, {}, address, _, hstart.trans (serve_eq_listening_iff.mpr ⟨rfl, haddress, rfl⟩),
    fun r => rfl⟩

end Startup

end Almanac
