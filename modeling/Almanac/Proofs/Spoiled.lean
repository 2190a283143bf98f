import Almanac.Proofs.Elders
import Almanac.Proofs.Grants
import Almanac.Proofs.Refusals

/-!
# Spoiled rosters

A source that breaks off while an id is drawn spoils the roster for good. Requests check their
arguments as before, come to the roster, and leave the timetable exactly as it was. Alarms need no
roster, so those that run go on, and a shutdown stops them (`spoiled_freezes`).
-/

namespace Almanac

/-- Holds of the requests, which all come to the roster sooner or later; a shutdown does not. -/
def Act.isRequest : Act → Bool
  | create _ _ => true
  | update _ _ => true
  | remove _ => true
  | list => true
  | get _ => true
  | _ => false

namespace Roster

variable {r : Roster}

theorem sound_of_spoiled (h : r.isSpoiled = true) : r.sound = .error .spoiled :=
  if_pos h

theorem byId_of_spoiled (h : r.isSpoiled = true) (id : Nat) : r.byId id = .error .spoiled := by
  rw [byId, sound_of_spoiled h]
  rfl

/-- A spoiled roster still tells an entry that has an id already. -/
theorem add_of_spoiled (h : r.isSpoiled = true) (e : Entry) :
    r.add e = ⟨Attempt.refuse (if e.id = 0 then .spoiled else .alreadyAdded e.id), r, 0⟩ := by
  simp only [add]
  by_cases hid : e.id = 0
  · rw [if_neg (not_not_intro hid), if_pos h, if_pos hid]
  · rw [if_pos hid, if_neg hid]

end Roster

namespace Timetable

variable {t : Timetable} {task : Task} {plan : Plan}

/-- Every use of the roster is refused, and none changes anything. What is checked before the roster
is asked for is still checked. -/
structure Frozen (t : Timetable) : Prop where
  list : t.list = .error (.roster .spoiled)
  size : t.size = .error (.roster .spoiled)
  get : ∀ id, t.get id = .error (.roster .spoiled)
  remove : ∀ id, t.remove id = (.error (.roster .spoiled), t)
  create_refused : ∀ task plan e, plan.Refused t.now e →
    t.create task plan = (Attempt.refuse (.plan e), t)
  create : ∀ task plan, (∀ e, ¬ plan.Refused t.now e) →
    t.create task plan = (Attempt.refuse (.roster .spoiled), t)
  update_missing : ∀ id plan, t.post? id = none →
    t.update id plan = (Attempt.refuse (.roster (.notFound id)), t)
  update : ∀ id plan n, t.post? id = some n →
    t.update id plan = (Attempt.refuse (.roster .spoiled), t)
  add : ∀ e, t.roster.add e =
    ⟨Attempt.refuse (if e.id = 0 then .spoiled else .alreadyAdded e.id), t.roster, 0⟩

theorem enroll_of_spoiled (h : t.roster.isSpoiled = true) {e : Entry} (hid : e.id = 0) :
    t.enroll e = (Attempt.refuse .spoiled, t) := by
  simp only [enroll]
  rw [Roster.add_of_spoiled h, if_pos hid]
  rfl

/-- A create that passes the check of its plan comes to the roster. -/
theorem create_of_spoiled (h : t.roster.isSpoiled = true) (task : Task)
    (hplan : ∀ e, ¬ plan.Refused t.now e) :
    t.create task plan = (Attempt.refuse (.roster .spoiled), t) := by
  cases hpolicy : Entry.policyOf plan t.now with
  | error e => exact absurd (Entry.policyOf_eq_error_iff.mp hpolicy) (hplan e)
  | ok policy =>
      obtain ⟨due, period⟩ := policy
      have hnew : Entry.new task plan t.now = .ok { task, due, period } := by
        rw [Entry.new, hpolicy]
        rfl
      simp only [create]
      rw [hnew]
      dsimp only
      rw [enroll_of_spoiled h rfl]
      rfl

theorem entryOf_of_spoiled (h : t.roster.isSpoiled = true) (id : Nat) :
    t.entryOf id = .error (.roster .spoiled) := by
  rw [entryOf, Roster.byId_of_spoiled h]

theorem update_of_spoiled (h : t.roster.isSpoiled = true) {id n : Nat} (hpost : t.post? id = some n)
    (plan : Plan) : t.update id plan = (Attempt.refuse (.roster .spoiled), t) := by
  simp only [update]
  rw [hpost]
  dsimp only
  rw [entryOf_of_spoiled h]
  rfl

theorem frozen_of_spoiled (h : t.roster.isSpoiled = true) : t.Frozen where
  list := by
    rw [list, Roster.all, Roster.sound_of_spoiled h]
    rfl
  size := by
    rw [size, Roster.size, Roster.sound_of_spoiled h]
    rfl
  get id := by
    rw [get, entryOf_of_spoiled h]
    rfl
  remove id := by rw [remove, Roster.byId_of_spoiled h]
  create_refused task plan e hplan := create_of_refused (Entry.policyOf_eq_error_iff.mpr hplan) task
  create task plan hplan := create_of_spoiled h task hplan
  update_missing id plan hpost := by
    simp only [update]
    rw [hpost]
  update id plan n hpost := update_of_spoiled h hpost plan
  add e := Roster.add_of_spoiled h e

/-- No request changes a frozen timetable. -/
theorem Frozen.act_request (h : t.Frozen) {act : Act} (hact : act.isRequest = true) :
    t.act act = t := by
  cases act with
  | create task plan =>
      by_cases hplan : ∃ e, plan.Refused t.now e
      · obtain ⟨e, hplan⟩ := hplan
        exact congrArg Prod.snd (h.create_refused task plan e hplan)
      · exact congrArg Prod.snd (h.create task plan (not_exists.mp hplan))
  | update id plan =>
      cases hpost : t.post? id with
      | none => exact congrArg Prod.snd (h.update_missing id plan hpost)
      | some n => exact congrArg Prod.snd (h.update id plan n hpost)
  | remove id => exact congrArg Prod.snd (h.remove id)
  | list => rfl
  | get id => rfl
  | _ => cases hact

/-- Nothing that happens to a timetable touches a spoiled roster, posts or the next handle. -/
theorem ledger_of_spoiled (h : t.roster.isSpoiled = true) {act : Act}
    (hact : act.isDirect = false) :
    ∃ watchers, (t.act act).ledger = { t.ledger with watchers } := by
  cases act with
  | pass millis => exact ⟨t.watchers, rfl⟩
  | shiftClock millis => exact ⟨t.watchers, rfl⟩
  | poll i => exact ⟨t.watchers, t.ledger_poll i⟩
  | pollWatcher k =>
      rcases t.pollWatcher_cases k with hsame | ⟨w, v, hw, waiting, hv, closed⟩
      · exact ⟨t.watchers, congrArg ledger hsame⟩
      · obtain ⟨_, hledger⟩ := pollWatcher_of_over hw waiting hv closed
        rw [Roster.released_of_spoiled h, ite_self] at hledger
        exact ⟨_, hledger⟩
  | shutdown =>
      obtain ⟨hroster, hposts, hnext, hwatchers, _⟩ := t.shutdown_keeps
      refine ⟨t.watchers, ?_⟩
      simp only [ledger, Timetable.act]
      rw [hroster, hposts, hnext, hwatchers]
  | setUp e => cases hact
  | start n => cases hact
  | cancel n => cases hact
  | replan n plan => cases hact
  | _ => exact ⟨t.watchers, congrArg ledger ((frozen_of_spoiled h).act_request rfl)⟩

theorem ledger_run_of_spoiled (h : t.roster.isSpoiled = true) {acts : List Act}
    (hacts : ∀ act ∈ acts, act.isDirect = false) :
    ∃ watchers, (t.run acts).ledger = { t.ledger with watchers } := by
  induction acts generalizing t with
  | nil => exact ⟨t.watchers, rfl⟩
  | cons act acts ih =>
      obtain ⟨hact, hacts⟩ := List.forall_mem_cons.mp hacts
      obtain ⟨watchers, hfirst⟩ := ledger_of_spoiled h hact
      have hspoiled : (t.act act).roster.isSpoiled = true := by
        rw [show (t.act act).roster = t.roster from congrArg Ledger.roster hfirst]
        exact h
      obtain ⟨watchers', hrest⟩ := ih hspoiled hacts
      refine ⟨watchers', ?_⟩
      rw [run_cons, hrest, hfirst]

/-- Requests might as well not be made. -/
theorem run_of_spoiled (h : t.roster.isSpoiled = true) {acts : List Act}
    (hacts : ∀ act ∈ acts, act.isDirect = false) :
    t.run acts = t.run (acts.filter fun act => !act.isRequest) := by
  induction acts generalizing t with
  | nil => rfl
  | cons act acts ih =>
      obtain ⟨hact, hacts⟩ := List.forall_mem_cons.mp hacts
      obtain ⟨watchers, hledger⟩ := ledger_of_spoiled h hact
      have hspoiled : (t.act act).roster.isSpoiled = true := by
        rw [show (t.act act).roster = t.roster from congrArg Ledger.roster hledger]
        exact h
      cases hrequest : act.isRequest with
      | true =>
          rw [List.filter_cons_of_neg (by simp [hrequest]), run_cons,
            (frozen_of_spoiled h).act_request hrequest]
          exact ih h hacts
      | false =>
          rw [List.filter_cons_of_pos (by simp [hrequest]), run_cons, run_cons]
          exact ih hspoiled hacts

/-- A create that breaks off has spoiled the roster and done nothing else. -/
theorem Posted.create_of_break (h : t.Posted) (hbreak : (t.create task plan).1 = Attempt.breakOff) :
    t.roster.isSpoiled = false ∧ ∃ source journal, t.act (.create task plan) =
      { t with roster := ⟨t.roster.entries, source, true⟩, journal } := by
  constructor
  · by_contra hspoiled
    have hfrozen := frozen_of_spoiled ((Bool.not_eq_false _).mp hspoiled)
    by_cases hplan : ∃ e, plan.Refused t.now e
    · obtain ⟨e, hplan⟩ := hplan
      rw [hfrozen.create_refused task plan e hplan] at hbreak
      cases hbreak
    · rw [hfrozen.create task plan (not_exists.mp hplan)] at hbreak
      cases hbreak
  · rcases h.create_cases task plan with
      ⟨cause, _, hcreate⟩ | ⟨cause, roster, journal, _, hentries, hspoiled, hcreate⟩ |
      ⟨e, b, journal, _, _, _, _, _, _, hcreate⟩
    · rw [hcreate] at hbreak
      cases hbreak
    · refine ⟨roster.source, journal, ?_⟩
      rw [act, hcreate, ← hentries, ← hspoiled]
    · rw [hcreate] at hbreak
      cases hbreak

/-- What is neither a request nor a command to an alarm spares everybody's elders. -/
theorem spares_of_not_isRequest {s : Timetable} {act : Act} (hact : act.isDirect = false)
    (hrequest : act.isRequest = false) : s.Spares act := by
  cases act <;> first | exact hact | cases hrequest

theorem concerns_of_isRequest {s : Timetable} {act : Act} (hact : act.isRequest = true) :
    s.concerns act = false := by
  cases act <;> first | rfl | cases hact

/-- The elders go on as they would have without the break, whatever that would have brought. -/
theorem alike_of_break {u : Timetable} (hagrees : t.Agrees) (hsound : t.core.Sound)
    {source source' : IdSource} {journal : List Happening}
    (hu : u = { t with roster := ⟨t.roster.entries, source, true⟩, journal })
    {later others : List Act} (hlater : ∀ act ∈ later, act.isDirect = false)
    (hothers : ∀ act ∈ others, t.Spares act)
    (same : others.filter t.concerns = later.filter t.concerns) :
    t.Alike (u.run later)
      ({ t with roster := { t.roster with source := source' } }.run others) := by
  have hself : t.GrownFrom t := .refl hagrees
  have hspoiled : u.roster.isSpoiled = true := by rw [hu]
  rw [run_of_spoiled hspoiled hlater]
  refine alike_run hsound ?_ ?_ ?_ ?_ hothers ?_
  · rw [hu]
    exact .of_same t rfl rfl rfl rfl
  · rw [hu]
    exact hself.withSource source true journal
  · exact hself.withSource source' t.roster.isSpoiled t.journal
  · intro act hact
    obtain ⟨hmem, hrequest⟩ := List.mem_filter.mp hact
    exact spares_of_not_isRequest (hlater act hmem) (by simpa using hrequest)
  · rw [same, List.filter_filter]
    apply List.filter_congr
    intro act _
    cases hrequest : act.isRequest with
    | true => rw [concerns_of_isRequest hrequest]; rfl
    | false => simp

/-- Once a create has broken off on the search for an id, it has added nothing, and the service is
frozen whatever follows: every request that comes to the roster is refused, what is checked before
is still checked, and nothing changes entries with their handles, posts or the next handle, the
watchers included. Alarms go on as they would have if the source had held, be it that more entries
were added, changed and removed then, as long as these have nothing to do with them; and a shutdown
still cancels every alarm that runs. -/
theorem spoiled_freezes (start : Instant) (source : IdSource) (replies : List RestartReply)
    (acts : List Act) (hacts : ∀ act ∈ acts, act.isDirect = false) (task : Task) (plan : Plan)
    (hbreak : (((opening start source replies).run acts).create task plan).1 = Attempt.breakOff) :
    let t := (opening start source replies).run acts
    let u := t.act (.create task plan)
    (u.roster.entries = t.roster.entries ∧ u.core = t.core ∧ u.posts = t.posts ∧
      u.watchers = t.watchers ∧ u.nextHandle = t.nextHandle) ∧
    ∀ later : List Act, (∀ act ∈ later, act.isDirect = false) →
      let w := u.run later
      w.Frozen ∧
      (w.roster.entries = t.roster.entries ∧ w.posts = t.posts ∧ w.nextHandle = t.nextHandle) ∧
      (∀ (source' : IdSource) (others : List Act), (∀ act ∈ others, t.Spares act) →
        others.filter t.concerns = later.filter t.concerns →
        t.Alike w ({ t with roster := { t.roster with source := source' } }.run others)) ∧
      ∀ (n : Nat) (a : Alarm), w.alarms[n]? = some a → a.status = .running →
        ∃ b : Alarm, (w.act .shutdown).alarms[n]? = some b ∧ b.status = .cancelled ∧
          b.isRevoked a.token = true := by
  intro t u
  have hkept : t.Kept := (kept_opening start source replies).run hacts
  have hstaffed : t.Staffed :=
    (staffed_opening start source replies).run (agrees_opening start source replies) hacts
  obtain ⟨_, source, journal, hu⟩ := hkept.agrees.toPosted.create_of_break hbreak
  have hcore : u.core = t.core := by rw [show u = _ from hu]; rfl
  have hledger : u.ledger =
      { t.ledger with roster := ⟨t.roster.entries, source, true⟩ } := by
    rw [show u = _ from hu]; rfl
  have hspoiled : u.roster.isSpoiled = true := congrArg (fun l => l.roster.isSpoiled) hledger
  refine ⟨⟨?_, hcore, ?_, ?_, ?_⟩, ?_⟩
  · exact congrArg (fun l => l.roster.entries) hledger
  · exact congrArg Ledger.posts hledger
  · exact congrArg Ledger.watchers hledger
  · exact congrArg Ledger.nextHandle hledger
  · intro later hlater w
    obtain ⟨watchers, hrun⟩ := ledger_run_of_spoiled hspoiled hlater
    rw [hledger] at hrun
    have hcreate : ∀ act ∈ [Act.create task plan], act.isDirect = false := by simp [Act.isDirect]
    have hagrees : u.Agrees := hkept.agrees.run hcreate
    have hstaffedLater : w.Staffed := (hstaffed.run hkept.agrees hcreate).run hagrees hlater
    refine ⟨?_, ⟨?_, ?_, ?_⟩, ?_, ?_⟩
    · exact frozen_of_spoiled (congrArg (fun l => l.roster.isSpoiled) hrun)
    · exact congrArg (fun l => l.roster.entries) hrun
    · exact congrArg Ledger.posts hrun
    · exact congrArg Ledger.nextHandle hrun
    · intro source' others hothers same
      exact alike_of_break hkept.agrees hkept.sound hu hlater hothers same
    · intro n a ha running
      exact hstaffedLater.cancelled_shutdown ha running

/-- The source has one id to give. The entry that got it cannot be removed any more once another
create was made, but its alarm goes off as it would have with a third entry beside it. -/
theorem spoiled_freezes_of_gap :
    let task : Task := .pause .zero
    let t := (opening .epoch ⟨[some 7, none], 1001⟩ []).run [.create task .once]
    let w := (t.act (.create task .once)).run [.remove 7, .poll 0]
    let v := { t with roster := { t.roster with source := {} } }.run
      [.create task .once, .create task .once, .poll 0]
    w.remove 7 = (.error (.roster .spoiled), w) ∧
      beginnings 0 v.annals = [.epoch] ∧ beginnings 0 w.annals = beginnings 0 v.annals := by
  intro task t w v
  have hplain : task.LeavesClock := leavesClock_of_unrehearsed rfl
  obtain ⟨_, hlater⟩ := spoiled_freezes .epoch ⟨[some 7, none], 1001⟩ [] [.create task .once]
    (by simp [Act.isDirect]) task .once (by decide +kernel)
  obtain ⟨hfrozen, _, halike, _⟩ := hlater [.remove 7, .poll 0] (by simp [Act.isDirect])
  have hothers : ∀ act ∈ [Act.create task .once, .create task .once, .poll 0], t.Spares act := by
    intro act hact
    have hapart : ∀ b ∈ t.alarms, b.task.IsApart (.pause .zero) := by
      rintro b _ r q _ ⟨⟩
    simp only [List.mem_cons, List.not_mem_nil, or_false] at hact
    rcases hact with rfl | rfl | rfl
    · exact ⟨hplain, hapart⟩
    · exact ⟨hplain, hapart⟩
    · exact rfl
  refine ⟨hfrozen.remove 7, by decide +kernel, ?_⟩
  exact (halike {} _ hothers (by rfl)).beginnings 0 (by decide +kernel)

end Timetable

end Almanac
