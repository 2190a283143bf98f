import Almanac.Proofs.Requests

/-!
# What acts come to

As long as nobody goes round the requests, there is a short list of what an act may come to.
`Outcome` says of each act all that becomes of alarms, entries, posts, handles and watchers;
`Effect` leaves out what only concerns handles.
-/

namespace Almanac

/-- Holds of the vigils whose watcher takes the handle from the entry. -/
def Phase.isConclusive : Phase → Bool
  | .ended .finished => true
  | .ended (.failed _) => true
  | _ => false

theorem Phase.not_isOpen_of_isConclusive {p : Phase} (h : p.isConclusive = true) :
    p.isOpen = false := by
  cases p with
  | ended ending => rfl
  | _ => cases h

/-- The roster after a release, whether or not there was something to release. -/
def Roster.released (r : Roster) (id handle : Nat) : Roster :=
  match r.release id handle with
  | .ok (_, r) => r
  | .error _ => r

namespace Timetable

/-- What a timetable keeps of its entries. -/
structure Ledger where
  roster : Roster
  posts : List (Nat × Nat)
  nextHandle : Nat
  watchers : List Watcher

def ledger (t : Timetable) : Ledger := ⟨t.roster, t.posts, t.nextHandle, t.watchers⟩

/-- Holds of the requests that do what they are to do. -/
def succeeds (t : Timetable) : Act → Bool
  | .create task plan => (t.create task plan).1.isOk
  | .update id plan => (t.update id plan).1.isOk
  | .remove id => (t.remove id).1.isOk
  | _ => false

/-- The policy that an act fixes for the entry of an id: that of the plan of a create or an
update that succeeds. -/
def fixes? (t : Timetable) (id : Nat) : Act → Option (Instant × Span)
  | .create task plan =>
    match (t.create task plan).1 with
    | .ok view => if view.id = id then (Entry.policyOf plan t.now).toOption else none
    | .error _ => none
  | .update other plan =>
    match (t.update other plan).1 with
    | .ok _ => if other = id then (Entry.policyOf plan t.now).toOption else none
    | .error _ => none
  | _ => none

theorem fixes?_of_failed {t : Timetable} {act : Act} (h : t.succeeds act = false) (id : Nat) :
    t.fixes? id act = none := by
  cases act with
  | create task plan =>
      obtain ⟨cause, hcause⟩ := exists_error_of_not_isOk h
      simp only [fixes?]
      rw [hcause]
  | update other plan =>
      obtain ⟨cause, hcause⟩ := exists_error_of_not_isOk h
      simp only [fixes?]
      rw [hcause]
  | _ => rfl

/-- All that becomes of the alarms, the vigils and the ledger by an act. -/
inductive Outcome (t : Timetable) : Act → Timetable → Prop
  | idle {act : Act} {u : Timetable} (core : u.core = t.core) (ledger : u.ledger = t.ledger)
      (failed : t.succeeds act = false) : Outcome t act u
  | broken {task : Task} {plan : Plan} {u : Timetable} {roster : Roster} (core : u.core = t.core)
      (ledger : u.ledger = { t.ledger with roster })
      (cause : t.roster.isSpoiled = true ∨ (t.roster.source.draw t.roster.ids).id = none)
      (entries : roster.entries = t.roster.entries) (spoiled : roster.isSpoiled = true)
      (failed : t.succeeds (.create task plan) = false) : Outcome t (.create task plan) u
  | polled {u : Timetable} (i : Nat) (moves : Core.Moves i t.core u.core)
      (ledger : u.ledger = t.ledger) : Outcome t (.poll i) u
  | watched {u : Timetable} {j : Nat} {w : Watcher} {v : Vigil}
      (watcher : t.watchers[j]? = some w) (waiting : w.isDone = false)
      (vigil : t.vigils[w.vigil]? = some v) (closed : v.phase.isOpen = false)
      (core : u.core = t.core)
      (ledger : u.ledger = { t.ledger with
        roster := if v.phase.isConclusive then t.roster.released w.entry w.handle else t.roster
        watchers := t.watchers.set j { w with isDone := true } }) : Outcome t (.pollWatcher j) u
  | created {task : Task} {plan : Plan} {e : Entry} {b : Alarm} (journal : List Happening)
      (policy : Entry.policyOf plan t.now = .ok (e.due, e.period)) (same : e.task = task)
      (handle : e.handle = some t.nextHandle) (sound : t.roster.isSpoiled = false)
      (drawn : (t.roster.source.draw t.roster.ids).id = some e.id)
      (started : (Alarm.ofEntry e).start = .ok b)
      (result : (t.create task plan).1 = .ok ((t.created e b
        ⟨t.roster.entries ++ [e], (t.roster.source.draw t.roster.ids).source, false⟩
        journal).viewOf e)) :
      Outcome t (.create task plan) (t.created e b
        ⟨t.roster.entries ++ [e], (t.roster.source.draw t.roster.ids).source, false⟩ journal)
  | updated {id n : Nat} {plan : Plan} {e : Entry} {a x b : Alarm} (post : (id, n) ∈ t.posts)
      (found : t.roster.byId id = .ok (some e)) (alarm : t.alarms[n]? = some a)
      (replanned : a.replan plan t.now = .ok x) (started : x.start = .ok b)
      (result : (t.update id plan).1 = .ok ((t.updated id n a.isRunning b).viewOf
        { e with due := b.due, period := b.period, handle := some t.nextHandle })) :
      Outcome t (.update id plan) (t.updated id n a.isRunning b)
  | removed {id n : Nat} {a : Alarm} (post : (id, n) ∈ t.posts) (alarm : t.alarms[n]? = some a)
      (result : (t.remove id).1 = .ok ()) : Outcome t (.remove id) (t.removed id n a)
  | stopped (alarms : List Alarm) (deeds : List Deed)
      (deeds_cancelled : ∀ d ∈ deeds, ∃ n, d = .cancelled n)
      (stops : ∀ n, alarms[n]? =
        t.alarms[n]?.map fun a => if n ∈ t.posts.map Prod.snd then a.stop else a) :
      Outcome t .shutdown { t with alarms, annals := deeds ++ t.annals }

theorem ledger_poll (t : Timetable) (i : Nat) : (t.poll i).ledger = t.ledger :=
  congrArg (fun f : Frame => (⟨f.roster, f.posts, f.nextHandle, f.watchers⟩ : Ledger))
    (t.frame_poll i)

theorem ledger_releaseHandle (t : Timetable) (entry handle : Nat) :
    (t.releaseHandle entry handle).ledger =
      { t.ledger with roster := t.roster.released entry handle } := by
  simp only [releaseHandle, Roster.released]
  cases t.roster.release entry handle <;> rfl

theorem core_releaseHandle (t : Timetable) (entry handle : Nat) :
    (t.releaseHandle entry handle).core = t.core := by
  simp only [releaseHandle]
  cases t.roster.release entry handle <;> rfl

section

variable {t : Timetable} {j : Nat} {w : Watcher} {v : Vigil}

theorem pollWatcher_of_done (hw : t.watchers[j]? = some w) (done : w.isDone = true) :
    t.pollWatcher j = t := by
  simp only [Timetable.pollWatcher]
  rw [hw]
  dsimp only
  rw [if_pos done]

/-- A watcher waits until its vigil is over. -/
theorem pollWatcher_of_open (hw : t.watchers[j]? = some w)
    (isOpen : ∀ v, t.vigils[w.vigil]? = some v → v.phase.isOpen = true) :
    t.pollWatcher j = t := by
  simp only [Timetable.pollWatcher]
  rw [hw]
  dsimp only
  split
  · rfl
  · cases hv : t.vigils[w.vigil]? with
    | none => rfl
    | some v =>
        have hopen := isOpen v hv
        rw [Option.map_some]
        cases hp : v.phase with
        | setOut => rfl
        | waiting timer => rfl
        | running timer turn => rfl
        | ended ending =>
            rw [hp] at hopen
            cases hopen
        | lost =>
            rw [hp] at hopen
            cases hopen

/-- Once its vigil is over a watcher is done, and it takes its handle if the vigil has ended by
itself. -/
theorem pollWatcher_of_over (hw : t.watchers[j]? = some w) (waiting : w.isDone = false)
    (hv : t.vigils[w.vigil]? = some v) (closed : v.phase.isOpen = false) :
    (t.pollWatcher j).core = t.core ∧
      (t.pollWatcher j).ledger = { t.ledger with
        roster := if v.phase.isConclusive then t.roster.released w.entry w.handle else t.roster
        watchers := t.watchers.set j { w with isDone := true } } := by
  simp only [Timetable.pollWatcher]
  rw [hw]
  dsimp only
  rw [if_neg (Bool.eq_false_iff.mp waiting), hv, Option.map_some]
  cases hp : v.phase with
  | ended ending =>
      cases ending with
      | finished => exact ⟨core_releaseHandle _ _ _, ledger_releaseHandle _ _ _⟩
      | cancelled => exact ⟨rfl, rfl⟩
      | failed cause => exact ⟨core_releaseHandle _ _ _, ledger_releaseHandle _ _ _⟩
  | lost => exact ⟨rfl, rfl⟩
  | _ =>
      rw [hp] at closed
      cases closed

/-- A watcher is called that has waited for a vigil that is over. -/
theorem isCalled_iff :
    t.isCalled w = true ↔
      w.isDone = false ∧ ∃ v, t.vigils[w.vigil]? = some v ∧ v.phase.isOpen = false := by
  simp only [isCalled]
  cases hv : t.vigils[w.vigil]? with
  | none => simp
  | some v =>
      cases hphase : v.phase <;> simp [hphase, Phase.isOpen]

/-- A poll of a watcher does nothing, unless it has waited for a vigil that is over. -/
theorem pollWatcher_cases (t : Timetable) (j : Nat) :
    t.pollWatcher j = t ∨ ∃ w v, t.watchers[j]? = some w ∧ w.isDone = false ∧
      t.vigils[w.vigil]? = some v ∧ v.phase.isOpen = false := by
  cases hw : t.watchers[j]? with
  | none =>
      refine Or.inl ?_
      simp only [Timetable.pollWatcher]
      rw [hw]
  | some w =>
      cases done : w.isDone with
      | true => exact Or.inl (pollWatcher_of_done hw done)
      | false =>
          by_cases isOpen : ∀ v, t.vigils[w.vigil]? = some v → v.phase.isOpen = true
          · exact Or.inl (pollWatcher_of_open hw isOpen)
          · simp only [not_forall, Bool.not_eq_true] at isOpen
            obtain ⟨v, hv, closed⟩ := isOpen
            exact Or.inr ⟨w, v, rfl, done, hv, closed⟩

theorem outcome_pollWatcher (t : Timetable) (j : Nat) :
    t.Outcome (.pollWatcher j) (t.pollWatcher j) := by
  rcases t.pollWatcher_cases j with hsame | ⟨w, v, hw, waiting, hv, closed⟩
  · rw [hsame]
    exact .idle rfl rfl rfl
  · obtain ⟨hcore, hledger⟩ := pollWatcher_of_over hw waiting hv closed
    exact .watched hw waiting hv closed hcore hledger

end

theorem outcome_shutdown (t : Timetable) : t.Outcome .shutdown (t.act .shutdown) := by
  obtain ⟨alarms, deeds, hshutdown, hdeeds, halarms⟩ := t.stopAll_eq t.posts
  rw [Timetable.act, shutdown, hshutdown]
  exact .stopped alarms deeds hdeeds halarms

/-- A command that goes straight to an alarm is not one of the entries. -/
theorem ledger_of_direct (t : Timetable) {act : Act} (hact : act.isDirect = true) :
    (t.act act).ledger = t.ledger := by
  cases act with
  | setUp entry => rfl
  | start alarm =>
      simp only [Timetable.act]
      split
      · next started hstart =>
          obtain ⟨_, _, _, _, _, rfl⟩ := startAlarm_ok hstart
          rfl
      · rfl
  | cancel alarm =>
      simp only [Timetable.act]
      split
      · next hcancel =>
          obtain ⟨_, _, _, _, rfl⟩ := cancelAlarm_ok hcancel
          rfl
      · rfl
  | replan alarm plan =>
      simp only [Timetable.act]
      split
      · next hreplan =>
          obtain ⟨_, _, _, _, rfl⟩ := replanAlarm_ok hreplan
          rfl
      · rfl
  | _ => cases hact

/-- Every act that does not go straight to an alarm has its outcome. -/
theorem Posted.outcome {t : Timetable} (h : t.Posted) {act : Act} (hact : act.isDirect = false) :
    t.Outcome act (t.act act) := by
  cases act with
  | pass millis => exact .idle rfl rfl rfl
  | shiftClock millis => exact .idle rfl rfl rfl
  | poll vigil => exact .polled vigil (t.moves_poll vigil) (t.ledger_poll vigil)
  | pollWatcher watcher => exact t.outcome_pollWatcher watcher
  | create task plan =>
      rcases h.create_cases task plan with
        ⟨cause, _, hcreate⟩ | ⟨cause, roster, journal, hbroken, hentries, hspoiled, hcreate⟩ |
        ⟨e, b, journal, hpolicy, htask, hhandle, hsound, hdrawn, hb, hcreate⟩
      · rw [Timetable.act, hcreate]
        exact .idle rfl rfl (by rw [succeeds, hcreate]; rfl)
      · rw [Timetable.act, hcreate]
        exact .broken rfl rfl hbroken hentries hspoiled (by rw [succeeds, hcreate]; rfl)
      · rw [Timetable.act, hcreate]
        exact .created journal hpolicy htask hhandle hsound hdrawn hb (congrArg Prod.fst hcreate)
  | update id plan =>
      rcases h.update_cases id plan with
        ⟨cause, hupdate⟩ | ⟨n, e, a, x, b, hpost, hfound, ha, hreplan, hb, hupdate⟩
      · rw [Timetable.act, hupdate]
        exact .idle rfl rfl (by rw [succeeds, hupdate]; rfl)
      · rw [Timetable.act, hupdate]
        exact .updated hpost hfound ha hreplan hb (congrArg Prod.fst hupdate)
  | remove id =>
      rcases h.remove_cases id with ⟨cause, hremove⟩ | ⟨n, a, hpost, ha, hremove⟩
      · rw [Timetable.act, hremove]
        exact .idle rfl rfl (by rw [succeeds, hremove]; rfl)
      · rw [Timetable.act, hremove]
        exact .removed hpost ha (congrArg Prod.fst hremove)
  | shutdown => exact t.outcome_shutdown
  | list => exact .idle rfl rfl rfl
  | get id => exact .idle rfl rfl rfl
  | setUp entry => cases hact
  | start alarm => cases hact
  | cancel alarm => cases hact
  | replan alarm plan => cases hact

/-- All that an act may come to. -/
inductive Effect (t : Timetable) : Act → Timetable → Prop
  | minor {act : Act} {u : Timetable} (handle : Entry → Option Nat) (core : u.core = t.core)
      (posts : u.posts = t.posts)
      (entries : u.roster.entries = t.roster.entries.map fun e => { e with handle := handle e })
      (fixes : ∀ id, t.fixes? id act = none) : Effect t act u
  | polled {u : Timetable} (i : Nat) (moves : Core.Moves i t.core u.core)
      (posts : u.posts = t.posts) (roster : u.roster = t.roster) : Effect t (.poll i) u
  | created {task : Task} {plan : Plan} {e : Entry} {b : Alarm} (view : EntryView)
      (roster : Roster) (journal : List Happening)
      (policy : Entry.policyOf plan t.now = .ok (e.due, e.period)) (same : e.task = task)
      (free : e.id ∉ t.roster.ids) (started : (Alarm.ofEntry e).start = .ok b)
      (entries : roster.entries = t.roster.entries ++ [e]) (id : view.id = e.id)
      (result : (t.create task plan).1 = .ok view) :
      Effect t (.create task plan) (t.created e b roster journal)
  | updated {id n : Nat} {plan : Plan} {a x b : Alarm} (view : EntryView)
      (post : (id, n) ∈ t.posts) (alarm : t.alarms[n]? = some a)
      (replanned : a.replan plan t.now = .ok x) (started : x.start = .ok b)
      (result : (t.update id plan).1 = .ok view) :
      Effect t (.update id plan) (t.updated id n a.isRunning b)
  | removed {id n : Nat} {a : Alarm} (post : (id, n) ∈ t.posts) (alarm : t.alarms[n]? = some a) :
      Effect t (.remove id) (t.removed id n a)
  | stopped (alarms : List Alarm) (deeds : List Deed)
      (deeds_cancelled : ∀ d ∈ deeds, ∃ n, d = .cancelled n)
      (stops : ∀ n, alarms[n]? =
        t.alarms[n]?.map fun a => if n ∈ t.posts.map Prod.snd then a.stop else a) :
      Effect t .shutdown { t with alarms, annals := deeds ++ t.annals }

namespace Effect

variable {t : Timetable}

theorem same {act : Act} {u : Timetable} (core : u.core = t.core) (posts : u.posts = t.posts)
    (entries : u.roster.entries = t.roster.entries) (fixes : ∀ id, t.fixes? id act = none) :
    t.Effect act u := by
  refine .minor Entry.handle core posts ?_ fixes
  rw [entries]
  exact (List.map_id _).symm

end Effect

/-- A release changes no more than handles. -/
theorem entries_released (r : Roster) (id handle : Nat) :
    ∃ f : Entry → Option Nat,
      (r.released id handle).entries = r.entries.map fun e => { e with handle := f e } := by
  have hsame : r.entries = r.entries.map fun e => { e with handle := e.handle } :=
    (List.map_id _).symm
  simp only [Roster.released]
  split
  · next released r' hrelease =>
      rcases Roster.release_ok hrelease with rfl | rfl
      · exact ⟨Entry.handle, hsame⟩
      · refine ⟨fun e => if e.id = id then none else e.handle, ?_⟩
        apply List.map_congr_left
        intro e _
        by_cases hid : e.id = id <;> simp [hid]
  · exact ⟨Entry.handle, hsame⟩

theorem Outcome.effect {t u : Timetable} {act : Act} (h : t.Outcome act u) : t.Effect act u := by
  cases h with
  | idle core ledger failed =>
      exact .same core (congrArg Ledger.posts ledger)
        (congrArg (fun l => l.roster.entries) ledger) (fixes?_of_failed failed)
  | broken core ledger cause entries spoiled failed =>
      exact .same core (congrArg Ledger.posts ledger)
        ((congrArg (fun l => l.roster.entries) ledger).trans entries) (fixes?_of_failed failed)
  | polled i moves ledger =>
      exact .polled i moves (congrArg Ledger.posts ledger) (congrArg Ledger.roster ledger)
  | @watched _ j w v watcher waiting vigil closed core ledger =>
      have hroster := congrArg Ledger.roster ledger
      have hposts : u.posts = t.posts := congrArg Ledger.posts ledger
      dsimp only [Timetable.ledger] at hroster
      split at hroster
      · obtain ⟨f, hentries⟩ := entries_released t.roster w.entry w.handle
        exact .minor f core hposts (hroster ▸ hentries) fun _ => rfl
      · exact .same core hposts (congrArg Roster.entries hroster) fun _ => rfl
  | created journal policy same handle sound drawn started result =>
      exact .created _ _ journal policy same (IdSource.draw_fresh drawn).2 started rfl
        (viewOf_id _ _) result
  | updated post found alarm replanned started result =>
      exact .updated _ post alarm replanned started result
  | removed post alarm result => exact .removed post alarm
  | stopped alarms deeds deeds_cancelled stops => exact .stopped alarms deeds deeds_cancelled stops

/-- Every act that does not go straight to an alarm has its effect as a whole. -/
theorem Posted.effect {t : Timetable} (h : t.Posted) {act : Act} (hact : act.isDirect = false) :
    t.Effect act (t.act act) :=
  (h.outcome hact).effect

end Timetable

end Almanac
