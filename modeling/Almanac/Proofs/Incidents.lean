import Almanac.Proofs.Handles
import Almanac.Proofs.Stopping

/-!
# Incidents

Whoever shares the roster may strike an entry out of it, and knows nothing of alarms. The alarm
of the entry is then an orphan: it has a post for an id that the roster does not have. `Upshot` says
all that an act or a strike can come to; `Guarded` is what the next request for the id needs to
find the orphan and to stop it.
-/

namespace Almanac

/-- What befalls a timetable whose roster is shared: an act, or that an entry is struck out. -/
inductive Incident where
  | act (act : Act)
  | strike (id : Nat)

/-- Holds of the commands that go straight to an alarm. -/
def Incident.isDirect : Incident → Bool
  | .act request => request.isDirect
  | .strike _ => false

namespace Timetable

/-- The timetable after an entry was taken straight out of the roster, if it was there. -/
def strike (t : Timetable) (id : Nat) : Timetable :=
  match t.roster.remove id with
  | .ok roster => { t with roster }
  | .error _ => t

def undergo (t : Timetable) : Incident → Timetable
  | .act act => t.act act
  | .strike id => t.strike id

def endure (t : Timetable) (incidents : List Incident) : Timetable :=
  incidents.foldl undergo t

variable {t u : Timetable} {x : Incident} {id n m : Nat} {a b : Alarm}

@[simp] theorem endure_nil (t : Timetable) : t.endure [] = t := rfl

@[simp] theorem endure_cons (t : Timetable) (x : Incident) (incidents : List Incident) :
    t.endure (x :: incidents) = (t.undergo x).endure incidents := rfl

/-- The impulses that an incident may give. -/
def mayBring (t : Timetable) : Incident → Core.Impulse → Prop
  | .act act => t.mayGive act
  | .strike _ => fun _ => False

/-- The roster without the entry of an id. -/
def struck (t : Timetable) (id : Nat) : Timetable :=
  { t with roster := { t.roster with entries := t.roster.entries.filter fun e => e.id != id } }

/-- Of a spoiled roster nothing is struck out, and without an entry of the id there is nothing to
strike. -/
theorem strike_eq (t : Timetable) (id : Nat) : t.strike id = t ∨ t.strike id = t.struck id := by
  simp only [strike]
  cases hfound : t.roster.byId id with
  | error cause =>
      left
      simp only [Roster.remove]
      rw [hfound]
      rfl
  | ok found =>
      cases found with
      | none =>
          left
          simp only [Roster.remove]
          rw [hfound]
          rfl
      | some e =>
          right
          rw [Roster.remove_of_byId hfound]
          rfl

theorem steps_undergo (t : Timetable) (x : Incident) :
    Core.Steps (t.mayBring x) t.core (t.undergo x).core := by
  cases x with
  | act act => exact t.steps_act act
  | strike id =>
      rcases t.strike_eq id with hsame | hstruck
      · rw [undergo, hsame]
      · rw [undergo, hstruck]
        exact .refl

theorem steps_endure (t : Timetable) (incidents : List Incident) :
    Core.Steps (fun _ => True) t.core (t.endure incidents).core := by
  induction incidents generalizing t with
  | nil => exact .refl
  | cons x incidents ih =>
      exact ((t.steps_undergo x).mono fun _ _ => trivial).trans (ih (t.undergo x))

/-- The timetable without the post of an id, whose alarm `n` was stopped as `a`. -/
def dismissed (t : Timetable) (id n : Nat) (a : Alarm) : Timetable :=
  { t with
    posts := t.posts.filter fun p => p.1 != id
    alarms := t.alarms.set n a.stop
    annals := (if a.isRunning then [.cancelled n] else []) ++ t.annals }

/-- The timetable with a new entry `e`, whose alarm was started as `b` and has taken the post of
alarm `m`, which was stopped as `a`. -/
def replaced (t : Timetable) (e : Entry) (b : Alarm) (roster : Roster)
    (journal : List Happening) (m : Nat) (a : Alarm) : Timetable :=
  { t.created e b roster journal with
    posts := (t.posts.filter fun p => p.1 != e.id) ++ [(e.id, t.alarms.length)]
    alarms := t.alarms.set m a.stop ++ [b]
    annals := (if a.isRunning then [.cancelled m] else []) ++
      (t.created e b roster journal).annals }

theorem alarm_replaced_new (t : Timetable) (e : Entry) (b : Alarm) (roster : Roster)
    (journal : List Happening) (m : Nat) (a : Alarm) :
    (t.replaced e b roster journal m a).alarms[t.alarms.length]? = some b := by
  have hlength : (t.alarms.set m a.stop).length = t.alarms.length := List.length_set ..
  change (t.alarms.set m a.stop ++ [b])[t.alarms.length]? = some b
  rw [← hlength]
  exact Places.getElem?_last _ _

theorem alarm_replaced_old (alarm : t.alarms[m]? = some a) (e : Entry) (b : Alarm)
    (roster : Roster) (journal : List Happening) :
    (t.replaced e b roster journal m a).alarms[m]? = some a.stop :=
  Places.getElem?_append (Places.getElem?_set_self alarm _) _

/-- An alarm that loses its post to another is stopped. -/
theorem assign_of_post (hpost : t.post? id = some m) (ha : t.alarms[m]? = some a) (n : Nat) :
    ∃ journal, t.assign id n =
      { t with
        posts := (t.posts.filter fun p => p.1 != id) ++ [(id, n)]
        alarms := t.alarms.set m a.stop
        annals := (if a.isRunning then [.cancelled m] else []) ++ t.annals
        journal } := by
  let assigned : Timetable :=
    { t with posts := (t.posts.filter fun p => p.1 != id) ++ [(id, n)] }
  have ha' : assigned.alarms[m]? = some a := ha
  simp only [assign]
  rw [hpost, Option.map_some]
  by_cases running : a.isRunning = true
  · rw [cancelAlarm_of_running ha' running, if_pos running]
    exact ⟨_, rfl⟩
  · have hstop : t.alarms.set m a.stop = t.alarms := by
      simp only [Alarm.stop]
      rw [if_neg running]
      exact Places.set_self ha
    have stopped : ∀ b, assigned.alarms[m]? = some b → b.isRunning = false := by
      intro b hb
      rw [ha'] at hb
      cases hb
      exact Bool.eq_false_iff.mpr running
    rw [cancelAlarm_of_stopped stopped, if_neg running, hstop]
    exact ⟨_, rfl⟩

theorem watch_assign_of_post {e : Entry} (hpost : t.post? e.id = some m)
    (ha : t.alarms[m]? = some a) (b : Alarm) (roster : Roster) (journal : List Happening) :
    ∃ journal', ((t.enrolled e b roster journal).assign e.id t.alarms.length).watch e.id
      t.nextHandle t.vigils.length = t.replaced e b roster journal' m a := by
  have hm : m < t.alarms.length := Places.lt_of_getElem? ha
  have ha' : (t.enrolled e b roster journal).alarms[m]? = some a := Places.getElem?_append ha _
  have hpost' : (t.enrolled e b roster journal).post? e.id = some m := hpost
  obtain ⟨journal', hassign⟩ := assign_of_post hpost' ha' t.alarms.length
  refine ⟨journal', ?_⟩
  have hset : (t.alarms ++ [b]).set m a.stop = t.alarms.set m a.stop ++ [b] :=
    List.set_append_left _ _ hm
  rw [hassign]
  simp only [replaced, ← hset]
  rfl

/-- What becomes of a timetable by an incident. -/
inductive Upshot (t : Timetable) : Incident → Timetable → Prop
  | whole {act : Act} {u : Timetable} (outcome : t.Outcome act u)
      (keys : (u.posts.map Prod.fst).Nodup) : Upshot t (.act act) u
  | dismissed {act : Act} {id n : Nat} {a : Alarm}
      (request : act = .remove id ∨ ∃ plan, act = .update id plan) (post : (id, n) ∈ t.posts)
      (orphan : id ∉ t.roster.ids) (alarm : t.alarms[n]? = some a) :
      Upshot t (.act act) (t.dismissed id n a)
  | replaced {task : Task} {plan : Plan} {e : Entry} {b : Alarm} {m : Nat} {a : Alarm}
      (source : IdSource) (journal : List Happening) (view : EntryView) (id : view.id = e.id)
      (same : e.task = task) (handle : e.handle = some t.nextHandle) (free : e.id ∉ t.roster.ids)
      (started : (Alarm.ofEntry e).start = .ok b) (post : (e.id, m) ∈ t.posts)
      (alarm : t.alarms[m]? = some a) (result : (t.create task plan).1 = .ok view) :
      Upshot t (.act (.create task plan))
        (t.replaced e b ⟨t.roster.entries ++ [e], source, false⟩ journal m a)
  | spared (id : Nat) : Upshot t (.strike id) t
  | struck (id : Nat) : Upshot t (.strike id) (t.struck id)

/-- What is left of the bond between entries and posts when entries may vanish: every entry has a
post, but not every post an entry. -/
structure Guarded (t : Timetable) : Prop extends Covered t where
  ids : t.roster.ids.Nodup
  posted : ∀ id ∈ t.roster.ids, id ∈ t.posts.map Prod.fst
  minted : ∀ w ∈ t.watchers, w.handle < t.nextHandle

namespace Guarded

theorem exists_post (h : t.Guarded) (hid : id ∈ t.roster.ids) :
    ∃ n a, (id, n) ∈ t.posts ∧ t.alarms[n]? = some a ∧ a.entry = id := by
  obtain ⟨⟨key, n⟩, hmem, rfl⟩ := List.mem_map.mp (h.posted id hid)
  obtain ⟨a, ha, hentry⟩ := h.alarm hmem
  exact ⟨n, a, hmem, ha, hentry⟩

/-- An update of an orphan stops it and takes its post away, whatever the plan. -/
theorem update_of_orphan (h : t.Guarded) (sound : t.roster.isSpoiled = false)
    (post : (id, n) ∈ t.posts) (orphan : id ∉ t.roster.ids) (alarm : t.alarms[n]? = some a)
    (plan : Plan) :
    t.update id plan = (Attempt.refuse (.roster (.notFound id)), t.dismissed id n a) := by
  have hpost := h.post?_eq_some_iff.mpr post
  have hentry : t.entryOf id = .error (.roster (.notFound id)) := by
    rw [entryOf, Roster.byId_of_missing sound orphan]
  simp only [update]
  rw [hpost]
  dsimp only
  rw [hentry, discard_of_post hpost alarm]
  rfl

/-- So does a remove. -/
theorem remove_of_orphan (h : t.Guarded) (sound : t.roster.isSpoiled = false)
    (post : (id, n) ∈ t.posts) (orphan : id ∉ t.roster.ids) (alarm : t.alarms[n]? = some a) :
    t.remove id = (.error (.roster (.notFound id)), t.dismissed id n a) := by
  have hfound := Roster.byId_of_missing sound orphan
  have hremove : t.roster.remove id = .error (.notFound id) := by
    simp only [Roster.remove]
    rw [hfound]
    rfl
  simp only [remove]
  rw [hfound]
  dsimp only
  rw [discard_of_post (h.post?_eq_some_iff.mpr post) alarm]
  dsimp only
  rw [hremove]
  rfl

theorem upshot_update (h : t.Guarded) (id : Nat) (plan : Plan) :
    t.Upshot (.act (.update id plan)) (t.act (.update id plan)) := by
  have hidle : ∀ cause : Failure TimetableError, t.update id plan = (.error cause, t) →
      t.Upshot (.act (.update id plan)) (t.act (.update id plan)) := by
    intro cause hupdate
    rw [Timetable.act, hupdate]
    exact .whole (.idle rfl rfl (by rw [succeeds, hupdate]; rfl)) h.keys
  cases hpost : t.post? id with
  | none =>
      apply hidle (.refused (.roster (.notFound id)))
      simp only [update]
      rw [hpost]
      rfl
  | some n =>
      have post := h.post?_eq_some_iff.mp hpost
      obtain ⟨a, ha, _⟩ := h.alarm post
      cases hspoiled : t.roster.isSpoiled with
      | true =>
          apply hidle (.refused (.roster .spoiled))
          simp only [update, entryOf, Roster.byId, Roster.sound]
          rw [hpost, hspoiled]
          rfl
      | false =>
          by_cases hid : id ∈ t.roster.ids
          · obtain ⟨e, he, rfl⟩ := List.mem_map.mp hid
            have hfound := Roster.byId_of_mem hspoiled h.ids he
            cases hreplan : a.replan plan t.now with
            | error cause => exact hidle _ (update_of_refused hpost hfound ha hreplan)
            | ok x =>
                obtain ⟨b, hb, hupdate⟩ := update_of_replan hpost hfound ha hreplan
                rw [Timetable.act, hupdate]
                exact .whole (.updated post hfound ha hreplan hb (congrArg Prod.fst hupdate)) h.keys
          · rw [Timetable.act, h.update_of_orphan hspoiled post hid ha]
            exact .dismissed (.inr ⟨plan, rfl⟩) post hid ha

theorem upshot_remove (h : t.Guarded) (id : Nat) :
    t.Upshot (.act (.remove id)) (t.act (.remove id)) := by
  have hidle : ∀ cause : TimetableError, t.remove id = (.error cause, t) →
      t.Upshot (.act (.remove id)) (t.act (.remove id)) := by
    intro cause hremove
    rw [Timetable.act, hremove]
    exact .whole (.idle rfl rfl (by rw [succeeds, hremove]; rfl)) h.keys
  cases hspoiled : t.roster.isSpoiled with
  | true =>
      apply hidle (.roster .spoiled)
      simp only [remove, Roster.byId, Roster.sound]
      rw [hspoiled]
      rfl
  | false =>
      by_cases hid : id ∈ t.roster.ids
      · obtain ⟨n, a, post, ha, _⟩ := h.exists_post hid
        obtain ⟨e, he, rfl⟩ := List.mem_map.mp hid
        have hfound := Roster.byId_of_mem hspoiled h.ids he
        have hremove : t.remove e.id = (.ok (), t.removed e.id n a) := by
          simp only [remove]
          rw [hfound]
          dsimp only
          rw [discard_of_post (h.post?_eq_some_iff.mpr post) ha]
          dsimp only
          rw [Roster.remove_of_byId hfound]
          rfl
        rw [Timetable.act, hremove]
        exact .whole (.removed post ha (congrArg Prod.fst hremove))
          (h.keys.sublist (List.filter_sublist.map _))
      · cases hpost : t.post? id with
        | none =>
            have hfound := Roster.byId_of_missing hspoiled hid
            have hdiscard : t.discard id = t := by
              simp only [discard]
              rw [hpost]
            apply hidle (.roster (.notFound id))
            simp only [remove]
            rw [hfound]
            dsimp only
            rw [hdiscard]
            simp only [Roster.remove]
            rw [hfound]
            rfl
        | some n =>
            have post := h.post?_eq_some_iff.mp hpost
            obtain ⟨a, ha, _⟩ := h.alarm post
            rw [Timetable.act, h.remove_of_orphan hspoiled post hid ha]
            exact .dismissed (.inl rfl) post hid ha

theorem upshot_create (h : t.Guarded) (task : Task) (plan : Plan) :
    t.Upshot (.act (.create task plan)) (t.act (.create task plan)) := by
  rcases create_cases h.ids task plan with
    ⟨cause, _, hcreate⟩ | ⟨cause, roster, journal, hbroken, hentries, hspoiled, hcreate⟩ |
    ⟨e, b, journal, hpolicy, htask, hhandle, hsound, hdrawn, hb, hcreate⟩
  · rw [Timetable.act, hcreate]
    exact .whole (.idle rfl rfl (by rw [succeeds, hcreate]; rfl)) h.keys
  · rw [Timetable.act, hcreate]
    exact .whole (.broken rfl rfl hbroken hentries hspoiled (by rw [succeeds, hcreate]; rfl)) h.keys
  · have hfree := (IdSource.draw_fresh hdrawn).2
    cases hpost : t.post? e.id with
    | none =>
        dsimp only at hcreate
        rw [watch_assign_of_none hpost] at hcreate
        have hkeys : ((t.posts ++ [(e.id, t.alarms.length)]).map Prod.fst).Nodup := by
          rw [List.map_append, List.nodup_append]
          refine ⟨h.keys, List.nodup_singleton _, ?_⟩
          rintro key hkey other hother rfl
          obtain ⟨⟨id, n⟩, hmem, rfl⟩ := List.mem_map.mp hkey
          rw [List.map_singleton, List.mem_singleton] at hother
          dsimp only at hother
          subst hother
          rw [h.post?_eq_some_iff.mpr hmem] at hpost
          cases hpost
        rw [Timetable.act, hcreate]
        have hresult := congrArg Prod.fst hcreate
        exact .whole (.created journal hpolicy htask hhandle hsound hdrawn hb hresult) hkeys
    | some m =>
        have post := h.post?_eq_some_iff.mp hpost
        obtain ⟨a, ha, _⟩ := h.alarm post
        obtain ⟨journal', hreplaced⟩ := watch_assign_of_post hpost ha b
          ⟨t.roster.entries ++ [e], (t.roster.source.draw t.roster.ids).source, false⟩ journal
        dsimp only at hcreate
        rw [hreplaced] at hcreate
        rw [Timetable.act, hcreate]
        exact .replaced _ journal' _ (viewOf_id _ e) htask hhandle hfree hb post ha
          (congrArg Prod.fst hcreate)

theorem upshot (h : t.Guarded) (hx : x.isDirect = false) : t.Upshot x (t.undergo x) := by
  cases x with
  | strike id =>
      rcases t.strike_eq id with hsame | hstruck
      · rw [undergo, hsame]
        exact .spared id
      · rw [undergo, hstruck]
        exact .struck id
  | act act =>
      cases act with
      | pass millis => exact .whole (.idle rfl rfl rfl) h.keys
      | shiftClock millis => exact .whole (.idle rfl rfl rfl) h.keys
      | poll vigil =>
          have hledger := t.ledger_poll vigil
          have hposts : (t.poll vigil).posts = t.posts := congrArg Ledger.posts hledger
          exact .whole (.polled vigil (t.moves_poll vigil) hledger) (hposts ▸ h.keys)
      | pollWatcher watcher =>
          obtain ⟨roster, watchers, journal, hpolled⟩ := t.pollWatcher_eq watcher
          have hposts : (t.pollWatcher watcher).posts = t.posts := by rw [hpolled]
          exact .whole (t.outcome_pollWatcher watcher) (hposts ▸ h.keys)
      | create task plan => exact h.upshot_create task plan
      | update id plan => exact h.upshot_update id plan
      | remove id => exact h.upshot_remove id
      | shutdown =>
          obtain ⟨alarms, deeds, hshutdown, _⟩ := t.stopAll_eq t.posts
          have hposts : (t.act .shutdown).posts = t.posts := by
            rw [Timetable.act, Timetable.shutdown, hshutdown]
          exact .whole t.outcome_shutdown (hposts ▸ h.keys)
      | list => exact .whole (.idle rfl rfl rfl) h.keys
      | get id => exact .whole (.idle rfl rfl rfl) h.keys
      | setUp entry => cases hx
      | start alarm => cases hx
      | cancel alarm => cases hx
      | replan alarm plan => cases hx

end Guarded

end Timetable

end Almanac
