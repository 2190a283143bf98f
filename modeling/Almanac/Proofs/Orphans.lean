import Almanac.Proofs.Guarding

/-!
# Alarms whose entry has vanished

The next request for the id of an orphan stops it: an update or a remove finds no entry and takes
its post away, and a create that draws its id gives the post to another alarm.
-/

namespace Almanac

namespace Timetable

variable {t u : Timetable} {x : Incident} {id n m : Nat} {a b : Alarm}

/-- The entry of an id, if there is one, has no handle that is older than `first`. -/
structure Fenced (t : Timetable) (id first : Nat) : Prop where
  next : first ≤ t.nextHandle
  held : ∀ e ∈ t.roster.entries, e.id = id → ∀ handle, e.handle = some handle → first ≤ handle

namespace Fenced

variable {first : Nat}

theorem of_upshot (h : t.Fenced id first) (hup : t.Upshot x u) : u.Fenced id first where
  next := Nat.le_trans h.next hup.nextHandle_le
  held := by
    intro e he hid handle hhandle
    rcases hup.entry he with ⟨y, hy, hsame, hkept | hnone⟩ | hnext
    · exact h.held y hy (hsame.trans hid) handle (hkept ▸ hhandle)
    · rw [hnone] at hhandle
      cases hhandle
    · rw [hnext] at hhandle
      cases hhandle
      exact h.next

/-- A watcher that came with an older handle for the id stays where it is, and finds nothing to
release. -/
theorem endure (h : t.Fenced id first) (hguarded : t.Guarded) {incidents : List Incident}
    (hincidents : ∀ x ∈ incidents, x.isDirect = false) {k : Nat} {w : Watcher}
    (hw : t.watchers[k]? = some w) (hentry : w.entry = id) (hold : w.handle < first) :
    ((t.endure incidents).pollWatcher k).roster = (t.endure incidents).roster := by
  induction incidents generalizing t w with
  | nil =>
      apply roster_pollWatcher_of_not_held hw
      intro e he hid hheld
      exact absurd (h.held e he (hid.trans hentry) _ hheld) (Nat.not_le.mpr hold)
  | cons x incidents ih =>
      obtain ⟨hx, hincidents⟩ := List.forall_mem_cons.mp hincidents
      have hup := hguarded.upshot hx
      obtain ⟨y, hy, hyentry, hyhandle⟩ := hup.watcher hw
      exact ih (h.of_upshot hup) (hguarded.undergo hx) hincidents hy (hyentry.trans hentry)
        (hyhandle ▸ hold)

end Fenced

theorem Detached.steps_endure (h : t.Detached n) (hguarded : t.Guarded)
    {incidents : List Incident} (hincidents : ∀ x ∈ incidents, x.isDirect = false) :
    Core.Steps (fun impulse => impulse ≠ .start n) t.core (t.endure incidents).core := by
  induction incidents generalizing t with
  | nil => exact .refl
  | cons x incidents ih =>
      obtain ⟨hx, hincidents⟩ := List.forall_mem_cons.mp hincidents
      have hsteps := t.steps_undergo x
      have hdetached := h.of_posts hsteps (hguarded.upshot hx).posts
      have hgive : ¬ t.mayBring x (.start n) := by
        cases x with
        | act act => exact h.not_mayGive hguarded.post?_eq_some_iff.mp hx
        | strike id => exact fun hgive => hgive
      have hfirst : Core.Steps (fun impulse => impulse ≠ .start n) t.core (t.undergo x).core := by
        refine Core.Steps.mono ?_ hsteps
        rintro impulse himpulse rfl
        exact hgive himpulse
      exact hfirst.trans (ih hdetached (hguarded.undergo hx) hincidents)

/-- Among some incidents there is a create that has set up alarm `m` for the entry of an id. -/
def SetsUp (t : Timetable) (incidents : List Incident) (id m : Nat) : Prop :=
  ∃ first task plan view later, incidents = first ++ .act (.create task plan) :: later ∧
    ((t.endure first).create task plan).1 = .ok view ∧ view.id = id ∧
    m = (t.endure first).alarms.length

theorem SetsUp.cons {incidents : List Incident} (h : (t.undergo x).SetsUp incidents id m) :
    t.SetsUp (x :: incidents) id m := by
  obtain ⟨first, task, plan, view, later, rfl, hok, hid, hm⟩ := h
  exact ⟨x :: first, task, plan, view, later, rfl, hok, hid, hm⟩

/-- Every alarm that is new has been set up by a create. -/
theorem Guarded.setsUp (h : t.Guarded) {incidents : List Incident}
    (hincidents : ∀ x ∈ incidents, x.isDirect = false)
    (hb : (t.endure incidents).alarms[m]? = some b) (hnew : t.alarms.length ≤ m) :
    t.SetsUp incidents b.entry m := by
  induction incidents generalizing t with
  | nil => exact absurd (Places.lt_of_getElem? hb) (Nat.not_lt.mpr hnew)
  | cons x incidents ih =>
      obtain ⟨hx, hincidents⟩ := List.forall_mem_cons.mp hincidents
      by_cases hm : (t.undergo x).alarms.length ≤ m
      · exact (ih (h.undergo hx) hincidents hb hm).cons
      · have hlt : m < (t.undergo x).alarms.length := Nat.not_le.mp hm
        have ha : (t.undergo x).alarms[m]? = some (t.undergo x).alarms[m] :=
          List.getElem?_eq_getElem hlt
        obtain ⟨task, plan, view, rfl, hok, hlast, hentry, _⟩ := (h.upshot hx).new_alarm ha hnew
        obtain ⟨y, hy, hbecomes⟩ := Core.Steps.alarm (steps_endure _ incidents) ha
        have hyb : y = b := Option.some.inj (hy.symm.trans hb)
        subst hyb
        exact ⟨[], task, plan, view, incidents, rfl, hok,
          (hbecomes.entry.trans hentry).symm, hlast⟩

/-- What a create that draws the id of an orphan leaves: a new alarm with the post, and the
orphan, stopped. -/
theorem Guarded.create_of_orphan (h : t.Guarded) {task : Task} {plan : Plan} {view : EntryView}
    (hok : (t.create task plan).1 = .ok view) (post : (view.id, m) ∈ t.posts)
    (alarm : t.alarms[m]? = some a) :
    let u := (t.create task plan).2
    (view.id, t.alarms.length) ∈ u.posts ∧ u.alarms[m]? = some a.stop ∧
      (∃ b, u.alarms[t.alarms.length]? = some b ∧ b.entry = view.id ∧ b.task = task) ∧
      u.Fenced view.id t.nextHandle := by
  intro u
  have hup : t.Upshot (.act (.create task plan)) u := h.upshot rfl
  have hsucceeds : t.succeeds (.create task plan) = true := by
    rw [succeeds, hok]
    rfl
  clear_value u
  cases hup with
  | whole outcome keys =>
      cases outcome with
      | idle core ledger failed =>
          rw [hsucceeds] at failed
          cases failed
      | broken core ledger cause entries spoiled failed =>
          rw [hsucceeds] at failed
          cases failed
      | @created _ _ e b journal policy same handle sound drawn started result =>
          -- the id has a post already, and has no other besides it
          rw [hok] at result
          have hview : view = _ := Except.ok.inj result
          rw [hview, viewOf_id] at post
          have hkeys : ((t.posts ++ [(e.id, t.alarms.length)]).map Prod.fst).Nodup := keys
          rw [List.map_append, List.nodup_append] at hkeys
          exact absurd rfl (hkeys.2.2 _ (List.mem_map_of_mem post) _ List.mem_cons_self)
  | dismissed request post orphan alarm =>
      rcases request with hremove | ⟨plan, hupdate⟩
      · cases hremove
      · cases hupdate
  | @replaced _ _ e b k y source journal answer id same handle free started hpost hy result =>
      rw [hok] at result
      cases result
      rw [id] at post ⊢
      cases h.eq_of_post post hpost
      rw [alarm] at hy
      cases hy
      obtain ⟨hentry, htask, _⟩ := Alarm.start_keeps started
      refine ⟨List.mem_append_right _ List.mem_cons_self, alarm_replaced_old alarm .., ?_,
        Nat.le_succ _, ?_⟩
      · exact ⟨b, t.alarm_replaced_new .., hentry, htask.trans same⟩
      intro o ho hid held hheld
      rcases List.mem_append.mp ho with hold | hnew
      · exact absurd (hid ▸ List.mem_map_of_mem hold) free
      · rw [List.mem_singleton.mp hnew, handle] at hheld
        cases hheld
        exact Nat.le_refl _

/-- Once the post of an id is that of alarm `n`, no older alarm of the id begins a run. -/
theorem Guarded.beginnings_of_older (h : t.Guarded) {incidents : List Incident}
    (hincidents : ∀ x ∈ incidents, x.isDirect = false) (post : (id, n) ∈ t.posts)
    (alarm : t.alarms[m]? = some a) (hentry : a.entry = id) (hother : m ≠ n) {i : Nat} {v : Vigil}
    (hv : (t.endure incidents).vigils[i]? = some v) (hm : v.alarm = m) :
    beginnings i (t.endure incidents).annals = beginnings i t.annals := by
  have hunposted : ∀ {key : Nat}, (key, m) ∈ t.posts → False := by
    intro key hmem
    obtain ⟨b, hb, hid⟩ := h.alarm hmem
    rw [alarm] at hb
    cases hb
    exact hother (h.eq_of_post post (hentry.symm.trans hid ▸ hmem))
  have hdetached : t.Detached m := ⟨⟨a, alarm⟩, fun key hmem => hunposted hmem⟩
  have hsteps := hdetached.steps_endure h hincidents
  obtain ⟨w, hw⟩ := hsteps.unstarted (fun hne => hne rfl) hv hm
  obtain ⟨x, hx, halarm, _⟩ := hsteps.vigil hw
  have hxv : x = v := Option.some.inj (hx.symm.trans hv)
  subst hxv
  have hstale : t.core.IsStale i := by
    refine ⟨w, hw, ?_⟩
    intro live
    obtain ⟨b, hb, _⟩ := live.2
    have hmem := h.post hw live hb
    rw [← halarm, hm] at hmem
    exact hunposted hmem
  exact (h.sound.stale_steps hsteps hstale).2

/-- A remove of an orphan leaves its id without a post. -/
theorem Guarded.dismissed (h : t.Guarded) (sound : t.roster.isSpoiled = false)
    (post : (id, n) ∈ t.posts) (orphan : id ∉ t.roster.ids) (ha : t.alarms[n]? = some a) :
    (t.dismissed id n a).Guarded := by
  have hact := h.undergo (x := .act (.remove id)) rfl
  rw [Timetable.undergo, Timetable.act, h.remove_of_orphan sound post orphan ha] at hact
  exact hact

theorem not_mem_posts_dismissed (t : Timetable) (id n m : Nat) (a : Alarm) :
    (id, m) ∉ (t.dismissed id n a).posts := by
  intro hmem
  simpa using (List.mem_filter.mp hmem).2

/-- Without a post there is no live vigil. -/
theorem Guarded.isStale_dismissed (h : (t.dismissed id n a).Guarded)
    (ha : t.alarms[n]? = some a) (hentry : a.entry = id) {i : Nat} {v : Vigil}
    (hv : t.vigils[i]? = some v) (own : v.alarm = n) : (t.dismissed id n a).core.IsStale i := by
  subst own
  refine ⟨v, hv, ?_⟩
  intro live
  have hset : (t.dismissed id v.alarm a).alarms[v.alarm]? = some a.stop :=
    Places.getElem?_set_self ha _
  have hmem := h.post (i := i) hv live hset
  rw [a.stop_keeps.1, hentry] at hmem
  exact t.not_mem_posts_dismissed id v.alarm v.alarm a hmem

theorem Guarded.post?_dismissed (h : (t.dismissed id n a).Guarded) :
    (t.dismissed id n a).post? id = none := by
  cases hfound : (t.dismissed id n a).post? id with
  | none => rfl
  | some m =>
      exact absurd (h.post?_eq_some_iff.mp hfound) (t.not_mem_posts_dismissed id n m a)

/-- Past a create that has drawn the id of an orphan, runs for the id are begun by the new alarm, or
by one that a later create has set up. -/
theorem Guarded.begun_by_newer (h : t.Guarded) {task : Task} {plan : Plan} {view : EntryView}
    (hok : (t.create task plan).1 = .ok view) (post : (view.id, m) ∈ t.posts)
    (alarm : t.alarms[m]? = some a) {later : List Incident}
    (hlater : ∀ x ∈ later, x.isDirect = false) {i : Nat} {v : Vigil} {c : Alarm} :
    let u := (t.create task plan).2
    let w := u.endure later
    w.vigils[i]? = some v → w.alarms[v.alarm]? = some c → c.entry = view.id →
      beginnings i w.annals = beginnings i t.annals ∨ v.alarm = t.alarms.length ∨
        u.SetsUp later view.id v.alarm := by
  intro u w hv hc hentry
  have hu : u.Guarded := h.undergo (x := .act (.create task plan)) rfl
  have hcreated : Core.Steps (t.mayGive (.create task plan)) t.core u.core :=
    t.steps_act (.create task plan)
  rcases Nat.lt_trichotomy v.alarm t.alarms.length with hlt | heq | hgt
  · left
    have hold : t.alarms[v.alarm]? = some t.alarms[v.alarm] := List.getElem?_eq_getElem hlt
    obtain ⟨o, ho, hbefore⟩ := hcreated.alarm hold
    obtain ⟨o', ho', hafter⟩ := (u.steps_endure later).alarm ho
    have hoc : o' = c := Option.some.inj (ho'.symm.trans hc)
    subst hoc
    have hnew := (h.create_of_orphan hok post alarm).1
    have hsame := hu.beginnings_of_older hlater hnew ho (hafter.entry.symm.trans hentry)
      (Nat.ne_of_lt hlt) hv rfl
    refine hsame.trans (hcreated.beginnings_of_unmoved ?_)
    intro hgive
    cases hgive
  · exact Or.inr (Or.inl heq)
  · right
    right
    have hlength : u.alarms.length ≤ v.alarm := by
      by_contra hlt
      obtain ⟨_, _, _, _, _, heq, _⟩ := (h.upshot (x := .act (.create task plan))
        rfl).new_alarm (List.getElem?_eq_getElem (Nat.not_le.mp hlt)) (Nat.le_of_lt hgt)
      exact Nat.ne_of_gt hgt heq
    rw [← hentry]
    exact hu.setsUp hlater hc hlength

/-- In every history of requests, polls and time in which entries are also struck out of the
roster: an id has at most one post, and the alarm of every live vigil has the post of its entry.
An update or a remove of an id that has a post but no entry answers that it finds none, takes the
post away and stops its alarm, so that none of its vigils is live, and changes nothing else. A
create that draws such an id gives the post to a new alarm and stops the old one. Whatever comes
later, runs for that id are then begun by the new alarm, which keeps its task, or by one that a
later create has set up for the id; and the watchers that were there before leave the roster as it
is. -/
theorem orphans_caught (start : Instant) (source : IdSource) (replies : List RestartReply)
    (incidents : List Incident) (hincidents : ∀ x ∈ incidents, x.isDirect = false) :
    let t := (opening start source replies).endure incidents
    (t.posts.map Prod.fst).Nodup ∧
    (∀ (i : Nat) (v : Vigil) (a : Alarm), t.vigils[i]? = some v → t.core.IsLive v →
      t.alarms[v.alarm]? = some a → t.post? a.entry = some v.alarm) ∧
    (∀ (id n : Nat), t.roster.isSpoiled = false → t.post? id = some n → id ∉ t.roster.ids →
      ∃ a, t.alarms[n]? = some a ∧ a.entry = id ∧
        (∀ plan, t.update id plan =
          (Attempt.refuse (.roster (.notFound id)), t.dismissed id n a)) ∧
        t.remove id = (.error (.roster (.notFound id)), t.dismissed id n a) ∧
        (t.dismissed id n a).post? id = none ∧
        ∀ (i : Nat) (v : Vigil), t.vigils[i]? = some v → v.alarm = n →
          (t.dismissed id n a).core.IsStale i) ∧
    (∀ task plan view m, (t.create task plan).1 = .ok view → t.post? view.id = some m →
      let u := (t.create task plan).2
      let n := t.alarms.length
      u.post? view.id = some n ∧
        (∃ a, t.alarms[m]? = some a ∧ u.alarms[m]? = some a.stop) ∧
        ∀ later, (∀ x ∈ later, x.isDirect = false) →
          let w := u.endure later
          (∃ b, w.alarms[n]? = some b ∧ b.entry = view.id ∧ b.task = task) ∧
          (∀ (i : Nat) (v : Vigil), w.vigils[i]? = some v → w.IsFor v view.id →
            beginnings i w.annals = beginnings i t.annals ∨ v.alarm = n ∨
              u.SetsUp later view.id v.alarm) ∧
          ∀ (k : Nat) (x : Watcher), t.watchers[k]? = some x → x.entry = view.id →
            (w.pollWatcher k).roster = w.roster) := by
  intro t
  have hguarded : t.Guarded := (guarded_opening start source replies).endure hincidents
  refine ⟨hguarded.keys, ?_, ?_, ?_⟩
  · intro i v a hv live ha
    exact hguarded.post?_eq_some_iff.mpr (hguarded.post hv live ha)
  · intro id n sound hpost orphan
    have post := hguarded.post?_eq_some_iff.mp hpost
    obtain ⟨a, ha, hentry⟩ := hguarded.alarm post
    have hremove := hguarded.remove_of_orphan sound post orphan ha
    have hdismissed := hguarded.dismissed sound post orphan ha
    refine ⟨a, ha, hentry, hguarded.update_of_orphan sound post orphan ha, hremove,
      hdismissed.post?_dismissed, ?_⟩
    intro i v hv own
    exact hdismissed.isStale_dismissed ha hentry hv own
  · intro task plan view m hok hpost u n
    have post := hguarded.post?_eq_some_iff.mp hpost
    obtain ⟨a, ha, _⟩ := hguarded.alarm post
    obtain ⟨hnew, hstopped, ⟨b, hb, hbentry, htask⟩, hfenced⟩ :=
      hguarded.create_of_orphan hok post ha
    have hu : u.Guarded := hguarded.undergo (x := .act (.create task plan)) rfl
    refine ⟨hu.post?_eq_some_iff.mpr hnew, ⟨a, ha, hstopped⟩, ?_⟩
    intro later hlater w
    have hsteps := u.steps_endure later
    obtain ⟨y, hy, hbecomes⟩ := hsteps.alarm hb
    refine ⟨⟨y, hy, hbecomes.entry.trans hbentry, hbecomes.task.trans htask⟩, ?_, ?_⟩
    · rintro i v hv ⟨c, hc, hcentry⟩
      exact hguarded.begun_by_newer hok post ha hlater hv hc hcentry
    · intro k x hx hxentry
      have hup := hguarded.upshot (x := .act (.create task plan)) rfl
      obtain ⟨z, hz, hzentry, hzhandle⟩ := hup.watcher hx
      refine hfenced.endure hu hlater hz (hzentry.trans hxentry) ?_
      rw [hzhandle]
      exact hguarded.minted x (List.mem_of_getElem? hx)

/-- An entry is struck out of the roster while its task runs, and its id is drawn again before the
run is over. The watcher of the old entry then leaves the new one its handle. -/
theorem orphans_caught_of_redrawn :
    let source : IdSource := { script := [some 7, some 7] }
    let slow : Task := .pause ⟨5000000, by decide⟩
    let incidents : List Incident := [.act (.create slow .once), .act (.poll 0), .strike 7]
    let t := (opening .epoch source []).endure incidents
    let later : List Incident := [.act (.pass 5), .act (.poll 0)]
    let w := (t.create slow .once).2.endure later
    t.post? 7 = some 0 ∧ 7 ∉ t.roster.ids ∧ (t.update 7 .once).1.isOk = false ∧
      w.roster.entries.map Entry.handle = [some 2] ∧ w.hasEnded 0 = true ∧
      (w.pollWatcher 0).roster = w.roster := by
  intro source slow incidents t later w
  obtain ⟨_, _, hdismissed, hreplaced⟩ :=
    orphans_caught .epoch source [] incidents (by simp [incidents, Incident.isDirect, Act.isDirect])
  have hids : 7 ∉ t.roster.ids := by decide +kernel
  obtain ⟨a, _, _, hupdate, _⟩ := hdismissed 7 0 (by decide +kernel) (by decide +kernel) hids
  have hcreate : (t.create slow .once).1.toOption.map EntryView.id = some 7 := by decide +kernel
  obtain ⟨view, hview, hid⟩ := Option.map_eq_some_iff.mp hcreate
  have hok : (t.create slow .once).1 = .ok view := by
    cases hfirst : (t.create slow .once).1 with
    | error cause =>
        rw [hfirst] at hview
        cases hview
    | ok view =>
        rw [hfirst] at hview
        exact congrArg _ (Option.some.inj hview)
  obtain ⟨_, _, hlater⟩ := hreplaced slow .once view 0 hok (by rw [hid]; decide +kernel)
  obtain ⟨_, _, hwatchers⟩ := hlater later (by simp [later, Incident.isDirect, Act.isDirect])
  refine ⟨by decide +kernel, hids, ?_, by decide +kernel, by decide +kernel, ?_⟩
  · rw [hupdate .once]
    rfl
  · exact hwatchers 0 ⟨7, 1, 0, false⟩ (by decide +kernel) hid.symm

end Timetable

end Almanac
