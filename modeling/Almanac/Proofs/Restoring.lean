import Almanac.Proofs.PuttingBack
import Almanac.Proofs.Waits

/-!
# Reading an entry and putting it back

An entry that is read and put back as it was read goes on as before. It has a handle of its own
again, stays in its place among the others, none of which is touched, and keeps its time and its
period to the nanosecond. If it waits for its next run, the wait is measured again, and ends as it
would have ended unless other leap seconds are counted.
-/

namespace Almanac

namespace Web

/-- A request that reads the entry of an id, and one that puts a description in its place. -/
structure PutsBack (credentials : Option (String × String)) (id : Nat) (view : EntryView)
    (get put : Request) : Prop where
  name : ∃ raw name, Route.ofPath? get.path = some (.entry raw) ∧
    Route.ofPath? put.path = some (.entry raw) ∧
      Text.decode? (Text.percentDecode raw) = some name ∧ Names name id
  methods : get.method = "GET" ∧ put.method = "PUT"
  admitted : judge credentials get = .admitted ∧ judge credentials put = .admitted
  fits : put.body.length ≤ bodyLimit
  body : Json.readOctets put.body = .ok view.json

end Web

namespace Timetable

variable {o s t u : Timetable} {id n i j timer later : Nat} {view : EntryView} {v : Vigil}
  {a b : Alarm}

/-- The entry of an id has got another handle, and is what it was else. Nothing becomes of the
other entries, of their alarms and of their vigils. -/
structure Restored (t : Timetable) (id : Nat) (view : EntryView) (u : Timetable) : Prop where
  fresh : (∀ e ∈ t.roster.entries, e.handle ≠ some t.nextHandle) ∧
    ∀ w ∈ t.watchers, w.handle ≠ t.nextHandle
  get : u.get id = .ok { view with handle := some t.nextHandle }
  entries : u.roster.entries = t.roster.entries.map fun e =>
    if e.id = id then { e with due := view.due, handle := some t.nextHandle } else e
  list : ∃ views, t.list = .ok views ∧ u.list = .ok (views.map fun shown =>
    if shown.id = id then { view with handle := some t.nextHandle } else shown)
  alarm : ∃ n a b, t.post? id = some n ∧ t.alarms[n]? = some a ∧ u.alarms = t.alarms.set n b ∧
    a.due = view.due ∧ b.due = view.due ∧ b.period = a.period ∧ b.task = a.task ∧
    b.status = .running
  others : ∀ other, other ≠ id → u.get other = t.get other ∧ u.statusOf? other = t.statusOf? other
  posts : u.posts = t.posts
  vigils : ∃ v, u.vigils = t.vigils ++ [v]
  moment : u.moment = t.moment

/-- The next run of vigil `i` in `t`, which is `v` there and goes back to `o`, and that of vigil
`j` in `u`. They begin at the same timer if vigil `i` has not been polled yet. If it waits, and
the clock has gone as far as the timers from the beginning of the wait on, they do so if the same
leap seconds are counted from there and from now until the alarm is due, and, unless the run should
have begun by now, only then. -/
structure NextRuns [Locators] (o t u : Timetable) (i j : Nat) (v : Vigil) (due : Instant)
    (timer later : Nat) : Prop where
  before : t.BeginsAt v.alarm i timer
  after : u.BeginsAt v.alarm j later
  setOut : v.phase = .setOut → timer = later
  waited : v.phase ≠ .setOut → ∃ s, Waited o s t i v
  same : ∀ s, v.phase ≠ .setOut → Waited o s t i v → s.KeepsPace t →
    s.now.leapsTo due = t.now.leapsTo due → timer = later
  plain : ∀ s, v.phase ≠ .setOut → Waited o s t i v → s.KeepsPace t →
    s.now.inLeapSecond = false → t.now.inLeapSecond = false → due.inLeapSecond = false →
      timer = later
  apart : ∀ s, v.phase ≠ .setOut → Waited o s t i v → s.KeepsPace t →
    s.now.leapsTo due ≠ t.now.leapsTo due → t.elapsed < timer → timer ≠ later

theorem Tidy.restored (h : t.Tidy) (sound : t.roster.isSpoiled = false)
    (hresumes : t.Resumes id view n a b u) : t.Restored id view u := by
  have hok : (t.update id ⟨some view.due, a.period⟩).1 =
      .ok { view with handle := some t.nextHandle } := congrArg Prod.fst hresumes.update
  have hstate : (t.update id ⟨some view.due, a.period⟩).2 = u :=
    congrArg Prod.snd hresumes.update
  obtain ⟨hid, hmem, hshows, -⟩ := h.agrees.update_shows h.named hok
  rw [hstate] at hshows
  have hlist := (h.agrees.shows sound h.named).list
  obtain ⟨x, hreplan, hstart⟩ := hresumes.replanned
  obtain ⟨hdue, hperiod, htask, -⟩ := hresumes.same
  have halarms : u.alarms = t.alarms.set n b := by rw [hresumes.state]; rfl
  refine ⟨⟨?_, ?_⟩, ?_, hresumes.entries, ⟨_, hlist, hshows.list⟩,
    ⟨n, a, b, hresumes.post, hresumes.alarm, halarms, hresumes.shown.1.symm,
      hdue.trans hresumes.shown.1.symm, hperiod, htask, ?_⟩, ?_, ?_, ?_, ?_⟩
  · intro e he hhandle
    exact Nat.lt_irrefl _ (h.minted e he _ hhandle)
  · intro w hw
    exact Nat.ne_of_lt (h.numbered.handle_lt w hw)
  · obtain ⟨e, he, hentry⟩ := List.mem_map.mp hmem
    have hshown : { view with handle := some t.nextHandle } ∈
        (t.roster.entries.map t.viewOf).map fun shown =>
          if shown.id = id then { view with handle := some t.nextHandle } else shown := by
      refine List.mem_map.mpr ⟨t.viewOf e, List.mem_map_of_mem he, ?_⟩
      rw [viewOf_id, if_pos hentry]
    rw [← hid]
    exact hshows.get _ hshown
  · obtain ⟨-, rfl⟩ := Alarm.start_ok hstart
    rfl
  · intro other hother
    have hnot : ¬t.Concerns other (.update id ⟨some view.due, a.period⟩) := Ne.symm hother
    have hsound' : (t.act (.update id ⟨some view.due, a.period⟩)).roster.isSpoiled = false := by
      rw [Timetable.act, hstate, hresumes.state]
      exact sound
    have hframe := h.agrees.frame rfl hnot hsound'
    rw [Timetable.act, hstate] at hframe
    exact hframe
  · rw [hresumes.state]
    rfl
  · exact ⟨_, by rw [hresumes.state]; rfl⟩
  · rw [hresumes.state]
    rfl

/-- The new vigil waits from now on, as its alarm has the time that was read. -/
theorem Resumes.beginsAt (h : t.Resumes id view n a b u) (hsound : u.core.Sound) :
    u.BeginsAt n t.vigils.length (t.timerFor view.due) := by
  obtain ⟨x, -, hstart⟩ := h.replanned
  have hdue : b.due = view.due := h.same.1.trans h.shown.1.symm
  let w : Vigil :=
    { alarm := n, token := b.token, generation := b.generation, since := t.elapsed }
  have hw : u.vigils[t.vigils.length]? = some w := by
    rw [h.state]
    exact Places.getElem?_last _ _
  have hb : u.alarms[n]? = some b := by
    rw [h.state]
    exact Places.getElem?_set_self h.alarm b
  have hmoment : u.moment = t.moment := by rw [h.state]; rfl
  have running : b.status = .running := by
    obtain ⟨-, rfl⟩ := Alarm.start_ok hstart
    rfl
  have hpending : w.pendingTimer? b u.moment = some (u.moment.timerFor b.due) := rfl
  have hbegins := Timetable.beginsAt hsound hw hb ((hsound.alarms hb).held running) hpending
  have hahead : max u.elapsed (u.moment.timerFor b.due) = t.timerFor view.due := by
    have helapsed : u.elapsed = t.elapsed := congrArg Moment.elapsed hmoment
    rw [hmoment, hdue, helapsed]
    exact t.max_timerFor view.due
  rwa [hahead] at hbegins

theorem Tidy.nextRuns [Locators] (ho : o.Tidy) (hreach : Relation.ReflTransGen Ensues o t)
    (hnone : o.vigils = []) (hresumes : t.Resumes id view n a b u)
    (hv : t.vigils[i]? = some v) (live : t.core.IsLive v) (hpost : t.post? id = some v.alarm)
    (pending : v.phase.isPending = true) :
    ∃ timer, NextRuns o t u i t.vigils.length v view.due timer (t.timerFor view.due) := by
  have hstep : t.Ensues u := by
    have hact : t.Ensues (t.act (.update id ⟨some view.due, a.period⟩)) := .act _ rfl
    rwa [Timetable.act, hresumes.update] at hact
  have ht : t.Tidy := ho.ensues hreach
  have hlater := hresumes.beginsAt (ht.isAct hstep.isAct).sound
  -- the old vigil goes by its own timer
  obtain rfl : n = v.alarm := Option.some.inj (hresumes.post.symm.trans hpost)
  have held : a.isRevoked v.token = false := by
    obtain ⟨-, y, hy, held⟩ := live
    rw [show t.core.alarms[v.alarm]? = some a from hresumes.alarm] at hy
    cases hy
    exact held
  have hbegins : ∀ timer : Nat, v.pendingTimer? a t.moment = some timer →
      t.BeginsAt v.alarm i (max t.elapsed timer) := fun _ =>
    beginsAt ht.sound hv hresumes.alarm held
  have hwaited : ∃ s, Waited o s t i v := exists_waited hreach (by simp [hnone]) hv
  have hshown : a.due = view.due := hresumes.shown.1.symm
  cases hphase : v.phase with
  | setOut =>
    have hfirst := hbegins (t.timerFor view.due)
      (by rw [Vigil.pendingTimer?, hphase, hshown]; rfl)
    rw [max_timerFor] at hfirst
    exact ⟨_, hfirst, hlater, fun _ => rfl, fun _ => hwaited, fun _ hnot => absurd hphase hnot,
      fun _ hnot => absurd hphase hnot, fun _ hnot => absurd hphase hnot⟩
  | waiting timer =>
    have hfirst := hbegins timer (by rw [Vigil.pendingTimer?, hphase])
    have hsame : ∀ s, Waited o s t i v → s.KeepsPace t →
        s.now.leapsTo view.due = t.now.leapsTo view.due →
          max t.elapsed timer = t.timerFor view.due := by
      intro s hs hpace hleaps
      obtain ⟨rfl, hle⟩ := hs.timer_eq ho hphase live hresumes.alarm
      rw [hshown]
      exact hpace.timerFor_eq hle hleaps
    refine ⟨_, hfirst, hlater, fun hnot => ?_, fun _ => hwaited, fun s _ => hsame s, ?_, ?_⟩
    · rw [hphase] at hnot
      cases hnot
    · intro s _ hs hpace hbefore hnow hdue
      refine hsame s hs hpace ?_
      rw [Instant.leapsTo_eq_zero hbefore hdue, Instant.leapsTo_eq_zero hnow hdue]
    · intro s _ hs hpace hleaps early
      obtain ⟨rfl, hle⟩ := hs.timer_eq ho hphase live hresumes.alarm
      rw [hshown] at early ⊢
      have early : t.elapsed < s.timerFor view.due := by omega
      rw [Nat.max_eq_right (Nat.le_of_lt early)]
      exact hpace.timerFor_ne hle early hleaps
  | running timer turn =>
    rw [hphase] at pending
    cases pending
  | ended ending =>
    rw [hphase] at pending
    cases pending
  | lost =>
    rw [hphase] at pending
    cases pending

/-- **Putting back what was read is the identity on the policy**, in whatever has become of a
timetable that is in use, as long as the time that was read has not passed. The request is granted,
and returns what was read but for a handle that nobody had before. If the entry is still to begin a
run, the run begins when it would have begun, except that a wait is measured again: where other
leap seconds are counted now than when it began, the run begins at another time. -/
theorem put_back_restores [Locators] (start : Instant) (source : IdSource)
    (replies : List RestartReply) (credentials : Option (String × String)) {t : Timetable}
    (hreach : Relation.ReflTransGen Ensues (opening start source replies) t)
    (sound : t.roster.isSpoiled = false) {id : Nat} {view : EntryView}
    (hget : t.get id = .ok view) (hdue : ¬view.due < t.now) {get put : Web.Request}
    (hputs : Web.PutsBack credentials id view get put) :
    Web.handle credentials t get = (.data 200 view.json, t) ∧
    (view.Fits → Json.readOctets (Text.encode (Json.object view.members).text) = .ok view.json) ∧
    ∃ u, Web.handle credentials t put =
        (.data 200 { view with handle := some t.nextHandle }.json, u) ∧
      t.Restored id view u ∧
      ∀ i v, t.vigils[i]? = some v → t.core.IsLive v → t.post? id = some v.alarm →
        v.phase.isPending = true →
          ∃ timer, NextRuns (opening start source replies) t u i t.vigils.length v view.due timer
            (t.timerFor view.due) := by
  have ho := tidy_opening start source replies
  have ht : t.Tidy := ho.ensues hreach
  obtain ⟨n, a, b, u, hresumes⟩ := ht.resumes sound hget hdue
  obtain ⟨⟨raw, name, hgetRoute, hputRoute, hdecode, hnames⟩, ⟨hgets, hputs'⟩,
    ⟨hgetAdmitted, hputAdmitted⟩, hfits, hbody⟩ := hputs
  refine ⟨?_, EntryView.readOctets_members, u, ?_, ht.restored sound hresumes, ?_⟩
  · rw [Web.handle_get hgetRoute hdecode hgetAdmitted hgets]
    exact Web.conclude_showEntry hnames hget
  · rw [Web.handle_put hputRoute hdecode hputAdmitted hputs' hfits]
    exact Web.conclude_changeEntry hnames hbody hresumes.shown.2.1 hresumes.update
  · intro i v hv live hpost pending
    exact ho.nextRuns hreach rfl hresumes hv live hpost pending

/-- Half a second into a leap second at the end of the first minute of a day. -/
def leapDue : Instant where
  day := 19724
  second := 59
  nano := 1500000000

def noon : Instant :=
  { Instant.epoch with
    day := 19723
    second := 43200
    day_ge := by decide
    day_le := by decide
    second_lt := by decide
    leap_second := by decide }

/-- At noon a pause is set up for the leap second, and its vigil waits. -/
def leapWait : Timetable :=
  ((opening noon {} []).act (.create (.pause .zero) ⟨some leapDue, .zero⟩)).act (.poll 0)

def leapView : EntryView := ⟨1001, leapDue, "0s", some 1, .pause "0s"⟩

def leapGet : Web.Request := ⟨"GET", "/api/v0/tasks/1001", [], []⟩

/-- Puts the pause back as it was read. -/
def leapPut : Web.Request :=
  ⟨"PUT", "/api/v0/tasks/1001", [], Text.encode (Json.object leapView.members).text⟩

theorem putsBack_leapPut : Web.PutsBack none 1001 leapView leapGet leapPut where
  name := ⟨"1001".toList, "1001".toList, by decide +kernel, by decide +kernel, by decide +kernel,
    by decide +kernel, by decide⟩
  methods := ⟨rfl, rfl⟩
  admitted := ⟨rfl, rfl⟩
  fits := by decide +kernel
  body := EntryView.readOctets_members ⟨by decide, by rintro _ ⟨⟩; decide, by rintro _ _ ⟨⟩⟩

/-- The pause is put back half a minute after noon, when the leap second is not counted either, and
half a minute before it is due, when it is counted. -/
theorem put_back_restores_of_leap_second :
    let t (millis : Nat) := leapWait.run [.pass millis]
    (∃ u timer, Web.handle none (t 30000) leapPut =
        (.data 200 { leapView with handle := some 2 }.json, u) ∧
      (t 30000).Restored 1001 leapView u ∧ (t 30000).BeginsAt 0 0 timer ∧ u.BeginsAt 0 1 timer) ∧
    ∃ u timer later, Web.handle none (t 43230000) leapPut =
        (.data 200 { leapView with handle := some 2 }.json, u) ∧
      (t 43230000).Restored 1001 leapView u ∧ (t 43230000).BeginsAt 0 0 timer ∧
        u.BeginsAt 0 1 later ∧ timer ≠ later := by
  intro t
  let v : Vigil :=
    { alarm := 0, token := 0, generation := 1, since := 0, phase := .waiting 43259500 }
  let o := opening noon {} []
  let r := o.act (.create (.pause .zero) ⟨some leapDue, .zero⟩)
  have hcreate : o.Ensues r := .act _ rfl
  have hpoll : r.Ensues leapWait := .act (.poll 0) rfl
  have hpass (millis : Nat) : leapWait.Ensues (t millis) := .act (.pass millis) rfl
  have hreach (millis : Nat) : Relation.ReflTransGen Ensues o (t millis) :=
    ((Relation.ReflTransGen.single hcreate).tail hpoll).tail (hpass millis)
  have hvigil : leapWait.vigils[0]? = some v := by decide +kernel
  have hwaited (millis : Nat) : Waited o leapWait (t millis) 0 v :=
    ⟨⟨r, .single hcreate, hpoll, by decide +kernel⟩, hvigil, .single ⟨hpass millis, hvigil⟩⟩
  have hfacts : ∀ millis ∈ [30000, 43230000],
      ((t millis).roster.isSpoiled = false ∧ (t millis).get 1001 = .ok leapView ∧
        ¬leapView.due < (t millis).now ∧ (t millis).nextHandle = 2) ∧
      (t millis).vigils[0]? = some v ∧ (t millis).post? 1001 = some 0 ∧
        ((t millis).alarms[0]?.map fun a => a.isRevoked 0) = some false := by decide +kernel
  have hput (millis : Nat) (hmillis : millis ∈ [30000, 43230000]) :
      ∃ u timer, Web.handle none (t millis) leapPut =
          (.data 200 { leapView with handle := some 2 }.json, u) ∧
        (t millis).Restored 1001 leapView u ∧
          NextRuns o (t millis) u 0 1 v leapDue timer ((t millis).timerFor leapDue) := by
    obtain ⟨⟨hsound, hget, hdue, hnext⟩, hv, hpost, hheld⟩ := hfacts millis hmillis
    obtain ⟨a, ha, hheld⟩ := Option.map_eq_some_iff.mp hheld
    obtain ⟨-, -, u, hhandle, hrestored, hruns⟩ := put_back_restores noon {} [] none
      (hreach millis) hsound hget hdue putsBack_leapPut
    rw [hnext] at hhandle
    obtain ⟨timer, hruns⟩ := hruns 0 v hv ⟨rfl, a, ha, hheld⟩ hpost rfl
    exact ⟨u, timer, hhandle, hrestored, hruns⟩
  constructor
  · obtain ⟨u, timer, hhandle, hrestored, hruns⟩ := hput 30000 (by decide)
    have htimer := hruns.same leapWait (by decide) (hwaited 30000)
      (by unfold KeepsPace; decide +kernel) (by decide +kernel)
    exact ⟨u, timer, hhandle, hrestored, hruns.before, htimer ▸ hruns.after⟩
  · obtain ⟨u, timer, hhandle, hrestored, hruns⟩ := hput 43230000 (by decide)
    have hearly : (t 43230000).elapsed < timer := by
      -- a poll at once begins no run
      by_contra hcome
      refine (hruns.before.begins [] (by decide +kernel)).mpr ⟨[], [], rfl, ?_⟩ (by decide +kernel)
      rw [run_nil]
      exact Nat.le_of_not_lt hcome
    exact ⟨u, timer, _, hhandle, hrestored, hruns.before, hruns.after,
      hruns.apart leapWait (by decide) (hwaited 43230000) (by unfold KeepsPace; decide +kernel)
        (by decide +kernel) hearly⟩

/-- The wait that began at noon does not count the leap second, so that the run is about to begin a
second early. Half a minute before, the pause is read and put back. The wait is measured from there
on, counts the leap second, and the run begins a second later than it would have. -/
theorem next_run_moved :
    let t := leapWait.run [.pass 43230000]
    let u := (t.update 1001 ⟨some leapDue, .zero⟩).2
    Web.handle none t leapGet = (.data 200 leapView.json, t) ∧ ¬leapView.due < t.now ∧
      Web.handle none t leapPut = (.data 200 { leapView with handle := some 2 }.json, u) ∧
      u.now = t.now ∧ leapWait.KeepsPace t ∧
      beginnings 0 (t.run [.pass 29500, .poll 0]).annals = [(t.run [.pass 29500]).now] ∧
      beginnings 1 (u.run [.poll 1, .pass 29500, .poll 1]).annals = [] ∧
      beginnings 1 (u.run [.poll 1, .pass 30500, .poll 1]).annals =
        [(t.run [.pass 30500]).now] := by
  intro t u
  have hupdate : t.update 1001 ⟨some leapDue, .zero⟩ =
      (.ok { leapView with handle := some 2 }, u) := Prod.ext (by decide +kernel) rfl
  have hput : Web.handle none t leapPut =
      (.data 200 { leapView with handle := some 2 }.json, u) := by
    obtain ⟨⟨raw, name, -, hroute, hdecode, hnames⟩, -, -, hfits, hbody⟩ := putsBack_leapPut
    rw [Web.handle_put hroute hdecode rfl rfl hfits]
    exact Web.conclude_changeEntry hnames hbody (by decide +kernel) hupdate
  have hget : Web.handle none t leapGet = (.data 200 leapView.json, t) := by
    obtain ⟨⟨raw, name, hroute, -, hdecode, hnames⟩, -, -, -, -⟩ := putsBack_leapPut
    have hshown : t.get 1001 = .ok leapView := by decide +kernel
    rw [Web.handle_get hroute hdecode rfl rfl]
    exact Web.conclude_showEntry hnames hshown
  have hpace : leapWait.KeepsPace t := by
    unfold KeepsPace
    decide +kernel
  exact ⟨hget, by decide +kernel, hput, by decide +kernel, hpace, by decide +kernel,
    by decide +kernel, by decide +kernel⟩

end Timetable

end Almanac
