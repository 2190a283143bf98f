import Almanac.Proofs.Agreement

/-!
# Nothing runs on

Updating, removing and shutting down cancel the alarms that have a post, and a cancel heeds only
alarms that run. No vigil escapes all the same: one that could still begin a run has an alarm
that runs, and that alarm has the post of its entry.
-/

namespace Almanac

/-- A vigil sets no alarm running. -/
theorem Vigil.Goes.idle {i : Nat} {v v' : Vigil} {a a' : Alarm} {deeds : List Deed}
    (h : v.Goes i a v' a' deeds) (idle : a.isRunning = false) : a'.isRunning = false := by
  rw [Bool.eq_false_iff, ne_eq, Alarm.isRunning_eq_true_iff] at idle ⊢
  intro running
  exact idle (h.leaves.2.1 running)

namespace Core

variable {c d : Core} {i n : Nat} {v w : Vigil} {may : Impulse → Prop}

/-- Without a start of its alarm there is no new vigil. -/
theorem Steps.unstarted (hsteps : Steps may c d) (hmay : ¬ may (.start n))
    (hw : d.vigils[i]? = some w) (hn : w.alarm = n) : ∃ v, c.vigils[i]? = some v := by
  induction hsteps generalizing w with
  | refl => exact ⟨w, hw⟩
  | tail _ hstep ih =>
      cases hstep with
      | setUp e => exact ih hw hn
      | start since allowed alarm started =>
          rcases Places.getElem?_grown hw with hold | ⟨_, rfl⟩
          · exact ih hold hn
          · subst hn
            exact absurd allowed hmay
      | cancel alarm cancelled => exact ih hw hn
      | replan alarm replanned => exact ih hw hn
      | move j allowed moved =>
          obtain ⟨hv, _, goes⟩ := moved
          dsimp only at hw
          rw [Places.getElem?_set hv] at hw
          split at hw
          · next hij =>
              cases hw
              subst hij
              exact ih hv (goes.same.1.symm.trans hn)
          · exact ih hw hn

/-- Without a start of it no alarm begins to run. -/
theorem Step.idle (hstep : Step may c d) (hmay : ∀ m, ¬ may (.start m)) {a : Alarm}
    (ha : c.alarms[n]? = some a) :
    ∃ b, d.alarms[n]? = some b ∧ (a.isRunning = false → b.isRunning = false) := by
  have hset : ∀ {m : Nat} {x y : Alarm}, c.alarms[m]? = some x →
      (x.isRunning = false → y.isRunning = false) →
      ∃ b, (c.alarms.set m y)[n]? = some b ∧ (a.isRunning = false → b.isRunning = false) := by
    intro m x y hx hidle
    exact Places.exists_set (P := fun x y : Alarm => x.isRunning = false → y.isRunning = false)
      (fun _ idle => idle) hx hidle ha
  cases hstep with
  | setUp e => exact ⟨a, Places.getElem?_append ha _, fun idle => idle⟩
  | start since allowed alarm started => exact absurd allowed (hmay _)
  | cancel alarm cancelled =>
      obtain ⟨_, rfl⟩ := Alarm.cancel_ok cancelled
      exact hset alarm fun _ => Alarm.isRunning_stop _
  | replan alarm replanned =>
      obtain ⟨due, period, _, rfl⟩ := Alarm.replan_ok replanned
      exact hset alarm fun _ => Alarm.isRunning_stop _
  | move j allowed moved =>
      obtain ⟨hv, hx, goes⟩ := moved
      exact hset hx goes.idle

theorem Steps.idle (hsteps : Steps may c d) (hmay : ∀ m, ¬ may (.start m)) {a : Alarm}
    (ha : c.alarms[n]? = some a) :
    ∃ b, d.alarms[n]? = some b ∧ (a.isRunning = false → b.isRunning = false) := by
  induction hsteps with
  | refl => exact ⟨a, ha, fun idle => idle⟩
  | tail _ hstep ih =>
      obtain ⟨b, hb, hidle⟩ := ih
      obtain ⟨x, hx, hidle'⟩ := hstep.idle hmay hb
      exact ⟨x, hx, fun idle => hidle' (hidle idle)⟩

/-- Only the moves of a vigil begin its runs. -/
theorem Step.beginnings_of_still (hstep : Step may c d)
    (hstill : may (.move i) → c.vigils[i]? = none) :
    beginnings i d.annals = beginnings i c.annals := by
  cases hstep with
  | setUp e => rfl
  | start since allowed alarm started => rfl
  | cancel alarm cancelled => rfl
  | replan alarm replanned => rfl
  | move j allowed moved =>
      obtain ⟨hv, ha, goes⟩ := moved
      have hij : j ≠ i := by
        rintro rfl
        rw [hstill allowed] at hv
        cases hv
      apply beginnings_append
      intro deed hdeed
      rcases (goes.deeds deed hdeed).1 with hnone | hsome
      · simp [hnone]
      · simpa [hsome] using hij

theorem Steps.beginnings_of_unmoved (hsteps : Steps may c d) (hmay : ¬ may (.move i)) :
    beginnings i d.annals = beginnings i c.annals := by
  induction hsteps with
  | refl => rfl
  | tail _ hstep ih =>
      rw [← ih]
      exact hstep.beginnings_of_still fun allowed => absurd allowed hmay

/-- A vigil that is not there begins no runs. -/
theorem Steps.beginnings_of_absent (hsteps : Steps may c d) (habsent : d.vigils[i]? = none) :
    beginnings i d.annals = beginnings i c.annals := by
  induction hsteps with
  | refl => rfl
  | @tail b d _ hstep ih =>
      have hbefore : b.vigils[i]? = none := by
        cases hv : b.vigils[i]? with
        | none => rfl
        | some v =>
            obtain ⟨w, hw, _⟩ := Steps.vigil (.single hstep) hv
            rw [habsent] at hw
            cases hw
      rw [← ih hbefore]
      exact hstep.beginnings_of_still fun _ => hbefore

/-- A vigil that is live now has been live ever since it was set out. -/
theorem Sound.live_of_steps (h : c.Sound) (hsteps : Steps may c d) (hv : c.vigils[i]? = some v)
    (hw : d.vigils[i]? = some w) (live : d.IsLive w) : c.IsLive v := by
  by_contra stale
  obtain ⟨⟨x, hx, hstale⟩, _⟩ := h.stale_steps hsteps ⟨v, hv, stale⟩
  rw [hw] at hx
  cases hx
  exact hstale live

end Core

namespace Timetable

variable {t : Timetable} {i : Nat} {v : Vigil}

/-- The alarm of every live vigil has the post of its entry. -/
structure Attached (t : Timetable) : Prop where
  post : ∀ {i : Nat} {v : Vigil} {a : Alarm}, t.vigils[i]? = some v → t.core.IsLive v →
    t.alarms[v.alarm]? = some a → (a.entry, v.alarm) ∈ t.posts

/-- Every id has at most one post, that of an alarm of the id, and no live vigil is without. -/
structure Covered (t : Timetable) : Prop extends Attached t where
  keys : (t.posts.map Prod.fst).Nodup
  alarm : ∀ {id n : Nat}, (id, n) ∈ t.posts → ∃ a, t.alarms[n]? = some a ∧ a.entry = id
  sound : t.core.Sound

namespace Covered

variable {u : Timetable} {may : Core.Impulse → Prop}

theorem post?_eq_some_iff (h : t.Covered) {id n : Nat} :
    t.post? id = some n ↔ (id, n) ∈ t.posts :=
  lookup_eq_some_iff_mem h.keys

theorem eq_of_post (h : t.Covered) {id n m : Nat} (hn : (id, n) ∈ t.posts)
    (hm : (id, m) ∈ t.posts) : m = n := by
  rw [← h.post?_eq_some_iff] at hn hm
  exact Option.some.inj (hm.symm.trans hn)

/-- A vigil that is live later on, and was there before, was live then and had the post. -/
theorem post_of_live (h : t.Covered) (hsteps : Core.Steps may t.core u.core) {w : Vigil}
    {b : Alarm} (hv : t.vigils[i]? = some v) (hw : u.vigils[i]? = some w)
    (live : u.core.IsLive w) (hb : u.alarms[w.alarm]? = some b) :
    t.core.IsLive v ∧ w.alarm = v.alarm ∧ (b.entry, w.alarm) ∈ t.posts := by
  have hlive := h.sound.live_of_steps hsteps hv hw live
  obtain ⟨x, hx, halarm, _⟩ := hsteps.vigil hv
  have hxw : x = w := Option.some.inj (hx.symm.trans hw)
  subst hxw
  obtain ⟨a, ha, _⟩ := hlive.2
  obtain ⟨y, hy, hentry, _⟩ := hsteps.alarm ha
  rw [← halarm] at hy
  have hyb : y = b := Option.some.inj (hy.symm.trans hb)
  subst hyb
  refine ⟨hlive, halarm, ?_⟩
  rw [hentry, halarm]
  exact h.post hv hlive ha

/-- Stopping the alarm of a vigil leaves it stale. -/
theorem isStale_of_stop (h : t.Covered) {a b : Alarm} (hv : t.vigils[i]? = some v)
    (ha : t.alarms[v.alarm]? = some a) (live : t.core.IsLive v) (hu : u.vigils[i]? = some v)
    (hb : u.alarms[v.alarm]? = some b)
    (hrevoked : ∀ token, a.stop.isRevoked token = true → b.isRevoked token = true) :
    u.core.IsStale i := by
  have hfits := h.sound.fits hv ha
  exact Core.isStale_of_revoked hu hb (hrevoked _ (hfits.revoked_stop live.1))

/-- Where the alarm of a post is stopped, a vigil that is still live has the post of another id. -/
theorem post_of_live_of_stop (h : t.Covered) (hsteps : Core.Steps may t.core u.core) {id n : Nat}
    {a b : Alarm} (post : (id, n) ∈ t.posts) (alarm : t.alarms[n]? = some a)
    (stopped : u.alarms[n]? = some a.stop) (hv : t.vigils[i]? = some v)
    (hu : u.vigils[i]? = some v) (live : u.core.IsLive v) (hb : u.alarms[v.alarm]? = some b) :
    (b.entry, v.alarm) ∈ t.posts ∧ b.entry ≠ id := by
  obtain ⟨hlive, _, hmem⟩ := h.post_of_live hsteps hv hu live hb
  refine ⟨hmem, ?_⟩
  intro hid
  have hn : v.alarm = n := h.eq_of_post post (hid ▸ hmem)
  subst hn
  obtain ⟨x, hx, hstale⟩ :=
    h.isStale_of_stop hv alarm hlive hu stopped fun _ revoked => revoked
  have hxv : x = v := Option.some.inj (hx.symm.trans hu)
  exact hstale (hxv ▸ live)

/-- An act that has its whole effect leaves every live vigil its post. -/
theorem attached (h : t.Covered) {act : Act} (hsteps : Core.Steps (t.mayGive act) t.core u.core)
    (heffect : t.Effect act u) : u.Attached := by
  have hlater : ∀ {i : Nat} {v w : Vigil} {b : Alarm}, t.vigils[i]? = some v →
      u.vigils[i]? = some w → u.core.IsLive w → u.alarms[w.alarm]? = some b →
      (b.entry, w.alarm) ∈ t.posts :=
    fun hv hw live hb => (h.post_of_live hsteps hv hw live hb).2.2
  cases heffect with
  | minor handle core posts entries fixes =>
      refine ⟨?_⟩
      intro i w b hw live hb
      have hvigils : u.vigils = t.vigils := congrArg Core.vigils core
      rw [posts]
      exact hlater (hvigils ▸ hw) hw live hb
  | polled j moves posts roster =>
      refine ⟨?_⟩
      intro i w b hw live hb
      have hnot : ¬ t.mayGive (.poll j) (.start w.alarm) := by
        intro hgive
        cases hgive
      obtain ⟨v, hv⟩ := hsteps.unstarted hnot hw rfl
      rw [posts]
      exact hlater hv hw live hb
  | @created task plan e x view roster journal policy same free started entries id result =>
      refine ⟨?_⟩
      intro i w b hw live hb
      rcases Places.getElem?_grown hw with hold | ⟨_, rfl⟩
      · exact List.mem_append_left _ (hlater hold hw live hb)
      · have hlast : (t.alarms ++ [x])[t.alarms.length]? = some b := hb
        rw [Places.getElem?_last] at hlast
        cases hlast
        rw [(Alarm.start_keeps started).1]
        exact List.mem_append_right _ List.mem_cons_self
  | @updated id n plan a x y view post alarm replanned started result =>
      refine ⟨?_⟩
      intro i w b hw live hb
      rcases Places.getElem?_grown hw with hold | ⟨_, rfl⟩
      · exact hlater hold hw live hb
      · have hset : (t.alarms.set n y)[n]? = some b := hb
        rw [Places.getElem?_set_self alarm] at hset
        cases hset
        obtain ⟨z, hz, hid⟩ := h.alarm post
        rw [alarm] at hz
        cases hz
        rw [(Alarm.start_keeps started).1, (Alarm.replan_keeps replanned).1, hid]
        exact post
  | @removed id n a post alarm =>
      refine ⟨?_⟩
      intro i w b hw live hb
      obtain ⟨hmem, hother⟩ := h.post_of_live_of_stop hsteps post alarm
        (Places.getElem?_set_self alarm _) hw hw live hb
      exact List.mem_filter.mpr ⟨hmem, bne_iff_ne.mpr hother⟩
  | stopped alarms deeds deeds_cancelled stops =>
      refine ⟨?_⟩
      intro i w b hw live hb
      exact hlater hw hw live hb

end Covered

/-- What holds of a timetable whose alarms are only reached through requests. -/
structure Kept (t : Timetable) : Prop where
  agrees : t.Agrees
  sound : t.core.Sound
  attached : t.Attached

theorem kept_opening (start : Instant) (source : IdSource) (replies : List RestartReply) :
    (opening start source replies).Kept where
  agrees := agrees_opening start source replies
  sound := sound_opening start source replies
  attached := by
    refine ⟨?_⟩
    intro i v a hv
    cases hv

theorem Kept.covered (h : t.Kept) : t.Covered where
  toAttached := h.attached
  keys := h.agrees.ids ▸ h.agrees.nodup
  alarm := h.agrees.alarm
  sound := h.sound

theorem Kept.act (h : t.Kept) {act : Act} (hact : act.isDirect = false) : (t.act act).Kept where
  agrees := h.agrees.act hact
  sound := h.sound.steps (t.steps_act act)
  attached := h.covered.attached (t.steps_act act) (h.agrees.effect hact)

theorem Kept.run (h : t.Kept) {acts : List Act} (hacts : ∀ act ∈ acts, act.isDirect = false) :
    (t.run acts).Kept := by
  induction acts generalizing t with
  | nil => exact h
  | cons act acts ih =>
      obtain ⟨hact, hacts⟩ := List.forall_mem_cons.mp hacts
      exact ih (h.act hact) hacts

theorem Kept.isStale_act (h : t.Kept) (act : Act) (hv : t.vigils[i]? = some v)
    (hlive : t.core.IsLive v → (t.act act).core.IsStale i) : (t.act act).core.IsStale i := by
  by_cases live : t.core.IsLive v
  · exact hlive live
  · exact (h.sound.stale_steps (t.steps_act act) ⟨v, hv, live⟩).1

theorem Kept.isStale_update (h : t.Kept) {id : Nat} {plan : Plan} {view : EntryView}
    (hok : (t.update id plan).1 = .ok view) {a : Alarm} (hv : t.vigils[i]? = some v)
    (ha : t.alarms[v.alarm]? = some a) (hid : a.entry = id) :
    (t.act (.update id plan)).core.IsStale i := by
  apply h.isStale_act _ hv
  intro live
  have hmem := h.attached.post hv live ha
  rcases h.agrees.update_cases id plan with ⟨cause, hrefused⟩ | hupdated
  · rw [hrefused] at hok
    cases hok
  · obtain ⟨n, e, a', x, b, post, _, alarm, replanned, started, hupdate⟩ := hupdated
    have hn : v.alarm = n := h.agrees.eq_of_post post (hid ▸ hmem)
    subst hn
    rw [ha] at alarm
    cases alarm
    rw [Timetable.act, hupdate]
    have hb : (t.alarms.set v.alarm b)[v.alarm]? = some b := by
      rw [Places.getElem?_set_self ha]
    refine h.covered.isStale_of_stop hv ha live (Places.getElem?_append hv _) hb ?_
    intro token revoked
    apply Alarm.revoked_start started
    obtain ⟨due, period, _, rfl⟩ := Alarm.replan_ok replanned
    exact revoked

theorem Kept.isStale_remove (h : t.Kept) {id : Nat} (hok : (t.remove id).1 = .ok ()) {a : Alarm}
    (hv : t.vigils[i]? = some v) (ha : t.alarms[v.alarm]? = some a) (hid : a.entry = id) :
    (t.act (.remove id)).core.IsStale i := by
  apply h.isStale_act _ hv
  intro live
  have hmem := h.attached.post hv live ha
  rcases h.agrees.remove_cases id with ⟨cause, hrefused⟩ | ⟨n, a', post, alarm, hremove⟩
  · rw [hrefused] at hok
    cases hok
  · have hn : v.alarm = n := h.agrees.eq_of_post post (hid ▸ hmem)
    subst hn
    rw [ha] at alarm
    cases alarm
    rw [Timetable.act, hremove]
    have hb : (t.alarms.set v.alarm a.stop)[v.alarm]? = some a.stop := by
      rw [Places.getElem?_set_self ha]
    exact h.covered.isStale_of_stop hv ha live hv hb fun _ revoked => revoked

theorem Kept.isStale_shutdown (h : t.Kept) (hv : t.vigils[i]? = some v) :
    (t.act .shutdown).core.IsStale i := by
  apply h.isStale_act _ hv
  intro live
  obtain ⟨a, ha, _⟩ := live.2
  have hmem : v.alarm ∈ t.posts.map Prod.snd :=
    List.mem_map_of_mem (f := Prod.snd) (h.attached.post hv live ha)
  obtain ⟨alarms, deeds, hshutdown, _, halarms⟩ := t.stopAll_eq t.posts
  rw [Timetable.act, shutdown, hshutdown]
  have hb : alarms[v.alarm]? = some a.stop := by
    have ha' : t.alarms[v.alarm]? = some a := ha
    rw [halarms, ha', Option.map_some, if_pos hmem]
  exact h.covered.isStale_of_stop hv ha live hv hb fun _ revoked => revoked

/-- From an act on, vigil `i` begins no run, whatever comes later. -/
def QuietFrom (t : Timetable) (act : Act) (i : Nat) : Prop :=
  ∀ later, beginnings i (t.run (act :: later)).annals = beginnings i t.annals

theorem Kept.quietFrom (h : t.Kept) {act : Act} (hact : ¬ t.mayGive act (.move i))
    (hstale : (t.act act).core.IsStale i) : t.QuietFrom act i := by
  intro later
  have hsteps := t.steps_act act
  have hlater := (h.sound.steps hsteps).stale_steps (steps_run (t.act act) later) hstale
  exact hlater.2.trans (hsteps.beginnings_of_unmoved hact)

theorem Kept.quietFrom_update (h : t.Kept) {id : Nat} {plan : Plan} {view : EntryView}
    (hok : (t.update id plan).1 = .ok view) {a : Alarm} (hv : t.vigils[i]? = some v)
    (ha : t.alarms[v.alarm]? = some a) (hid : a.entry = id) : t.QuietFrom (.update id plan) i := by
  refine h.quietFrom ?_ (h.isStale_update hok hv ha hid)
  rintro ⟨n, _, hn⟩
  cases hn

theorem Kept.quietFrom_remove (h : t.Kept) {id : Nat} (hok : (t.remove id).1 = .ok ())
    {a : Alarm} (hv : t.vigils[i]? = some v) (ha : t.alarms[v.alarm]? = some a)
    (hid : a.entry = id) : t.QuietFrom (.remove id) i :=
  h.quietFrom (fun hgive => hgive) (h.isStale_remove hok hv ha hid)

theorem Kept.quietFrom_shutdown (h : t.Kept) (hv : t.vigils[i]? = some v) :
    t.QuietFrom .shutdown i :=
  h.quietFrom (fun hgive => hgive) (h.isStale_shutdown hv)

/-- Alarm `n` was set up, and has no post. -/
structure Detached (t : Timetable) (n : Nat) : Prop where
  alarm : ∃ a, t.alarms[n]? = some a
  post : ∀ id, (id, n) ∉ t.posts

/-- An alarm without a post is not started. -/
theorem Detached.not_mayGive {n : Nat} (h : t.Detached n)
    (hposts : ∀ {id m : Nat}, t.post? id = some m → (id, m) ∈ t.posts) {act : Act}
    (hact : act.isDirect = false) : ¬ t.mayGive act (.start n) := by
  obtain ⟨a, ha⟩ := h.alarm
  have hlt : n < t.alarms.length := Places.lt_of_getElem? ha
  intro hgive
  cases act with
  | create task plan =>
      cases hgive
      exact Nat.lt_irrefl _ hlt
  | update id plan =>
      obtain ⟨m, hpost, hm⟩ := hgive
      cases hm
      exact h.post id (hposts hpost)
  | poll vigil => cases hgive
  | start alarm => cases hact
  | _ => exact hgive

/-- An alarm without a post never gets one, as long as only new alarms do. -/
theorem Detached.of_posts {n : Nat} (h : t.Detached n) {u : Timetable}
    {may : Core.Impulse → Prop} (hsteps : Core.Steps may t.core u.core)
    (hposts : ∀ {id m : Nat}, (id, m) ∈ u.posts → (id, m) ∈ t.posts ∨ m = t.alarms.length) :
    u.Detached n := by
  obtain ⟨a, ha⟩ := h.alarm
  obtain ⟨b, hb, _⟩ := Core.Steps.alarm (c := t.core) hsteps ha
  refine ⟨⟨b, hb⟩, ?_⟩
  intro id hmem
  rcases hposts hmem with hold | hnew
  · exact h.post id hold
  · exact Nat.ne_of_lt (Places.lt_of_getElem? ha) hnew

/-- Only new alarms get a post. -/
theorem Effect.posts {act : Act} {u : Timetable} (h : t.Effect act u) {id m : Nat}
    (hmem : (id, m) ∈ u.posts) : (id, m) ∈ t.posts ∨ m = t.alarms.length := by
  cases h with
  | minor handle core posts entries fixes => exact Or.inl (posts ▸ hmem)
  | polled j moves posts roster => exact Or.inl (posts ▸ hmem)
  | created view roster journal policy same free started entries id result =>
      rcases List.mem_append.mp hmem with hold | hnew
      · exact Or.inl hold
      · exact Or.inr (Prod.mk.inj (List.mem_singleton.mp hnew)).2
  | updated view post alarm replanned started result => exact Or.inl hmem
  | removed post alarm => exact Or.inl (List.mem_filter.mp hmem).1
  | stopped alarms deeds deeds_cancelled stops => exact Or.inl hmem

theorem Detached.act {n : Nat} (h : t.Detached n) (hposted : t.Posted) {act : Act}
    (hact : act.isDirect = false) :
    (t.act act).Detached n ∧ ¬ t.mayGive act (.start n) :=
  ⟨h.of_posts (t.steps_act act) (hposted.effect hact).posts,
    h.not_mayGive hposted.post?_eq_some_iff.mp hact⟩

theorem Detached.steps_run {n : Nat} (h : t.Detached n) (hagrees : t.Agrees) {acts : List Act}
    (hacts : ∀ act ∈ acts, act.isDirect = false) :
    Core.Steps (fun x => x ≠ .start n) t.core (t.run acts).core := by
  induction acts generalizing t with
  | nil => exact .refl
  | cons act acts ih =>
      obtain ⟨hact, hacts⟩ := List.forall_mem_cons.mp hacts
      obtain ⟨hdetached, hgive⟩ := h.act hagrees.toPosted hact
      have hfirst : Core.Steps (fun x => x ≠ .start n) t.core (t.act act).core := by
        refine Core.Steps.mono ?_ (t.steps_act act)
        rintro x hx rfl
        exact hgive hx
      exact hfirst.trans (ih hdetached (hagrees.act hact) hacts)

/-- A removed entry leaves all the alarms of its id without a post. -/
theorem Kept.detached_remove (h : t.Kept) {id n : Nat} (hok : (t.remove id).1 = .ok ())
    {a : Alarm} (ha : t.alarms[n]? = some a) (hid : a.entry = id) :
    (t.act (.remove id)).Detached n := by
  obtain ⟨b, hb, _⟩ := Core.Steps.alarm (t.steps_act (.remove id)) ha
  refine ⟨⟨b, hb⟩, ?_⟩
  intro other hmem
  rcases h.agrees.remove_cases id with ⟨cause, hrefused⟩ | ⟨m, a', post, alarm, hremove⟩
  · rw [hrefused] at hok
    cases hok
  · rw [Timetable.act, hremove] at hmem
    obtain ⟨hold, hother⟩ := List.mem_filter.mp hmem
    obtain ⟨x, hx, hentry⟩ := h.agrees.alarm hold
    rw [ha] at hx
    cases hx
    rw [hid] at hentry
    simp [hentry] at hother

/-- No alarm that has a post runs. -/
def Resting (t : Timetable) : Prop :=
  ∀ p ∈ t.posts, ∀ a, t.alarms[p.2]? = some a → a.isRunning = false

theorem Resting.shutdown_eq (h : t.Resting) : t.shutdown = (0, t) :=
  stopAll_of_stopped h

theorem resting_shutdown (t : Timetable) : (t.act .shutdown).Resting := by
  obtain ⟨alarms, deeds, hshutdown, _, halarms⟩ := t.stopAll_eq t.posts
  rw [act, shutdown, hshutdown]
  intro p hp a ha
  have hmem : p.2 ∈ t.posts.map Prod.snd := List.mem_map_of_mem (f := Prod.snd) hp
  have ha' : alarms[p.2]? = some a := ha
  rw [halarms] at ha'
  obtain ⟨b, _, rfl⟩ := Option.map_eq_some_iff.mp ha'
  rw [if_pos hmem]
  exact b.isRunning_stop

/-- Without a create or an update no alarm is started. -/
theorem not_mayGive_start {act : Act} (hact : act.isDirect = false)
    (hscheduling : act.isScheduling = false) (n : Nat) : ¬ t.mayGive act (.start n) := by
  intro hgive
  cases act with
  | create task plan => cases hscheduling
  | update id plan => cases hscheduling
  | poll vigil => cases hgive
  | start alarm => cases hact
  | _ => exact hgive

theorem Resting.act (h : t.Resting) (hposted : t.Posted) {act : Act}
    (hact : act.isDirect = false) (hscheduling : act.isScheduling = false) :
    (t.act act).Resting := by
  intro p hp b hb
  have hsub : p ∈ t.posts := by
    have heffect := hposted.effect hact
    generalize t.act act = u at heffect hp
    cases heffect with
    | minor handle core posts entries fixes => exact posts ▸ hp
    | polled j moves posts roster => exact posts ▸ hp
    | created view roster journal policy same free started entries id result =>
        cases hscheduling
    | updated view post alarm replanned started result => cases hscheduling
    | removed post alarm => exact (List.mem_filter.mp hp).1
    | stopped alarms deeds deeds_cancelled stops => exact hp
  obtain ⟨a, ha, _⟩ := hposted.alarm hsub
  obtain ⟨x, hx, hidle⟩ := Core.Steps.idle (t.steps_act act)
    (not_mayGive_start hact hscheduling) ha
  have hxb : x = b := Option.some.inj (hx.symm.trans hb)
  exact hxb ▸ hidle (h p hsub a ha)

theorem Resting.run (h : t.Resting) (hagrees : t.Agrees) {acts : List Act}
    (hacts : ∀ act ∈ acts, act.isDirect = false ∧ act.isScheduling = false) :
    (t.run acts).Resting ∧
      Core.Steps (fun x => ∀ n, x ≠ .start n) t.core (t.run acts).core := by
  induction acts generalizing t with
  | nil => exact ⟨h, .refl⟩
  | cons act acts ih =>
      obtain ⟨⟨hact, hscheduling⟩, hacts⟩ := List.forall_mem_cons.mp hacts
      have hfirst : Core.Steps (fun x => ∀ n, x ≠ .start n) t.core (t.act act).core := by
        refine Core.Steps.mono ?_ (t.steps_act act)
        rintro x hx n rfl
        exact not_mayGive_start hact hscheduling n hx
      obtain ⟨hresting, hrest⟩ :=
        ih (h.act hagrees.toPosted hact hscheduling) (hagrees.act hact) hacts
      exact ⟨hresting, hfirst.trans hrest⟩

/-- Every alarm that runs has the post of its entry, be its vigil lost. -/
structure Staffed (t : Timetable) : Prop where
  post : ∀ {n : Nat} {a : Alarm}, t.alarms[n]? = some a → a.status = .running →
    (a.entry, n) ∈ t.posts

theorem staffed_opening (start : Instant) (source : IdSource) (replies : List RestartReply) :
    (opening start source replies).Staffed where
  post := by
    intro n a ha
    cases ha

/-- Moves set no alarm running. -/
theorem running_of_moves {c d : Core} (hmoves : Core.Moves i c d) {n : Nat} {b : Alarm}
    (hb : d.alarms[n]? = some b) (running : b.status = .running) :
    ∃ a, c.alarms[n]? = some a ∧ a.status = .running ∧ a.entry = b.entry := by
  induction hmoves generalizing b with
  | refl => exact ⟨b, hb, running, rfl⟩
  | tail _ hmove ih =>
      obtain ⟨_, hx, goes⟩ := hmove
      dsimp only at hb
      rw [Places.getElem?_set hx] at hb
      split at hb
      · next hn =>
          cases hb
          obtain ⟨a, ha, hrunning, hentry⟩ := ih (hn ▸ hx) (goes.leaves.2.1 running)
          exact ⟨a, ha, hrunning, hentry.trans goes.keeps.1.symm⟩
      · exact ih hb running

theorem Staffed.act (h : t.Staffed) (hposted : t.Posted) {act : Act}
    (hact : act.isDirect = false) : (t.act act).Staffed := by
  have heffect := hposted.effect hact
  generalize t.act act = u at heffect
  refine ⟨?_⟩
  intro n b hb running
  cases heffect with
  | minor handle core posts entries fixes =>
      have halarms : u.alarms = t.alarms := congrArg Core.alarms core
      rw [posts]
      exact h.post (halarms ▸ hb) running
  | polled j moves posts roster =>
      obtain ⟨a, ha, hrunning, hentry⟩ := running_of_moves moves hb running
      rw [posts, ← hentry]
      exact h.post ha hrunning
  | created view roster journal policy same free started entries id result =>
      rcases Places.getElem?_grown hb with hold | ⟨rfl, rfl⟩
      · exact List.mem_append_left _ (h.post hold running)
      · rw [(Alarm.start_keeps started).1]
        exact List.mem_append_right _ List.mem_cons_self
  | @updated id m plan a x y view post alarm replanned started result =>
      dsimp only [updated] at hb ⊢
      rw [Places.getElem?_set alarm] at hb
      split at hb
      · next hn =>
          cases hb
          obtain ⟨z, hz, hid⟩ := hposted.alarm post
          obtain rfl : z = a := Option.some.inj (hz.symm.trans alarm)
          rw [(Alarm.start_keeps started).1, (Alarm.replan_keeps replanned).1, hid, ← hn]
          exact post
      · exact h.post hb running
  | @removed id m a post alarm =>
      dsimp only [removed] at hb ⊢
      rw [Places.getElem?_set alarm] at hb
      split at hb
      · cases hb
        rw [← Alarm.isRunning_eq_true_iff, a.isRunning_stop] at running
        cases running
      · next hn =>
          have hmem := h.post hb running
          refine List.mem_filter.mpr ⟨hmem, bne_iff_ne.mpr ?_⟩
          rintro rfl
          exact hn (hposted.eq_of_post hmem post)
  | stopped alarms deeds deeds_cancelled stops =>
      dsimp only at hb ⊢
      rw [stops] at hb
      obtain ⟨a, ha, rfl⟩ := Option.map_eq_some_iff.mp hb
      split at running
      · rw [← Alarm.isRunning_eq_true_iff, a.isRunning_stop] at running
        cases running
      · next unposted =>
          exact absurd (List.mem_map_of_mem (f := Prod.snd) (h.post ha running)) unposted

theorem Staffed.run (h : t.Staffed) (hagrees : t.Agrees) {acts : List Act}
    (hacts : ∀ act ∈ acts, act.isDirect = false) : (t.run acts).Staffed := by
  induction acts generalizing t with
  | nil => exact h
  | cons act acts ih =>
      obtain ⟨hact, hacts⟩ := List.forall_mem_cons.mp hacts
      exact ih (h.act hagrees.toPosted hact) (hagrees.act hact) hacts

/-- A shutdown cancels every alarm that runs, and revokes its token. -/
theorem Staffed.cancelled_shutdown (h : t.Staffed) {n : Nat} {a : Alarm}
    (ha : t.alarms[n]? = some a) (running : a.status = .running) :
    ∃ b, (t.act .shutdown).alarms[n]? = some b ∧ b.status = .cancelled ∧
      b.isRevoked a.token = true := by
  obtain ⟨alarms, deeds, hshutdown, _, halarms⟩ := t.stopAll_eq t.posts
  have hposted : n ∈ t.posts.map Prod.snd := List.mem_map_of_mem (f := Prod.snd) (h.post ha running)
  rw [Timetable.act, shutdown, hshutdown]
  refine ⟨a.stop, ?_, ?_, ?_⟩
  · dsimp only
    rw [halarms, ha, Option.map_some, if_pos hposted]
  · rw [Alarm.stop_of_running running]
  · rw [Alarm.stop_of_running running]
    exact Alarm.isRevoked_eq_true_iff.mpr List.mem_cons_self

/-- Of an alarm nothing shows but its time. -/
theorem viewOf_congr {u : Timetable} {e : Entry}
    (h : (u.alarmOf? e.id).map Alarm.due = (t.alarmOf? e.id).map Alarm.due) :
    u.viewOf e = t.viewOf e := by
  have hview : ∀ w : Timetable, w.viewOf e =
      ((w.alarmOf? e.id).map Alarm.due).elim e.view fun due => { e.view with due } := by
    intro w
    simp only [viewOf]
    cases w.alarmOf? e.id <;> rfl
  rw [hview, hview, h]

/-- Shutting down leaves entries, posts and handles alone, and the times of all alarms. -/
theorem shutdown_keeps (t : Timetable) :
    let u := t.shutdown.2
    u.roster = t.roster ∧ u.posts = t.posts ∧ u.nextHandle = t.nextHandle ∧
      u.watchers = t.watchers ∧ u.list = t.list ∧ (∀ id, u.get id = t.get id) ∧
      ∀ n : Nat, u.alarms[n]?.map Alarm.due = t.alarms[n]?.map Alarm.due := by
  intro u
  obtain ⟨alarms, deeds, hshutdown, _, halarms⟩ := t.stopAll_eq t.posts
  have hu : u = { t with alarms, annals := deeds ++ t.annals } := hshutdown
  have hroster : u.roster = t.roster := by rw [hu]
  have hposts : u.posts = t.posts := by rw [hu]
  have hdues : ∀ n : Nat, u.alarms[n]?.map Alarm.due = t.alarms[n]?.map Alarm.due := by
    intro n
    rw [hu, halarms, Option.map_map]
    congr 1
    funext a
    dsimp only [Function.comp]
    split
    · exact a.stop_keeps.2.2.1
    · rfl
  have hview : u.viewOf = t.viewOf := by
    funext e
    apply viewOf_congr
    rw [alarmOf?, alarmOf?, post?, post?, hposts]
    cases t.posts.lookup e.id with
    | none => rfl
    | some n => exact hdues n
  have hlist : u.list = t.list := by
    simp only [list]
    rw [hroster, hview]
  have hget : ∀ id, u.get id = t.get id := by
    intro id
    simp only [get, entryOf]
    rw [hroster, hview]
  exact ⟨hroster, hposts, by rw [hu], by rw [hu], hlist, hget, hdues⟩

/-- After a remove nothing begins for the entry again, whenever the vigil was set out. -/
theorem Kept.beginnings_of_removed (h : t.Kept) {id : Nat} {later : List Act}
    (hok : (t.remove id).1 = .ok ()) (hlater : ∀ act ∈ later, act.isDirect = false) {w : Vigil}
    {a : Alarm} (hw : (t.run (.remove id :: later)).vigils[i]? = some w)
    (ha : t.alarms[w.alarm]? = some a) (hid : a.entry = id) :
    beginnings i (t.run (.remove id :: later)).annals = beginnings i t.annals := by
  have hsteps := (h.detached_remove hok ha hid).steps_run (h.agrees.act rfl) hlater
  obtain ⟨v, hv⟩ := hsteps.unstarted (fun hne => hne rfl) hw rfl
  obtain ⟨v₀, hv₀⟩ := Core.Steps.unstarted (t.steps_act (.remove id)) (fun hgive => hgive) hv rfl
  have hall : Core.Steps (fun _ => True) t.core (t.run (.remove id :: later)).core :=
    steps_run t (.remove id :: later)
  obtain ⟨x, hx, halarm, _⟩ := hall.vigil hv₀
  have hxw : x = w := Option.some.inj (hx.symm.trans hw)
  subst hxw
  exact h.quietFrom_remove hok hv₀ (halarm ▸ ha) hid later

/-- After a shutdown nothing begins as long as nothing is scheduled. -/
theorem Kept.beginnings_of_shutdown (h : t.Kept) {later : List Act}
    (hlater : ∀ act ∈ later, act.isDirect = false ∧ act.isScheduling = false) (i : Nat) :
    beginnings i (t.run (.shutdown :: later)).annals = beginnings i t.annals := by
  obtain ⟨_, hsteps⟩ := (resting_shutdown t).run (h.agrees.act rfl) hlater
  cases hw : (t.run (.shutdown :: later)).vigils[i]? with
  | none =>
      have hfirst := Core.Steps.beginnings_of_unmoved (t.steps_act .shutdown) (i := i)
        fun hgive => hgive
      exact (hsteps.beginnings_of_absent hw).trans hfirst
  | some w =>
      obtain ⟨v, hv⟩ := hsteps.unstarted (fun hne => hne _ rfl) hw rfl
      obtain ⟨v₀, hv₀⟩ :=
        Core.Steps.unstarted (t.steps_act .shutdown) (fun hgive => hgive) hv rfl
      exact h.quietFrom_shutdown hv₀ later

/-- Holds where the alarm of a vigil is one of the entry of an id. -/
def IsFor (t : Timetable) (v : Vigil) (id : Nat) : Prop :=
  ∃ a, t.alarms[v.alarm]? = some a ∧ a.entry = id

/-- In every history of requests, polls and time: once an entry is updated or removed, no vigil
that was set out for its id before begins a run any more, and once the timetable is shut down no
vigil at all that was set out before. After a remove nothing begins for the entry again. After a
shutdown nothing begins until a create or an update, another shutdown finds nothing to stop, and
entries, handles and times are as they were. -/
theorem no_stray_runs (start : Instant) (source : IdSource) (replies : List RestartReply)
    (acts : List Act) (hacts : ∀ act ∈ acts, act.isDirect = false) :
    let t := (opening start source replies).run acts
    (∀ id plan view i v, (t.update id plan).1 = .ok view → t.vigils[i]? = some v →
      t.IsFor v id → t.QuietFrom (.update id plan) i) ∧
    (∀ id i v, (t.remove id).1 = .ok () → t.vigils[i]? = some v → t.IsFor v id →
      t.QuietFrom (.remove id) i) ∧
    (∀ id later, (t.remove id).1 = .ok () → (∀ act ∈ later, act.isDirect = false) →
      let u := t.run (.remove id :: later)
      ∀ i w, u.vigils[i]? = some w → t.IsFor w id →
        beginnings i u.annals = beginnings i t.annals) ∧
    (∀ i v, t.vigils[i]? = some v → t.QuietFrom .shutdown i) ∧
    (∀ later, (∀ act ∈ later, act.isDirect = false ∧ act.isScheduling = false) →
      let u := t.run (.shutdown :: later)
      (∀ i, beginnings i u.annals = beginnings i t.annals) ∧ u.shutdown = (0, u)) ∧
    let u := t.shutdown.2
    u.roster = t.roster ∧ u.posts = t.posts ∧ u.nextHandle = t.nextHandle ∧
      u.watchers = t.watchers ∧ u.list = t.list ∧ (∀ id, u.get id = t.get id) ∧
      ∀ n : Nat, u.alarms[n]?.map Alarm.due = t.alarms[n]?.map Alarm.due := by
  intro t
  have hkept : t.Kept := (kept_opening start source replies).run hacts
  refine ⟨?_, ?_, ?_, ?_, ?_, t.shutdown_keeps⟩
  · rintro id plan view i v hok hv ⟨a, ha, hid⟩
    exact hkept.quietFrom_update hok hv ha hid
  · rintro id i v hok hv ⟨a, ha, hid⟩
    exact hkept.quietFrom_remove hok hv ha hid
  · rintro id later hok hlater u i w hw ⟨a, ha, hid⟩
    exact hkept.beginnings_of_removed hok hlater hw ha hid
  · intro i v hv
    exact hkept.quietFrom_shutdown hv
  · intro later hlater u
    obtain ⟨hresting, _⟩ := (resting_shutdown t).run (hkept.agrees.act rfl) hlater
    exact ⟨hkept.beginnings_of_shutdown hlater, hresting.shutdown_eq⟩

/-- A vigil that is due, but was not looked at before its entry was removed. -/
theorem no_stray_runs_of_due :
    let t := (opening .epoch {} []).run [.create (.pause .zero) .once]
    (∃ v, t.vigils[0]? = some v ∧ t.timerFor .epoch ≤ t.elapsed) ∧
      (t.remove 1001).1 = .ok () ∧ t.QuietFrom (.remove 1001) 0 := by
  intro t
  let vigil : Vigil := { alarm := 0, token := 0, generation := 1, since := 0 }
  have hvigil : t.vigils[0]? = some vigil := by decide +kernel
  have hremove : (t.remove 1001).1 = .ok () := by rfl
  have hfor : t.IsFor vigil 1001 := ⟨_, rfl, rfl⟩
  obtain ⟨_, hquiet, _⟩ :=
    no_stray_runs .epoch {} [] [.create (.pause .zero) .once] (by simp [Act.isDirect])
  exact ⟨⟨vigil, hvigil, by decide +kernel⟩, hremove, hquiet 1001 0 vigil hremove hvigil hfor⟩

end Timetable

end Almanac
