import Almanac.Proofs.Incidents

/-!
# What every incident keeps

An id has at most one post, every entry has one, and no live vigil is without, whatever is struck
out of the roster.
-/

namespace Almanac

namespace Timetable

variable {t u : Timetable} {x : Incident} {id n m : Nat} {a b : Alarm}

namespace Upshot

/-- Only a new alarm gets a post. -/
theorem posts (h : t.Upshot x u) (hmem : (id, m) ∈ u.posts) :
    (id, m) ∈ t.posts ∨ m = t.alarms.length := by
  cases h with
  | whole outcome keys => exact outcome.effect.posts hmem
  | dismissed request post orphan alarm => exact Or.inl (List.mem_filter.mp hmem).1
  | replaced source journal view id same handle free started post alarm result =>
      rcases List.mem_append.mp hmem with hold | hnew
      · exact Or.inl (List.mem_filter.mp hold).1
      · exact Or.inr (Prod.mk.inj (List.mem_singleton.mp hnew)).2
  | spared id => exact Or.inl hmem
  | struck id => exact Or.inl hmem

/-- An alarm that is new was set up by a create, for the entry and the task of that. -/
theorem new_alarm (h : t.Upshot x u) (hb : u.alarms[m]? = some b) (hnew : t.alarms.length ≤ m) :
    ∃ task plan view, x = .act (.create task plan) ∧ (t.create task plan).1 = .ok view ∧
      m = t.alarms.length ∧ b.entry = view.id ∧ b.task = task := by
  have hold : ∀ {y : Alarm}, t.alarms[m]? = some y → False := by
    intro y hy
    exact absurd (Places.lt_of_getElem? hy) (Nat.not_lt.mpr hnew)
  have hset : ∀ {n : Nat} {y : Alarm}, (t.alarms.set n y)[m]? = some b → False := by
    intro n y hy
    have hlt := Places.lt_of_getElem? hy
    rw [List.length_set] at hlt
    exact absurd hlt (Nat.not_lt.mpr hnew)
  have hsame : u.core = t.core → False := by
    intro core
    have halarms : u.alarms = t.alarms := congrArg Core.alarms core
    exact hold (halarms ▸ hb)
  have hlast : ∀ {alarms : List Alarm} {y : Alarm}, alarms.length = t.alarms.length →
      (alarms ++ [y])[m]? = some b → m = t.alarms.length ∧ b = y := by
    intro alarms y hlength hy
    rcases Places.getElem?_grown hy with hbefore | ⟨hm, hby⟩
    · have hlt := Places.lt_of_getElem? hbefore
      omega
    · exact ⟨hm.trans hlength, hby⟩
  cases h with
  | whole outcome keys =>
      cases outcome with
      | idle core ledger failed => exact (hsame core).elim
      | broken core ledger cause entries spoiled failed => exact (hsame core).elim
      | polled i moves ledger =>
          obtain ⟨y, hy, _⟩ := Core.Moves.isRevoked moves hb
          exact (hold hy).elim
      | watched watcher waiting vigil closed core ledger => exact (hsame core).elim
      | created journal policy same handle sound drawn started result =>
          obtain ⟨hm, rfl⟩ := hlast rfl hb
          obtain ⟨hentry, htask, _⟩ := Alarm.start_keeps started
          exact ⟨_, _, _, rfl, result, hm, hentry.trans (viewOf_id _ _).symm, htask.trans same⟩
      | updated post found alarm replanned started result => exact (hset hb).elim
      | removed post alarm result => exact (hset hb).elim
      | stopped alarms deeds deeds_cancelled stops =>
          have hb : alarms[m]? = some b := hb
          rw [stops] at hb
          obtain ⟨y, hy, _⟩ := Option.map_eq_some_iff.mp hb
          exact (hold hy).elim
  | dismissed request post orphan alarm => exact (hset hb).elim
  | replaced source journal view id same handle free started post alarm result =>
      obtain ⟨hm, rfl⟩ := hlast (List.length_set ..) hb
      obtain ⟨hentry, htask, _⟩ := Alarm.start_keeps started
      exact ⟨_, _, view, rfl, result, hm, hentry.trans id.symm, htask.trans same⟩
  | spared id => exact (hold hb).elim
  | struck id => exact (hold hb).elim

/-- The watchers that there are stay as they came, and one that is new has the next handle. -/
theorem watchers (h : t.Upshot x u) :
    (u.watchers.map watcherGrant = t.watchers.map watcherGrant ∧ u.nextHandle = t.nextHandle) ∨
      ∃ w, u.watchers = t.watchers ++ [w] ∧ w.handle = t.nextHandle ∧
        u.nextHandle = t.nextHandle + 1 := by
  have hsame : ∀ {l : Ledger}, u.ledger = l → l.watchers = t.watchers →
      l.nextHandle = t.nextHandle →
      u.watchers.map watcherGrant = t.watchers.map watcherGrant ∧ u.nextHandle = t.nextHandle := by
    rintro l rfl hwatchers hnext
    exact ⟨congrArg _ hwatchers, hnext⟩
  cases h with
  | whole outcome keys =>
      cases outcome with
      | idle core ledger failed => exact Or.inl (hsame ledger rfl rfl)
      | broken core ledger cause entries spoiled failed => exact Or.inl (hsame ledger rfl rfl)
      | polled i moves ledger => exact Or.inl (hsame ledger rfl rfl)
      | watched watcher waiting vigil closed core ledger =>
          have hwatchers : u.watchers = _ := congrArg Ledger.watchers ledger
          exact Or.inl ⟨hwatchers ▸ map_set_done rfl watcher, congrArg Ledger.nextHandle ledger⟩
      | created journal policy same handle sound drawn started result =>
          exact Or.inr ⟨_, rfl, rfl, rfl⟩
      | updated post found alarm replanned started result => exact Or.inr ⟨_, rfl, rfl, rfl⟩
      | removed post alarm result => exact Or.inl ⟨rfl, rfl⟩
      | stopped alarms deeds deeds_cancelled stops => exact Or.inl ⟨rfl, rfl⟩
  | dismissed request post orphan alarm => exact Or.inl ⟨rfl, rfl⟩
  | replaced source journal view id same handle free started post alarm result =>
      exact Or.inr ⟨_, rfl, rfl, rfl⟩
  | spared id => exact Or.inl ⟨rfl, rfl⟩
  | struck id => exact Or.inl ⟨rfl, rfl⟩

theorem nextHandle_le (h : t.Upshot x u) : t.nextHandle ≤ u.nextHandle := by
  rcases h.watchers with ⟨_, hnext⟩ | ⟨w, _, _, hnext⟩
  · exact Nat.le_of_eq hnext.symm
  · exact Nat.le_of_lt (hnext ▸ Nat.lt_succ_self _)

/-- Watchers keep their places, and what they came with. -/
theorem watcher {k : Nat} {w : Watcher} (h : t.Upshot x u) (hw : t.watchers[k]? = some w) :
    ∃ y, u.watchers[k]? = some y ∧ y.entry = w.entry ∧ y.handle = w.handle := by
  rcases h.watchers with ⟨hsame, _⟩ | ⟨y, hgrown, _⟩
  · have hgrant : (u.watchers.map watcherGrant)[k]? = some (watcherGrant w) := by
      rw [hsame, List.getElem?_map, hw]
      rfl
    rw [List.getElem?_map] at hgrant
    obtain ⟨y, hy, hyw⟩ := Option.map_eq_some_iff.mp hgrant
    obtain ⟨hentry, hhandle, _⟩ := Grant.mk.inj hyw
    exact ⟨y, hy, hentry, Option.some.inj hhandle⟩
  · rw [hgrown]
    exact ⟨w, Places.getElem?_append hw _, rfl, rfl⟩

theorem minted (h : t.Upshot x u) (hminted : ∀ w ∈ t.watchers, w.handle < t.nextHandle) :
    ∀ w ∈ u.watchers, w.handle < u.nextHandle := by
  intro w hw
  rcases h.watchers with ⟨hsame, hnext⟩ | ⟨y, hgrown, hhandle, hnext⟩
  · have hmem := List.mem_map_of_mem (f := watcherGrant) hw
    rw [hsame] at hmem
    obtain ⟨y, hy, hyw⟩ := List.mem_map.mp hmem
    rw [← Option.some.inj (Grant.mk.inj hyw).2.1, hnext]
    exact hminted y hy
  · rw [hgrown] at hw
    rcases List.mem_append.mp hw with hold | hnew
    · have hlt := hminted w hold
      omega
    · rw [List.mem_singleton.mp hnew]
      omega

/-- An entry that an incident leaves was there before, and has no other handle now, or it has the
next handle. -/
theorem entry {e : Entry} (h : t.Upshot x u) (he : e ∈ u.roster.entries) :
    (∃ y ∈ t.roster.entries, y.id = e.id ∧ (e.handle = y.handle ∨ e.handle = none)) ∨
      e.handle = some t.nextHandle := by
  have hkept : ∀ {r : Roster}, u.roster = r → r.entries = t.roster.entries →
      ∃ y ∈ t.roster.entries, y.id = e.id ∧ (e.handle = y.handle ∨ e.handle = none) := by
    rintro r rfl hentries
    exact ⟨e, hentries ▸ he, rfl, .inl rfl⟩
  cases h with
  | whole outcome keys =>
      cases outcome with
      | idle core ledger failed => exact .inl (hkept (congrArg Ledger.roster ledger) rfl)
      | broken core ledger cause entries spoiled failed =>
          exact .inl (hkept (congrArg Ledger.roster ledger) entries)
      | polled i moves ledger => exact .inl (hkept (congrArg Ledger.roster ledger) rfl)
      | @watched _ j w v watcher waiting vigil closed core ledger =>
          have hroster : u.roster = _ := congrArg Ledger.roster ledger
          dsimp only at hroster
          split at hroster
          · rw [hroster] at he
            exact .inl (Roster.handle_of_mem_released he)
          · exact .inl (hkept hroster rfl)
      | created journal policy same handle sound drawn started result =>
          rcases List.mem_append.mp he with hold | hnew
          · exact .inl ⟨e, hold, rfl, .inl rfl⟩
          · exact .inr ((List.mem_singleton.mp hnew) ▸ handle)
      | @updated id n plan y a z b post found alarm replanned started result =>
          obtain ⟨o, ho, hoe⟩ := Roster.mem_entries_modify.mp he
          split at hoe
          · subst hoe
            exact .inr rfl
          · subst hoe
            exact .inl ⟨o, ho, rfl, .inl rfl⟩
      | removed post alarm result => exact .inl ⟨e, (List.mem_filter.mp he).1, rfl, .inl rfl⟩
      | stopped alarms deeds deeds_cancelled stops => exact .inl ⟨e, he, rfl, .inl rfl⟩
  | dismissed request post orphan alarm => exact .inl ⟨e, he, rfl, .inl rfl⟩
  | replaced source journal view id same handle free started post alarm result =>
      rcases List.mem_append.mp he with hold | hnew
      · exact .inl ⟨e, hold, rfl, .inl rfl⟩
      · exact .inr ((List.mem_singleton.mp hnew) ▸ handle)
  | spared id => exact .inl ⟨e, he, rfl, .inl rfl⟩
  | struck id => exact .inl ⟨e, (List.mem_filter.mp he).1, rfl, .inl rfl⟩

end Upshot

/-- An act that has its whole effect leaves no two entries with one id, and none without a post. -/
theorem Effect.ids {act : Act} (h : t.Effect act u) (hnodup : t.roster.ids.Nodup)
    (hposted : ∀ id ∈ t.roster.ids, id ∈ t.posts.map Prod.fst) :
    u.roster.ids.Nodup ∧ ∀ id ∈ u.roster.ids, id ∈ u.posts.map Prod.fst := by
  have hsame : u.roster.ids = t.roster.ids → u.posts = t.posts →
      u.roster.ids.Nodup ∧ ∀ id ∈ u.roster.ids, id ∈ u.posts.map Prod.fst := by
    intro hids hposts
    rw [hids, hposts]
    exact ⟨hnodup, hposted⟩
  cases h with
  | minor handle core posts entries fixes =>
      refine hsame ?_ posts
      simp [Roster.ids, entries]
  | polled j moves posts roster => exact hsame (congrArg Roster.ids roster) posts
  | @created task plan e b view roster journal policy same free started entries id result =>
      have hids : roster.ids = t.roster.ids ++ [e.id] := by
        simp [Roster.ids, entries]
      change roster.ids.Nodup ∧ ∀ id ∈ roster.ids,
        id ∈ (t.posts ++ [(e.id, t.alarms.length)]).map Prod.fst
      rw [hids, List.map_append]
      refine ⟨Roster.nodup_append_of_free hnodup free, ?_⟩
      intro id hid
      rcases List.mem_append.mp hid with hold | hnew
      · exact List.mem_append_left _ (hposted id hold)
      · exact List.mem_append_right _ hnew
  | updated view post alarm replanned started result =>
      exact hsame (Roster.ids_modify _ _ fun _ => rfl) rfl
  | @removed id n a post alarm =>
      have hids : (t.removed id n a).roster.ids = t.roster.ids.filter fun i => i != id := by
        simp only [Roster.ids, List.filter_map]
        rfl
      rw [hids]
      refine ⟨hnodup.filter _, ?_⟩
      intro other hother
      obtain ⟨hmem, hne⟩ := List.mem_filter.mp hother
      obtain ⟨p, hp, rfl⟩ := List.mem_map.mp (hposted other hmem)
      exact List.mem_map_of_mem (List.mem_filter.mpr ⟨hp, hne⟩)
  | stopped alarms deeds deeds_cancelled stops => exact hsame rfl rfl

namespace Guarded

/-- Whoever has another id keeps its post when that of an orphan is taken away. -/
theorem mem_keys_of_ne (h : t.Guarded) {other : Nat} (hid : other ∈ t.roster.ids)
    (hne : other ≠ id) : other ∈ (t.posts.filter fun p => p.1 != id).map Prod.fst := by
  obtain ⟨p, hp, rfl⟩ := List.mem_map.mp (h.posted other hid)
  exact List.mem_map_of_mem (List.mem_filter.mpr ⟨hp, bne_iff_ne.mpr hne⟩)

/-- An id whose post is given to another alarm still has one post. -/
theorem nodup_keys_reassigned (h : t.Guarded) (id n : Nat) :
    (((t.posts.filter fun p => p.1 != id) ++ [(id, n)]).map Prod.fst).Nodup := by
  rw [List.map_append, List.nodup_append]
  refine ⟨h.keys.sublist (List.filter_sublist.map _), List.nodup_singleton _, ?_⟩
  intro key hkey other hother
  obtain ⟨p, hp, rfl⟩ := List.mem_map.mp hkey
  rw [List.mem_singleton.mp hother]
  exact bne_iff_ne.mp (List.mem_filter.mp hp).2

theorem mem_keys_reassigned (h : t.Guarded) {other n : Nat}
    (hid : other ∈ t.roster.ids ∨ other = id) :
    other ∈ ((t.posts.filter fun p => p.1 != id) ++ [(id, n)]).map Prod.fst := by
  rw [List.map_append]
  by_cases hone : other = id
  · exact List.mem_append_right _ (List.mem_singleton.mpr hone)
  · exact List.mem_append_left _ (h.mem_keys_of_ne (hid.resolve_right hone) hone)

/-- The alarm of a post stays one for its id. -/
theorem alarm_of_steps (h : t.Guarded) {may : Core.Impulse → Prop}
    (hsteps : Core.Steps may t.core u.core) (hmem : (id, n) ∈ t.posts) :
    ∃ a, u.alarms[n]? = some a ∧ a.entry = id := by
  obtain ⟨a, ha, hid⟩ := h.alarm hmem
  obtain ⟨b, hb, hbecomes⟩ := Core.Steps.alarm (c := t.core) hsteps ha
  exact ⟨b, hb, hbecomes.entry.trans hid⟩

theorem of_whole (h : t.Guarded) {act : Act} (hsteps : Core.Steps (t.mayGive act) t.core u.core)
    (heffect : t.Effect act u) (keys : (u.posts.map Prod.fst).Nodup)
    (hminted : ∀ w ∈ u.watchers, w.handle < u.nextHandle) : u.Guarded := by
  obtain ⟨hids, hposted⟩ := heffect.ids h.ids h.posted
  refine ⟨⟨h.toCovered.attached hsteps heffect, keys, ?_, h.sound.steps hsteps⟩, hids, hposted,
    hminted⟩
  intro id n hmem
  cases heffect with
  | minor handle core posts entries fixes => exact h.alarm_of_steps hsteps (posts ▸ hmem)
  | polled j moves posts roster => exact h.alarm_of_steps hsteps (posts ▸ hmem)
  | created view roster journal policy same free started entries id result =>
      rcases List.mem_append.mp hmem with hold | hnew
      · exact h.alarm_of_steps hsteps hold
      · cases List.mem_singleton.mp hnew
        exact ⟨_, Places.getElem?_last _ _, (Alarm.start_keeps started).1⟩
  | updated view post alarm replanned started result => exact h.alarm_of_steps hsteps hmem
  | removed post alarm => exact h.alarm_of_steps hsteps (List.mem_filter.mp hmem).1
  | stopped alarms deeds deeds_cancelled stops => exact h.alarm_of_steps hsteps hmem

theorem of_dismissed (h : t.Guarded) {may : Core.Impulse → Prop}
    (hsteps : Core.Steps may t.core (t.dismissed id n a).core) (post : (id, n) ∈ t.posts)
    (orphan : id ∉ t.roster.ids) (alarm : t.alarms[n]? = some a) :
    (t.dismissed id n a).Guarded := by
  have hattached : (t.dismissed id n a).Attached := by
    refine ⟨?_⟩
    intro i w b hw live hb
    obtain ⟨hmem, hother⟩ := h.post_of_live_of_stop hsteps post alarm
      (Places.getElem?_set_self alarm _) hw hw live hb
    exact List.mem_filter.mpr ⟨hmem, bne_iff_ne.mpr hother⟩
  refine ⟨⟨hattached, h.keys.sublist (List.filter_sublist.map _), ?_, h.sound.steps hsteps⟩, h.ids,
    ?_, h.minted⟩
  · intro other m hmem
    exact h.alarm_of_steps hsteps (List.mem_filter.mp hmem).1
  · intro other hother
    refine h.mem_keys_of_ne hother ?_
    rintro rfl
    exact orphan hother

theorem of_replaced (h : t.Guarded) {may : Core.Impulse → Prop} {e : Entry} {source : IdSource}
    {journal : List Happening}
    (hsteps : Core.Steps may t.core
      (t.replaced e b ⟨t.roster.entries ++ [e], source, false⟩ journal m a).core)
    (free : e.id ∉ t.roster.ids) (started : (Alarm.ofEntry e).start = .ok b)
    (post : (e.id, m) ∈ t.posts) (alarm : t.alarms[m]? = some a)
    (hminted : ∀ w ∈ (t.replaced e b ⟨t.roster.entries ++ [e], source, false⟩ journal m a).watchers,
      w.handle < t.nextHandle + 1) :
    (t.replaced e b ⟨t.roster.entries ++ [e], source, false⟩ journal m a).Guarded := by
  have hnew := t.alarm_replaced_new e b ⟨t.roster.entries ++ [e], source, false⟩ journal m a
  have hold := alarm_replaced_old alarm e b ⟨t.roster.entries ++ [e], source, false⟩ journal
  have hentry : b.entry = e.id := (Alarm.start_keeps started).1
  refine ⟨⟨⟨?_⟩, h.nodup_keys_reassigned e.id _, ?_, h.sound.steps hsteps⟩, ?_, ?_, hminted⟩
  · intro i w y hw live hy
    rcases Places.getElem?_grown hw with hbefore | ⟨_, rfl⟩
    · obtain ⟨hmem, hother⟩ := h.post_of_live_of_stop hsteps post alarm hold hbefore hw live hy
      exact List.mem_append_left _ (List.mem_filter.mpr ⟨hmem, bne_iff_ne.mpr hother⟩)
    · have hyb : y = b := Option.some.inj (hy.symm.trans hnew)
      rw [hyb, hentry]
      exact List.mem_append_right _ List.mem_cons_self
  · intro id n hmem
    rcases List.mem_append.mp hmem with hbefore | hadded
    · exact h.alarm_of_steps hsteps (List.mem_filter.mp hbefore).1
    · cases List.mem_singleton.mp hadded
      exact ⟨b, hnew, hentry⟩
  · change (t.roster.entries ++ [e]).map Entry.id |>.Nodup
    rw [List.map_append]
    exact Roster.nodup_append_of_free h.ids free
  · intro other hother
    change other ∈ (t.roster.entries ++ [e]).map Entry.id at hother
    rw [List.map_append] at hother
    exact h.mem_keys_reassigned
      ((List.mem_append.mp hother).imp_right fun hadded => List.mem_singleton.mp hadded)

theorem of_struck (h : t.Guarded) (id : Nat) : (t.struck id).Guarded := by
  refine ⟨⟨⟨fun hv live ha => h.post hv live ha⟩, h.keys, h.alarm, h.sound⟩, ?_, ?_, h.minted⟩
  · exact h.ids.sublist (List.filter_sublist.map _)
  · intro other hother
    obtain ⟨e, he, rfl⟩ := List.mem_map.mp hother
    exact h.posted _ (List.mem_map_of_mem (List.mem_filter.mp he).1)

theorem of_upshot (h : t.Guarded) (hsteps : Core.Steps (t.mayBring x) t.core u.core)
    (hup : t.Upshot x u) : u.Guarded := by
  have hminted := hup.minted h.minted
  cases hup with
  | whole outcome keys => exact h.of_whole hsteps outcome.effect keys hminted
  | dismissed request post orphan alarm => exact h.of_dismissed hsteps post orphan alarm
  | replaced source journal view id same handle free started post alarm result =>
      exact h.of_replaced hsteps free started post alarm hminted
  | spared id => exact h
  | struck id => exact h.of_struck id

theorem undergo (h : t.Guarded) (hx : x.isDirect = false) : (t.undergo x).Guarded :=
  h.of_upshot (t.steps_undergo x) (h.upshot hx)

theorem endure (h : t.Guarded) {incidents : List Incident}
    (hincidents : ∀ x ∈ incidents, x.isDirect = false) : (t.endure incidents).Guarded := by
  induction incidents generalizing t with
  | nil => exact h
  | cons x incidents ih =>
      obtain ⟨hx, hincidents⟩ := List.forall_mem_cons.mp hincidents
      exact ih (h.undergo hx) hincidents

end Guarded

theorem guarded_opening (start : Instant) (source : IdSource) (replies : List RestartReply) :
    (opening start source replies).Guarded where
  toCovered := (kept_opening start source replies).covered
  ids := List.nodup_nil
  posted := by
    intro id hid
    cases hid
  minted := by
    intro w hw
    cases hw

end Timetable

end Almanac
