import Almanac.Proofs.Beginners

/-!
# Elders

The elders of a timetable are the alarms and the vigils that it has. Newcomers do not matter to
them: whatever else is set up, changed and taken out later, the elders go on as they would have
without it, as long as nobody asks for a change of one of their own entries, and no newcomer moves
the clock or is of a troupe of theirs. So any two histories that hold the same for the elders leave
the same of them (`Timetable.alike_run`).
-/

namespace Almanac

namespace Timetable

variable {s t u w : Timetable} {i n id : Nat} {v : Vigil} {a : Alarm}

/-- The act does nothing to the elders of `s` that time and polls would not do: it adds no task that
moves the clock or is of a troupe of theirs, and it asks for no change of their entries. -/
def Spares (s : Timetable) : Act → Prop
  | .create task _ => task.LeavesClock ∧ ∀ b ∈ s.alarms, b.task.IsApart task
  | .update id _ => id ∉ s.roster.ids
  | .remove id => id ∉ s.roster.ids
  | act => act.isDirect = false

/-- Holds of the acts that the elders of `s` notice. -/
def concerns (s : Timetable) : Act → Bool
  | .pass _ => true
  | .shiftClock _ => true
  | .poll i => i < s.vigils.length
  | .shutdown => true
  | _ => false

theorem Spares.not_isDirect {act : Act} (h : s.Spares act) : act.isDirect = false := by
  cases act <;> first | rfl | exact h

/-- The elders of `s` are the same in two timetables, at one moment: their alarms, whether these
have posts, their vigils, when these have begun runs, and how many runs their troupes have begun. -/
structure Alike (s t u : Timetable) : Prop where
  moment : t.moment = u.moment
  alarms : ∀ n < s.alarms.length, t.alarms[n]? = u.alarms[n]?
  posted : ∀ n < s.alarms.length, n ∈ t.posts.map Prod.snd ↔ n ∈ u.posts.map Prod.snd
  vigils : ∀ i < s.vigils.length, t.vigils[i]? = u.vigils[i]?
  beginnings : ∀ i < s.vigils.length, beginnings i t.annals = beginnings i u.annals
  runs : ∀ b ∈ s.alarms, ∀ r, b.task = .rehearse r → t.runsOf r.troupe = u.runsOf r.troupe

namespace Alike

theorem refl (s t : Timetable) : s.Alike t t :=
  ⟨rfl, fun _ _ => rfl, fun _ _ => .rfl, fun _ _ => rfl, fun _ _ => rfl, fun _ _ _ _ => rfl⟩

theorem symm (h : s.Alike t u) : s.Alike u t where
  moment := h.moment.symm
  alarms n hn := (h.alarms n hn).symm
  posted n hn := (h.posted n hn).symm
  vigils i hi := (h.vigils i hi).symm
  beginnings i hi := (h.beginnings i hi).symm
  runs b hb r hr := (h.runs b hb r hr).symm

theorem trans (h : s.Alike t u) (h' : s.Alike u w) : s.Alike t w where
  moment := h.moment.trans h'.moment
  alarms n hn := (h.alarms n hn).trans (h'.alarms n hn)
  posted n hn := (h.posted n hn).trans (h'.posted n hn)
  vigils i hi := (h.vigils i hi).trans (h'.vigils i hi)
  beginnings i hi := (h.beginnings i hi).trans (h'.beginnings i hi)
  runs b hb r hr := (h.runs b hb r hr).trans (h'.runs b hb r hr)

/-- Roster, handles, watchers, journal and the replies of the build service are not looked at. -/
theorem of_same (s : Timetable) (moment : t.moment = u.moment) (core : t.core = u.core)
    (posts : t.posts = u.posts) (runs : t.runs = u.runs) : s.Alike t u := by
  obtain ⟨_, _, _, _, alarms, _, _, vigils, _, _, _, _, annals⟩ := t
  cases core
  cases posts
  cases runs
  exact ⟨moment, fun _ _ => rfl, fun _ _ => .rfl, fun _ _ => rfl, fun _ _ => rfl,
    fun _ _ _ _ => rfl⟩

end Alike

/-- What has become of `s` by acts that spare its elders: posts of elders are those of entries
of `s`, vigils of elders are elders, and no newcomer moves the clock or is of a troupe of elders. -/
structure GrownFrom (t s : Timetable) : Prop where
  agrees : t.Agrees
  steps : Core.Steps (fun _ => True) s.core t.core
  posts : ∀ {id n : Nat}, (id, n) ∈ t.posts → n < s.alarms.length → id ∈ s.roster.ids
  vigils : ∀ {i : Nat} {v : Vigil}, t.vigils[i]? = some v → s.vigils.length ≤ i →
    s.alarms.length ≤ v.alarm
  turns : ∀ {i timer : Nat} {v : Vigil} {turn : Turn}, t.vigils[i]? = some v →
    s.vigils.length ≤ i → v.phase = .running timer turn → turn.skew = 0
  tasks : ∀ {n : Nat} {a : Alarm}, t.alarms[n]? = some a → s.alarms.length ≤ n →
    a.task.LeavesClock ∧ ∀ b ∈ s.alarms, b.task.IsApart a.task

namespace GrownFrom

theorem refl (h : t.Agrees) : t.GrownFrom t where
  agrees := h
  steps := .refl
  posts hpost _ := h.mem_ids hpost
  vigils hv hi := absurd (Places.lt_of_getElem? hv) (Nat.not_lt.mpr hi)
  turns hv hi _ := absurd (Places.lt_of_getElem? hv) (Nat.not_lt.mpr hi)
  tasks ha hn := absurd (Places.lt_of_getElem? ha) (Nat.not_lt.mpr hn)

/-- The source of ids does not matter. -/
theorem withSource (h : t.GrownFrom s) (source : IdSource) (isSpoiled : Bool)
    (journal : List Happening) :
    { t with roster := ⟨t.roster.entries, source, isSpoiled⟩, journal }.GrownFrom s where
  agrees := h.agrees.congr rfl rfl rfl
  steps := h.steps
  posts := h.posts
  vigils := h.vigils
  turns := h.turns
  tasks := h.tasks

theorem alarms_le (h : t.GrownFrom s) : s.alarms.length ≤ t.alarms.length := by
  by_contra hlt
  have hlt := Nat.not_le.mp hlt
  obtain ⟨b, hb, _⟩ := h.steps.alarm (List.getElem?_eq_getElem hlt)
  exact Nat.lt_irrefl _ (Places.lt_of_getElem? hb)

theorem vigils_le (h : t.GrownFrom s) : s.vigils.length ≤ t.vigils.length := by
  by_contra hlt
  have hlt := Nat.not_le.mp hlt
  obtain ⟨w, hw, _⟩ := h.steps.vigil (List.getElem?_eq_getElem hlt)
  exact Nat.lt_irrefl _ (Places.lt_of_getElem? hw)

/-- The alarm of an elder is one. -/
theorem alarm_lt (h : t.GrownFrom s) (hsound : s.core.Sound) (hv : t.vigils[i]? = some v)
    (hi : i < s.vigils.length) : v.alarm < s.alarms.length := by
  obtain ⟨w, hw, halarm, _⟩ := h.steps.vigil (List.getElem?_eq_getElem hi)
  obtain ⟨b, hb, _⟩ := hsound.vigils (List.getElem?_eq_getElem hi)
  obtain rfl : w = v := Option.some.inj (hw.symm.trans hv)
  exact halarm ▸ Places.lt_of_getElem? hb

/-- An elder is still of its task. -/
theorem exists_task (h : t.GrownFrom s) (ha : t.alarms[n]? = some a) (hn : n < s.alarms.length) :
    ∃ b ∈ s.alarms, a.task = b.task := by
  obtain ⟨x, hx, hbecomes⟩ := h.steps.alarm (List.getElem?_eq_getElem hn)
  obtain rfl : x = a := Option.some.inj (hx.symm.trans ha)
  exact ⟨_, List.getElem_mem hn, hbecomes.task⟩

/-- The entry of a newcomer is not that of an elder. -/
theorem le_of_post (h : t.GrownFrom s) (hpost : (id, n) ∈ t.posts) (hid : id ∉ s.roster.ids) :
    s.alarms.length ≤ n := by
  by_contra hlt
  exact hid (h.posts hpost (Nat.not_le.mp hlt))

/-- What does not poll keeps the vigils, and sets out new ones for newcomers. -/
theorem keep (h : t.GrownFrom s) (agrees : u.Agrees)
    (steps : Core.Steps (fun _ => True) t.core u.core)
    (posts : ∀ {id n : Nat}, (id, n) ∈ u.posts → (id, n) ∈ t.posts ∨ s.alarms.length ≤ n)
    (vigils : ∀ {i : Nat} {v : Vigil}, u.vigils[i]? = some v → s.vigils.length ≤ i →
      t.vigils[i]? = some v ∨ v.phase = .setOut ∧ s.alarms.length ≤ v.alarm)
    (tasks : ∀ {n : Nat} {a : Alarm}, u.alarms[n]? = some a → t.alarms.length ≤ n →
      a.task.LeavesClock ∧ ∀ b ∈ s.alarms, b.task.IsApart a.task) : u.GrownFrom s where
  agrees := agrees
  steps := h.steps.trans steps
  posts := by
    intro id n hpost hn
    rcases posts hpost with hold | hnew
    · exact h.posts hold hn
    · exact absurd hn (Nat.not_lt.mpr hnew)
  vigils := by
    intro i v hv hi
    rcases vigils hv hi with hold | ⟨_, hnew⟩
    · exact h.vigils hold hi
    · exact hnew
  turns := by
    intro i timer v turn hv hi running
    rcases vigils hv hi with hold | ⟨hphase, _⟩
    · exact h.turns hold hi running
    · rw [hphase] at running
      cases running
  tasks := by
    intro n a ha hn
    rcases Nat.lt_or_ge n t.alarms.length with hold | hnew
    · obtain ⟨b, hb, hbecomes⟩ := steps.alarm (List.getElem?_eq_getElem hold)
      obtain rfl : b = a := Option.some.inj (hb.symm.trans ha)
      rw [hbecomes.task]
      exact h.tasks (List.getElem?_eq_getElem hold) hn
    · exact tasks ha hnew

/-- The tasks of newcomers move no clock and are of no troupe of elders, whoever polls. -/
theorem poll (h : t.GrownFrom s) (i : Nat) : (t.poll i).GrownFrom s := by
  have hservice : (Act.poll i).isDirect = false := rfl
  have hagrees : (t.poll i).Agrees := h.agrees.act hservice
  have hsteps : Core.Steps (fun _ => True) t.core (t.poll i).core :=
    (t.moves_poll i).steps trivial
  rcases t.poll_cases i with hsame | ⟨v, a, hv, ha⟩
  · rw [hsame]
    exact h
  · have hcore := core_poll hv ha
    have halarms : (t.poll i).alarms = _ := congrArg Core.alarms hcore
    have hvigils : (t.poll i).vigils = _ := congrArg Core.vigils hcore
    refine ⟨hagrees, h.steps.trans hsteps, ?_, ?_, ?_, ?_⟩
    · intro id n hpost
      have hposts : (t.poll i).posts = t.posts := congrArg Ledger.posts (t.ledger_poll i)
      exact h.posts (hposts ▸ hpost)
    · intro j w hw hj
      rw [hvigils] at hw
      dsimp only [Core.follow, core] at hw
      rw [Places.getElem?_set hv] at hw
      split at hw
      · next hij =>
          cases hw
          have hle := h.vigils hv (hij ▸ hj)
          exact hle
      · exact h.vigils hw hj
    · intro j timer w turn hw hj running
      rw [hvigils] at hw
      dsimp only [Core.follow, core] at hw
      rw [Places.getElem?_set hv] at hw
      split at hw
      · next hij =>
          cases hw
          rcases Vigil.running_of_passage running with hbefore | rfl
          · exact h.turns hv (hij ▸ hj) hbefore
          · exact (h.tasks ha (h.vigils hv (hij ▸ hj))).1 t
      · exact h.turns hw hj running
    · intro n b hb hn
      rw [halarms] at hb
      dsimp only [Core.follow, core] at hb
      rw [Places.getElem?_set ha] at hb
      split at hb
      · next hone =>
          cases hb
          have htask := h.tasks ha (hone ▸ hn)
          exact htask
      · exact h.tasks hb hn

theorem act (h : t.GrownFrom s) {act : Act} (hact : s.Spares act) : (t.act act).GrownFrom s := by
  have hagrees : (t.act act).Agrees := h.agrees.act hact.not_isDirect
  have hsteps : Core.Steps (fun _ => True) t.core (t.act act).core :=
    (t.steps_act act).mono fun _ _ => trivial
  have heffect := h.agrees.toPosted.effect hact.not_isDirect
  -- where there is no new alarm there is nothing to say of its task
  have hold : ∀ {alarms : List Alarm}, alarms.length = t.alarms.length →
      ∀ {n : Nat} {a : Alarm}, alarms[n]? = some a → t.alarms.length ≤ n →
        a.task.LeavesClock ∧ ∀ b ∈ s.alarms, b.task.IsApart a.task := by
    intro alarms hlength n a ha hn
    exact absurd (hlength ▸ Places.lt_of_getElem? ha) (Nat.not_lt.mpr hn)
  generalize hu : t.act act = u at *
  cases heffect with
  | minor handle core posts entries fixes =>
      have hvigils : u.vigils = t.vigils := congrArg Core.vigils core
      have halarms : u.alarms = t.alarms := congrArg Core.alarms core
      exact h.keep hagrees hsteps (fun hpost => Or.inl (posts ▸ hpost))
        (fun hv _ => Or.inl (hvigils ▸ hv)) (hold (by rw [halarms]))
  | polled i moves posts roster => exact hu ▸ h.poll i
  | @created task plan e b view roster journal policy same free started entries id result =>
      refine h.keep hagrees hsteps ?_ ?_ ?_
      · intro id n hpost
        rcases List.mem_append.mp hpost with hpost | hnew
        · exact Or.inl hpost
        · cases List.mem_singleton.mp hnew
          exact Or.inr h.alarms_le
      · intro i v hv _
        rcases Places.getElem?_grown hv with hv | ⟨_, rfl⟩
        · exact Or.inl hv
        · exact Or.inr ⟨rfl, h.alarms_le⟩
      · intro n a ha hn
        rcases Places.getElem?_grown ha with ha | ⟨_, rfl⟩
        · exact hold rfl ha hn
        · obtain ⟨_, htask, _⟩ := Alarm.start_keeps started
          rw [htask, Alarm.ofEntry, same]
          exact hact
  | @updated id n plan a x b view post alarm replanned started result =>
      have hle : s.alarms.length ≤ n := h.le_of_post post hact
      refine h.keep hagrees hsteps Or.inl ?_ (hold List.length_set)
      intro i v hv _
      rcases Places.getElem?_grown hv with hv | ⟨_, rfl⟩
      · exact Or.inl hv
      · exact Or.inr ⟨rfl, hle⟩
  | removed post alarm =>
      exact h.keep hagrees hsteps (fun hpost => Or.inl (List.mem_filter.mp hpost).1)
        (fun hv _ => Or.inl hv) (hold List.length_set)
  | stopped alarms deeds deeds_cancelled stops =>
      refine h.keep hagrees hsteps Or.inl (fun hv _ => Or.inl hv) ?_
      intro n a ha hn
      dsimp only at ha
      rw [stops, List.getElem?_eq_none hn] at ha
      cases ha

end GrownFrom

theorem runsOf_poll (hv : t.vigils[i]? = some v) (ha : t.alarms[v.alarm]? = some a)
    (troupe : Nat) :
    (t.poll i).runsOf troupe =
      t.runsOf troupe + if (v.passage a t.moment (t.beginRun a.task).1).began.isSome then
        a.task.share troupe else 0 := by
  have hruns : (t.poll i).runsOf troupe = _ :=
    congrArg (fun u => u.runsOf troupe) (hushed_poll hv ha)
  refine hruns.trans ?_
  change (t.calling a.task _).runsOf troupe = _
  simp only [calling]
  split
  · exact t.runsOf_beginRun a.task troupe
  · rfl

namespace GrownFrom

/-- Only the polls of a vigil begin its runs. -/
theorem beginnings_act (t : Timetable) {act : Act} {j : Nat} (hact : act ≠ .poll j) :
    beginnings j (t.act act).annals = beginnings j t.annals :=
  (t.steps_act act).beginnings_of_unmoved (mt mayGive_move_iff.mp hact)

theorem ne_of_not_concerns {act : Act} {j : Nat} (hidle : s.concerns act = false)
    (hj : j < s.vigils.length) : act ≠ .poll j := by
  rintro rfl
  simp [concerns, hj] at hidle

/-- The poll of a newcomer. -/
theorem alike_poll (h : t.GrownFrom s) (hi : s.vigils.length ≤ i) : s.Alike (t.poll i) t := by
  rcases t.poll_cases i with hsame | ⟨v, a, hv, ha⟩
  · rw [hsame]
    exact .refl s t
  · obtain ⟨hclock, hapart⟩ := h.tasks ha (h.vigils hv hi)
    have hcore := core_poll hv ha
    have halarms : (t.poll i).alarms = _ := congrArg Core.alarms hcore
    have hvigils : (t.poll i).vigils = _ := congrArg Core.vigils hcore
    have hposts : (t.poll i).posts = t.posts := congrArg Ledger.posts (t.ledger_poll i)
    refine ⟨?_, ?_, ?_, ?_, ?_, ?_⟩
    · rw [moment_poll hv ha,
        Vigil.passage_shift (fun _ _ running => h.turns hv hi running) (hclock t)]
      simp [Moment.shift]
    · intro n hn
      rw [halarms]
      exact List.getElem?_set_ne (Nat.ne_of_gt (Nat.lt_of_lt_of_le hn (h.vigils hv hi)))
    · intro n _
      rw [hposts]
    · intro j hj
      rw [hvigils]
      exact List.getElem?_set_ne (Nat.ne_of_gt (Nat.lt_of_lt_of_le hj hi))
    · intro j hj
      have hother : Act.poll i ≠ .poll j := by
        rintro ⟨⟩
        exact absurd hj (Nat.not_lt.mpr hi)
      exact beginnings_act t hother
    · intro b hb r hr
      have hshare : a.task.share r.troupe = 0 := Task.share_of_apart (hr ▸ hapart b hb)
      rw [runsOf_poll hv ha, hshare, ite_self, Nat.add_zero]

/-- A newcomer joins, whose alarm takes its place after all others. -/
theorem alike_created (h : t.GrownFrom s) (e : Entry) (b : Alarm) (roster : Roster)
    (journal : List Happening)
    (beginnings : ∀ i < s.vigils.length,
      beginnings i (t.created e b roster journal).annals = beginnings i t.annals) :
    s.Alike (t.created e b roster journal) t where
  moment := rfl
  alarms n hn := List.getElem?_append_left (Nat.lt_of_lt_of_le hn h.alarms_le)
  posted n hn := by
    have hne : n ≠ t.alarms.length := Nat.ne_of_lt (Nat.lt_of_lt_of_le hn h.alarms_le)
    simp [created, hne]
  vigils _ hi := List.getElem?_append_left (Nat.lt_of_lt_of_le hi h.vigils_le)
  beginnings := beginnings
  runs _ _ _ _ := rfl

/-- The alarm of a newcomer is set to another plan. -/
theorem alike_updated (h : t.GrownFrom s) (hle : s.alarms.length ≤ n) (id : Nat) (stopped : Bool)
    (b : Alarm)
    (beginnings : ∀ i < s.vigils.length,
      beginnings i (t.updated id n stopped b).annals = beginnings i t.annals) :
    s.Alike (t.updated id n stopped b) t where
  moment := rfl
  alarms _ hm := List.getElem?_set_ne (Nat.ne_of_gt (Nat.lt_of_lt_of_le hm hle))
  posted _ _ := .rfl
  vigils _ hi := List.getElem?_append_left (Nat.lt_of_lt_of_le hi h.vigils_le)
  beginnings := beginnings
  runs _ _ _ _ := rfl

/-- A newcomer leaves. -/
theorem alike_removed (h : t.GrownFrom s) (hid : id ∉ s.roster.ids) (hle : s.alarms.length ≤ n)
    (a : Alarm)
    (beginnings : ∀ i < s.vigils.length,
      beginnings i (t.removed id n a).annals = beginnings i t.annals) :
    s.Alike (t.removed id n a) t where
  moment := rfl
  alarms m hm := List.getElem?_set_ne (Nat.ne_of_gt (Nat.lt_of_lt_of_le hm hle))
  posted m hm := by
    simp only [removed, List.mem_map, List.mem_filter]
    constructor
    · rintro ⟨p, ⟨hp, _⟩, hpm⟩
      exact ⟨p, hp, hpm⟩
    · rintro ⟨p, hp, rfl⟩
      refine ⟨p, ⟨hp, bne_iff_ne.mpr ?_⟩, rfl⟩
      rintro rfl
      exact hid (h.posts hp hm)
  vigils _ _ := rfl
  beginnings := beginnings
  runs _ _ _ _ := rfl

/-- What spares the elders and does not concern them leaves them as they are. -/
theorem alike_act (h : t.GrownFrom s) {act : Act} (hact : s.Spares act)
    (hidle : s.concerns act = false) : s.Alike (t.act act) t := by
  have hbeginnings : ∀ j < s.vigils.length,
      Almanac.beginnings j (t.act act).annals = Almanac.beginnings j t.annals :=
    fun j hj => beginnings_act t (ne_of_not_concerns hidle hj)
  have hposted := h.agrees.toPosted
  cases act with
  | pass millis => cases hidle
  | shiftClock millis => cases hidle
  | shutdown => cases hidle
  | poll i => exact h.alike_poll (by simpa [concerns] using hidle)
  | pollWatcher k =>
      obtain ⟨roster, watchers, journal, hpolled⟩ := t.pollWatcher_eq k
      rw [Timetable.act, hpolled]
      exact .of_same s rfl rfl rfl rfl
  | create task plan =>
      simp only [Timetable.act] at hbeginnings ⊢
      rcases hposted.create_cases task plan with
        ⟨cause, _, hcreate⟩ | ⟨cause, roster, journal, _, _, _, hcreate⟩ |
        ⟨e, b, journal, _, _, _, _, _, _, hcreate⟩
      · rw [hcreate]
        exact .refl s t
      · rw [hcreate]
        exact .of_same s rfl rfl rfl rfl
      · rw [hcreate] at hbeginnings ⊢
        exact h.alike_created e b _ journal hbeginnings
  | update id plan =>
      simp only [Timetable.act] at hbeginnings ⊢
      rcases hposted.update_cases id plan with
        ⟨cause, hupdate⟩ | ⟨n, e, a, x, b, hpost, _, _, _, _, hupdate⟩
      · rw [hupdate]
        exact .refl s t
      · rw [hupdate] at hbeginnings ⊢
        exact h.alike_updated (h.le_of_post hpost hact) id _ b hbeginnings
  | remove id =>
      simp only [Timetable.act] at hbeginnings ⊢
      rcases hposted.remove_cases id with ⟨cause, hremove⟩ | ⟨n, a, hpost, _, hremove⟩
      · rw [hremove]
        exact .refl s t
      · rw [hremove] at hbeginnings ⊢
        exact h.alike_removed hact (h.le_of_post hpost hact) a hbeginnings
  | list => exact .refl s t
  | get id => exact .refl s t
  | _ => cases hact

end GrownFrom

namespace Alike

/-- A run of an elder goes on the same. -/
theorem beginRun_eq (h : s.Alike t u) (ht : t.GrownFrom s) (ha : t.alarms[n]? = some a)
    (hn : n < s.alarms.length) : (t.beginRun a.task).1 = (u.beginRun a.task).1 := by
  obtain ⟨b, hb, htask⟩ := ht.exists_task ha hn
  rw [beginRun_turn, beginRun_turn]
  apply Task.turn_congr
  intro r hr
  exact h.runs b hb r (htask.symm.trans hr)

/-- The poll of an elder depends on the elders alone. -/
theorem poll (h : s.Alike t u) (hsound : s.core.Sound) (ht : t.GrownFrom s)
    (hi : i < s.vigils.length) : s.Alike (t.poll i) (u.poll i) := by
  obtain ⟨v, hv⟩ : ∃ v, t.vigils[i]? = some v :=
    ⟨_, List.getElem?_eq_getElem (Nat.lt_of_lt_of_le hi ht.vigils_le)⟩
  have hlt := ht.alarm_lt hsound hv hi
  obtain ⟨a, ha⟩ : ∃ a, t.alarms[v.alarm]? = some a :=
    ⟨_, List.getElem?_eq_getElem (Nat.lt_of_lt_of_le hlt ht.alarms_le)⟩
  have hv' : u.vigils[i]? = some v := h.vigils i hi ▸ hv
  have ha' : u.alarms[v.alarm]? = some a := h.alarms v.alarm hlt ▸ ha
  have hpassage : v.passage a t.moment (t.beginRun a.task).1 =
      v.passage a u.moment (u.beginRun a.task).1 := by
    rw [h.moment, h.beginRun_eq ht ha hlt]
  have hcore := core_poll hv ha
  have hcore' := core_poll hv' ha'
  rw [hpassage] at hcore
  generalize hp : v.passage a u.moment (u.beginRun a.task).1 = p at *
  refine ⟨?_, ?_, ?_, ?_, ?_, ?_⟩
  · rw [moment_poll hv ha, moment_poll hv' ha', hpassage, hp, h.moment]
  · intro n hn
    have halarms : (t.poll i).alarms = _ := congrArg Core.alarms hcore
    have halarms' : (u.poll i).alarms = _ := congrArg Core.alarms hcore'
    rw [halarms, halarms']
    dsimp only [Core.follow, core]
    rw [Places.getElem?_set ha, Places.getElem?_set ha', h.alarms n hn]
  · intro n hn
    have hposts : (t.poll i).posts = t.posts := congrArg Ledger.posts (t.ledger_poll i)
    have hposts' : (u.poll i).posts = u.posts := congrArg Ledger.posts (u.ledger_poll i)
    rw [hposts, hposts']
    exact h.posted n hn
  · intro j hj
    have hvigils : (t.poll i).vigils = _ := congrArg Core.vigils hcore
    have hvigils' : (u.poll i).vigils = _ := congrArg Core.vigils hcore'
    rw [hvigils, hvigils']
    dsimp only [Core.follow, core]
    rw [Places.getElem?_set hv, Places.getElem?_set hv', h.vigils j hj]
  · intro j hj
    have hannals : (t.poll i).annals = _ := congrArg Core.annals hcore
    have hannals' : (u.poll i).annals = _ := congrArg Core.annals hcore'
    rw [hannals, hannals']
    dsimp only [Core.follow, core]
    have hbefore := h.beginnings j hj
    simp only [Almanac.beginnings] at hbefore ⊢
    rw [List.filterMap_append, List.filterMap_append, hbefore]
  · intro b hb r hr
    rw [runsOf_poll hv ha, runsOf_poll hv' ha', hpassage, hp, h.runs b hb r hr]

/-- A shutdown stops the alarms of elders that have posts. -/
theorem shutdown (h : s.Alike t u) : s.Alike (t.act .shutdown) (u.act .shutdown) := by
  obtain ⟨alarms, deeds, hstop, hdeeds, halarms⟩ := t.stopAll_eq t.posts
  obtain ⟨alarms', deeds', hstop', hdeeds', halarms'⟩ := u.stopAll_eq u.posts
  have hbeginnings : ∀ (x : Timetable) (i : Nat),
      Almanac.beginnings i (x.act .shutdown).annals = Almanac.beginnings i x.annals :=
    fun x i => GrownFrom.beginnings_act x (show Act.shutdown ≠ .poll i by rintro ⟨⟩)
  have hbefore := hbeginnings t
  have hbefore' := hbeginnings u
  simp only [Timetable.act, Timetable.shutdown] at hbefore hbefore' ⊢
  rw [hstop] at hbefore ⊢
  rw [hstop'] at hbefore' ⊢
  refine { h with alarms := ?_, beginnings := ?_ }
  · intro n hn
    dsimp only
    rw [halarms, halarms', h.alarms n hn]
    simp only [h.posted n hn]
  · intro i hi
    rw [hbefore, hbefore']
    exact h.beginnings i hi

/-- What happens to the elders in one timetable happens to them in the other. -/
theorem act (h : s.Alike t u) (hsound : s.core.Sound) (ht : t.GrownFrom s)
    {act : Act} (hact : s.concerns act = true) : s.Alike (t.act act) (u.act act) := by
  obtain ⟨hstart, helapsed, hskew⟩ : t.start = u.start ∧ t.elapsed = u.elapsed ∧
      t.skew = u.skew := by simpa [Timetable.moment] using h.moment
  cases act with
  | pass millis =>
      refine { h with moment := ?_ }
      simp [Timetable.moment, Timetable.act, hstart, helapsed, hskew]
  | shiftClock millis =>
      refine { h with moment := ?_ }
      simp [Timetable.moment, Timetable.act, shiftClock, hstart, helapsed, hskew]
  | poll i => exact h.poll hsound ht (by simpa [concerns] using hact)
  | shutdown => exact h.shutdown
  | _ => cases hact

/-- A history that spares the elders comes for them to what it holds for them. -/
theorem run (h : s.Alike t u) (hsound : s.core.Sound) (ht : t.GrownFrom s) {acts : List Act}
    (hacts : ∀ act ∈ acts, s.Spares act) :
    s.Alike (t.run acts) (u.run (acts.filter s.concerns)) := by
  induction acts generalizing t u with
  | nil => exact h
  | cons act acts ih =>
      obtain ⟨hact, hacts⟩ := List.forall_mem_cons.mp hacts
      cases hconcerns : s.concerns act with
      | true =>
          rw [List.filter_cons_of_pos hconcerns]
          exact ih (h.act hsound ht hconcerns) (ht.act hact) hacts
      | false =>
          rw [List.filter_cons_of_neg (by simp [hconcerns])]
          exact ih ((ht.alike_act hact hconcerns).trans h) (ht.act hact) hacts

end Alike

/-- Two histories that spare the elders and hold the same for them leave the same of them. -/
theorem alike_run (hsound : s.core.Sound) (h : s.Alike t u) (ht : t.GrownFrom s)
    (hu : u.GrownFrom s) {acts others : List Act} (hacts : ∀ act ∈ acts, s.Spares act)
    (hothers : ∀ act ∈ others, s.Spares act)
    (same : acts.filter s.concerns = others.filter s.concerns) :
    s.Alike (t.run acts) (u.run others) := by
  have hrun := h.run hsound ht hacts
  rw [same] at hrun
  exact hrun.trans ((Alike.refl s u).run hsound hu hothers).symm

end Timetable

end Almanac
