import Almanac.Proofs.Strides

/-!
# Cues

Of all that the program does with a timetable, what concerns one alarm is a list of cues: how time
goes on, and the requests for its own entry. Everything else leaves the solo of the alarm as it is,
and what a cue makes of the solo depends on nothing but the solo.
-/

namespace Almanac

/-- What happens to an alarm. -/
inductive Cue where
  | pass (millis : Nat)
  | shiftClock (millis : Int)
  /-- The poll of a vigil, by its number among those of the alarm. -/
  | poll (vigil : Nat)
  | update (plan : Plan)
  | remove
  | shutdown
  /-- Milliseconds pass from timer to timer, and at their end everything is settled. -/
  | elapse (millis : Nat)
  deriving DecidableEq, Repr

namespace Timetable

variable {t u s : Timetable} {i n m id : Nat} {v w : Vigil} {a b : Alarm}

def replanAs (s : Timetable) (plan : Plan) : Timetable :=
  match s.alarms with
  | [] => s
  | a :: _ =>
    match a.replan plan s.now with
    | .error _ => s
    | .ok x =>
      match x.start with
      | .error _ => s
      | .ok b =>
        { s with
          alarms := [b]
          vigils := s.vigils ++
            [{ alarm := 0, token := b.token, generation := b.generation, since := s.elapsed }] }

def stopAs (s : Timetable) : Timetable := { s with alarms := s.alarms.map Alarm.stop }

/-- Nothing is told of deeds that are of no vigil. -/
theorem filterMap_retold {deeds annals : List Deed} (hdeeds : ∀ d ∈ deeds, d.vigil? = none)
    (owners : List Nat) (n : Nat) :
    (deeds ++ annals).filterMap (Deed.retold owners n) =
      annals.filterMap (Deed.retold owners n) := by
  have hnone : deeds.filterMap (Deed.retold owners n) = [] :=
    List.filterMap_eq_nil_iff.mpr fun d hd => Deed.retold_of_none (hdeeds d hd) _ _
  rw [List.filterMap_append, hnone, List.nil_append]

theorem tale_congr (hvigils : u.vigils = t.vigils)
    (hannals : ∃ deeds, u.annals = deeds ++ t.annals ∧ ∀ d ∈ deeds, d.vigil? = none) (n : Nat) :
    u.tale n = t.tale n := by
  obtain ⟨deeds, hannals, hdeeds⟩ := hannals
  have howners : u.owners = t.owners := congrArg (List.map Vigil.alarm) hvigils
  rw [tale, howners, hannals, filterMap_retold hdeeds]
  rfl

/-- A new vigil has done nothing yet. -/
theorem tale_append (hvigils : u.vigils = t.vigils ++ [w])
    (hannals : ∃ deeds, u.annals = deeds ++ t.annals ∧ ∀ d ∈ deeds, d.vigil? = none)
    (unwritten : t.core.Unwritten) (n : Nat) : u.tale n = t.tale n := by
  obtain ⟨deeds, hannals, hdeeds⟩ := hannals
  have howners : u.owners = t.owners ++ [w.alarm] := by
    rw [owners, hvigils, List.map_append]
    rfl
  rw [tale, hannals, filterMap_retold hdeeds, howners]
  apply List.filterMap_congr
  intro d hd
  apply Deed.retold_append
  right
  have hlength : t.owners.length = t.vigils.length := List.length_map _
  rw [hlength]
  refine unwritten t.vigils.length ?_ d hd
  intro v hv
  exact absurd (Places.lt_of_getElem? hv) (Nat.lt_irrefl _)

/-- A new alarm leaves the solos of the others as they are. -/
theorem solo_created (hn : n < t.alarms.length) (unwritten : t.core.Unwritten) (e : Entry)
    (b : Alarm) (roster : Roster) (journal : List Happening) :
    (t.created e b roster journal).solo n = t.solo n := by
  have hother : t.alarms.length ≠ n := Ne.symm (Nat.ne_of_lt hn)
  apply solo_congr
  · rfl
  · exact List.getElem?_append_left hn
  · simp [isPosted, created, hother]
  · simp [vigilsOf, created, hother]
  · exact tale_append rfl ⟨[_, _], rfl, by simp [Deed.vigil?]⟩ unwritten n

/-- A create leaves the solos of the alarms that there are as they are. -/
theorem Posted.solo_create (h : t.Posted) (hn : n < t.alarms.length)
    (unwritten : t.core.Unwritten) (task : Task) (plan : Plan) :
    (t.create task plan).2.solo n = t.solo n := by
  rcases h.create_cases task plan with
    ⟨_, _, hcreate⟩ | ⟨_, _, _, _, _, _, hcreate⟩ | ⟨e, b, journal, _, _, _, _, _, _, hcreate⟩
  · rw [hcreate]
  · rw [hcreate]
    rfl
  · rw [hcreate]
    exact solo_created hn unwritten e b _ journal

theorem solo_updated_other (hm : m ≠ n) (unwritten : t.core.Unwritten) (id : Nat) (stopped : Bool)
    (b : Alarm) : (t.updated id m stopped b).solo n = t.solo n := by
  apply solo_congr
  · rfl
  · simp only [updated]
    rw [List.getElem?_set, if_neg hm]
  · rfl
  · simp [vigilsOf, updated, hm]
  · exact tale_append rfl ⟨[_, _], rfl, by simp [Deed.vigil?]⟩ unwritten n

theorem solo_updated_own (ha : t.alarms[n]? = some a) (unwritten : t.core.Unwritten) (id : Nat)
    (stopped : Bool) (b : Alarm) :
    (t.updated id n stopped b).solo n =
      { t.solo n with
        alarms := [b.anonymous]
        vigils := (t.solo n).vigils ++
          [{ alarm := 0, token := b.token, generation := b.generation, since := t.elapsed }] } := by
  have halarm : (t.updated id n stopped b).alarms[n]? = some b := Places.getElem?_set_self ha b
  have htale : (t.updated id n stopped b).tale n = t.tale n :=
    tale_append rfl ⟨[_, _], rfl, by simp [Deed.vigil?]⟩ unwritten n
  have hvigils : (t.updated id n stopped b).vigilsOf n = t.vigilsOf n ++
      [{ alarm := n, token := b.token, generation := b.generation, since := t.elapsed }] := by
    simp [vigilsOf, updated]
  simp only [solo]
  rw [halarm, htale, hvigils, List.map_append]
  rfl

/-- The update of an entry gives its alarm another plan. -/
theorem Posted.solo_update (h : t.Posted) (sound : t.roster.isSpoiled = false)
    (unwritten : t.core.Unwritten) (hpost : t.post? id = some n) (plan : Plan) :
    (t.update id plan).2.solo n = (t.solo n).replanAs plan := by
  have hmem := h.post?_eq_some_iff.mp hpost
  obtain ⟨e, he, hid⟩ := h.exists_entry hmem
  have hfound : t.roster.byId id = .ok (some e) := hid ▸ Roster.byId_of_mem sound h.nodup he
  obtain ⟨a, ha, _⟩ := h.alarm hmem
  simp only [replanAs]
  rw [alarms_solo ha]
  cases hreplan : a.replan plan t.now with
  | error cause =>
      have hreplan' : a.anonymous.replan plan (t.solo n).now = .error cause :=
        Alarm.replan_anonymous_error hreplan
      rw [update_of_refused hpost hfound ha hreplan]
      dsimp only
      rw [hreplan']
  | ok x =>
      have hreplan' : a.anonymous.replan plan (t.solo n).now = .ok x.anonymous :=
        Alarm.replan_anonymous hreplan
      obtain ⟨b, hb, hupdate⟩ := update_of_replan hpost hfound ha hreplan
      rw [hupdate]
      dsimp only
      rw [hreplan']
      dsimp only
      rw [Alarm.start_anonymous hb]
      exact solo_updated_own ha unwritten id a.isRunning b

/-- The update of another entry leaves the solo as it is. -/
theorem Posted.solo_update_other (h : t.Posted) (unwritten : t.core.Unwritten)
    (hother : ¬ t.post? id = some n) (plan : Plan) : (t.update id plan).2.solo n = t.solo n := by
  rcases h.update_cases id plan with ⟨_, hupdate⟩ | ⟨m, e, x, y, b, hpost, _, _, _, _, hupdate⟩
  · rw [hupdate]
  · rw [hupdate]
    apply solo_updated_other _ unwritten
    rintro rfl
    exact hother (h.post?_eq_some_iff.mpr hpost)

theorem vigil?_of_cancelled {deeds : List Deed} (h : ∀ d ∈ deeds, ∃ n, d = .cancelled n) :
    ∀ d ∈ deeds, d.vigil? = none := by
  intro d hd
  obtain ⟨n, rfl⟩ := h d hd
  rfl

theorem tale_removed (t : Timetable) (id m : Nat) (a : Alarm) (n : Nat) :
    (t.removed id m a).tale n = t.tale n := by
  refine tale_congr (u := t.removed id m a) (t := t) rfl ⟨_, rfl, vigil?_of_cancelled ?_⟩ n
  intro d hd
  split at hd
  · exact ⟨m, List.mem_singleton.mp hd⟩
  · cases hd

theorem Posted.solo_removed_other (h : t.Posted) (hpost : (id, m) ∈ t.posts) (hm : m ≠ n)
    (a : Alarm) : (t.removed id m a).solo n = t.solo n := by
  apply solo_congr
  · rfl
  · simp only [removed]
    rw [List.getElem?_set, if_neg hm]
  · rw [Bool.eq_iff_iff, isPosted_iff, isPosted_iff]
    constructor
    · rintro ⟨other, hother⟩
      exact ⟨other, (List.mem_filter.mp hother).1⟩
    · rintro ⟨other, hother⟩
      refine ⟨other, List.mem_filter.mpr ⟨hother, ?_⟩⟩
      rw [bne_iff_ne]
      rintro rfl
      exact hm (h.eq_of_post hother hpost)
  · rfl
  · exact t.tale_removed id m a n

/-- The remove of an entry stops its alarm, which loses its post. -/
theorem Posted.solo_removed_own (h : t.Posted) (hpost : (id, n) ∈ t.posts)
    (ha : t.alarms[n]? = some a) :
    (t.removed id n a).solo n = { (t.solo n).stopAs with posts := [] } := by
  have halarm : (t.removed id n a).alarms[n]? = some a.stop := Places.getElem?_set_self ha _
  have hposted : (t.removed id n a).isPosted n = false := by
    rw [Bool.eq_false_iff, ne_eq, isPosted_iff]
    rintro ⟨other, hother⟩
    obtain ⟨hmem, hne⟩ := List.mem_filter.mp hother
    exact bne_iff_ne.mp hne (h.id_eq_of_post hpost hmem)
  have htale := t.tale_removed id n a n
  simp only [solo, stopAs]
  rw [halarm, hposted, htale, ha]
  simp only [Option.map_some, Option.toList_some, List.map_cons, List.map_nil]
  rw [Alarm.stop_anonymous]
  rfl

theorem Posted.solo_remove (h : t.Posted) (sound : t.roster.isSpoiled = false)
    (hpost : t.post? id = some n) :
    (t.remove id).2.solo n = { (t.solo n).stopAs with posts := [] } := by
  have hmem := h.post?_eq_some_iff.mp hpost
  obtain ⟨m, a, hm, ha, hremove⟩ := h.remove_of_mem sound (h.mem_ids hmem)
  obtain rfl := h.eq_of_post hmem hm
  rw [hremove]
  exact h.solo_removed_own hm ha

/-- The remove of another entry leaves the solo as it is. -/
theorem Posted.solo_remove_other (h : t.Posted) (hother : ¬ t.post? id = some n) :
    (t.remove id).2.solo n = t.solo n := by
  rcases h.remove_cases id with ⟨_, hremove⟩ | ⟨m, a, hpost, _, hremove⟩
  · rw [hremove]
  · rw [hremove]
    apply h.solo_removed_other hpost
    rintro rfl
    exact hother (h.post?_eq_some_iff.mpr hpost)

theorem isEmpty_posts_solo (t : Timetable) (n : Nat) :
    (t.solo n).posts.isEmpty = !t.isPosted n := by
  simp only [solo]
  cases t.isPosted n <;> rfl

/-- A shutdown stops the alarm if it has a post. -/
theorem solo_shutdown (ha : t.alarms[n]? = some a) :
    t.shutdown.2.solo n = if t.isPosted n then (t.solo n).stopAs else t.solo n := by
  obtain ⟨alarms, deeds, hshutdown, hdeeds, halarms⟩ := t.stopAll_eq t.posts
  have hposted : n ∈ t.posts.map Prod.snd ↔ t.isPosted n = true := by
    rw [isPosted_iff, List.mem_map]
    simp only [Prod.exists, exists_eq_right]
  have htale : ∀ alarms, ({ t with alarms, annals := deeds ++ t.annals } : Timetable).tale n =
      t.tale n := by
    intro alarms
    exact tale_congr (u := { t with alarms, annals := deeds ++ t.annals }) (t := t) rfl
      ⟨deeds, rfl, vigil?_of_cancelled hdeeds⟩ n
  have halarm := halarms n
  rw [ha, Option.map_some] at halarm
  rw [shutdown, hshutdown]
  simp only [solo, stopAs]
  rw [htale, halarm, ha]
  split
  · next hmem =>
      rw [if_pos (hposted.mp hmem)]
      simp only [Option.map_some, Option.toList_some, List.map_cons, List.map_nil]
      rw [Alarm.stop_anonymous]
      rfl
  · next hmem =>
      rw [if_neg fun posted => hmem (hposted.mpr posted)]
      rfl

/-- What an act tells alarm `n`, if anything. -/
def cue? (t : Timetable) (n : Nat) : Act → Option Cue
  | .pass millis => some (.pass millis)
  | .shiftClock millis => some (.shiftClock millis)
  | .poll i => if t.owners[i]? = some n then some (.poll (t.place n i)) else none
  | .update id plan => if t.post? id = some n then some (.update plan) else none
  | .remove id => if t.post? id = some n then some .remove else none
  | .shutdown => some .shutdown
  | _ => none

/-- What a cue makes of a solo. -/
def Heeds (outcome : Nat → Turn) (s : Timetable) : Cue → Timetable → Prop
  | .pass millis, u => u = { s with elapsed := s.elapsed + millis }
  | .shiftClock millis, u => u = s.shiftClock millis
  | .poll k, u => u = s.pollAs outcome k
  | .update plan, u => u = s.replanAs plan
  | .remove, u => u = { s.stopAs with posts := [] }
  | .shutdown, u => u = if s.posts.isEmpty then s else s.stopAs
  | .elapse millis, u => Elapses outcome millis s u

def HeedsAll (outcome : Nat → Turn) : Timetable → List Cue → Timetable → Prop
  | s, [], u => u = s
  | s, c :: cues, u => ∃ r, Heeds outcome s c r ∧ HeedsAll outcome r cues u

section

variable {outcome : Nat → Turn} {r : Timetable} {c : Cue} {cues : List Cue}

/-- What becomes of a solo depends on the solo and the cue alone. -/
theorem Heeds.unique (h : Heeds outcome s c u) (h' : Heeds outcome s c r) : u = r := by
  cases c with
  | elapse millis => exact Elapses.unique h h'
  | _ => exact h.trans h'.symm

theorem HeedsAll.unique (h : HeedsAll outcome s cues u) (h' : HeedsAll outcome s cues r) :
    u = r := by
  induction cues generalizing s with
  | nil => exact h.trans h'.symm
  | cons c cues ih =>
      obtain ⟨x, hx, hu⟩ := h
      obtain ⟨y, hy, hr⟩ := h'
      obtain rfl := hx.unique hy
      exact ih hu hr

/-- An act makes of the solo what its cue makes of it. -/
theorem Hosts.heeds_act (h : t.Hosts n) {act : Act} (hact : act.isDirect = false)
    (sound : t.roster.isSpoiled = false) {acts : List Act}
    (hplays : t.PlaysAs n outcome (act :: acts)) :
    HeedsAll outcome (t.solo n) (t.cue? n act).toList ((t.act act).solo n) := by
  have hposted : t.Posted := h.agrees.toPosted
  obtain ⟨a, ha⟩ := h.alarm
  cases act with
  | pass millis => exact ⟨_, rfl, rfl⟩
  | shiftClock millis => exact ⟨_, rfl, rfl⟩
  | poll i =>
      have hpolled := h.solo_poll hplays
      simp only [cue?]
      split
      · next own =>
          rw [if_pos own] at hpolled
          exact ⟨_, rfl, hpolled⟩
      · next other =>
          rw [if_neg other] at hpolled
          exact hpolled
  | pollWatcher k => exact t.solo_pollWatcher k n
  | create task plan =>
      exact hposted.solo_create (Places.lt_of_getElem? ha) h.unwritten task plan
  | update id plan =>
      simp only [cue?]
      split
      · next hpost => exact ⟨_, rfl, hposted.solo_update sound h.unwritten hpost plan⟩
      · next hother => exact hposted.solo_update_other h.unwritten hother plan
  | remove id =>
      simp only [cue?]
      split
      · next hpost => exact ⟨_, rfl, hposted.solo_remove sound hpost⟩
      · next hother => exact hposted.solo_remove_other hother
  | shutdown =>
      refine ⟨_, rfl, (solo_shutdown ha).trans ?_⟩
      rw [isEmpty_posts_solo]
      cases t.isPosted n <;> rfl
  | list => rfl
  | get id => rfl
  | _ => cases hact

end

end Timetable

end Almanac
