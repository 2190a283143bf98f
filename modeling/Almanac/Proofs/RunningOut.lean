import Almanac.Proofs.Listing
import Almanac.Proofs.Policies
import Almanac.Proofs.Rearming
import Almanac.Proofs.Spoiled
import Almanac.Proofs.Stopping
import Almanac.Proofs.Tending

/-!
# Alarms that have run out

An alarm that could not be set again is idle, and stays so as long as nobody starts it: no vigil of
it runs again, and there is nothing to cancel. A service lists its entry on, without a handle once
the watcher has seen the end, and takes another plan for it.
-/

namespace Almanac

/-- What an alarm may become with time: it was started more often, or it is idle if it was. -/
structure Alarm.Ages (a b : Alarm) : Prop where
  generation_le : a.generation ≤ b.generation
  idle : b.generation = a.generation → a.status = .idle → b.status = .idle

namespace Alarm.Ages

variable {a b x : Alarm}

theorem refl (a : Alarm) : a.Ages a where
  generation_le := Nat.le_refl _
  idle := fun _ idle => idle

theorem trans (hab : a.Ages b) (hbx : b.Ages x) : a.Ages x where
  generation_le := Nat.le_trans hab.generation_le hbx.generation_le
  idle := by
    intro same idle
    have hle := hab.generation_le
    have hle' := hbx.generation_le
    exact hbx.idle (by omega) (hab.idle (by omega) idle)

theorem stop (a : Alarm) : a.Ages a.stop where
  generation_le := Nat.le_of_eq (Timetable.generation_stop a).symm
  idle := by
    intro _ idle
    rw [Alarm.stop_of_not_running (by rw [idle]; simp)]
    exact idle

theorem replan {plan : Plan} {now : Instant} (h : a.replan plan now = .ok b) : a.Ages b := by
  obtain ⟨due, period, _, rfl⟩ := replan_ok h
  obtain ⟨hle, idle⟩ := stop a
  exact ⟨hle, idle⟩

theorem start (h : a.start = .ok b) : a.Ages b := by
  obtain ⟨_, rfl⟩ := start_ok h
  refine ⟨Nat.le_succ _, ?_⟩
  intro same
  exact absurd same (Nat.succ_ne_self _)

/-- The end of a vigil does not count for an alarm that is idle. -/
theorem goes {i : Nat} {v v' : Vigil} {deeds : List Deed} (h : v.Goes i a v' b deeds) :
    a.Ages b := by
  have hconclude : ∀ e, a.status = .idle → (a.conclude v.generation e).status = .idle := by
    intro e idle
    rw [Alarm.conclude, if_neg (by simp [idle])]
    exact idle
  refine ⟨Nat.le_of_eq h.leaves.1.symm, fun _ => ?_⟩
  cases h with
  | quits pending revoked => exact hconclude _
  | ends r running period judged => exact hconclude _
  | _ => exact id

end Alarm.Ages

namespace Core

variable {c d : Core} {i n : Nat} {a b : Alarm} {v w : Vigil} {may : Impulse → Prop}

/-- Nothing takes an alarm away, or a start back. -/
theorem Step.ages (hstep : Step may c d) (ha : c.alarms[n]? = some a) :
    ∃ b, d.alarms[n]? = some b ∧ a.Ages b := by
  cases hstep with
  | setUp e => exact ⟨a, Places.getElem?_append ha _, .refl a⟩
  | start since allowed alarm started =>
    exact Places.exists_set Alarm.Ages.refl alarm (.start started) ha
  | cancel alarm cancelled =>
    obtain ⟨_, rfl⟩ := Alarm.cancel_ok cancelled
    exact Places.exists_set Alarm.Ages.refl alarm (.stop _) ha
  | replan alarm replanned => exact Places.exists_set Alarm.Ages.refl alarm (.replan replanned) ha
  | move i _ moved =>
    obtain ⟨_, hx, goes⟩ := moved
    exact Places.exists_set Alarm.Ages.refl hx (.goes goes) ha

theorem Steps.ages (hsteps : Steps may c d) (ha : c.alarms[n]? = some a) :
    ∃ b, d.alarms[n]? = some b ∧ a.Ages b := by
  induction hsteps with
  | refl => exact ⟨a, ha, .refl a⟩
  | tail _ hstep ih =>
    obtain ⟨b, hb, hages⟩ := ih
    obtain ⟨x, hx, hages'⟩ := hstep.ages hb
    exact ⟨x, hx, hages.trans hages'⟩

/-- A step that is no start of an alarm does not count as one. -/
theorem Step.generation_eq (hstep : Step may c d) (hmay : ¬may (.start n))
    (ha : c.alarms[n]? = some a) (hb : d.alarms[n]? = some b) : b.generation = a.generation := by
  have hset : ∀ {m : Nat} {x y : Alarm}, c.alarms[m]? = some x → y.generation = x.generation →
      (c.alarms.set m y)[n]? = some b → b.generation = a.generation := by
    intro m x y hx hsame hb
    obtain ⟨b', hb', hsame'⟩ := Places.exists_set (P := fun x y => y.generation = x.generation)
      (fun _ => rfl) hx hsame ha
    obtain rfl : b' = b := Option.some.inj (hb'.symm.trans hb)
    exact hsame'
  cases hstep with
  | setUp e =>
    rw [Places.getElem?_append ha] at hb
    cases hb
    rfl
  | @start m x y since allowed alarm started =>
    have hm : m ≠ n := by
      rintro rfl
      exact hmay allowed
    rw [Places.getElem?_set alarm, if_neg hm, ha] at hb
    cases hb
    rfl
  | cancel alarm cancelled =>
    obtain ⟨_, rfl⟩ := Alarm.cancel_ok cancelled
    exact hset alarm (Timetable.generation_stop _) hb
  | replan alarm replanned =>
    obtain ⟨due, period, _, rfl⟩ := Alarm.replan_ok replanned
    refine hset alarm ?_ hb
    exact Timetable.generation_stop _
  | move i _ moved =>
    obtain ⟨_, hx, goes⟩ := moved
    exact hset hx goes.leaves.1 hb

theorem Steps.generation_eq (hsteps : Steps may c d) (hmay : ¬may (.start n))
    (ha : c.alarms[n]? = some a) (hb : d.alarms[n]? = some b) : b.generation = a.generation := by
  induction hsteps generalizing b with
  | refl =>
    obtain rfl : a = b := Option.some.inj (ha.symm.trans hb)
    rfl
  | tail hbefore hstep ih =>
    obtain ⟨x, hx, _⟩ := Steps.ages hbefore ha
    exact (hstep.generation_eq hmay hx hb).trans (ih hx)

/-- An alarm that was started as often as before was not started. -/
theorem Steps.without_start (hsteps : Steps may c d) (ha : c.alarms[n]? = some a)
    (hb : d.alarms[n]? = some b) (same : b.generation = a.generation) :
    Steps (· ≠ .start n) c d := by
  induction hsteps generalizing b with
  | refl => exact .refl
  | tail hbefore hstep ih =>
    obtain ⟨x, hx, hages⟩ := Steps.ages hbefore ha
    obtain ⟨y, hy, hages'⟩ := hstep.ages hx
    obtain rfl : y = b := Option.some.inj (hy.symm.trans hb)
    have hle := hages.generation_le
    have hle' := hages'.generation_le
    refine (ih hx (by omega)).tail ?_
    cases hstep with
    | setUp e => exact .setUp _ e
    | @start m z z' since allowed alarm started =>
      refine .start since ?_ alarm started
      intro hstart
      cases hstart
      rw [Places.getElem?_set_self alarm] at hy
      cases hy
      rw [hx] at alarm
      cases alarm
      obtain ⟨_, hz⟩ := Alarm.start_ok started
      have hgrown : y.generation = x.generation + 1 := by rw [hz]
      omega
    | cancel alarm cancelled => exact .cancel alarm cancelled
    | replan alarm replanned => exact .replan alarm replanned
    | move j allowed moved => exact .move j (by simp) moved

/-- As long as an idle alarm is not started, it is idle and has no new vigil, and none of its vigils
begins a run. -/
theorem Sound.dormant (h : c.Sound) (hsteps : Steps may c d) (ha : c.alarms[n]? = some a)
    (idle : a.status = .idle) (hb : d.alarms[n]? = some b) (same : b.generation = a.generation) :
    b.status = .idle ∧ ∀ i w, d.vigils[i]? = some w → w.alarm = n →
      beginnings i d.annals = beginnings i c.annals := by
  obtain ⟨x, hx, hages⟩ := hsteps.ages ha
  obtain rfl : x = b := Option.some.inj (hx.symm.trans hb)
  refine ⟨hages.idle same idle, ?_⟩
  intro i w hw hn
  obtain ⟨v, hv⟩ := Steps.unstarted (hsteps.without_start ha hb same) (by simp) hw hn
  refine (h.stale_steps hsteps ⟨v, hv, ?_⟩).2
  intro live
  obtain ⟨w', hw', halarm, _⟩ := hsteps.vigil hv
  obtain rfl : w' = w := Option.some.inj (hw'.symm.trans hw)
  obtain ⟨y, hy, _, _, running⟩ := h.alarm_of_live hv live
  rw [← halarm, hn, ha] at hy
  cases hy
  rw [idle] at running
  cases running

end Core

def Act.removes (id : Nat) : Act → Bool
  | remove other => other == id
  | _ => false

/-- Holds of the updates and the removes of an id. -/
def Act.changes (id : Nat) : Act → Bool
  | update other _ => other == id
  | act => act.removes id

theorem Act.removes_of_changes {act : Act} {id : Nat} (h : act.changes id = false) :
    act.removes id = false := by
  cases act with
  | remove other => exact h
  | _ => rfl

namespace Timetable

variable {t u : Timetable} {i k n id : Nat} {a : Alarm} {e : Entry} {v : Vigil} {w : Watcher}

/-- Only a remove takes a post away. -/
theorem Outcome.mem_posts {act : Act} (h : t.Outcome act u) (hact : act.removes id = false)
    (hpost : (id, n) ∈ t.posts) : (id, n) ∈ u.posts := by
  have hsame : ∀ {l : Ledger}, u.ledger = l → (id, n) ∈ l.posts → (id, n) ∈ u.posts := by
    rintro l rfl hmem
    exact hmem
  cases h with
  | idle core ledger failed => exact hsame ledger hpost
  | broken core ledger cause entries spoiled failed => exact hsame ledger hpost
  | polled i moves ledger => exact hsame ledger hpost
  | watched watcher waiting vigil closed core ledger => exact hsame ledger hpost
  | created journal policy same handle sound drawn started result =>
    exact List.mem_append_left _ hpost
  | updated post found alarm replanned started result => exact hpost
  | @removed other m x post alarm result =>
    have hother : other ≠ id := by simpa [Act.removes] using hact
    exact List.mem_filter.mpr ⟨hpost, by simpa using hother.symm⟩
  | stopped alarms deeds deeds_cancelled stops => exact hpost

/-- An entry that is not removed keeps its post. -/
theorem Agrees.mem_posts_run (h : t.Agrees) (hpost : (id, n) ∈ t.posts) {acts : List Act}
    (hdirect : ∀ act ∈ acts, act.isDirect = false)
    (hacts : ∀ act ∈ acts, act.removes id = false) : (id, n) ∈ (t.run acts).posts := by
  induction acts generalizing t with
  | nil => exact hpost
  | cons act acts ih =>
    obtain ⟨hact, hdirect⟩ := List.forall_mem_cons.mp hdirect
    obtain ⟨hkeeps, hacts⟩ := List.forall_mem_cons.mp hacts
    exact ih (h.act hact) ((h.outcome hact).mem_posts hkeeps hpost) hdirect hacts

/-- Only an update of its entry starts the alarm of a post. -/
theorem Posted.not_mayGive_start (h : t.Posted) {act : Act} (hdirect : act.isDirect = false)
    (hact : act.changes id = false) (hpost : (id, n) ∈ t.posts) : ¬t.mayGive act (.start n) := by
  intro hgive
  cases act with
  | create task plan =>
    cases hgive
    obtain ⟨a, ha, _⟩ := h.alarm hpost
    exact Nat.lt_irrefl _ (Places.lt_of_getElem? ha)
  | update other plan =>
    obtain ⟨m, hm, hstart⟩ := hgive
    cases hstart
    have hother := h.id_eq_of_post hpost (h.post?_eq_some_iff.mp hm)
    simp [Act.changes, hother] at hact
  | start alarm => cases hdirect
  | poll vigil => cases hgive
  | _ => exact hgive

/-- The alarm of an entry that is neither updated nor removed is not started. -/
theorem Agrees.unstarted_run (h : t.Agrees) (hpost : (id, n) ∈ t.posts) {acts : List Act}
    (hdirect : ∀ act ∈ acts, act.isDirect = false)
    (hacts : ∀ act ∈ acts, act.changes id = false) :
    Core.Steps (· ≠ .start n) t.core (t.run acts).core := by
  induction acts generalizing t with
  | nil => exact .refl
  | cons act acts ih =>
    obtain ⟨hact, hdirect⟩ := List.forall_mem_cons.mp hdirect
    obtain ⟨hkeeps, hacts⟩ := List.forall_mem_cons.mp hacts
    have hpost' := (h.outcome hact).mem_posts (Act.removes_of_changes hkeeps) hpost
    have hsteps := ih (h.act hact) hpost' hdirect hacts
    refine (Core.Steps.mono ?_ (t.steps_act act)).trans hsteps
    rintro x hgive rfl
    exact h.toPosted.not_mayGive_start hact hkeeps hpost hgive

/-- A start sets out one vigil. -/
theorem IsLatest.unique (hsound : t.core.Sound) {j : Nat} (h : t.IsLatest n i)
    (h' : t.IsLatest n j) : i = j := by
  obtain ⟨v, a, hv, own, ha, hgeneration⟩ := h
  obtain ⟨w, b, hw, own', hb, hgeneration'⟩ := h'
  obtain rfl : a = b := Option.some.inj (ha.symm.trans hb)
  exact hsound.distinct hv hw (own.trans own'.symm) (hgeneration.trans hgeneration'.symm)

/-- The watcher of the last start of an alarm takes the handle of the entry that has its post, and
nobody gives it back. -/
theorem Custody.handle_of_taken (h : t.Custody) (htended : t.Tended) (hsound : t.core.Sound)
    (he : e ∈ t.roster.entries) (hpost : (e.id, n) ∈ t.posts) (hw : t.watchers[k]? = some w)
    (hlatest : t.IsLatest n w.vigil) (htaken : t.hasTaken w = true) : e.handle = none := by
  obtain ⟨j, x, howner, hlatest'⟩ := h.exists_owner_latest htended he hpost
  have hjk : j = k :=
    h.numbered.eq_of_vigil howner.watcher hw (hlatest'.unique hsound hlatest)
  subst hjk
  obtain rfl : w = x := Option.some.inj (hw.symm.trans howner.watcher)
  rw [howner.handle, if_pos htaken]

theorem Agrees.watcher_run (h : t.Agrees) {acts : List Act}
    (hacts : ∀ act ∈ acts, act.isDirect = false) (hw : t.watchers[k]? = some w) :
    ∃ x, (t.run acts).watchers[k]? = some x ∧ watcherGrant x = watcherGrant w := by
  have hgrant : (t.watchers.map watcherGrant)[k]? = some (watcherGrant w) := by
    rw [List.getElem?_map, hw]
    rfl
  have hrun : ((t.run acts).watchers.map watcherGrant)[k]? = some (watcherGrant w) := by
    rw [h.watchers_run hacts]
    exact Places.getElem?_append hgrant _
  rw [List.getElem?_map] at hrun
  exact Option.map_eq_some_iff.mp hrun

/-- A vigil that has ended by itself is taken by its watcher when that is next polled, and at
rest. -/
theorem Custody.hasTaken_of_concluded {s : Timetable} (h : s.Custody) (hnone : s.watchers = [])
    {acts later : List Act} (hacts : ∀ act ∈ acts ++ later, act.isDirect = false)
    (concluded : (s.run acts).hasConcluded w.vigil = true)
    (hw : ((s.run acts).run later).watchers[k]? = some w)
    (hpolled : .pollWatcher k ∈ later ∨ ((s.run acts).run later).step? = none) :
    ((s.run acts).run later).hasTaken w = true := by
  have hended := hasEnded_of_hasConcluded concluded
  rcases hpolled with hmem | hrest
  · obtain ⟨first, rest, rfl⟩ := List.append_of_mem hmem
    rw [← run_append] at hw ⊢
    refine (h.agrees.hasTaken_iff h.numbered hnone hacts hw).mpr ⟨acts ++ first, rest, by simp, ?_⟩
    rw [run_append, hasConcluded_steps hended (steps_run _ first)]
    exact concluded
  · rw [(step?_eq_none_iff.mp hrest).hasTaken_eq (List.mem_of_getElem? hw),
      hasConcluded_steps hended (steps_run _ later)]
    exact concluded

/-- The entry of an id is listed, and takes any plan that is admissible, whereupon its alarm
runs. -/
structure Available (t : Timetable) (id : Nat) : Prop where
  listed : ∃ views view, t.list = .ok views ∧ view ∈ views ∧ view.id = id ∧ t.get id = .ok view
  update : ∀ plan, (∀ e, ¬plan.Refused t.now e) → ∃ view, (t.update id plan).1 = .ok view ∧
    (t.update id plan).2.statusOf? id = some .running

theorem Agrees.available (h : t.Agrees) (sound : t.roster.isSpoiled = false)
    (hpost : (id, n) ∈ t.posts) : t.Available id := by
  obtain ⟨e, he, rfl⟩ := h.exists_entry hpost
  constructor
  · refine ⟨t.roster.entries.map t.viewOf, t.viewOf e, ?_, List.mem_map_of_mem he, ?_, ?_⟩
    · rw [list, Roster.all, Roster.sound, sound]
      rfl
    · exact t.viewOf_id e
    · rw [get_of_not_spoiled sound, (Roster.find?_eq_some_iff h.nodup).mpr ⟨he, rfl⟩]
  · intro plan admissible
    have hacted : (t.act (.update e.id plan)).Agrees := h.act rfl
    have hagrees : (t.update e.id plan).2.Agrees := hacted
    rcases h.update_cases e.id plan with
      ⟨cause, hupdate⟩ | ⟨m, x, a, y, b, hpost', hfound, ha, hreplan, hstart, hupdate⟩
    · have hrefused := ((h.update_eq_error_iff sound).1.mp (congrArg Prod.fst hupdate))
      rcases hrefused with ⟨hmissing, _⟩ | ⟨_, reason, hreason, _⟩
      · exact absurd (List.mem_map_of_mem he) hmissing
      · exact absurd hreason (admissible reason)
    · rw [hupdate] at hagrees ⊢
      exact ⟨_, rfl, hagrees.toPosted.statusOf?_of_start (n := m) hpost'
        (Places.getElem?_set_self ha b) hstart⟩

/-- The entry of an id is available until a request takes it out. As long as none updates it either,
it has no handle once the watcher of vigil `i` was polled, and at rest. That is, unless the roster
is spoiled. -/
def StaysAvailable (t : Timetable) (i id : Nat) : Prop :=
  ∃ k w, t.watchers[k]? = some w ∧ w.entry = id ∧ w.vigil = i ∧
    ∀ later : List Act, (∀ act ∈ later, act.isDirect = false ∧ act.removes id = false) →
      let u := t.run later
      u.roster.isSpoiled = false →
        u.Available id ∧ ((∀ act ∈ later, act.changes id = false) →
          .pollWatcher k ∈ later ∨ u.step? = none →
            ∀ view, u.get id = .ok view → view.handle = none)

/-- As long as alarm `n` is not started, it is idle, there is nothing to cancel, and none of its
vigils begins a run. -/
def StaysIdle (t : Timetable) (n : Nat) : Prop :=
  ∀ (a : Alarm) (later : List Act) (b : Alarm), t.alarms[n]? = some a →
    (t.run later).alarms[n]? = some b → b.generation = a.generation →
      b.status = .idle ∧ (t.run later).cancelAlarm n = .error .notRunning ∧
        ∀ i w, (t.run later).vigils[i]? = some w → w.alarm = n →
          beginnings i (t.run later).annals = beginnings i t.annals

theorem staysIdle_of_idle (hsound : t.core.Sound) (ha : t.alarms[n]? = some a)
    (idle : a.status = .idle) : t.StaysIdle n := by
  intro x later b hx hb same
  obtain rfl : a = x := Option.some.inj (ha.symm.trans hx)
  obtain ⟨idle', hstill⟩ := hsound.dormant (t.steps_run later) ha idle hb same
  refine ⟨idle', cancelAlarm_of_stopped ?_, hstill⟩
  intro y hy
  obtain rfl : b = y := Option.some.inj (hb.symm.trans hy)
  rw [Alarm.isRunning, idle']
  rfl

/-- The entry of an alarm whose vigil has ended by itself stays available. -/
theorem staysAvailable_of_concluded {start : Instant} {source : IdSource}
    {replies : List RestartReply} {acts : List Act} (hacts : ∀ act ∈ acts, act.isDirect = false)
    (ht : (opening start source replies).run acts = t) (hpost : (id, n) ∈ t.posts)
    (hlatest : t.IsLatest n i) (concluded : t.hasConcluded i = true) :
    t.StaysAvailable i id := by
  subst ht
  have hopening := custody_opening start source replies
  have hagrees := hopening.agrees.run hacts
  have hsound := sound_run start source replies acts
  have htendedOpening : (opening start source replies).Tended :=
    tended_opening start source replies
  obtain ⟨k, w, htends⟩ := htendedOpening.run hopening.agrees hacts hpost
  obtain rfl : w.vigil = i := htends.vigil.unique hsound hlatest
  refine ⟨k, w, htends.watcher, htends.entry, rfl, ?_⟩
  intro later hlater u sound
  have hdirect : ∀ act ∈ later, act.isDirect = false := fun act hact => (hlater act hact).1
  have hkept : ∀ act ∈ later, act.removes id = false := fun act hact => (hlater act hact).2
  have hall : ∀ act ∈ acts ++ later, act.isDirect = false :=
    fun act hact => (List.mem_append.mp hact).elim (hacts act) (hdirect act)
  have hpost' : (id, n) ∈ u.posts := hagrees.mem_posts_run hpost hdirect hkept
  have hu : u = (opening start source replies).run (acts ++ later) := (run_append _ _ _).symm
  refine ⟨(hagrees.run hdirect).available sound hpost', ?_⟩
  intro hunchanged hpolled view hget
  have hsteps := hagrees.unstarted_run hpost hdirect hunchanged
  obtain ⟨e, he, hid, rfl⟩ := get_ok hget
  obtain ⟨x, hx, hgrant⟩ := hagrees.watcher_run hdirect htends.watcher
  have hvigil : x.vigil = w.vigil := congrArg Grant.vigil hgrant
  have htaken : u.hasTaken x = true :=
    hopening.hasTaken_of_concluded rfl hall (hvigil ▸ concluded) hx hpolled
  have hcustody : u.Custody := hu ▸ hopening.run hall (hu ▸ sound)
  have htended : u.Tended := hu ▸ htendedOpening.run hopening.agrees hall
  have hlater' : u.IsLatest n x.vigil := by
    rw [hvigil]
    exact hlatest.keep hsteps fun _ _ => hsteps.generation_eq (by simp)
  rw [viewOf_handle]
  exact hcustody.handle_of_taken htended (hsound.steps hsteps) he (hid ▸ hpost') hx hlater' htaken

/-- With a poll of a live vigil, a run of its recurring alarm comes back that has succeeded, and the
clock does not show a leap second then. -/
structure Succeeds (t : Timetable) (i : Nat) (v : Vigil) (a : Alarm) (r : Return) : Prop where
  vigil : t.vigils[i]? = some v
  alarm : t.alarms[v.alarm]? = some a
  live : t.core.IsLive v
  recurring : a.period.isZero = false
  checked : checkPeriod a.period = .ok ()
  returned : returns i (t.poll i).annals = r :: returns i t.annals
  result : r.result = .succeeded
  plain : r.time.inLeapSecond = false

/-- A wait for what is one span later takes the milliseconds of that span. -/
theorem timerFor_of_later {due : Instant} {s : Span} (now : t.now.inLeapSecond = false)
    (plain : due.inLeapSecond = false) (hdue : due.sinceEpoch = t.now.sinceEpoch + s.nanos) :
    t.timerFor due = t.elapsed + s.ceilMillis := by
  simp only [timerFor, Span.ceilMillis]
  rw [Instant.between_eq now plain, hdue]
  omega

theorem RanOut.staysAvailable {start : Instant} {source : IdSource} {replies : List RestartReply}
    {acts : List Act} (hacts : ∀ act ∈ acts, act.isDirect = false)
    (ht : (opening start source replies).run acts = t) (hv : t.vigils[i]? = some v)
    (ha : t.alarms[v.alarm]? = some a) (live : t.core.IsLive v) (h : (t.poll i).RanOut i v a) :
    (t.poll i).StaysAvailable i a.entry := by
  have hkept : t.Kept := ht ▸ (kept_opening start source replies).run hacts
  have hpost : (a.entry, v.alarm) ∈ (t.poll i).posts := by
    rw [show (t.poll i).posts = t.posts from congrArg Ledger.posts (t.ledger_poll i)]
    exact hkept.attached.post hv live ha
  obtain ⟨b, hb, own, _⟩ := hkept.sound.alarm_of_live hv live
  obtain rfl : a = b := Option.some.inj (ha.symm.trans hb)
  have hpolled : (opening start source replies).run (acts ++ [.poll i]) = t.poll i := by
    rw [run_append, ht]
    rfl
  refine staysAvailable_of_concluded ?_ hpolled hpost ⟨_, _, h.vigil, rfl, h.alarm, own⟩ ?_
  · intro act hact
    rcases List.mem_append.mp hact with hold | hnew
    · exact hacts act hold
    · rw [List.mem_singleton.mp hnew]
      rfl
  · rw [hasConcluded, h.vigil]
    rfl

/-- When a run of a recurring alarm has succeeded, its alarm runs, and is set to what comes one
period after the reading of the clock, if there is such an instant: that is later, nothing else
changes, and the vigil waits for it. If there is none, the vigil fails and leaves the alarm idle
with its time and its period; until someone starts it, it cannot be cancelled and no run of it
begins; and in a service the entry stays available until it is taken out. Whatever the clock shows
and whatever an alarm is set to, the wait between them and the time that comes one period later are
what they should be: there is a wait for all instants, of less than 2⁶³ milliseconds, and a sum for
all spans and instants but where it would be out of range. -/
theorem rearming_exact :
    (∀ (start : Instant) (source : IdSource) (replies : List RestartReply) (acts : List Act)
      (i : Nat) (v : Vigil) (a : Alarm) (r : Return),
      let t := (opening start source replies).run acts
      let u := t.poll i
      t.Succeeds i v a r → a.status = .running ∧ r.time = u.now ∧
        (∀ due : Instant, due.sinceEpoch = r.time.sinceEpoch + a.period.nanos →
          due.inLeapSecond = false →
            r.time < due ∧ u.SetAgain i v a due ∧
              u.timerFor due = u.elapsed + a.period.ceilMillis) ∧
        ((∀ due : Instant, due.inLeapSecond = false →
            due.sinceEpoch ≠ r.time.sinceEpoch + a.period.nanos) →
          u.RanOut i v a ∧ endings i u.annals = [.failed outOfRange] ∧ u.StaysIdle v.alarm ∧
            ((∀ act ∈ acts, act.isDirect = false) → u.StaysAvailable i a.entry))) ∧
    (∀ (t : Timetable) (due : Instant),
      (t.now.between due).natAbs ≤ Span.displacementLimit ∧
        ((t.now.wait due).nanos : Int) = max (t.now.between due) 0 ∧
        (t.now.wait due).ceilMillis < 2 ^ 63 ∧
        t.timerFor due = t.elapsed + (t.now.wait due).ceilMillis) ∧
    ∀ (now : Instant) (period : Span), checkPeriod period = .ok () → period.isZero = false →
      period.nanos ≤ Span.displacementLimit ∧
        ∀ due, now.add? period = some due ↔ now.IsAfter period due := by
  refine ⟨?_, ?_, ?_⟩
  · intro start source replies acts i v a r t u h
    have hsound : t.core.Sound := sound_run start source replies acts
    have hlong := Nat.le_of_lt (Span.second_lt_of_checkPeriod h.checked h.recurring)
    obtain ⟨hr, hnext⟩ := (passing_poll h.vigil h.alarm).succeeded hsound h.vigil h.alarm h.live
      h.recurring h.returned h.result
    obtain ⟨b, hb, own, _, running⟩ := hsound.alarm_of_live h.vigil h.live
    obtain rfl : a = b := Option.some.inj (h.alarm.symm.trans hb)
    have htime : r.time = u.now := congrArg Return.time hr
    refine ⟨running, htime, ?_, ?_⟩
    · intro due hdue plain
      have hafter : r.time.IsAfter a.period due :=
        (Instant.isAfter_iff_of_plain h.plain).mpr ⟨hdue, plain⟩
      rw [(Instant.add?_eq_some_iff hlong).mpr hafter] at hnext
      refine ⟨hafter.lt hlong, hnext, ?_⟩
      exact timerFor_of_later (htime ▸ h.plain) plain (htime ▸ hdue)
    · intro hnone
      have hoverflow : r.time.add? a.period = none := by
        rw [Option.eq_none_iff_forall_ne_some]
        intro due hdue
        obtain ⟨hsince, plain⟩ := Instant.add?_eq_some h.plain hdue
        exact hnone due plain hsince
      rw [hoverflow] at hnext
      have ranOut : u.RanOut i v a := hnext
      refine ⟨ranOut, ?_, ?_, ?_⟩
      · have hrecorded := (recorded_opening start source replies).steps
          (steps_run (opening start source replies) (acts ++ [.poll i]))
        rw [run_append] at hrecorded
        exact hrecorded.endings_eq ranOut.vigil
      · have hpolled : Core.Steps (fun _ => True) t.core u.core := (t.moves_poll i).steps trivial
        exact staysIdle_of_idle (hsound.steps hpolled) ranOut.alarm rfl
      · intro hacts
        exact ranOut.staysAvailable hacts rfl h.vigil h.alarm h.live
  · intro t due
    exact ⟨Instant.natAbs_between_le _ _, Instant.wait_nanos _ _, Instant.ceilMillis_wait_lt _ _,
      t.timerFor_eq due⟩
  · intro now period checked recurring
    have hlong := Nat.le_of_lt (Span.second_lt_of_checkPeriod checked recurring)
    refine ⟨?_, fun due => Instant.add?_eq_some_iff hlong⟩
    exact ((checkPeriod_eq_ok_iff.mp checked).resolve_left (Bool.eq_false_iff.mp recurring)).2

def lastMinute : Instant := (Instant.of? Instant.lastDay 86340 0).getD .epoch

def tooLate : Plan := .recurring lastMinute ⟨3600 * 10 ^ 9, by decide⟩

/-- An entry runs in the last minute and would run again an hour later. Its alarm stays idle, and
the entry is listed without its handle once the watcher was polled. -/
theorem rearming_exact_of_last_minute :
    let t := (opening lastMinute {} []).run [.create (Task.always .succeeded) tooLate]
    (t.poll 0).StaysIdle 0 ∧ ((t.poll 0).run [.pollWatcher 0]).Available 1001 ∧
      ∀ view, ((t.poll 0).run [.pollWatcher 0]).get 1001 = .ok view → view.handle = none := by
  intro t
  let vigil : Vigil := { alarm := 0, token := 0, generation := 1, since := 0 }
  let back : Return := ⟨.succeeded, lastMinute, tooLate.period⟩
  have hsucceeds : t.Succeeds 0 vigil _ back := {
    vigil := by decide +kernel
    alarm := rfl
    live := ⟨rfl, _, rfl, rfl⟩
    recurring := rfl
    checked := rfl
    returned := by decide +kernel
    result := rfl
    plain := rfl }
  obtain ⟨_, _, _, hlate⟩ := rearming_exact.1 lastMinute {} []
    [.create (Task.always .succeeded) tooLate] 0 vigil _ back hsucceeds
  have hnone : ∀ due : Instant, due.inLeapSecond = false →
      due.sinceEpoch ≠ lastMinute.sinceEpoch + tooLate.period.nanos := by
    intro due plain hsince
    have hsum : lastMinute.add? tooLate.period = some due :=
      (Instant.add?_eq_some_iff (by decide)).mpr
        ((Instant.isAfter_iff_of_plain rfl).mpr ⟨hsince, plain⟩)
    rw [show lastMinute.add? tooLate.period = none by decide +kernel] at hsum
    cases hsum
  obtain ⟨_, _, idle, available⟩ := hlate hnone
  obtain ⟨_, _, _, _, _, hlater⟩ := available (by simp [Act.isDirect])
  have hrest : ((t.poll 0).run [.pollWatcher 0]).step? = none := by
    rw [step?_eq_none_iff]
    exact ⟨by decide +kernel, by decide +kernel⟩
  obtain ⟨havailable, hfree⟩ :=
    hlater [.pollWatcher 0] (by simp [Act.isDirect, Act.removes]) (by decide +kernel)
  have hunchanged : ∀ act ∈ [Act.pollWatcher 0], act.changes 1001 = false := by
    simp [Act.changes, Act.removes]
  exact ⟨idle, havailable, hfree hunchanged (Or.inr hrest)⟩

/-- The source breaks off while the first entry waits for its run. Everything else is as before:
the run succeeds and there is no instant an hour later. But at rest the entry is neither listed nor
shown nor updated, and it has kept its handle. -/
theorem unavailable_of_gap :
    let t := (opening lastMinute ⟨[some 1, none], 1001⟩ []).run
      [.create (Task.always .succeeded) tooLate, .create (Task.always .succeeded) .once]
    let u := (t.poll 0).run [.pollWatcher 0]
    (∃ v a, t.Succeeds 0 v a ⟨.succeeded, lastMinute, a.period⟩ ∧ a.entry = 1 ∧
      lastMinute.add? a.period = none) ∧
      u.step? = none ∧ u.list = .error (.roster .spoiled) ∧ u.get 1 = .error (.roster .spoiled) ∧
      (∀ plan, (u.update 1 plan).1 = Attempt.refuse (.roster .spoiled)) ∧
      u.roster.entries.map Entry.handle = [some 1] := by
  intro t u
  have hfrozen : u.Frozen := frozen_of_spoiled (by decide +kernel)
  refine ⟨⟨{ alarm := 0, token := 0, generation := 1, since := 0 }, _, {
    vigil := by decide +kernel
    alarm := rfl
    live := ⟨rfl, _, rfl, rfl⟩
    recurring := rfl
    checked := rfl
    returned := by decide +kernel
    result := rfl
    plain := rfl }, rfl, by decide +kernel⟩, ?_, hfrozen.list, hfrozen.get 1, ?_, ?_⟩
  · rw [step?_eq_none_iff]
    exact ⟨by decide +kernel, by decide +kernel⟩
  · intro plan
    exact congrArg Prod.fst (hfrozen.update 1 plan 0 (by decide +kernel))
  · decide +kernel

end Timetable

end Almanac
