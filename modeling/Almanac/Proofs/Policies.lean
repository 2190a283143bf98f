import Almanac.Proofs.Orphans
import Almanac.Proofs.Steady

/-!
# Policies

An entry and an alarm have a policy each, and five operations set them. Two of those copy what they
are given and check nothing. All the same no period is ever stored that would not pass its check,
whoever does what in which order, as long as entries come from where entries are built.
-/

namespace Almanac

/-- The periods that pass: none at all, and those from a minute to the limit of displacements. -/
theorem checkPeriod_eq_ok_iff {period : Span} :
    checkPeriod period = .ok () ↔
      period.isZero = true ∨ Span.minute ≤ period ∧ period.nanos ≤ Span.displacementLimit := by
  have hminute : Span.minute ≤ period ↔ ¬period < Span.minute := Nat.not_lt.symm
  have hzero : period.isZero = true → period.nanos ≤ Span.displacementLimit := by
    intro h
    rw [eq_of_beq h]
    exact Nat.zero_le _
  rw [hminute, checkPeriod, Span.isDisplacement]
  by_cases once : period.isZero = true
  · simp [once, hzero once]
  · by_cases short : period < Span.minute
    · simp [once, short]
    · simp [once, short]

namespace Entry

variable {e : Entry} {plan : Plan} {now : Instant}

/-- A policy that is admissible begins no earlier than now. -/
theorem due_of_policyOf {due : Instant} {period : Span}
    (h : policyOf plan now = .ok (due, period)) : ¬due < now := by
  obtain ⟨first, hfirst, h⟩ := bind_eq_ok_iff.mp h
  obtain ⟨_, _, h⟩ := bind_eq_ok_iff.mp h
  cases h
  cases hasked : plan.first with
  | none =>
    rw [hasked] at hfirst
    cases hfirst
    exact now.not_lt_self
  | some time =>
    rw [hasked, firstFire] at hfirst
    split at hfirst
    · cases hfirst
    · next hlate =>
      cases hfirst
      exact hlate

theorem policyOf_of_new {task : Task} (h : new task plan now = .ok e) :
    policyOf plan now = .ok (e.due, e.period) := by
  obtain ⟨policy, hpolicy, h⟩ := bind_eq_ok_iff.mp h
  cases h
  exact hpolicy

theorem policyOf_of_replan {old : Entry} (h : old.replan plan now = .ok e) :
    policyOf plan now = .ok (e.due, e.period) := by
  obtain ⟨policy, hpolicy, h⟩ := bind_eq_ok_iff.mp h
  cases h
  exact hpolicy

/-- Holds of entries that have come out of one of the two ways to build one, under whatever id and
handle they go since. -/
inductive IsBuilt : Entry → Prop
  | new {task : Task} {plan : Plan} {now : Instant} {e : Entry} (made : new task plan now = .ok e) :
      IsBuilt e
  | replan {old : Entry} {plan : Plan} {now : Instant} {e : Entry}
      (made : old.replan plan now = .ok e) : IsBuilt e
  | named {e : Entry} (built : IsBuilt e) (id : Nat) (handle : Option Nat) :
      IsBuilt { e with id, handle }

theorem IsBuilt.period (h : e.IsBuilt) : checkPeriod e.period = .ok () := by
  induction h with
  | new made => exact period_of_policyOf (policyOf_of_new made)
  | replan made => exact period_of_policyOf (policyOf_of_replan made)
  | named built id handle ih => exact ih

end Entry

/-- What befalls a timetable whose parts are in everyone's hands: an act, or a use of the roster
past the requests. -/
inductive Touch where
  | act (act : Act)
  | add (e : Entry)
  | amend (e : Entry)
  | strike (id : Nat)
  | release (id handle : Nat)

def Touch.entry? : Touch → Option Entry
  | act (.setUp e) => some e
  | add e => some e
  | amend e => some e
  | _ => none

namespace Timetable

def touch (t : Timetable) : Touch → Timetable
  | .act act => t.act act
  | .add e => { t with roster := (t.roster.add e).roster }
  | .amend e =>
    match t.roster.update e with
    | .ok (_, roster) => { t with roster }
    | .error _ => t
  | .strike id => t.strike id
  | .release id handle => { t with roster := t.roster.released id handle }

/-- Holds of the entries that someone may have in hand: those that were built, and those that were
read from the roster. -/
def Offers (t : Timetable) (e : Entry) : Prop := e.IsBuilt ∨ e ∈ t.roster.entries

/-- One timetable becomes another by a touch. -/
inductive Touched (t : Timetable) : Timetable → Prop
  | by (x : Touch) (offered : ∀ e, x.entry? = some e → t.Offers e) : Touched t (t.touch x)

theorem entryOf_ok {t : Timetable} {id : Nat} {e : Entry} (h : t.entryOf id = .ok e) :
    e ∈ t.roster.entries ∧ e.id = id := by
  simp only [entryOf] at h
  split at h
  · cases h
  · cases h
  · next found hfound =>
    cases h
    exact Roster.byId_some hfound

/-- Every period, of an entry or of an alarm, has passed its check. -/
structure Checked (t : Timetable) : Prop where
  entries : ∀ e ∈ t.roster.entries, checkPeriod e.period = .ok ()
  alarms : ∀ a ∈ t.alarms, checkPeriod a.period = .ok ()

namespace Checked

variable {t u : Timetable} {n : Nat} {a b : Alarm} {e : Entry}

theorem opening (start : Instant) (source : IdSource) (replies : List RestartReply) :
    (opening start source replies).Checked where
  entries := by
    intro e he
    cases he
  alarms := by
    intro a ha
    cases ha

/-- Nothing counts but the entries and the alarms. -/
theorem congr (h : t.Checked) (roster : u.roster.entries = t.roster.entries)
    (alarms : u.alarms = t.alarms) : u.Checked where
  entries := roster ▸ h.entries
  alarms := alarms ▸ h.alarms

theorem set (h : t.Checked) (period : checkPeriod b.period = .ok ())
    (roster : u.roster.entries = t.roster.entries) (alarms : u.alarms = t.alarms.set n b) :
    u.Checked where
  entries := roster ▸ h.entries
  alarms := by
    rw [alarms]
    intro a ha
    rcases List.mem_or_eq_of_mem_set ha with hold | rfl
    · exact h.alarms a hold
    · exact period

theorem withRoster (h : t.Checked) {roster : Roster}
    (entries : ∀ e ∈ roster.entries, checkPeriod e.period = .ok ()) :
    Checked { t with roster } where
  entries := entries
  alarms := h.alarms

theorem modify (h : t.Checked) {id : Nat} {f : Entry → Entry}
    (hf : ∀ e ∈ t.roster.entries, checkPeriod (f e).period = .ok ()) :
    ∀ e ∈ (t.roster.modify id f).entries, checkPeriod e.period = .ok () := by
  intro e he
  obtain ⟨x, hx, rfl⟩ := Roster.mem_entries_modify.mp he
  split
  · exact hf x hx
  · exact h.entries x hx

theorem amended (h : t.Checked) (he : checkPeriod e.period = .ok ()) {stored : Entry}
    {roster : Roster} (hupdate : t.roster.update e = .ok (stored, roster)) :
    { t with roster }.Checked := by
  obtain ⟨found, _, hfound⟩ := bind_eq_ok_iff.mp hupdate
  cases found with
  | none => cases hfound
  | some old =>
    cases hfound
    exact h.withRoster (h.modify fun _ _ => he)

theorem added (h : t.Checked) (he : checkPeriod e.period = .ok ()) :
    { t with roster := (t.roster.add e).roster }.Checked := by
  refine h.withRoster ?_
  unfold Roster.add
  split
  · exact h.entries
  · split
    · exact h.entries
    · dsimp only
      split
      · exact h.entries
      · intro x hx
        rcases List.mem_append.mp hx with hold | hnew
        · exact h.entries x hold
        · rw [List.mem_singleton.mp hnew]
          exact he

theorem struck (h : t.Checked) {id : Nat} {roster : Roster}
    (hremove : t.roster.remove id = .ok roster) : { t with roster }.Checked := by
  obtain ⟨found, _, hfound⟩ := bind_eq_ok_iff.mp hremove
  cases found with
  | none => cases hfound
  | some old =>
    cases hfound
    exact h.withRoster fun e he => h.entries e (List.mem_filter.mp he).1

theorem released (h : t.Checked) (id handle : Nat) :
    { t with roster := t.roster.released id handle }.Checked := by
  obtain ⟨f, hentries⟩ := entries_released t.roster id handle
  refine h.withRoster ?_
  rw [hentries]
  intro e he
  obtain ⟨x, hx, rfl⟩ := List.mem_map.mp he
  exact h.entries x hx

theorem mem (ha : t.alarms[n]? = some a) (h : t.Checked) : checkPeriod a.period = .ok () :=
  h.alarms a (List.mem_of_getElem? ha)

theorem addAlarm (h : t.Checked) (he : checkPeriod e.period = .ok ()) :
    (t.addAlarm e).2.Checked where
  entries := h.entries
  alarms := by
    intro a ha
    rcases List.mem_append.mp ha with hold | hnew
    · exact h.alarms a hold
    · rw [List.mem_singleton.mp hnew]
      exact he

theorem startAlarm (h : t.Checked) {i : Nat} (hstart : t.startAlarm n = .ok (i, u)) :
    u.Checked := by
  obtain ⟨a, b, ha, hb, _, rfl⟩ := startAlarm_ok hstart
  obtain ⟨_, _, _, hperiod⟩ := Alarm.start_keeps hb
  exact h.set (hperiod ▸ mem ha h) rfl rfl

theorem cancelAlarm (h : t.Checked) (hcancel : t.cancelAlarm n = .ok u) : u.Checked := by
  obtain ⟨a, b, ha, hb, rfl⟩ := cancelAlarm_ok hcancel
  obtain ⟨_, rfl⟩ := Alarm.cancel_ok hb
  obtain ⟨_, _, _, hperiod⟩ := a.stop_keeps
  exact h.set (hperiod ▸ mem ha h) rfl rfl

theorem replanAlarm (h : t.Checked) {plan : Plan} (hreplan : t.replanAlarm n plan = .ok u) :
    u.Checked := by
  obtain ⟨a, b, ha, hb, rfl⟩ := replanAlarm_ok hreplan
  obtain ⟨due, period, hpolicy, rfl⟩ := Alarm.replan_ok hb
  exact h.set (Entry.period_of_policyOf hpolicy) rfl rfl

theorem poll (h : t.Checked) (i : Nat) : (t.poll i).Checked := by
  rcases t.poll_cases i with hsame | ⟨v, a, hv, ha⟩
  · rw [hsame]
    exact h
  · have halarms : (t.poll i).alarms = _ := congrArg Core.alarms (core_poll hv ha)
    have hroster : (t.poll i).roster = t.roster := congrArg Frame.roster (t.frame_poll i)
    have hperiod : checkPeriod a.period = .ok () := mem ha h
    exact h.set (b := (v.passage a t.moment (t.beginRun a.task).1).alarm a) hperiod
      (congrArg Roster.entries hroster) halarms

theorem pollWatcher (h : t.Checked) (j : Nat) : (t.pollWatcher j).Checked := by
  rcases t.pollWatcher_cases j with hsame | ⟨w, v, hw, waiting, hv, closed⟩
  · rw [hsame]
    exact h
  · obtain ⟨hcore, hledger⟩ := pollWatcher_of_over hw waiting hv closed
    have halarms : (t.pollWatcher j).alarms = t.alarms := congrArg Core.alarms hcore
    have hroster := congrArg (fun l => l.roster.entries) hledger
    dsimp only [ledger] at hroster
    split at hroster
    · exact (h.released w.entry w.handle).congr hroster halarms
    · exact h.congr hroster halarms

theorem discard (h : t.Checked) (id : Nat) : (t.discard id).Checked := by
  unfold Timetable.discard
  split
  · exact h
  · next number _ =>
    have hposts : Checked { t with posts := t.posts.filter fun p => p.1 != id } := h.congr rfl rfl
    dsimp only
    split
    · next hu => exact hposts.cancelAlarm hu
    · exact hposts

theorem assign (h : t.Checked) (id number : Nat) : (t.assign id number).Checked := by
  have hposts : Checked
      { t with posts := (t.posts.filter fun p => p.1 != id) ++ [(id, number)] } := h.congr rfl rfl
  simp only [Timetable.assign]
  split
  · next stopped hstopped =>
    obtain ⟨old, _, hold⟩ := Option.map_eq_some_iff.mp hstopped
    exact (hposts.cancelAlarm hold).congr rfl rfl
  · exact hposts

theorem launch (h : t.Checked) (he : checkPeriod e.period = .ok ())
    {withdraw : Timetable → Except RosterError Timetable} {undo publish : Timetable → Timetable}
    (hwithdraw : ∀ u w, u.Checked → withdraw u = .ok w → w.Checked)
    (hundo : ∀ u, u.Checked → (undo u).Checked) (hpublish : ∀ u, u.Checked → (publish u).Checked) :
    (t.launch e n withdraw undo publish).2.Checked := by
  simp only [Timetable.launch]
  split
  · split
    · next w hw => exact hwithdraw t w h hw
    · exact h
  · next i u hstart =>
    have hminted : u.mintHandle.2.Checked := (h.startAlarm hstart).congr rfl rfl
    dsimp only [mintHandle]
    split
    · exact hundo _ hminted
    · next hupdate =>
      have hroster := hminted.amended (e := { e with handle := some u.nextHandle }) he hupdate
      exact (hpublish _ hroster).congr rfl rfl

theorem enroll (h : t.Checked) (he : checkPeriod e.period = .ok ()) : (t.enroll e).2.Checked := by
  obtain ⟨journal, henroll⟩ := t.enroll_eq e
  rw [henroll]
  exact (h.added he).congr rfl rfl

theorem create (h : t.Checked) (task : Task) (plan : Plan) : (t.create task plan).2.Checked := by
  unfold Timetable.create
  split
  · exact h
  · next entry hnew =>
    have hperiod := Entry.period_of_policyOf (Entry.policyOf_of_new hnew)
    have henrolled := h.enroll hperiod
    obtain ⟨journal, henroll⟩ := t.enroll_eq entry
    split
    · next u hu =>
      rw [hu] at henrolled
      exact henrolled
    · next cause u hu =>
      rw [hu] at henrolled
      exact henrolled
    · next stored u hu =>
      rw [hu] at henrolled henroll
      have hstored : checkPeriod stored.period = .ok () := by
        obtain ⟨_, _, hsame, _⟩ := Roster.add_ok (Prod.mk.inj henroll).1.symm
        rw [congrArg Entry.period hsame]
        exact hperiod
      refine (henrolled.addAlarm hstored).launch hstored ?_ ?_ ?_
      · intro v w hv hw
        obtain ⟨roster, hroster, rfl⟩ := map_eq_ok_iff.mp hw
        exact hv.struck hroster
      · intro v hv
        split
        · next w hw => exact (hv.cancelAlarm hw).congr rfl rfl
        · exact hv.congr rfl rfl
      · intro v hv
        exact hv.assign stored.id _

theorem update (h : t.Checked) (id : Nat) (plan : Plan) : (t.update id plan).2.Checked := by
  simp only [Timetable.update]
  split
  · exact h
  · next number _ =>
    split
    · dsimp only
      split
      · exact h.discard id
      · exact h
    · next entry hentry =>
      split
      · exact h
      · next u hu =>
        have hreplanned := h.replanAlarm hu
        refine hreplanned.launch ?_ ?_ (fun v hv => hv.discard id) (fun v hv => hv)
        · split
          · next a ha => exact mem ha hreplanned
          · exact h.entries entry (entryOf_ok hentry).1
        · intro v w hv hw
          cases hw
          exact hv

theorem remove (h : t.Checked) (id : Nat) : (t.remove id).2.Checked := by
  unfold Timetable.remove
  split
  · exact h
  · dsimp only
    split
    · exact h.discard id
    · next hremove => exact (h.discard id).struck hremove

theorem stopAll (h : t.Checked) (posts : List (Nat × Nat)) : (t.stopAll posts).2.Checked := by
  induction posts generalizing t with
  | nil => exact h
  | cons post posts ih =>
    simp only [Timetable.stopAll]
    split
    · next hu => exact ih (h.cancelAlarm hu)
    · exact ih h

/-- An act keeps every period checked, if the entry that it may bring along has been. -/
theorem act (h : t.Checked) {act : Act}
    (hentry : ∀ e, act = .setUp e → checkPeriod e.period = .ok ()) : (t.act act).Checked := by
  cases act with
  | pass millis => exact h.congr rfl rfl
  | shiftClock millis => exact h.congr rfl rfl
  | poll vigil => exact h.poll vigil
  | pollWatcher watcher => exact h.pollWatcher watcher
  | create task plan => exact h.create task plan
  | update id plan => exact h.update id plan
  | remove id => exact h.remove id
  | shutdown => exact h.stopAll t.posts
  | list => exact h
  | get id => exact h
  | setUp entry => exact h.addAlarm (hentry entry rfl)
  | start alarm =>
    simp only [Timetable.act]
    split
    · next hstart => exact h.startAlarm hstart
    · exact h
  | cancel alarm =>
    simp only [Timetable.act]
    split
    · next hcancel => exact h.cancelAlarm hcancel
    · exact h
  | replan alarm plan =>
    simp only [Timetable.act]
    split
    · next hreplan => exact h.replanAlarm hreplan
    · exact h

/-- Nothing that is on offer has a period that would not pass. -/
theorem period_of_offers (h : t.Checked) (he : t.Offers e) : checkPeriod e.period = .ok () := by
  rcases he with built | stored
  · exact built.period
  · exact h.entries e stored

theorem touched (h : t.Checked) (htouched : t.Touched u) : u.Checked := by
  obtain ⟨x, offered⟩ := htouched
  cases x with
  | act act =>
    refine h.act ?_
    rintro e rfl
    exact h.period_of_offers (offered e rfl)
  | add e => exact h.added (h.period_of_offers (offered e rfl))
  | amend e =>
    simp only [touch]
    split
    · next hupdate => exact h.amended (h.period_of_offers (offered e rfl)) hupdate
    · exact h
  | strike id =>
    simp only [touch, strike]
    split
    · next hremove => exact h.struck hremove
    · exact h
  | release id handle => exact h.released id handle

theorem touches (h : t.Checked) (hsteps : Relation.ReflTransGen Touched t u) : u.Checked := by
  induction hsteps with
  | refl => exact h
  | tail _ hstep ih => exact ih.touched hstep

end Checked

section

variable {t u w : Timetable} {n m : Nat} {a b : Alarm} {view : EntryView}

/-- A cancel sets no alarm. -/
theorem due_of_cancelAlarm (h : t.cancelAlarm m = .ok u) (ha : t.alarms[n]? = some a) :
    ∃ b, u.alarms[n]? = some b ∧ b.due = a.due := by
  obtain ⟨old, x, hold, hx, rfl⟩ := cancelAlarm_ok h
  obtain ⟨_, rfl⟩ := Alarm.cancel_ok hx
  dsimp only
  rw [Places.getElem?_set hold]
  split
  · next hmn =>
    subst hmn
    rw [hold] at ha
    cases ha
    exact ⟨_, rfl, (Alarm.stop_keeps _).2.2.1⟩
  · exact ⟨a, ha, rfl⟩

/-- Who is given a post has it, and the alarm is set to what it was set to. -/
theorem assign_post (t : Timetable) (id : Nat) (ha : t.alarms[n]? = some a) :
    (t.assign id n).post? id = some n ∧
      ∃ b, (t.assign id n).alarms[n]? = some b ∧ b.due = a.due := by
  have hlookup : ((t.posts.filter fun p => p.1 != id) ++ [(id, n)]).lookup id = some n := by
    induction t.posts with
    | nil => simp
    | cons p posts ih =>
      by_cases hp : p.1 = id
      · simpa [hp] using ih
      · have hne : (id == p.1) = false := beq_eq_false_iff_ne.mpr (Ne.symm hp)
        rw [List.filter_cons_of_pos (by simpa using hp), List.cons_append, List.lookup_cons, hne]
        exact ih
  simp only [assign]
  split
  · next stopped hstopped =>
    obtain ⟨old, _, hcancel⟩ := Option.map_eq_some_iff.mp hstopped
    obtain ⟨b, hb, hdue⟩ := due_of_cancelAlarm (t := { t with
      posts := (t.posts.filter fun p => p.1 != id) ++ [(id, n)] }) hcancel ha
    obtain ⟨_, _, _, _, rfl⟩ := cancelAlarm_ok hcancel
    exact ⟨hlookup, b, hb, hdue⟩
  · exact ⟨hlookup, a, ha, rfl⟩

/-- What is answered to a launch shows what the alarm was set to before. -/
theorem due_of_launch {e : Entry} {withdraw : Timetable → Except RosterError Timetable}
    {undo publish : Timetable → Timetable} (ha : t.alarms[n]? = some a)
    (hpublish : ∀ u : Timetable, u.posts = t.posts → ∀ b, u.alarms[n]? = some b →
      (publish u).post? e.id = some n ∧ ∃ c, (publish u).alarms[n]? = some c ∧ c.due = b.due)
    (hlaunch : (t.launch e n withdraw undo publish).1 = .ok view) : view.due = a.due := by
  simp only [launch] at hlaunch
  split at hlaunch
  · split at hlaunch <;> cases hlaunch
  · next i u hstart =>
    obtain ⟨x, b, hx, hb, -, rfl⟩ := startAlarm_ok hstart
    rw [ha] at hx
    cases hx
    dsimp only [mintHandle] at hlaunch
    split at hlaunch
    · cases hlaunch
    · next stored roster hupdate =>
      have hid : stored.id = e.id := by
        obtain ⟨found, hfound, hstored⟩ := bind_eq_ok_iff.mp hupdate
        cases found with
        | none => cases hstored
        | some old =>
          cases hstored
          exact (Roster.byId_some hfound).2
      obtain ⟨hpost, c, hc, hdue⟩ := hpublish { t.launched n b with roster } rfl b
        (Places.getElem?_set_self ha b)
      rw [← hid] at hpost
      cases hlaunch
      have hshown := congrArg EntryView.due (viewOf_of_post hpost hc)
      exact hshown.trans (hdue.trans (Alarm.start_keeps hb).2.2.1)

theorem due_of_create {task : Task} {plan : Plan} (h : (t.create task plan).1 = .ok view) :
    ¬view.due < t.now := by
  unfold create at h
  split at h
  · cases h
  · next entry hnew =>
    obtain ⟨journal, henroll⟩ := t.enroll_eq entry
    split at h
    · cases h
    · cases h
    · next stored u hu =>
      rw [hu] at henroll
      obtain ⟨houtcome, hstate⟩ := Prod.mk.inj henroll
      obtain ⟨_, _, hsame, _⟩ := Roster.add_ok houtcome.symm
      have hdue := due_of_launch (a := Alarm.ofEntry stored) (Places.getElem?_last _ _)
        (fun v _ b hb => v.assign_post stored.id hb) h
      have hstored : stored.due = entry.due := (congrArg Entry.due hsame :)
      rw [hdue, Alarm.ofEntry, hstored]
      exact Entry.due_of_policyOf (Entry.policyOf_of_new hnew)

theorem due_of_update {id : Nat} {plan : Plan} (h : (t.update id plan).1 = .ok view) :
    ¬view.due < t.now := by
  simp only [update] at h
  split at h
  · cases h
  · next number hpost =>
    split at h
    · cases h
    · next entry hentry =>
      split at h
      · cases h
      · next u hu =>
        obtain ⟨a, b, ha, hb, rfl⟩ := replanAlarm_ok hu
        obtain ⟨due, period, hpolicy, rfl⟩ := Alarm.replan_ok hb
        have hset := Places.getElem?_set_self ha { a.stop.renew with due, period }
        have hown : t.post? entry.id = some number := by
          rw [(entryOf_ok hentry).2]
          exact hpost
        rw [due_of_launch hset ?_ h]
        · exact Entry.due_of_policyOf hpolicy
        · intro v hposts c hc
          refine ⟨?_, c, hc, rfl⟩
          dsimp only at hc ⊢
          rw [hset]
          simp only [post?] at hown ⊢
          rw [hposts]
          exact hown

end

end Timetable

end Almanac
