import Almanac.Proofs.Answers
import Almanac.Proofs.Episodes

/-!
# Schedules that never fail

A task that a client orders succeeds with every run, whatever answers it gets. So the vigil of a
recurring entry sets its alarm again after every run, until someone takes the alarm from it, or
there is no instant to set it to.
-/

namespace Almanac

namespace Web

variable [Locators] {t : Timetable} {credentials : Option (String × String)} {r : Request}
  {route : Route}

theorem post_of_created (h : (handle credentials t r).1.status = 201) :
    Route.ofPath? r.path = some .entries ∧ judge credentials r = .admitted ∧ r.method = "POST" ∧
      r.body.length ≤ bodyLimit := by
  obtain ⟨route, hroute, hadmitted, hdispatch⟩ := dispatch_of_status h (by decide)
  cases route with
  | home => cases hdispatch
  | health => cases hdispatch
  | entries =>
    simp only [dispatch] at hdispatch
    split at hdispatch
    · next hpost =>
      split at hdispatch
      · cases hdispatch
      · next hfits => exact ⟨hroute, hadmitted rfl, hpost, Nat.not_lt.mp hfits⟩
    · refine absurd hdispatch (conclude_status_ne (by decide) fun _ hlist => ?_)
      simp [listEntries_status hlist]
  | entry raw => exact absurd hdispatch (handleEntry_status_ne (by decide) r.method raw r.body)

/-- What is answered with status 201 is a create that has succeeded, of a task that was ordered. -/
theorem create_of_created (h : (handle credentials t r).1.status = 201) :
    ∃ value task plan view, Task.ofJson value = .ok task ∧ (t.create task plan).1 = .ok view ∧
      handle credentials t r = (.data 201 view.json, t.act (.create task plan)) := by
  obtain ⟨hroute, hadmitted, hpost, hfits⟩ := post_of_created h
  rw [handle_post hroute hadmitted hpost hfits] at h ⊢
  have herror (u : Timetable) (e : Failure Problem) : (conclude u (.error e)).1.status ≠ 201 :=
    conclude_status_ne (by decide) fun _ hok => by cases hok
  cases horder : orderOf r.body t.now with
  | error e =>
    rw [createEntry_of_error horder] at h
    exact absurd h (herror t e)
  | ok order =>
    obtain ⟨task, plan⟩ := order
    obtain ⟨value, hordered⟩ := ofJson_of_orderOf horder
    have hact : t.act (.create task plan) = (t.create task plan).2 := rfl
    simp only [createEntry, horder] at h ⊢
    refine ⟨value, task, plan, ?_⟩
    rw [hact]
    generalize t.create task plan = result at h ⊢
    obtain ⟨cause | view, u⟩ := result
    · rcases cause with e | _ <;> exact absurd h (herror u _)
    · exact ⟨view, hordered, rfl, rfl⟩

end Web

/-- A live vigil with which no run comes back goes on as before. -/
theorem Vigil.isOpen_passage {v : Vigil} {a : Alarm} {m : Moment} {turn : Turn}
    (isOpen : v.phase.isOpen = true) (held : a.isRevoked v.token = false)
    (h : (v.passage a m turn).returned = none) :
    (v.passage a m turn).phase.isOpen = true ∧ (v.passage a m turn).alarm a = a := by
  have hway := v.way a m turn
  generalize v.passage a m turn = p at *
  cases hway with
  | quits pending revoked =>
    rw [held] at revoked
    cases revoked
  | setsOff pending held due =>
    simp only [setOff] at h ⊢
    split at h
    · cases h
    · next slow =>
      rw [if_neg slow]
      exact ⟨rfl, rfl⟩
  | waits pending held early => exact ⟨rfl, rfl⟩
  | comesBack running due => cases h
  | stays pending waiting => exact ⟨isOpen, rfl⟩

namespace Core

variable {c d : Core} {i j : Nat} {v : Vigil} {a : Alarm}

/-- The moves of other vigils leave a live vigil and its alarm as they are. -/
theorem Sound.undisturbed_of_moves (h : c.Sound) (hmoves : Moves j c d) (hij : j ≠ i)
    (hv : c.vigils[i]? = some v) (ha : c.alarms[v.alarm]? = some a) (live : c.IsLive v) :
    d.vigils[i]? = some v ∧ d.alarms[v.alarm]? = some a := by
  have hmay : ¬(.move i : Impulse) = .move j := by
    intro hmove
    cases hmove
    exact hij rfl
  induction hmoves with
  | refl => exact ⟨hv, ha⟩
  | @tail b d hbefore hmove ih =>
    obtain ⟨hv', ha'⟩ := ih
    have hsteps : Steps (· = .move j) c b := Moves.steps hbefore rfl
    have hstep : Step (· = .move j) b d := .move j rfl hmove
    refine (h.steps hsteps).undisturbed_step hstep hmay hv' ha' (live.of_same ha ha') ?_
    obtain ⟨_, _, goes⟩ := hmove
    intro deeds hdeeds deed hdeed
    rw [← List.append_cancel_right hdeeds] at hdeed
    have hkeeps := (goes.deeds deed hdeed).2 v.alarm
    rw [Bool.eq_false_iff] at hkeeps ⊢
    exact mt Deed.takesOver_of_revises hkeeps

end Core

namespace Timetable

variable {t u w : Timetable} {i n id : Nat} {v : Vigil} {a : Alarm}

/-- Holds of the acts that take alarm `n`, which drives the entry of an id, from its vigil: of
updates, removes, cancels and new plans that succeed, and of shutdowns. -/
def withdraws (t : Timetable) (id n : Nat) : Act → Bool
  | .update other plan => other == id && t.succeeds (.update other plan)
  | .remove other => other == id && t.succeeds (.remove other)
  | .shutdown => true
  | .cancel m => m == n && (t.cancelAlarm m).isOk
  | .replan m plan => m == n && (t.replanAlarm m plan).isOk
  | _ => false

/-- Holds of the episodes that take alarm `n`, which drives the entry of an id, from its vigil. -/
def isWithdrawn [Locators] (t : Timetable) (id n : Nat) : Episode → Bool
  | .act act => t.withdraws id n act
  | .request credentials r =>
    Web.target? r == some id && (Web.handle credentials t r).1.isSuccess
  | .poll _ _ => false

/-- A request takes no alarm away that it is not answered so. -/
theorem withdraws_of_meant [Locators] {r : Web.Request} {response : Web.Response} {act : Act}
    (hmeant : Web.Meant t r response act)
    (h : (Web.target? r == some id && response.isSuccess) = false) :
    t.withdraws id n act = false := by
  have hfails : ∀ {other : Nat} {succeeds : Bool}, Web.target? r = some other →
      (succeeds = true → response.isSuccess = true) → (other == id && succeeds) = false := by
    intro other succeeds target success
    rw [Bool.eq_false_iff, ne_eq, Bool.and_eq_true, beq_iff_eq]
    rintro ⟨rfl, hsucceeds⟩
    rw [target, success hsucceeds] at h
    simp at h
  cases hmeant with
  | nothing => rfl
  | creates plan ordered => rfl
  | updates plan target success => exact hfails target success
  | removes target success => exact hfails target success

/-- One timetable becomes another by an episode that leaves alarm `n` to its vigil. -/
def LeavesTo [Locators] (id n : Nat) (t u : Timetable) : Prop :=
  ∃ x, t.isWithdrawn id n x = false ∧ u = t.meet x

/-- Vigil `i` is live, and its alarm `n` is `a`. -/
structure Attends (t : Timetable) (n i : Nat) (a : Alarm) : Prop where
  alarm : t.alarms[n]? = some a
  running : a.status = .running
  vigil : ∃ v, t.vigils[i]? = some v ∧ v.alarm = n ∧ t.core.IsLive v

/-- Alarm `n` drives the entry that is shown so, and vigil `i` attends to it. No run has come back
yet. -/
structure Installed (t : Timetable) (view : EntryView) (n i : Nat) (a : Alarm) : Prop where
  post : (view.id, n) ∈ t.posts
  attends : t.Attends n i a
  fresh : returns i t.annals = []
  due : view.due = a.due
  period : view.period = a.period.words
  task : view.task = a.task.view

/-- What an episode comes to for vigil `i`, which sets alarm `n` again after every run: it goes on,
a run has come back and the alarm is set to one period later, or there is no such instant. -/
inductive Recurs (t u : Timetable) (n i : Nat) (period : Span) : Prop
  | goesOn {a : Alarm} (attends : u.Attends n i a) (same : a.period = period)
      (returned : returns i u.annals = returns i t.annals)
  | setAgain {v : Vigil} {a : Alarm} {due : Instant} (attends : u.Attends n i { a with due })
      (same : a.period = period) (later : u.now.add? period = some due)
      (returned : returns i u.annals = ⟨.succeeded, u.now, period⟩ :: returns i t.annals)
      (set : u.SetAgain i v a due)
  | ranOut {v : Vigil} {a : Alarm} (alarm : v.alarm = n) (never : u.now.add? period = none)
      (returned : returns i u.annals = ⟨.succeeded, u.now, period⟩ :: returns i t.annals)
      (ended : u.RanOut i v a)

/-- A vigil that stays as it is attends to its alarm as long as that does, too. -/
theorem Attends.of_kept (h : t.Attends n i a)
    (hvigil : ∀ v, t.vigils[i]? = some v → u.vigils[i]? = some v)
    (halarm : u.alarms[n]? = some a) : u.Attends n i a := by
  obtain ⟨ha, running, v, hv, rfl, live⟩ := h
  have ha' : t.core.alarms[v.alarm]? = some a := ha
  exact ⟨halarm, running, v, hvigil v hv, rfl, live.of_same ha' halarm⟩

theorem Attends.of_core (h : t.Attends n i a) (hcore : u.core = t.core) : u.Attends n i a := by
  have halarms : u.alarms = t.alarms := congrArg Core.alarms hcore
  have hvigils : u.vigils = t.vigils := congrArg Core.vigils hcore
  exact h.of_kept (fun v hv => hvigils ▸ hv) (halarms ▸ h.alarm)

theorem Attends.of_moves (h : t.Attends n i a) (hsound : t.core.Sound) {j : Nat} (hij : j ≠ i)
    (hmoves : Core.Moves j t.core u.core) : u.Attends n i a := by
  obtain ⟨ha, running, v, hv, rfl, live⟩ := h
  obtain ⟨hv', ha'⟩ := hsound.undisturbed_of_moves hmoves hij hv ha live
  exact ⟨ha', running, v, hv', rfl, live.of_same (c := t.core) (d := u.core) ha ha'⟩

/-- A command that goes straight to an alarm finds a live vigil there, or is for another one. -/
theorem Attends.of_direct (h : t.Attends n i a) {act : Act} (hdirect : act.isDirect = true)
    (hact : t.withdraws id n act = false) : (t.act act).Attends n i a := by
  have hset : ∀ {m : Nat}, m ≠ n → ∀ y : Alarm, (t.alarms.set m y)[n]? = some a :=
    fun hm y => (List.getElem?_set_ne hm).trans h.alarm
  cases act with
  | setUp entry =>
    exact h.of_kept (fun _ hv => hv) (Places.getElem?_append h.alarm _)
  | start m =>
    simp only [Timetable.act]
    split
    · next hstart =>
      obtain ⟨x, y, hx, started, _, rfl⟩ := startAlarm_ok hstart
      refine h.of_kept (fun _ hv => Places.getElem?_append hv _) (hset ?_ y)
      rintro rfl
      obtain rfl : a = x := Option.some.inj (h.alarm.symm.trans hx)
      exact (Alarm.start_ok started).1 h.running
    · exact h
  | cancel m =>
    simp only [Timetable.act, withdraws] at hact ⊢
    split
    · next hcancel =>
      rw [hcancel] at hact
      obtain ⟨x, y, hx, _, rfl⟩ := cancelAlarm_ok hcancel
      refine h.of_kept (fun _ hv => hv) (hset ?_ y)
      rintro rfl
      simp [Except.isOk, Except.toBool] at hact
    · exact h
  | replan m plan =>
    simp only [Timetable.act, withdraws] at hact ⊢
    split
    · next hreplan =>
      rw [hreplan] at hact
      obtain ⟨x, y, hx, _, rfl⟩ := replanAlarm_ok hreplan
      refine h.of_kept (fun _ hv => hv) (hset ?_ y)
      rintro rfl
      simp [Except.isOk, Except.toBool] at hact
    · exact h
  | _ => cases hdirect

namespace Hale

variable [Locators]

/-- What is no poll of its vigil leaves an alarm that it does not withdraw as it is. -/
theorem attends_act (h : t.Hale) (hpost : (id, n) ∈ t.posts) (hattends : t.Attends n i a)
    {act : Act} (hact : t.withdraws id n act = false) (hpoll : act ≠ .poll i) :
    (id, n) ∈ (t.act act).posts ∧ (t.act act).Attends n i a := by
  have hposted : ∀ {u : Timetable}, u.posts = t.posts → (id, n) ∈ u.posts := fun h => h ▸ hpost
  have hforeign : ∀ {other m : Nat}, (other, m) ∈ t.posts → other ≠ id → m ≠ n := by
    rintro other _ post hother rfl
    exact hother (h.posted.id_eq_of_post hpost post)
  -- Requests reach alarms by their posts alone, and commands may name any alarm.
  cases hdirect : act.isDirect with
  | true =>
    have hledger := congrArg Ledger.posts (t.ledger_of_direct hdirect)
    exact ⟨hposted hledger, hattends.of_direct hdirect hact⟩
  | false =>
    have houtcome := h.posted.outcome hdirect
    generalize t.act act = u at houtcome ⊢
    cases houtcome with
    | idle core ledger failed =>
      exact ⟨hposted (congrArg Ledger.posts ledger), hattends.of_core core⟩
    | broken core ledger cause entries spoiled failed =>
      exact ⟨hposted (congrArg Ledger.posts ledger), hattends.of_core core⟩
    | polled j moves ledger =>
      have hij : j ≠ i := fun hij => hpoll (congrArg Act.poll hij)
      exact ⟨hposted (congrArg Ledger.posts ledger), hattends.of_moves h.sound hij moves⟩
    | watched watcher waiting vigil closed core ledger =>
      exact ⟨hposted (congrArg Ledger.posts ledger), hattends.of_core core⟩
    | created journal policy same handle sound drawn started result =>
      exact ⟨List.mem_append_left _ hpost,
        hattends.of_kept (fun _ hv => Places.getElem?_append hv _)
          (Places.getElem?_append hattends.alarm _)⟩
    | @updated other m plan e x y b post found alarm replanned started result =>
      have hother : other ≠ id := by
        rintro rfl
        simp [withdraws, succeeds, result, Except.isOk, Except.toBool] at hact
      refine ⟨hpost, hattends.of_kept (fun _ hv => Places.getElem?_append hv _) ?_⟩
      exact (List.getElem?_set_ne (hforeign post hother)).trans hattends.alarm
    | @removed other m x post alarm result =>
      have hother : other ≠ id := by
        rintro rfl
        simp [withdraws, succeeds, result, Except.isOk, Except.toBool] at hact
      refine ⟨List.mem_filter.mpr ⟨hpost, bne_iff_ne.mpr hother.symm⟩,
        hattends.of_kept (fun _ hv => hv) ?_⟩
      exact (List.getElem?_set_ne (hforeign post hother)).trans hattends.alarm
    | stopped alarms deeds deeds_cancelled stops => cases hact

/-- A poll of a vigil that attends to a recurring alarm sets that again, if a run comes back. -/
theorem recurs_of_polls (h : t.Hale) {turn : Turn} (hpolls : t.Polls u i v a turn)
    (live : t.core.IsLive v) (running : a.status = .running) (recurring : a.period.isZero = false)
    (ordered : a.task.IsOrderable) : t.Recurs u v.alarm i a.period := by
  obtain ⟨hv, ha, passing, result⟩ := hpolls
  have hvigil := passing.vigil hv
  have halarm := passing.alarm ha
  have hannals : returns i u.annals = _ :=
    (congrArg (returns i) passing.annals).trans (Passage.returns_deeds _ i v.alarm t.annals)
  obtain ⟨isOpen, b, hb, held⟩ := live
  obtain rfl : a = b := Option.some.inj (ha.symm.trans hb)
  cases hreturned : (v.passage a t.moment turn).returned with
  | none =>
    rw [hreturned] at hannals
    obtain ⟨hopen, hsame⟩ := Vigil.isOpen_passage isOpen held hreturned
    rw [hsame] at halarm
    exact .goesOn ⟨halarm, running, _, hvigil, rfl, hopen, a, halarm, held⟩ rfl hannals
  | some r =>
    rw [hreturned] at hannals
    have succeeded : r.result = .succeeded :=
      (Vigil.isUntroubled_passage (h.untroubled hv ha ordered).1 (result ordered)).2 r hreturned
    obtain ⟨rfl, hnext⟩ :=
      passing.succeeded h.sound hv ha ⟨isOpen, a, ha, held⟩ recurring hannals succeeded
    cases hdue : u.now.add? a.period with
    | none =>
      rw [hdue] at hnext
      exact .ranOut rfl hdue hannals hnext
    | some due =>
      rw [hdue] at hnext
      have hset : u.SetAgain i v a due := hnext
      exact .setAgain ⟨hset.alarm, running, _, hset.vigil, rfl, rfl, _, hset.alarm, held⟩ rfl hdue
        hannals hset

/-- What an episode leaves to its vigil is kept, and set again after a run. -/
theorem recurs (h : t.Hale) (hpost : (id, n) ∈ t.posts) (hattends : t.Attends n i a)
    (recurring : a.period.isZero = false) (ordered : a.task.IsOrderable) {x : Episode}
    (hx : t.isWithdrawn id n x = false) :
    (id, n) ∈ (t.meet x).posts ∧ t.Recurs (t.meet x) n i a.period := by
  have hact : ∀ {act : Act}, t.withdraws id n act = false → act ≠ .poll i →
      (id, n) ∈ (t.act act).posts ∧ (t.act act).Attends n i a ∧
        returns i (t.act act).annals = returns i t.annals := by
    intro act hact hpoll
    obtain ⟨hpost', hattends'⟩ := h.attends_act hpost hattends hact hpoll
    exact ⟨hpost', hattends', (t.steps_act act).returns_of_unmoved (mt mayGive_move_iff.mp hpoll)⟩
  have hpolls : ∀ {v : Vigil} {b : Alarm} {u : Timetable} {turn : Turn}, t.Polls u i v b turn →
      t.core.IsLive v → v.alarm = n → t.Recurs u n i a.period := by
    rintro v b u turn hpolls live rfl
    obtain rfl : a = b := Option.some.inj (hattends.alarm.symm.trans hpolls.alarm)
    exact h.recurs_of_polls hpolls live hattends.running recurring ordered
  obtain ⟨v, hv, hn, live⟩ := hattends.vigil
  have ha : t.alarms[v.alarm]? = some a := hn ▸ hattends.alarm
  cases x with
  | act act =>
    by_cases hpoll : act = .poll i
    · subst hpoll
      have hposts : (t.meet (.act (.poll i))).posts = t.posts :=
        congrArg Ledger.posts (t.ledger_poll i)
      exact ⟨hposts ▸ hpost, hpolls (polls_poll hv ha) live hn⟩
    · obtain ⟨hpost', hattends', hreturns⟩ := hact hx hpoll
      exact ⟨hpost', .goesOn hattends' rfl hreturns⟩
  | request credentials r =>
    obtain ⟨act, journal, hmeant, hu⟩ := Web.comesTo_handle credentials t r
    have hpoll : act ≠ .poll i := by
      rintro rfl
      cases hmeant
    obtain ⟨hpost', hattends', hreturns⟩ := hact (withdraws_of_meant hmeant hx) hpoll
    simp only [Timetable.meet]
    rw [hu]
    exact ⟨hpost', .goesOn (hattends'.of_core rfl) rfl hreturns⟩
  | poll j others =>
    have hposts : (t.meet (.poll j others)).posts = t.posts :=
      congrArg Ledger.posts (t.ledger_pollAmong others j)
    refine ⟨hposts ▸ hpost, ?_⟩
    by_cases hij : j = i
    · subst hij
      exact hpolls (polls_pollAmong others hv ha) live hn
    · have hmoves := t.moves_pollAmong others j
      have hsteps : Core.Steps (· = .move j) t.core (t.pollAmong others j).core := hmoves.steps rfl
      refine .goesOn (hattends.of_moves h.sound hij hmoves) rfl (hsteps.returns_of_unmoved ?_)
      intro hmove
      cases hmove
      exact hij rfl

/-- As long as every episode leaves it its alarm, a vigil attends to that, unless it has failed for
want of an instant. -/
theorem recurs_steps (h : t.Hale) (hpost : (id, n) ∈ t.posts) (hattends : t.Attends n i a)
    (recurring : a.period.isZero = false) (ordered : a.task.IsOrderable)
    (hsteps : Relation.ReflTransGen (LeavesTo id n) t w) :
    w.Hale ∧ ((id, n) ∈ w.posts ∧ (∃ b, w.Attends n i b ∧ b.period = a.period ∧
        b.task.IsOrderable) ∨
      ∃ v, w.vigils[i]? = some v ∧ v.phase = .ended (.failed outOfRange)) := by
  induction hsteps with
  | refl => exact ⟨h, Or.inl ⟨hpost, a, hattends, rfl, ordered⟩⟩
  | @tail w y _ hstep ih =>
    obtain ⟨x, hx, rfl⟩ := hstep
    obtain ⟨hw, ⟨hpost', b, hb, same, ordered'⟩ | ⟨v, hv, hended⟩⟩ := ih
    · refine ⟨hw.meet x, ?_⟩
      obtain ⟨hpost'', hrecurs⟩ := hw.recurs hpost' hb (same ▸ recurring) ordered' hx
      have htask : ∀ {z : Alarm}, (w.meet x).alarms[n]? = some z → z.task.IsOrderable := by
        intro z hz
        obtain ⟨y, hy, hbecomes⟩ := (w.steps_meet x).alarm hb.alarm
        obtain rfl : y = z := Option.some.inj (hy.symm.trans hz)
        rw [hbecomes.task]
        exact ordered'
      cases hrecurs with
      | goesOn attends same' returned =>
        exact Or.inl ⟨hpost'', _, attends, same'.trans same, htask attends.alarm⟩
      | setAgain attends same' later returned set =>
        exact Or.inl ⟨hpost'', _, attends, same'.trans same, htask attends.alarm⟩
      | ranOut alarm never returned ended => exact Or.inr ⟨_, ended.vigil, rfl⟩
    · -- A vigil that has ended is not moved any more.
      have hv' := (w.steps_meet x).closed hv (by rw [hended]; rfl)
      exact ⟨hw.meet x, Or.inr ⟨v, hv', hended⟩⟩

/-- A create sets an alarm up for its task, and a vigil that attends to it. -/
theorem installed_of_create (h : t.Hale) {task : Task} {plan : Plan} {view : EntryView}
    (hcreate : (t.create task plan).1 = .ok view) :
    ∃ n i a, (t.act (.create task plan)).Installed view n i a ∧ a.task = task := by
  rcases h.posted.create_cases task plan with
    ⟨_, _, hresult⟩ | ⟨_, _, _, _, _, _, hresult⟩ |
    ⟨e, b, journal, _, htask, _, _, hdrawn, hstart, hresult⟩
  · rw [hresult] at hcreate
    cases hcreate
  · rw [hresult] at hcreate
    cases hcreate
  · have hact : t.act (.create task plan) = _ := congrArg Prod.snd hresult
    have hok := hcreate.symm.trans (congrArg Prod.fst hresult)
    have hhale := h.meet (.act (.create task plan))
    simp only [Timetable.meet] at hhale
    rw [hact] at hhale ⊢
    generalize hu : t.created e b _ journal = u at *
    obtain rfl : view = u.viewOf e := Except.ok.inj hok
    have hpost : (e.id, t.alarms.length) ∈ u.posts := by
      rw [← hu]
      exact List.mem_append_right _ (List.mem_singleton_self _)
    have halarm : u.alarms[t.alarms.length]? = some b := by
      rw [← hu]
      exact Places.getElem?_last _ _
    have hvigil : u.vigils[t.vigils.length]? = some
        { alarm := t.alarms.length, token := b.token, generation := b.generation,
          since := t.elapsed } := by
      rw [← hu]
      exact Places.getElem?_last _ _
    obtain ⟨hentry, htask', hdue, hperiod⟩ := Alarm.start_keeps hstart
    have running : b.status = .running := by
      obtain ⟨_, rfl⟩ := Alarm.start_ok hstart
      rfl
    have held := ((Alarm.Sound.ofEntry e).start hstart).held running
    have hview : u.viewOf e = _ :=
      viewOf_of_post (hhale.posted.post?_eq_some_iff.mpr hpost) halarm
    refine ⟨t.alarms.length, t.vigils.length, b, ?_, htask'.trans htask⟩
    rw [hview]
    exact {
      post := hpost
      attends := ⟨halarm, running, _, hvigil, rfl, rfl, b, halarm, held⟩
      fresh := hhale.unwritten.returns_of_setOut hvigil rfl
      due := rfl
      period := congrArg Span.words hperiod.symm
      task := congrArg Task.view htask'.symm }

end Hale

/-- No task that can be ordered ends its schedule: whatever it is answered, it succeeds, after at
most one call. The polls of a timetable are those among others who behave as it says. So none of
the vigils of such a task is ever lost, and none fails but for want of an instant, whatever befalls
the timetable. The vigil of an entry that is created through the router attends to its alarm as long
as no update, remove, cancel or shutdown withdraws it and there are instants to set it to: after
every run, the alarm is set to one period later. -/
theorem schedules_unfailing [Locators] :
    (∀ value task, Task.ofJson value = .ok task → ∃ conduct, task.conduct? = some conduct ∧
      (∀ others : Nat → Behaviour, (conduct.perform others).turn.result = .succeeded ∧
        (conduct.perform others).calls.length ≤ 1) ∧
      ∀ t : Timetable, (t.beginRun task).1 = (conduct.perform t.expected).turn) ∧
    (∀ (t : Timetable) (i : Nat), (t.pollAmong t.expected i).core = (t.poll i).core ∧
      (t.pollAmong t.expected i).ledger = (t.poll i).ledger ∧
      (t.pollAmong t.expected i).moment = (t.poll i).moment) ∧
    ∀ start source replies episodes,
      let t := (opening start source replies).meetAll episodes
      (∀ i v a value, t.vigils[i]? = some v → t.alarms[v.alarm]? = some a →
        Task.ofJson value = .ok a.task → v.phase ≠ .lost ∧
          (∀ r ∈ returns i t.annals, r.result = .succeeded) ∧
          ∀ e, .failed e ∈ endings i t.annals → e = outOfRange) ∧
      ∀ credentials r, (Web.handle credentials t r).1.status = 201 →
        let u := t.meet (.request credentials r)
        ∃ view n i a, (Web.handle credentials t r).1 = .data 201 view.json ∧
          u.Installed view n i a ∧ (∃ value, Task.ofJson value = .ok a.task) ∧
          (a.period.isZero = false → ∀ w, Relation.ReflTransGen (LeavesTo view.id n) u w →
            (∃ b, w.Attends n i b ∧ b.period = a.period ∧
              ∀ x, w.isWithdrawn view.id n x = false → w.Recurs (w.meet x) n i a.period) ∨
            endings i w.annals = [.failed outOfRange]) := by
  refine ⟨?_, fun t i => t.pollAmong_expected i, ?_⟩
  · intro value task hvalue
    obtain ⟨conduct, hconduct⟩ := (Task.isOrderable_of_ofJson hvalue).exists_conduct
    refine ⟨conduct, hconduct, fun others => ?_, turn_beginRun hconduct⟩
    exact ⟨Task.result_perform hconduct others, Task.length_calls_le hconduct others⟩
  · intro start source replies episodes t
    have hale : t.Hale := (Hale.opening start source replies).meetAll episodes
    constructor
    · intro i v a value hv ha hvalue
      have ordered := Task.isOrderable_of_ofJson hvalue
      obtain ⟨hphase, hreturns⟩ := hale.untroubled hv ha ordered
      refine ⟨?_, hreturns, fun e => hale.failed_eq hv ha ordered⟩
      intro lost
      rw [lost] at hphase
      exact hphase
    · intro credentials r hcreated
      obtain ⟨value, task, plan, view, hvalue, hcreate, hhandle⟩ := Web.create_of_created hcreated
      obtain ⟨n, i, a, hinstalled, rfl⟩ := hale.installed_of_create hcreate
      have hu : t.meet (.request credentials r) = t.act (.create a.task plan) :=
        congrArg Prod.snd hhandle
      intro u
      rw [← hu] at hinstalled
      refine ⟨view, n, i, a, congrArg Prod.fst hhandle, hinstalled, ⟨value, hvalue⟩, ?_⟩
      intro recurring w hsteps
      obtain ⟨hw, ⟨hpost, b, hb, same, ordered⟩ | ⟨v, hv, hended⟩⟩ :=
        (hale.meet (.request credentials r)).recurs_steps hinstalled.post hinstalled.attends
          recurring (Task.isOrderable_of_ofJson hvalue) hsteps
      · refine Or.inl ⟨b, hb, same, fun x hx => ?_⟩
        rw [← same]
        exact (hw.recurs hpost hb (same ▸ recurring) ordered hx).2
      · apply Or.inr
        exact (hw.recorded.endings_eq hv).trans (by rw [hended]; rfl)

/-- A server that is out of order does not end the schedule of a fetch. -/
theorem schedules_unfailing_of_outage :
    let others : Nat → Behaviour := fun _ => { fetch := .answered 503 "" true }
    let order : Web.Request := ⟨"POST", "/api/v0/tasks", [], Text.encode
      "\x7b\"type\":\"url-get\",\"url\":\"http://a\",\"frequency\":\"1m\"\x7d".toList⟩
    let value : Json := .object [("type", .string "url-get"), ("url", .string "http://a")]
    let t := (opening .epoch {} []).meet (.request none order)
    let u := t.meet (.poll 0 others)
    (Task.ofJson value = .ok (.fetch "http://a") ∧ ∃ conduct,
      (Task.fetch "http://a").conduct? = some conduct ∧
        (conduct.perform others).turn.result = .succeeded) ∧
    (returns 0 u.annals).length = 1 ∧ (∀ r ∈ returns 0 u.annals, r.result = .succeeded) ∧
    ∃ view n i a, t.Installed view n i a ∧ a.period.isZero = false ∧ t.Recurs u n i a.period := by
  intro others order value t u
  obtain ⟨htasks, _, hepisodes⟩ := schedules_unfailing
  have hvalue : Task.ofJson value = .ok (.fetch "http://a") := rfl
  obtain ⟨conduct, hconduct, hperform, _⟩ := htasks value _ hvalue
  refine ⟨⟨hvalue, conduct, hconduct, (hperform others).1⟩, by decide +kernel, ?_, ?_⟩
  · obtain ⟨hvigils, _⟩ := hepisodes .epoch {} [] [.request none order, .poll 0 others]
    have hvigil : u.vigils[0]?.map (·.alarm) = some 0 := by decide +kernel
    have halarm : u.alarms[0]?.map (·.task.view) = some (.fetch "http://a") := by decide +kernel
    obtain ⟨v, hv, hn⟩ := Option.map_eq_some_iff.mp hvigil
    obtain ⟨a, ha, hview⟩ := Option.map_eq_some_iff.mp halarm
    rw [← hn] at ha
    have htask : a.task = .fetch "http://a" := by
      cases hcase : a.task with
      | fetch url =>
        rw [hcase] at hview
        exact congrArg Task.fetch (TaskView.fetch.inj hview)
      | _ =>
        rw [hcase] at hview
        cases hview
    exact (hvigils 0 v a value hv ha (htask ▸ hvalue)).2.1
  · obtain ⟨_, hcreates⟩ := hepisodes .epoch {} [] []
    obtain ⟨view, n, i, a, _, hinstalled, _, hlasts⟩ :=
      hcreates none order (by decide +kernel)
    have hposts : t.posts = [(1001, 0)] := by decide +kernel
    have hperiod : t.alarms[0]?.map (·.period.isZero) = some false := by decide +kernel
    have recurring : a.period.isZero = false := by
      have hpost : (view.id, n) ∈ t.posts := hinstalled.post
      rw [hposts] at hpost
      obtain ⟨_, rfl⟩ := Prod.mk.inj (List.mem_singleton.mp hpost)
      have halarm : t.alarms[0]? = some a := hinstalled.attends.alarm
      rw [halarm] at hperiod
      exact Option.some.inj hperiod
    refine ⟨view, n, i, a, hinstalled, recurring, ?_⟩
    rcases hlasts recurring t .refl with ⟨b, _, _, hrecurs⟩ | hended
    · exact hrecurs (.poll 0 others) rfl
    · obtain ⟨v, hv, _⟩ := hinstalled.attends.vigil
      have hlength : t.vigils.length = 1 := by decide +kernel
      obtain rfl : i = 0 := Nat.lt_one_iff.mp (hlength ▸ Places.lt_of_getElem? hv)
      have hendings : endings 0 t.annals = [] := by decide +kernel
      rw [hendings] at hended
      cases hended

end Timetable

end Almanac
