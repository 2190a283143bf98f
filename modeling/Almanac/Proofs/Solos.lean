import Almanac.Proofs.Beginners
import Almanac.Proofs.Undisturbed

/-!
# Solos

The solo of an alarm is what is left of a timetable without anything that concerns only others: the
clock, the alarm, whether it has a post, its vigils, and what these have done. Vigils go by their
number among those of the alarm, and there are no ids and no handles. What happens to others leaves
a solo as it is, and what becomes of the solo when something happens to its alarm can be told from
the solo alone.
-/

namespace Almanac

/-- The number of vigil `i` among those of alarm `n`, if it is one of them; `owners` are the alarms
of all vigils. -/
def rank? (owners : List Nat) (n i : Nat) : Option Nat :=
  if owners[i]? = some n then some (Places.rank (· == n) owners i) else none

/-- A new vigil changes nothing for the others. -/
theorem rank?_append {owners : List Nat} {m n i : Nat} (h : m ≠ n ∨ i ≠ owners.length) :
    rank? (owners ++ [m]) n i = rank? owners n i := by
  simp only [rank?]
  rcases Nat.lt_trichotomy i owners.length with hlt | heq | hgt
  · rw [List.getElem?_append_left hlt, Places.rank_append (Nat.le_of_lt hlt)]
  · subst heq
    have hother : m ≠ n := h.resolve_right fun hne => hne rfl
    rw [Places.getElem?_last, if_neg fun hm => hother (Option.some.inj hm),
      List.getElem?_eq_none (Nat.le_refl _), if_neg (by simp)]
  · have hnone : ¬ (none : Option Nat) = some n := by simp
    rw [List.getElem?_eq_none (by simp; omega), List.getElem?_eq_none (Nat.le_of_lt hgt),
      if_neg hnone, if_neg hnone]

/-- What a vigil has done as the solo of alarm `n` tells it, if the vigil is one of that alarm. -/
def Deed.retold (owners : List Nat) (n : Nat) : Deed → Option Deed
  | .began i time => (rank? owners n i).map fun k => .began k time
  | .returned i r => (rank? owners n i).map fun k => .returned k r
  | .ended i e => (rank? owners n i).map fun k => .ended k e
  | _ => none

/-- Holds of the deeds that begin a run. -/
def Deed.isBeginning : Deed → Bool
  | .began _ _ => true
  | _ => false

/-- A deed that is of no vigil is not told. -/
theorem Deed.retold_of_none {d : Deed} (h : d.vigil? = none) (owners : List Nat) (n : Nat) :
    d.retold owners n = none := by
  cases d <;> first | rfl | cases h

theorem Deed.retold_append {d : Deed} {owners : List Nat} {m n : Nat}
    (h : m ≠ n ∨ d.vigil? ≠ some owners.length) :
    d.retold (owners ++ [m]) n = d.retold owners n := by
  have hrank : ∀ i, d.vigil? = some i → rank? (owners ++ [m]) n i = rank? owners n i := by
    intro i hi
    apply rank?_append
    apply h.imp_right
    rintro hne rfl
    exact hne hi
  cases d with
  | began i time => rw [retold, retold, hrank i rfl]
  | returned i r => rw [retold, retold, hrank i rfl]
  | ended i e => rw [retold, retold, hrank i rfl]
  | _ => rfl

def Alarm.anonymous (a : Alarm) : Alarm := { a with entry := 0 }

namespace Alarm

theorem stop_anonymous (a : Alarm) : a.anonymous.stop = a.stop.anonymous := by
  by_cases running : a.status = .running
  · rw [stop_of_running running, stop_of_running (a := a.anonymous) running]
    rfl
  · rw [stop_of_not_running running, stop_of_not_running (a := a.anonymous) running]

theorem conclude_anonymous (a : Alarm) (generation : Nat) (e : Ending) :
    a.anonymous.conclude generation e = (a.conclude generation e).anonymous := by
  have hgeneration : a.anonymous.generation = a.generation := rfl
  have hstatus : a.anonymous.status = a.status := rfl
  simp only [conclude, hgeneration, hstatus]
  split <;> rfl

theorem start_anonymous {a b : Alarm} (h : a.start = .ok b) :
    a.anonymous.start = .ok b.anonymous := by
  obtain ⟨idle, rfl⟩ := start_ok h
  have hidle : ¬ a.anonymous.isRunning = true :=
    fun running => idle (isRunning_eq_true_iff.mp running)
  have hrevoked : a.anonymous.isRevoked a.anonymous.token = a.isRevoked a.token := rfl
  simp only [start]
  rw [if_neg hidle, hrevoked]
  split <;> rfl

theorem replan_anonymous {a b : Alarm} {plan : Plan} {now : Instant}
    (h : a.replan plan now = .ok b) : a.anonymous.replan plan now = .ok b.anonymous := by
  obtain ⟨due, period, hpolicy, rfl⟩ := replan_ok h
  simp only [replan]
  rw [hpolicy, stop_anonymous]
  rfl

theorem replan_anonymous_error {a : Alarm} {cause : AlarmError} {plan : Plan} {now : Instant}
    (h : a.replan plan now = .error cause) : a.anonymous.replan plan now = .error cause := by
  cases hpolicy : Entry.policyOf plan now with
  | error reason =>
      simp only [replan] at h ⊢
      rw [hpolicy] at h ⊢
      exact h
  | ok policy =>
      simp only [replan] at h
      rw [hpolicy] at h
      cases h

end Alarm

/-- The vigil of the one alarm that there is. -/
def Vigil.alone (v : Vigil) : Vigil := { v with alarm := 0 }

namespace Vigil

variable {v : Vigil} {a : Alarm} {m : Moment} {turn : Turn}

theorem close_alone (e : Ending) : v.alone.close a.anonymous e = v.close a e := by
  simp only [close]
  rw [Alarm.conclude_anonymous]
  rfl

theorem judge_alone (result : RunResult) :
    v.alone.judge a.anonymous m result = v.judge a m result := by
  cases result with
  | lost => rfl
  | failed e => exact close_alone _
  | succeeded =>
      simp only [judge, goOn, close_alone]
      rfl

theorem setOff_alone : v.alone.setOff a.anonymous m turn = v.setOff a m turn := by
  simp only [setOff, comeBack, judge_alone]
  rfl

/-- A passage depends neither on the number of the alarm nor on its entry. -/
theorem passage_alone : v.alone.passage a.anonymous m turn = v.passage a m turn := by
  simp only [passage, setOffOrWait, comeBack, judge_alone, setOff_alone, close_alone]
  rfl

end Vigil

namespace Timetable

def owners (t : Timetable) : List Nat := t.vigils.map Vigil.alarm

/-- What the vigils of an alarm have done, the latest first: when which of them began a run, how
that came back, and how which of them ended. -/
def tale (t : Timetable) (n : Nat) : List Deed := t.annals.filterMap (Deed.retold t.owners n)

/-- How many runs the vigils of an alarm have begun. -/
def runsBegun (t : Timetable) (n : Nat) : Nat := (t.tale n).countP Deed.isBeginning

def vigilsOf (t : Timetable) (n : Nat) : List Vigil := t.vigils.filter fun v => v.alarm == n

/-- Holds if some id has its post with an alarm. -/
def isPosted (t : Timetable) (n : Nat) : Bool := t.posts.any fun p => p.2 == n

/-- The timetable with nothing in it but one alarm and its vigils. -/
def solo (t : Timetable) (n : Nat) : Timetable where
  start := t.start
  elapsed := t.elapsed
  skew := t.skew
  alarms := (t.alarms[n]?.map Alarm.anonymous).toList
  posts := if t.isPosted n then [(0, 0)] else []
  vigils := (t.vigilsOf n).map Vigil.alone
  annals := t.tale n

/-- The number of a vigil among those of an alarm. -/
def place (t : Timetable) (n i : Nat) : Nat := Places.rank (fun v => v.alarm == n) t.vigils i

variable {t u : Timetable} {i n m id : Nat} {v w : Vigil} {a b : Alarm} {p : Passage}

theorem isPosted_iff : t.isPosted n = true ↔ ∃ id, (id, n) ∈ t.posts := by
  simp only [isPosted, List.any_eq_true, beq_iff_eq]
  constructor
  · rintro ⟨⟨id, m⟩, hpost, rfl⟩
    exact ⟨id, hpost⟩
  · rintro ⟨id, hpost⟩
    exact ⟨(id, n), hpost, rfl⟩

theorem solo_congr (hmoment : u.moment = t.moment) (halarm : u.alarms[n]? = t.alarms[n]?)
    (hposted : u.isPosted n = t.isPosted n) (hvigils : u.vigilsOf n = t.vigilsOf n)
    (htale : u.tale n = t.tale n) : u.solo n = t.solo n := by
  obtain ⟨hstart, helapsed, hskew⟩ : u.start = t.start ∧ u.elapsed = t.elapsed ∧
      u.skew = t.skew := by simpa [moment] using hmoment
  simp only [solo]
  rw [hstart, helapsed, hskew, halarm, hposted, hvigils, htale]

theorem owner_eq_some_iff (hv : t.vigils[i]? = some v) :
    t.owners[i]? = some n ↔ v.alarm = n := by
  rw [owners, List.getElem?_map, hv, Option.map_some, Option.some_inj]

theorem rank?_of_own (hv : t.vigils[i]? = some v) (own : v.alarm = n) :
    rank? t.owners n i = some (t.place n i) := by
  rw [rank?, if_pos ((owner_eq_some_iff hv).mpr own), owners, Places.rank_map]
  rfl

theorem rank?_of_other (hv : t.vigils[i]? = some v) (other : v.alarm ≠ n) :
    rank? t.owners n i = none := by
  apply if_neg
  rw [owner_eq_some_iff hv]
  exact other

theorem alarms_solo (ha : t.alarms[n]? = some a) : (t.solo n).alarms = [a.anonymous] := by
  simp only [solo]
  rw [ha]
  rfl

theorem vigil_solo (hv : t.vigils[i]? = some v) (own : v.alarm = n) :
    (t.solo n).vigils[t.place n i]? = some v.alone := by
  simp only [solo, vigilsOf, place]
  rw [List.getElem?_map, Places.getElem?_filter hv (by simp [own])]
  rfl

/-- The timetable after the poll of vigil `k`, with nothing written down of the alarm itself. Runs
go on as `outcome` says of their numbers. -/
def pollAs (s : Timetable) (outcome : Nat → Turn) (k : Nat) : Timetable :=
  match s.vigils[k]? with
  | none => s
  | some v =>
    match s.alarms[v.alarm]? with
    | none => s
    | some a =>
      s.follow k v a { v.passage a s.moment (outcome (s.annals.countP Deed.isBeginning)) with
        rearmed := none }

theorem pollAs_of {s : Timetable} {k : Nat} (hv : s.vigils[k]? = some v)
    (ha : s.alarms[v.alarm]? = some a) (outcome : Nat → Turn) :
    s.pollAs outcome k = s.follow k v a
      { v.passage a s.moment (outcome (s.annals.countP Deed.isBeginning)) with
        rearmed := none } := by
  simp only [pollAs]
  rw [hv]
  dsimp only
  rw [ha]

theorem retold_deeds_own {k : Nat} (hrank : rank? t.owners n i = some k) (p : Passage) (m : Nat) :
    (p.deeds i m).filterMap (Deed.retold t.owners n) =
      ({ p with rearmed := none } : Passage).deeds k 0 := by
  obtain ⟨_, _, _, _, _, began, returned, rearmed, ended⟩ := p
  cases began <;> cases returned <;> cases rearmed <;> cases ended <;>
    simp [Passage.deeds, Deed.retold, List.filterMap_cons, hrank]

theorem retold_deeds_other (hrank : rank? t.owners n i = none) (p : Passage) (m : Nat) :
    (p.deeds i m).filterMap (Deed.retold t.owners n) = [] := by
  obtain ⟨_, _, _, _, _, began, returned, rearmed, ended⟩ := p
  cases began <;> cases returned <;> cases rearmed <;> cases ended <;>
    simp [Passage.deeds, Deed.retold, List.filterMap_cons, hrank]

theorem owners_follow (hv : t.vigils[i]? = some v) (a : Alarm) (p : Passage) :
    (t.follow i v a p).owners = t.owners := by
  have halarm : (p.vigil v).alarm = v.alarm := rfl
  simp only [owners, follow]
  rw [List.map_set, halarm]
  exact Places.set_self (by rw [List.getElem?_map, hv]; rfl)

/-- A passage of a vigil of the alarm is one in the solo. -/
theorem solo_follow_own (hv : t.vigils[i]? = some v) (own : v.alarm = n)
    (ha : t.alarms[n]? = some a) :
    (t.follow i v a p).solo n =
      (t.solo n).follow (t.place n i) v.alone a.anonymous { p with rearmed := none } := by
  have htale : (t.follow i v a p).tale n =
      ({ p with rearmed := none } : Passage).deeds (t.place n i) 0 ++ t.tale n := by
    simp only [tale]
    rw [t.owners_follow hv a p]
    simp only [follow]
    rw [List.filterMap_append, retold_deeds_own (rank?_of_own hv own)]
  have hvigils : (t.follow i v a p).vigilsOf n = (t.vigilsOf n).set (t.place n i) (p.vigil v) :=
    Places.filter_set_of_pos hv (by simp [own]) (by simp [own, Passage.vigil])
  have halarm : (t.follow i v a p).alarms[n]? = some (p.alarm a) := by
    simp only [follow]
    rw [own]
    exact Places.getElem?_set_self ha _
  simp only [solo]
  rw [htale, hvigils, halarm, List.map_set, ha]
  rfl

/-- A passage of a vigil of another alarm leaves the solo as it is, if the clock stands still. -/
theorem solo_follow_other (hv : t.vigils[i]? = some v) (other : v.alarm ≠ n)
    (still : p.shift = 0) : (t.follow i v a p).solo n = t.solo n := by
  apply solo_congr
  · simp only [moment, follow]
    rw [still, Int.add_zero]
  · simp only [follow]
    rw [List.getElem?_set, if_neg other]
  · rfl
  · exact Places.filter_set_of_neg hv (by simp [other]) (by simp [other, Passage.vigil])
  · simp only [tale]
    rw [t.owners_follow hv a p]
    simp only [follow]
    rw [List.filterMap_append, retold_deeds_other (rank?_of_other hv other), List.nil_append]

theorem solo_poll (hv : t.vigils[i]? = some v) (ha : t.alarms[v.alarm]? = some a) (n : Nat) :
    (t.poll i).solo n =
      (t.follow i v a (v.passage a t.moment (t.beginRun a.task).1)).solo n := by
  obtain ⟨runs, replies, journal, hcalling⟩ :=
    t.calling_eq a.task (v.passage a t.moment (t.beginRun a.task).1)
  refine (congrArg (fun u => u.solo n) (hushed_poll hv ha)).trans ?_
  rw [hcalling]
  rfl

/-- The poll of a vigil of the alarm, whose runs go on as is said of their numbers. -/
theorem solo_poll_own (hv : t.vigils[i]? = some v) (own : v.alarm = n)
    (ha : t.alarms[n]? = some a) {outcome : Nat → Turn}
    (hturn : v.isDue a t.moment = true → (t.beginRun a.task).1 = outcome (t.runsBegun n)) :
    (t.poll i).solo n = (t.solo n).pollAs outcome (t.place n i) := by
  have hpassage : v.passage a t.moment (t.beginRun a.task).1 =
      v.passage a t.moment (outcome (t.runsBegun n)) := by
    cases due : v.isDue a t.moment with
    | true => rw [hturn due]
    | false => exact Vigil.passage_of_not_isDue due _ _
  have halarm : (t.solo n).alarms[v.alone.alarm]? = some a.anonymous := by
    rw [alarms_solo ha]
    rfl
  rw [solo_poll hv (own.symm ▸ ha), hpassage, solo_follow_own hv own ha,
    pollAs_of (vigil_solo hv own) halarm, Vigil.passage_alone]
  rfl

/-- The poll of a vigil of another alarm leaves the solo as it is. -/
theorem Steady.solo_poll_other (h : t.Steady) (hv : t.vigils[i]? = some v) (other : v.alarm ≠ n) :
    (t.poll i).solo n = t.solo n := by
  rcases t.poll_cases i with hsame | ⟨w, b, hw, hb⟩
  · rw [hsame]
  · rw [hv] at hw
    cases hw
    rw [solo_poll hv hb, solo_follow_other hv other (h.shift_passage hv hb)]

/-- A timetable that is only served, and that has an alarm of number `n`. -/
structure Hosts (t : Timetable) (n : Nat) : Prop extends Served t where
  unwritten : t.core.Unwritten
  alarm : ∃ a, t.alarms[n]? = some a

namespace Hosts

theorem act (h : t.Hosts n) {act : Act} (hact : act.isDirect = false) (hclock : act.LeavesClock) :
    (t.act act).Hosts n where
  toServed := h.toServed.act hact hclock
  unwritten := h.unwritten.steps (t.steps_act act)
  alarm := by
    obtain ⟨a, ha⟩ := h.alarm
    obtain ⟨b, hb, _⟩ := (t.steps_act act).alarm ha
    exact ⟨b, hb⟩

theorem run (h : t.Hosts n) {acts : List Act} (hacts : ∀ act ∈ acts, act.isDirect = false)
    (hclock : ∀ act ∈ acts, act.LeavesClock) : (t.run acts).Hosts n where
  toServed := h.toServed.run hacts hclock
  unwritten := h.unwritten.steps (steps_run t acts)
  alarm := by
    obtain ⟨a, ha⟩ := h.alarm
    obtain ⟨b, hb, _⟩ := (steps_run t acts).alarm ha
    exact ⟨b, hb⟩

theorem run_of_isSpontaneous (h : t.Hosts n) {acts : List Act}
    (hacts : ∀ act ∈ acts, act.isSpontaneous = true) : (t.run acts).Hosts n := by
  apply h.run
  · intro act hact
    exact (Act.isService_of_isSpontaneous (hacts act hact)).1
  · intro act hact
    exact (Act.isService_of_isSpontaneous (hacts act hact)).2

end Hosts

/-- The runs that the vigils of an alarm begin go on as `outcome` says of their numbers. -/
def PlaysAs (t : Timetable) (n : Nat) (outcome : Nat → Turn) (acts : List Act) : Prop :=
  t.Plays (fun u i turn => u.owners[i]? = some n → turn = outcome (u.runsBegun n)) acts

theorem PlaysAs.head {outcome : Nat → Turn} {act : Act} {acts : List Act}
    (h : t.PlaysAs n outcome (act :: acts)) (hact : act = .poll i) (due : t.IsDue i a)
    (own : t.owners[i]? = some n) : (t.beginRun a.task).1 = outcome (t.runsBegun n) :=
  h.1 i a hact due own

theorem PlaysAs.tail {outcome : Nat → Turn} {act : Act} {acts : List Act}
    (h : t.PlaysAs n outcome (act :: acts)) : (t.act act).PlaysAs n outcome acts :=
  h.2

theorem PlaysAs.split {outcome : Nat → Turn} {first later : List Act}
    (h : t.PlaysAs n outcome (first ++ later)) :
    t.PlaysAs n outcome first ∧ (t.run first).PlaysAs n outcome later := by
  induction first generalizing t with
  | nil => exact ⟨trivial, h⟩
  | cons act first ih =>
      obtain ⟨hfirst, hlater⟩ := ih h.2
      exact ⟨⟨h.1, hfirst⟩, hlater⟩

/-- A task that is no rehearsal goes on in one way at every run. -/
theorem playsAs_of_unrehearsed {task : Task} (plain : task.isRehearsal = false)
    (ha : t.alarms[n]? = some a) (htask : a.task = task) (acts : List Act) :
    t.PlaysAs n (fun _ => task.turn fun _ => 0) acts := by
  induction acts generalizing t a with
  | nil => trivial
  | cons act acts ih =>
      obtain ⟨b, hb, hbecomes⟩ := (t.steps_act act).alarm ha
      refine ⟨?_, ih hb (hbecomes.task.trans htask)⟩
      intro i x _ due own
      obtain ⟨v, hv, hx, _⟩ := due
      rw [(owner_eq_some_iff hv).mp own, ha] at hx
      cases hx
      rw [beginRun_turn, htask]
      cases task with
      | rehearse r => cases plain
      | _ => rfl

/-- Of the polls those of the vigils of an alarm are polls of its solo, and the others leave it as
it is. -/
theorem Hosts.solo_poll (h : t.Hosts n) {outcome : Nat → Turn} {acts : List Act}
    (hplays : t.PlaysAs n outcome (.poll i :: acts)) :
    (t.poll i).solo n =
      if t.owners[i]? = some n then (t.solo n).pollAs outcome (t.place n i) else t.solo n := by
  obtain ⟨a, ha⟩ := h.alarm
  cases hv : t.vigils[i]? with
  | none =>
      have hsame : t.poll i = t := by
        simp only [poll]
        rw [hv]
      have hnone : ¬ t.owners[i]? = some n := by
        rw [owners, List.getElem?_map, hv]
        simp
      rw [hsame, if_neg hnone]
  | some v =>
      by_cases own : v.alarm = n
      · have howner : t.owners[i]? = some n := (owner_eq_some_iff hv).mpr own
        rw [if_pos howner]
        apply solo_poll_own hv own ha
        intro due
        exact hplays.head rfl ⟨v, hv, own.symm ▸ ha, due⟩ howner
      · have hother : ¬ t.owners[i]? = some n := fun hn => own ((owner_eq_some_iff hv).mp hn)
        rw [if_neg hother, h.steady.solo_poll_other hv own]

theorem solo_pollWatcher (t : Timetable) (k n : Nat) : (t.pollWatcher k).solo n = t.solo n := by
  obtain ⟨roster, watchers, journal, hpolled⟩ := t.pollWatcher_eq k
  rw [hpolled]
  rfl

end Timetable

end Almanac
