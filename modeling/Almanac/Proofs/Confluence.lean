import Almanac.Proofs.Beginners
import Almanac.Proofs.Scenes
import Almanac.Proofs.Settling

/-!
# Settling

Polls that take something further come to an end, and it does not matter in which order they come.
-/

namespace Almanac

namespace Timetable

variable {t u : Timetable} {i j k : Nat} {v w : Vigil} {a b : Alarm}

theorem Steady.scene_poll (h : t.Steady) (hv : t.vigils[i]? = some v)
    (ha : t.alarms[v.alarm]? = some a) :
    (t.poll i).scene =
      t.scene.follow i v a (v.passage a t.moment (t.beginRun a.task).1) := by
  obtain ⟨runs, replies, journal, hcalling⟩ :=
    t.calling_eq a.task (v.passage a t.moment (t.beginRun a.task).1)
  refine (congrArg scene (hushed_poll hv ha)).trans ?_
  rw [hcalling]
  have hskew := h.shift_passage hv ha
  simp only [hushed, follow, scene, moment, Scene.follow, Multiset.coe_add]
  simp only [moment] at hskew
  rw [hskew, Int.add_zero]

theorem scene_pollWatcher {w : Watcher} (hw : t.watchers[k]? = some w) (waiting : w.isDone = false)
    (hv : t.vigils[w.vigil]? = some v) (closed : v.phase.isOpen = false) :
    (t.pollWatcher k).scene = t.scene.dismiss k w v := by
  obtain ⟨hcore, hledger⟩ := pollWatcher_of_over hw waiting hv closed
  obtain ⟨roster, watchers, journal, hpolled⟩ := t.pollWatcher_eq k
  rw [hpolled] at hledger ⊢
  have hroster : roster = _ := congrArg Ledger.roster hledger
  have hwatchers : watchers = _ := congrArg Ledger.watchers hledger
  rw [hroster, hwatchers]
  rfl

/-- A poll stirs the scene or leaves it as it is. -/
theorem Served.stir_act (h : t.Served) {turns : Nat → Turn} {act : Act}
    (hact : act.isPoll = true)
    (hgoes : ∀ i a, act = .poll i → t.IsDue i a → (t.beginRun a.task).1 = turns i) :
    (t.act act).scene = t.scene ∨ t.scene.Stir turns (t.act act).scene := by
  cases act with
  | poll i =>
      rw [Timetable.act]
      rcases t.poll_cases i with hsame | ⟨v, a, hv, ha⟩
      · exact Or.inl (congrArg scene hsame)
      · rw [h.steady.scene_poll hv ha]
        cases ready : v.isReady a t.elapsed with
        | false =>
            rw [Vigil.passage_of_not_isReady ready]
            exact Or.inl (Scene.follow_stay hv ha)
        | true =>
            have hturn : v.passage a t.moment (t.beginRun a.task).1 =
                v.passage a t.moment (turns i) := by
              cases due : v.isDue a t.moment with
              | true => rw [hgoes i a rfl ⟨v, hv, ha, due⟩]
              | false => exact Vigil.passage_of_not_isDue due _ _
            rw [hturn]
            exact Or.inr (.poll (s := t.scene) hv ha ready)
  | pollWatcher k =>
      rw [Timetable.act]
      rcases t.pollWatcher_cases k with hsame | ⟨w, v, hw, waiting, hv, closed⟩
      · exact Or.inl (congrArg scene hsame)
      · rw [scene_pollWatcher hw waiting hv closed]
        exact Or.inr (.pollWatcher (s := t.scene) hw waiting hv closed)
  | _ => cases hact

theorem Served.fair (h : t.Served) : t.scene.Fair where
  sound := ⟨h.sound.alarms, h.sound.vigils, h.sound.distinct⟩
  periods := fun ha => (h.steady.alarms ha).period
  ids := h.agrees.nodup

/-- What polls come to is reached by stirs. -/
theorem Served.stirs_run (h : t.Served) {turns : Nat → Turn} {polls : List Act}
    (hpolls : ∀ act ∈ polls, act.isPoll = true)
    (hplays : t.Plays (fun _ i turn => turn = turns i) polls) :
    Relation.ReflTransGen (Scene.FairStir turns) t.scene (t.run polls).scene := by
  induction polls generalizing t with
  | nil => exact .refl
  | cons act polls ih =>
      obtain ⟨hact, hpolls⟩ := List.forall_mem_cons.mp hpolls
      obtain ⟨hgoes, hplays⟩ := hplays
      have hlater := ih (h.act_of_isPoll hact) hpolls hplays
      rcases h.stir_act hact hgoes with hsame | hstir
      · rw [hsame] at hlater
        exact hlater
      · exact .head ⟨h.fair, hstir⟩ hlater

/-- At rest nothing stirs the scene. -/
theorem AtRest.still (hrest : t.AtRest) (turns : Nat → Turn) (x : Scene) :
    ¬ t.scene.Stir turns x := by
  intro hstir
  cases hstir with
  | @poll i v a hv ha ready =>
      have hv : t.vigils[i]? = some v := hv
      have waits := hrest.vigils v (List.mem_of_getElem? hv)
      rw [isReady_eq ha] at waits
      exact Bool.false_ne_true (waits.symm.trans ready)
  | @pollWatcher k w v hw waiting hv closed =>
      have hw : t.watchers[k]? = some w := hw
      have waits := hrest.watchers w (List.mem_of_getElem? hw)
      rw [isCalled_iff.mpr ⟨waiting, v, hv, closed⟩] at waits
      cases waits

/-- Two ways of polling that come to rest come to the same scene, if the runs go on in the same
way. -/
theorem Served.scene_eq (h : t.Served) {turns : Nat → Turn} {first second : List Act}
    (hfirst : ∀ act ∈ first, act.isPoll = true) (hsecond : ∀ act ∈ second, act.isPoll = true)
    (hplays : t.Plays (fun _ i turn => turn = turns i) first)
    (hplays' : t.Plays (fun _ i turn => turn = turns i) second)
    (hrest : (t.run first).AtRest) (hrest' : (t.run second).AtRest) :
    (t.run first).scene = (t.run second).scene := by
  obtain ⟨d, hd, hd'⟩ :=
    Scene.stirs_join (h.stirs_run hfirst hplays) (h.stirs_run hsecond hplays')
  rw [← Scene.eq_of_still (hrest.still turns) hd, Scene.eq_of_still (hrest'.still turns) hd']

/-- How much there is left to do: the vigils that are ready, and the watchers that are not done. -/
def unrest (t : Timetable) : Nat :=
  t.vigils.countP t.isReady + t.watchers.countP fun w => !w.isDone

/-- Holds of the polls that take something further. -/
def isStirredBy (t : Timetable) : Act → Bool
  | .poll i => t.vigils[i]?.any t.isReady
  | .pollWatcher k => t.watchers[k]?.any t.isCalled
  | _ => false

theorem isPoll_of_isStirredBy {act : Act} (h : t.isStirredBy act = true) : act.isPoll = true := by
  cases act with
  | poll i => rfl
  | pollWatcher k => rfl
  | _ => cases h

/-- Every act is a poll that takes something further. -/
def Stirs : Timetable → List Act → Prop
  | _, [] => True
  | t, act :: acts => t.isStirredBy act = true ∧ Stirs (t.act act) acts

/-- One place that a list is counted at less. -/
theorem countP_set_of_lost {α : Type*} {p : α → Bool} {l : List α} {x y : α}
    (hx : l[i]? = some x) (held : p x = true) (lost : p y = false) :
    (l.set i y).countP p + 1 = l.countP p := by
  obtain ⟨hi, rfl⟩ := List.getElem?_eq_some_iff.mp hx
  have hpos : 0 < l.countP p := List.countP_pos_iff.mpr ⟨_, List.getElem_mem hi, held⟩
  rw [List.countP_set hi, held, lost]
  simp only [if_true, Bool.false_eq_true, if_false]
  omega

theorem Stirs.concat {act : Act} {polls : List Act} (h : t.Stirs polls)
    (hact : (t.run polls).isStirredBy act = true) : t.Stirs (polls ++ [act]) := by
  induction polls generalizing t with
  | nil => exact ⟨hact, trivial⟩
  | cons first polls ih => exact ⟨h.1, ih h.2 hact⟩

theorem Served.unrest_poll (h : t.Served) (hv : t.vigils[i]? = some v)
    (ready : t.isReady v = true) : (t.poll i).unrest + 1 = t.unrest := by
  obtain ⟨a, ha, _⟩ := h.sound.vigils hv
  have hvigils : (t.poll i).vigils = _ := congrArg Core.vigils (core_poll hv ha)
  have hwatchers : (t.poll i).watchers = t.watchers := congrArg Frame.watchers (t.frame_poll i)
  have waits := (h.poll_self hv ha).2.1
  rw [isReady_poll] at waits
  simp only [unrest]
  rw [isReady_poll, hwatchers, hvigils, ← countP_set_of_lost hv ready waits]
  dsimp only [Core.follow, core]
  omega

theorem unrest_pollWatcher {w : Watcher} (hw : t.watchers[k]? = some w)
    (called : t.isCalled w = true) : (t.pollWatcher k).unrest + 1 = t.unrest := by
  obtain ⟨waiting, v, hv, closed⟩ := isCalled_iff.mp called
  obtain ⟨hcore, hledger⟩ := pollWatcher_of_over hw waiting hv closed
  have hvigils : (t.pollWatcher k).vigils = t.vigils := congrArg Core.vigils hcore
  have hwatchers : (t.pollWatcher k).watchers = _ := congrArg Ledger.watchers hledger
  have hready : (t.pollWatcher k).isReady = t.isReady := by
    obtain ⟨roster, watchers, journal, hpolled⟩ := t.pollWatcher_eq k
    rw [hpolled]
    rfl
  have hundone := countP_set_of_lost (p := fun w : Watcher => !w.isDone)
    (y := { w with isDone := true }) hw (by simp [waiting]) rfl
  simp only [unrest]
  rw [hready, hvigils, hwatchers, ← hundone]
  dsimp only [ledger]
  omega

theorem Served.unrest_act (h : t.Served) {act : Act} (hact : t.isStirredBy act = true) :
    (t.act act).unrest + 1 = t.unrest := by
  cases act with
  | poll i =>
      obtain ⟨v, hv, ready⟩ := (Option.any_eq_true ..).mp hact
      exact h.unrest_poll hv ready
  | pollWatcher k =>
      obtain ⟨w, hw, called⟩ := (Option.any_eq_true ..).mp hact
      exact unrest_pollWatcher hw called
  | _ => cases hact

/-- Every poll that takes something further leaves less to do. -/
theorem Served.unrest_run (h : t.Served) {polls : List Act} (hstirs : t.Stirs polls) :
    polls.length + (t.run polls).unrest = t.unrest := by
  induction polls generalizing t with
  | nil => exact Nat.zero_add _
  | cons act polls ih =>
      obtain ⟨hact, hstirs⟩ := hstirs
      have hlater := ih (h.act_of_isPoll (isPoll_of_isStirredBy hact)) hstirs
      have hless := h.unrest_act hact
      rw [run_cons, List.length_cons]
      omega

/-- The poll that comes next takes something further. -/
theorem isStirredBy_of_nextAct? {act : Act} (h : t.nextAct? = some act) :
    t.isStirredBy act = true := by
  simp only [nextAct?] at h
  split at h
  · next i hi =>
      cases h
      obtain ⟨v, hv, ready⟩ := ready_of_nextVigil? hi
      exact (Option.any_eq_true ..).mpr ⟨v, hv, ready⟩
  · obtain ⟨k, hk, rfl⟩ := Option.map_eq_some_iff.mp h
    obtain ⟨hlt, called, _⟩ := List.findIdx?_eq_some_iff_getElem.mp hk
    exact (Option.any_eq_true ..).mpr ⟨_, List.getElem?_eq_getElem hlt, called⟩

/-- As long as not everything waits there is a poll that takes something further. -/
theorem isStirredBy_of_step? (hstep : t.step? = some u) :
    ∃ act, t.isStirredBy act = true ∧ t.act act = u := by
  rw [step?_eq] at hstep
  obtain ⟨act, hact, hu⟩ := Option.map_eq_some_iff.mp hstep
  exact ⟨act, isStirredBy_of_nextAct? hact, hu⟩

theorem stirs_settlingWithin (fuel : Nat) (t : Timetable) : t.Stirs (settlingWithin fuel t) := by
  induction fuel generalizing t with
  | zero => trivial
  | succ fuel ih =>
      simp only [settlingWithin]
      split
      · next act hact => exact ⟨isStirredBy_of_nextAct? hact, ih _⟩
      · trivial

theorem Served.atRest_settleWithin (h : t.Served) {fuel : Nat} (hfuel : t.unrest < fuel) :
    (settleWithin fuel t).AtRest := by
  induction fuel generalizing t with
  | zero => exact absurd hfuel (Nat.not_lt_zero _)
  | succ fuel ih =>
      simp only [settleWithin]
      cases hstep : t.step? with
      | none => exact step?_eq_none_iff.mp hstep
      | some u =>
          obtain ⟨act, hact, rfl⟩ := isStirredBy_of_step? hstep
          have hless := h.unrest_act hact
          exact ih (h.act_of_isPoll (isPoll_of_isStirredBy hact)) (by omega)

/-- Settling comes to rest. -/
theorem Served.atRest_settle (h : t.Served) : t.settle.AtRest := by
  have hvigils : t.vigils.countP t.isReady ≤ t.vigils.length := List.countP_le_length
  have hwatchers : (t.watchers.countP fun w => !w.isDone) ≤ t.watchers.length :=
    List.countP_le_length
  apply h.atRest_settleWithin
  rw [unrest]
  omega

/-- From wherever a history leads, if its tasks leave the clock alone, settling comes to an end, and
to the same end in whatever order the polls come. Every poll of a vigil or watcher that is ready
leaves less to do, there is always one more as long as not everything waits, and the program's own
way of settling is one of these. No vigil begins more than one run at this instant, and only a live
one does. Two ways of polling after which everything waits come to the same scene, if the vigils'
runs go on in the same way; and they do so in any order unless tasks share a troupe. -/
theorem settling_confluent (start : Instant) (source : IdSource) (replies : List RestartReply)
    (acts : List Act) (hservice : ∀ act ∈ acts, act.isDirect = false)
    (hclock : ∀ act ∈ acts, act.LeavesClock) :
    let t := (opening start source replies).run acts
    (∀ polls, t.Stirs polls → polls.length + (t.run polls).unrest = t.unrest ∧
      ((t.run polls).step? = none ∨ ∃ act, t.Stirs (polls ++ [act]))) ∧
    (t.settle.step? = none ∧ ∃ polls, t.Stirs polls ∧ t.settle = t.run polls) ∧
    (∀ polls : List Act, (∀ act ∈ polls, act.isPoll = true) →
      (∀ i, beginnings i (t.run polls).annals = beginnings i t.annals ∨
        ∃ v, t.vigils[i]? = some v ∧ t.core.IsLive v ∧
          beginnings i (t.run polls).annals = t.now :: beginnings i t.annals) ∧
      (t.IsApart → t.Plays (fun _ i turn => turn = t.turnOf i) polls)) ∧
    (∀ (turns : Nat → Turn) (first second : List Act),
      (∀ act ∈ first, act.isPoll = true) → (∀ act ∈ second, act.isPoll = true) →
      t.Plays (fun _ i turn => turn = turns i) first →
      t.Plays (fun _ i turn => turn = turns i) second →
      (t.run first).step? = none → (t.run second).step? = none →
      (t.run first).scene = (t.run second).scene) := by
  intro t
  have hserved : t.Served := (served_opening start source replies).run hservice hclock
  refine ⟨?_, ?_, ?_, ?_⟩
  · intro polls hstirs
    refine ⟨hserved.unrest_run hstirs, ?_⟩
    cases hstep : (t.run polls).step? with
    | none => exact Or.inl rfl
    | some u =>
        obtain ⟨act, hact, _⟩ := isStirredBy_of_step? hstep
        exact Or.inr ⟨act, hstirs.concat hact⟩
  · refine ⟨step?_eq_none_iff.mpr hserved.atRest_settle, t.settling, ?_, t.run_settling.symm⟩
    exact t.stirs_settlingWithin _
  · intro polls hpolls
    refine ⟨hserved.beginnings_run hpolls, ?_⟩
    intro hapart
    exact hserved.plays_of_apart hapart (fun i a due => due.turnOf.symm) hpolls
  · intro turns first second hfirst hsecond hplays hplays' hrest hrest'
    exact hserved.scene_eq hfirst hsecond hplays hplays' (step?_eq_none_iff.mp hrest)
      (step?_eq_none_iff.mp hrest')

/-- A new plan comes while the task runs. The run is over as soon as the next is due, and it does
not matter which of the two is seen to first. -/
theorem settling_confluent_of_succession :
    let slow : Task := .pause ⟨5000000, by decide⟩
    let acts : List Act := [.create slow .once, .poll 0, .update 1001 .once, .pass 5]
    let t := (opening .epoch {} []).run acts
    let first := t.run [.poll 0, .poll 1, .pollWatcher 0]
    let second := t.run [.poll 1, .poll 0, .pollWatcher 0]
    t.unrest = 4 ∧ first.annals ≠ second.annals ∧ first.scene = second.scene ∧
      first.vigils.map Vigil.phase = [.ended .cancelled, .running 10 { sleep := 5 }] := by
  intro slow acts t first second
  have hslow : slow.LeavesClock := fun _ => rfl
  obtain ⟨_, _, hpolls, hconfluent⟩ :=
    settling_confluent .epoch {} [] acts (by simp [acts, Act.isDirect])
      (by simp [acts, Act.LeavesClock, hslow])
  have hapart : t.IsApart := isApart_of_unrehearsed (by decide +kernel)
  refine ⟨by decide +kernel, by decide +kernel, ?_, by decide +kernel⟩
  apply hconfluent t.turnOf _ _ (by decide) (by decide)
  · exact (hpolls _ (by decide)).2 hapart
  · exact (hpolls _ (by decide)).2 hapart
  · exact Option.isNone_iff_eq_none.mp (by decide +kernel)
  · exact Option.isNone_iff_eq_none.mp (by decide +kernel)

end Timetable

end Almanac
