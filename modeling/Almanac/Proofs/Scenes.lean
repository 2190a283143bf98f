import Almanac.Proofs.Grants
import Almanac.Proofs.Rest
import Almanac.Proofs.Steady
import Mathlib.Algebra.Order.Group.Multiset

/-!
# Scenes

The scene of a timetable leaves out the journal, the order of the annals and what the tasks keep to
themselves. Two polls that both take something further can be made in either order, and come to the
same scene: vigils of different alarms have nothing in common, of two vigils of one alarm one is
revoked and leaves the alarm alone, and the watchers release one handle each.
-/

namespace Almanac

/-- What becomes of a timetable whatever order the polls come in. -/
structure Scene where
  moment : Moment
  roster : Roster
  posts : List (Nat × Nat)
  nextHandle : Nat
  alarms : List Alarm
  vigils : List Vigil
  watchers : List Watcher
  deeds : Multiset Deed

def Timetable.scene (t : Timetable) : Scene where
  moment := t.moment
  roster := t.roster
  posts := t.posts
  nextHandle := t.nextHandle
  alarms := t.alarms
  vigils := t.vigils
  watchers := t.watchers
  deeds := t.annals

namespace Scene

variable {s x y : Scene} {i j k l : Nat} {v u : Vigil} {a b : Alarm} {w z : Watcher}
  {turns : Nat → Turn}

def core (s : Scene) : Core := ⟨s.alarms, s.vigils, []⟩

def follow (s : Scene) (i : Nat) (v : Vigil) (a : Alarm) (p : Passage) : Scene :=
  { s with
    alarms := s.alarms.set v.alarm (p.alarm a)
    vigils := s.vigils.set i (p.vigil v)
    deeds := (p.deeds i v.alarm : Multiset Deed) + s.deeds }

/-- The scene after a watcher has seen that its vigil is over. -/
def dismiss (s : Scene) (k : Nat) (w : Watcher) (v : Vigil) : Scene :=
  { s with
    roster := if v.phase.isConclusive then s.roster.released w.entry w.handle else s.roster
    watchers := s.watchers.set k { w with isDone := true } }

theorem follow_stay (hv : s.vigils[i]? = some v) (ha : s.alarms[v.alarm]? = some a) :
    s.follow i v a (v.stay a) = s := by
  have halarm : (v.stay a).alarm a = a := rfl
  have hvigil : (v.stay a).vigil v = v := rfl
  simp only [follow]
  rw [halarm, hvigil, Places.set_self ha, Places.set_self hv]
  simp [Passage.deeds, Vigil.stay]

/-- One poll that takes something further. The run that vigil `i` begins, if it begins one, goes on
as `turns i` says. -/
inductive Stir (turns : Nat → Turn) (s : Scene) : Scene → Prop
  | poll {i : Nat} {v : Vigil} {a : Alarm} (vigil : s.vigils[i]? = some v)
      (alarm : s.alarms[v.alarm]? = some a) (ready : v.isReady a s.moment.elapsed = true) :
      Stir turns s (s.follow i v a (v.passage a s.moment (turns i)))
  | pollWatcher {k : Nat} {w : Watcher} {v : Vigil} (watcher : s.watchers[k]? = some w)
      (waiting : w.isDone = false) (vigil : s.vigils[w.vigil]? = some v)
      (closed : v.phase.isOpen = false) : Stir turns s (s.dismiss k w v)

/-- Sound alarms and vigils, periods that have passed their check, and no id twice. -/
structure Fair (s : Scene) : Prop where
  sound : s.core.Sound
  periods : ∀ {n : Nat} {a : Alarm}, s.alarms[n]? = some a → checkPeriod a.period = .ok ()
  ids : s.roster.ids.Nodup

namespace Fair

theorem follow (h : s.Fair) (hv : s.vigils[i]? = some v) (ha : s.alarms[v.alarm]? = some a)
    (m : Moment) (turn : Turn) : (s.follow i v a (v.passage a m turn)).Fair where
  sound := by
    have hmoves := Core.moves_passage (c := s.core) hv ha m turn
    have hsteps : Core.Steps (fun _ => True) s.core _ := Core.Moves.steps hmoves trivial
    have hsound := h.sound.steps hsteps
    exact ⟨hsound.alarms, hsound.vigils, hsound.distinct⟩
  periods := by
    intro n b hb
    dsimp only [Scene.follow] at hb
    rw [Places.getElem?_set ha] at hb
    split at hb
    · cases hb
      have hperiod := h.periods ha
      exact hperiod
    · exact h.periods hb
  ids := h.ids

theorem dismiss (h : s.Fair) (k : Nat) (w : Watcher) (v : Vigil) : (s.dismiss k w v).Fair where
  sound := h.sound
  periods := h.periods
  ids := by
    dsimp only [Scene.dismiss]
    split
    · rw [Roster.ids_released]
      exact h.ids
    · exact h.ids

theorem stir (h : s.Fair) (hstir : s.Stir turns x) : x.Fair := by
  cases hstir with
  | poll vigil alarm ready => exact h.follow vigil alarm _ _
  | pollWatcher watcher waiting vigil closed => exact h.dismiss _ _ _

end Fair

/-- The passages of vigils of different alarms. -/
theorem follow_comm (hij : i ≠ j) (hother : v.alarm ≠ u.alarm) (s : Scene) (a b : Alarm)
    (p q : Passage) :
    (s.follow i v a p).follow j u b q = (s.follow j u b q).follow i v a p := by
  simp only [follow]
  rw [List.set_comm _ _ hij, List.set_comm _ _ hother, add_left_comm]

/-- The passages of two vigils of one alarm, the first of which leaves the alarm alone. -/
theorem follow_comm_of_unmoved (hij : i ≠ j) (hone : v.alarm = u.alarm)
    (ha : s.alarms[u.alarm]? = some a) {p q : Passage} (unmoved : p.alarm a = a) :
    (s.follow i v a p).follow j u a q =
      (s.follow j u a q).follow i v (q.alarm a) (p.leaving q) := by
  have hleft : (p.leaving q).alarm (q.alarm a) = q.alarm a := rfl
  have hvigil : (p.leaving q).vigil v = p.vigil v := rfl
  have hdeeds : (p.leaving q).deeds i v.alarm = p.deeds i v.alarm := rfl
  simp only [follow]
  rw [hone, hleft, hvigil, ← hone, hdeeds, hone, unmoved, Places.set_self ha, List.set_set,
    List.set_comm _ _ hij, add_left_comm]

/-- Two watchers. -/
theorem dismiss_comm (hids : s.roster.ids.Nodup) (hkl : k ≠ l) (w z : Watcher) (v u : Vigil) :
    (s.dismiss k w v).dismiss l z u = (s.dismiss l z u).dismiss k w v := by
  simp only [dismiss]
  rw [List.set_comm _ _ hkl]
  cases v.phase.isConclusive with
  | false => rfl
  | true =>
      cases u.phase.isConclusive with
      | false => rfl
      | true =>
          rw [if_pos rfl, if_pos rfl, if_pos rfl, if_pos rfl, Roster.released_comm hids]

/-- A vigil whose token is revoked, and another one of its alarm, in either order. -/
theorem Fair.diamond_of_revoked (h : s.Fair) (hij : i ≠ j) (hv : s.vigils[i]? = some v)
    (hu : s.vigils[j]? = some u) (hone : v.alarm = u.alarm) (ha : s.alarms[u.alarm]? = some a)
    (ready : v.isReady a s.moment.elapsed = true) (ready' : u.isReady a s.moment.elapsed = true)
    (revoked : a.isRevoked v.token = true) :
    ∃ d, Stir turns (s.follow i v a (v.passage a s.moment (turns i))) d ∧
      Stir turns (s.follow j u a (u.passage a s.moment (turns j))) d := by
  let p := v.passage a s.moment (turns i)
  let q := u.passage a s.moment (turns j)
  have ha' : s.alarms[v.alarm]? = some a := hone ▸ ha
  have unheeded := h.sound.conclude_of_revoked hv ha' revoked
  have unmoved : p.alarm a = a := Vigil.alarm_of_revoked revoked unheeded _ _
  have hv' : (s.follow j u a q).vigils[i]? = some v := by
    simp only [Scene.follow]
    rw [Places.getElem?_set hu, if_neg (Ne.symm hij)]
    exact hv
  have hqa : (s.follow j u a q).alarms[v.alarm]? = some (q.alarm a) := by
    simp only [Scene.follow]
    rw [hone]
    exact Places.getElem?_set_self ha _
  have unheeded' := (h.follow hu ha _ _).sound.conclude_of_revoked hv' hqa revoked
  have hpassage : v.passage (q.alarm a) s.moment (turns i) = p.leaving q :=
    Vigil.passage_alarm_of_revoked revoked unheeded' _ _
  refine ⟨(s.follow i v a p).follow j u a q, ?_, ?_⟩
  · have hu' : (s.follow i v a p).vigils[j]? = some u := by
      simp only [Scene.follow]
      rw [Places.getElem?_set hv, if_neg hij]
      exact hu
    have hpa : (s.follow i v a p).alarms[u.alarm]? = some a := by
      simp only [Scene.follow]
      rw [unmoved, Places.set_self ha']
      exact ha
    exact .poll hu' hpa ready'
  · rw [follow_comm_of_unmoved hij hone ha unmoved, ← hpassage]
    exact .poll hv' hqa ready

/-- Two vigils, in either order. -/
theorem Fair.diamond_poll (h : s.Fair) (hij : i ≠ j) (hv : s.vigils[i]? = some v)
    (hu : s.vigils[j]? = some u) (ha : s.alarms[v.alarm]? = some a)
    (hb : s.alarms[u.alarm]? = some b) (ready : v.isReady a s.moment.elapsed = true)
    (ready' : u.isReady b s.moment.elapsed = true) :
    ∃ d, Stir turns (s.follow i v a (v.passage a s.moment (turns i))) d ∧
      Stir turns (s.follow j u b (u.passage b s.moment (turns j))) d := by
  by_cases hone : v.alarm = u.alarm
  · obtain rfl : a = b := by
      rw [hone, hb] at ha
      cases ha
      rfl
    cases revoked : a.isRevoked v.token with
    | true => exact h.diamond_of_revoked hij hv hu hone hb ready ready' revoked
    | false =>
        cases revoked' : a.isRevoked u.token with
        | true =>
            obtain ⟨d, hd, hd'⟩ :=
              h.diamond_of_revoked (Ne.symm hij) hu hv hone.symm ha ready' ready revoked'
            exact ⟨d, hd', hd⟩
        | false =>
            have live : s.core.IsLive v := ⟨Vigil.isOpen_of_isReady ready, a, ha, revoked⟩
            have live' : s.core.IsLive u := ⟨Vigil.isOpen_of_isReady ready', a, hb, revoked'⟩
            exact absurd (h.sound.eq_of_live hv hu hone live live') hij
  · refine ⟨_, .poll (i := j) (v := u) (a := b) ?_ ?_ ready', ?_⟩
    · simp only [Scene.follow]
      rw [Places.getElem?_set hv, if_neg hij]
      exact hu
    · simp only [Scene.follow]
      rw [Places.getElem?_set ha, if_neg hone]
      exact hb
    · change Stir turns _ ((s.follow i v a _).follow j u b (u.passage b s.moment (turns j)))
      rw [follow_comm hij hone]
      refine .poll ?_ ?_ ready
      · simp only [Scene.follow]
        rw [Places.getElem?_set hu, if_neg (Ne.symm hij)]
        exact hv
      · simp only [Scene.follow]
        rw [Places.getElem?_set hb, if_neg (Ne.symm hone)]
        exact ha

/-- A vigil and a watcher, in either order. -/
theorem diamond_mixed (hv : s.vigils[i]? = some v) (ha : s.alarms[v.alarm]? = some a)
    (ready : v.isReady a s.moment.elapsed = true) (hw : s.watchers[k]? = some w)
    (waiting : w.isDone = false) (hu : s.vigils[w.vigil]? = some u)
    (closed : u.phase.isOpen = false) :
    ∃ d, Stir turns (s.follow i v a (v.passage a s.moment (turns i))) d ∧
      Stir turns (s.dismiss k w u) d := by
  have hother : i ≠ w.vigil := by
    rintro rfl
    rw [hv] at hu
    cases hu
    rw [Vigil.isOpen_of_isReady ready] at closed
    cases closed
  have hu' : (s.vigils.set i ((v.passage a s.moment (turns i)).vigil v))[w.vigil]? = some u := by
    rw [Places.getElem?_set hv, if_neg hother]
    exact hu
  exact ⟨_, .pollWatcher hw waiting hu' closed, .poll hv ha ready⟩

/-- The diamond: two polls that take something further are the same, or each of them can still be
made after the other. -/
theorem Fair.diamond (h : s.Fair) (hx : s.Stir turns x) (hy : s.Stir turns y) :
    x = y ∨ ∃ d, x.Stir turns d ∧ y.Stir turns d := by
  cases hx with
  | @poll i v a hv ha ready =>
      cases hy with
      | @poll j u b hu hb ready' =>
          by_cases hij : i = j
          · subst hij
            rw [hv] at hu
            cases hu
            rw [ha] at hb
            cases hb
            exact Or.inl rfl
          · exact Or.inr (h.diamond_poll hij hv hu ha hb ready ready')
      | pollWatcher hw waiting hu closed =>
          exact Or.inr (diamond_mixed hv ha ready hw waiting hu closed)
  | @pollWatcher k w v hw waiting hv closed =>
      cases hy with
      | poll hu hb ready =>
          obtain ⟨d, hd, hd'⟩ := diamond_mixed hu hb ready hw waiting hv closed
          exact Or.inr ⟨d, hd', hd⟩
      | @pollWatcher l z u hz waiting' hu closed' =>
          by_cases hkl : k = l
          · subst hkl
            rw [hw] at hz
            cases hz
            rw [hv] at hu
            cases hu
            exact Or.inl rfl
          · have hz' : (s.dismiss k w v).watchers[l]? = some z := by
              simp only [Scene.dismiss]
              rw [Places.getElem?_set hw, if_neg hkl]
              exact hz
            have hw' : (s.dismiss l z u).watchers[k]? = some w := by
              simp only [Scene.dismiss]
              rw [Places.getElem?_set hz, if_neg (Ne.symm hkl)]
              exact hw
            refine Or.inr ⟨_, .pollWatcher hz' waiting' hu closed', ?_⟩
            rw [dismiss_comm h.ids hkl]
            exact .pollWatcher hw' waiting hv closed

/-- A stir of a fair scene. -/
def FairStir (turns : Nat → Turn) (s x : Scene) : Prop := s.Fair ∧ s.Stir turns x

/-- Whatever polls are made, there are polls that bring them together again. -/
theorem stirs_join (hx : Relation.ReflTransGen (FairStir turns) s x)
    (hy : Relation.ReflTransGen (FairStir turns) s y) :
    Relation.Join (Relation.ReflTransGen (FairStir turns)) x y := by
  refine Relation.church_rosser ?_ hx hy
  rintro s x y ⟨hfair, hx⟩ ⟨_, hy⟩
  rcases hfair.diamond hx hy with rfl | ⟨d, hxd, hyd⟩
  · exact ⟨x, .refl, .refl⟩
  · exact ⟨d, .single ⟨hfair.stir hx, hxd⟩, .single ⟨hfair.stir hy, hyd⟩⟩

/-- A scene that nothing stirs stays as it is. -/
theorem eq_of_still (still : ∀ y, ¬ x.Stir turns y)
    (h : Relation.ReflTransGen (FairStir turns) x y) : y = x := by
  cases h.cases_head with
  | inl hsame => exact hsame.symm
  | inr hstep =>
      obtain ⟨z, ⟨_, hstir⟩, _⟩ := hstep
      exact absurd hstir (still z)

end Scene

end Almanac
