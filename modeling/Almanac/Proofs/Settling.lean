import Almanac.Proofs.Frame
import Almanac.Proofs.History
import Almanac.Timetable.Settle

/-!
# Settling and advancing are histories

The scheduler itself polls in an order of its own: what has waited longest comes first, vigils
come before watchers, and time passes from timer to timer. That order is one of those that a
history may choose, so that what holds of every history holds of every timetable that the
scheduler brings about.
-/

namespace Almanac.Timetable

/-- The poll that comes next as long as not everything waits. -/
def nextAct? (t : Timetable) : Option Act :=
  match t.nextVigil? with
  | some number => some (.poll number)
  | none => t.nextWatcher?.map .pollWatcher

/-- A step of settling is the poll that comes next. -/
theorem step?_eq (t : Timetable) : t.step? = t.nextAct?.map t.act := by
  simp only [step?, nextAct?]
  cases t.nextVigil? with
  | some number => rfl
  | none =>
      dsimp only
      rw [Option.map_map]
      rfl

theorem isPoll_of_nextAct? {t : Timetable} {act : Act} (h : t.nextAct? = some act) :
    act.isPoll = true := by
  simp only [nextAct?] at h
  split at h
  · cases h
    rfl
  · obtain ⟨watcher, _, rfl⟩ := Option.map_eq_some_iff.mp h
    rfl

def settlingWithin : Nat → Timetable → List Act
  | 0, _ => []
  | fuel + 1, t =>
    match t.nextAct? with
    | some act => act :: settlingWithin fuel (t.act act)
    | none => []

def settling (t : Timetable) : List Act :=
  settlingWithin (3 * t.vigils.length + t.watchers.length + 1) t

theorem run_settlingWithin (fuel : Nat) (t : Timetable) :
    t.run (settlingWithin fuel t) = settleWithin fuel t := by
  induction fuel generalizing t with
  | zero => rfl
  | succ fuel ih =>
      simp only [settlingWithin, settleWithin]
      rw [step?_eq]
      cases t.nextAct? with
      | none => rfl
      | some act => exact ih (t.act act)

/-- Settling is one of the ways in which the polls may come. -/
theorem run_settling (t : Timetable) : t.run t.settling = t.settle :=
  run_settlingWithin _ t

theorem isPoll_of_mem_settlingWithin {fuel : Nat} {t : Timetable} {act : Act}
    (h : act ∈ settlingWithin fuel t) : act.isPoll = true := by
  induction fuel generalizing t with
  | zero => cases h
  | succ fuel ih =>
      simp only [settlingWithin] at h
      split at h
      · next first hfirst =>
          rcases List.mem_cons.mp h with rfl | hlater
          · exact isPoll_of_nextAct? hfirst
          · exact ih hlater
      · cases h

theorem isPoll_of_mem_settling {t : Timetable} {act : Act} (h : act ∈ t.settling) :
    act.isPoll = true :=
  isPoll_of_mem_settlingWithin h

theorem elapsed_act_of_isPoll (t : Timetable) {act : Act} (hact : act.isPoll = true) :
    (t.act act).elapsed = t.elapsed := by
  cases act with
  | poll vigil => exact t.elapsed_poll vigil
  | pollWatcher watcher =>
      obtain ⟨roster, watchers, journal, hpolled⟩ := t.pollWatcher_eq watcher
      rw [act, hpolled]
  | _ => cases hact

/-- No time passes by polls. -/
theorem elapsed_run_of_isPoll {t : Timetable} {acts : List Act}
    (hacts : ∀ act ∈ acts, act.isPoll = true) : (t.run acts).elapsed = t.elapsed := by
  induction acts generalizing t with
  | nil => rfl
  | cons act acts ih =>
      obtain ⟨hact, hacts⟩ := List.forall_mem_cons.mp hacts
      rw [run_cons, ih hacts, t.elapsed_act_of_isPoll hact]

theorem elapsed_settle (t : Timetable) : t.settle.elapsed = t.elapsed := by
  rw [← run_settling, elapsed_run_of_isPoll fun _ => isPoll_of_mem_settling]

/-- The timetable at a time of its timers that is still to come. -/
def skipTo (t : Timetable) (timer : Nat) : Timetable := { t with elapsed := max t.elapsed timer }

theorem act_pass_eq_skipTo (t : Timetable) (timer : Nat) :
    t.act (.pass (timer - t.elapsed)) = t.skipTo timer := by
  have helapsed : t.elapsed + (timer - t.elapsed) = max t.elapsed timer := by omega
  rw [act, helapsed, skipTo]

theorem skipTo_of_le {t : Timetable} {limit : Nat} (h : t.elapsed ≤ limit) :
    t.skipTo limit = { t with elapsed := limit } := by
  rw [skipTo, Nat.max_eq_right h]

/-- The acts of going from timer to timer up to `limit`, at most so many timers. -/
def advancingTo (limit : Nat) : Nat → Timetable → List Act
  | 0, t => [.pass (limit - t.elapsed)]
  | fuel + 1, t =>
    match t.nextTimer? with
    | none => [.pass (limit - t.elapsed)]
    | some timer =>
      if timer ≤ limit then
        .pass (timer - t.elapsed) :: ((t.skipTo timer).settling ++
          advancingTo limit fuel (t.skipTo timer).settle)
      else [.pass (limit - t.elapsed)]

/-- The acts of letting milliseconds pass. -/
def advancing (t : Timetable) (millis : Nat) : List Act :=
  t.settling ++ advancingTo (t.elapsed + millis) (millis + 1) t.settle

theorem run_pass {t : Timetable} {limit : Nat} (h : t.elapsed ≤ limit) :
    t.run [.pass (limit - t.elapsed)] = { t with elapsed := limit } := by
  rw [run_cons, act_pass_eq_skipTo, skipTo_of_le h, run_nil]

theorem run_advancingTo {limit : Nat} (fuel : Nat) {t : Timetable} (h : t.elapsed ≤ limit) :
    t.run (advancingTo limit fuel t) = advanceTo limit fuel t := by
  induction fuel generalizing t with
  | zero => exact run_pass h
  | succ fuel ih =>
      simp only [advancingTo, advanceTo]
      cases t.nextTimer? with
      | none => exact run_pass h
      | some timer =>
          by_cases htimer : timer ≤ limit
          · have hle : (t.skipTo timer).settle.elapsed ≤ limit := by
              rw [elapsed_settle]
              exact Nat.max_le.mpr ⟨h, htimer⟩
            dsimp only
            rw [if_pos htimer, if_pos htimer, run_cons, act_pass_eq_skipTo, run_append,
              run_settling]
            exact ih hle
          · dsimp only
            rw [if_neg htimer, if_neg htimer]
            exact run_pass h

/-- Letting time pass is one of the ways in which time and polls may come. -/
theorem run_advancing (t : Timetable) (millis : Nat) :
    t.run (t.advancing millis) = t.advance millis := by
  have hle : t.settle.elapsed ≤ t.elapsed + millis := by
    rw [elapsed_settle]
    exact Nat.le_add_right _ _
  rw [advancing, run_append, run_settling, run_advancingTo _ hle, advance]

theorem isSpontaneous_of_mem_advancingTo {limit fuel : Nat} {t : Timetable} {act : Act}
    (h : act ∈ advancingTo limit fuel t) : act.isSpontaneous = true := by
  have hpass : ∀ {millis : Nat}, act ∈ [Act.pass millis] → act.isSpontaneous = true := by
    intro millis hmem
    rw [List.mem_singleton.mp hmem]
    rfl
  induction fuel generalizing t with
  | zero => exact hpass h
  | succ fuel ih =>
      simp only [advancingTo] at h
      split at h
      · exact hpass h
      · split at h
        · rcases List.mem_cons.mp h with rfl | hlater
          · rfl
          · rcases List.mem_append.mp hlater with hpoll | hlater
            · exact Act.isSpontaneous_of_isPoll (isPoll_of_mem_settling hpoll)
            · exact ih hlater
        · exact hpass h

theorem isSpontaneous_of_mem_advancing {t : Timetable} {millis : Nat} {act : Act}
    (h : act ∈ t.advancing millis) : act.isSpontaneous = true := by
  rcases List.mem_append.mp h with hpoll | hlater
  · exact Act.isSpontaneous_of_isPoll (isPoll_of_mem_settling hpoll)
  · exact isSpontaneous_of_mem_advancingTo hlater

end Almanac.Timetable
