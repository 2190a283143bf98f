import Almanac.Proofs.Cues

/-!
# Beats

Requests come to a service that is otherwise left to settle or to advance, with as many polls as all
alarms together need. What all that tells one alarm is again a list of cues, in which it does not
show at how many points in between others were served while time went on.
-/

namespace Almanac

/-- What is done with a timetable at a time. -/
inductive Beat where
  | act (act : Act)
  | settle
  | advance (millis : Nat)

/-- The beat gives no command to an alarm itself, and adds no task that moves the clock. -/
def Beat.IsService : Beat → Prop
  | act a => a.isDirect = false ∧ a.LeavesClock
  | _ => True

/-- Cues, and one before them if there is one. Two stretches of time without anything in between
are one. -/
def Cue.join : Option Cue → List Cue → List Cue
  | none, cues => cues
  | some (.elapse millis), .elapse more :: cues => .elapse (millis + more) :: cues
  | some c, cues => c :: cues

namespace Timetable

variable {t u s r : Timetable} {n : Nat} {b : Beat} {beats : List Beat} {outcome : Nat → Turn}

def beat (t : Timetable) : Beat → Timetable
  | .act a => t.act a
  | .settle => t.settle
  | .advance millis => t.advance millis

def play (t : Timetable) (beats : List Beat) : Timetable := beats.foldl beat t

def actsOf (t : Timetable) : Beat → List Act
  | .act a => [a]
  | .settle => t.settling
  | .advance millis => t.advancing millis

def script (t : Timetable) : List Beat → List Act
  | [] => []
  | b :: beats => t.actsOf b ++ (t.beat b).script beats

theorem run_actsOf (t : Timetable) (b : Beat) : t.run (t.actsOf b) = t.beat b := by
  cases b with
  | act a => rfl
  | settle => exact t.run_settling
  | advance millis => exact t.run_advancing millis

theorem run_script (t : Timetable) (beats : List Beat) : t.run (t.script beats) = t.play beats := by
  induction beats generalizing t with
  | nil => rfl
  | cons b beats ih =>
      rw [script, run_append, run_actsOf, ih]
      rfl

theorem script_append (t : Timetable) (first later : List Beat) :
    t.script (first ++ later) = t.script first ++ (t.play first).script later := by
  induction first generalizing t with
  | nil => rfl
  | cons b first ih =>
      rw [List.cons_append, script, ih, ← List.append_assoc]
      rfl

theorem isService_of_mem_actsOf (hb : b.IsService) {act : Act} (hact : act ∈ t.actsOf b) :
    act.isDirect = false ∧ act.LeavesClock := by
  cases b with
  | act a =>
      obtain rfl := List.mem_singleton.mp hact
      exact hb
  | settle =>
      have hpoll : act.isPoll = true := isPoll_of_mem_settling hact
      exact Act.isService_of_isSpontaneous (Act.isSpontaneous_of_isPoll hpoll)
  | advance millis => exact Act.isService_of_isSpontaneous (isSpontaneous_of_mem_advancing hact)

theorem isService_of_mem_script (hbeats : ∀ b ∈ beats, b.IsService) {act : Act}
    (hact : act ∈ t.script beats) : act.isDirect = false ∧ act.LeavesClock := by
  induction beats generalizing t with
  | nil => cases hact
  | cons b beats ih =>
      obtain ⟨hb, hbeats⟩ := List.forall_mem_cons.mp hbeats
      rcases List.mem_append.mp hact with hfirst | hlater
      · exact isService_of_mem_actsOf hb hfirst
      · exact ih hbeats hlater

theorem Agrees.play (h : t.Agrees) (hbeats : ∀ b ∈ beats, b.IsService) : (t.play beats).Agrees := by
  rw [← run_script]
  apply h.run
  intro act hact
  exact (isService_of_mem_script hbeats hact).1

/-- A roster that is not spoiled in the end never was. -/
theorem Agrees.sound_of_play (h : t.Agrees) (hbeats : ∀ b ∈ beats, b.IsService)
    (sound : (t.play beats).roster.isSpoiled = false) : t.roster.isSpoiled = false := by
  rw [← run_script] at sound
  apply h.sound_of_run _ sound
  intro act hact
  exact (isService_of_mem_script hbeats hact).1

/-- What a beat tells alarm `n`, if anything. -/
def beatCue? (t : Timetable) (n : Nat) : Beat → Option Cue
  | .act a => t.cue? n a
  | .settle => some (.elapse 0)
  | .advance millis => some (.elapse millis)

/-- What beats tell alarm `n`. -/
def cues (t : Timetable) (n : Nat) : List Beat → List Cue
  | [] => []
  | b :: beats => Cue.join (t.beatCue? n b) ((t.beat b).cues n beats)

theorem HeedsAll.join {c : Option Cue} {cues : List Cue} (h : HeedsAll outcome s c.toList r)
    (h' : HeedsAll outcome r cues u) : HeedsAll outcome s (Cue.join c cues) u := by
  cases c with
  | none =>
      obtain rfl : r = s := h
      exact h'
  | some c =>
      obtain ⟨x, hx, rfl⟩ := h
      simp only [Cue.join]
      split
      · next hnone => cases hnone
      · next millis more later hsome =>
          cases hsome
          obtain ⟨y, hy, hlater⟩ := h'
          exact ⟨y, Elapses.trans hx hy, hlater⟩
      · next hsome _ =>
          cases hsome
          exact ⟨_, hx, h'⟩

namespace Hosts

theorem beat (h : t.Hosts n) (hb : b.IsService) : (t.beat b).Hosts n := by
  rw [← run_actsOf]
  apply h.run
  · intro act hact
    exact (isService_of_mem_actsOf hb hact).1
  · intro act hact
    exact (isService_of_mem_actsOf hb hact).2

/-- A beat makes of the solo what its cue makes of it. -/
theorem heeds_beat (h : t.Hosts n) (hb : b.IsService) (sound : t.roster.isSpoiled = false)
    (hplays : t.PlaysAs n outcome (t.actsOf b)) :
    HeedsAll outcome (t.solo n) (t.beatCue? n b).toList ((t.beat b).solo n) := by
  cases b with
  | act a => exact h.heeds_act hb.1 sound hplays
  | settle => exact ⟨_, h.elapses_settle hplays, rfl⟩
  | advance millis => exact ⟨_, h.elapses_advance hplays, rfl⟩

/-- What becomes of the solo is what the cues make of it. -/
theorem heeds_play (h : t.Hosts n) (hbeats : ∀ b ∈ beats, b.IsService)
    (sound : (t.play beats).roster.isSpoiled = false)
    (hplays : t.PlaysAs n outcome (t.script beats)) :
    HeedsAll outcome (t.solo n) (t.cues n beats) ((t.play beats).solo n) := by
  induction beats generalizing t with
  | nil => rfl
  | cons b beats ih =>
      have hbefore : t.roster.isSpoiled = false := h.agrees.sound_of_play hbeats sound
      obtain ⟨hb, hbeats⟩ := List.forall_mem_cons.mp hbeats
      obtain ⟨hfirst, hlater⟩ := hplays.split
      rw [run_actsOf] at hlater
      exact (h.heeds_beat hb hbefore hfirst).join (ih (h.beat hb) hbeats sound hlater)

end Hosts

end Timetable

end Almanac
