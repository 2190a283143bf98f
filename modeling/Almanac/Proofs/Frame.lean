import Almanac.Proofs.Passages
import Almanac.Timetable.Service

/-!
# What polls leave alone

The polls of vigils work on alarms, vigils, journal and clock. Roster, posts and watchers are
for the requests and for the watchers themselves, and time passes by itself.
-/

namespace Almanac

namespace Timetable

theorem releaseHandle_eq (t : Timetable) (entry handle : Nat) :
    t.releaseHandle entry handle = t.log .failure "failed to release entry handle" ∨
      ∃ released roster, t.roster.release entry handle = .ok (released, roster) ∧
        t.releaseHandle entry handle = { t with roster } := by
  simp only [releaseHandle]
  cases hrelease : t.roster.release entry handle with
  | error e => exact Or.inl rfl
  | ok result => exact Or.inr ⟨result.1, result.2, rfl, rfl⟩

theorem pollWatcher_eq (t : Timetable) (number : Nat) :
    ∃ roster watchers journal,
      t.pollWatcher number = { t with roster, watchers, journal } := by
  have hrelease : ∀ (u : Timetable) (entry handle : Nat),
      (∃ watchers journal, u = { t with watchers, journal }) →
      ∃ roster watchers journal,
        u.releaseHandle entry handle = { t with roster, watchers, journal } := by
    rintro u entry handle ⟨watchers, journal, rfl⟩
    rcases releaseHandle_eq { t with watchers, journal } entry handle with
      heq | ⟨released, roster, _, heq⟩
    · rw [heq]
      exact ⟨t.roster, watchers, _, rfl⟩
    · rw [heq]
      exact ⟨roster, watchers, journal, rfl⟩
  unfold pollWatcher
  split
  · exact ⟨t.roster, t.watchers, t.journal, rfl⟩
  · split
    · exact ⟨t.roster, t.watchers, t.journal, rfl⟩
    · dsimp only
      split
      · exact hrelease _ _ _ ⟨_, _, rfl⟩
      · exact hrelease _ _ _ ⟨_, _, rfl⟩
      · exact ⟨t.roster, _, t.journal, rfl⟩
      · exact ⟨t.roster, _, t.journal, rfl⟩
      · exact ⟨t.roster, t.watchers, t.journal, rfl⟩

theorem enroll_eq (t : Timetable) (e : Entry) :
    ∃ journal, t.enroll e =
      ((t.roster.add e).outcome, { t with roster := (t.roster.add e).roster, journal }) := by
  simp only [enroll]
  split
  · exact ⟨_, rfl⟩
  · exact ⟨_, rfl⟩

end Timetable

/-- What no poll of a vigil touches. -/
structure Frame where
  start : Instant
  elapsed : Nat
  roster : Roster
  posts : List (Nat × Nat)
  nextHandle : Nat
  watchers : List Watcher

namespace Timetable

def frame (t : Timetable) : Frame :=
  ⟨t.start, t.elapsed, t.roster, t.posts, t.nextHandle, t.watchers⟩

theorem frame_poll (t : Timetable) (i : Nat) : (t.poll i).frame = t.frame := by
  rcases t.poll_cases i with hsame | ⟨v, a, hv, ha⟩
  · rw [hsame]
  · refine (congrArg frame (hushed_poll hv ha)).trans ?_
    obtain ⟨runs, replies, journal, hcalling⟩ :=
      t.calling_eq a.task (v.passage a t.moment (t.beginRun a.task).1)
    rw [hcalling]
    rfl

theorem elapsed_poll (t : Timetable) (i : Nat) : (t.poll i).elapsed = t.elapsed :=
  congrArg Frame.elapsed (t.frame_poll i)

end Timetable

end Almanac
