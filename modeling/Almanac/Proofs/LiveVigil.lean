import Almanac.Proofs.Core

/-!
# The live vigil of an alarm

A vigil is live until it is over or its token is revoked. However commands and polls interleave,
an alarm has at most one live vigil: the one of its last start, which holds its token, and only
while it runs. Every other vigil is inert: it begins no run and moves no alarm.
-/

namespace Almanac

/-- An alarm whose tokens are used up in order, and whose own is not revoked while it runs. -/
structure Alarm.Sound (a : Alarm) : Prop where
  token_lt : a.token < a.unused
  revoked_lt : ∀ token ∈ a.revoked, token < a.unused
  held : a.status = .running → a.isRevoked a.token = false

namespace Alarm.Sound

theorem ofEntry (e : Entry) : (Alarm.ofEntry e).Sound where
  token_lt := Nat.zero_lt_one
  revoked_lt := by
    intro token htoken
    cases htoken
  held := by
    intro running
    cases running

theorem stop {a : Alarm} (ha : a.Sound) : a.stop.Sound := by
  by_cases running : a.status = .running
  · rw [stop_of_running running]
    refine ⟨ha.token_lt, ?_, ?_⟩
    · intro token htoken
      rcases List.mem_cons.mp htoken with rfl | htoken
      · exact ha.token_lt
      · exact ha.revoked_lt token htoken
    · intro cancelled
      cases cancelled
  · rw [stop_of_not_running running]
    exact ha

/-- A token never used before is not revoked. -/
theorem renew {a : Alarm} (ha : a.Sound) : a.renew.Sound where
  token_lt := Nat.lt_succ_self a.unused
  revoked_lt := by
    intro token htoken
    exact Nat.lt_succ_of_lt (ha.revoked_lt token htoken)
  held := by
    intro _
    rw [isRevoked_eq_false_iff]
    intro revoked
    exact Nat.lt_irrefl _ (ha.revoked_lt a.unused revoked)

theorem start {a b : Alarm} (ha : a.Sound) (h : a.start = .ok b) : b.Sound := by
  obtain ⟨_, rfl⟩ := start_ok h
  by_cases revoked : a.isRevoked a.token = true
  · rw [if_pos revoked]
    have hrenew := ha.renew
    refine ⟨hrenew.token_lt, hrenew.revoked_lt, ?_⟩
    intro _
    rw [isRevoked_eq_false_iff]
    intro hmem
    exact Nat.lt_irrefl _ (ha.revoked_lt a.unused hmem)
  · rw [if_neg revoked]
    exact ⟨ha.token_lt, ha.revoked_lt, fun _ => Bool.eq_false_iff.mpr revoked⟩

theorem cancel {a b : Alarm} (ha : a.Sound) (h : a.cancel = .ok b) : b.Sound := by
  obtain ⟨_, rfl⟩ := cancel_ok h
  exact ha.stop

theorem replan {a b : Alarm} (ha : a.Sound) {plan : Plan} {now : Instant}
    (h : a.replan plan now = .ok b) : b.Sound := by
  obtain ⟨due, period, _, rfl⟩ := replan_ok h
  have hrenew := ha.stop.renew
  exact ⟨hrenew.token_lt, hrenew.revoked_lt, hrenew.held⟩

theorem conclude {a : Alarm} (ha : a.Sound) (generation : Nat) (e : Ending) :
    (a.conclude generation e).Sound := by
  simp only [Alarm.conclude]
  split
  · refine ⟨ha.token_lt, ha.revoked_lt, ?_⟩
    intro running
    dsimp only at running
    split at running <;> cases running
  · exact ha

theorem goes {i : Nat} {v v' : Vigil} {a a' : Alarm} {deeds : List Deed} (ha : a.Sound)
    (h : v.Goes i a v' a' deeds) : a'.Sound := by
  cases h with
  | waits timer pending => exact ha
  | quits pending revoked => exact ha.conclude _ _
  | begins timer turn since time pending held => exact ha
  | vanishes r running period result => exact ha
  | ends r running period judged => exact ha.conclude _ _
  | rearms r due next since running period result held own recurring inRange =>
      exact ⟨ha.token_lt, ha.revoked_lt, ha.held⟩

end Alarm.Sound

/-- What an alarm may become: one of the same entry and task, with no fewer tokens revoked. -/
structure Alarm.Becomes (a b : Alarm) : Prop where
  entry : b.entry = a.entry
  task : b.task = a.task
  revoked : ∀ token, a.isRevoked token = true → b.isRevoked token = true

namespace Alarm.Becomes

theorem refl (a : Alarm) : a.Becomes a where
  entry := rfl
  task := rfl
  revoked := fun _ revoked => revoked

theorem trans {a b x : Alarm} (hab : a.Becomes b) (hbx : b.Becomes x) : a.Becomes x where
  entry := hbx.entry.trans hab.entry
  task := hbx.task.trans hab.task
  revoked := fun token revoked => hbx.revoked token (hab.revoked token revoked)

theorem stop (a : Alarm) : a.Becomes a.stop := by
  obtain ⟨hentry, htask, _⟩ := a.stop_keeps
  exact ⟨hentry, htask, fun _ => revoked_stop⟩

theorem start {a b : Alarm} (h : a.start = .ok b) : a.Becomes b := by
  obtain ⟨hentry, htask, _⟩ := start_keeps h
  exact ⟨hentry, htask, revoked_start h⟩

theorem replan {a b : Alarm} {plan : Plan} {now : Instant} (h : a.replan plan now = .ok b) :
    a.Becomes b := by
  obtain ⟨hentry, htask⟩ := replan_keeps h
  obtain ⟨due, period, _, rfl⟩ := replan_ok h
  exact ⟨hentry, htask, fun _ => revoked_stop⟩

theorem goes {i : Nat} {v v' : Vigil} {a a' : Alarm} {deeds : List Deed}
    (h : v.Goes i a v' a' deeds) : a.Becomes a' := by
  obtain ⟨hentry, htask, _⟩ := h.keeps
  exact ⟨hentry, htask, fun token revoked => (h.isRevoked token).trans revoked⟩

end Alarm.Becomes

/-- A vigil was set out by a start of the alarm, and is live only if that start is the last and
the alarm runs. -/
structure Vigil.Fits (v : Vigil) (a : Alarm) : Prop where
  generation_le : v.generation ≤ a.generation
  token_lt : v.token < a.unused
  own : v.generation = a.generation → a.status = .running → v.token = a.token
  live : v.phase.isOpen = true → a.isRevoked v.token = false →
    a.status = .running ∧ v.generation = a.generation

namespace Vigil.Fits

variable {v : Vigil} {a : Alarm}

/-- A vigil that is no more open than another of the same start. -/
theorem phase (h : v.Fits a) {p : Phase} {since : Nat}
    (hopen : p.isOpen = true → v.phase.isOpen = true) :
    ({ v with phase := p, since } : Vigil).Fits a :=
  ⟨h.generation_le, h.token_lt, h.own, fun isOpen held => h.live (hopen isOpen) held⟩

/-- Stopping revokes the token of the one vigil that may be live. -/
theorem stop (h : v.Fits a) : v.Fits a.stop := by
  by_cases running : a.status = .running
  · rw [Alarm.stop_of_running running]
    refine ⟨h.generation_le, h.token_lt, ?_, ?_⟩
    · intro _ cancelled
      cases cancelled
    · intro isOpen held
      rw [Alarm.isRevoked_eq_false_iff, List.mem_cons, not_or] at held
      obtain ⟨hother, hheld⟩ := held
      obtain ⟨_, hgeneration⟩ := h.live isOpen (Alarm.isRevoked_eq_false_iff.mpr hheld)
      exact absurd (h.own hgeneration running) hother
  · rw [Alarm.stop_of_not_running running]
    exact h

/-- Stopping an alarm revokes the tokens of all its open vigils. -/
theorem revoked_stop (h : v.Fits a) (isOpen : v.phase.isOpen = true) :
    a.stop.isRevoked v.token = true := by
  by_cases revoked : a.isRevoked v.token = true
  · exact Alarm.revoked_stop revoked
  · obtain ⟨running, hgeneration⟩ := h.live isOpen (Bool.eq_false_iff.mpr revoked)
    rw [h.own hgeneration running, Alarm.stop_of_running running,
      Alarm.isRevoked_eq_true_iff]
    exact List.mem_cons_self

/-- What an open vigil looks at after a run is its token, whatever it seems to look at. -/
theorem revoked_of_stale (h : v.Fits a) (isOpen : v.phase.isOpen = true)
    (stale : a.isRevoked v.token = true ∨ a.generation ≠ v.generation) :
    a.isRevoked v.token = true := by
  rcases stale with revoked | hother
  · exact revoked
  · by_contra held
    exact hother (h.live isOpen (Bool.eq_false_iff.mpr held)).2.symm

/-- A stopped alarm has no live vigil, so that its token may go. -/
theorem renew (h : v.Fits a) (stopped : a.status ≠ .running) : v.Fits a.renew where
  generation_le := h.generation_le
  token_lt := Nat.lt_succ_of_lt h.token_lt
  own := fun _ running => absurd running stopped
  live := fun isOpen held => h.live isOpen held

theorem start (h : v.Fits a) {b : Alarm} (hstart : a.start = .ok b) : v.Fits b := by
  obtain ⟨idle, rfl⟩ := Alarm.start_ok hstart
  have hunused : v.token < (if a.isRevoked a.token then a.renew else a).unused := by
    split
    · exact Nat.lt_succ_of_lt h.token_lt
    · exact h.token_lt
  have hrevoked : (if a.isRevoked a.token then a.renew else a).revoked = a.revoked := by
    split <;> rfl
  refine ⟨Nat.le_succ_of_le h.generation_le, hunused, ?_, ?_⟩
  · intro hgeneration _
    have hle := h.generation_le
    dsimp only at hgeneration
    omega
  · intro isOpen held
    have hheld : v.token ∉ (if a.isRevoked a.token then a.renew else a).revoked :=
      Alarm.isRevoked_eq_false_iff.mp held
    rw [hrevoked] at hheld
    exact absurd (h.live isOpen (Alarm.isRevoked_eq_false_iff.mpr hheld)).1 idle

theorem cancel (h : v.Fits a) {b : Alarm} (hcancel : a.cancel = .ok b) : v.Fits b := by
  obtain ⟨_, rfl⟩ := Alarm.cancel_ok hcancel
  exact h.stop

theorem replan (h : v.Fits a) {b : Alarm} {plan : Plan} {now : Instant}
    (hreplan : a.replan plan now = .ok b) : v.Fits b := by
  obtain ⟨due, period, _, rfl⟩ := Alarm.replan_ok hreplan
  have stopped : a.stop.status ≠ .running := by
    intro running
    have hrunning := Alarm.isRunning_eq_true_iff.mpr running
    rw [Alarm.isRunning_stop] at hrunning
    cases hrunning
  have hrenew := h.stop.renew stopped
  exact ⟨hrenew.generation_le, hrenew.token_lt, hrenew.own, hrenew.live⟩

/-- The end of a vigil settles nothing for a vigil of another start. -/
theorem conclude (h : v.Fits a) {generation : Nat} (hother : v.generation ≠ generation)
    (e : Ending) : v.Fits (a.conclude generation e) := by
  simp only [Alarm.conclude]
  split
  · next settled =>
      refine ⟨h.generation_le, h.token_lt, ?_, ?_⟩
      · intro _ running
        dsimp only at running
        split at running <;> cases running
      · intro isOpen held
        have hgeneration := (h.live isOpen held).2
        exact absurd (hgeneration.trans settled.1) hother
  · exact h

/-- The end of a vigil leaves it closed. -/
theorem ended (h : v.Fits a) (e : Ending) :
    ({ v with phase := .ended e } : Vigil).Fits (a.conclude v.generation e) := by
  simp only [Alarm.conclude]
  split
  · refine ⟨h.generation_le, h.token_lt, ?_, ?_⟩
    · intro _ running
      dsimp only at running
      split at running <;> cases running
    · intro isOpen
      cases isOpen
  · exact h.phase fun isOpen => by cases isOpen

/-- A move keeps the tie between the alarm and the vigil that moves. -/
theorem goes (h : v.Fits a) {i : Nat} {v' : Vigil} {a' : Alarm} {deeds : List Deed}
    (hgoes : v.Goes i a v' a' deeds) : v'.Fits a' := by
  cases hgoes with
  | waits timer pending =>
      exact h.phase fun _ => Phase.isOpen_of_isPending pending
  | quits pending revoked => exact h.ended _
  | begins timer turn since time pending held =>
      exact h.phase fun _ => Phase.isOpen_of_isPending pending
  | vanishes r running period result =>
      exact h.phase fun isOpen => by cases isOpen
  | ends r running period judged => exact h.ended _
  | rearms r due next since running period result held own recurring inRange =>
      have hphase : ({ v with phase := .waiting next, since } : Vigil).Fits a :=
        h.phase fun _ => by rw [running]; rfl
      exact ⟨hphase.generation_le, hphase.token_lt, hphase.own, hphase.live⟩

/-- A move keeps the tie between the alarm and every vigil of another start. -/
theorem bystander (h : v.Fits a) {i : Nat} {w w' : Vigil} {a' : Alarm} {deeds : List Deed}
    (hgoes : w.Goes i a w' a' deeds) (hother : v.generation ≠ w.generation) : v.Fits a' := by
  cases hgoes with
  | waits timer pending => exact h
  | quits pending revoked => exact h.conclude hother _
  | begins timer turn since time pending held => exact h
  | vanishes r running period result => exact h
  | ends r running period judged => exact h.conclude hother _
  | rearms r due next since running period result held own recurring inRange =>
      exact ⟨h.generation_le, h.token_lt, h.own, h.live⟩

/-- The vigil that a start sets out. -/
theorem setOut {b : Alarm} (hrunning : b.status = .running) (hb : b.Sound) (n since : Nat) :
    ({ alarm := n, token := b.token, generation := b.generation, since } : Vigil).Fits b where
  generation_le := Nat.le_refl _
  token_lt := hb.token_lt
  own := fun _ _ => rfl
  live := fun _ _ => ⟨hrunning, rfl⟩

end Vigil.Fits

/-- Sound alarms, vigils that fit them, and no start that set out two vigils. -/
structure Core.Sound (c : Core) : Prop where
  alarms : ∀ {n : Nat} {a : Alarm}, c.alarms[n]? = some a → a.Sound
  vigils : ∀ {i : Nat} {v : Vigil}, c.vigils[i]? = some v →
    ∃ a, c.alarms[v.alarm]? = some a ∧ v.Fits a
  distinct : ∀ {i j : Nat} {v w : Vigil}, c.vigils[i]? = some v → c.vigils[j]? = some w →
    v.alarm = w.alarm → v.generation = w.generation → i = j

namespace Core.Sound

variable {c : Core}

/-- The alarm that a vigil fits is the one at its number. -/
theorem fits (h : c.Sound) {i : Nat} {v : Vigil} {a : Alarm} (hv : c.vigils[i]? = some v)
    (ha : c.alarms[v.alarm]? = some a) : v.Fits a := by
  obtain ⟨b, hb, hfits⟩ := h.vigils hv
  rw [ha] at hb
  cases hb
  exact hfits

/-- An alarm may change as long as it and its vigils still fit. -/
theorem setAlarm (h : c.Sound) {n : Nat} {a b : Alarm} (ha : c.alarms[n]? = some a)
    (hb : b.Sound) (hfits : ∀ v : Vigil, v.Fits a → v.Fits b) (annals : List Deed) :
    (⟨c.alarms.set n b, c.vigils, annals⟩ : Core).Sound where
  alarms := by
    intro m x hx
    dsimp only at hx
    rw [Places.getElem?_set ha] at hx
    split at hx
    · cases hx
      exact hb
    · exact h.alarms hx
  vigils := by
    intro i v hv
    obtain ⟨x, hx, hfit⟩ := h.vigils hv
    dsimp only
    rw [Places.getElem?_set ha]
    split
    · next hn =>
        subst hn
        rw [ha] at hx
        cases hx
        exact ⟨b, rfl, hfits v hfit⟩
    · exact ⟨x, hx, hfit⟩
  distinct := h.distinct

theorem setUp (h : c.Sound) (e : Entry) (annals : List Deed) :
    (⟨c.alarms ++ [Alarm.ofEntry e], c.vigils, annals⟩ : Core).Sound where
  alarms := by
    intro n a ha
    rcases Places.getElem?_grown ha with hold | ⟨_, rfl⟩
    · exact h.alarms hold
    · exact Alarm.Sound.ofEntry e
  vigils := by
    intro i v hv
    obtain ⟨a, ha, hfits⟩ := h.vigils hv
    exact ⟨a, Places.getElem?_append ha _, hfits⟩
  distinct := h.distinct

/-- A start brings its own vigil, of a generation that no vigil has had. -/
theorem start (h : c.Sound) {n : Nat} {a b : Alarm} (ha : c.alarms[n]? = some a)
    (hstart : a.start = .ok b) (since : Nat) (annals : List Deed) :
    (⟨c.alarms.set n b,
      c.vigils ++ [{ alarm := n, token := b.token, generation := b.generation, since }],
      annals⟩ : Core).Sound := by
  have hb : b.Sound := (h.alarms ha).start hstart
  have hset : (⟨c.alarms.set n b, c.vigils, annals⟩ : Core).Sound :=
    h.setAlarm ha hb (fun _ hfits => hfits.start hstart) annals
  obtain ⟨_, hb'⟩ := Alarm.start_ok hstart
  have hgeneration : b.generation = a.generation + 1 := by rw [hb']
  have hrunning : b.status = .running := by rw [hb']
  have hfresh : ∀ {i : Nat} {v : Vigil}, c.vigils[i]? = some v → v.alarm = n →
      v.generation < b.generation := by
    intro i v hv hn
    subst hn
    have hle := (h.fits hv ha).generation_le
    omega
  refine ⟨hset.alarms, ?_, ?_⟩
  · intro i v hv
    rcases Places.getElem?_grown hv with hold | ⟨_, rfl⟩
    · exact hset.vigils hold
    · refine ⟨b, ?_, .setOut hrunning hb n since⟩
      dsimp only
      rw [Places.getElem?_set_self ha]
  · intro i j v w hv hw halarm hsame
    rcases Places.getElem?_grown hv with hv | ⟨hi, rfl⟩
    · rcases Places.getElem?_grown hw with hw | ⟨_, rfl⟩
      · exact h.distinct hv hw halarm hsame
      · exact absurd hsame (Nat.ne_of_lt (hfresh hv halarm))
    · rcases Places.getElem?_grown hw with hw | ⟨hj, rfl⟩
      · exact absurd hsame.symm (Nat.ne_of_lt (hfresh hw halarm.symm))
      · rw [hi, hj]

theorem move (h : c.Sound) {d : Core} {i : Nat} (hmove : Core.Move i c d) : d.Sound := by
  obtain ⟨hv, ha, goes⟩ := hmove
  rename_i v v' a a' deeds
  obtain ⟨halarm, _, hgeneration⟩ := goes.same
  have hfits : v.Fits a := h.fits hv ha
  refine ⟨?_, ?_, ?_⟩
  · intro n b hb
    dsimp only at hb
    rw [Places.getElem?_set ha] at hb
    split at hb
    · cases hb
      exact (h.alarms ha).goes goes
    · exact h.alarms hb
  · intro j w hw
    dsimp only at hw ⊢
    rw [Places.getElem?_set hv] at hw
    split at hw
    · cases hw
      refine ⟨a', ?_, hfits.goes goes⟩
      rw [halarm, Places.getElem?_set_self ha]
    · next hij =>
        obtain ⟨b, hb, hfit⟩ := h.vigils hw
        rw [Places.getElem?_set ha]
        split
        · next hn =>
            rw [← hn, ha] at hb
            cases hb
            refine ⟨a', rfl, hfit.bystander goes ?_⟩
            intro hgeneration
            exact hij (h.distinct hv hw hn hgeneration.symm)
        · exact ⟨b, hb, hfit⟩
  · -- a move changes neither the alarm nor the start of the vigil that moves
    have hold : ∀ {j : Nat} {w : Vigil}, (c.vigils.set i v')[j]? = some w →
        ∃ w₀, c.vigils[j]? = some w₀ ∧ w.alarm = w₀.alarm ∧ w.generation = w₀.generation := by
      intro j w hw
      rw [Places.getElem?_set hv] at hw
      split at hw
      · next hij =>
          cases hw
          exact ⟨v, hij ▸ hv, halarm, hgeneration⟩
      · exact ⟨w, hw, rfl, rfl⟩
    intro j k w x hw hx hone hsame
    obtain ⟨w₀, hw₀, hwa, hwg⟩ := hold hw
    obtain ⟨x₀, hx₀, hxa, hxg⟩ := hold hx
    rw [hwa, hxa] at hone
    rw [hwg, hxg] at hsame
    exact h.distinct hw₀ hx₀ hone hsame

theorem step (h : c.Sound) {d : Core} {may : Core.Impulse → Prop} (hstep : Core.Step may c d) :
    d.Sound := by
  cases hstep with
  | setUp e => exact h.setUp e _
  | start since allowed alarm started => exact h.start alarm started since _
  | cancel alarm cancelled =>
      exact h.setAlarm alarm ((h.alarms alarm).cancel cancelled)
        (fun _ hfits => hfits.cancel cancelled) _
  | replan alarm replanned =>
      exact h.setAlarm alarm ((h.alarms alarm).replan replanned)
        (fun _ hfits => hfits.replan replanned) _
  | move i _ moved => exact h.move moved

theorem steps (h : c.Sound) {d : Core} {may : Core.Impulse → Prop} (hsteps : Core.Steps may c d) :
    d.Sound := by
  induction hsteps with
  | refl => exact h
  | tail _ hstep ih => exact ih.step hstep

end Core.Sound

theorem Timetable.sound_opening (start : Instant) (source : IdSource)
    (replies : List RestartReply) : (opening start source replies).core.Sound where
  alarms := by
    intro n a ha
    cases ha
  vigils := by
    intro i v hv
    cases hv
  distinct := by
    intro i j v w hv
    cases hv

/-- Whatever the history, alarms and vigils fit together. -/
theorem Timetable.sound_run (start : Instant) (source : IdSource) (replies : List RestartReply)
    (acts : List Act) : ((opening start source replies).run acts).core.Sound :=
  (sound_opening start source replies).steps (steps_run _ acts)

/-- Holds of the vigils that are not over and whose token is not revoked. -/
def Core.IsLive (c : Core) (v : Vigil) : Prop :=
  v.phase.isOpen = true ∧ ∃ a, c.alarms[v.alarm]? = some a ∧ a.isRevoked v.token = false

/-- Vigil `i` exists and is not live. -/
def Core.IsStale (c : Core) (i : Nat) : Prop :=
  ∃ v, c.vigils[i]? = some v ∧ ¬ c.IsLive v

namespace Core

variable {c d : Core} {i : Nat} {v : Vigil}

/-- A live vigil is the last that its running alarm has set out, and holds its token. -/
theorem Sound.alarm_of_live (h : c.Sound) (hv : c.vigils[i]? = some v) (live : c.IsLive v) :
    ∃ a, c.alarms[v.alarm]? = some a ∧ v.generation = a.generation ∧ v.token = a.token ∧
      a.status = .running := by
  obtain ⟨isOpen, a, ha, held⟩ := live
  have hfits := h.fits hv ha
  obtain ⟨running, hgeneration⟩ := hfits.live isOpen held
  exact ⟨a, ha, hgeneration, hfits.own hgeneration running, running⟩

theorem Sound.eq_of_live (h : c.Sound) {j : Nat} {w : Vigil} (hv : c.vigils[i]? = some v)
    (hw : c.vigils[j]? = some w) (hone : v.alarm = w.alarm) (hlive : c.IsLive v)
    (hlive' : c.IsLive w) : i = j := by
  obtain ⟨a, ha, hgeneration, _⟩ := h.alarm_of_live hv hlive
  obtain ⟨b, hb, hgeneration', _⟩ := h.alarm_of_live hw hlive'
  rw [← hone, ha] at hb
  cases hb
  exact h.distinct hv hw hone (hgeneration.trans hgeneration'.symm)

/-- Open vigils that are not live have a revoked token. -/
theorem revoked_of_not_live {a : Alarm} (ha : c.alarms[v.alarm]? = some a)
    (stale : ¬ c.IsLive v) (isOpen : v.phase.isOpen = true) : a.isRevoked v.token = true := by
  by_contra held
  exact stale ⟨isOpen, a, ha, Bool.eq_false_iff.mpr held⟩

/-- A vigil whose token is revoked is stale. -/
theorem isStale_of_revoked {a : Alarm} (hv : c.vigils[i]? = some v)
    (ha : c.alarms[v.alarm]? = some a) (revoked : a.isRevoked v.token = true) : c.IsStale i := by
  refine ⟨v, hv, ?_⟩
  rintro ⟨_, b, hb, held⟩
  rw [ha] at hb
  cases hb
  rw [held] at revoked
  cases revoked

/-- Nothing takes an alarm away. -/
theorem Step.alarm {may : Core.Impulse → Prop} (hstep : Step may c d) {n : Nat} {a : Alarm}
    (ha : c.alarms[n]? = some a) : ∃ b, d.alarms[n]? = some b ∧ a.Becomes b := by
  cases hstep with
  | setUp e => exact ⟨a, Places.getElem?_append ha _, .refl a⟩
  | start since allowed alarm started =>
      exact Places.exists_set Alarm.Becomes.refl alarm (.start started) ha
  | cancel alarm cancelled =>
      obtain ⟨_, rfl⟩ := Alarm.cancel_ok cancelled
      exact Places.exists_set Alarm.Becomes.refl alarm (.stop _) ha
  | replan alarm replanned =>
      exact Places.exists_set Alarm.Becomes.refl alarm (.replan replanned) ha
  | move i _ moved =>
      obtain ⟨hv, hx, goes⟩ := moved
      exact Places.exists_set Alarm.Becomes.refl hx (.goes goes) ha

theorem Steps.alarm {may : Core.Impulse → Prop} (hsteps : Steps may c d) {n : Nat} {a : Alarm}
    (ha : c.alarms[n]? = some a) : ∃ b, d.alarms[n]? = some b ∧ a.Becomes b := by
  induction hsteps with
  | refl => exact ⟨a, ha, .refl a⟩
  | tail _ hstep ih =>
      obtain ⟨b, hb, hbecomes⟩ := ih
      obtain ⟨x, hx, hbecomes'⟩ := hstep.alarm hb
      exact ⟨x, hx, hbecomes.trans hbecomes'⟩

/-- Nothing but its own moves touches a vigil. -/
theorem Step.vigil {may : Core.Impulse → Prop} (hstep : Step may c d) (hv : c.vigils[i]? = some v) :
    d.vigils[i]? = some v ∨ Move i c d := by
  cases hstep with
  | setUp e => exact Or.inl hv
  | start since allowed alarm started => exact Or.inl (Places.getElem?_append hv _)
  | cancel alarm cancelled => exact Or.inl hv
  | replan alarm replanned => exact Or.inl hv
  | move j _ moved =>
      by_cases hij : j = i
      · subst hij
        exact Or.inr moved
      · left
        obtain ⟨hw, _, _⟩ := moved
        dsimp only
        rw [Places.getElem?_set hw, if_neg hij]
        exact hv

/-- Nothing takes a vigil away, and it keeps its start. -/
theorem Steps.vigil {may : Core.Impulse → Prop} (hsteps : Steps may c d)
    (hv : c.vigils[i]? = some v) :
    ∃ w, d.vigils[i]? = some w ∧ w.alarm = v.alarm ∧ w.token = v.token ∧
      w.generation = v.generation := by
  induction hsteps with
  | refl => exact ⟨v, hv, rfl, rfl, rfl⟩
  | tail _ hstep ih =>
      obtain ⟨w, hw, halarm, htoken, hgeneration⟩ := ih
      rcases hstep.vigil hw with hsame | hmove
      · exact ⟨w, hsame, halarm, htoken, hgeneration⟩
      · obtain ⟨hx, ha, goes⟩ := hmove
        rename_i x x' a a' deeds
        rw [hw] at hx
        cases hx
        obtain ⟨halarm', htoken', hgeneration'⟩ := goes.same
        refine ⟨x', ?_, halarm'.trans halarm, htoken'.trans htoken,
          hgeneration'.trans hgeneration⟩
        dsimp only
        rw [Places.getElem?_set_self hw]

/-- Without a move of its own a vigil stays as it is, and one that is new is only set out. -/
theorem Steps.unmoved {may : Core.Impulse → Prop} (hsteps : Steps may c d)
    (hmay : ¬may (.move i)) : d.vigils[i]? = c.vigils[i]? ∨
      c.vigils[i]? = none ∧ ∀ v, d.vigils[i]? = some v → v.phase = .setOut := by
  induction hsteps with
  | refl => exact Or.inl rfl
  | @tail b _ _ hstep ih =>
      cases hstep with
      | setUp e => exact ih
      | start since allowed alarm started =>
          rcases ih with hsame | ⟨habsent, hnew⟩
          · cases hb : b.vigils[i]? with
            | some w => exact Or.inl ((Places.getElem?_append hb _).trans (hb.symm.trans hsame))
            | none =>
                refine Or.inr ⟨hsame.symm.trans hb, fun v hv => ?_⟩
                rcases Places.getElem?_grown hv with hold | ⟨_, rfl⟩
                · rw [hb] at hold
                  cases hold
                · rfl
          · refine Or.inr ⟨habsent, fun v hv => ?_⟩
            rcases Places.getElem?_grown hv with hold | ⟨_, rfl⟩
            · exact hnew v hold
            · rfl
      | cancel alarm cancelled => exact ih
      | replan alarm replanned => exact ih
      | move j allowed moved =>
          have hij : j ≠ i := by
            rintro rfl
            exact hmay allowed
          obtain ⟨hw, _, _⟩ := moved
          dsimp only
          rw [Places.getElem?_set hw, if_neg hij]
          exact ih

/-- Vigils that are over stay so, and tokens stay revoked. -/
theorem Sound.isStale_step (h : c.Sound) {may : Core.Impulse → Prop} (hstep : Step may c d)
    (hstale : c.IsStale i) : d.IsStale i := by
  obtain ⟨v, hv, stale⟩ := hstale
  obtain ⟨a, ha, _⟩ := h.vigils hv
  obtain ⟨b, hb, _, _, hrevoked⟩ := hstep.alarm ha
  rcases hstep.vigil hv with hsame | hmove
  · refine ⟨v, hsame, ?_⟩
    rintro ⟨isOpen, x, hx, held⟩
    rw [hb] at hx
    cases hx
    have revoked := hrevoked _ (revoked_of_not_live ha stale isOpen)
    rw [held] at revoked
    cases revoked
  · obtain ⟨hw, hx, goes⟩ := hmove
    rename_i w w' x x' deeds
    rw [hv] at hw
    cases hw
    rw [ha] at hx
    cases hx
    obtain ⟨halarm, htoken, _⟩ := goes.same
    have revoked : x'.isRevoked v.token = true :=
      (goes.isRevoked v.token).trans (revoked_of_not_live ha stale goes.isOpen)
    refine ⟨w', by dsimp only; rw [Places.getElem?_set_self hv], ?_⟩
    rintro ⟨_, y, hy, held⟩
    dsimp only at hy
    rw [halarm, Places.getElem?_set_self ha] at hy
    cases hy
    rw [htoken, revoked] at held
    cases held

/-- A stale vigil begins no run. -/
theorem Step.beginnings_of_isStale {may : Core.Impulse → Prop} (hstep : Step may c d)
    (hstale : c.IsStale i) : beginnings i d.annals = beginnings i c.annals := by
  cases hstep with
  | setUp e => rfl
  | start since allowed alarm started => rfl
  | cancel alarm cancelled => rfl
  | replan alarm replanned => rfl
  | move j _ moved =>
      obtain ⟨hw, ha, goes⟩ := moved
      cases goes with
      | waits timer pending => rfl
      | quits pending revoked => rfl
      | begins timer turn since time pending held =>
          have hij : j ≠ i := by
            rintro rfl
            obtain ⟨v, hv, stale⟩ := hstale
            rw [hv] at hw
            cases hw
            exact stale ⟨Phase.isOpen_of_isPending pending, _, ha, held⟩
          simp [beginnings, hij]
      | vanishes r running period result => rfl
      | ends r running period judged => rfl
      | rearms r due next since running period result held own recurring inRange => rfl

theorem Sound.stale_steps (h : c.Sound) {may : Core.Impulse → Prop} (hsteps : Steps may c d)
    (hstale : c.IsStale i) :
    d.IsStale i ∧ beginnings i d.annals = beginnings i c.annals := by
  induction hsteps with
  | refl => exact ⟨hstale, rfl⟩
  | tail hsteps hstep ih =>
      obtain ⟨hstale', hbeginnings⟩ := ih
      have hsound := h.steps hsteps
      exact ⟨hsound.isStale_step hstep hstale',
        (hstep.beginnings_of_isStale hstale').trans hbeginnings⟩

/-- The end of a vigil that was stopped settles nothing, even for an alarm started anew. -/
theorem Sound.conclude_of_revoked (h : c.Sound) {a : Alarm} (hv : c.vigils[i]? = some v)
    (ha : c.alarms[v.alarm]? = some a) (revoked : a.isRevoked v.token = true) (e : Ending) :
    a.conclude v.generation e = a := by
  simp only [Alarm.conclude]
  rw [if_neg]
  rintro ⟨hgeneration, running⟩
  have hown := (h.fits hv ha).own hgeneration.symm running
  have hheld := (h.alarms ha).held running
  rw [← hown, revoked] at hheld
  cases hheld

theorem Sound.alarms_move (h : c.Sound) (hmove : Move i c d) (hstale : c.IsStale i) :
    d.alarms = c.alarms := by
  obtain ⟨hv, ha, goes⟩ := hmove
  rename_i v v' a a' deeds
  obtain ⟨w, hw, stale⟩ := hstale
  rw [hv] at hw
  cases hw
  have revoked := revoked_of_not_live ha stale goes.isOpen
  have hsame : a' = a := by
    cases goes with
    | waits timer pending => rfl
    | quits pending _ => exact h.conclude_of_revoked hv ha revoked _
    | begins timer turn since time pending held => rfl
    | vanishes r running period result => rfl
    | ends r running period judged => exact h.conclude_of_revoked hv ha revoked _
    | rearms r due next since running period result held own recurring inRange =>
        rw [revoked] at held
        cases held
  rw [hsame]
  exact Places.set_self ha

/-- A stale vigil moves no alarm. -/
theorem Sound.alarms_moves (h : c.Sound) (hmoves : Moves i c d) (hstale : c.IsStale i) :
    d.alarms = c.alarms := by
  induction hmoves with
  | refl => rfl
  | tail hmoves hmove ih =>
      have hsteps : Steps (fun _ => True) c _ := Moves.steps hmoves trivial
      have hstale' := (h.stale_steps hsteps hstale).1
      exact ((h.steps hsteps).alarms_move hmove hstale').trans ih

end Core

namespace Timetable

/-- Polling a stale vigil calls no task. -/
theorem runs_poll_of_isStale {t : Timetable} {i : Nat} (hstale : t.core.IsStale i) :
    (t.poll i).runs = t.runs ∧ (t.poll i).replies = t.replies := by
  obtain ⟨v, hv, stale⟩ := hstale
  have hv : t.vigils[i]? = some v := hv
  simp only [poll]
  rw [hv]
  dsimp only
  split
  · exact ⟨rfl, rfl⟩
  · next a ha =>
      have revoked : v.phase.isOpen = true → a.isRevoked v.token = true :=
        Core.revoked_of_not_live (c := t.core) ha stale
      have hwait : v.phase.isOpen = true → ∀ timer,
          t.fireOrWait i v a timer = t.finish i v a .cancelled := by
        intro isOpen timer
        simp only [fireOrWait]
        rw [if_pos (revoked isOpen)]
      split
      · next hphase =>
          rw [hwait (by rw [hphase]; rfl)]
          exact ⟨rfl, rfl⟩
      · next timer hphase =>
          rw [hwait (by rw [hphase]; rfl)]
          exact ⟨rfl, rfl⟩
      · next timer turn hphase =>
          split
          · simp only [endRun]
            split
            · exact ⟨rfl, rfl⟩
            · exact ⟨rfl, rfl⟩
            · simp only [rearm]
              rw [if_pos (by rw [revoked (by rw [hphase]; rfl)]; rfl)]
              exact ⟨rfl, rfl⟩
          · exact ⟨rfl, rfl⟩
      · exact ⟨rfl, rfl⟩
      · exact ⟨rfl, rfl⟩

/-- In every state of every history an alarm has at most one live vigil. That one holds the
token of its alarm and stems from its last start, and the alarm runs. A running alarm holds a
token that is not revoked. A vigil that is not live stays inert for good: it begins no run,
calls no task and leaves every alarm as it is, whatever happens later. -/
theorem live_vigil_unique (start : Instant) (source : IdSource) (replies : List RestartReply)
    (acts : List Act) :
    let t := (opening start source replies).run acts
    (∀ (i j : Nat) (v w : Vigil), t.vigils[i]? = some v → t.vigils[j]? = some w →
      v.alarm = w.alarm → t.core.IsLive v → t.core.IsLive w → i = j) ∧
    (∀ (i : Nat) (v : Vigil), t.vigils[i]? = some v → t.core.IsLive v →
      ∃ a, t.alarms[v.alarm]? = some a ∧ v.generation = a.generation ∧ v.token = a.token ∧
        a.status = .running) ∧
    (∀ (n : Nat) (a : Alarm), t.alarms[n]? = some a → a.status = .running →
      a.isRevoked a.token = false) ∧
    (∀ (i : Nat) (v : Vigil) (later : List Act), t.vigils[i]? = some v → ¬ t.core.IsLive v →
      let u := t.run later
      beginnings i u.annals = beginnings i t.annals ∧
        (u.poll i).alarms = u.alarms ∧ (u.poll i).runs = u.runs ∧
        (u.poll i).replies = u.replies) := by
  intro t
  have hsound : t.core.Sound := sound_run start source replies acts
  refine ⟨?_, ?_, ?_, ?_⟩
  · intro i j v w hv hw hone hlive hlive'
    exact hsound.eq_of_live hv hw hone hlive hlive'
  · intro i v hv live
    exact hsound.alarm_of_live hv live
  · intro n a ha running
    exact (hsound.alarms ha).held running
  · intro i v later hv stale u
    have hsteps : Core.Steps (fun _ => True) t.core u.core := steps_run t later
    obtain ⟨hstale, hbeginnings⟩ := hsound.stale_steps hsteps ⟨v, hv, stale⟩
    have halarms := (hsound.steps hsteps).alarms_moves (moves_poll u i) hstale
    obtain ⟨hruns, hreplies⟩ := runs_poll_of_isStale hstale
    exact ⟨hbeginnings, halarms, hruns, hreplies⟩

end Timetable

end Almanac
