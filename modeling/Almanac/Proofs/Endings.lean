import Almanac.Proofs.LiveVigil

/-!
# How vigils end

What the annals tell of the tenure of a vigil decides how it ends: well, badly or cancelled. The
vigil itself looks at its token and at the period of its alarm, and only on some of its ways out.
That the two always agree is kept by every step as `Vigil.Told`.
-/

namespace Almanac

/-- The one run of a tenure succeeded, without a period, and nothing had touched the alarm
before it came back. -/
def EndsWell (n i : Nat) (deeds : List Deed) : Prop :=
  ∃ r before, lastReturn? i deeds = some (r, before) ∧ r.result = .succeeded ∧
    r.period.isZero = true ∧ (beginnings i deeds).length = 1 ∧
    ∀ d ∈ before, d.revises n = false

/-- The last run of a tenure failed, or it succeeded with a period, nothing had touched the alarm
before it came back, and the next time is out of range. -/
def EndsBadly (n i : Nat) (deeds : List Deed) (e : TaskError) : Prop :=
  ∃ r before, lastReturn? i deeds = some (r, before) ∧
    (r.result = .failed e ∨
      r.result = .succeeded ∧ (∀ d ∈ before, d.revises n = false) ∧ r.period.isZero = false ∧
        r.time.add? r.period = none ∧ e = outOfRange)

section

variable {n i : Nat} {deeds before : List Deed} {r : Return}

theorem endsWell_iff (hlast : lastReturn? i deeds = some (r, before)) :
    EndsWell n i deeds ↔ r.result = .succeeded ∧ r.period.isZero = true ∧
      (beginnings i deeds).length = 1 ∧ ∀ d ∈ before, d.revises n = false := by
  constructor
  · rintro ⟨s, earlier, hsome, hwell⟩
    rw [hlast] at hsome
    cases hsome
    exact hwell
  · intro hwell
    exact ⟨r, before, hlast, hwell⟩

theorem endsBadly_iff (hlast : lastReturn? i deeds = some (r, before)) (e : TaskError) :
    EndsBadly n i deeds e ↔ r.result = .failed e ∨ r.result = .succeeded ∧
      (∀ d ∈ before, d.revises n = false) ∧ r.period.isZero = false ∧
      r.time.add? r.period = none ∧ e = outOfRange := by
  constructor
  · rintro ⟨s, earlier, hsome, hbadly⟩
    rw [hlast] at hsome
    cases hsome
    exact hbadly
  · intro hbadly
    exact ⟨r, before, hlast, hbadly⟩

end

/-- The annals and the state of an open vigil agree: whether it was stopped, that it has come
back from all its runs but perhaps the last, and that none of them was to be the last. -/
structure Vigil.Told (i : Nat) (v : Vigil) (a : Alarm) (annals : List Deed) : Prop where
  started : .started v.alarm i ∈ annals
  taken : ∀ d ∈ tenure v.alarm i annals, d.takesOver v.alarm = true →
    a.isRevoked v.token = true
  stopped : a.isRevoked v.token = true →
    ∃ d ∈ tenure v.alarm i annals, d.stops v.alarm = true
  rested : v.phase.isPending = true →
    ∀ r before, lastReturn? i (tenure v.alarm i annals) = some (r, before) →
      r.result = .succeeded ∧ r.period.isZero = false ∧ ∃ due, r.time.add? r.period = some due
  recurring : v.phase.isPending = true → a.isRevoked v.token = false →
    beginnings i (tenure v.alarm i annals) ≠ [] → a.period.isZero = false
  began : v.phase.isPending = false → beginnings i (tenure v.alarm i annals) ≠ []
  again : v.phase.isPending = false → a.isRevoked v.token = false →
    1 < (beginnings i (tenure v.alarm i annals)).length → a.period.isZero = false

namespace Vigil.Told

variable {i : Nat} {v : Vigil} {a : Alarm} {annals : List Deed}

/-- A deed that is not of the vigil, and what it does to the alarm. -/
theorem note (h : v.Told i a annals) {d : Deed} {b : Alarm} (hstart : d ≠ .started v.alarm i)
    (hother : d.vigil? ≠ some i)
    (hrevoked : a.isRevoked v.token = true → b.isRevoked v.token = true)
    (hperiod : b.isRevoked v.token = false → b.period = a.period)
    (htaken : d.takesOver v.alarm = true → b.isRevoked v.token = true)
    (hstopped : b.isRevoked v.token = true →
      a.isRevoked v.token = true ∨ d.stops v.alarm = true) :
    v.Told i b (d :: annals) := by
  have hheld : b.isRevoked v.token = false → a.isRevoked v.token = false := by
    intro held
    by_contra revoked
    have := hrevoked (by simpa using revoked)
    rw [held] at this
    cases this
  refine ⟨List.mem_cons_of_mem _ h.started, ?_, ?_, ?_, ?_, ?_, ?_⟩
  · intro e he takes
    rw [tenure_cons hstart] at he
    rcases List.mem_cons.mp he with rfl | he
    · exact htaken takes
    · exact hrevoked (h.taken e he takes)
  · intro revoked
    rw [tenure_cons hstart]
    rcases hstopped revoked with hold | hnew
    · obtain ⟨e, he, stops⟩ := h.stopped hold
      exact ⟨e, List.mem_cons_of_mem _ he, stops⟩
    · exact ⟨d, List.mem_cons_self, hnew⟩
  · rw [tenure_cons hstart, lastReturn?_cons hother]
    exact h.rested
  · intro pending held hbegun
    rw [tenure_cons hstart, beginnings_cons hother] at hbegun
    rw [hperiod held]
    exact h.recurring pending (hheld held) hbegun
  · rw [tenure_cons hstart, beginnings_cons hother]
    exact h.began
  · intro running held hmore
    rw [tenure_cons hstart, beginnings_cons hother] at hmore
    rw [hperiod held]
    exact h.again running (hheld held) hmore

/-- Nothing but the tokens revoked and the period counts. -/
theorem congr (h : v.Told i a annals) {b : Alarm} (hrevoked : b.revoked = a.revoked)
    (hperiod : b.period = a.period) : v.Told i b annals := by
  have hsame : ∀ token, b.isRevoked token = a.isRevoked token := by
    intro token
    simp only [Alarm.isRevoked]
    rw [hrevoked]
  refine ⟨h.started, ?_, ?_, h.rested, ?_, h.began, ?_⟩
  · rw [hsame]
    exact h.taken
  · rw [hsame]
    exact h.stopped
  · rw [hsame, hperiod]
    exact h.recurring
  · rw [hsame, hperiod]
    exact h.again

/-- Deeds of other vigils. -/
theorem pass (h : v.Told i a annals) {deeds : List Deed}
    (hother : ∀ d ∈ deeds, d.vigil? ≠ some i ∧ d.takesOver v.alarm = false) :
    v.Told i a (deeds ++ annals) := by
  induction deeds with
  | nil => exact h
  | cons d deeds ih =>
      obtain ⟨hvigil, htakes⟩ := hother d List.mem_cons_self
      have hrest := ih fun e he => hother e (List.mem_cons_of_mem _ he)
      refine hrest.note (Deed.ne_started_of_takesOver htakes) hvigil id (fun _ => rfl) ?_ Or.inl
      intro takes
      rw [htakes] at takes
      cases takes

theorem start (h : v.Told i a annals) (hfits : v.Fits a) (isOpen : v.phase.isOpen = true)
    {b : Alarm} (hstart : a.start = .ok b) {j : Nat} (hj : j ≠ i) :
    v.Told i b (.started v.alarm j :: annals) := by
  obtain ⟨idle, _⟩ := Alarm.start_ok hstart
  have revoked : a.isRevoked v.token = true := by
    by_contra held
    exact idle (hfits.live isOpen (Bool.eq_false_iff.mpr held)).1
  have revoked' : b.isRevoked v.token = true := Alarm.revoked_start hstart _ revoked
  refine h.note ?_ (by simp [Deed.vigil?]) (fun _ => revoked') ?_ (fun _ => revoked')
    (fun _ => Or.inl revoked)
  · simpa using hj
  · intro held
    rw [revoked'] at held
    cases held

theorem cancel (h : v.Told i a annals) (hfits : v.Fits a) (isOpen : v.phase.isOpen = true)
    {b : Alarm} (hcancel : a.cancel = .ok b) : v.Told i b (.cancelled v.alarm :: annals) := by
  obtain ⟨_, rfl⟩ := Alarm.cancel_ok hcancel
  have revoked : a.stop.isRevoked v.token = true := hfits.revoked_stop isOpen
  refine h.note (by simp) (by simp [Deed.vigil?]) (fun _ => revoked) ?_ (fun _ => revoked)
    (fun _ => Or.inr (by simp [Deed.stops]))
  intro held
  rw [revoked] at held
  cases held

theorem replan (h : v.Told i a annals) (hfits : v.Fits a) (isOpen : v.phase.isOpen = true)
    {b : Alarm} {plan : Plan} {now : Instant} (hreplan : a.replan plan now = .ok b) :
    v.Told i b (.planned v.alarm a.isRunning b.due b.period :: annals) := by
  obtain ⟨due, period, _, rfl⟩ := Alarm.replan_ok hreplan
  have revoked : a.stop.isRevoked v.token = true := hfits.revoked_stop isOpen
  refine h.note (by simp) (by simp [Deed.vigil?]) (fun _ => revoked) ?_ (fun _ => revoked) ?_
  · intro held
    exact absurd (revoked.symm.trans held) (by simp)
  · intro _
    by_cases running : a.isRunning = true
    · exact Or.inr (by simp [Deed.stops, running])
    · left
      have idle : a.status ≠ .running := fun h => running (Alarm.isRunning_eq_true_iff.mpr h)
      rwa [Alarm.stop_of_not_running idle] at revoked

/-- Another vigil moves. -/
theorem bystander (h : v.Told i a annals) {j : Nat} {w w' : Vigil} {x x' : Alarm}
    {deeds : List Deed} (goes : w.Goes j x w' x' deeds) (hj : j ≠ i) :
    v.Told i a (deeds ++ annals) := by
  refine h.pass ?_
  intro d hd
  obtain ⟨hvigil, htakes⟩ := goes.deeds d hd
  refine ⟨?_, htakes v.alarm⟩
  rcases hvigil with hnone | hsome
  · rw [hnone]
    simp
  · rw [hsome]
    simpa using hj

theorem taken_goes (h : v.Told i a annals) {v' : Vigil} {a' : Alarm} {deeds : List Deed}
    (hgoes : v.Goes i a v' a' deeds) :
    ∀ d ∈ tenure v.alarm i (deeds ++ annals), d.takesOver v.alarm = true →
      a'.isRevoked v.token = true := by
  intro d hd takes
  rw [hgoes.tenure_eq] at hd
  rcases List.mem_append.mp hd with hnew | hold
  · rw [(hgoes.deeds d hnew).2 v.alarm] at takes
    cases takes
  · rw [hgoes.isRevoked]
    exact h.taken d hold takes

theorem stopped_goes (h : v.Told i a annals) {v' : Vigil} {a' : Alarm} {deeds : List Deed}
    (hgoes : v.Goes i a v' a' deeds) (revoked : a'.isRevoked v.token = true) :
    ∃ d ∈ tenure v.alarm i (deeds ++ annals), d.stops v.alarm = true := by
  rw [hgoes.isRevoked] at revoked
  obtain ⟨d, hd, stops⟩ := h.stopped revoked
  rw [hgoes.tenure_eq]
  exact ⟨d, List.mem_append_right _ hd, stops⟩

/-- The vigil moves and is still open. -/
theorem goes (h : v.Told i a annals) {v' : Vigil} {a' : Alarm} {deeds : List Deed}
    (hgoes : v.Goes i a v' a' deeds) (isOpen : v'.phase.isOpen = true) :
    v'.Told i a' (deeds ++ annals) := by
  have htenure := hgoes.tenure_eq v.alarm i annals
  have hstarted : .started v.alarm i ∈ deeds ++ annals := List.mem_append_right _ h.started
  have htaken := h.taken_goes hgoes
  have hstopped := h.stopped_goes hgoes
  cases hgoes with
  | waits timer pending =>
      refine ⟨hstarted, htaken, hstopped, fun _ => h.rested pending,
        fun _ => h.recurring pending, ?_, ?_⟩
      · intro running
        cases running
      · intro running
        cases running
  | quits pending revoked => cases isOpen
  | begins timer turn since time pending held =>
      have hbegun : beginnings i (tenure v.alarm i ([.began i time] ++ annals)) =
          time :: beginnings i (tenure v.alarm i annals) := by
        rw [htenure]
        exact beginnings_began i time _
      refine ⟨hstarted, htaken, hstopped, ?_, ?_, ?_, ?_⟩
      · intro waiting
        cases waiting
      · intro waiting
        cases waiting
      · intro _
        dsimp only
        rw [hbegun]
        exact List.cons_ne_nil _ _
      · intro _ held hmore
        dsimp only at hmore
        rw [hbegun] at hmore
        refine h.recurring pending held ?_
        intro hnone
        rw [hnone] at hmore
        exact Nat.lt_irrefl 1 hmore
  | vanishes r running period result => cases isOpen
  | ends r running period judged => cases isOpen
  | rearms r due next since running period result held own recurring inRange =>
      have hreturned : lastReturn? i
          (tenure v.alarm i ([.rearmed v.alarm due, .returned i r] ++ annals)) =
            some (r, tenure v.alarm i annals) := by
        rw [htenure]
        exact lastReturn?_returned i r _
      refine ⟨hstarted, htaken, hstopped, ?_, fun _ _ _ => recurring, ?_, ?_⟩
      · intro _ s before hlast
        dsimp only at hlast
        rw [hreturned] at hlast
        cases hlast
        rw [period]
        exact ⟨result, recurring, due, inRange⟩
      · intro running
        cases running
      · intro running
        cases running

theorem setOut {b : Alarm} (hb : b.Sound) (hrunning : b.status = .running) (n i since : Nat)
    (annals : List Deed) :
    ({ alarm := n, token := b.token, generation := b.generation, since } : Vigil).Told i b
      (.started n i :: annals) := by
  have hnone : tenure n i (.started n i :: annals) = [] := tenure_started n i annals
  refine ⟨List.mem_cons_self, ?_, ?_, ?_, ?_, ?_, ?_⟩
  · intro d hd
    rw [hnone] at hd
    cases hd
  · intro revoked
    rw [hb.held hrunning] at revoked
    cases revoked
  · intro _ r before hlast
    rw [hnone] at hlast
    cases hlast
  · intro _ _ hbegun
    rw [hnone] at hbegun
    exact absurd rfl hbegun
  · intro running
    cases running
  · intro running
    cases running

end Vigil.Told

namespace Core

/-- The annals tell the tenure of every open vigil. -/
structure Told (c : Core) : Prop where
  tell : ∀ {i : Nat} {v : Vigil} {a : Alarm}, c.vigils[i]? = some v →
    c.alarms[v.alarm]? = some a → v.phase.isOpen = true → v.Told i a c.annals

variable {c d : Core}

/-- A command to alarm `n`, of which the vigils of other alarms hear nothing. -/
theorem Told.setAlarm (h : c.Told) {n : Nat} {a b : Alarm} (ha : c.alarms[n]? = some a)
    {deed : Deed} (hvigil : deed.vigil? = none) (htakes : ∀ m, m ≠ n → deed.takesOver m = false)
    (htold : ∀ (i : Nat) (v : Vigil), c.vigils[i]? = some v → v.alarm = n →
      v.phase.isOpen = true → v.Told i a c.annals → v.Told i b (deed :: c.annals)) :
    Core.Told ⟨c.alarms.set n b, c.vigils, deed :: c.annals⟩ := by
  refine ⟨?_⟩
  intro i v x hv hx isOpen
  dsimp only at hv hx
  rw [Places.getElem?_set ha] at hx
  split at hx
  · next hn =>
      cases hx
      exact htold i v hv hn.symm isOpen (h.tell hv (hn ▸ ha) isOpen)
  · next hn =>
      have hother : ∀ e ∈ [deed], e.vigil? ≠ some i ∧ e.takesOver v.alarm = false := by
        intro e he
        rw [List.mem_singleton.mp he, hvigil]
        exact ⟨by simp, htakes v.alarm (Ne.symm hn)⟩
      exact (h.tell hv hx isOpen).pass hother

theorem Told.move (h : c.Told) {i : Nat} (hmove : Move i c d) : d.Told := by
  obtain ⟨hw, ha, goes⟩ := hmove
  rename_i w w' a a' deeds
  refine ⟨?_⟩
  intro j v x hv hx isOpen
  dsimp only at hv hx ⊢
  rw [Places.getElem?_set hw] at hv
  rw [Places.getElem?_set ha] at hx
  split at hv
  · next hij =>
      cases hv
      subst hij
      rw [goes.same.1, if_pos rfl] at hx
      cases hx
      exact (h.tell hw ha (goes.isOpen)).goes goes isOpen
  · next hij =>
      split at hx
      · next hn =>
          cases hx
          obtain ⟨_, _, hperiod, hrevoked⟩ := goes.keeps
          exact ((h.tell hv (hn ▸ ha) isOpen).congr hrevoked hperiod).bystander goes hij
      · exact (h.tell hv hx isOpen).bystander goes hij

theorem Told.step (h : c.Told) (hsound : c.Sound) {may : Impulse → Prop} (hstep : Step may c d) :
    d.Told := by
  cases hstep with
  | setUp e =>
      refine ⟨?_⟩
      intro i v a hv ha isOpen
      obtain ⟨b, hb, _⟩ := hsound.vigils hv
      have hlt : v.alarm < c.alarms.length := Places.lt_of_getElem? hb
      dsimp only at ha
      rw [Places.getElem?_append hb] at ha
      cases ha
      have hother : ∀ d ∈ [Deed.planned c.alarms.length false e.due e.period],
          d.vigil? ≠ some i ∧ d.takesOver v.alarm = false := by
        intro d hd
        rw [List.mem_singleton.mp hd]
        refine ⟨by simp [Deed.vigil?], ?_⟩
        simp only [Deed.takesOver, beq_eq_false_iff_ne]
        omega
      exact (h.tell hv hb isOpen).pass hother
  | @start n a b since allowed alarm started =>
      have hset : Core.Told
          ⟨c.alarms.set n b, c.vigils, .started n c.vigils.length :: c.annals⟩ := by
        refine h.setAlarm alarm rfl (fun m hm => beq_eq_false_iff_ne.mpr (Ne.symm hm)) ?_
        rintro i v hv rfl isOpen htold
        have hlt : i < c.vigils.length := Places.lt_of_getElem? hv
        exact htold.start (hsound.fits hv alarm) isOpen started (by omega)
      refine ⟨?_⟩
      intro i v x hv hx isOpen
      rcases Places.getElem?_grown hv with hold | ⟨rfl, rfl⟩
      · exact hset.tell hold hx isOpen
      · dsimp only at hx
        rw [Places.getElem?_set_self alarm] at hx
        cases hx
        obtain ⟨_, hb⟩ := Alarm.start_ok started
        exact .setOut ((hsound.alarms alarm).start started) (by rw [hb]) n _ since _
  | @cancel n a b alarm cancelled =>
      refine h.setAlarm alarm rfl (fun m hm => beq_eq_false_iff_ne.mpr (Ne.symm hm)) ?_
      rintro i v hv rfl isOpen htold
      exact htold.cancel (hsound.fits hv alarm) isOpen cancelled
  | @replan n a b plan now alarm replanned =>
      refine h.setAlarm alarm rfl (fun m hm => beq_eq_false_iff_ne.mpr (Ne.symm hm)) ?_
      rintro i v hv rfl isOpen htold
      exact htold.replan (hsound.fits hv alarm) isOpen replanned
  | move i _ moved => exact h.move moved

theorem Told.steps (h : c.Told) (hsound : c.Sound) {may : Impulse → Prop} (hsteps : Steps may c d) :
    d.Told := by
  induction hsteps with
  | refl => exact h
  | tail hsteps hstep ih => exact ih.step (hsound.steps hsteps) hstep

end Core

namespace Vigil.Told

variable {i : Nat} {v v' : Vigil} {a a' : Alarm} {annals deeds : List Deed} {e : Ending}

theorem revises_eq_false (h : v.Told i a annals) (held : a.isRevoked v.token = false) :
    ∀ d ∈ tenure v.alarm i annals, d.revises v.alarm = false := by
  intro d hd
  by_contra revises
  have revoked := h.taken d hd (Deed.takesOver_of_revises (by simpa using revises))
  rw [held] at revoked
  cases revoked

theorem exists_revises (h : v.Told i a annals) (revoked : a.isRevoked v.token = true) :
    ¬ ∀ d ∈ tenure v.alarm i annals, d.revises v.alarm = false := by
  intro hnone
  obtain ⟨d, hd, stops⟩ := h.stopped revoked
  have revises := Deed.revises_of_stops stops
  rw [hnone d hd] at revises
  cases revises

/-- A vigil that quits between its runs has neither ended well nor badly. -/
theorem verdict_of_quits (h : v.Told i a annals) (pending : v.phase.isPending = true) :
    ¬ EndsWell v.alarm i (.ended i .cancelled :: tenure v.alarm i annals) ∧
      ∀ x, ¬ EndsBadly v.alarm i (.ended i .cancelled :: tenure v.alarm i annals) x := by
  constructor
  · rintro ⟨r, before, hlast, _, once, _⟩
    obtain ⟨_, recurring, _⟩ := h.rested pending r before hlast
    rw [once] at recurring
    cases recurring
  · rintro x ⟨r, before, hlast, hcause⟩
    obtain ⟨succeeded, _, due, inRange⟩ := h.rested pending r before hlast
    rcases hcause with failed | ⟨_, _, _, overflow, _⟩
    · rw [succeeded] at failed
      cases failed
    · rw [inRange] at overflow
      cases overflow

/-- A vigil that ends with a run ends as the annals of its tenure demand. -/
theorem verdict_of_judged (h : v.Told i a annals) (running : v.phase.isPending = false)
    {r : Return} (hperiod : r.period = a.period) (judged : v.Judged a r e)
    (hfits : v.Fits a) (isOpen : v.phase.isOpen = true) :
    (e = .finished ↔
        EndsWell v.alarm i (.ended i e :: .returned i r :: tenure v.alarm i annals)) ∧
      ∀ x, e = .failed x ↔
        EndsBadly v.alarm i (.ended i e :: .returned i r :: tenure v.alarm i annals) x := by
  have hlast : lastReturn? i (.ended i e :: .returned i r :: tenure v.alarm i annals) =
      some (r, tenure v.alarm i annals) := lastReturn?_returned i r _
  have hbegun : beginnings i (.ended i e :: .returned i r :: tenure v.alarm i annals) =
      beginnings i (tenure v.alarm i annals) := rfl
  have hbadly := fun x => endsBadly_iff (n := v.alarm) hlast x
  rw [endsWell_iff hlast, hbegun, hperiod]
  cases judged with
  | failed result =>
      rw [result]
      refine ⟨by simp, ?_⟩
      intro x
      rw [hbadly, result]
      constructor
      · intro hx
        cases hx
        exact Or.inl rfl
      · rintro (hfailed | ⟨succeeded, _⟩)
        · cases hfailed
          rfl
        · cases succeeded
  | stopped result stale =>
      have hrevised := h.exists_revises (hfits.revoked_of_stale isOpen stale)
      refine ⟨by simp [hrevised], ?_⟩
      intro x
      rw [hbadly, result]
      simp [hrevised]
  | finished result held _ once =>
      have hlength : (beginnings i (tenure v.alarm i annals)).length = 1 := by
        have hpos := List.length_pos_iff.mpr (h.began running)
        by_contra hne
        have hmore : 1 < (beginnings i (tenure v.alarm i annals)).length := by omega
        have recurring := h.again running held hmore
        rw [once] at recurring
        cases recurring
      refine ⟨⟨fun _ => ⟨result, once, hlength, h.revises_eq_false held⟩, fun _ => rfl⟩, ?_⟩
      intro x
      rw [hbadly, result, hperiod, once]
      simp
  | overflowed result held _ recurring overflow =>
      refine ⟨by simp [recurring], ?_⟩
      intro x
      rw [hbadly, result, hperiod, recurring, overflow]
      constructor
      · intro hx
        cases hx
        exact Or.inr ⟨rfl, h.revises_eq_false held, rfl, rfl, rfl⟩
      · rintro (failed | ⟨_, _, _, _, rfl⟩)
        · cases failed
        · rfl

end Vigil.Told

end Almanac
