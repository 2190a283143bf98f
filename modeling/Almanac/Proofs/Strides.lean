import Almanac.Proofs.Confluence
import Almanac.Proofs.Solos

/-!
# Strides

Settling and advancing poll the vigils of all alarms in one order. What the vigils of one alarm see
of it is settling and advancing of their own: of those that are ready the first comes next, and when
all of them wait, time goes on. So how the solo of an alarm gets on depends on the solo alone.
-/

namespace Almanac

/-- Of two vigils with their numbers the first comes first. -/
def Precedes (x y : Nat × Vigil) : Prop :=
  x.2.since < y.2.since ∨ x.2.since = y.2.since ∧ x.1 ≤ y.1

namespace Precedes

variable {x y z : Nat × Vigil}

theorem refl (x : Nat × Vigil) : Precedes x x := Or.inr ⟨rfl, Nat.le_refl _⟩

theorem trans (hxy : Precedes x y) (hyz : Precedes y z) : Precedes x z := by
  simp only [Precedes] at *
  omega

theorem antisymm (hxy : Precedes x y) (hyx : Precedes y x) : x.1 = y.1 := by
  simp only [Precedes] at *
  omega

/-- The choice between two vigils in the order of their numbers. -/
theorem earlier (h : x.1 < y.1) :
    Precedes (Timetable.earlier x y) x ∧ Precedes (Timetable.earlier x y) y := by
  simp only [Timetable.earlier]
  split
  · next hlt => exact ⟨Or.inl hlt, refl y⟩
  · next hle => exact ⟨refl x, by simp only [Precedes]; omega⟩

theorem foldl_earlier {vs : List (Nat × Vigil)} (h : (x :: vs).Pairwise fun x y => x.1 < y.1) :
    ∀ y ∈ x :: vs, Precedes (vs.foldl Timetable.earlier x) y := by
  induction vs generalizing x with
  | nil =>
      intro y hy
      rw [List.mem_singleton.mp hy]
      exact refl x
  | cons z vs ih =>
      obtain ⟨hx, hz, hvs⟩ : (∀ y ∈ z :: vs, x.1 < y.1) ∧ (∀ y ∈ vs, z.1 < y.1) ∧
          vs.Pairwise fun x y => x.1 < y.1 := by
        rw [List.pairwise_cons, List.pairwise_cons] at h
        exact h
      have hchoice : Timetable.earlier x z = x ∨ Timetable.earlier x z = z := by
        simp only [Timetable.earlier]
        split
        · exact Or.inr rfl
        · exact Or.inl rfl
      have hlater : ∀ y ∈ vs, (Timetable.earlier x z).1 < y.1 := by
        intro y hy
        rcases hchoice with heq | heq
        · rw [heq]
          exact hx y (List.mem_cons_of_mem _ hy)
        · rw [heq]
          exact hz y hy
      obtain ⟨hfirst, hsecond⟩ := earlier (hx z List.mem_cons_self)
      have hrest := ih (List.pairwise_cons.mpr ⟨hlater, hvs⟩)
      have hchosen := hrest _ List.mem_cons_self
      intro y hy
      rw [List.foldl_cons]
      rcases List.mem_cons.mp hy with rfl | hy
      · exact hchosen.trans hfirst
      · rcases List.mem_cons.mp hy with rfl | hy
        · exact hchosen.trans hsecond
        · exact hrest y (List.mem_cons_of_mem _ hy)

end Precedes

namespace Timetable

variable {t u s : Timetable} {i j k n : Nat} {v w : Vigil} {a : Alarm}

theorem readyVigils_pairwise (t : Timetable) :
    t.readyVigils.Pairwise fun x y => x.1 < y.1 := by
  apply List.Pairwise.filter
  rw [List.pairwise_map]
  have hrange : (t.vigils.zipIdx.map Prod.snd).Pairwise (· < ·) := by
    rw [List.zipIdx_map_snd]
    exact List.pairwise_lt_range'
  exact List.pairwise_map.mp hrange

/-- The vigil to poll next comes before all others that are ready. -/
theorem precedes_of_nextVigil? (h : t.nextVigil? = some i) :
    ∃ v, t.vigils[i]? = some v ∧ t.isReady v = true ∧
      ∀ j w, t.vigils[j]? = some w → t.isReady w = true → Precedes (i, v) (j, w) := by
  simp only [nextVigil?] at h
  split at h
  · cases h
  · next first vs hready =>
      cases h
      have hmem := foldl_earlier_mem first vs
      have hfirst := Precedes.foldl_earlier (hready ▸ t.readyVigils_pairwise)
      generalize vs.foldl earlier first = chosen at *
      rw [← hready] at hmem hfirst
      obtain ⟨hv, ready⟩ := mem_readyVigils_iff.mp hmem
      refine ⟨_, hv, ready, ?_⟩
      intro j w hw ready'
      exact hfirst _ (mem_readyVigils_iff.mpr ⟨hw, ready'⟩)

theorem nextVigil?_of_precedes (hv : t.vigils[i]? = some v) (ready : t.isReady v = true)
    (h : ∀ j w, t.vigils[j]? = some w → t.isReady w = true → Precedes (i, v) (j, w)) :
    t.nextVigil? = some i := by
  cases hnext : t.nextVigil? with
  | none =>
      rw [nextVigil?_eq_none_iff.mp hnext v (List.mem_of_getElem? hv)] at ready
      cases ready
  | some j =>
      obtain ⟨w, hw, ready', hfirst⟩ := precedes_of_nextVigil? hnext
      have hij : i = j := (h j w hw ready').antisymm (hfirst i v hv ready)
      rw [hij]

theorem exists_of_vigil_solo (hw : (t.solo n).vigils[k]? = some w) :
    ∃ i v, t.vigils[i]? = some v ∧ v.alarm = n ∧ v.alone = w ∧ t.place n i = k := by
  simp only [solo, vigilsOf] at hw
  rw [List.getElem?_map] at hw
  obtain ⟨v, hv, hw⟩ := Option.map_eq_some_iff.mp hw
  obtain ⟨i, hi, own, hrank⟩ := Places.exists_of_getElem?_filter hv
  exact ⟨i, v, hi, by simpa using own, hw, hrank⟩

theorem isReady_solo (ha : t.alarms[n]? = some a) (own : v.alarm = n) :
    (t.solo n).isReady v.alone = t.isReady v := by
  have halarm : (t.solo n).alarms[v.alone.alarm]? = some a.anonymous := by
    rw [alarms_solo ha]
    rfl
  rw [isReady_eq halarm, isReady_eq (own.symm ▸ ha)]
  rfl

/-- If the vigil to poll next is one of an alarm, it comes next in the solo. -/
theorem nextVigil?_solo (ha : t.alarms[n]? = some a) (h : t.nextVigil? = some i)
    (hv : t.vigils[i]? = some v) (own : v.alarm = n) :
    (t.solo n).nextVigil? = some (t.place n i) := by
  obtain ⟨x, hx, ready, hfirst⟩ := precedes_of_nextVigil? h
  rw [hv] at hx
  cases hx
  apply nextVigil?_of_precedes (vigil_solo hv own)
  · rw [isReady_solo ha own]
    exact ready
  · intro k w hw ready'
    obtain ⟨j, x, hx, own', rfl, rfl⟩ := exists_of_vigil_solo hw
    rw [isReady_solo ha own'] at ready'
    apply (hfirst j x hx ready').imp_right
    intro ⟨hsince, hle⟩
    exact ⟨hsince, Places.rank_le_rank hle⟩

/-- If all vigils of an alarm wait, none comes next in the solo. -/
theorem nextVigil?_solo_of_waiting (ha : t.alarms[n]? = some a)
    (h : ∀ v ∈ t.vigils, v.alarm = n → t.isReady v = false) : (t.solo n).nextVigil? = none := by
  rw [nextVigil?_eq_none_iff]
  intro w hw
  obtain ⟨k, hk⟩ := List.mem_iff_getElem?.mp hw
  obtain ⟨i, v, hv, own, rfl, _⟩ := exists_of_vigil_solo hk
  rw [isReady_solo ha own]
  exact h v (List.mem_of_getElem? hv) own

/-- One step of going on up to a time of the timers: the poll that comes next, or if all wait, one
more millisecond. -/
inductive Stride (outcome : Nat → Turn) (limit : Nat) : Timetable → Timetable → Prop
  | poll {s : Timetable} {k : Nat} (next : s.nextVigil? = some k) :
      Stride outcome limit s (s.pollAs outcome k)
  | tick {s : Timetable} (waiting : s.nextVigil? = none) (early : s.elapsed < limit) :
      Stride outcome limit s { s with elapsed := s.elapsed + 1 }

/-- There is one way of going on. -/
theorem Stride.unique {outcome : Nat → Turn} {limit : Nat} {r : Timetable}
    (h : Stride outcome limit s t) (h' : Stride outcome limit s r) : t = r := by
  cases h with
  | poll next =>
      cases h' with
      | poll next' =>
          rw [next] at next'
          cases next'
          rfl
      | tick waiting early =>
          rw [next] at waiting
          cases waiting
  | tick waiting early =>
      cases h' with
      | poll next =>
          rw [next] at waiting
          cases waiting
      | tick waiting' early' => rfl

theorem Stride.mono {outcome : Nat → Turn} {limit later : Nat} (hle : limit ≤ later)
    (h : Stride outcome limit s t) : Stride outcome later s t := by
  cases h with
  | poll next => exact .poll next
  | tick waiting early => exact .tick waiting (Nat.lt_of_lt_of_le early hle)

/-- The whole way up to a time of the timers. -/
structure Elapses (outcome : Nat → Turn) (millis : Nat) (s u : Timetable) : Prop where
  strides : Relation.ReflTransGen (Stride outcome (s.elapsed + millis)) s u
  waiting : u.nextVigil? = none
  elapsed : u.elapsed = s.elapsed + millis

namespace Elapses

variable {outcome : Nat → Turn} {millis more : Nat} {r : Timetable}

/-- At the end of the way nothing goes on. -/
theorem still (h : Elapses outcome millis s u) : ¬ Stride outcome (s.elapsed + millis) u r := by
  intro hstride
  cases hstride with
  | poll next =>
      rw [h.waiting] at next
      cases next
  | tick waiting early => exact Nat.ne_of_lt early h.elapsed

theorem unique (h : Elapses outcome millis s u) (h' : Elapses outcome millis s r) : u = r := by
  have hend : ∀ {x y : Timetable}, Elapses outcome millis s x →
      Relation.ReflTransGen (Stride outcome (s.elapsed + millis)) x y → x = y := by
    intro x y hx hxy
    rcases hxy.cases_head with heq | ⟨z, hstride, _⟩
    · exact heq
    · exact absurd hstride hx.still
  have honeWay : Relator.RightUnique (Stride outcome (s.elapsed + millis)) :=
    fun _ _ _ => Stride.unique
  rcases Relation.ReflTransGen.total_of_right_unique honeWay h.strides h'.strides with hur | hru
  · exact hend h hur
  · exact (hend h' hru).symm

/-- One way after another is one way. -/
theorem trans (h : Elapses outcome millis s u) (h' : Elapses outcome more u r) :
    Elapses outcome (millis + more) s r where
  strides := by
    have hsum : u.elapsed + more = s.elapsed + (millis + more) := by rw [h.elapsed, Nat.add_assoc]
    have hle : s.elapsed + millis ≤ s.elapsed + (millis + more) := by omega
    have hlater := h'.strides
    rw [hsum] at hlater
    exact (Relation.ReflTransGen.mono (fun _ _ => Stride.mono hle) _ _ h.strides).trans hlater
  waiting := h'.waiting
  elapsed := by rw [h'.elapsed, h.elapsed, Nat.add_assoc]

end Elapses

section

variable {outcome : Nat → Turn} {limit fuel : Nat}

theorem timerOf?_of_nextTimer?_none (h : t.nextTimer? = none) (hv : v ∈ t.vigils) :
    timerOf? v = none := by
  rw [nextTimer?, List.min?_eq_none_iff, List.filterMap_eq_nil_iff] at h
  exact h v hv

/-- The next timer is the first of all. -/
theorem nextTimer?_spec {timer : Nat} (h : t.nextTimer? = some timer) :
    (∃ v ∈ t.vigils, timerOf? v = some timer) ∧
      ∀ v ∈ t.vigils, ∀ other, timerOf? v = some other → timer ≤ other := by
  obtain ⟨hmem, hfirst⟩ := List.min?_eq_some_iff.mp h
  refine ⟨List.mem_filterMap.mp hmem, ?_⟩
  intro v hv other hother
  exact hfirst other (List.mem_filterMap.mpr ⟨v, hv, hother⟩)

/-- At rest an alarm's vigils wait at least until the first timer. -/
theorem AtRest.waiting_solo (h : t.AtRest) (ha : t.alarms[n]? = some a) {later : Nat}
    (hlate : ∀ v ∈ t.vigils, ∀ timer, timerOf? v = some timer → later ≤ timer) {elapsed : Nat}
    (hlt : elapsed < later) : (({ t with elapsed } : Timetable).solo n).nextVigil? = none := by
  apply nextVigil?_solo_of_waiting (t := { t with elapsed }) ha
  intro v hv _
  have waits := h.vigils v hv
  have htimer := hlate v hv
  simp only [isReady] at waits ⊢
  cases hphase : v.phase with
  | setOut =>
      rw [hphase] at waits
      cases waits
  | waiting timer =>
      have hle : later ≤ timer := htimer timer (by rw [timerOf?, hphase])
      rw [hphase, Bool.or_eq_false_iff] at waits
      simp [waits.2]
      omega
  | running timer turn =>
      have hle : later ≤ timer := htimer timer (by rw [timerOf?, hphase])
      simp
      omega
  | ended ending => rfl
  | lost => rfl

/-- As long as an alarm's vigils wait, its solo strides on by milliseconds. -/
theorem strides_of_waiting {later : Nat} (hle : t.elapsed ≤ later) (hlimit : later ≤ limit)
    (waiting : ∀ elapsed, elapsed < later →
      (({ t with elapsed } : Timetable).solo n).nextVigil? = none) :
    Relation.ReflTransGen (Stride outcome limit) (t.solo n)
      (({ t with elapsed := later } : Timetable).solo n) := by
  induction later, hle using Nat.le_induction with
  | base => exact .refl
  | succ later hle ih =>
      have hbefore := ih (Nat.le_of_succ_le hlimit)
        fun elapsed hlt => waiting elapsed (Nat.lt_succ_of_lt hlt)
      exact hbefore.tail (.tick (waiting later (Nat.lt_succ_self later)) hlimit)

/-- At rest, without a timer up to the limit, a solo strides on by milliseconds to the limit. -/
theorem AtRest.strides_to (h : t.AtRest) (ha : t.alarms[n]? = some a) (hle : t.elapsed ≤ limit)
    (hlate : ∀ v ∈ t.vigils, ∀ timer, timerOf? v = some timer → limit + 1 ≤ timer) :
    Relation.ReflTransGen (Stride outcome limit) (t.solo n)
        (({ t with elapsed := limit } : Timetable).solo n) ∧
      (({ t with elapsed := limit } : Timetable).solo n).nextVigil? = none ∧
      ({ t with elapsed := limit } : Timetable).elapsed = limit := by
  refine ⟨?_, h.waiting_solo ha hlate (Nat.lt_succ_self limit), rfl⟩
  apply strides_of_waiting hle (Nat.le_refl limit)
  intro elapsed hlt
  exact h.waiting_solo ha hlate (Nat.lt_succ_of_lt hlt)

/-- At rest no timer has come. -/
theorem AtRest.elapsed_lt_timer (h : t.AtRest) (hv : v ∈ t.vigils) {timer : Nat}
    (htimer : timerOf? v = some timer) : t.elapsed < timer := by
  have waits := h.vigils v hv
  simp only [isReady] at waits
  simp only [timerOf?] at htimer
  split at htimer
  · next hphase =>
      cases htimer
      rw [hphase, Bool.or_eq_false_iff] at waits
      simpa using waits.1
  · next hphase =>
      cases htimer
      rw [hphase] at waits
      simpa using waits
  · cases htimer

namespace Hosts

theorem settle (h : t.Hosts n) : t.settle.Hosts n := by
  rw [← run_settling]
  apply h.run_of_isSpontaneous
  intro act hact
  exact Act.isSpontaneous_of_isPoll (isPoll_of_mem_settling hact)

/-- A poll of settling is a stride in the solo, or none. -/
theorem strides_nextAct (h : t.Hosts n) {act : Act} {acts : List Act}
    (hact : t.nextAct? = some act) (hplays : t.PlaysAs n outcome (act :: acts)) :
    Relation.ReflTransGen (Stride outcome limit) (t.solo n) ((t.act act).solo n) := by
  obtain ⟨a, ha⟩ := h.alarm
  simp only [nextAct?] at hact
  cases hnext : t.nextVigil? with
  | some i =>
      rw [hnext] at hact
      cases hact
      have hpolled := h.solo_poll hplays
      obtain ⟨v, hv, _⟩ := ready_of_nextVigil? hnext
      rw [Timetable.act, hpolled]
      by_cases own : v.alarm = n
      · rw [if_pos ((owner_eq_some_iff hv).mpr own)]
        exact .single (.poll (nextVigil?_solo ha hnext hv own))
      · rw [if_neg fun hn => own ((owner_eq_some_iff hv).mp hn)]
  | none =>
      rw [hnext] at hact
      obtain ⟨k, _, rfl⟩ := Option.map_eq_some_iff.mp hact
      rw [Timetable.act, t.solo_pollWatcher k n]

theorem strides_settlingWithin (h : t.Hosts n)
    (hplays : t.PlaysAs n outcome (settlingWithin fuel t)) :
    Relation.ReflTransGen (Stride outcome limit) (t.solo n) ((settleWithin fuel t).solo n) := by
  induction fuel generalizing t with
  | zero => exact .refl
  | succ fuel ih =>
      simp only [settlingWithin] at hplays
      simp only [settleWithin]
      rw [step?_eq]
      cases hact : t.nextAct? with
      | none => exact .refl
      | some act =>
          rw [hact] at hplays
          obtain ⟨hservice, hclock⟩ :=
            Act.isService_of_isSpontaneous (Act.isSpontaneous_of_isPoll (isPoll_of_nextAct? hact))
          exact (h.strides_nextAct hact hplays).trans (ih (h.act hservice hclock) hplays.tail)

/-- Settling takes the solo of an alarm the whole way at one time of the timers. -/
theorem elapses_settle (h : t.Hosts n) (hplays : t.PlaysAs n outcome t.settling) :
    Elapses outcome 0 (t.solo n) (t.settle.solo n) where
  strides := h.strides_settlingWithin hplays
  waiting := by
    obtain ⟨a, ha⟩ := h.settle.alarm
    exact nextVigil?_solo_of_waiting ha fun v hv _ => h.atRest_settle.vigils v hv
  elapsed := t.elapsed_settle

/-- Going from timer to timer passes over no timer of the alarm's vigils. -/
theorem strides_advancingTo (h : t.Hosts n) (hrest : t.AtRest) (hle : t.elapsed ≤ limit)
    (hfuel : limit - t.elapsed < fuel)
    (hplays : t.PlaysAs n outcome (advancingTo limit fuel t)) :
    Relation.ReflTransGen (Stride outcome limit) (t.solo n)
        ((advanceTo limit fuel t).solo n) ∧
      ((advanceTo limit fuel t).solo n).nextVigil? = none ∧
      (advanceTo limit fuel t).elapsed = limit := by
  induction fuel generalizing t with
  | zero => exact absurd hfuel (Nat.not_lt_zero _)
  | succ fuel ih =>
      obtain ⟨a, ha⟩ := h.alarm
      simp only [advancingTo] at hplays
      simp only [advanceTo]
      cases hnext : t.nextTimer? with
      | none =>
          apply hrest.strides_to ha hle
          intro v hv timer htimer
          exact absurd htimer (by rw [timerOf?_of_nextTimer?_none hnext hv]; simp)
      | some timer =>
          obtain ⟨⟨v, hv, htv⟩, hfirst⟩ := nextTimer?_spec hnext
          by_cases htimer : timer ≤ limit
          · have hlt : t.elapsed < timer := hrest.elapsed_lt_timer hv htv
            have hskip := skipTo_of_le (Nat.le_of_lt hlt)
            have hu : (t.skipTo timer).Hosts n := by
              rw [← act_pass_eq_skipTo]
              exact h.act rfl trivial
            have helapsed : (t.skipTo timer).settle.elapsed = timer := by
              rw [elapsed_settle, hskip]
            rw [hnext] at hplays
            dsimp only at hplays ⊢
            rw [if_pos htimer] at hplays ⊢
            have hlater := hplays.tail
            rw [act_pass_eq_skipTo] at hlater
            obtain ⟨hsettling, hadvancing⟩ := hlater.split
            rw [run_settling] at hadvancing
            obtain ⟨hstrides, hrests⟩ := ih hu.settle hu.atRest_settle (by omega) (by omega)
              hadvancing
            refine ⟨?_, hrests⟩
            have hwait : Relation.ReflTransGen (Stride outcome limit) (t.solo n)
                ((t.skipTo timer).solo n) := by
              rw [hskip]
              apply strides_of_waiting (Nat.le_of_lt hlt) htimer
              intro elapsed hbefore
              exact hrest.waiting_solo ha hfirst hbefore
            exact (hwait.trans (hu.strides_settlingWithin hsettling)).trans hstrides
          · dsimp only
            rw [if_neg htimer]
            apply hrest.strides_to ha hle
            intro v hv other hother
            exact Nat.lt_of_lt_of_le (Nat.not_le.mp htimer) (hfirst v hv other hother)

/-- Advancing takes the solo of an alarm the whole way to its end. -/
theorem elapses_advance (h : t.Hosts n) {millis : Nat}
    (hplays : t.PlaysAs n outcome (t.advancing millis)) :
    Elapses outcome millis (t.solo n) ((t.advance millis).solo n) := by
  obtain ⟨hsettling, hadvancing⟩ := hplays.split
  rw [run_settling] at hadvancing
  have helapsed := t.elapsed_settle
  obtain ⟨hstrides, hwaiting, hend⟩ := h.settle.strides_advancingTo h.atRest_settle
    (by omega) (by omega) hadvancing
  exact ⟨(h.strides_settlingWithin hsettling).trans hstrides, hwaiting, hend⟩

end Hosts

end

end Timetable

end Almanac
