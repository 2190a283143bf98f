import Almanac.Proofs.Handles
import Almanac.Proofs.Listing
import Almanac.Proofs.Policies
import Almanac.Proofs.Visits

/-!
# What ensues

A timetable is served by requests, whether they come through the router or not, and time goes on
with polls. Whatever source its ids come from, all that the parts of a timetable owe to each other
is kept.
-/

namespace Almanac

namespace Web

variable {t : Timetable}

/-- An outcome may be logged. -/
theorem exists_journal_conclude (t : Timetable) (handled : Handled) :
    ∃ journal, (conclude t handled).2 = { t with journal } := by
  rcases handled with (p | _) | response
  · exact ⟨_, rfl⟩
  · exact ⟨t.journal, rfl⟩
  · exact ⟨t.journal, rfl⟩

def target? (r : Request) : Option Nat :=
  match Route.ofPath? r.path with
  | some (.entry raw) =>
    if r.method = "PUT" ∨ r.method = "DELETE" then
      (Text.decode? (Text.percentDecode raw)).bind fun id => (idOf id).toOption
    else none
  | _ => none

variable [Locators]

/-- The acts that a request may come to, by the response to it. -/
inductive Meant (t : Timetable) (r : Request) (response : Response) : Act → Prop
  | nothing : Meant t r response .list
  | creates {value : Json} {task : Task} (plan : Plan) (ordered : Task.ofJson value = .ok task) :
      Meant t r response (.create task plan)
  | updates {id : Nat} (plan : Plan) (target : target? r = some id)
      (success : t.succeeds (.update id plan) = true → response.isSuccess = true) :
      Meant t r response (.update id plan)
  | removes {id : Nat} (target : target? r = some id)
      (success : t.succeeds (.remove id) = true → response.isSuccess = true) :
      Meant t r response (.remove id)

theorem Meant.congr {r : Request} {response other : Response} {act : Act}
    (h : Meant t r response act) (same : other.isSuccess = response.isSuccess) :
    Meant t r other act := by
  cases h with
  | nothing => exact .nothing
  | creates plan ordered => exact .creates plan ordered
  | updates plan target success => exact .updates plan target (same ▸ success)
  | removes target success => exact .removes target (same ▸ success)

/-- A response goes with what one act makes of a timetable, apart from the log. -/
def ComesTo (t : Timetable) (r : Request) (result : Response × Timetable) : Prop :=
  ∃ act journal, Meant t r result.1 act ∧ result.2 = { t.act act with journal }

section

variable {r : Request} {raw : List Char}

theorem comesTo_of_journal (response : Response) {u : Timetable}
    (h : ∃ journal, u = { t with journal }) : ComesTo t r (response, u) := by
  obtain ⟨journal, rfl⟩ := h
  exact ⟨.list, journal, .nothing, rfl⟩

theorem comesTo_self (response : Response) : ComesTo t r (response, t) :=
  comesTo_of_journal response ⟨t.journal, rfl⟩

theorem comesTo_conclude (handled : Handled) : ComesTo t r (conclude t handled) :=
  comesTo_of_journal _ (exists_journal_conclude t handled)

/-- An outcome may be logged after an act, too. -/
theorem comesTo_conclude_act {act : Act} {handled : Handled}
    (h : Meant t r (conclude (t.act act) handled).1 act) :
    ComesTo t r (conclude (t.act act) handled) := by
  obtain ⟨journal, hconclude⟩ := exists_journal_conclude (t.act act) handled
  exact ⟨act, journal, h, hconclude⟩

theorem ofJson_of_orderOf {body : List UInt8} {now : Instant} {task : Task} {plan : Plan}
    (h : orderOf body now = .ok (task, plan)) : ∃ value, Task.ofJson value = .ok task := by
  obtain ⟨value, _, h⟩ := bind_eq_ok_iff.mp h
  obtain ⟨made, hmade, h⟩ := bind_eq_ok_iff.mp h
  obtain ⟨_, _, h⟩ := bind_eq_ok_iff.mp h
  cases h
  exact ⟨value, Attempt.mapReason_eq_ok_iff.mp hmade⟩

omit [Locators] in
theorem idOf_of_changeOf {body : List UInt8} {now : Instant} {id : Nat} {plan : Plan}
    (h : changeOf raw body now = .ok (id, plan)) : idOf raw = .ok id := by
  obtain ⟨named, hnamed, h⟩ := bind_eq_ok_iff.mp h
  obtain ⟨_, _, h⟩ := bind_eq_ok_iff.mp h
  obtain ⟨_, _, h⟩ := bind_eq_ok_iff.mp h
  cases h
  exact Attempt.ofExcept_eq_ok_iff.mp hnamed

theorem comesTo_createEntry (body : List UInt8) :
    ComesTo t r (conclude (createEntry t body).2 (createEntry t body).1) := by
  unfold createEntry
  split
  · exact comesTo_conclude _
  · next task plan horder =>
    obtain ⟨value, ordered⟩ := ofJson_of_orderOf horder
    have hmeant (response : Response) : Meant t r response (.create task plan) :=
      .creates plan ordered
    exact comesTo_conclude_act (hmeant _)

theorem comesTo_changeEntry (h : target? r = (idOf raw).toOption) (body : List UInt8) :
    ComesTo t r (conclude (changeEntry t raw body).2 (changeEntry t raw body).1) := by
  unfold changeEntry
  split
  · exact comesTo_conclude _
  · next id plan hchange =>
    have hid := idOf_of_changeOf hchange
    have hact : t.act (.update id plan) = (t.update id plan).2 := rfl
    have hmeant (response : Response)
        (success : (t.update id plan).1.isOk = true → response.isSuccess = true) :
        Meant t r response (.update id plan) := .updates plan (by rw [h, hid]; rfl) success
    generalize t.update id plan = result at hact hmeant
    obtain ⟨cause | view, u⟩ := result
    · obtain rfl := hact
      exact comesTo_conclude_act (hmeant _ fun success => by cases success)
    · obtain rfl := hact
      exact comesTo_conclude_act (hmeant _ fun _ => rfl)

theorem comesTo_deleteEntry (h : target? r = (idOf raw).toOption) :
    ComesTo t r (conclude (deleteEntry t raw).2 (deleteEntry t raw).1) := by
  unfold deleteEntry
  split
  · exact comesTo_conclude _
  · next id hid =>
    have hact : t.act (.remove id) = (t.remove id).2 := rfl
    have hmeant (response : Response)
        (success : (t.remove id).1.isOk = true → response.isSuccess = true) :
        Meant t r response (.remove id) := .removes (by rw [h, hid]; rfl) success
    generalize t.remove id = result at hact hmeant
    obtain ⟨cause | done, u⟩ := result
    · obtain rfl := hact
      exact comesTo_conclude_act (hmeant _ fun success => by cases success)
    · obtain rfl := hact
      exact comesTo_conclude_act (hmeant _ fun _ => rfl)

theorem comesTo_dispatch (t : Timetable) {route : Route}
    (hroute : Route.ofPath? r.path = some route) : ComesTo t r (dispatch t route r) := by
  cases route with
  | home => exact comesTo_self _
  | health => exact comesTo_self _
  | entries =>
    simp only [dispatch]
    split
    · split
      · exact comesTo_self _
      · exact comesTo_createEntry r.body
    · exact comesTo_conclude _
  | entry raw =>
    have htarget (hmethod : r.method = "PUT" ∨ r.method = "DELETE") :
        target? r = (Text.decode? (Text.percentDecode raw)).bind fun id => (idOf id).toOption := by
      simp only [target?]
      rw [hroute]
      exact if_pos hmethod
    simp only [dispatch, handleEntry]
    split
    · exact comesTo_self _
    · next id hid =>
      rw [hid] at htarget
      split
      · next hput =>
        split
        · exact comesTo_self _
        · exact comesTo_changeEntry (htarget (Or.inl hput)) r.body
      · next hdelete => exact comesTo_deleteEntry (htarget (Or.inr hdelete))
      · exact comesTo_conclude _

theorem comesTo_answer (credentials : Option (String × String)) (t : Timetable) {route : Route}
    (hroute : Route.ofPath? r.path = some route) :
    ComesTo t r (answer credentials t route r) := by
  unfold answer
  split
  · split
    · exact comesTo_dispatch t hroute
    · exact comesTo_self _
  · exact comesTo_of_journal _ ⟨_, rfl⟩
  · exact comesTo_of_journal _ ⟨_, rfl⟩

/-- Every request comes to one act, and to lines in the log. -/
theorem comesTo_handle (credentials : Option (String × String)) (t : Timetable) (r : Request) :
    ComesTo t r (handle credentials t r) := by
  unfold handle
  split
  · exact comesTo_self _
  · next route hroute =>
    obtain ⟨act, journal, hmeant, hu⟩ := comesTo_answer credentials t hroute
    refine ⟨act, journal, hmeant.congr ?_, hu⟩
    simp only [Response.isSuccess, forMethod_status]

end

/-- Whatever a request asks for, it comes to one act and to lines in the log. -/
def IsAct (t u : Timetable) : Prop :=
  ∃ act journal, act.isDirect = false ∧ u = { t.act act with journal }

theorem isAct_handle (credentials : Option (String × String)) (t : Timetable) (r : Request) :
    IsAct t (handle credentials t r).2 := by
  obtain ⟨act, journal, hmeant, hu⟩ := comesTo_handle credentials t r
  exact ⟨act, journal, by cases hmeant <;> rfl, hu⟩

end Web

namespace Timetable

/-- What may come next: an act that is no command to an alarm, or a request to the router. -/
inductive Ensues [Locators] (t : Timetable) : Timetable → Prop
  | act (act : Act) (service : act.isDirect = false) : Ensues t (t.act act)
  | request (credentials : Option (String × String)) (r : Web.Request) :
      Ensues t (Web.handle credentials t r).2

theorem Ensues.isAct [Locators] {t u : Timetable} (h : t.Ensues u) : Web.IsAct t u := by
  cases h with
  | act act service => exact ⟨act, _, service, rfl⟩
  | request credentials r => exact Web.isAct_handle credentials t r

/-- No entry has a handle that was not given away. -/
def Minted (t : Timetable) : Prop :=
  ∀ e ∈ t.roster.entries, ∀ handle, e.handle = some handle → handle < t.nextHandle

theorem Posted.minted_act {t : Timetable} (h : t.Posted) (hminted : t.Minted) {act : Act}
    (hact : act.isDirect = false) : (t.act act).Minted := by
  -- only what is created or updated is given a handle, which is the next one
  have houtcome := h.outcome hact
  generalize t.act act = u at houtcome ⊢
  have hkept : u.ledger = t.ledger → u.Minted := by
    intro ledger
    have hroster : u.roster = t.roster := congrArg Ledger.roster ledger
    have hnext : u.nextHandle = t.nextHandle := congrArg Ledger.nextHandle ledger
    simp only [Minted]
    rw [hroster, hnext]
    exact hminted
  cases houtcome with
  | idle core ledger failed => exact hkept ledger
  | broken core ledger cause entries spoiled failed =>
    have hroster : u.roster = _ := congrArg Ledger.roster ledger
    have hnext : u.nextHandle = t.nextHandle := congrArg Ledger.nextHandle ledger
    simp only [Minted]
    rw [hroster, hnext, entries]
    exact hminted
  | polled i moves ledger => exact hkept ledger
  | watched watcher waiting vigil closed core ledger =>
    have hroster : u.roster = _ := congrArg Ledger.roster ledger
    have hnext : u.nextHandle = t.nextHandle := congrArg Ledger.nextHandle ledger
    simp only [Minted]
    rw [hroster, hnext]
    dsimp only
    split
    · intro e he handle hhandle
      obtain ⟨x, hx, _, hsame | hnone⟩ := Roster.handle_of_mem_released he
      · exact hminted x hx handle (hsame ▸ hhandle)
      · rw [hnone] at hhandle
        cases hhandle
    · exact hminted
  | @created task plan new b journal policy same hnew sound drawn started result =>
    intro e he handle hhandle
    rcases List.mem_append.mp he with hold | hlast
    · exact Nat.lt_succ_of_lt (hminted e hold handle hhandle)
    · rw [List.mem_singleton.mp hlast, hnew] at hhandle
      cases hhandle
      exact Nat.lt_succ_self _
  | updated post found alarm replanned started result =>
    intro e he handle hhandle
    obtain ⟨x, hx, hxe⟩ := Roster.mem_entries_modify.mp he
    split at hxe
    · subst hxe
      cases hhandle
      exact Nat.lt_succ_self _
    · subst hxe
      exact Nat.lt_succ_of_lt (hminted x hx handle hhandle)
  | removed post alarm result =>
    intro e he handle hhandle
    exact hminted e (List.mem_filter.mp he).1 handle hhandle
  | stopped alarms deeds deeds_cancelled stops => exact hminted

/-- All that the parts of a timetable owe to each other. -/
structure Tidy (t : Timetable) : Prop where
  agrees : t.Agrees
  sound : t.core.Sound
  planned : t.core.Planned
  checked : t.Checked
  numbered : t.Numbered
  minted : t.Minted
  named : ∀ p ∈ t.book, p.1 ≠ 0

theorem tidy_opening (start : Instant) (source : IdSource) (replies : List RestartReply) :
    (opening start source replies).Tidy where
  agrees := agrees_opening start source replies
  sound := sound_opening start source replies
  planned := planned_opening start source replies
  checked := .opening start source replies
  numbered := (custody_opening start source replies).numbered
  minted := by
    intro e he
    cases he
  named := by
    intro p hp
    cases hp

namespace Tidy

variable {t u : Timetable}

theorem act (h : t.Tidy) {act : Act} (hact : act.isDirect = false) : (t.act act).Tidy where
  agrees := h.agrees.act hact
  sound := h.sound.steps (t.steps_act act)
  planned := h.planned.steps (t.steps_act act)
  checked := h.checked.act (by rintro e rfl; cases hact)
  numbered := h.agrees.numbered_act h.numbered hact
  minted := h.agrees.minted_act h.minted hact
  named := by
    rw [(h.agrees.outcome hact).book]
    exact h.agrees.booked_ne_zero h.named act

/-- Nothing depends on the journal. -/
theorem withJournal (h : t.Tidy) (journal : List Happening) : { t with journal }.Tidy where
  agrees := h.agrees.congr rfl rfl rfl
  sound := h.sound
  planned := h.planned
  checked := h.checked.congr rfl rfl
  numbered := h.numbered.of_same (.refl : Core.Steps (fun _ => False) _ _) rfl rfl
  minted := h.minted
  named := h.named

theorem isAct (h : t.Tidy) (hact : Web.IsAct t u) : u.Tidy := by
  obtain ⟨act, journal, hservice, rfl⟩ := hact
  exact (h.act hservice).withJournal journal

theorem ensues [Locators] (h : t.Tidy) (hsteps : Relation.ReflTransGen Ensues t u) : u.Tidy := by
  induction hsteps with
  | refl => exact h
  | tail _ hstep ih => exact ih.isAct hstep.isAct

end Tidy

end Timetable

end Almanac
