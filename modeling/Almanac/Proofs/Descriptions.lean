import Almanac.Entry
import Almanac.Proofs.JsonTexts
import Almanac.Proofs.Phrases
import Almanac.Plan.Json
import Almanac.Task.Order
import Almanac.Url.Letters
import Almanac.Url.Reader
import Mathlib.Data.List.Nodup

/-!
# Tasks made anew from their descriptions

The description of a task says all that it takes to make the task again. Whatever else stands in
the same object is passed over.
-/

namespace Almanac

namespace Json

/-- Holds of objects that have all members of another one, and maybe more. -/
def Includes (value part : Json) : Prop :=
  ∀ name v, part.member? name = some v → value.member? name = some v

theorem includes_refl (value : Json) : value.Includes value := fun _ _ h => h

theorem lookup_of_mem {members : List (String × Json)} {name : String} {v : Json}
    (hmem : (name, v) ∈ members) (hsame : ∀ w, (name, w) ∈ members → w = v) :
    members.lookup name = some v := by
  induction members with
  | nil => cases hmem
  | cons m members ih =>
    obtain ⟨other, w⟩ := m
    rw [lookup_member]
    split
    · next heq =>
      subst heq
      rw [hsame w List.mem_cons_self]
    · next hne =>
      refine ih ?_ fun w hw => hsame w (List.mem_cons_of_mem _ hw)
      exact (List.mem_cons.mp hmem).resolve_left fun heq => hne (Prod.mk.inj heq).1

theorem mem_of_lookup {members : List (String × Json)} {name : String} {v : Json}
    (h : members.lookup name = some v) : (name, v) ∈ members := by
  induction members with
  | nil => cases h
  | cons m members ih =>
    obtain ⟨other, w⟩ := m
    rw [lookup_member] at h
    split at h
    · next heq =>
      cases heq
      cases h
      exact List.mem_cons_self
    · exact List.mem_cons_of_mem _ (ih h)

/-- Leaving members out hides none of those that stay. -/
theorem lookup_filter {p : String → Bool} {name : String} (hname : p name = true)
    (members : List (String × Json)) :
    (members.filter fun m => p m.1).lookup name = members.lookup name := by
  induction members with
  | nil => rfl
  | cons m members ih =>
    obtain ⟨other, value⟩ := m
    rw [List.filter_cons, lookup_member]
    split
    · rw [lookup_member, ih]
    · next hother =>
      have hne : name ≠ other := fun heq => hother (heq ▸ hname)
      rw [if_neg hne, ih]

end Json

namespace TaskView

def members (v : TaskView) : List (String × Json) :=
  ("type", .string v.kind) ::
    match v with
    | restart token build => [("token", .string token), ("build_id", .nat build)]
    | fetch url => [("url", .string url)]
    | pause length => [("sleep_duration", .string length)]

theorem nodup_members (v : TaskView) : (v.members.map Prod.fst).Nodup := by
  cases v <;> simp [members]

theorem eq_of_mem_members {v : TaskView} {name : String} {a b : Json} (ha : (name, a) ∈ v.members)
    (hb : (name, b) ∈ v.members) : a = b :=
  (Prod.mk.inj (List.inj_on_of_nodup_map v.nodup_members ha hb rfl)).2

theorem member?_json_eq_some_iff {v : TaskView} {name : String} {value : Json} :
    v.json.member? name = some value ↔ (name, value) ∈ v.members := by
  rw [show v.json.member? name = v.members.reverse.lookup name from Json.member?_ofMembers name _]
  constructor
  · exact fun h => List.mem_reverse.mp (Json.mem_of_lookup h)
  · exact fun h => Json.lookup_of_mem (List.mem_reverse.mpr h) fun other hother =>
      eq_of_mem_members (List.mem_reverse.mp hother) h

/-- Holds of names that no description of a task has for a member. -/
def IsForeign (name : String) : Prop :=
  name ∉ ["type", "token", "build_id", "url", "sleep_duration"]

instance (name : String) : Decidable (IsForeign name) :=
  inferInstanceAs (Decidable (name ∉ ["type", "token", "build_id", "url", "sleep_duration"]))

theorem not_isForeign_of_mem {v : TaskView} {m : String × Json} (h : m ∈ v.members) :
    ¬IsForeign m.1 := by
  cases v <;> simp only [members, List.mem_cons, List.not_mem_nil, or_false] at h
  · rcases h with rfl | rfl | rfl <;> simp [IsForeign]
  · rcases h with rfl | rfl <;> simp [IsForeign]
  · rcases h with rfl | rfl <;> simp [IsForeign]

/-- Members of other names hide none of a description. -/
theorem includes_of_perm {v : TaskView} {extra all : List (String × Json)}
    (hextra : ∀ m ∈ extra, IsForeign m.1) (hall : all.Perm (v.members ++ extra)) :
    (Json.ofMembers all).Includes v.json := by
  intro name value hname
  have hmem := member?_json_eq_some_iff.mp hname
  rw [Json.member?_ofMembers]
  refine Json.lookup_of_mem (List.mem_reverse.mpr (hall.mem_iff.mpr (List.mem_append_left _ hmem)))
    fun other hother => ?_
  rcases List.mem_append.mp (hall.mem_iff.mp (List.mem_reverse.mp hother)) with hother | hother
  · exact eq_of_mem_members hother hmem
  · exact absurd (hextra _ hother) (not_isForeign_of_mem (m := (name, value)) hmem)

end TaskView

namespace Task

/-- Holds of the tasks that can be made of what a client sends. -/
inductive IsOrderable [Locators] : Task → Prop
  | restart {token : String} {build : Nat} (named : token ≠ "") (counted : build ≠ 0)
      (fits : build < 2 ^ 64) : IsOrderable (.restart token build)
  | fetch {url : String} (made : ofFetch url = .ok (.fetch url)) : IsOrderable (.fetch url)
  | pause (length : Span) : IsOrderable (.pause length)

variable {value : Json} {task : Task}

theorem ofRestart_eq_ok_iff {token : String} {build : Nat} :
    ofRestart token build = .ok task ↔ token ≠ "" ∧ build ≠ 0 ∧ .restart token build = task := by
  unfold ofRestart
  split
  · next hempty =>
    rw [String.isEmpty_iff] at hempty
    simp [hempty]
  · next hnonempty =>
    rw [String.isEmpty_iff] at hnonempty
    split <;> simp_all

theorem ofFetch_eq_ok_iff [Locators] {url : String} :
    ofFetch url = .ok task ↔ ofFetch url = .ok (.fetch url) ∧ .fetch url = task := by
  unfold ofFetch
  split
  · simp
  · split <;> simp

theorem field_eq_ok_iff {α : Type} {name : String} {shape : Json → Shaped α} {default a : α} :
    field value name shape default = .ok a ↔
      value.member? name = none ∧ default = a ∨
        ∃ v, value.member? name = some v ∧ shape v = .ok a := by
  unfold field
  split
  · next hnone => simp [hnone]
  · next v hsome =>
    rw [hsome]
    cases hshape : shape v <;> simp [Except.mapError, hshape]

theorem asWord_eq_ok_iff {bits n : Nat} {v : Json} :
    v.asWord bits = .ok n ↔ v = .nat n ∧ n < 2 ^ bits := by
  constructor
  · intro h
    unfold Json.asWord at h
    split at h
    · next m =>
      split at h
      · next hm =>
        cases h
        obtain ⟨k, rfl⟩ := Int.eq_ofNat_of_zero_le hm.1
        exact ⟨rfl, Int.ofNat_lt.mp (by simpa using hm.2)⟩
      · cases h
    · cases h
  · rintro ⟨rfl, hn⟩
    have hlimits : (0 : Int) ≤ n ∧ (n : Int) < 2 ^ bits :=
      ⟨Int.natCast_nonneg n, by exact_mod_cast hn⟩
    rw [Json.nat, Json.asWord, if_pos hlimits, Int.toNat_natCast]

theorem isOrderable_of_ofJson [Locators] (h : Task.ofJson value = .ok task) : task.IsOrderable := by
  obtain ⟨kind, -, h⟩ := bind_eq_ok_iff.mp h
  split at h
  · obtain ⟨build, hbuild, h⟩ := bind_eq_ok_iff.mp h
    obtain ⟨token, -, h⟩ := bind_eq_ok_iff.mp h
    obtain ⟨hnamed, hcounted, rfl⟩ := ofRestart_eq_ok_iff.mp (Attempt.ofExcept_eq_ok_iff.mp h)
    refine .restart hnamed hcounted ?_
    rcases field_eq_ok_iff.mp (Attempt.ofExcept_eq_ok_iff.mp hbuild) with ⟨-, hzero⟩ | ⟨v, -, hword⟩
    · exact absurd hzero.symm hcounted
    · exact (asWord_eq_ok_iff.mp hword).2
  · obtain ⟨url, -, h⟩ := bind_eq_ok_iff.mp h
    obtain ⟨hmade, rfl⟩ := ofFetch_eq_ok_iff.mp (Attempt.ofExcept_eq_ok_iff.mp h)
    exact .fetch hmade
  · obtain ⟨length, -, h⟩ := bind_eq_ok_iff.mp h
    unfold ofPause at h
    split at h
    · cases h
      exact .pause _
    · split at h
      · cases h
        exact .pause _
      · obtain ⟨span, -, rfl⟩ := map_eq_ok_iff.mp h
        exact .pause span
  · cases h

theorem field_of_member {α : Type} (shape : Json → Shaped α) {name : String} {default a : α}
    {v : Json} (hmember : value.member? name = some v) (hshape : shape v = .ok a) :
    Attempt.ofExcept (field value name shape default) = .ok a :=
  Attempt.ofExcept_eq_ok_iff.mpr (field_eq_ok_iff.mpr (.inr ⟨v, hmember, hshape⟩))

theorem orderedKind_of_member {kind : String} (hmember : value.member? "type" = some (.string kind))
    (hkind : kind ≠ "") : Attempt.ofExcept (orderedKind value) = .ok kind := by
  have hnonempty : ¬kind.isEmpty = true := fun h => hkind (String.isEmpty_iff.mp h)
  rw [Attempt.ofExcept_eq_ok_iff, orderedKind, hmember]
  exact if_neg hnonempty

/-- The words of a span make a pause of just that length. -/
theorem ofPause_words (length : Span) : ofPause (some length.words) = .ok (.pause length) := by
  rw [ofPause, if_neg length.words_not_blank, periodOfText_words]
  rfl

/-- A description makes the task that it describes, whatever else stands beside it. -/
theorem ofJson_of_includes [Locators] (htask : task.IsOrderable)
    (hvalue : value.Includes task.view.json) :
    Task.ofJson value = .ok task := by
  have hmember {name : String} {v : Json} (h : (name, v) ∈ task.view.members) :
      value.member? name = some v := hvalue name v (TaskView.member?_json_eq_some_iff.mpr h)
  cases htask with
  | @restart token build named counted fits =>
    have htype : value.member? "type" = some (.string "travis-re-run") :=
      hmember List.mem_cons_self
    have htoken : value.member? "token" = some (.string token) :=
      hmember (List.mem_cons_of_mem _ List.mem_cons_self)
    have hbuild : value.member? "build_id" = some (.nat build) :=
      hmember (List.mem_cons_of_mem _ (List.mem_cons_of_mem _ List.mem_cons_self))
    rw [Task.ofJson, orderedKind_of_member htype (by decide)]
    change (Attempt.ofExcept (field value "build_id" (Json.asWord 64) 0)).bind _ = _
    rw [field_of_member (Json.asWord 64) hbuild (asWord_eq_ok_iff.mpr ⟨rfl, fits⟩)]
    change (Attempt.ofExcept (field value "token" Json.asString "")).bind _ = _
    rw [field_of_member Json.asString htoken rfl]
    exact Attempt.ofExcept_eq_ok_iff.mpr (ofRestart_eq_ok_iff.mpr ⟨named, counted, rfl⟩)
  | @fetch url made =>
    have htype : value.member? "type" = some (.string "url-get") := hmember List.mem_cons_self
    have hurl : value.member? "url" = some (.string url) :=
      hmember (List.mem_cons_of_mem _ List.mem_cons_self)
    rw [Task.ofJson, orderedKind_of_member htype (by decide)]
    change (Attempt.ofExcept (field value "url" Json.asString "")).bind _ = _
    rw [field_of_member Json.asString hurl rfl]
    exact Attempt.ofExcept_eq_ok_iff.mpr made
  | pause length =>
    have htype : value.member? "type" = some (.string "no-op") := hmember List.mem_cons_self
    have hlength : value.member? "sleep_duration" = some (.string length.words) :=
      hmember (List.mem_cons_of_mem _ List.mem_cons_self)
    rw [Task.ofJson, orderedKind_of_member htype (by decide)]
    change (Attempt.ofExcept
      (field value "sleep_duration" (Json.asOptional Json.asString) none)).bind _ = _
    rw [field_of_member (Json.asOptional Json.asString) hlength rfl]
    exact ofPause_words length

end Task

namespace TaskView

/-- The compact form of a description is read as the description. -/
theorem readOctets_members {v : TaskView}
    (hfits : ∀ token build, v = restart token build → build < 2 ^ 64) :
    Json.readOctets (Text.encode (Json.object v.members).text) = .ok v.json := by
  have hexact : (Json.object v.members).IsExact JsonReader.depthLimit := by
    cases v with
    | restart token build =>
      exact ⟨by decide, trivial, trivial, Json.isExact_nat (hfits token build rfl) 126, trivial⟩
    | fetch url => exact ⟨by decide, trivial, trivial, trivial⟩
    | pause length => exact ⟨by decide, trivial, trivial, trivial⟩
  rw [Json.readOctets_text hexact]
  cases v <;> rfl

end TaskView

namespace Task

/-- Holds of tasks that can be made again of their descriptions: alone, read off their printed
form, and among members of other names in whatever order. -/
structure Rebuilds [Locators] (task : Task) : Prop where
  alone : Task.ofJson task.view.json = .ok task
  printed : ∃ value,
    Json.readOctets (Text.encode (Json.object task.view.members).text) = .ok value ∧
      Task.ofJson value = .ok task
  merged : ∀ extra all, (∀ m ∈ extra, TaskView.IsForeign m.1) →
    all.Perm (task.view.members ++ extra) → Task.ofJson (.ofMembers all) = .ok task

theorem IsOrderable.rebuilds [Locators] {task : Task} (h : task.IsOrderable) : task.Rebuilds where
  alone := ofJson_of_includes h (Json.includes_refl _)
  printed := by
    refine ⟨_, TaskView.readOctets_members fun token build hview => ?_,
      ofJson_of_includes h (Json.includes_refl _)⟩
    cases h with
    | restart named counted fits =>
      cases hview
      exact fits
    | fetch made => cases hview
    | pause length => cases hview
  merged extra all hextra hall := ofJson_of_includes h (TaskView.includes_of_perm hextra hall)

/-- **Describing a task and making it anew is the identity**, for every task that can be made:
those that a client can ask for, every pause, every restart with a token and a number, and every
fetch. The members that the description of an entry and a plan add are foreign to all of them. -/
theorem made_of_description [Locators] :
    (∀ value task, Task.ofJson value = .ok task → task.Rebuilds) ∧
      (∀ length : Span, (Task.pause length).Rebuilds) ∧
      (∀ token build, token ≠ "" → 1 ≤ build → build < 2 ^ 64 →
        (Task.restart token build).Rebuilds) ∧
      (∀ url task, Task.ofFetch url = .ok task →
        task.Rebuilds ∧ task.view = .fetch url) ∧
      ∀ name ∈ EntryView.fieldNames ++ PlanRequest.fieldNames, TaskView.IsForeign name := by
  refine ⟨fun value task h => (isOrderable_of_ofJson h).rebuilds,
    fun length => (IsOrderable.pause length).rebuilds, fun token build hnamed hcounted hfits => ?_,
    fun url task h => ?_, by decide⟩
  · exact (IsOrderable.restart hnamed (Nat.one_le_iff_ne_zero.mp hcounted) hfits).rebuilds
  · obtain ⟨hmade, rfl⟩ := ofFetch_eq_ok_iff.mp h
    exact ⟨(IsOrderable.fetch hmade).rebuilds, rfl⟩

/-- What a client may ask for, in its own words. -/
def orderedPause : Json :=
  .ofMembers [("type", .string "no-op"), ("sleep_duration", .string " 90min 1ns "),
    ("frequency", .string "1h")]

theorem made_of_description_in_use :
    (Task.ofJson orderedPause = .ok (.pause ⟨5400000000001, by decide⟩) ∧
      (Task.pause ⟨5400000000001, by decide⟩).Rebuilds) ∧
    (("\"\n" ≠ "" ∧ 1 ≤ 2 ^ 64 - 1 ∧ 2 ^ 64 - 1 < 2 ^ 64) ∧
      (Task.restart "\"\n" (2 ^ 64 - 1)).Rebuilds) ∧
    (Task.ofFetch "HTTP://Example.com/a b" = .ok (.fetch "HTTP://Example.com/a b") ∧
      (Task.fetch "HTTP://Example.com/a b").Rebuilds) ∧
    "frequency" ∈ EntryView.fieldNames ++ PlanRequest.fieldNames ∧
      TaskView.IsForeign "frequency" := by
  obtain ⟨hordered, -, hrestart, hfetch, hforeign⟩ := made_of_description
  have hpause : Task.ofJson orderedPause = .ok (.pause ⟨5400000000001, by decide⟩) := rfl
  have hmade : Task.ofFetch "HTTP://Example.com/a b" = .ok (.fetch "HTTP://Example.com/a b") := rfl
  have hname : "frequency" ∈ EntryView.fieldNames ++ PlanRequest.fieldNames := by decide
  exact ⟨⟨hpause, hordered _ _ hpause⟩,
    ⟨⟨by decide, by decide, by decide⟩, hrestart _ _ (by decide) (by decide) (by decide)⟩,
    ⟨hmade, (hfetch _ _ hmade).1⟩, hname, hforeign _ hname⟩

end Task

end Almanac
