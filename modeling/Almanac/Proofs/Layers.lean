import Almanac.Settings.Variable
import Mathlib.Data.List.Nodup

/-!
# Laws of layers

What stands at a path of a tree that is laid over another, and what stands there in the tree of
the variables: the value of the one variable whose name means that path.
-/

namespace Almanac

namespace Datum

theorem lookup_member (wanted name : String) (d : Datum) (members : List (String × Datum)) :
    List.lookup wanted ((name, d) :: members) =
      if wanted = name then some d else members.lookup wanted := by
  rw [List.lookup_cons]
  split
  · next h => rw [if_pos (eq_of_beq h)]
  · next h => rw [if_neg (ne_of_beq_false h)]

theorem lookup_put (wanted name : String) (d : Datum) (members : List (String × Datum)) :
    (put name d members).lookup wanted =
      if wanted = name then some d else members.lookup wanted := by
  induction members with
  | nil => exact lookup_member wanted name d []
  | cons member rest ih =>
    obtain ⟨other, old⟩ := member
    rw [put]
    split
    · next hother =>
      rw [lookup_member, lookup_member, hother]
      split <;> rfl
    · next hother =>
      rw [lookup_member, lookup_member, ih]
      split
      · next h => rw [if_neg fun heq => hother (h.symm.trans heq)]
      · rfl

theorem map_fst_put {name : String} {members : List (String × Datum)} (d : Datum)
    (h : name ∈ members.map Prod.fst) :
    (put name d members).map Prod.fst = members.map Prod.fst := by
  induction members with
  | nil => cases h
  | cons member rest ih =>
    obtain ⟨other, old⟩ := member
    rw [put]
    by_cases hother : other = name
    · simp [hother]
    · have hrest : name ∈ rest.map Prod.fst := by simpa [Ne.symm hother] using h
      simp [hother, ih hrest]

theorem lookup_isSome_iff {name : String} {members : List (String × Datum)} :
    (members.lookup name).isSome = true ↔ name ∈ members.map Prod.fst := by
  induction members with
  | nil => simp
  | cons member rest ih =>
    rw [lookup_member, List.map_cons, List.mem_cons, ← ih]
    split
    · next h => simp [h]
    · next h => simp [h]

/-- Laying members over others leaves one member of each name. -/
theorem nodup_layMembers {under : List (String × Datum)} (upper : List (String × Datum))
    (h : (under.map Prod.fst).Nodup) : ((layMembers under upper).map Prod.fst).Nodup := by
  induction upper generalizing under with
  | nil => exact h
  | cons member rest ih =>
    obtain ⟨name, d⟩ := member
    rw [layMembers]
    split
    · next old hold =>
      refine ih ?_
      rw [map_fst_put _ (lookup_isSome_iff.mp (hold ▸ rfl))]
      exact h
    · next hnone =>
      have hname : name ∉ under.map Prod.fst := fun hmem => by
        rw [← lookup_isSome_iff, hnone] at hmem
        cases hmem
      refine ih ?_
      rw [List.map_append]
      exact h.append (List.nodup_singleton name) (List.disjoint_singleton.mpr hname)

/-- A tree laid over what there may be. -/
def layOver : Option Datum → Datum → Datum
  | none, d => d
  | some old, d => old.lay d

/-- What a member comes to when others, of which one may have its name, are laid over it. -/
def merged (under upper : Option Datum) : Option Datum :=
  match upper with
  | none => under
  | some d => some (layOver under d)

theorem merged_none (upper : Option Datum) : merged none upper = upper := by
  cases upper <;> rfl

theorem lookup_layMembers (under : List (String × Datum)) {upper : List (String × Datum)}
    (h : (upper.map Prod.fst).Nodup) (wanted : String) :
    (layMembers under upper).lookup wanted =
      merged (under.lookup wanted) (upper.lookup wanted) := by
  induction upper generalizing under with
  | nil => rfl
  | cons member rest ih =>
    obtain ⟨name, d⟩ := member
    obtain ⟨hname, hrest⟩ := List.nodup_cons.mp h
    -- no member after the first has its name
    have hafter : rest.lookup name = none := by
      rw [← Option.not_isSome_iff_eq_none, lookup_isSome_iff]
      exact hname
    rw [layMembers, lookup_member]
    split
    · next old hold =>
      rw [ih _ hrest, lookup_put]
      split
      · next heq => rw [heq, hafter, hold, merged, merged, layOver]
      · rfl
    · next hnone =>
      rw [ih _ hrest, List.lookup_append, lookup_member]
      split
      · next heq => rw [heq, hafter, hnone, merged, merged, layOver, Option.none_or]
      · next hne => simp

/-- Holds of the trees that are tables all along a path, up to its last part and as far as they
go, with one member of each name. -/
def Opens : List String → Datum → Prop
  | [], _ => True
  | name :: path, d =>
    ∃ origin members, d = table origin members ∧ (members.map Prod.fst).Nodup ∧
      ∀ inner, members.lookup name = some inner → Opens path inner

variable {path : List String} {under upper : Datum}

theorem at?_cons_table (name : String) (path : List String) (o : Origin)
    (members : List (String × Datum)) :
    (table o members).at? (name :: path) = (members.lookup name).bind (at? path) := rfl

theorem at?_append (path rest : List String) (d : Datum) :
    d.at? (path ++ rest) = (d.at? path).bind (at? rest) := by
  induction path generalizing d with
  | nil => rfl
  | cons name path ih =>
    cases d with
    | scalar o v => rfl
    | list o items => rfl
    | table o members =>
      rw [List.cons_append, at?_cons_table, at?_cons_table]
      cases members.lookup name with
      | none => rfl
      | some d => exact ih d

/-- At a path that is open in the upper tree, laying it over another comes to laying what stands
there over what stands there. -/
theorem Opens.at?_lay (h : Opens path upper) (under : Datum) :
    (under.lay upper).at? path = merged (under.at? path) (upper.at? path) := by
  induction path generalizing under upper with
  | nil => rfl
  | cons name path ih =>
    obtain ⟨o, members, rfl, hnodup, hinner⟩ := h
    cases under with
    | scalar o' v => exact (merged_none _).symm
    | list o' items => exact (merged_none _).symm
    | table o' old =>
      have hlay : (table o' old).lay (table o members) = table o (layMembers old members) := by
        rw [lay]
      rw [hlay, at?_cons_table, at?_cons_table, at?_cons_table, lookup_layMembers old hnodup]
      cases hupper : members.lookup name with
      | none => rfl
      | some d =>
        cases old.lookup name with
        | none => exact (merged_none _).symm
        | some inner => exact ih (hinner d hupper) inner

/-- A tree that is open along a path stays so when another such tree is laid over it. -/
theorem Opens.lay (hunder : Opens path under) (hupper : Opens path upper) :
    Opens path (under.lay upper) := by
  induction path generalizing under upper with
  | nil => trivial
  | cons name path ih =>
    obtain ⟨o', old, rfl, hold, hunder⟩ := hunder
    obtain ⟨o, members, rfl, hnodup, hupper⟩ := hupper
    refine ⟨o, layMembers old members, by rw [Datum.lay], nodup_layMembers members hold,
      fun inner hinner => ?_⟩
    rw [lookup_layMembers old hnodup] at hinner
    cases hmember : members.lookup name with
    | none =>
      rw [hmember] at hinner
      exact hunder inner hinner
    | some d =>
      rw [hmember] at hinner
      cases hother : old.lookup name with
      | none =>
        rw [hother] at hinner
        cases hinner
        exact hupper _ hmember
      | some inner' =>
        rw [hother] at hinner
        cases hinner
        exact ih (hunder inner' hother) (hupper d hmember)

/-- What is open along a path is open along its beginnings. -/
theorem Opens.take (h : Opens path upper) (n : Nat) : Opens (path.take n) upper := by
  induction path generalizing upper n with
  | nil => rwa [List.take_nil]
  | cons name path ih =>
    cases n with
    | zero => trivial
    | succ n =>
      obtain ⟨o, members, rfl, hnodup, hinner⟩ := h
      exact ⟨o, members, rfl, hnodup, fun inner hlookup => ih (hinner inner hlookup) n⟩

/-- A tree that is open along a longer path is a table where it is something. -/
theorem Opens.table_at? {name : String} (h : Opens (path ++ [name]) upper) {d : Datum}
    (hd : upper.at? path = some d) : ∃ origin members, d = table origin members := by
  induction path generalizing upper with
  | nil =>
    obtain ⟨o, members, rfl, -, -⟩ := h
    cases hd
    exact ⟨o, members, rfl⟩
  | cons first path ih =>
    obtain ⟨o, members, rfl, -, hinner⟩ := h
    obtain ⟨inner, hlookup, hd⟩ := Option.bind_eq_some_iff.mp hd
    exact ih (hinner inner hlookup) hd

/-- Holds if there is no tree, or a table. -/
def IsSection (d : Option Datum) : Prop :=
  ∀ inner, d = some inner → ∃ origin members, inner = table origin members

instance : DecidablePred IsSection
  | none => isTrue fun _ h => by cases h
  | some (table o members) => isTrue fun _ h => by
    cases h
    exact ⟨o, members, rfl⟩
  | some (scalar o v) => isFalse fun h => by
    obtain ⟨o', members, heq⟩ := h _ rfl
    cases heq
  | some (list o items) => isFalse fun h => by
    obtain ⟨o', members, heq⟩ := h _ rfl
    cases heq

theorem IsSection.merged {under upper : Option Datum} (hunder : IsSection under)
    (hupper : IsSection upper) : IsSection (merged under upper) := by
  intro inner h
  cases upper with
  | none => exact hunder inner h
  | some d =>
    obtain ⟨o, members, rfl⟩ := hupper d rfl
    cases under with
    | none =>
      cases h
      exact ⟨o, members, rfl⟩
    | some old =>
      obtain ⟨o', old, rfl⟩ := hunder old rfl
      cases h
      exact ⟨o, layMembers old members, by rw [layOver, Datum.lay]⟩

variable {o : Origin} {other : List String} {d : Datum}

/-- A nest is open along every path that does not lead further at its end. -/
theorem opens_nest (h : other <+: path → other = path) : Opens path (nest o other d) := by
  induction other generalizing path with
  | nil =>
    rw [← h List.nil_prefix]
    trivial
  | cons name other ih =>
    cases path with
    | nil => trivial
    | cons first path =>
      refine ⟨o, [(name, nest o other d)], rfl, List.nodup_singleton name, fun inner hinner => ?_⟩
      rw [lookup_member] at hinner
      split at hinner
      · next hfirst =>
        cases hinner
        subst hfirst
        exact ih fun hprefix =>
          (List.cons.inj (h (List.cons_prefix_cons.mpr ⟨rfl, hprefix⟩))).2
      · cases hinner

theorem at?_nest (path : List String) : (nest o path d).at? path = some d := by
  induction path with
  | nil => rfl
  | cons name path ih =>
    have hlookup : [(name, nest o path d)].lookup name = some (nest o path d) := by
      rw [lookup_member, if_pos rfl]
    exact (congrArg (Option.bind · (at? path)) hlookup).trans ih

theorem at?_nest_of_apart (h : ¬other <+: path) (h' : ¬path <+: other) :
    (nest o other d).at? path = none := by
  induction other generalizing path with
  | nil => exact absurd List.nil_prefix h
  | cons name other ih =>
    cases path with
    | nil => exact absurd List.nil_prefix h'
    | cons first path =>
      change ([(name, nest o other d)].lookup first).bind (at? path) = none
      rw [lookup_member]
      split
      · next heq =>
        subst heq
        rw [List.cons_prefix_cons] at h h'
        exact ih (fun hp => h ⟨rfl, hp⟩) fun hp => h' ⟨rfl, hp⟩
      · rfl

end Datum

namespace Variable

/-- Holds of the surroundings in which every variable that bears on a path means just that path,
and at most one does. -/
structure Single (path : List String) (env : List (String × String)) : Prop where
  own : ∀ v ∈ env, ∀ other, path? v.1 = some other →
    (other <+: path ∨ path <+: other) → other = path
  once : (env.filter fun v => path? v.1 = some path).length ≤ 1

instance (path : List String) (env : List (String × String)) : Decidable (Single path env) :=
  decidable_of_iff
    ((∀ v ∈ env, ∀ other ∈ path? v.1, (other <+: path ∨ path <+: other) → other = path) ∧
      (env.filter fun v => path? v.1 = some path).length ≤ 1)
    ⟨fun h => ⟨h.1, h.2⟩, fun h => ⟨h.own, h.once⟩⟩

/-- The value of the variable that means a path. -/
def given (path : List String) (env : List (String × String)) : Option Datum :=
  (env.find? fun v => path? v.1 = some path).map fun v => datum v.2

/-- Lays a variable over a tree. -/
def layNext (under : Datum) (v : String × String) : Datum :=
  match path? v.1 with
  | some path => under.lay (.nest .environment path (datum v.2))
  | none => under

theorem layer_eq (env : List (String × String)) :
    layer env = env.foldl layNext (.table .environment []) := rfl

variable {path : List String} {env : List (String × String)} {v : String × String}

theorem Single.of_cons (h : Single path (v :: env)) : Single path env := by
  refine ⟨fun w hw => h.own w (List.mem_cons_of_mem v hw), Nat.le_trans ?_ h.once⟩
  exact ((List.sublist_cons_self v env).filter _).length_le

/-- The first variable that means the path is the only one. -/
theorem Single.given_eq_none (h : Single path (v :: env)) (hv : path? v.1 = some path) :
    given path env = none := by
  have honce := h.once
  rw [List.filter_cons_of_pos (by simpa using hv), List.length_cons] at honce
  have hnil : env.filter (fun v => path? v.1 = some path) = [] :=
    List.eq_nil_of_length_eq_zero (by omega)
  rw [given, ← List.head?_filter, hnil]
  rfl

/-- Laying a variable over a tree keeps it open. -/
theorem opens_layNext {under : Datum}
    (hown : ∀ other, path? v.1 = some other → (other <+: path ∨ path <+: other) → other = path)
    (h : under.Opens path) : (layNext under v).Opens path := by
  rw [layNext]
  split
  · next other hother =>
    exact h.lay (Datum.opens_nest fun hp => hown other hother (.inl hp))
  · exact h

theorem at?_layNext_own {under : Datum} (hv : path? v.1 = some path) :
    (layNext under v).at? path = some (Datum.layOver (under.at? path) (datum v.2)) := by
  simp only [layNext, hv]
  rw [(Datum.opens_nest fun _ => rfl).at?_lay, Datum.at?_nest, Datum.merged]

theorem at?_layNext_other {under : Datum}
    (hown : ∀ other, path? v.1 = some other → (other <+: path ∨ path <+: other) → other = path)
    (hv : path? v.1 ≠ some path) : (layNext under v).at? path = under.at? path := by
  rw [layNext]
  split
  · next other hother =>
    have hapart : ¬other <+: path ∧ ¬path <+: other := by
      rw [← not_or]
      exact fun h => hv (hown other hother h ▸ hother)
    rw [(Datum.opens_nest fun hp => absurd hp hapart.1).at?_lay,
      Datum.at?_nest_of_apart hapart.1 hapart.2, Datum.merged]
  · rfl

/-- Of many variables the one that means the path is laid over what stands there. -/
theorem Single.at?_foldl (h : Single path env) (under : Datum) :
    (env.foldl layNext under).at? path = Datum.merged (under.at? path) (given path env) := by
  induction env generalizing under with
  | nil => rfl
  | cons v env ih =>
    rw [List.foldl_cons, ih h.of_cons]
    by_cases hv : path? v.1 = some path
    · rw [at?_layNext_own hv, h.given_eq_none hv]
      simp [given, hv, Datum.merged]
    · rw [at?_layNext_other (h.own v List.mem_cons_self) hv]
      simp [given, hv]

theorem Single.opens_foldl (h : Single path env) {under : Datum} (hunder : under.Opens path) :
    (env.foldl layNext under).Opens path := by
  induction env generalizing under with
  | nil => exact hunder
  | cons v env ih => exact ih h.of_cons (opens_layNext (h.own v List.mem_cons_self) hunder)

theorem Single.opens_layer (h : Single path env) : (layer env).Opens path := by
  refine h.opens_foldl ?_
  cases path with
  | nil => trivial
  | cons name path => exact ⟨_, _, rfl, List.nodup_nil, fun _ h => by cases h⟩

/-- In the tree of the variables, what stands at a path is the value of the variable of it. -/
theorem Single.at?_layer (h : Single path env) (hpath : path ≠ []) :
    (layer env).at? path = given path env := by
  obtain ⟨name, path, rfl⟩ := List.exists_cons_of_ne_nil hpath
  rw [layer_eq, h.at?_foldl]
  exact Datum.merged_none _

/-- Over another tree, it is laid over what stands there. -/
theorem Single.at?_lay_layer (h : Single path env) (hpath : path ≠ []) (under : Datum) :
    (under.lay (layer env)).at? path = Datum.merged (under.at? path) (given path env) := by
  rw [h.opens_layer.at?_lay, h.at?_layer hpath]

end Variable

end Almanac
