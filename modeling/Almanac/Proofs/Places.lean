import Mathlib.Data.List.Basic

/-!
# Numbered places

Alarms and vigils keep their places in lists that only grow, so that a place is a number.
-/

namespace Almanac.Places

variable {α : Type*} {l : List α} {n : Nat} {a b : α}

theorem set_self (h : l[n]? = some a) : l.set n a = l := by
  obtain ⟨hn, rfl⟩ := List.getElem?_eq_some_iff.mp h
  exact List.set_getElem_self hn

/-- Setting a place that exists. -/
theorem getElem?_set (h : l[n]? = some a) (m : Nat) :
    (l.set n b)[m]? = if n = m then some b else l[m]? := by
  have hn : n < l.length := (List.getElem?_eq_some_iff.mp h).1
  rw [List.getElem?_set, if_pos hn]

/-- What stands at a place before and after a change at some place, if the change keeps to `P`. -/
theorem exists_set {P : α → α → Prop} (hrefl : ∀ x, P x x) (h : l[n]? = some a) (hchange : P a b)
    {m : Nat} {x : α} (hx : l[m]? = some x) : ∃ y, (l.set n b)[m]? = some y ∧ P x y := by
  rw [getElem?_set h]
  split
  · next hn =>
      rw [← hn, h] at hx
      cases hx
      exact ⟨b, rfl, hchange⟩
  · exact ⟨x, hx, hrefl x⟩

theorem getElem?_set_self (h : l[n]? = some a) (b : α) : (l.set n b)[n]? = some b := by
  rw [getElem?_set h, if_pos rfl]

theorem getElem?_append (h : l[n]? = some a) (l' : List α) : (l ++ l')[n]? = some a := by
  have hn : n < l.length := (List.getElem?_eq_some_iff.mp h).1
  rw [List.getElem?_append_left hn, h]

theorem getElem?_last (l : List α) (b : α) : (l ++ [b])[l.length]? = some b := by
  simp

/-- A place of a list that has grown by one is an old one or the last. -/
theorem getElem?_grown (h : (l ++ [b])[n]? = some a) :
    l[n]? = some a ∨ n = l.length ∧ a = b := by
  rcases Nat.lt_or_ge n l.length with hlt | hge
  · rw [List.getElem?_append_left hlt] at h
    exact Or.inl h
  · rw [List.getElem?_append_right hge, List.getElem?_singleton] at h
    split at h
    · next hn =>
        cases h
        exact Or.inr ⟨by omega, rfl⟩
    · cases h

theorem lt_of_getElem? (h : l[n]? = some a) : n < l.length :=
  (List.getElem?_eq_some_iff.mp h).1

/-- A list is parted before the first item that fails a test. -/
theorem parted_iff {p : α → Bool} {s front rest : List α} :
    s.takeWhile p = front ∧ s.drop front.length = rest ↔
      s = front ++ rest ∧ (∀ a ∈ front, p a = true) ∧ ∀ a ∈ rest.head?, p a = false := by
  constructor
  · rintro ⟨rfl, rfl⟩
    refine ⟨(List.prefix_iff_eq_append.mp (List.takeWhile_prefix _)).symm,
      List.all_eq_true.mp List.all_takeWhile, ?_⟩
    induction s with
    | nil => simp
    | cons a s ih =>
      by_cases ha : p a = true
      · simpa [ha] using ih
      · simp [ha]
  · rintro ⟨rfl, hfront, hrest⟩
    have htake : (front ++ rest).takeWhile p = front := by
      rw [List.takeWhile_append_of_pos hfront]
      cases rest with
      | nil => simp
      | cons a rest => simp [hrest a rfl]
    exact ⟨htake, List.drop_left⟩
section Rank

variable {p : α → Bool}

/-- The number that a place has among those that `p` holds of. -/
def rank (p : α → Bool) (l : List α) (n : Nat) : Nat := (l.take n).countP p

theorem eq_take_append_drop (h : l[n]? = some a) : l = l.take n ++ a :: l.drop (n + 1) := by
  obtain ⟨hn, rfl⟩ := List.getElem?_eq_some_iff.mp h
  rw [← List.drop_eq_getElem_cons hn, List.take_append_drop]

theorem set_eq_take_append_drop (h : l[n]? = some a) (b : α) :
    l.set n b = l.take n ++ b :: l.drop (n + 1) := by
  rw [List.set_eq_take_append_cons_drop, if_pos (lt_of_getElem? h)]

theorem filter_take_length (p : α → Bool) (l : List α) (n : Nat) :
    ((l.take n).filter p).length = rank p l n :=
  (List.countP_eq_length_filter ..).symm

/-- What stands at a place stands at the place of that number among some. -/
theorem getElem?_filter (h : l[n]? = some a) (ha : p a = true) :
    (l.filter p)[rank p l n]? = some a := by
  have hsplit : l.filter p = (l.take n).filter p ++ a :: (l.drop (n + 1)).filter p := by
    conv_lhs => rw [eq_take_append_drop h]
    rw [List.filter_append, List.filter_cons_of_pos ha]
  rw [hsplit, ← filter_take_length, List.getElem?_append_right (Nat.le_refl _), Nat.sub_self]
  rfl

theorem filter_set_of_neg (h : l[n]? = some a) (ha : p a = false) (hb : p b = false) :
    (l.set n b).filter p = l.filter p := by
  conv_rhs => rw [eq_take_append_drop h]
  rw [set_eq_take_append_drop h, List.filter_append, List.filter_append,
    List.filter_cons_of_neg (by simp [hb]), List.filter_cons_of_neg (by simp [ha])]

theorem filter_set_of_pos (h : l[n]? = some a) (ha : p a = true) (hb : p b = true) :
    (l.set n b).filter p = (l.filter p).set (rank p l n) b := by
  conv_rhs => rw [eq_take_append_drop h]
  rw [set_eq_take_append_drop h, List.filter_append, List.filter_append,
    List.filter_cons_of_pos hb, List.filter_cons_of_pos ha, ← eq_take_append_drop h,
    ← filter_take_length, List.set_append_right _ _ (Nat.le_refl _), Nat.sub_self,
    List.set_cons_zero]

/-- Whatever stands among some stands at one of the places. -/
theorem exists_of_getElem?_filter {k : Nat} (h : (l.filter p)[k]? = some a) :
    ∃ n, l[n]? = some a ∧ p a = true ∧ rank p l n = k := by
  induction l generalizing k with
  | nil => cases h
  | cons x l ih =>
      by_cases hx : p x = true
      · rw [List.filter_cons_of_pos hx] at h
        cases k with
        | zero =>
            cases h
            exact ⟨0, rfl, hx, rfl⟩
        | succ k =>
            obtain ⟨n, hn, ha, hrank⟩ := ih h
            refine ⟨n + 1, hn, ha, ?_⟩
            rw [← hrank, rank, List.take_succ_cons, List.countP_cons_of_pos hx]
            rfl
      · rw [List.filter_cons_of_neg hx] at h
        obtain ⟨n, hn, ha, hrank⟩ := ih h
        refine ⟨n + 1, hn, ha, ?_⟩
        rw [← hrank, rank, List.take_succ_cons, List.countP_cons_of_neg hx]
        rfl

theorem rank_le_rank {m : Nat} (h : n ≤ m) : rank p l n ≤ rank p l m :=
  ((List.take_prefix_take_left h).sublist).countP_le

theorem rank_map {β : Type*} (f : β → α) (l : List β) (n : Nat) :
    rank p (l.map f) n = rank (p ∘ f) l n := by
  rw [rank, ← List.map_take, List.countP_map]
  rfl

theorem rank_append {l' : List α} (h : n ≤ l.length) : rank p (l ++ l') n = rank p l n := by
  rw [rank, List.take_append_of_le_length h]
  rfl

end Rank

end Almanac.Places
