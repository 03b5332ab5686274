import Mathlib.Tactic

/-!
Lists that are sorted by a key. Such a list is settled by its groups, the elements with one key in
their order.
-/

namespace UBoot.Library.SortedGroups

universe u v
variable {α : Type u} {κ : Type v} [LinearOrder κ] (key : α → κ)

def SortedBy (xs : List α) : Prop := xs.Pairwise fun one other => key one ≤ key other

/-- The elements with a key. -/
def group (k : κ) (xs : List α) : List α := xs.filter fun x => key x = k

theorem group_cons (k : κ) (x : α) (xs : List α) :
    group key k (x :: xs) = if key x = k then x :: group key k xs else group key k xs := by
  unfold group
  rw [List.filter_cons]
  simp only [decide_eq_true_eq]

theorem mem_group {k : κ} {x : α} {xs : List α} : x ∈ group key k xs ↔ x ∈ xs ∧ key x = k := by
  unfold group
  rw [List.mem_filter, decide_eq_true_eq]

theorem group_append (k : κ) (xs ys : List α) :
    group key k (xs ++ ys) = group key k xs ++ group key k ys :=
  List.filter_append xs ys

variable {key}

/-- The heads of two sorted lists with the same groups have one key. -/
theorem head_key_le {x y : α} {xs ys : List α} (sorted : SortedBy key (x :: xs))
    (same : ∀ k, group key k (x :: xs) = group key k (y :: ys)) : key x ≤ key y := by
  have member : y ∈ group key (key y) (x :: xs) := by
    rw [same, group_cons, if_pos rfl]
    exact List.mem_cons_self
  rcases List.mem_cons.mp ((mem_group key).mp member).1 with rfl | later
  · exact le_refl _
  · exact (List.pairwise_cons.mp sorted).1 y later

theorem eq_of_groups {xs ys : List α} (sorted : SortedBy key xs) (also : SortedBy key ys)
    (same : ∀ k, group key k xs = group key k ys) : xs = ys := by
  induction xs generalizing ys with
  | nil =>
      cases ys with
      | nil => rfl
      | cons y ys =>
          have empty := same (key y)
          rw [group_cons, if_pos rfl] at empty
          cases empty
  | cons x xs inductive_hypothesis =>
      cases ys with
      | nil =>
          have empty := same (key x)
          rw [group_cons, if_pos rfl] at empty
          cases empty
      | cons y ys =>
          have same_key : key x = key y :=
            le_antisymm (head_key_le sorted same) (head_key_le also fun k => (same k).symm)
          have heads := same (key x)
          rw [group_cons, group_cons, if_pos rfl, if_pos same_key.symm, List.cons_eq_cons] at heads
          have tails (k : κ) : group key k xs = group key k ys := by
            have both := same k
            rw [group_cons, group_cons, ← same_key] at both
            split at both
            · exact (List.cons_eq_cons.mp both).2
            · exact both
          rw [heads.1, inductive_hypothesis (List.pairwise_cons.mp sorted).2
            (List.pairwise_cons.mp also).2 tails]

section Look
variable {β : Type*} {look : α → β} {seen : β → κ}

/-- A look that shows the key keeps the groups. -/
theorem group_map (shows : ∀ x, seen (look x) = key x) (k : κ) (xs : List α) :
    group seen k (xs.map look) = (group key k xs).map look := by
  unfold group
  rw [List.filter_map]
  refine congrArg (List.map look) (List.filter_congr fun x _ => ?_)
  rw [Function.comp_apply, shows]

theorem sorted_map (shows : ∀ x, seen (look x) = key x) {xs : List α} (sorted : SortedBy key xs) :
    SortedBy seen (xs.map look) := by
  unfold SortedBy
  rw [List.pairwise_map]
  simp only [shows]
  exact sorted

end Look

end UBoot.Library.SortedGroups
