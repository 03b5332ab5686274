import Mathlib.Tactic

/-!
A scan that keeps the first element with the largest key seen so far. A key of
zero marks an element that is not to be taken.
-/

namespace UBoot.Library.FirstMax

universe u
variable {Item : Type u} (key : Item → Nat)

/-- The element that is kept, or none before there is one. -/
def keep (best : Option Item) (item : Item) : Option Item :=
  if key item > (best.map key).getD 0 then some item else best

def firstMax (items : List Item) : Option Item := items.foldl (keep key) none

/-- Where the kept element stands. -/
structure IsFirstMax (items : List Item) (best : Item) : Prop where
  positive : 0 < key best
  split : ∃ front back, items = front ++ best :: back ∧
    (∀ item ∈ front, key item < key best) ∧ ∀ item ∈ back, key item ≤ key best

theorem first_max_append (items : List Item) (item : Item) :
    firstMax key (items ++ [item]) = keep key (firstMax key items) item := by
  simp [firstMax]

theorem first_max_spec (items : List Item) :
    (firstMax key items = none ∧ ∀ item ∈ items, key item = 0) ∨
      ∃ best, firstMax key items = some best ∧ IsFirstMax key items best := by
  induction items using List.reverseRecOn with
  | nil => exact Or.inl ⟨rfl, fun item member => by cases member⟩
  | append_singleton items item ih =>
      rw [first_max_append]
      rcases ih with ⟨unset, zeros⟩ | ⟨best, kept, positive, front, back, rfl, before, after⟩
      · rw [unset]
        by_cases larger : key item > 0
        · right
          refine ⟨item, by simp [keep, larger], larger, items, [], rfl, ?_, by simp⟩
          intro other member
          rw [zeros other member]
          exact larger
        · left
          refine ⟨by simp [keep, larger], ?_⟩
          intro other member
          rcases List.mem_append.mp member with early | last
          · exact zeros other early
          · rw [List.mem_singleton.mp last]
            omega
      · rw [kept]
        right
        by_cases larger : key item > key best
        · refine ⟨item, by simp [keep, larger], by omega, front ++ best :: back, [], rfl, ?_, by simp⟩
          intro other member
          rcases List.mem_append.mp member with early | late
          · exact lt_trans (before other early) larger
          · rcases List.mem_cons.mp late with rfl | behind
            · exact larger
            · exact lt_of_le_of_lt (after other behind) larger
        · refine ⟨best, by simp [keep, larger], positive, front, back ++ [item], by simp, before, ?_⟩
          intro other member
          rcases List.mem_append.mp member with early | last
          · exact after other early
          · rw [List.mem_singleton.mp last]
            omega

theorem is_first_max_mem {items : List Item} {best : Item} (kept : IsFirstMax key items best) :
    best ∈ items ∧ ∀ item ∈ items, key item ≤ key best := by
  obtain ⟨-, front, back, rfl, before, after⟩ := kept
  refine ⟨by simp, ?_⟩
  intro item member
  rcases List.mem_append.mp member with early | late
  · exact Nat.le_of_lt (before item early)
  · rcases List.mem_cons.mp late with rfl | behind
    · exact le_rfl
    · exact after item behind

theorem first_max_some {items : List Item} {best : Item} (kept : firstMax key items = some best) :
    IsFirstMax key items best := by
  rcases first_max_spec key items with ⟨unset, -⟩ | ⟨other, found, first⟩
  · rw [unset] at kept
    cases kept
  · rw [found] at kept
    cases kept
    exact first

theorem first_max_none {items : List Item} (unset : firstMax key items = none) :
    ∀ item ∈ items, key item = 0 := by
  rcases first_max_spec key items with ⟨-, zeros⟩ | ⟨other, found, -⟩
  · exact zeros
  · rw [found] at unset
    cases unset

/-- Keeping is not disturbed by what comes behind a largest element. -/
theorem keep_largest (best : Item) (back : List Item) (after : ∀ item ∈ back, key item ≤ key best) :
    back.foldl (keep key) (some best) = some best := by
  induction back with
  | nil => rfl
  | cons item back ih =>
      have small := after item (List.mem_cons_self ..)
      have kept : keep key (some best) item = some best := by
        simp [keep, Nat.not_lt.mpr small]
      rw [List.foldl_cons, kept]
      exact ih fun other member => after other (List.mem_cons_of_mem item member)

theorem first_max_of_split {front back : List Item} {best : Item} (positive : 0 < key best)
    (before : ∀ item ∈ front, key item < key best) (after : ∀ item ∈ back, key item ≤ key best) :
    firstMax key (front ++ best :: back) = some best := by
  have taken : keep key (firstMax key front) best = some best := by
    rcases first_max_spec key front with ⟨unset, -⟩ | ⟨other, found, first⟩
    · rw [unset]
      simp [keep, positive]
    · rw [found]
      have smaller := before other (is_first_max_mem key first).1
      simp [keep, smaller]
  unfold firstMax at taken ⊢
  rw [List.foldl_append, List.foldl_cons, taken]
  exact keep_largest key best back after

end UBoot.Library.FirstMax
