import Mathlib.Tactic

/-!
A queue that keeps its most recent entries, and a circular array that holds one. The array has a
first position and goes on at zero behind its last one.
-/

namespace UBoot.Library.BoundedQueue

universe u
variable {Item : Type u}

/-- The last `capacity` entries. -/
def keep (capacity : Nat) (queue : List Item) : List Item :=
  queue.drop (queue.length - capacity)

def push (capacity : Nat) (queue items : List Item) : List Item := keep capacity (queue ++ items)

def pop (queue : List Item) (count : Nat) : List Item × List Item :=
  (queue.take count, queue.drop count)

theorem keep_short {capacity : Nat} {queue : List Item} (short : queue.length ≤ capacity) :
    keep capacity queue = queue := by
  rw [keep, Nat.sub_eq_zero_of_le short, List.drop_zero]

/-- What is dropped first would be dropped later. -/
theorem push_push (capacity : Nat) (queue first second : List Item) :
    push capacity (push capacity queue first) second = push capacity queue (first ++ second) := by
  unfold push keep
  have shift : ((queue ++ first).drop ((queue ++ first).length - capacity) ++ second) =
      ((queue ++ first) ++ second).drop ((queue ++ first).length - capacity) := by
    rw [List.drop_append_of_le_length (Nat.sub_le _ _)]
  rw [shift, List.drop_drop, ← List.append_assoc]
  congr 1
  simp only [List.length_append, List.length_drop]
  omega

theorem push_nil {capacity : Nat} {queue : List Item} (short : queue.length ≤ capacity) :
    push capacity queue [] = queue := by
  rw [push, List.append_nil, keep_short short]

theorem push_room {capacity : Nat} {queue : List Item} (room : queue.length < capacity)
    (item : Item) : push capacity queue [item] = queue ++ [item] := by
  apply keep_short
  rw [List.length_append, List.length_singleton]
  exact room

theorem push_full {capacity : Nat} {queue : List Item} (positive : 0 < capacity)
    (full : queue.length = capacity) (item : Item) :
    push capacity queue [item] = queue.drop 1 ++ [item] := by
  have one : (queue ++ [item]).length - capacity = 1 := by
    rw [List.length_append, List.length_singleton, full]
    omega
  rw [push, keep, one, List.drop_append_of_le_length (by omega)]

section Circle
variable {capacity first : Nat} {cells : Nat → Item} {queue : List Item}

/-- The entries stand in the array one after the other, the oldest at `first`. -/
def InCircle (capacity : Nat) (cells : Nat → Item) (first : Nat) (queue : List Item) : Prop :=
  ∀ i (bound : i < queue.length), cells ((first + i) % capacity) = queue.get ⟨i, bound⟩

/-- The position behind another one. -/
theorem next_position (first : Nat) (inside : first < capacity) :
    (if first + 1 = capacity then 0 else first + 1) = (first + 1) % capacity := by
  by_cases last : first + 1 = capacity
  · rw [if_pos last, last, Nat.mod_self]
  · rw [if_neg last, Nat.mod_eq_of_lt (by omega)]

theorem in_circle_nil : InCircle capacity cells first [] :=
  fun _ bound => absurd bound (Nat.not_lt_zero _)

theorem in_circle_drop (holds : InCircle capacity cells first queue) (count : Nat) :
    InCircle capacity cells ((first + count) % capacity) (queue.drop count) := by
  intro i bound
  rw [List.length_drop] at bound
  have place := holds (count + i) (by omega)
  rw [Nat.mod_add_mod, Nat.add_assoc, place]
  simp

/-- Two positions of the array that are less than its size apart. -/
theorem position_apart {i j : Nat} (near : i < j) (close : j < i + capacity) :
    (first + i) % capacity ≠ (first + j) % capacity := by
  intro same
  have congruent : (first + j - (first + i)) % capacity = 0 :=
    Nat.sub_mod_eq_zero_of_mod_eq same.symm
  rw [Nat.add_sub_add_left, Nat.mod_eq_of_lt (by omega)] at congruent
  omega

/-- An entry goes behind the others while there is room. -/
theorem in_circle_concat (holds : InCircle capacity cells first queue)
    (room : queue.length < capacity) (item : Item) :
    InCircle capacity (Function.update cells ((first + queue.length) % capacity) item) first
      (queue ++ [item]) := by
  intro i bound
  rw [List.length_append, List.length_singleton] at bound
  by_cases last : i = queue.length
  · subst last
    simp
  · have before : i < queue.length := by omega
    rw [Function.update_of_ne (position_apart before (by omega)), holds i before]
    simp [List.getElem_append_left before]

/-- Entries go behind the others while there is room for all of them, in any pieces. -/
theorem in_circle_append {after : Nat → Item} {items : List Item}
    (holds : InCircle capacity cells first queue) (room : queue.length + items.length ≤ capacity)
    (new : ∀ j (bound : j < items.length), after ((first + queue.length + j) % capacity) = items[j])
    (old : ∀ place < capacity, (∀ j < items.length, place ≠ (first + queue.length + j) % capacity) →
      after place = cells place) : InCircle capacity after first (queue ++ items) := by
  intro i bound
  rw [List.length_append] at bound
  by_cases before : i < queue.length
  · have kept : after ((first + i) % capacity) = cells ((first + i) % capacity) := by
      apply old _ (Nat.mod_lt _ (by omega))
      intro j inside
      rw [Nat.add_assoc]
      exact position_apart (by omega) (by omega)
    rw [kept, holds i before]
    simp [List.getElem_append_left before]
  · have place := new (i - queue.length) (by omega)
    rw [Nat.add_assoc, Nat.add_sub_cancel' (by omega)] at place
    rw [place]
    simp [List.getElem_append_right (Nat.not_lt.mp before)]

end Circle

end UBoot.Library.BoundedQueue
