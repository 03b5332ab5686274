import UBoot.Library.Memory

/-!
Stores into a memory as a list of places and bytes, and a text that is stored piece by piece, each
behind the one before.
-/

namespace UBoot.Library.Pieces

open Memory

universe u
variable {Byte : Type u}

abbrev Stores (Byte : Type u) := List (Nat × List Byte)

def apply (mem : Nat → Byte) (start : Nat) (stores : Stores Byte) : Nat → Byte :=
  stores.foldl (fun mem store => splice mem (start + store.1) store.2) mem

/-- The bytes of the pieces. -/
def size (pieces : List (List Byte)) : Nat := pieces.flatten.length

def placed : Nat → List (List Byte) → Stores Byte
  | _, [] => []
  | place, piece :: rest => (place, piece) :: placed (place + piece.length) rest

@[simp] theorem size_nil : size ([] : List (List Byte)) = 0 := rfl

@[simp] theorem size_cons (piece : List Byte) (rest : List (List Byte)) :
    size (piece :: rest) = piece.length + size rest := by
  rw [size, List.flatten_cons, List.length_append]
  rfl

@[simp] theorem size_append (front back : List (List Byte)) :
    size (front ++ back) = size front + size back := by
  rw [size, List.flatten_append, List.length_append]
  rfl

theorem apply_append (mem : Nat → Byte) (start : Nat) (first second : Stores Byte) :
    apply mem start (first ++ second) = apply (apply mem start first) start second :=
  List.foldl_append

/-- Pieces behind one another are one store. -/
theorem apply_placed (mem : Nat → Byte) (start place : Nat) (pieces : List (List Byte)) :
    apply mem start (placed place pieces) = splice mem (start + place) pieces.flatten := by
  induction pieces generalizing mem place with
  | nil => exact (splice_nil mem (start + place)).symm
  | cons piece rest inductive_hypothesis =>
      have later := inductive_hypothesis (splice mem (start + place) piece) (place + piece.length)
      rw [← Nat.add_assoc, splice_append] at later
      exact later

/-- The stores of a text stay below a limit where the text does. -/
theorem placed_below_iff {place limit : Nat} (start : place ≤ limit) (pieces : List (List Byte)) :
    (∀ store ∈ placed place pieces, store.1 + store.2.length ≤ limit) ↔
      place + size pieces ≤ limit := by
  induction pieces generalizing place with
  | nil => exact ⟨fun _ => start, fun _ _ member => absurd member List.not_mem_nil⟩
  | cons piece rest inductive_hypothesis =>
      rw [placed, List.forall_mem_cons, size_cons, ← Nat.add_assoc]
      constructor
      · rintro ⟨first, later⟩
        exact (inductive_hypothesis first).mp later
      · intro whole
        have first : place + piece.length ≤ limit := Nat.le_trans (Nat.le_add_right _ _) whole
        exact ⟨first, (inductive_hypothesis first).mpr whole⟩

end UBoot.Library.Pieces
