import Mathlib.Tactic

/-!
Fields of a word, each so many bits from a place on. A word that has nothing but some fixed bits and
its fields is put together from them.
-/

namespace UBoot.Library.BitFields

/-- The bits of a field, counted from zero. -/
def field (word shift bits : Nat) : Nat := (word >>> shift) &&& (2 ^ bits - 1)

def fieldMask (shift bits : Nat) : Nat := (2 ^ bits - 1) <<< shift

section Fields
variable {word shift bits : Nat}

theorem field_lt : field word shift bits < 2 ^ bits := by
  rw [field, Nat.and_two_pow_sub_one_eq_mod]
  exact Nat.mod_lt _ (Nat.two_pow_pos bits)

theorem test_mask (i : Nat) :
    (fieldMask shift bits).testBit i = (decide (shift ≤ i) && decide (i - shift < bits)) := by
  rw [fieldMask, Nat.testBit_shiftLeft, Nat.testBit_two_pow_sub_one]

/-- A field at its place is what its mask leaves of the word. -/
theorem field_placed : field word shift bits <<< shift = word &&& fieldMask shift bits := by
  apply Nat.eq_of_testBit_eq
  intro i
  rw [Nat.testBit_shiftLeft, Nat.testBit_and, test_mask, field, Nat.testBit_and,
    Nat.testBit_shiftRight, Nat.testBit_two_pow_sub_one]
  by_cases above : shift ≤ i
  · rw [Nat.add_sub_cancel' above, decide_eq_true above, Bool.true_and, Bool.true_and]
  · rw [decide_eq_false above, Bool.false_and, Bool.false_and, Bool.and_false]

end Fields

/-- The masks of some fields, by their places and widths, and a first mask. -/
def cover (first : Nat) (fields : List (Nat × Nat)) : Nat :=
  fields.foldl (fun mask place => mask ||| fieldMask place.1 place.2) first

/-- Some bits, and the fields of a word at their places. -/
def assemble (word first : Nat) (fields : List (Nat × Nat)) : Nat :=
  fields.foldl (fun built place => built ||| field word place.1 place.2 <<< place.1) first

theorem assemble_eq (word mask : Nat) (fields : List (Nat × Nat)) :
    assemble word (word &&& mask) fields = word &&& cover mask fields := by
  induction fields generalizing mask with
  | nil => rfl
  | cons place rest inductive_hypothesis =>
      unfold assemble cover
      rw [List.foldl_cons, List.foldl_cons, field_placed, ← Nat.and_or_distrib_left]
      exact inductive_hypothesis _

/-- A word with no other bits is the sum of its parts. -/
theorem assemble_whole {word mask : Nat} {fields : List (Nat × Nat)}
    (covered : word &&& cover mask fields = word) :
    assemble word (word &&& mask) fields = word :=
  (assemble_eq word mask fields).trans covered

end UBoot.Library.BitFields
