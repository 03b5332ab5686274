import Mathlib.Data.UInt
import Mathlib.Tactic

/-!
Option areas of type, length and value: the byte 0 is padding, 255 ends the
area, and every other option is a type, a length and that many bytes, all of
them below `len`. An option that is cut off ends the area too.
-/

namespace UBoot.Library.OptionArea

/-- An option by its place, with the type and the length that stand there. -/
structure OptionAt where
  at_ : Nat
  code : UInt8
  length : Nat
  deriving DecidableEq

def optionAt (area : Nat → UInt8) (place : Nat) : OptionAt :=
  ⟨place, area place, (area (place + 1)).toNat⟩

def OptionAt.next (option : OptionAt) : Nat := option.at_ + 2 + option.length

def walk (area : Nat → UInt8) (len : Nat) : Nat → Nat → List OptionAt
  | 0, _ => []
  | fuel + 1, place =>
      if len ≤ place then []
      else if area place = 255 then []
      else if area place = 0 then walk area len fuel (place + 1)
      else if (optionAt area place).next ≤ len then
        optionAt area place :: walk area len fuel (optionAt area place).next
      else []

/-- The options from `place` on. -/
def options (area : Nat → UInt8) (len place : Nat) : List OptionAt :=
  walk area len (len - place) place

section Walk
variable {area : Nat → UInt8} {len place : Nat}

theorem next_above (area : Nat → UInt8) (place : Nat) : place + 2 ≤ (optionAt area place).next := by
  unfold OptionAt.next optionAt
  exact Nat.le_add_right _ _

theorem walk_past (fuel : Nat) (past : len ≤ place) : walk area len fuel place = [] := by
  cases fuel with
  | zero => rfl
  | succ fuel => rw [walk, if_pos past]

/-- More fuel than bytes changes nothing. -/
theorem walk_fuel (fuel : Nat) (enough : len - place ≤ fuel) :
    walk area len fuel place = options area len place := by
  unfold options
  induction fuel using Nat.strong_induction_on generalizing place with
  | _ fuel ih =>
    by_cases past : len ≤ place
    · rw [walk_past fuel past, walk_past _ past]
    · obtain ⟨bytes, count⟩ : ∃ bytes, len - place = bytes + 1 := ⟨len - place - 1, by omega⟩
      obtain ⟨more, double⟩ : ∃ more, fuel = more + 1 := ⟨fuel - 1, by omega⟩
      subst double
      rw [count, walk, walk, if_neg past, if_neg past]
      have further : ∀ next, place < next → walk area len more next = walk area len bytes next := by
        intro next forward
        have left := @ih more (Nat.lt_succ_self more) next (by omega)
        by_cases short : bytes < more + 1
        · rw [left, ih bytes short (by omega)]
        · have equal : bytes = more := by omega
          rw [equal]
      rw [further (place + 1) (Nat.lt_succ_self place),
        further _ (Nat.lt_of_lt_of_le (Nat.lt_add_of_pos_right Nat.two_pos) (next_above area place))]

theorem options_eq (inside : place < len) : options area len place =
    if area place = 255 then []
    else if area place = 0 then options area len (place + 1)
    else if (optionAt area place).next ≤ len then
      optionAt area place :: options area len (optionAt area place).next
    else [] := by
  obtain ⟨bytes, count⟩ : ∃ bytes, len - place = bytes + 1 := ⟨len - place - 1, by omega⟩
  have above := next_above area place
  rw [options, count, walk, if_neg (Nat.not_le_of_lt inside), walk_fuel bytes (by omega),
    walk_fuel bytes (by omega)]

theorem options_past (past : len ≤ place) : options area len place = [] := walk_past _ past

theorem options_end (inside : place < len) (closes : area place = 255) :
    options area len place = [] := by
  rw [options_eq inside, if_pos closes]

theorem options_pad (inside : place < len) (pad : area place = 0) :
    options area len place = options area len (place + 1) := by
  have notEnd : area place ≠ 255 := by
    rw [pad]
    decide
  rw [options_eq inside, if_neg notEnd, if_pos pad]

theorem options_whole (option : area place ≠ 255 ∧ area place ≠ 0)
    (whole : (optionAt area place).next ≤ len) : options area len place =
      optionAt area place :: options area len (optionAt area place).next := by
  have inside : place < len := Nat.lt_of_lt_of_le (by omega) (Nat.le_trans (next_above area place) whole)
  rw [options_eq inside, if_neg option.1, if_neg option.2, if_pos whole]

theorem options_cut (option : area place ≠ 255 ∧ area place ≠ 0)
    (cut : ¬ (optionAt area place).next ≤ len) : options area len place = [] := by
  by_cases past : len ≤ place
  · exact options_past past
  · rw [options_eq (Nat.lt_of_not_le past), if_neg option.1, if_neg option.2, if_neg cut]

/-- The walk goes forward. -/
theorem options_forward {option : OptionAt} (member : option ∈ options area len place) :
    place ≤ option.at_ := by
  induction bytes : len - place using Nat.strong_induction_on generalizing place with
  | _ bytes ih =>
    by_cases past : len ≤ place
    · rw [options_past past] at member
      exact absurd member List.not_mem_nil
    · rw [options_eq (Nat.lt_of_not_le past)] at member
      split at member
      · exact absurd member List.not_mem_nil
      split at member
      · have later := ih (len - (place + 1)) (by omega) member rfl
        exact Nat.le_of_succ_le later
      split at member
      · rcases List.mem_cons.mp member with here | later
        · rw [here]
          exact Nat.le_refl place
        · have above := next_above area place
          have further := ih _ (by omega) later rfl
          omega
      · exact absurd member List.not_mem_nil

end Walk

end UBoot.Library.OptionArea
