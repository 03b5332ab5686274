import Mathlib.Tactic

/-!
Masks of unsigned 32-bit numbers, as division and remainder.
-/

namespace UBoot.Library.Bits

/-- A mask that clears the low bits. -/
theorem round_down {addr shift : Nat} (narrow : shift < 32) (bound : addr < 2 ^ 32) :
    addr &&& ((2 ^ 32 - 2 ^ shift) % 2 ^ 32) = addr / 2 ^ shift * 2 ^ shift := by
  have positive : 0 < 2 ^ shift := Nat.two_pow_pos shift
  have below : 2 ^ shift < 2 ^ 32 := Nat.pow_lt_pow_right (by decide) narrow
  rw [Nat.mod_eq_of_lt (Nat.sub_lt (Nat.two_pow_pos 32) positive), Nat.mul_comm]
  apply Nat.eq_of_testBit_eq
  intro bit
  have mask : 2 ^ 32 - 2 ^ shift = 2 ^ 32 - ((2 ^ shift - 1) + 1) := by omega
  rw [Nat.testBit_and, mask, Nat.testBit_two_pow_sub_succ (by omega), Nat.testBit_two_pow_sub_one,
    Nat.testBit_two_pow_mul, Nat.testBit_div_two_pow]
  by_cases low : bit < shift
  · simp [low]
  · by_cases high : bit < 32
    · simp [low, high, Nat.not_lt.mp low]
    · have zero : addr.testBit bit = false :=
        Nat.testBit_lt_two_pow (lt_of_lt_of_le bound (Nat.pow_le_pow_right (by decide) (by omega)))
      simp [zero, Nat.not_lt.mp low]

/-- What is left behind such a mask. -/
theorem minus_round_down {addr shift : Nat} (narrow : shift < 32) (bound : addr < 2 ^ 32) :
    addr - (addr &&& ((2 ^ 32 - 2 ^ shift) % 2 ^ 32)) = addr % 2 ^ shift := by
  rw [round_down narrow bound, Nat.mod_eq_sub_div_mul]

end UBoot.Library.Bits
