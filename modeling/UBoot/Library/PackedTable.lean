import Mathlib.Tactic

/-!
A table of two-bit entries, sixteen in each 32-bit word.
-/

namespace UBoot.Library.PackedTable

def entry (table : Nat → BitVec 32) (index : Nat) : BitVec 32 :=
  (table (index / 16) >>> (index % 16 * 2)) &&& 3#32

def put (table : Nat → BitVec 32) (index : Nat) (value : BitVec 32) (word : Nat) : BitVec 32 :=
  if word = index / 16 then
    (table word &&& ~~~(3#32 <<< (index % 16 * 2))) ||| (value <<< (index % 16 * 2))
  else table word

theorem mask_bit (bit : Nat) : (3#32).getLsbD bit = decide (bit < 2) := by
  rw [BitVec.getLsbD_ofNat]
  have mask := Nat.testBit_two_pow_sub_one 2 bit
  rw [show (3 : Nat) = 2 ^ 2 - 1 by rfl, mask]
  by_cases low : bit < 2
  · have narrow : bit < 32 := by omega
    simp [low, narrow]
  · simp [low]

/-- Two bits of a word that were written, read at the same or at another place. -/
theorem two_bits_get (word state : BitVec 32) {place other : Nat}
    (near : other < 16) (small : state &&& 3#32 = state) :
    (((word &&& ~~~(3#32 <<< (place * 2))) ||| (state <<< (place * 2))) >>> (other * 2)) &&& 3#32 =
      if place = other then state else (word >>> (other * 2)) &&& 3#32 := by
  apply BitVec.eq_of_getLsbD_eq
  intro bit inside
  have far : ∀ bit, 2 ≤ bit → state.getLsbD bit = false := by
    intro bit high
    have same := congrArg (fun word => word.getLsbD bit) small
    simp only [BitVec.getLsbD_and, mask_bit, Nat.not_lt.mpr high, decide_false, Bool.and_false] at same
    exact same.symm
  simp only [BitVec.getLsbD_and, BitVec.getLsbD_or, BitVec.getLsbD_not, BitVec.getLsbD_ushiftRight,
    BitVec.getLsbD_shiftLeft, mask_bit]
  by_cases two : bit < 2
  · have within : other * 2 + bit < 32 := by omega
    by_cases same : place = other
    · subst same
      have behind : ¬ place * 2 + bit < place * 2 := by omega
      simp [two, within, behind]
    · rw [if_neg same]
      simp only [BitVec.getLsbD_and, BitVec.getLsbD_ushiftRight, mask_bit]
      by_cases before : other * 2 + bit < place * 2
      · simp [two, within, before]
      · have apart : ¬ other * 2 + bit - place * 2 < 2 := by omega
        simp only [two, within, before, apart, far _ (Nat.not_lt.mp apart), decide_true,
          decide_false, Bool.not_false, Bool.and_true, Bool.and_false, Bool.or_false]
  · have zero := far bit (by omega)
    by_cases same : place = other
    · simp only [if_pos same, two, zero, decide_false, Bool.and_false]
    · simp only [if_neg same, BitVec.getLsbD_and, mask_bit, two, decide_false, Bool.and_false]

/-- Writing an entry changes no other. -/
theorem entry_put (table : Nat → BitVec 32) (index other : Nat) {value : BitVec 32}
    (small : value &&& 3#32 = value) :
    entry (put table index value) other = if index = other then value else entry table other := by
  unfold entry put
  by_cases word : other / 16 = index / 16
  · rw [if_pos word, two_bits_get _ _ (Nat.mod_lt other (by decide)) small]
    by_cases same : index = other
    · rw [if_pos (by rw [same]), if_pos same]
    · have place : ¬ index % 16 = other % 16 := by omega
      rw [if_neg place, if_neg same]
  · have same : ¬ index = other := by
      rintro rfl
      exact word rfl
    rw [if_neg word, if_neg same]

theorem entry_lt (table : Nat → BitVec 32) (index : Nat) : (entry table index).toNat < 4 := by
  have mask : (3#32).toNat = 2 ^ 2 - 1 := rfl
  rw [entry, BitVec.toNat_and, mask, Nat.and_two_pow_sub_one_eq_mod]
  exact Nat.mod_lt _ (by decide)

end UBoot.Library.PackedTable
