import UBoot.Lib.Strings

/-!
The numbers of printf in a base up to 16, without a prefix and without padding, and what
simple_strtoul makes of them.
-/

namespace UBoot.Lib.Numbers

open Strings

/-- %u, %x or %o of a number. -/
def number (base n : Nat) : List UInt8 := (Nat.toDigits base n).map fun c => UInt8.ofNat c.toNat

/-- The same with zeros in front, up to a width. -/
def padded (base width n : Nat) : List UInt8 := (number base n).leftpad width 48

def digitText (d : Nat) : UInt8 := UInt8.ofNat (Nat.digitChar d).toNat

theorem digit_text (d : Nat) (bound : d < 16) : isxdigit (digitText d) = true ∧
    digitValue (digitText d) = d ∧ (digitText d = 48 ↔ d = 0) ∧ (d < 10 → isdigit (digitText d) = true) := by
  have all : ∀ d < 16, isxdigit (digitText d) = true ∧ digitValue (digitText d) = d ∧
      (digitText d = 48 ↔ d = 0) ∧ (d < 10 → isdigit (digitText d) = true) := by
    decide +kernel
  exact all d bound

section Bases
variable {base : Nat} (low : 2 ≤ base)
include low

theorem number_eq (n : Nat) : number base n =
    (if n < base then [] else number base (n / base)) ++ [digitText (n % base)] := by
  unfold number
  rw [Nat.toDigits_eq_if low]
  split
  · rename_i digit
    rw [List.map_singleton, Nat.mod_eq_of_lt digit, List.nil_append]
    rfl
  · rw [List.map_append, List.map_singleton]
    rfl

/-- A number has no zero in front. -/
theorem number_head (high : base ≤ 16) (n : Nat) :
    ∃ c rest, number base n = c :: rest ∧ (c = 48 → n = 0 ∧ rest = []) := by
  induction n using Nat.strong_induction_on with
  | _ n inductive_hypothesis =>
      rw [number_eq low]
      split
      · rename_i digit
        refine ⟨_, [], List.nil_append _, fun zero => ⟨?_, rfl⟩⟩
        rw [(digit_text _ (by rw [Nat.mod_eq_of_lt digit]; omega)).2.2.1, Nat.mod_eq_of_lt digit] at zero
        exact zero
      · rename_i large
        have positive : 0 < n / base := Nat.div_pos (Nat.not_lt.mp large) (by omega)
        obtain ⟨c, rest, front, leading⟩ := inductive_hypothesis (n / base)
          (Nat.div_lt_self (by omega) low)
        refine ⟨c, rest ++ [digitText (n % base)], by rw [front]; rfl, fun zero => ?_⟩
        exact absurd (leading zero).1 (by omega)

theorem number_digits (high : base ≤ 16) (n : Nat) : ∀ c ∈ number base n, ∃ d < base, c = digitText d := by
  induction n using Nat.strong_induction_on with
  | _ n inductive_hypothesis =>
      have last : ∃ d < base, digitText (n % base) = digitText d :=
        ⟨_, Nat.mod_lt n (by omega), rfl⟩
      rw [number_eq low]
      split
      · rw [List.nil_append]
        exact List.forall_mem_singleton.mpr last
      · rename_i large
        exact List.forall_mem_append.mpr ⟨inductive_hypothesis _ (Nat.div_lt_self (by omega) low),
          List.forall_mem_singleton.mpr last⟩

theorem number_read (high : base ≤ 16) (n : Nat) (tail : List UInt8) :
    strtoulLoop base (number base n ++ tail) 0 = strtoulLoop base tail (n % 2 ^ 32) := by
  have digit_read (d result : Nat) (digit : d < base) (behind : List UInt8) :
      strtoulLoop base (digitText d :: behind) result =
        strtoulLoop base behind ((result * base + d) % 2 ^ 32) := by
    obtain ⟨valid, value, -⟩ := digit_text d (by omega)
    rw [strtoulLoop, valid, value, Bool.true_and, if_pos (decide_eq_true digit)]
  induction n using Nat.strong_induction_on generalizing tail with
  | _ n inductive_hypothesis =>
      have last := Nat.mod_lt n (show base > 0 by omega)
      rw [number_eq low]
      split
      · rename_i digit
        rw [List.nil_append, List.singleton_append, digit_read _ _ last, Nat.zero_mul, Nat.zero_add,
          Nat.mod_eq_of_lt digit]
      · rename_i large
        rw [List.append_assoc, List.singleton_append,
          inductive_hypothesis _ (Nat.div_lt_self (by omega) low), digit_read _ _ last]
        congr 1
        rw [Nat.add_mod, Nat.mul_mod, Nat.mod_mod, ← Nat.mul_mod, ← Nat.add_mod, Nat.mul_comm,
          Nat.div_add_mod]

theorem strtoul_number (high : base ≤ 16) (n : Nat) :
    simpleStrtoul (number base n) base = ⟨n % 2 ^ 32, []⟩ := by
  obtain ⟨c, rest, front, leading⟩ := number_head low high n
  have loop := number_read low high n []
  rw [List.append_nil, front] at loop
  rw [front]
  by_cases zero : c = 48
  · obtain ⟨rfl, rfl⟩ := leading zero
    subst zero
    rw [simpleStrtoul, if_neg (by omega)]
    · rfl
    · exact fun _ _ same => nomatch same
  · have plain : simpleStrtoul (c :: rest) base = strtoulLoop base (c :: rest) 0 := by
      unfold simpleStrtoul
      split
      · rename_i same
        exact absurd (List.cons_eq_cons.mp same).1 zero
      · rename_i same
        exact absurd (List.cons_eq_cons.mp same).1 zero
      · rw [if_neg (by omega)]
    rw [plain, loop]
    rfl

theorem number_length {width n : Nat} (bound : n < base ^ width) (positive : 0 < width) :
    (number base n).length ≤ width := by
  induction width generalizing n with
  | zero => exact absurd positive (Nat.lt_irrefl 0)
  | succ width inductive_hypothesis =>
      rw [number_eq low, List.length_append, List.length_singleton]
      split
      · exact Nat.succ_le_succ (Nat.zero_le width)
      · rename_i large
        have fewer : n / base < base ^ width :=
          Nat.div_lt_of_lt_mul (by rw [Nat.mul_comm, ← Nat.pow_succ]; exact bound)
        have more : 0 < width := by
          rcases Nat.eq_zero_or_pos width with rfl | more
          · rw [Nat.pow_zero, Nat.lt_one_iff, Nat.div_eq_zero_iff] at fewer
            omega
          · exact more
        exact Nat.succ_le_succ (inductive_hypothesis fewer more)

theorem padded_length {width n : Nat} (bound : n < base ^ width) (positive : 0 < width) :
    (padded base width n).length = width := by
  rw [padded, List.length_leftpad]
  exact Nat.max_eq_left (number_length low bound positive)

end Bases

end UBoot.Lib.Numbers
