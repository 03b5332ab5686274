import Mathlib.Data.Nat.Bitwise
import Mathlib.Tactic

/-!
crc32 of lib_generic/crc32.c, with the table as make_crc_table builds it. One
step of the register is injective for a fixed byte, so data that differ only in
front of a common tail have different checksums as soon as the registers differ
where the tail begins.
-/

namespace UBoot.Lib.Crc32

def poly : Nat := 0xedb88320

def crcBit (c : Nat) : Nat := if c &&& 1 = 1 then poly ^^^ (c >>> 1) else c >>> 1

def crcTable (n : Nat) : Nat := crcBit^[8] n

/-- DO1. -/
def crcStep (crc : Nat) (byte : UInt8) : Nat :=
  crcTable ((crc ^^^ byte.toNat) &&& 0xff) ^^^ (crc >>> 8)

def crcLoop (crc : Nat) (bytes : List UInt8) : Nat := bytes.foldl crcStep crc

def crc32 (crc : Nat) (bytes : List UInt8) : Nat := crcLoop (crc ^^^ 0xffffffff) bytes ^^^ 0xffffffff

theorem crc_bit_lt (c : Nat) (bound : c < 2 ^ 32) : crcBit c < 2 ^ 32 := by
  have half : c >>> 1 < 2 ^ 32 := by
    rw [Nat.shiftRight_eq_div_pow]
    omega
  unfold crcBit
  split
  · exact Nat.xor_lt_two_pow (by decide) half
  · exact half

theorem crc_table_lt (n : Nat) (bound : n < 2 ^ 32) : crcTable n < 2 ^ 32 := by
  have steps : ∀ k, crcBit^[k] n < 2 ^ 32 := by
    intro k
    induction k with
    | zero => exact bound
    | succ k ih =>
        rw [Function.iterate_succ_apply']
        exact crc_bit_lt _ ih
  exact steps 8

theorem low_byte (n : Nat) : n &&& 0xff = n % 2 ^ 8 := Nat.and_two_pow_sub_one_eq_mod n 8

theorem crc_step_lt (crc : Nat) (byte : UInt8) (bound : crc < 2 ^ 32) :
    crcStep crc byte < 2 ^ 32 := by
  have index : (crc ^^^ byte.toNat) &&& 0xff < 2 ^ 32 := by
    rw [low_byte]
    omega
  have shifted : crc >>> 8 < 2 ^ 32 := by
    rw [Nat.shiftRight_eq_div_pow]
    omega
  exact Nat.xor_lt_two_pow (crc_table_lt _ index) shifted

theorem crc_loop_lt (crc : Nat) (bytes : List UInt8) (bound : crc < 2 ^ 32) :
    crcLoop crc bytes < 2 ^ 32 := by
  induction bytes generalizing crc with
  | nil => exact bound
  | cons byte rest ih => exact ih (crcStep crc byte) (crc_step_lt crc byte bound)

theorem crc32_lt (bytes : List UInt8) : crc32 0 bytes < 2 ^ 32 :=
  Nat.xor_lt_two_pow (crc_loop_lt _ bytes (by decide)) (by decide)

/-- The table index whose entry has the given high byte. -/
def tableIndex (high : Nat) : Nat :=
  ((List.range 256).find? fun n => crcTable n >>> 24 == high).getD 0

theorem table_index_high : ∀ n < 256, tableIndex (crcTable n >>> 24) = n := by decide +kernel

theorem crc_step_high (crc : Nat) (byte : UInt8) (bound : crc < 2 ^ 32) :
    crcStep crc byte >>> 24 = crcTable ((crc ^^^ byte.toNat) &&& 0xff) >>> 24 := by
  have gone : crc >>> 8 >>> 24 = 0 := by
    rw [← Nat.shiftRight_add, Nat.shiftRight_eq_div_pow]
    exact Nat.div_eq_of_lt bound
  rw [crcStep, Nat.shiftRight_xor_distrib, gone, Nat.xor_zero]

theorem crc_step_injective {left right : Nat} (byte : UInt8) (leftBound : left < 2 ^ 32)
    (rightBound : right < 2 ^ 32) (same : crcStep left byte = crcStep right byte) :
    left = right := by
  have index : (left ^^^ byte.toNat) &&& 0xff = (right ^^^ byte.toNat) &&& 0xff := by
    have high := congrArg (· >>> 24) same
    simp only [crc_step_high _ _ leftBound, crc_step_high _ _ rightBound] at high
    have leftSmall : (left ^^^ byte.toNat) &&& 0xff < 256 := by
      rw [low_byte]
      omega
    have rightSmall : (right ^^^ byte.toNat) &&& 0xff < 256 := by
      rw [low_byte]
      omega
    rw [← table_index_high _ leftSmall, high, table_index_high _ rightSmall]
  have rest : left >>> 8 = right >>> 8 := by
    rw [crcStep, crcStep, index] at same
    exact Nat.xor_right_inj.mp same
  have low : left % 2 ^ 8 = right % 2 ^ 8 := by
    rw [low_byte, low_byte, Nat.xor_mod_two_pow, Nat.xor_mod_two_pow] at index
    exact Nat.xor_left_inj.mp index
  rw [Nat.shiftRight_eq_div_pow, Nat.shiftRight_eq_div_pow] at rest
  omega

theorem crc_loop_injective {left right : Nat} (bytes : List UInt8) (leftBound : left < 2 ^ 32)
    (rightBound : right < 2 ^ 32) (same : crcLoop left bytes = crcLoop right bytes) :
    left = right := by
  induction bytes generalizing left right with
  | nil => exact same
  | cons byte rest ih =>
      exact crc_step_injective byte leftBound rightBound
        (ih (crc_step_lt left byte leftBound) (crc_step_lt right byte rightBound) same)

/-- A common tail does not hide a difference. -/
theorem crc32_ne_of_front {front other : List UInt8} (tail : List UInt8)
    (differs : crcLoop 0xffffffff front ≠ crcLoop 0xffffffff other) :
    crc32 0 (front ++ tail) ≠ crc32 0 (other ++ tail) := by
  intro same
  have loops := Nat.xor_left_inj.mp same
  unfold crcLoop at loops
  rw [List.foldl_append, List.foldl_append] at loops
  exact differs (crc_loop_injective tail (crc_loop_lt _ front (by decide))
    (crc_loop_lt _ other (by decide)) loops)

example : crc32 0 [49, 50, 51, 52, 53, 54, 55, 56, 57] = 0xcbf43926 := by decide +kernel

end UBoot.Lib.Crc32
