import Mathlib.Data.UInt
import UBoot.Library.Memory

/-!
32-bit words stored with their most significant byte first, and reading back
what stands in the middle of a stored list.
-/

namespace UBoot.Library.BigEndian

open Memory

def wordBytes (value : Nat) : List UInt8 :=
  [UInt8.ofNat (value / 2 ^ 24), UInt8.ofNat (value / 2 ^ 16), UInt8.ofNat (value / 2 ^ 8),
    UInt8.ofNat value]

def word (mem : Nat → UInt8) (start : Nat) : Nat :=
  (mem start).toNat * 2 ^ 24 + (mem (start + 1)).toNat * 2 ^ 16 +
    (mem (start + 2)).toNat * 2 ^ 8 + (mem (start + 3)).toNat

@[simp] theorem word_bytes_length (value : Nat) : (wordBytes value).length = 4 := rfl

theorem word_lt (mem : Nat → UInt8) (start : Nat) : word mem start < 2 ^ 32 := by
  have first := (mem start).toNat_lt
  have second := (mem (start + 1)).toNat_lt
  have third := (mem (start + 2)).toNat_lt
  have fourth := (mem (start + 3)).toNat_lt
  unfold word
  omega

theorem word_congr {left right : Nat → UInt8} {start place : Nat}
    (same : ∀ i, i < 4 → left (start + i) = right (place + i)) :
    word left start = word right place := by
  have first : left start = right place := same 0 (by decide)
  unfold word
  rw [first, same 1 (by decide), same 2 (by decide), same 3 (by decide)]

theorem slice_middle (mem : Nat → UInt8) (start : Nat) (front middle back : List UInt8)
    (stored : slice mem start (front ++ middle ++ back).length = front ++ middle ++ back) :
    slice mem (start + front.length) middle.length = middle := by
  rw [List.length_append, List.length_append, slice_add, slice_add] at stored
  have lengths : (slice mem start front.length ++
      slice mem (start + front.length) middle.length).length = (front ++ middle).length := by
    simp
  have parts := (List.append_inj stored lengths).1
  exact (List.append_inj parts (by simp)).2

theorem word_of_slice (mem : Nat → UInt8) (start value : Nat) (bound : value < 2 ^ 32)
    (stored : slice mem start 4 = wordBytes value) : word mem start = value := by
  simp only [slice, wordBytes, List.range_succ, List.range_zero, List.nil_append, List.cons_append,
    List.map_cons, List.map_nil, List.cons.injEq, Nat.add_zero] at stored
  obtain ⟨first, second, third, fourth, -⟩ := stored
  unfold word
  rw [first, second, third, fourth]
  simp only [UInt8.toNat_ofNat']
  omega

theorem word_middle (mem : Nat → UInt8) (start value : Nat) (front back : List UInt8)
    (bound : value < 2 ^ 32)
    (stored : slice mem start (front ++ wordBytes value ++ back).length =
      front ++ wordBytes value ++ back) : word mem (start + front.length) = value :=
  word_of_slice mem _ value bound (slice_middle mem start front (wordBytes value) back stored)

end UBoot.Library.BigEndian
