import Mathlib.Tactic

/-!
Byte memories as total functions on addresses. `slice` reads a range and
`splice` overwrites one. `copy` is the same overwrite on a circular address
space, where the range may pass the top and continue at address zero.
-/

namespace UBoot.Library.Memory

universe u
variable {Byte : Type u}

def slice (mem : Nat → Byte) (start count : Nat) : List Byte :=
  (List.range count).map fun i => mem (start + i)

def splice (mem : Nat → Byte) (start : Nat) (bytes : List Byte) : Nat → Byte :=
  fun address =>
    if start ≤ address then (bytes[address - start]?).getD (mem address) else mem address

@[simp] theorem slice_length (mem : Nat → Byte) (start count : Nat) :
    (slice mem start count).length = count := by
  simp [slice]

theorem slice_getElem (mem : Nat → Byte) (start count i : Nat)
    (bound : i < (slice mem start count).length) :
    (slice mem start count)[i] = mem (start + i) := by
  simp [slice]

theorem slice_add (mem : Nat → Byte) (start first second : Nat) :
    slice mem start (first + second) =
      slice mem start first ++ slice mem (start + first) second := by
  simp [slice, List.range_add, Function.comp_def, Nat.add_assoc]

theorem slice_congr (left right : Nat → Byte) (start count : Nat)
    (same : ∀ i, i < count → left (start + i) = right (start + i)) :
    slice left start count = slice right start count := by
  apply List.map_congr_left
  intro i member
  exact same i (List.mem_range.mp member)

theorem splice_inside (mem : Nat → Byte) (start : Nat) (bytes : List Byte) (i : Nat)
    (bound : i < bytes.length) : splice mem start bytes (start + i) = bytes[i] := by
  simp [splice, bound]

theorem splice_outside (mem : Nat → Byte) (start : Nat) (bytes : List Byte) (address : Nat)
    (outside : address < start ∨ start + bytes.length ≤ address) :
    splice mem start bytes address = mem address := by
  unfold splice
  split
  · rename_i above
    have past : bytes.length ≤ address - start := by omega
    simp [List.getElem?_eq_none past]
  · rfl

theorem slice_splice_same (mem : Nat → Byte) (start : Nat) (bytes : List Byte) :
    slice (splice mem start bytes) start bytes.length = bytes := by
  apply List.ext_getElem
  · simp
  · intro i _ bound
    rw [slice_getElem, splice_inside mem start bytes i bound]

theorem slice_splice_outside (mem : Nat → Byte) (start other count : Nat) (bytes : List Byte)
    (apart : other + count ≤ start ∨ start + bytes.length ≤ other) :
    slice (splice mem start bytes) other count = slice mem other count := by
  apply slice_congr
  intro i bound
  apply splice_outside
  omega

theorem splice_append (mem : Nat → Byte) (start : Nat) (first second : List Byte) :
    splice (splice mem start first) (start + first.length) second =
      splice mem start (first ++ second) := by
  funext address
  unfold splice
  by_cases above : start ≤ address
  · by_cases later : start + first.length ≤ address
    · have past : first.length ≤ address - start := by omega
      have index : address - start - first.length = address - (start + first.length) := by omega
      rw [if_pos later, if_pos above, if_pos above, List.getElem?_append_right past, index,
        List.getElem?_eq_none past, Option.getD_none]
    · have within : address - start < first.length := by omega
      rw [if_neg later, if_pos above, if_pos above, List.getElem?_append_left within]
  · rw [if_neg above, if_neg (by omega), if_neg above]

/-- A copied range, byte by byte. -/
theorem splice_slice (mem source : Nat → Byte) (start first count address : Nat) :
    splice mem start (slice source first count) address =
      if start ≤ address ∧ address < start + count then source (first + (address - start))
      else mem address := by
  by_cases covered : start ≤ address ∧ address < start + count
  · obtain ⟨i, rfl⟩ := Nat.exists_eq_add_of_le covered.1
    have bound : i < (slice source first count).length := by
      rw [slice_length]
      omega
    rw [if_pos covered, splice_inside mem start _ i bound, slice_getElem, Nat.add_sub_cancel_left]
  · rw [if_neg covered]
    apply splice_outside
    rw [slice_length]
    omega

/-- A padded range, byte by byte. -/
theorem splice_replicate (mem : Nat → Byte) (start count : Nat) (byte : Byte) (address : Nat) :
    splice mem start (List.replicate count byte) address =
      if start ≤ address ∧ address < start + count then byte else mem address := by
  have constant : List.replicate count byte = slice (fun _ => byte) 0 count := by
    simp [slice]
  rw [constant, splice_slice]

theorem splice_nil (mem : Nat → Byte) (start : Nat) : splice mem start [] = mem := by
  funext address
  simp [splice]

section Circular

/-- Overwrites `count` addresses from `start` on, modulo `size`. -/
def copy (size : Nat) (mem : Nat → Byte) (start : Nat) (source : Nat → Byte) (count : Nat) :
    Nat → Byte :=
  fun address =>
    let distance := (address + (size - start % size)) % size
    if distance < count then source distance else mem address

theorem distance_of_offset (size start i : Nat) (fits : i < size) :
    ((start + i) % size + (size - start % size)) % size = i := by
  have positive : 0 < size := by omega
  have bound := Nat.mod_lt start positive
  rw [Nat.mod_add_mod]
  have split := Nat.mod_add_div start size
  have regroup : start + i + (size - start % size) = i + size * (start / size + 1) := by
    rw [Nat.mul_add, Nat.mul_one]
    omega
  rw [regroup, Nat.add_mul_mod_self_left, Nat.mod_eq_of_lt fits]

theorem copy_at (size : Nat) (mem : Nat → Byte) (start : Nat) (source : Nat → Byte)
    (count i : Nat) (fits : i < size) :
    copy size mem start source count ((start + i) % size) =
      if i < count then source i else mem ((start + i) % size) := by
  simp only [copy, distance_of_offset size start i fits]

/-- The same, with the addresses counted from a base below the range. -/
theorem copy_offset (size : Nat) (mem : Nat → Byte) (base offset : Nat) (source : Nat → Byte)
    (count i : Nat) (fits : offset + count ≤ size) (inside : i < size) :
    copy size mem (base + offset) source count ((base + i) % size) =
      if offset ≤ i ∧ i < offset + count then source (i - offset) else mem ((base + i) % size) := by
  by_cases above : offset ≤ i
  · have place : base + i = base + offset + (i - offset) := by omega
    rw [place, copy_at size mem (base + offset) source count (i - offset) (by omega)]
    by_cases covered : i - offset < count
    · rw [if_pos covered, if_pos ⟨above, by omega⟩]
    · rw [if_neg covered, if_neg (fun both => covered (by omega))]
  · have around : (base + i) % size = (base + offset + (i + size - offset)) % size := by
      have turn : base + offset + (i + size - offset) = base + i + size := by omega
      rw [turn, Nat.add_mod_right]
    rw [around, copy_at size mem (base + offset) source count _ (by omega), if_neg (by omega),
      if_neg (fun both => above both.1)]

theorem copy_zero (size : Nat) (mem : Nat → Byte) (start : Nat) (source : Nat → Byte) :
    copy size mem start source 0 = mem := by
  funext address
  simp [copy]

theorem copy_congr (size : Nat) (mem : Nat → Byte) (start : Nat) (left right : Nat → Byte)
    (count : Nat) (same : ∀ i, i < count → left i = right i) :
    copy size mem start left count = copy size mem start right count := by
  funext address
  simp only [copy]
  split
  · exact same _ ‹_›
  · rfl

/-- The distance of an address from the start, without the modulus. -/
theorem distance_cases (size start address : Nat) (positive : 0 < size) :
    (address + (size - start % size)) % size =
      if start % size ≤ address % size then address % size - start % size
      else address % size + size - start % size := by
  have startBound := Nat.mod_lt start positive
  have addressBound := Nat.mod_lt address positive
  rw [← Nat.mod_add_mod]
  split
  · have turn : address % size + (size - start % size) =
        (address % size - start % size) + size := by omega
    rw [turn, Nat.add_mod_right, Nat.mod_eq_of_lt (by omega)]
  · rw [Nat.mod_eq_of_lt (by omega)]
    omega

/-- The distance from an address further on. -/
theorem distance_later (size start first address : Nat) (positive : 0 < size)
    (fits : first ≤ size) :
    (address + (size - (start + first) % size % size)) % size =
      if first ≤ (address + (size - start % size)) % size then
        (address + (size - start % size)) % size - first
      else (address + (size - start % size)) % size + size - first := by
  have startBound := Nat.mod_lt start positive
  have addressBound := Nat.mod_lt address positive
  have place : (start + first) % size % size =
      if start % size + first < size then start % size + first
      else start % size + first - size := by
    rw [Nat.mod_mod, ← Nat.mod_add_mod]
    split
    · exact Nat.mod_eq_of_lt ‹_›
    · rw [Nat.mod_eq_sub_mod (by omega), Nat.mod_eq_of_lt (by omega)]
  rw [distance_cases size _ address positive, distance_cases size _ address positive, place]
  generalize start % size = s at startBound
  generalize address % size = a at addressBound
  split_ifs <;> omega

/-- A copy that goes on where a first one ends. -/
theorem copy_copy (size : Nat) (mem source : Nat → Byte) (start first second : Nat)
    (fits : first + second ≤ size) :
    copy size (copy size mem start source first) ((start + first) % size)
        (fun i => source (first + i)) second =
      copy size mem start source (first + second) := by
  by_cases positive : 0 < size
  · funext address
    simp only [copy, distance_later size start first address positive (by omega)]
    have bound := Nat.mod_lt (address + (size - start % size)) positive
    generalize (address + (size - start % size)) % size = distance at bound
    by_cases near : distance < first
    · rw [if_neg (show ¬ first ≤ distance by omega), if_neg (by omega), if_pos near,
        if_pos (by omega)]
    · rw [if_pos (show first ≤ distance by omega), if_neg near]
      by_cases middle : distance < first + second
      · have back : first + (distance - first) = distance := by omega
        rw [if_pos (by omega), if_pos middle, back]
      · rw [if_neg (by omega), if_neg middle]
  · have none : first = 0 ∧ second = 0 := by omega
    rw [none.1, none.2, copy_zero, copy_zero]

end Circular

end UBoot.Library.Memory
