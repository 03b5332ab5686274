import UBoot.Library.Memory

/-!
Memories that are lines of so many bytes each: a byte has a line and a place in it.
-/

namespace UBoot.Library.Raster

open Library.Memory

universe u
variable {Byte : Type u}

def byteAt (mem : Nat → Byte) (length line place : Nat) : Byte := mem (line * length + place)

section Lines
variable {mem : Nat → Byte} {length line place first from_place : Nat}

theorem address_apart {other other_place : Nat} (within : place < length) (other_within : other_place < length) :
    line * length + place = other * length + other_place ↔ line = other ∧ place = other_place := by
  constructor
  · intro same
    have lines : line = other := by
      have quotient : (line * length + place) / length = (other * length + other_place) / length := by rw [same]
      rwa [Nat.mul_comm line, Nat.mul_comm other, Nat.mul_add_div (by omega), Nat.mul_add_div (by omega),
        Nat.div_eq_of_lt within, Nat.div_eq_of_lt other_within, Nat.add_zero, Nat.add_zero] at quotient
    subst lines
    exact ⟨rfl, by omega⟩
  · rintro ⟨rfl, rfl⟩
    rfl

theorem address_lt {other : Nat} (within : place < length) : line * length + place < other * length ↔ line < other := by
  constructor
  · intro less
    by_contra above
    have over_lines := Nat.mul_le_mul_right length (Nat.not_lt.mp above)
    omega
  · intro less
    have next := Nat.mul_le_mul_right length (Nat.succ_le_of_lt less)
    rw [Nat.succ_mul] at next
    omega

/-- Bytes that are written into one line. -/
theorem byte_at_row {bytes : List Byte} (inside : from_place + bytes.length ≤ length) (within : place < length) :
    byteAt (splice mem (first * length + from_place) bytes) length line place =
      if line = first ∧ from_place ≤ place then
        (bytes[place - from_place]?).getD (byteAt mem length line place)
      else byteAt mem length line place := by
  by_cases here : line = first ∧ from_place ≤ place
  · obtain ⟨rfl, behind⟩ := here
    rw [if_pos ⟨rfl, behind⟩, byteAt, byteAt, splice, if_pos (by omega), Nat.add_sub_add_left]
  · rw [if_neg here, byteAt, byteAt]
    apply splice_outside
    by_contra covered
    rw [not_or, Nat.not_lt, Nat.not_le] at covered
    obtain ⟨i, reached⟩ := Nat.exists_eq_add_of_le covered.1
    rw [Nat.add_assoc] at reached
    obtain ⟨same, place_eq⟩ := (address_apart within (by omega)).mp reached
    exact here ⟨same, by omega⟩

/-- A block of `count` lines, so many bytes of each, one line after the other. -/
theorem byte_at_block {width : Nat} {bytes : Nat → List Byte} (widths : ∀ i, (bytes i).length = width)
    (inside : from_place + width ≤ length) (within : place < length) (count : Nat) :
    byteAt ((List.range count).foldl
        (fun mem i => splice mem ((first + i) * length + from_place) (bytes i)) mem) length line place =
      if (first ≤ line ∧ line < first + count) ∧ from_place ≤ place then
        ((bytes (line - first))[place - from_place]?).getD (byteAt mem length line place)
      else byteAt mem length line place := by
  induction count with
  | zero =>
      rw [if_neg (by omega)]
      rfl
  | succ count ih =>
      rw [List.range_succ, List.foldl_append, List.foldl_cons, List.foldl_nil,
        byte_at_row (by rw [widths]; exact inside) within]
      by_cases last : line = first + count
      · subst last
        rw [if_neg (by omega)] at ih
        rw [ih, Nat.add_sub_cancel_left]
        by_cases behind : from_place ≤ place
        · rw [if_pos ⟨rfl, behind⟩, if_pos (by omega)]
        · rw [if_neg (by omega), if_neg (by omega)]
      · rw [if_neg (by omega), ih]
        by_cases inner : (first ≤ line ∧ line < first + count) ∧ from_place ≤ place
        · rw [if_pos inner, if_pos (by omega)]
        · rw [if_neg inner, if_neg (by omega)]

end Lines

/-! ### Single bytes, one write after the other -/

def stored (mem : Nat → Byte) (writes : List (Nat × Byte)) : Nat → Byte :=
  writes.foldl (fun mem write => Function.update mem write.1 write.2) mem

section Writes
variable {mem : Nat → Byte} {writes : List (Nat × Byte)} {address : Nat}

theorem stored_append (first second : List (Nat × Byte)) :
    stored mem (first ++ second) = stored (stored mem first) second := List.foldl_append

theorem stored_other (apart : ∀ write ∈ writes, write.1 ≠ address) : stored mem writes address = mem address := by
  induction writes generalizing mem with
  | nil => rfl
  | cons write rest ih =>
      have later := @ih (Function.update mem write.1 write.2) fun other member =>
        apart other (List.mem_cons_of_mem _ member)
      rw [Function.update_of_ne (apart write List.mem_cons_self).symm] at later
      exact later

/-- What has been written does not depend on what was there. -/
theorem stored_any (written : ∃ write ∈ writes, write.1 = address) (other : Nat → Byte) :
    stored mem writes address = stored other writes address := by
  induction writes generalizing mem other with
  | nil =>
      obtain ⟨write, member, -⟩ := written
      exact absurd member List.not_mem_nil
  | cons write rest ih =>
      by_cases later : ∃ write ∈ rest, write.1 = address
      · exact ih later _
      · have apart : ∀ write ∈ rest, write.1 ≠ address := fun write member same =>
          later ⟨write, member, same⟩
        obtain ⟨first, member, same⟩ := written
        rcases List.mem_cons.mp member with rfl | member
        · have left := @stored_other _ (Function.update mem first.1 first.2) rest address apart
          have right := @stored_other _ (Function.update other first.1 first.2) rest address apart
          rw [← same, Function.update_self] at left right
          rw [← same]
          exact left.trans right.symm
        · exact absurd same (apart first member)

/-- An address that is always given the same byte. -/
theorem stored_at {byte : Byte} (written : ∃ write ∈ writes, write.1 = address)
    (same : ∀ write ∈ writes, write.1 = address → write.2 = byte) : stored mem writes address = byte := by
  induction writes generalizing mem with
  | nil =>
      obtain ⟨write, member, -⟩ := written
      exact absurd member List.not_mem_nil
  | cons write rest ih =>
      by_cases later : ∃ write ∈ rest, write.1 = address
      · exact ih later fun other member => same other (List.mem_cons_of_mem _ member)
      · have apart : ∀ write ∈ rest, write.1 ≠ address := fun write member reached =>
          later ⟨write, member, reached⟩
        obtain ⟨first, member, reached⟩ := written
        rcases List.mem_cons.mp member with rfl | member
        · have alone := @stored_other _ (Function.update mem first.1 first.2) rest address apart
          rw [← reached, Function.update_self] at alone
          rw [← same first List.mem_cons_self reached, ← reached]
          exact alone
        · exact absurd reached (apart first member)

end Writes

end UBoot.Library.Raster
