import Mathlib.Tactic

/-!
A device of `limit` bytes in blocks of `size` bytes, some of them bad. A transfer
that begins at an address moves by a whole block as long as its block is bad,
and then uses the good blocks from there on.
-/

namespace UBoot.Library.GoodBlocks

variable (size limit : Nat) (good : Nat → Bool)

/-- Bytes of good blocks from `front` on. -/
def goodBytes (front : Nat) : Nat :=
  ((Finset.Ico front limit).filter fun addr => good (addr / size)).card

/-- The address from which the transfer really begins. -/
def landing (front : Nat) : Option Nat :=
  ((List.range (limit / size + 1)).map (front + · * size)).find?
    fun addr => decide (addr < limit) && good (addr / size)

/-- Bytes that a transfer from `front` can move before the end of the device. -/
def room (front : Nat) : Nat :=
  match landing size limit good front with
  | some addr => goodBytes size limit good addr
  | none => 0

variable {size limit : Nat} {good : Nat → Bool}

theorem good_bytes_le (front : Nat) : goodBytes size limit good front ≤ limit - front := by
  have all := Finset.card_filter_le (Finset.Ico front limit) fun addr => good (addr / size) = true
  rw [Nat.card_Ico] at all
  exact all

theorem good_bytes_end {front : Nat} (behind : limit ≤ front) :
    goodBytes size limit good front = 0 := by
  have bound := @good_bytes_le size limit good front
  omega

theorem good_bytes_split {front middle : Nat} (order : front ≤ middle) (inside : middle ≤ limit) :
    goodBytes size limit good front =
      ((Finset.Ico front middle).filter fun addr => good (addr / size)).card +
        goodBytes size limit good middle := by
  have apart : Disjoint ((Finset.Ico front middle).filter fun addr => good (addr / size) = true)
      ((Finset.Ico middle limit).filter fun addr => good (addr / size) = true) :=
    Finset.disjoint_filter_filter (Finset.Ico_disjoint_Ico_consecutive front middle limit)
  unfold goodBytes
  rw [← Finset.card_union_of_disjoint apart, ← Finset.filter_union,
    Finset.Ico_union_Ico_eq_Ico order inside]

theorem same_block {front addr : Nat} (count : Nat) (fits : front % size + count ≤ size)
    (after : front ≤ addr) (before : addr < front + count) : addr / size = front / size := by
  have positive : 0 < size := by omega
  have whole := Nat.div_add_mod front size
  apply Nat.div_eq_of_lt_le
  · rw [Nat.mul_comm]
    omega
  · rw [Nat.succ_mul, Nat.mul_comm]
    omega

theorem good_bytes_piece {front count : Nat} (usable : good (front / size) = true)
    (fits : front % size + count ≤ size) (inside : front + count ≤ limit) :
    goodBytes size limit good front = count + goodBytes size limit good (front + count) := by
  rw [good_bytes_split (Nat.le_add_right front count) inside, Finset.filter_true_of_mem,
    Nat.card_Ico, Nat.add_sub_cancel_left]
  intro addr member
  obtain ⟨after, before⟩ := Finset.mem_Ico.mp member
  rw [same_block count fits after before]
  exact usable

theorem good_bytes_bad {front : Nat} (marked : good (front / size) = false)
    (aligned : front % size = 0) :
    goodBytes size limit good front = goodBytes size limit good (front + size) := by
  have outside : ∀ last, last ≤ front + size →
      ((Finset.Ico front last).filter fun addr => good (addr / size)).card = 0 := by
    intro last order
    rw [Finset.card_eq_zero, Finset.filter_eq_empty_iff]
    intro addr member
    obtain ⟨after, before⟩ := Finset.mem_Ico.mp member
    rw [same_block size (by omega) after (by omega), marked]
    decide
  by_cases inside : front + size ≤ limit
  · rw [good_bytes_split (Nat.le_add_right front size) inside, outside _ le_rfl, Nat.zero_add]
  · rw [good_bytes_end (Nat.le_of_not_le inside)]
    exact outside limit (by omega)

/-- No good block from here on, no good bytes. -/
theorem good_bytes_none {front : Nat} (marked : ∀ addr, front ≤ addr → addr < limit →
    good (addr / size) = false) : goodBytes size limit good front = 0 := by
  unfold goodBytes
  rw [Finset.card_eq_zero, Finset.filter_eq_empty_iff]
  intro addr member
  obtain ⟨after, before⟩ := Finset.mem_Ico.mp member
  rw [marked addr after before]
  decide

theorem good_bytes_mono {front later : Nat} (order : front ≤ later) :
    goodBytes size limit good later ≤ goodBytes size limit good front :=
  Finset.card_le_card (Finset.filter_subset_filter _ (Finset.Ico_subset_Ico_left order))

theorem landing_end {front : Nat} (behind : limit ≤ front) :
    landing size limit good front = none := by
  unfold landing
  rw [List.find?_eq_none]
  intro addr member
  obtain ⟨index, -, rfl⟩ := List.mem_map.mp member
  have outside : ¬ front + index * size < limit := by omega
  simp [outside]

theorem landing_good {front : Nat} (inside : front < limit) (usable : good (front / size) = true) :
    landing size limit good front = some front := by
  unfold landing
  rw [List.range_succ_eq_map, List.map_cons, List.find?_cons_of_pos]
  · simp
  · simp [inside, usable]

theorem landing_bad {front : Nat} (positive : 0 < size) (marked : good (front / size) = false) :
    landing size limit good front = landing size limit good (front + size) := by
  have last : ¬ front + size + limit / size * size < limit := by
    have whole := Nat.div_add_mod limit size
    have short := Nat.mod_lt limit positive
    rw [Nat.mul_comm] at whole
    omega
  unfold landing
  rw [List.range_succ_eq_map, List.map_cons, List.find?_cons_of_neg (by simp [marked]),
    ← List.range_succ_eq_map, List.range_succ, List.map_append, List.find?_append,
    List.map_map]
  have later : (List.range (limit / size)).map ((front + · * size) ∘ Nat.succ) =
      (List.range (limit / size)).map (front + size + · * size) := by
    apply List.map_congr_left
    intro index _
    simp only [Function.comp, Nat.succ_mul]
    omega
  rw [later, List.map_singleton, List.find?_singleton]
  simp [last]

theorem room_end {front : Nat} (behind : limit ≤ front) : room size limit good front = 0 := by
  simp only [room, landing_end behind]

theorem room_good {front : Nat} (inside : front < limit) (usable : good (front / size) = true) :
    room size limit good front = goodBytes size limit good front := by
  simp only [room, landing_good inside usable]

theorem room_bad {front : Nat} (positive : 0 < size) (marked : good (front / size) = false) :
    room size limit good front = room size limit good (front + size) := by
  simp only [room, landing_bad positive marked]

theorem room_aligned {front : Nat} (positive : 0 < size) (aligned : front % size = 0) :
    room size limit good front = goodBytes size limit good front := by
  by_cases inside : front < limit
  · cases usable : good (front / size) with
    | true => exact room_good inside usable
    | false =>
        rw [room_bad positive usable, good_bytes_bad usable aligned]
        exact room_aligned positive (by rw [Nat.add_mod_right, aligned])
  · rw [room_end (by omega), good_bytes_end (by omega)]
termination_by limit - front

/-- A piece of a good block is moved, and the transfer goes on behind it. -/
theorem room_piece {front count : Nat} (usable : good (front / size) = true)
    (fits : front % size + count ≤ size) (inside : front + count ≤ limit)
    (positive : 0 < count) :
    room size limit good front = count + room size limit good (front + count) := by
  rw [room_good (by omega) usable, good_bytes_piece usable fits inside]
  congr 1
  by_cases whole : front % size + count = size
  · refine (room_aligned (by omega) ?_).symm
    have quotient := Nat.div_add_mod front size
    have next : front + count = size * (front / size + 1) := by
      rw [Nat.mul_add]
      omega
    rw [next]
    exact Nat.mul_mod_right size _
  · by_cases more : front + count < limit
    · refine (room_good more ?_).symm
      have same : (front + count) / size = front / size :=
        same_block (count + 1) (by omega) (by omega) (by omega)
      rw [same]
      exact usable
    · rw [room_end (by omega), good_bytes_end (by omega)]

theorem room_le (positive : 0 < size) (front : Nat) :
    room size limit good front ≤ goodBytes size limit good front := by
  by_cases inside : front < limit
  · cases usable : good (front / size) with
    | true => rw [room_good inside usable]
    | false =>
        rw [room_bad positive usable]
        exact (room_le positive (front + size)).trans (good_bytes_mono (Nat.le_add_right front size))
  · rw [room_end (by omega)]
    exact Nat.zero_le _
termination_by limit - front

/-- A good byte makes room, if the device has whole blocks. -/
theorem room_zero (positive : 0 < size) (whole : size ∣ limit) {front : Nat}
    (none : room size limit good front = 0) {addr : Nat} (after : front ≤ addr)
    (before : addr < limit) : good (addr / size) = false := by
  cases usable : good (front / size) with
  | true =>
      rw [room_good (by omega) usable] at none
      have member : front ∈ (Finset.Ico front limit).filter fun addr => good (addr / size) := by
        rw [Finset.mem_filter, Finset.mem_Ico]
        exact ⟨⟨le_rfl, by omega⟩, usable⟩
      rw [goodBytes, Finset.card_eq_zero] at none
      rw [none] at member
      cases member
  | false =>
      have later : room size limit good (front + size) = 0 := by
        rw [← room_bad positive usable, none]
      by_cases far : front + size ≤ addr
      · exact room_zero positive whole later far before
      · by_cases same : addr / size = front / size
        · rw [same]
          exact usable
        · -- the byte lies in the next block, in which the transfer would begin
          have next : addr / size = (front + size) / size := by
            have low : front / size ≤ addr / size := Nat.div_le_div_right after
            have high : addr / size ≤ (front + size) / size := Nat.div_le_div_right (by omega)
            rw [Nat.add_div_right front positive] at high ⊢
            omega
          have inside : front + size < limit := by
            obtain ⟨count, rfl⟩ := whole
            have index : addr / size + 1 ≤ count := Nat.div_lt_of_lt_mul before
            have place := Nat.lt_mul_div_succ (front + size) positive
            rw [← next] at place
            exact lt_of_lt_of_le place (Nat.mul_le_mul_left size index)
          rw [next]
          exact room_zero positive whole later le_rfl inside
termination_by limit - front

end UBoot.Library.GoodBlocks
