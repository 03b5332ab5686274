import UBoot.Bedbug.Disppc

/-!
find_opcode finds the entry whose opcode is the instruction under its mask, and there is one at most.
-/

namespace UBoot.Bedbug.FindOpcode

open Library.BitFields Tables Disppc

theorem find_loop_sound {instr fuel : Nat} {top bottom : Int} {op : Opcode}
    (found : findLoop instr fuel top bottom = some op) :
    op ∈ opcodes ∧ instr &&& op.mask = op.opcode := by
  induction fuel generalizing top bottom with
  | zero => cases found
  | succ fuel inductive_hypothesis =>
      rw [findLoop] at found
      split at found
      · dsimp only at found
        split at found
        · cases found
        · rename_i ptr entry
          split at found
          · exact inductive_hypothesis found
          · split at found
            · exact inductive_hypothesis found
            · rename_i not_below not_above
              cases found
              exact ⟨List.mem_of_getElem? entry, by omega⟩
      · cases found

/-! ### The order of the table -/

/-- The number of an opcode in its first six bits. -/
def primary (word : Nat) : Nat := field word 26 6

/-- An entry before another: its opcode is smaller, and where the first six bits are the same, so are
the masks. -/
def Before (left right : Opcode) : Prop :=
  left.opcode < right.opcode ∧ right.opcode < 2 ^ 32 ∧
    (primary left.opcode = primary right.opcode → left.mask = right.mask)

instance (left right : Opcode) : Decidable (Before left right) := inferInstanceAs (Decidable (_ ∧ _ ∧ _))

theorem primary_mono {left right : Nat} (le : left ≤ right) (small : right < 2 ^ 32) :
    primary left ≤ primary right := by
  rw [primary, primary, field, field, Nat.and_two_pow_sub_one_eq_mod, Nat.and_two_pow_sub_one_eq_mod,
    Nat.shiftRight_eq_div_pow, Nat.shiftRight_eq_div_pow]
  omega

theorem before_trans {left middle right : Opcode} (first : Before left middle) (second : Before middle right) :
    Before left right := by
  obtain ⟨less, middle_small, left_masks⟩ := first
  obtain ⟨more, right_small, right_masks⟩ := second
  refine ⟨less.trans more, right_small, ?_⟩
  intro same
  have lower := primary_mono less.le middle_small
  have upper := primary_mono more.le right_small
  exact (left_masks (by omega)).trans (right_masks (by omega))

instance : Trans Before Before Before := ⟨before_trans⟩

theorem opcodes_chain : opcodes.IsChain Before := by
  decide +kernel

theorem opcodes_ordered : opcodes.Pairwise Before := List.isChain_iff_pairwise.mp opcodes_chain

/-- Every mask has the first six bits. -/
theorem masks_primary : ∀ op ∈ opcodes, primary op.mask = 63 := by
  decide +kernel

/-- What a mask has all bits of, it leaves alone. -/
theorem field_masked {word mask shift bits : Nat} (whole : field mask shift bits = 2 ^ bits - 1) :
    field (word &&& mask) shift bits = field word shift bits := by
  rw [field, Nat.shiftRight_and_distrib, Nat.and_assoc, ← field, whole, field]

theorem masked_order {instr : Nat} (small : instr < 2 ^ 32) {op other : Opcode} (member : op ∈ opcodes)
    (other_member : other ∈ opcodes) (fits : instr &&& op.mask = op.opcode) :
    (Before other op → instr &&& other.mask > other.opcode) ∧
      (Before op other → instr &&& other.mask < other.opcode) := by
  have same : primary (instr &&& other.mask) = primary op.opcode := by
    rw [← fits, primary, primary, field_masked (masks_primary op member),
      field_masked (masks_primary other other_member)]
  have masked_small : instr &&& other.mask < 2 ^ 32 := Nat.lt_of_le_of_lt Nat.and_le_left small
  constructor
  · rintro ⟨less, bound, masks⟩
    by_contra above
    have lower := primary_mono (Nat.not_lt.mp above) (less.trans bound)
    have upper := primary_mono less.le bound
    rw [masks (by omega), fits] at above
    exact above less
  · rintro ⟨less, bound, masks⟩
    by_contra below
    have lower := primary_mono (Nat.not_lt.mp below) masked_small
    have upper := primary_mono less.le bound
    rw [← masks (by omega), fits] at below
    exact below less

/-! ### The search -/

theorem find_loop_finds {instr : Nat} (small : instr < 2 ^ 32) {op : Opcode} {k : Nat}
    (entry : opcodes[k]? = some op) (fits : instr &&& op.mask = op.opcode) {fuel : Nat} {top bottom : Int}
    (positive : 0 ≤ top) (within : bottom < opcodes.length) (above : top ≤ k) (below : (k : Int) ≤ bottom)
    (enough : bottom + 1 - top ≤ fuel) : findLoop instr fuel top bottom = some op := by
  induction fuel generalizing top bottom with
  | zero => omega
  | succ fuel inductive_hypothesis =>
      obtain ⟨idx, middle⟩ : ∃ idx : Nat, (top + bottom) / 2 = idx := ⟨((top + bottom) / 2).toNat, by omega⟩
      have bound : idx < opcodes.length := by omega
      obtain ⟨k_bound, k_entry⟩ := List.getElem?_eq_some_iff.mp entry
      have order := masked_order small (List.mem_of_getElem? entry) (List.getElem_mem bound) fits
      rw [findLoop, if_pos (above.trans below)]
      simp only [middle, Int.toNat_natCast, List.getElem?_eq_getElem bound]
      rcases Nat.lt_trichotomy idx k with less | rfl | more
      · have before : Before opcodes[idx] op := by
          rw [← k_entry]
          exact List.pairwise_iff_getElem.mp opcodes_ordered idx k bound k_bound less
        have greater := order.1 before
        rw [if_neg (by omega), if_pos greater]
        exact inductive_hypothesis (by omega) within (by omega) below (by omega)
      · rw [k_entry, if_neg (by omega), if_neg (by omega)]
      · have before : Before op opcodes[idx] := by
          rw [← k_entry]
          exact List.pairwise_iff_getElem.mp opcodes_ordered k idx k_bound bound more
        rw [if_pos (order.2 before)]
        exact inductive_hypothesis positive (by omega) above (by omega) (by omega)

theorem find_opcode_iff {instr : Nat} (small : instr < 2 ^ 32) {op : Opcode} :
    findOpcode instr = some op ↔ op ∈ opcodes ∧ instr &&& op.mask = op.opcode := by
  constructor
  · exact find_loop_sound
  · rintro ⟨member, fits⟩
    obtain ⟨k, bound, entry⟩ := List.getElem_of_mem member
    exact find_loop_finds small (List.getElem?_eq_some_iff.mpr ⟨bound, entry⟩) fits (Int.le_refl 0) (by omega)
      (by omega) (by omega) (by omega)

end UBoot.Bedbug.FindOpcode
