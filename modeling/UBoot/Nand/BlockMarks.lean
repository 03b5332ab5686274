import UBoot.Nand.EraseCommand

/-!
The marks of bad blocks. ath_nand_block_isbad reads the pages at the offset it is given and behind
it, not the first pages of the block, and sets the state at the offset that has moved on.
-/

namespace UBoot.Nand.BlockMarks

open AthRwBuff AthBlocks EraseCommand

/-- The clean markers of a page are gone. -/
def marked (oob : Nat → UInt8) : Bool := oob 0 != 0xff || oob 1 != 0xff

/-- The factory mark: the first or the second page of the block does not begin with clean markers. -/
def factoryBad (mtd : MtdInfo) (driver : Driver) (block : Nat) : Bool :=
  marked (driver.oob (block * pagesPerBlock mtd)) || marked (driver.oob (block * pagesPerBlock mtd + 1))

def blockOf (mtd : MtdInfo) (ofs : Nat) : Nat := ofs / mtd.erasesize

def firstByte (mtd : MtdInfo) (ofs : Nat) : Nat := blockOf mtd ofs * mtd.erasesize

/-! ### The scan -/

section Scan
variable (mtd : MtdInfo) (driver : Driver) (ofs : Nat)

/-- What the pages at an offset and behind it say. -/
def scanned : Bool :=
  driver.fails driver.calls || marked (driver.oob (pageAt mtd ofs)) ||
    driver.fails (driver.calls + 1) || marked (driver.oob (pageAt mtd (ofs + mtd.writesize)))

/-- One of the reads that are made fails. -/
def unreadable : Bool :=
  driver.fails driver.calls ||
    !marked (driver.oob (pageAt mtd ofs)) && driver.fails (driver.calls + 1)

/-- Where the offset is when the state is set. -/
def recordedAt : Nat :=
  if driver.fails driver.calls || marked (driver.oob (pageAt mtd ofs)) then ofs
  else if driver.fails (driver.calls + 1) ||
      marked (driver.oob (pageAt mtd (ofs + mtd.writesize))) then ofs + mtd.writesize
  else ofs + mtd.writesize + mtd.writesize

/-- The state that is set. -/
def recordedState : BitVec 32 :=
  if unreadable mtd driver ofs then ATH_NAND_BLK_DONT_KNOW
  else if scanned mtd driver ofs then ATH_NAND_BLK_BAD
  else if spareBlank mtd (driver.oob (pageAt mtd (ofs + mtd.writesize))) then ATH_NAND_BLK_ERASED
  else ATH_NAND_BLK_GOOD

def readsMade : Nat :=
  if driver.fails driver.calls || marked (driver.oob (pageAt mtd ofs)) then 1 else 2

/-- One page of the scan. -/
theorem scan_page (count : Nat) (oob : Nat → UInt8) :
    scanMarkers mtd (count + 1) driver ofs oob =
      let read := { driver with calls := driver.calls + 1 }
      if driver.fails driver.calls then
        (true, athNandSetBlkState mtd read ofs ATH_NAND_BLK_DONT_KNOW)
      else if marked (driver.oob (pageAt mtd ofs)) then
        (true, athNandSetBlkState mtd read ofs ATH_NAND_BLK_BAD)
      else scanMarkers mtd count read (ofs + mtd.writesize) (driver.oob (pageAt mtd ofs)) := by
  rw [scanMarkers, nandReadRaw]
  dsimp only
  cases driver.fails driver.calls with
  | true => rfl
  | false => rfl

/-- The check of a block that the table does not know. -/
theorem check_unknown (active : driver.force = false)
    (unknown : athNandGetBlkState mtd driver.bbt ofs = ATH_NAND_BLK_DONT_KNOW) :
    athNandBlockIsbad mtd driver ofs = (scanned mtd driver ofs,
      athNandSetBlkState mtd { driver with calls := driver.calls + readsMade mtd driver ofs }
        (recordedAt mtd driver ofs) (recordedState mtd driver ofs)) := by
  rw [athNandBlockIsbad, if_neg (by rw [active]; exact Bool.false_ne_true), unknown]
  dsimp only
  rw [if_neg (by decide), if_neg (by decide), scan_page]
  dsimp only
  rw [scan_page]
  unfold recordedAt recordedState unreadable scanned readsMade
  cases driver.fails driver.calls with
  | true => rfl
  | false =>
      cases marked (driver.oob (pageAt mtd ofs)) with
      | true => rfl
      | false =>
          cases driver.fails (driver.calls + 1) with
          | true => rfl
          | false =>
              cases marked (driver.oob (pageAt mtd (ofs + mtd.writesize))) with
              | true => rfl
              | false => rfl

end Scan

/-- The answer is the one for the first byte of the block, and the factory mark of the block; it is
recorded for the block if the pages could be read, and for no other block. -/
structure OwnBlock (mtd : MtdInfo) (driver : Driver) (ofs : Nat) : Prop where
  same : (athNandBlockIsbad mtd driver ofs).1 = (athNandBlockIsbad mtd driver (firstByte mtd ofs)).1
  mark : (athNandBlockIsbad mtd driver ofs).1 = factoryBad mtd driver (blockOf mtd ofs)
  recorded : driver.force = false → driver.bbt.isSome = true →
    (athNandGetBlkState mtd driver.bbt ofs = ATH_NAND_BLK_DONT_KNOW →
      unreadable mtd driver ofs = false) →
    athNandGetBlkState mtd (athNandBlockIsbad mtd driver ofs).2.bbt ofs =
        ATH_NAND_BLK_BAD ∧ (athNandBlockIsbad mtd driver ofs).1 = true ∨
      (athNandGetBlkState mtd (athNandBlockIsbad mtd driver ofs).2.bbt ofs = ATH_NAND_BLK_ERASED ∨
        athNandGetBlkState mtd (athNandBlockIsbad mtd driver ofs).2.bbt ofs = ATH_NAND_BLK_GOOD) ∧
        (athNandBlockIsbad mtd driver ofs).1 = false
  others : ∀ other, blockOf mtd other ≠ blockOf mtd ofs →
    athNandGetBlkState mtd (athNandBlockIsbad mtd driver ofs).2.bbt other =
      athNandGetBlkState mtd driver.bbt other
  spare : (athNandBlockIsbad mtd driver ofs).2.oob = driver.oob

/-- The condition on the offset and the state. The table says of a known block what its mark says;
of an unknown one the pages that are scanned say it, from the offset and from the first byte, and
the offset stays in the block while they have clean markers. A read that fails forgets the block at
the offset, which then is in the block or is not known either. -/
def Meets (mtd : MtdInfo) (driver : Driver) (ofs : Nat) : Prop :=
  if driver.force = true then factoryBad mtd driver (blockOf mtd ofs) = false
  else if athNandGetBlkState mtd driver.bbt ofs = ATH_NAND_BLK_DONT_KNOW then
    scanned mtd driver ofs = factoryBad mtd driver (blockOf mtd ofs) ∧
      scanned mtd driver (firstByte mtd ofs) = factoryBad mtd driver (blockOf mtd ofs) ∧
      (driver.bbt.isSome = true → blockOf mtd (recordedAt mtd driver ofs) = blockOf mtd ofs ∨
        unreadable mtd driver ofs = true ∧
          athNandGetBlkState mtd driver.bbt (recordedAt mtd driver ofs) = ATH_NAND_BLK_DONT_KNOW)
  else factoryBad mtd driver (blockOf mtd ofs) =
    decide (athNandGetBlkState mtd driver.bbt ofs = ATH_NAND_BLK_BAD)

section Checks
variable {mtd : MtdInfo} {driver : Driver} {ofs : Nat}

theorem block_of_shift (mtd : MtdInfo) (ofs : Nat) : ofs >>> mtd.erasesizeShift = blockOf mtd ofs :=
  shift_div mtd ofs

theorem first_byte_block (mtd : MtdInfo) (ofs : Nat) :
    blockOf mtd (firstByte mtd ofs) = blockOf mtd ofs :=
  Nat.mul_div_cancel _ (erasesize_pos mtd)

theorem state_of_block (bbt : Option (Nat → BitVec 32)) {ofs other : Nat}
    (block : blockOf mtd ofs = blockOf mtd other) :
    athNandGetBlkState mtd bbt ofs = athNandGetBlkState mtd bbt other := by
  unfold athNandGetBlkState
  rw [block_of_shift, block_of_shift, block]

theorem check_forced (forced : driver.force = true) (ofs : Nat) :
    athNandBlockIsbad mtd driver ofs = (false, driver) := if_pos forced

theorem check_known (active : driver.force = false)
    (known : athNandGetBlkState mtd driver.bbt ofs ≠ ATH_NAND_BLK_DONT_KNOW) :
    athNandBlockIsbad mtd driver ofs =
      (decide (athNandGetBlkState mtd driver.bbt ofs = ATH_NAND_BLK_BAD), driver) := by
  rw [athNandBlockIsbad, if_neg (by rw [active]; exact Bool.false_ne_true)]
  dsimp only
  split_ifs with used bad
  · have other : athNandGetBlkState mtd driver.bbt ofs ≠ ATH_NAND_BLK_BAD := by
      intro bad
      rw [bad] at used
      exact absurd used (by decide)
    rw [decide_eq_false other]
  · rw [decide_eq_true bad]
  · exact absurd (state_unknown used bad) known

theorem recorded_small (mtd : MtdInfo) (driver : Driver) (ofs : Nat) :
    recordedState mtd driver ofs &&& 3#32 = recordedState mtd driver ofs := by
  unfold recordedState
  split_ifs
  · decide
  · decide
  · decide
  · decide

/-- The states behind the check of an unknown block. -/
theorem unknown_states (active : driver.force = false)
    (unknown : athNandGetBlkState mtd driver.bbt ofs = ATH_NAND_BLK_DONT_KNOW) (other : Nat) :
    athNandGetBlkState mtd (athNandBlockIsbad mtd driver ofs).2.bbt other =
      if driver.bbt.isSome = true ∧ blockOf mtd (recordedAt mtd driver ofs) = blockOf mtd other then
        recordedState mtd driver ofs
      else athNandGetBlkState mtd driver.bbt other := by
  rw [check_unknown mtd driver ofs active unknown]
  have set := @set_state_get mtd
    { driver with calls := driver.calls + readsMade mtd driver ofs } (recordedAt mtd driver ofs)
    other _ (recorded_small mtd driver ofs)
  rwa [block_of_shift, block_of_shift] at set

end Checks

/-- The answer is that of the block and is recorded for it alone, exactly when the condition on the
offset and the state holds. -/
theorem own_block_iff (mtd : MtdInfo) (driver : Driver) (ofs : Nat) :
    OwnBlock mtd driver ofs ↔ Meets mtd driver ofs := by
  unfold Meets
  cases active : driver.force with
  | true =>
      rw [if_pos rfl]
      have answer := @check_forced mtd driver active
      constructor
      · intro own
        have mark := own.mark
        rw [answer] at mark
        exact mark.symm
      · intro good
        refine ⟨?_, ?_, ?_, ?_, ?_⟩
        · rw [answer, answer]
        · rw [answer, good]
        · intro inactive
          rw [active] at inactive
          cases inactive
        · rw [answer]
          exact fun _ _ => rfl
        · rw [answer]
  | false =>
      rw [if_neg Bool.false_ne_true]
      have first := state_of_block driver.bbt (first_byte_block mtd ofs)
      by_cases unknown : athNandGetBlkState mtd driver.bbt ofs = ATH_NAND_BLK_DONT_KNOW
      · rw [if_pos unknown]
        have here := check_unknown mtd driver ofs active unknown
        have start := check_unknown mtd driver (firstByte mtd ofs) active (first.trans unknown)
        have states := @unknown_states mtd driver ofs active unknown
        constructor
        · intro own
          have mark := own.mark
          have same := own.same
          rw [here] at mark
          rw [here, start] at same
          refine ⟨mark, same.symm.trans mark, fun table => ?_⟩
          by_contra misplaced
          push Not at misplaced
          obtain ⟨elsewhere, lost⟩ := misplaced
          cases fails : unreadable mtd driver ofs with
          | true =>
              have kept := own.others _ elsewhere
              rw [states, if_pos ⟨table, rfl⟩, recordedState, if_pos fails] at kept
              exact lost fails kept.symm
          | false =>
              have recorded := own.recorded active table fun _ => fails
              rw [states, if_neg fun both => elsewhere both.2, unknown] at recorded
              rcases recorded with ⟨bad, -⟩ | ⟨used, -⟩
              · exact absurd bad (by decide)
              · exact absurd used (by decide)
        · rintro ⟨mark, start', place⟩
          refine ⟨?_, ?_, ?_, ?_, ?_⟩
          · rw [here, start]
            exact mark.trans start'.symm
          · rw [here]
            exact mark
          · intro _ table readable
            rw [states]
            rcases place table with block | ⟨fails, -⟩
            · rw [if_pos ⟨table, block⟩, here, recordedState,
                if_neg (by rw [readable unknown]; exact Bool.false_ne_true)]
              dsimp only
              split_ifs with bad blank
              · exact Or.inl ⟨rfl, bad⟩
              · exact Or.inr ⟨Or.inl rfl, Bool.eq_false_iff.mpr bad⟩
              · exact Or.inr ⟨Or.inr rfl, Bool.eq_false_iff.mpr bad⟩
            · rw [readable unknown] at fails
              cases fails
          · intro other apart
            rw [states]
            split_ifs with set
            · rcases place set.1 with block | ⟨fails, lost⟩
              · exact absurd (set.2.symm.trans block) apart
              · rw [recordedState, if_pos fails, ← lost]
                exact state_of_block _ set.2
            · rfl
          · rw [here]
            rfl
      · rw [if_neg unknown]
        have here := check_known active unknown
        have start := @check_known mtd driver (firstByte mtd ofs) active (by rwa [first])
        rw [first] at start
        constructor
        · intro own
          have mark := own.mark
          rw [here] at mark
          exact mark.symm
        · intro mark
          refine ⟨?_, ?_, ?_, ?_, ?_⟩
          · rw [here, start]
          · rw [here, mark]
          · intro _ _ _
            rw [here]
            dsimp only
            by_cases bad : athNandGetBlkState mtd driver.bbt ofs = ATH_NAND_BLK_BAD
            · exact Or.inl ⟨bad, decide_eq_true bad⟩
            · refine Or.inr ⟨?_, decide_eq_false bad⟩
              by_contra unused
              exact unknown (state_unknown unused bad)
          · rw [here]
            exact fun _ _ => rfl
          · rw [here]

/-- The first byte of an unknown block meets the condition, if the block has three pages, its first
two can be read, and the chip takes them from the address registers. -/
theorem meets_first_byte {mtd : MtdInfo} {driver : Driver} {block : Nat}
    (three : 3 ≤ pagesPerBlock mtd) (active : driver.force = false)
    (unknown : athNandGetBlkState mtd driver.bbt (block * mtd.erasesize) = ATH_NAND_BLK_DONT_KNOW)
    (readable : unreadable mtd driver (block * mtd.erasesize) = false)
    (first : pageAt mtd (block * mtd.erasesize) = block * pagesPerBlock mtd)
    (second : pageAt mtd (block * mtd.erasesize + mtd.writesize) = block * pagesPerBlock mtd + 1) :
    Meets mtd driver (block * mtd.erasesize) := by
  have extent := erasesize_pos mtd
  have start : blockOf mtd (block * mtd.erasesize) = block := Nat.mul_div_cancel _ extent
  have size : mtd.erasesize = mtd.writesize * pagesPerBlock mtd := by
    rw [MtdInfo.erasesize, MtdInfo.writesize, pagesPerBlock, ← Nat.pow_add,
      Nat.add_sub_cancel' mtd.pages]
  have room : mtd.writesize + mtd.writesize < mtd.erasesize := by
    have page := writesize_pos mtd
    have pages := Nat.mul_le_mul_left mtd.writesize three
    omega
  have scan : scanned mtd driver (block * mtd.erasesize) = factoryBad mtd driver block := by
    unfold unreadable at readable
    unfold scanned factoryBad
    rw [first] at readable ⊢
    rw [second]
    obtain ⟨works, again⟩ := Bool.or_eq_false_iff.mp readable
    rw [works]
    cases mark : marked (driver.oob (block * pagesPerBlock mtd)) with
    | true => simp
    | false =>
        rw [mark, Bool.not_false, Bool.true_and] at again
        rw [again]
        simp
  rw [Meets, if_neg (by rw [active]; exact Bool.false_ne_true), if_pos unknown, firstByte, start]
  refine ⟨scan, scan, fun _ => Or.inl ?_⟩
  have inside : ∀ ahead, ahead < mtd.erasesize → blockOf mtd (block * mtd.erasesize + ahead) = block := by
    intro ahead below
    rw [blockOf, Nat.mul_comm, Nat.mul_add_div extent, Nat.div_eq_of_lt below, Nat.add_zero]
  unfold recordedAt
  split_ifs
  · exact start
  · exact inside _ (by omega)
  · rw [Nat.add_assoc]
    exact inside _ room

/-- The table is empty, and block 1 has a factory mark. -/
def secondMarked : Driver := { probed with oob := fun page _ => if page = 64 then 0 else 0xff }

/-- A check at the last but one page of block 0 records block 1 as erased. -/
theorem next_block_recorded : ¬ OwnBlock largePageChip.toMtdInfo secondMarked 0x1f000 := by
  intro own
  have kept := own.others 0x20000 (by decide +kernel)
  exact absurd kept (by decide +kernel)

/-- So the marked block is a good one from then on. -/
example : (athNandBlockIsbad largePageChip.toMtdInfo
    (athNandBlockIsbad largePageChip.toMtdInfo secondMarked 0x1f000).2 0x20000).1 = false ∧
    (athNandBlockIsbad largePageChip.toMtdInfo secondMarked 0x20000).1 = true := by
  decide +kernel

end UBoot.Nand.BlockMarks
