import UBoot.Flash.Protection

/-!
One sector of the board's flash, unprotected, erased and written from a buffer
of its size: the sequence that saveenv performs.
-/

namespace UBoot.Flash.BoardSector

open Lib.Strings Library.NorFlash AthFlash SectRanges FlashWrite FlashCommands Protection

def sectorAddr (sector : Nat) : Nat := cfgFlashBase + sector * cfgFlashSectorSize

def sectorLast (sector : Nat) : Nat := sectorAddr sector + cfgFlashSectorSize - 1

theorem sector_end_eq {state : FlashState} (other : Nat)
    (inside : other < flashGetGeom.sectorCount) :
    state.bank.sectorEnd other = sectorLast other := by
  have wellFormed := flash_get_geom_well_formed state.protect
  by_cases next : other + 1 < state.bank.sectorCount
  · have joint := sector_end_next wellFormed next
    have begins := @bank_start state (other + 1)
    have stop : state.bank.sectorEnd other + 1 = state.bank.start (other + 1) := joint
    rw [begins] at stop
    unfold sectorLast sectorAddr cfgFlashSectorSize at *
    omega
  · have last : other = state.bank.sectorCount - 1 := by
      have bound : other < state.bank.sectorCount := inside
      omega
    have whole := sector_end_last wellFormed
    have top : state.bank.sectorEnd other = state.bank.bEnd := by rw [last]; exact whole
    have index : other = 63 := last
    rw [top, bank_b_end, index]
    decide

theorem scan_one_sector {state : FlashState} {sector : Nat} (clear : state.protect sector = 0) :
    hitsProtected state.bank (sectorAddr sector) (sectorLast sector) = false := by
  apply List.any_eq_false.mpr
  intro i member hit
  have inside : i < state.bank.sectorCount := List.mem_range.mp member
  rw [bank_start, bank_e_addr] at hit
  simp only [Bool.and_eq_true, decide_eq_true_eq, bne_iff_ne] at hit
  obtain ⟨⟨begins, ends⟩, flagged⟩ := hit
  have same : i = sector := by
    unfold sectorLast sectorAddr cfgFlashSectorSize at *
    omega
  rw [same] at flagged
  exact flagged clear

theorem scan_flagged_sector {state : FlashState} {sector : Nat}
    (valid : sector < flashGetGeom.sectorCount) (flagged : state.protect sector ≠ 0) :
    hitsProtected state.bank (sectorAddr sector) (sectorLast sector) = true := by
  refine List.any_eq_true.mpr ⟨sector, List.mem_range.mpr valid, ?_⟩
  rw [bank_start, bank_e_addr]
  simp only [Bool.and_eq_true, decide_eq_true_eq, bne_iff_ne]
  refine ⟨⟨?_, ?_⟩, flagged⟩
  · unfold sectorLast sectorAddr cfgFlashSectorSize
    omega
  · unfold sectorAddr cfgFlashSectorSize
    omega

/-- flash_write takes a whole sector only if there is one at the address and its flag is clear. -/
theorem write_sector_accepted {state : FlashState} {sector : Nat}
    (accepted : (flashWrite state.banks (sectorAddr sector) cfgFlashSectorSize).rcode = errOk) :
    sector < flashGetGeom.sectorCount ∧ state.protect sector = 0 := by
  have some_bytes : cfgFlashSectorSize ≠ 0 := by decide
  by_cases valid : sector < flashGetGeom.sectorCount
  · refine ⟨valid, ?_⟩
    by_contra flagged
    have bound : sector < 64 := valid
    have last : toUlong ((sectorAddr sector : Int) + cfgFlashSectorSize - 1) = sectorLast sector := by
      unfold toUlong sectorLast sectorAddr cfgFlashBase cfgFlashSectorSize
      omega
    have firstBank : addr2info state.banks (sectorAddr sector) = some 0 := by
      rw [addr2info_board, if_pos]
      unfold sectorAddr cfgFlashBase cfgFlashSectorSize cfgFlashSize
      omega
    have lastBank : addr2info state.banks (sectorLast sector) = some 0 := by
      rw [addr2info_board, if_pos]
      unfold sectorLast sectorAddr cfgFlashBase cfgFlashSectorSize cfgFlashSize
      omega
    have touched : (state.banks.drop 0).take (0 + 1 - 0) = [state.bank] := rfl
    simp only [flashWrite, last, firstBank, lastBank, touched, List.any_cons, List.any_nil,
      scan_flagged_sector valid flagged, Bool.or_false, some_bytes, if_false, if_true] at accepted
    cases accepted
  · have outside : addr2info state.banks (sectorAddr sector) = none := by
      have bound : ¬ sector < 64 := valid
      rw [addr2info_board, if_neg]
      unfold sectorAddr cfgFlashBase cfgFlashSectorSize cfgFlashSize
      omega
    simp only [flashWrite, outside, some_bytes, if_false] at accepted
    cases accepted

section Sector
variable {state : FlashState} {sector : Nat} (valid : sector < flashGetGeom.sectorCount)
include valid

theorem sector_last_lt : sectorLast sector < 2 ^ 32 := by
  have bound : sector < 64 := valid
  unfold sectorLast sectorAddr cfgFlashBase cfgFlashSectorSize
  omega

theorem fill_one_sector :
    flashFillSectRanges state.banks (sectorAddr sector) (sectorLast sector) =
      ⟨0, [((sector : Int), (sector : Int))], 1⟩ := by
  have wellFormed := flash_get_geom_well_formed state.protect
  have ordered : sectorAddr sector ≤ sectorLast sector := by
    unfold sectorLast cfgFlashSectorSize
    omega
  have isStart : state.bank.IsStart (sectorAddr sector) := ⟨sector, valid, rfl⟩
  have isEnd : state.bank.IsEnd (sectorLast sector) :=
    ⟨sector, valid, sector_end_eq sector valid⟩
  have step : bankStep state.bank (sectorAddr sector) (sectorLast sector) =
      .take sector sector (toUlong (sectorLast sector + 1)) := by
    rcases bank_step_cases wellFormed ordered bank_known (sector_last_lt valid) with
      ⟨s, t, _, inside, begins, ends, step⟩ | ⟨s, _, _, past, _⟩ | ⟨_, _, _, atStart, _⟩ |
      ⟨_, notStart, _⟩
    · have first : s = sector := by
        have here : sectorAddr s = sectorAddr sector := begins
        unfold sectorAddr cfgFlashSectorSize at here
        omega
      have last : t = sector := by
        have stop : sectorLast t = sectorLast sector :=
          (sector_end_eq t inside).symm.trans ends
        unfold sectorLast sectorAddr cfgFlashSectorSize at stop
        omega
      rw [first, last] at step
      exact step
    · obtain ⟨t, inside, ends⟩ := isEnd
      have reach := sector_end_le_b_end wellFormed inside
      exact absurd (ends ▸ reach) (Nat.not_le.mpr past)
    · exact absurd isEnd (atStart isStart).1
    · exact absurd isStart notStart
  simp [flashFillSectRanges, FlashState.banks, ordered, step]

theorem protect_one_sector (p : UInt8) :
    flashSectProtect state.banks p (sectorAddr sector) (sectorLast sector) =
      ⟨0, [protectRange state.bank p sector sector]⟩ := by
  rw [flashSectProtect, fill_one_sector valid]
  simp [FlashState.banks, bank_known]

theorem erase_one_sector :
    flashSectErase state.banks (sectorAddr sector) (sectorLast sector) =
      ⟨0, [(state.bank, (sector : Int), (sector : Int))]⟩ := by
  rw [flashSectErase, fill_one_sector valid]
  simp [FlashState.banks, eraseCalls]

theorem erase_all_one_sector (chip : Chip) (address : Nat) :
    eraseAll chip [(state.bank, (sector : Int), (sector : Int))] address =
      if address / cfgFlashSectorSize = sector then 0xff else chip address := by
  have bound : sector < 64 := valid
  have size : state.bank.size / state.bank.sectorCount = cfgFlashSectorSize := bank_sector_size
  have turns : ((sector : Int) + 1 - sector).toNat = 1 := by omega
  have sent : athSpiSendAddr (toUlong (((sector : Int) + (0 : Nat)) * cfgFlashSectorSize)) =
      sector * cfgFlashSectorSize := by
    unfold athSpiSendAddr toUlong cfgFlashSectorSize
    omega
  have place : sector * cfgFlashSectorSize / cfgFlashSectorSize = sector :=
    Nat.mul_div_cancel sector (by decide)
  simp only [eraseAll, List.foldl_cons, List.foldl_nil, flashErase, size, turns, List.range_one,
    athSpiSectorErase, sent, eraseBlock, place]

theorem write_one_sector (clear : state.protect sector = 0) :
    flashWrite state.banks (sectorAddr sector) cfgFlashSectorSize =
      ⟨errOk, [⟨state.bank, 0, sectorAddr sector, cfgFlashSectorSize⟩]⟩ := by
  have bound : sector < 64 := valid
  have below := sector_last_lt valid
  have last : toUlong (((sectorAddr sector + cfgFlashSectorSize : Nat) : Int) - 1) =
      sectorLast sector := by
    unfold toUlong
    unfold sectorLast cfgFlashSectorSize at *
    omega
  have firstBank : addr2info state.banks (sectorAddr sector) = some 0 := by
    rw [addr2info_board, if_pos]
    unfold sectorAddr cfgFlashBase cfgFlashSectorSize cfgFlashSize
    omega
  have lastBank : addr2info state.banks (sectorLast sector) = some 0 := by
    rw [addr2info_board, if_pos]
    unfold sectorLast sectorAddr cfgFlashBase cfgFlashSectorSize cfgFlashSize
    omega
  have room : toUlong (state.bank.start 0 + state.bank.size - sectorAddr sector) ≥
      cfgFlashSectorSize := by
    have base : state.bank.start 0 = cfgFlashBase := rfl
    have size : state.bank.size = cfgFlashSize := rfl
    rw [base, size]
    unfold toUlong sectorAddr cfgFlashBase cfgFlashSectorSize cfgFlashSize
    omega
  have len : (if toUlong (state.bank.start 0 + state.bank.size - sectorAddr sector) >
      cfgFlashSectorSize then cfgFlashSectorSize
      else toUlong (state.bank.start 0 + state.bank.size - sectorAddr sector)) =
      cfgFlashSectorSize := by
    split <;> omega
  have some_bytes : cfgFlashSectorSize ≠ 0 := by decide
  have touched : (state.banks.drop 0).take (0 + 1 - 0) = [state.bank] := rfl
  push_cast at last
  simp only [flashWrite, last, firstBank, lastBank, touched, List.any_cons, List.any_nil,
    scan_one_sector clear, Bool.or_self, some_bytes, if_false, Bool.false_eq_true, writeBanks,
    Nat.pos_of_ne_zero some_bytes, if_true, len]

/-- Erased and written in one piece, the sector holds the source; the other sectors stay. -/
theorem rewrite_one_sector (chip : Chip) (source : Nat → UInt8) (address : Nat) :
    writeAll source (eraseAll chip [(state.bank, (sector : Int), (sector : Int))])
        [⟨state.bank, 0, sectorAddr sector, cfgFlashSectorSize⟩] address =
      if address / cfgFlashSectorSize = sector then
        source (address - sector * cfgFlashSectorSize)
      else chip address := by
  have bound : sector < 64 := valid
  have offset : sectorAddr sector - cfgFlashBase = sector * cfgFlashSectorSize :=
    Nat.add_sub_cancel_left ..
  have range : InFlash cfgFlashBase cfgFlashSize (sectorAddr sector) cfgFlashSectorSize := by
    refine ⟨Nat.le_add_right _ _, ?_, by decide, by decide⟩
    unfold sectorAddr cfgFlashBase cfgFlashSectorSize cfgFlashSize
    omega
  have aligned : ChunksFit (sectorAddr sector - cfgFlashBase) cfgFlashSectorSize := by
    left
    have page : sector * cfgFlashSectorSize % athSpiPageSize = 0 := by
      unfold cfgFlashSectorSize athSpiPageSize
      omega
    rw [offset, bytesThisPage, page]
    decide
  -- The sector has been erased, so every byte of it takes the new value.
  have erased : ∀ i, i < cfgFlashSectorSize →
      eraseAll chip [(state.bank, (sector : Int), (sector : Int))]
        (sectorAddr sector - cfgFlashBase + i) = 0xff := by
    intro i below
    rw [erase_all_one_sector valid, offset, if_pos]
    unfold cfgFlashSectorSize at *
    omega
  have inside := (write_buff_inside_iff cfgFlashBase cfgFlashSize (fun i => source (0 + i))
    (sectorAddr sector) cfgFlashSectorSize range).mpr aligned
  have written := write_buff_fits cfgFlashBase cfgFlashSize _ (fun i => source (0 + i))
    (sectorAddr sector) cfgFlashSectorSize range erased inside address
  have covered : (sector * cfgFlashSectorSize ≤ address ∧
      address < sector * cfgFlashSectorSize + cfgFlashSectorSize) ↔
      address / cfgFlashSectorSize = sector := by
    unfold cfgFlashSectorSize
    omega
  rw [offset, Nat.zero_add, erase_all_one_sector valid] at written
  rw [writeAll, List.foldl_cons, List.foldl_nil, written]
  by_cases here : address / cfgFlashSectorSize = sector
  · rw [if_pos (covered.mpr here), if_pos here]
  · rw [if_neg (fun there => here (covered.mp there)), if_neg here, if_neg here]

end Sector

end UBoot.Flash.BoardSector
