import UBoot.Library.Runs
import UBoot.Flash.FlashCommands
import UBoot.Flash.SectErase

/-!
The flash and its protection table under sequences of `protect`, `erase` and
`cp`. flash_write refuses a range with a protected sector unless the end of the
range has wrapped around; flash_erase of the serial flash driver does not look
at the table at all.
-/

namespace UBoot.Flash.Protection

open Lib.Strings Library.Runs AthFlash SectRanges SectErase FlashWrite FlashCommands

structure FlashState where
  protect : Nat → UInt8
  chip : Chip

def FlashState.bank (state : FlashState) : FlashInfo :=
  { flashGetGeom with protect := state.protect }

def FlashState.banks (state : FlashState) : List FlashInfo := [state.bank]

/-- The state with the protection table of the banks. -/
def FlashState.withTable (state : FlashState) (banks : List FlashInfo) : FlashState :=
  { state with protect := (banks.map FlashInfo.protect).headD state.protect }

/-- A command with its words; `source` is what the copied memory holds. -/
inductive FlashCommand where
  | protect (argv : List CString)
  | erase (argv : List CString)
  | cp (baseAddress : Nat) (argv : List CString) (source : Nat → UInt8)

def eraseAll (chip : Chip) (calls : List (FlashInfo × Int × Int)) : Chip :=
  calls.foldl (fun mem call =>
    flashErase call.1.size call.1.sectorCount mem call.2.1 call.2.2) chip

def execute (state : FlashState) : FlashCommand → Option FlashState
  | .protect argv =>
      (doProtect state.banks argv).map fun result => state.withTable result.banks
  | .erase argv => some { state with chip := eraseAll state.chip (doFlerase state.banks argv).calls }
  | .cp baseAddress argv source =>
      match doMemCpTarget state.banks baseAddress argv with
      | none => some state
      | some (dest, cnt) =>
          some { state with
            chip := writeAll source state.chip (flashWrite state.banks dest cnt).calls }

def flashStep (state : FlashState) (command : FlashCommand) (after : FlashState) : Prop :=
  execute state command = some after

def sectorOf (addr : Nat) : Nat := (addr - cfgFlashBase) / cfgFlashSectorSize

/-- Some flash_erase call names a protected sector, or a sector number that is none. -/
def ErasesProtected (protect : Nat → UInt8) (calls : List (FlashInfo × Int × Int)) : Prop :=
  ∃ call ∈ calls, ∃ i : Int, call.2.1 ≤ i ∧ i ≤ call.2.2 ∧ (i < 0 ∨ protect i.toNat ≠ 0)

/-- `dest + cnt - 1` wraps around to a flash address below `dest`, and what is written, all of
the bank from `dest` on, holds a protected sector that the scan does not see. -/
def WrapsOverProtected (protect : Nat → UInt8) (dest cnt : Nat) : Prop :=
  cnt ≠ 0 ∧ cfgFlashBase ≤ toUlong (dest + cnt - 1) ∧ toUlong (dest + cnt - 1) < dest ∧
    ¬ (sectorOf (toUlong (dest + cnt - 1)) = sectorOf dest ∧ protect (sectorOf dest) ≠ 0) ∧
    ∃ i, sectorOf dest ≤ i ∧ i < flashGetGeom.sectorCount ∧ protect i ≠ 0

def SparesProtected (state : FlashState) : FlashCommand → Prop
  | .protect _ => True
  | .erase argv => ¬ ErasesProtected state.protect (doFlerase state.banks argv).calls
  | .cp baseAddress argv _ => ∀ target, doMemCpTarget state.banks baseAddress argv = some target →
      ¬ WrapsOverProtected state.protect target.1 target.2

/-- The content of the sector does not change while its flag stays set: in every run whose
commands all meet the guard, up to and including the command that clears the flag. -/
def KeepsSector (guard : FlashState → FlashCommand → Prop) (sector : Nat) : Prop :=
  ∀ before commands after,
    Run (Guarded (fun state command => guard state command ∧ state.protect sector ≠ 0) flashStep)
      before commands after →
    ∀ address, address / cfgFlashSectorSize = sector → after.chip address = before.chip address

theorem abbrev_sectors_last {fp : FlashInfo} {bank named : Nat} {firstText : List UInt8}
    {lastText : Option (List UInt8)} {sectFirst sectLast : Int}
    (parsed : abbrevSectors fp bank firstText lastText = .sectors named sectFirst sectLast) :
    named = bank ∧ sectLast < fp.sectorCount := by
  unfold abbrevSectors at parsed
  simp only at parsed
  split at parsed
  · contradiction
  · rename_i firstInside
    split at parsed
    · injection parsed with sameBank _ sameLast
      have below := (not_or.mp firstInside).2
      exact ⟨sameBank.symm, by omega⟩
    · split at parsed
      · contradiction
      · rename_i lastInside
        injection parsed with sameBank _ sameLast
        have below := (not_or.mp (not_or.mp lastInside).2).2
        exact ⟨sameBank.symm, by omega⟩

theorem abbrev_spec_last {banks : List FlashInfo} {str : List UInt8} {bank : Nat}
    {sectFirst sectLast : Int} (parsed : abbrevSpec banks str = .sectors bank sectFirst sectLast) :
    ∀ info, banks[bank]? = some info → sectLast < info.sectorCount := by
  intro info found
  have located : ∀ fp bank' firstText lastText, banks[bank']? = some fp →
      abbrevSectors fp bank' firstText lastText = .sectors bank sectFirst sectLast →
      sectLast < info.sectorCount := by
    intro fp bank' firstText lastText present sectors
    obtain ⟨same, inside⟩ := abbrev_sectors_last sectors
    rw [same, present] at found
    injection found with same
    rwa [same] at inside
  unfold abbrevSpec at parsed
  split at parsed
  · contradiction
  · simp only at parsed
    split at parsed
    · contradiction
    · split at parsed
      · contradiction
      · split at parsed
        · contradiction
        · split at parsed
          · exact located _ _ _ _ ‹_› parsed
          · exact located _ _ _ _ ‹_› parsed

theorem addr_spec_lt {banks : List FlashInfo} {arg1 arg2 : List UInt8} {range : Nat × Nat}
    (parsed : addrSpec banks arg1 arg2 = some range) : range.2 < 2 ^ 32 := by
  unfold addrSpec at parsed
  simp only at parsed
  split at parsed
  · contradiction
  · split at parsed
    · split at parsed
      · contradiction
      · obtain ⟨last, rounded, same⟩ := Option.map_eq_some_iff.mp parsed
        obtain ⟨info, _, found⟩ := List.exists_of_findSome?_eq_some rounded
        obtain ⟨i, _, ends⟩ := List.exists_of_findSome?_eq_some found
        split at ends
        · injection ends with ends
          rw [← same, ← ends]
          unfold addrSpecSectorEnd
          split
          · exact to_ulong_lt _
          · exact to_ulong_lt _
        · contradiction
    · split at parsed
      · contradiction
      · injection parsed with same
        rw [← same]
        exact simple_strtoul_lt _ 16

/-- Every call that `erase` makes names a bank of the table and ends inside it. -/
theorem flerase_inside {banks : List FlashInfo} (laid : Laid banks)
    (argv : List CString) :
    ∀ call ∈ (doFlerase banks argv).calls,
      call.1 ∈ banks ∧ call.2.2 < call.1.sectorCount := by
  have whole : ∀ info ∈ banks, (wholeBank info).1 ∈ banks ∧
      (wholeBank info).2.2 < (wholeBank info).1.sectorCount :=
    fun info member => ⟨member, Int.sub_one_lt_of_le (Int.le_refl _)⟩
  unfold doFlerase
  split
  · split
    · intro call member
      obtain ⟨info, present, rfl⟩ := List.mem_map.mp member
      exact whole info present
    · split
      · exact fun call member => absurd member List.not_mem_nil
      · rename_i parsed
        intro call member
        obtain ⟨info, present, rfl⟩ := List.mem_map.mp member
        have found := Option.mem_toList.mp present
        exact ⟨List.mem_of_getElem? found, abbrev_spec_last parsed info found⟩
      · split
        · simp only
          split
          · exact fun call member => absurd member List.not_mem_nil
          · intro call member
            obtain ⟨info, present, rfl⟩ := List.mem_map.mp member
            exact whole info (List.mem_of_getElem? (Option.mem_toList.mp present))
        · split
          · exact fun call member => absurd member List.not_mem_nil
          · rename_i parsed
            split
            · exact fun call member => absurd member List.not_mem_nil
            · exact sect_erase_inside laid (addr_spec_lt parsed)
      · exact fun call member => absurd member List.not_mem_nil
  · exact fun call member => absurd member List.not_mem_nil

section Board
variable {state : FlashState}

theorem bank_start (sector : Nat) :
    state.bank.start sector = cfgFlashBase + sector * cfgFlashSectorSize := rfl

theorem bank_b_end : state.bank.bEnd = cfgFlashBase + cfgFlashSize - 1 :=
  (by decide : flashGetGeom.bEnd = cfgFlashBase + cfgFlashSize - 1)

theorem bank_known : state.bank.known = true := (by decide : flashGetGeom.known = true)

theorem bank_sector_size : state.bank.size / state.bank.sectorCount = cfgFlashSectorSize :=
  (by decide : flashGetGeom.size / flashGetGeom.sectorCount = cfgFlashSectorSize)

theorem bank_e_addr (sector : Nat) :
    eAddr state.bank sector = cfgFlashBase + (sector + 1) * cfgFlashSectorSize := by
  have last := s_end_eq (flash_get_geom_well_formed state.protect)
  have count : state.bank.sectorCount = 64 := rfl
  unfold eAddr
  split
  · rename_i whole
    have top : sector = 63 := by
      have index : (sector : Int) = 64 - 1 := whole.trans last
      omega
    rw [top]
    exact (by decide : toUlong (flashGetGeom.start 0 + flashGetGeom.size) =
      cfgFlashBase + (63 + 1) * cfgFlashSectorSize)
  · rfl

theorem board_laid (state : FlashState) : Laid state.banks where
  wellFormed := by
    intro info member _
    rw [List.mem_singleton.mp member]
    exact flash_get_geom_well_formed state.protect
  apart := List.pairwise_singleton _ _

theorem erase_all_spares {sector : Nat} (flagged : state.protect sector ≠ 0)
    (calls : List (FlashInfo × Int × Int)) (chip : Chip)
    (inside : ∀ call ∈ calls, call.1 ∈ state.banks ∧ call.2.2 < call.1.sectorCount)
    (spared : ¬ ErasesProtected state.protect calls) (address : Nat)
    (within : address / cfgFlashSectorSize = sector) :
    eraseAll chip calls address = chip address := by
  induction calls generalizing chip with
  | nil => rfl
  | cons call rest ih =>
      obtain ⟨member, last⟩ := inside call List.mem_cons_self
      have size : call.1.size / call.1.sectorCount = cfgFlashSectorSize := by
        rw [List.mem_singleton.mp member]
        exact bank_sector_size
      have count : call.1.sectorCount = 64 := by
        rw [List.mem_singleton.mp member]
        rfl
      -- No call touches a protected sector or one in front of the first.
      have natural : ∀ i : Int, call.2.1 ≤ i → i ≤ call.2.2 →
          0 ≤ i ∧ state.protect i.toNat = 0 := by
        intro i above below
        by_contra touched
        refine spared ⟨call, List.mem_cons_self, i, above, below, ?_⟩
        by_cases negative : i < 0
        · exact Or.inl negative
        · exact Or.inr fun clear => touched ⟨by omega, clear⟩
      have first := flash_erase_other_sector call.1.size call.1.sectorCount chip call.2.1 call.2.2
        address (by rw [size]; decide)
        (by
          intro i above below
          have clear := natural i above below
          rw [size]
          unfold cfgFlashSectorSize
          omega)
        (by
          intro i above below same
          have clear := (natural i above below).2
          rw [size, within] at same
          rw [← same, Int.toNat_natCast] at clear
          exact flagged clear)
      have later := ih (flashErase call.1.size call.1.sectorCount chip call.2.1 call.2.2)
        (fun other present => inside other (List.mem_cons_of_mem call present))
        (fun ⟨other, present, touched⟩ =>
          spared ⟨other, List.mem_cons_of_mem call present, touched⟩)
      exact later.trans first

theorem addr2info_board (addr : Nat) :
    addr2info state.banks addr =
      if cfgFlashBase ≤ addr ∧ addr < cfgFlashBase + cfgFlashSize then some 0 else none := by
  have upper : addr ≤ cfgFlashBase + cfgFlashSize - 1 ↔ addr < cfgFlashBase + cfgFlashSize := by
    unfold cfgFlashBase cfgFlashSize
    omega
  have base : state.bank.start 0 = cfgFlashBase := rfl
  by_cases inside : cfgFlashBase ≤ addr ∧ addr < cfgFlashBase + cfgFlashSize
  · simp [addr2info, FlashState.banks, List.findIdx?_cons, bank_known, bank_b_end, base, upper,
      inside]
  · rw [if_neg inside]
    simpa [addr2info, FlashState.banks, List.findIdx?_cons, bank_known, bank_b_end, base, upper]
      using inside

/-- flash_write on the one bank: nothing is written, or the scan has seen the range and what is
written ends at the end of the bank at the latest. -/
theorem flash_write_board (dest cnt : Nat)
    (inside : cfgFlashBase ≤ dest ∧ dest < cfgFlashBase + cfgFlashSize) :
    (flashWrite state.banks dest cnt).calls = [] ∨
    cnt ≠ 0 ∧ cfgFlashBase ≤ toUlong (dest + cnt - 1) ∧
      hitsProtected state.bank dest
        (toUlong (dest + cnt - 1)) = false ∧
      (flashWrite state.banks dest cnt).calls =
        [⟨state.bank, 0, dest, min (cfgFlashBase + cfgFlashSize - dest) cnt⟩] := by
  by_cases empty : cnt = 0
  · left
    simp [flashWrite, empty]
  by_cases lastInside : cfgFlashBase ≤ toUlong (dest + cnt - 1) ∧
      toUlong (dest + cnt - 1) < cfgFlashBase + cfgFlashSize
  · have first : addr2info state.banks dest = some 0 := by rw [addr2info_board, if_pos inside]
    have last : addr2info state.banks (toUlong (dest + cnt - 1)) = some 0 := by
      rw [addr2info_board, if_pos lastInside]
    have touched : (state.banks.drop 0).take (0 + 1 - 0) = [state.bank] := rfl
    -- The scan of the one bank refuses the whole write.
    cases hit : hitsProtected state.bank dest (toUlong (dest + cnt - 1)) with
    | true =>
        left
        simp only [flashWrite, empty, first, last, touched, List.any_cons, hit, Bool.true_or,
          if_false, if_true]
    | false =>
        right
        have room : toUlong (state.bank.start 0 + state.bank.size - dest) =
            cfgFlashBase + cfgFlashSize - dest := by
          have base : state.bank.start 0 = cfgFlashBase := rfl
          have size : state.bank.size = cfgFlashSize := rfl
          rw [base, size]
          unfold toUlong cfgFlashBase cfgFlashSize at *
          omega
        have len : (if cfgFlashBase + cfgFlashSize - dest > cnt then cnt
            else cfgFlashBase + cfgFlashSize - dest) =
            min (cfgFlashBase + cfgFlashSize - dest) cnt := by
          split <;> omega
        refine ⟨empty, lastInside.1, rfl, ?_⟩
        simp only [flashWrite, empty, first, last, touched, List.any_cons, List.any_nil, hit,
          Bool.or_self, if_false, Bool.false_eq_true, writeBanks, Nat.pos_of_ne_zero empty, if_true,
          room, len]
  · left
    have last : addr2info state.banks (toUlong (dest + cnt - 1)) = none := by
      rw [addr2info_board, if_neg lastInside]
    have first : addr2info state.banks dest = some 0 := by rw [addr2info_board, if_pos inside]
    simp only [flashWrite, empty, first, last, if_false]

/-- The bytes of the flash that a scan without a hit allows to be written are in sectors whose
flag is clear. -/
theorem scan_clear {dest last sector : Nat} (inside : sector < flashGetGeom.sectorCount)
    (clear : hitsProtected state.bank dest last = false)
    (begins : cfgFlashBase + sector * cfgFlashSectorSize ≤ last)
    (ends : dest < cfgFlashBase + (sector + 1) * cfgFlashSectorSize) :
    state.protect sector = 0 := by
  by_contra flagged
  have hit : hitsProtected state.bank dest last = true := by
    refine List.any_eq_true.mpr ⟨sector, List.mem_range.mpr inside, ?_⟩
    have scanned : state.bank.protect sector ≠ 0 := flagged
    rw [bank_start, bank_e_addr]
    simp [begins, ends, scanned]
  rw [hit] at clear
  contradiction

/-- `cp` writes no protected sector unless it wraps around. -/
theorem write_spares {sector : Nat} (flagged : state.protect sector ≠ 0)
    (valid : sector < flashGetGeom.sectorCount) (source : Nat → UInt8) (dest cnt : Nat)
    (ulong : cnt < 2 ^ 32)
    (target : cfgFlashBase ≤ dest ∧ dest < cfgFlashBase + cfgFlashSize)
    (spared : ¬ WrapsOverProtected state.protect dest cnt) (address : Nat)
    (within : address / cfgFlashSectorSize = sector) :
    writeAll source state.chip (flashWrite state.banks dest cnt).calls address =
      state.chip address := by
  rcases flash_write_board dest cnt target with
    nothing | ⟨some_bytes, lastInside, clear, calls⟩
  · rw [nothing]
    rfl
  · rw [calls]
    have range : InFlash cfgFlashBase cfgFlashSize dest
        (min (cfgFlashBase + cfgFlashSize - dest) cnt) :=
      ⟨target.1, by omega, by decide, by decide⟩
    refine write_buff_other_page cfgFlashBase cfgFlashSize state.chip _ dest _ range address ?_
    intro i below samePage
    -- A page lies in one sector, so a byte of the range lies in the protected one.
    have sameSector : (dest - cfgFlashBase + i) / cfgFlashSectorSize = sector := by
      rw [← within]
      unfold athSpiPageSize at samePage
      unfold cfgFlashSectorSize
      omega
    by_cases wraps : toUlong (dest + cnt - 1) < dest
    · by_cases seen : sectorOf (toUlong (dest + cnt - 1)) = sectorOf dest ∧
          state.protect (sectorOf dest) ≠ 0
      · refine seen.2 (scan_clear ?_ clear ?_ ?_)
        · unfold sectorOf cfgFlashBase cfgFlashSectorSize cfgFlashSize at *
          exact (by omega : (dest - 0x9f000000) / (64 * 1024) < 64)
        · rw [← seen.1]
          unfold sectorOf cfgFlashBase cfgFlashSectorSize at *
          omega
        · unfold sectorOf cfgFlashBase cfgFlashSectorSize at *
          omega
      · refine spared ⟨some_bytes, lastInside, wraps, seen, sector, ?_, valid, flagged⟩
        rw [← sameSector]
        exact Nat.div_le_div_right (Nat.le_add_right _ i)
    · refine flagged (scan_clear valid clear ?_ ?_)
      · unfold toUlong cfgFlashBase cfgFlashSectorSize cfgFlashSize at *
        omega
      · unfold cfgFlashBase cfgFlashSectorSize at *
        omega

end Board

theorem mem_cp_target {state : FlashState} {baseAddress : Nat} {argv : List CString} {dest cnt : Nat}
    (found : doMemCpTarget state.banks baseAddress argv = some (dest, cnt)) :
    (cfgFlashBase ≤ dest ∧ dest < cfgFlashBase + cfgFlashSize) ∧ cnt < 2 ^ 32 := by
  unfold doMemCpTarget at found
  split at found
  · simp only at found
    split at found
    · contradiction
    · rename_i accepted
      injection found with pair
      injection pair with sameDest sameCnt
      have held := (not_or.mp (not_or.mp accepted).2).2
      rw [sameDest, addr2info_board] at held
      refine ⟨?_, by rw [← sameCnt]; exact to_ulong_lt _⟩
      by_contra outside
      exact held (if_neg outside)
  · contradiction

/-- One command leaves a protected sector as it is, even the command that clears the flag. -/
theorem execute_spares {state after : FlashState} {command : FlashCommand} {sector : Nat}
    (spared : SparesProtected state command) (flagged : state.protect sector ≠ 0)
    (valid : sector < flashGetGeom.sectorCount) (done : flashStep state command after)
    (address : Nat) (within : address / cfgFlashSectorSize = sector) :
    after.chip address = state.chip address := by
  cases command with
  | protect argv =>
      obtain ⟨result, _, same⟩ := Option.map_eq_some_iff.mp done
      rw [← same, FlashState.withTable]
  | erase argv =>
      injection done with same
      rw [← same]
      exact erase_all_spares flagged _ state.chip (flerase_inside (board_laid state) argv) spared
        address within
  | cp baseAddress argv source =>
      unfold flashStep execute at done
      simp only at done
      split at done
      · injection done with same
        rw [← same]
      · rename_i dest cnt found
        injection done with same
        obtain ⟨target, ulong⟩ := mem_cp_target found
        rw [← same]
        exact write_spares flagged valid source dest cnt ulong target (spared _ found) address within

/-- The content of a protected sector outlives every sequence of commands that erase no protected
sector and whose `cp` does not wrap around. -/
theorem protected_sector_unchanged (sector : Nat) (valid : sector < flashGetGeom.sectorCount) :
    KeepsSector SparesProtected sector := by
  intro before commands after run address within
  refine run_preserves _ (fun state => state.chip address = before.chip address) ?_ run rfl
  intro state command next same step
  obtain ⟨⟨spared, flagged⟩, done⟩ := step
  rw [execute_spares spared flagged valid done address within]
  exact same

def startState : FlashState := ⟨fun _ => 0, fun _ => 0⟩

def protectOnAll : FlashCommand :=
  .protect [⟨ascii "protect", by decide⟩, ⟨ascii "on", by decide⟩, ⟨ascii "all", by decide⟩]

def eraseWords : List CString := [⟨ascii "erase", by decide⟩, ⟨ascii "1:5", by decide⟩]

def protectedState : FlashState := (execute startState protectOnAll).getD startState

def sixProtected : FlashState := ⟨fun i => if i = 6 then 1 else 0, fun _ => 0⟩

/-- The state after `erase 1:5`. -/
def sectorFiveErased (state : FlashState) : FlashState :=
  { state with chip := eraseAll state.chip (doFlerase state.banks eraseWords).calls }

/-- With only sector 6 protected, `erase 1:5` leaves its first byte as it is. -/
theorem erase_beside_protected : (sectorFiveErased sixProtected).chip 0x60000 = 0 := by
  refine protected_sector_unchanged 6 (by decide) sixProtected [.erase eraseWords] _
    (Run.next ⟨⟨?_, by decide⟩, rfl⟩ (Run.refl _)) 0x60000 (by decide)
  rintro ⟨call, member, i, above, below, bad⟩
  have named : (doFlerase sixProtected.banks eraseWords).calls.map (fun call => call.2) =
      [((5 : Int), (5 : Int))] := by decide +kernel
  have range := List.mem_map_of_mem (f := fun call => call.2) member
  rw [named] at range
  have five : call.2 = (5, 5) := List.mem_singleton.mp range
  rw [five] at above below
  have same : i = 5 := by omega
  rw [same] at bad
  revert bad
  decide

/-- `erase 1:5` erases sector 5 although `protect on all` has set its flag. -/
theorem erase_ignores_protect :
    ¬ ∀ sector < flashGetGeom.sectorCount, KeepsSector (fun _ _ => True) sector := by
  intro keeps
  have flagged : protectedState.protect 5 ≠ 0 := by decide +kernel
  have erased : flashStep protectedState (.erase eraseWords) (sectorFiveErased protectedState) :=
    rfl
  have same := keeps 5 (by decide) protectedState [.erase eraseWords] _
    (Run.next ⟨⟨trivial, flagged⟩, erased⟩ (Run.refl _)) (5 * cfgFlashSectorSize) (by decide)
  revert same
  decide +kernel

/-- `cp.b 80000000 9f3ffffe ffc00003` ends at 9f000000 and clears the last two bytes of the flash
behind the protection of its last sector. -/
example : (execute ⟨fun _ => 1, fun _ => 0xff⟩ (.cp 0 [⟨ascii "cp.b", by decide⟩,
    ⟨ascii "80000000", by decide⟩, ⟨ascii "9f3ffffe", by decide⟩, ⟨ascii "ffc00003", by decide⟩]
    fun _ => 0)).map (fun after => after.chip 0x3ffffe) = some 0 := by decide +kernel

end UBoot.Flash.Protection
