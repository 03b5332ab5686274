import Mathlib.Tactic
import UBoot.Lib.Strings
import UBoot.Library.NorFlash

/-!
The serial flash driver of board/atheros/common/ath_flash.c: page programming by
write_buff, sector erase by flash_erase. The chip is the page-buffered memory of
the NOR flash library with 256-byte pages, addressed by the 24 bits that
ath_spi_send_addr shifts out. ATH_SST_FLASH is not defined for this board.
-/

namespace UBoot.Flash.AthFlash

open Lib.Strings Library.Memory Library.NorFlash

def athSpiPageSize : Nat := 256

abbrev Chip := Nat → UInt8

/-- The 24 address bits of a command. -/
def athSpiSendAddr (addr : Nat) : Nat := addr % 2 ^ 24

/-- One PAGE_PROG command carrying `data`. -/
def athSpiWritePage (addr : Nat) (data : List UInt8) : Program :=
  { start := athSpiSendAddr addr, data := data }

/-- The SECTOR_ERASE command, whose block is a sector of the chip. -/
def athSpiSectorErase (sectorSize : Nat) (chip : Chip) (addr : Nat) : Chip :=
  eraseBlock sectorSize chip (athSpiSendAddr addr)

/-- The room write_buff assumes in every page: `addr` is the first address, not the running one. -/
def bytesThisPage (addr : Nat) : Nat := athSpiPageSize - addr % athSpiPageSize

/-- The `while (total < len)` loop; each turn sends at least one byte, so `fuel := len` is enough. -/
def writeLoop (source : Nat → UInt8) (addr len : Nat) : Nat → Nat → List Program
  | 0, _ => []
  | fuel + 1, total =>
      if total < len then
        let lenThisLp := if len - total > bytesThisPage addr then bytesThisPage addr else len - total
        athSpiWritePage (addr + total) (slice source total lenThisLp) ::
          writeLoop source addr len fuel (total + lenThisLp)
      else []

/-- The page programs issued by `write_buff (info, source, addr, len)`; `addr` is a bus address. -/
def writeBuffCalls (cfgFlashBase : Nat) (source : Nat → UInt8) (addr len : Nat) : List Program :=
  writeLoop source ((addr + 2 ^ 32 - cfgFlashBase) % 2 ^ 32) len len 0

/-- `write_buff` and `write_buff_quiet`, which differ in a printf only; both return 0. -/
def writeBuff (cfgFlashBase : Nat) (chip : Chip) (source : Nat → UInt8) (addr len : Nat) : Chip :=
  programAll athSpiPageSize chip (writeBuffCalls cfgFlashBase source addr len)

/-- `flash_erase (info, s_first, s_last)`; the sectors are not compared with info->protect. -/
def flashErase (size sectorCount : Nat) (chip : Chip) (sFirst sLast : Int) : Chip :=
  let sectorSize := size / sectorCount
  (List.range (sLast + 1 - sFirst).toNat).foldl
    (fun mem (i : Nat) => athSpiSectorErase sectorSize mem (toUlong ((sFirst + i) * sectorSize)))
    chip

section WriteLoop
variable (source : Nat → UInt8) (addr len : Nat)

theorem bytes_this_page_bounds :
    0 < bytesThisPage addr ∧ addr % athSpiPageSize + bytesThisPage addr = athSpiPageSize := by
  have bound : addr % athSpiPageSize < athSpiPageSize := Nat.mod_lt _ (by decide)
  unfold bytesThisPage
  omega

/-- The chunk that begins `total` bytes into the buffer. -/
def chunkAt (total : Nat) : Program :=
  athSpiWritePage (addr + total) (slice source total (min (bytesThisPage addr) (len - total)))

theorem write_loop_next (fuel total : Nat) (more : total < len) :
    writeLoop source addr len (fuel + 1) total =
      chunkAt source addr len total ::
        writeLoop source addr len fuel (total + min (bytesThisPage addr) (len - total)) := by
  have size : (if len - total > bytesThisPage addr then bytesThisPage addr else len - total) =
      min (bytesThisPage addr) (len - total) := by
    split <;> omega
  rw [writeLoop, if_pos more]
  simp only [size, chunkAt]

/-- Every chunk begins a whole number of first-chunk sizes into the buffer. -/
theorem mem_write_loop (fuel total : Nat) (enough : len - total ≤ fuel) (call : Program) :
    call ∈ writeLoop source addr len fuel total ↔
      ∃ j, total + j * bytesThisPage addr < len ∧
        call = chunkAt source addr len (total + j * bytesThisPage addr) := by
  have positive := (bytes_this_page_bounds addr).1
  -- By the bytes that are left: all calls but the last fill the same part of a page.
  induction fuel generalizing total with
  | zero =>
      simp only [writeLoop, List.not_mem_nil, false_iff, not_exists, not_and]
      intro j below
      omega
  | succ fuel ih =>
      by_cases more : total < len
      · rw [write_loop_next source addr len fuel total more, List.mem_cons]
        by_cases last : len - total ≤ bytesThisPage addr
        · have stop : total + min (bytesThisPage addr) (len - total) = len := by omega
          have tail := ih len (by omega)
          rw [stop]
          refine (or_congr_right tail).trans ?_
          constructor
          · rintro (same | ⟨j, below, _⟩)
            · exact ⟨0, by simpa using more, by simpa using same⟩
            · omega
          · rintro ⟨j, below, same⟩
            cases j with
            | zero => exact Or.inl (by simpa using same)
            | succ j =>
                rw [Nat.add_one_mul] at below
                omega
        · have stop : total + min (bytesThisPage addr) (len - total) =
              total + bytesThisPage addr := by omega
          have tail := ih (total + bytesThisPage addr) (by omega)
          rw [stop]
          refine (or_congr_right tail).trans ?_
          constructor
          · rintro (same | ⟨j, below, same⟩)
            · exact ⟨0, by simpa using more, by simpa using same⟩
            · have shift : total + bytesThisPage addr + j * bytesThisPage addr =
                  total + (j + 1) * bytesThisPage addr := by
                rw [Nat.add_one_mul]
                omega
              exact ⟨j + 1, by omega, by rw [same, shift]⟩
          · rintro ⟨j, below, same⟩
            cases j with
            | zero => exact Or.inl (by simpa using same)
            | succ j =>
                have shift : total + bytesThisPage addr + j * bytesThisPage addr =
                    total + (j + 1) * bytesThisPage addr := by
                  rw [Nat.add_one_mul]
                  omega
                exact Or.inr ⟨j, by omega, by rw [same, shift]⟩
      · have none : writeLoop source addr len (fuel + 1) total = [] := by
          rw [writeLoop, if_neg more]
        simp only [none, List.not_mem_nil, false_iff, not_exists, not_and]
        intro j below
        omega

/-- The source byte that belongs at a chip address. -/
def placed (address : Nat) : UInt8 := source (address - addr)

/-- The calls are contiguous and cover exactly the range, whatever the alignment. -/
theorem write_loop_tiles (fuel total : Nat) (enough : len - total ≤ fuel) (started : total ≤ len)
    (fits : addr + len ≤ 2 ^ 24) :
    Tiles (placed source addr) (addr + total) (addr + len) (writeLoop source addr len fuel total) := by
  have positive := (bytes_this_page_bounds addr).1
  induction fuel generalizing total with
  | zero =>
      have done : total = len := by omega
      rw [done]
      rfl
  | succ fuel ih =>
      by_cases more : total < len
      · rw [write_loop_next source addr len fuel total more]
        have tail := ih (total + min (bytesThisPage addr) (len - total)) (by omega) (by omega)
        refine ⟨Nat.mod_eq_of_lt (by omega), ?_, ?_, ?_⟩
        · simp only [chunkAt, athSpiWritePage, slice_length]
          omega
        · simp only [chunkAt, athSpiWritePage, slice_length]
          apply List.map_congr_left
          intro i _
          simp only [placed]
          congr 1
          omega
        · simpa only [chunkAt, athSpiWritePage, slice_length, Nat.add_assoc] using tail
      · have done : total = len := by omega
        rw [writeLoop, if_neg more, done]
        rfl

/-- The first chunk ends at a page boundary; the later ones keep its size. Its size divides the
page, or the buffer ends before a later chunk can reach the next boundary. -/
def ChunksFit (addr len : Nat) : Prop :=
  bytesThisPage addr ∣ athSpiPageSize ∨ len ≤ bytesThisPage addr + athSpiPageSize

instance (addr len : Nat) : Decidable (ChunksFit addr len) :=
  inferInstanceAs (Decidable (_ ∨ _))

theorem chunk_offset (j : Nat) :
    (addr + (j + 1) * bytesThisPage addr) % athSpiPageSize =
      j * bytesThisPage addr % athSpiPageSize := by
  have bounds := (bytes_this_page_bounds addr).2
  have pages := Nat.div_add_mod addr athSpiPageSize
  have regroup : addr + (j + 1) * bytesThisPage addr =
      j * bytesThisPage addr + athSpiPageSize * (addr / athSpiPageSize + 1) := by
    rw [Nat.add_one_mul, Nat.mul_add, Nat.mul_one]
    omega
  rw [regroup, Nat.add_mul_mod_self_left]

theorem chunk_inside_of_dvd (room : Nat) (divides : room ∣ athSpiPageSize) (j : Nat) :
    j * room % athSpiPageSize + room ≤ athSpiPageSize := by
  have bound : j * room % athSpiPageSize < athSpiPageSize := Nat.mod_lt _ (by decide)
  have aligned : room ∣ j * room % athSpiPageSize :=
    (Nat.dvd_mod_iff divides).mpr (Nat.dvd_mul_left room j)
  have rest : room ∣ athSpiPageSize - j * room % athSpiPageSize := Nat.dvd_sub divides aligned
  have enough := Nat.le_of_dvd (by omega) rest
  omega

/-- The chunk that crosses when the room neither divides the page nor is the buffer short. -/
theorem chunk_crosses (room : Nat) (positive : 0 < room) (odd : ¬ room ∣ athSpiPageSize) :
    athSpiPageSize / room * room < athSpiPageSize ∧
      athSpiPageSize < athSpiPageSize / room * room + room := by
  have split := Nat.div_add_mod' athSpiPageSize room
  have bound := Nat.mod_lt athSpiPageSize positive
  have rest : athSpiPageSize % room ≠ 0 := fun zero => odd (Nat.dvd_of_mod_eq_zero zero)
  omega

theorem chunk_inside_iff (total : Nat) (fits : addr + len ≤ 2 ^ 24) (below : total < len) :
    InsidePage athSpiPageSize (chunkAt source addr len total) ↔
      (addr + total) % athSpiPageSize + min (bytesThisPage addr) (len - total) ≤
        athSpiPageSize := by
  have small : (addr + total) % 2 ^ 24 = addr + total := Nat.mod_eq_of_lt (by omega)
  simp only [InsidePage, chunkAt, athSpiWritePage, athSpiSendAddr, slice_length, small]

theorem calls_inside_iff (fits : addr + len ≤ 2 ^ 24) :
    (∀ call ∈ writeLoop source addr len len 0, InsidePage athSpiPageSize call) ↔
      ChunksFit addr len := by
  obtain ⟨positive, first⟩ := bytes_this_page_bounds addr
  constructor
  · intro inside
    by_contra crossing
    obtain ⟨odd, long⟩ := not_or.mp crossing
    obtain ⟨early, past⟩ := chunk_crosses (bytesThisPage addr) positive odd
    have place := chunk_offset addr (athSpiPageSize / bytesThisPage addr)
    rw [Nat.mod_eq_of_lt early] at place
    have start := Nat.add_one_mul (athSpiPageSize / bytesThisPage addr) (bytesThisPage addr)
    have below : (athSpiPageSize / bytesThisPage addr + 1) * bytesThisPage addr < len := by omega
    have member : chunkAt source addr len
        ((athSpiPageSize / bytesThisPage addr + 1) * bytesThisPage addr) ∈
          writeLoop source addr len len 0 := by
      rw [mem_write_loop source addr len len 0 (by omega)]
      exact ⟨athSpiPageSize / bytesThisPage addr + 1, by omega, by rw [Nat.zero_add]⟩
    have contained := (chunk_inside_iff source addr len _ fits below).mp (inside _ member)
    omega
  · intro fit call member
    rw [mem_write_loop source addr len len 0 (by omega)] at member
    obtain ⟨j, below, rfl⟩ := member
    rw [Nat.zero_add] at below ⊢
    rw [chunk_inside_iff source addr len _ fits below]
    cases j with
    | zero =>
        rw [Nat.zero_mul, Nat.add_zero]
        omega
    | succ j =>
        rw [chunk_offset]
        rcases fit with divides | short
        · have room := chunk_inside_of_dvd (bytesThisPage addr) divides j
          omega
        · have start := Nat.add_one_mul j (bytesThisPage addr)
          rw [Nat.mod_eq_of_lt (by omega : j * bytesThisPage addr < athSpiPageSize)]
          omega

end WriteLoop

/-- What a write of `len` bytes from `source` at chip offset `offset` is meant to do. -/
structure WriteCorrect (cfgFlashBase : Nat) (chip : Chip) (source : Nat → UInt8)
    (addr len : Nat) : Prop where
  programmed : ∀ i, i < len →
    writeBuff cfgFlashBase chip source addr len (addr - cfgFlashBase + i) = source i
  unchanged : ∀ address, address < addr - cfgFlashBase ∨ addr - cfgFlashBase + len ≤ address →
    writeBuff cfgFlashBase chip source addr len address = chip address
  insidePage : ∀ call ∈ writeBuffCalls cfgFlashBase source addr len,
    InsidePage athSpiPageSize call
  contiguous : Tiles (placed source (addr - cfgFlashBase)) (addr - cfgFlashBase)
    (addr - cfgFlashBase + len) (writeBuffCalls cfgFlashBase source addr len)

/-- The bus range of `len` bytes at `addr` lies in a flash of `size` bytes at `cfgFlashBase`. -/
structure InFlash (cfgFlashBase size addr len : Nat) : Prop where
  based : cfgFlashBase ≤ addr
  bounded : addr + len ≤ cfgFlashBase + size
  addressable : size ≤ 2 ^ 24
  mapped : cfgFlashBase + size ≤ 2 ^ 32

theorem write_buff_calls_eq (cfgFlashBase size : Nat) (source : Nat → UInt8) (addr len : Nat)
    (range : InFlash cfgFlashBase size addr len) :
    writeBuffCalls cfgFlashBase source addr len =
      writeLoop source (addr - cfgFlashBase) len len 0 := by
  obtain ⟨based, bounded, addressable, mapped⟩ := range
  have offset : (addr + 2 ^ 32 - cfgFlashBase) % 2 ^ 32 = addr - cfgFlashBase := by omega
  rw [writeBuffCalls, offset]

theorem write_buff_tiles (cfgFlashBase size : Nat) (source : Nat → UInt8) (addr len : Nat)
    (range : InFlash cfgFlashBase size addr len) :
    Tiles (placed source (addr - cfgFlashBase)) (addr - cfgFlashBase)
      (addr - cfgFlashBase + len) (writeBuffCalls cfgFlashBase source addr len) := by
  rw [write_buff_calls_eq cfgFlashBase size source addr len range]
  have fits : addr - cfgFlashBase + len ≤ 2 ^ 24 := by
    obtain ⟨based, bounded, addressable, _⟩ := range
    omega
  simpa using write_loop_tiles source (addr - cfgFlashBase) len len 0 (by omega) (by omega) fits

/-- Aligned or not, write_buff stays in the pages that its range touches. -/
theorem write_buff_other_page (cfgFlashBase size : Nat) (chip : Chip) (source : Nat → UInt8)
    (addr len : Nat) (range : InFlash cfgFlashBase size addr len) (address : Nat)
    (other : ∀ i, i < len →
      address / athSpiPageSize ≠ (addr - cfgFlashBase + i) / athSpiPageSize) :
    writeBuff cfgFlashBase chip source addr len address = chip address := by
  apply program_all_other_page athSpiPageSize (by decide)
  intro command member
  rw [write_buff_calls_eq cfgFlashBase size source addr len range,
    mem_write_loop source _ len len 0 (by omega)] at member
  obtain ⟨j, below, rfl⟩ := member
  obtain ⟨based, bounded, addressable, _⟩ := range
  have small : addr - cfgFlashBase + (0 + j * bytesThisPage (addr - cfgFlashBase)) < 2 ^ 24 := by
    omega
  have start : (chunkAt source (addr - cfgFlashBase) len
      (0 + j * bytesThisPage (addr - cfgFlashBase))).start =
        addr - cfgFlashBase + (0 + j * bytesThisPage (addr - cfgFlashBase)) :=
    Nat.mod_eq_of_lt small
  rw [start]
  exact other _ below

/-- flash_erase touches the sectors of its range and no others. -/
theorem flash_erase_other_sector (size sectorCount : Nat) (chip : Chip) (sFirst sLast : Int)
    (address : Nat) (whole : 0 < size / sectorCount)
    (inside : ∀ i : Int, sFirst ≤ i → i ≤ sLast → 0 ≤ i ∧ i * (size / sectorCount : Nat) < 2 ^ 24)
    (other : ∀ i : Int, sFirst ≤ i → i ≤ sLast → (address / (size / sectorCount) : Nat) ≠ i) :
    flashErase size sectorCount chip sFirst sLast address = chip address := by
  unfold flashErase
  have bounded : ∀ i ∈ List.range (sLast + 1 - sFirst).toNat, sFirst + i ≤ sLast := by
    intro i member
    have below := List.mem_range.mp member
    omega
  generalize List.range (sLast + 1 - sFirst).toNat = sectors at bounded
  induction sectors generalizing chip with
  | nil => rfl
  | cons i rest ih =>
      have last := bounded i List.mem_cons_self
      obtain ⟨natural, small⟩ := inside (sFirst + i) (by omega) last
      have differs := other (sFirst + i) (by omega) last
      obtain ⟨k, index⟩ := Int.eq_ofNat_of_zero_le natural
      rw [index] at small differs
      have fits : k * (size / sectorCount) < 2 ^ 24 := by exact_mod_cast small
      have sent : athSpiSendAddr (toUlong ((k : Int) * (size / sectorCount : Nat))) =
          k * (size / sectorCount) := by
        unfold athSpiSendAddr toUlong
        rw [← Int.natCast_mul]
        omega
      have missed : address / (size / sectorCount) ≠
          k * (size / sectorCount) / (size / sectorCount) := by
        rw [Nat.mul_div_cancel k whole]
        exact_mod_cast differs
      rw [List.foldl_cons, ih _ fun j member => bounded j (List.mem_cons_of_mem i member)]
      rw [athSpiSectorErase, index, sent]
      exact if_neg missed

/-- Over erased flash, chunks that fit their pages leave the source in the range. -/
theorem write_buff_fits (cfgFlashBase size : Nat) (chip : Chip) (source : Nat → UInt8)
    (addr len : Nat) (range : InFlash cfgFlashBase size addr len)
    (erased : ∀ i, i < len → chip (addr - cfgFlashBase + i) = 0xff)
    (inside : ∀ call ∈ writeBuffCalls cfgFlashBase source addr len,
      InsidePage athSpiPageSize call) (address : Nat) :
    writeBuff cfgFlashBase chip source addr len address =
      if addr - cfgFlashBase ≤ address ∧ address < addr - cfgFlashBase + len then
        source (address - (addr - cfgFlashBase))
      else chip address := by
  have tiles := write_buff_tiles cfgFlashBase size source addr len range
  have final := program_all_erased athSpiPageSize _ _ chip _ _ tiles inside (by
    intro address above below
    have place : addr - cfgFlashBase + (address - (addr - cfgFlashBase)) = address := by omega
    rw [← place]
    exact erased _ (by omega))
  rw [writeBuff, final]
  rfl

theorem write_buff_inside_iff (cfgFlashBase size : Nat) (source : Nat → UInt8) (addr len : Nat)
    (range : InFlash cfgFlashBase size addr len) :
    (∀ call ∈ writeBuffCalls cfgFlashBase source addr len, InsidePage athSpiPageSize call) ↔
      ChunksFit (addr - cfgFlashBase) len := by
  rw [write_buff_calls_eq cfgFlashBase size source addr len range]
  obtain ⟨based, bounded, addressable, _⟩ := range
  exact calls_inside_iff source (addr - cfgFlashBase) len (by omega)

/-- write_buff is right exactly when its chunks, all of the size of the first one, never reach
over a page boundary. -/
theorem write_buff_correct_iff (cfgFlashBase size : Nat) (chip : Chip) (source : Nat → UInt8)
    (addr len : Nat) (range : InFlash cfgFlashBase size addr len)
    (erased : ∀ i, i < len → chip (addr - cfgFlashBase + i) = 0xff) :
    WriteCorrect cfgFlashBase chip source addr len ↔ ChunksFit (addr - cfgFlashBase) len := by
  have insideIff := write_buff_inside_iff cfgFlashBase size source addr len range
  constructor
  · intro correct
    exact insideIff.mp correct.insidePage
  · intro fit
    have inside := insideIff.mpr fit
    have final := write_buff_fits cfgFlashBase size chip source addr len range erased inside
    refine ⟨?_, ?_, inside, write_buff_tiles cfgFlashBase size source addr len range⟩
    · intro i bound
      have covered : addr - cfgFlashBase ≤ addr - cfgFlashBase + i ∧
          addr - cfgFlashBase + i < addr - cfgFlashBase + len := by omega
      rw [final, if_pos covered, Nat.add_sub_cancel_left]
    · intro address outside
      have notCovered : ¬ (addr - cfgFlashBase ≤ address ∧
          address < addr - cfgFlashBase + len) := by omega
      rw [final, if_neg notCovered]

theorem write_buff_correct_aligned :
    WriteCorrect 0x9f000000 (fun _ => 0xff) (fun i => UInt8.ofNat i) 0x9f000100 700 :=
  (write_buff_correct_iff 0x9f000000 0x400000 _ _ _ _ ⟨by decide, by decide, by decide, by decide⟩
    (fun _ _ => rfl)).mpr (Or.inl (by decide))

/-- From an address one past a page start, byte 511 of the source never reaches the chip: the
third program command crosses into a new page and wraps. -/
theorem write_buff_wraps_in_page :
    ¬ WriteCorrect 0x9f000000 (fun _ => 0xff) (fun _ => 0) 0x9f000001 512 := by
  intro correct
  exact absurd (correct.programmed 511 (by decide)) (by decide +kernel)

end UBoot.Flash.AthFlash
