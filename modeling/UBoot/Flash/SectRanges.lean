import Mathlib.Tactic
import UBoot.Lib.Strings

/-!
Sector ranges of common/cmd_flash.c: flash_fill_sect_ranges turns an address
range into one range of sectors per bank, flash_sect_erase erases them. `ulong`
is 32 bits wide, `short` 16; the value -1 of `s_first` and `s_last` marks a bank
that takes no part. The board's flash_erase always returns 0, so the erase loop
reaches every bank.
-/

namespace UBoot.Flash.SectRanges

open Lib.Strings

def flashUnknown : Nat := 0xffff

/-- The fields of flash_info_t that the generic code reads. -/
structure FlashInfo where
  size : Nat
  sectorCount : Nat
  flashId : Nat
  start : Nat → Nat
  protect : Nat → UInt8

def cfgFlashBase : Nat := 0x9f000000

def cfgFlashSectorSize : Nat := 64 * 1024

def cfgFlashSize : Nat := 0x00400000

def flashM25p64 : Nat := 0x00F2

/-- The one bank of the board, as flash_get_geom fills it in. -/
def flashGetGeom : FlashInfo where
  size := cfgFlashSize
  sectorCount := cfgFlashSize / cfgFlashSectorSize
  flashId := flashM25p64
  start := fun i => cfgFlashBase + i * cfgFlashSectorSize
  protect := fun _ => 0

def FlashInfo.known (info : FlashInfo) : Bool := info.flashId != flashUnknown

def FlashInfo.bEnd (info : FlashInfo) : Nat := toUlong (info.start 0 + info.size - 1)

def FlashInfo.sEnd (info : FlashInfo) : Int := toShort (info.sectorCount - 1)

/-- The last address of a sector. -/
def FlashInfo.sectorEnd (info : FlashInfo) (sect : Nat) : Nat :=
  if (sect : Int) = info.sEnd then info.bEnd else toUlong (info.start (sect + 1) - 1)

def scanSector (info : FlashInfo) (addrFirst addrLast : Nat) (found : Int × Int) (sect : Nat) :
    Int × Int :=
  if addrFirst > info.sectorEnd sect then found
  else if addrLast < info.start sect then found
  else
    (if addrFirst = info.start sect then (sect : Int) else found.1,
      if addrLast = info.sectorEnd sect then (sect : Int) else found.2)

def scanSectors (info : FlashInfo) (addrFirst addrLast count : Nat) : Int × Int :=
  (List.range count).foldl (scanSector info addrFirst addrLast) (-1, -1)

/-- What the loop of flash_fill_sect_ranges does in one bank. -/
inductive BankStep where
  | skip
  | take (sFirst sLast : Int) (addrFirst : Nat)
  | fail (sFirst sLast : Int)

def bankTake (info : FlashInfo) (sFirst sLast : Int) : BankStep :=
  if sLast < sFirst then .fail sFirst sLast
  else
    .take sFirst sLast
      (if sLast = info.sEnd then toUlong (info.bEnd + 1) else info.start (sLast + 1).toNat)

def bankStep (info : FlashInfo) (addrFirst addrLast : Nat) : BankStep :=
  if info.known = false then .skip
  else
    let found := scanSectors info addrFirst addrLast info.sectorCount
    if 0 ≤ found.1 then
      if found.2 < 0 then
        if addrLast > info.bEnd then bankTake info found.1 info.sEnd
        else .fail found.1 found.2
      else bankTake info found.1 found.2
    else if info.start 0 ≤ addrFirst ∧ addrFirst < info.bEnd then .fail found.1 found.2
    else if 0 ≤ found.2 then .fail found.1 found.2
    else .skip

structure FilledRanges where
  rcode : Nat
  ranges : List (Int × Int)
  count : Int

def noRanges (banks : List FlashInfo) : List (Int × Int) := banks.map fun _ => (-1, -1)

def flashFillSectRanges : List FlashInfo → Nat → Nat → FilledRanges
  | [], _, _ => ⟨0, [], 0⟩
  | info :: rest, addrFirst, addrLast =>
      if addrFirst ≤ addrLast then
        match bankStep info addrFirst addrLast with
        | .skip =>
            let later := flashFillSectRanges rest addrFirst addrLast
            ⟨later.rcode, (-1, -1) :: later.ranges, later.count⟩
        | .take sFirst sLast next =>
            let later := flashFillSectRanges rest next addrLast
            ⟨later.rcode, (sFirst, sLast) :: later.ranges, later.count + (sLast - sFirst + 1)⟩
        | .fail sFirst sLast => ⟨1, (sFirst, sLast) :: noRanges rest, 0⟩
      else ⟨0, noRanges (info :: rest), 0⟩

/-- The calls `flash_erase (info, s_first[bank], s_last[bank])` of one flash_sect_erase. -/
structure SectErase where
  rcode : Nat
  calls : List (FlashInfo × Int × Int)

def eraseCalls (banks : List FlashInfo) (ranges : List (Int × Int)) :
    List (FlashInfo × Int × Int) :=
  (banks.zip ranges).filter fun call => decide (0 ≤ call.2.1)

def flashSectErase (banks : List FlashInfo) (addrFirst addrLast : Nat) : SectErase :=
  let filled := flashFillSectRanges banks addrFirst addrLast
  if filled.count ≠ 0 ∧ filled.rcode = 0 then ⟨0, eraseCalls banks filled.ranges⟩
  else if filled.rcode = 0 then ⟨1, []⟩
  else ⟨filled.rcode, []⟩

/-! Geometries: every bank that has been identified has at least one sector, ascending sector
starts and an address range that ends in the 32-bit space, and no two banks share an address.
The array `start` has CFG_MAX_FLASH_SECT entries, far fewer than a `short` can index. -/

structure FlashInfo.WellFormed (info : FlashInfo) : Prop where
  hasSector : 0 < info.sectorCount
  shortIndex : info.sectorCount ≤ 2 ^ 15
  ascending : ∀ i j, i < j → j < info.sectorCount → info.start i < info.start j
  lastInside : info.start (info.sectorCount - 1) < info.start 0 + info.size
  mapped : info.start 0 + info.size ≤ 2 ^ 32

def FlashInfo.Apart (left right : FlashInfo) : Prop :=
  left.start 0 + left.size ≤ right.start 0 ∨ right.start 0 + right.size ≤ left.start 0

structure Geometry where
  banks : List FlashInfo
  wellFormed : ∀ info ∈ banks, info.known = true → info.WellFormed
  apart : banks.Pairwise fun left right =>
    left.known = true → right.known = true → left.Apart right

def FlashInfo.IsStart (info : FlashInfo) (addr : Nat) : Prop :=
  ∃ s, s < info.sectorCount ∧ info.start s = addr

def FlashInfo.IsEnd (info : FlashInfo) (addr : Nat) : Prop :=
  ∃ s, s < info.sectorCount ∧ info.sectorEnd s = addr

/-- The last index below `n` that matches, or -1. -/
def lastMatch (hit : Nat → Prop) [DecidablePred hit] (n : Nat) : Int :=
  (List.range n).foldl (fun found s => if hit s then (s : Int) else found) (-1)

theorem last_match_succ (hit : Nat → Prop) [DecidablePred hit] (n : Nat) :
    lastMatch hit (n + 1) = if hit n then (n : Int) else lastMatch hit n := by
  simp [lastMatch, List.range_succ]

theorem last_match_cases (hit : Nat → Prop) [DecidablePred hit] (n : Nat) :
    (∀ s, s < n → ¬ hit s) ∧ lastMatch hit n = -1 ∨ ∃ s, s < n ∧ hit s ∧ lastMatch hit n = s := by
  induction n with
  | zero => exact Or.inl ⟨fun s below => absurd below (Nat.not_lt_zero s), rfl⟩
  | succ n ih =>
      rw [last_match_succ]
      by_cases matched : hit n
      · exact Or.inr ⟨n, Nat.lt_succ_self n, matched, if_pos matched⟩
      · rw [if_neg matched]
        rcases ih with ⟨absent, unset⟩ | ⟨s, below, same, value⟩
        · refine Or.inl ⟨fun s below => ?_, unset⟩
          rcases Nat.lt_succ_iff_lt_or_eq.mp below with earlier | last
          · exact absent s earlier
          · rw [last]
            exact matched
        · exact Or.inr ⟨s, by omega, same, value⟩

section Bank
variable {info : FlashInfo} (valid : info.WellFormed)
include valid

theorem start_zero_le {s : Nat} (sector : s < info.sectorCount) : info.start 0 ≤ info.start s := by
  rcases Nat.eq_zero_or_pos s with zero | positive
  · rw [zero]
  · exact Nat.le_of_lt (valid.ascending 0 s positive sector)

theorem start_le_last {s : Nat} (sector : s < info.sectorCount) :
    info.start s ≤ info.start (info.sectorCount - 1) := by
  by_cases last : s = info.sectorCount - 1
  · rw [last]
  · exact Nat.le_of_lt (valid.ascending s _ (by omega) (by omega))

theorem b_end_eq : info.bEnd + 1 = info.start 0 + info.size := by
  have inside := valid.lastInside
  have mapped := valid.mapped
  unfold FlashInfo.bEnd toUlong
  omega

theorem s_end_eq : info.sEnd = info.sectorCount - 1 := by
  have short := valid.shortIndex
  have positive := valid.hasSector
  unfold FlashInfo.sEnd toShort
  omega

theorem sector_end_last : info.sectorEnd (info.sectorCount - 1) = info.bEnd := by
  have positive := valid.hasSector
  have last := s_end_eq valid
  rw [FlashInfo.sectorEnd, if_pos (by omega)]

theorem sector_end_next {s : Nat} (next : s + 1 < info.sectorCount) :
    info.sectorEnd s + 1 = info.start (s + 1) := by
  have last := s_end_eq valid
  have rises := valid.ascending s (s + 1) (Nat.lt_succ_self s) next
  have below := start_le_last valid next
  have inside := valid.lastInside
  have mapped := valid.mapped
  rw [FlashInfo.sectorEnd, if_neg (by omega)]
  unfold toUlong
  omega

theorem start_le_sector_end {s : Nat} (sector : s < info.sectorCount) :
    info.start s ≤ info.sectorEnd s := by
  by_cases next : s + 1 < info.sectorCount
  · have stop := sector_end_next valid next
    have rises := valid.ascending s (s + 1) (Nat.lt_succ_self s) next
    omega
  · have last : s = info.sectorCount - 1 := by omega
    have inside := valid.lastInside
    have stop := b_end_eq valid
    rw [last, sector_end_last valid]
    omega

theorem sector_end_lt_start {s t : Nat} (order : s < t) (sector : t < info.sectorCount) :
    info.sectorEnd s < info.start t := by
  have stop := sector_end_next valid (s := s) (by omega)
  by_cases adjacent : s + 1 = t
  · rw [← adjacent]
    omega
  · have rises := valid.ascending (s + 1) t (by omega) sector
    omega

theorem sector_end_le_b_end {s : Nat} (sector : s < info.sectorCount) :
    info.sectorEnd s ≤ info.bEnd := by
  by_cases last : s = info.sectorCount - 1
  · rw [last, sector_end_last valid]
  · have before := sector_end_lt_start valid (s := s) (t := info.sectorCount - 1)
      (by omega) (by omega)
    have inside := valid.lastInside
    have stop := b_end_eq valid
    omega

variable {addrFirst addrLast : Nat} (ordered : addrFirst ≤ addrLast)
include ordered

/-- Neither `continue` of the sector loop can hide a sector that matches. -/
theorem scan_sector_eq (found : Int × Int) {s : Nat} (sector : s < info.sectorCount) :
    scanSector info addrFirst addrLast found s =
      (if addrFirst = info.start s then (s : Int) else found.1,
        if addrLast = info.sectorEnd s then (s : Int) else found.2) := by
  have extent := start_le_sector_end valid sector
  unfold scanSector
  split
  · have notFirst : addrFirst ≠ info.start s := by omega
    have notLast : addrLast ≠ info.sectorEnd s := by omega
    rw [if_neg notFirst, if_neg notLast]
  · split
    · have notFirst : addrFirst ≠ info.start s := by omega
      have notLast : addrLast ≠ info.sectorEnd s := by omega
      rw [if_neg notFirst, if_neg notLast]
    · rfl

theorem scan_sectors_eq (n : Nat) (bound : n ≤ info.sectorCount) :
    scanSectors info addrFirst addrLast n =
      (lastMatch (fun s => addrFirst = info.start s) n,
        lastMatch (fun s => addrLast = info.sectorEnd s) n) := by
  induction n with
  | zero => rfl
  | succ n ih =>
      have step : scanSectors info addrFirst addrLast (n + 1) =
          scanSector info addrFirst addrLast (scanSectors info addrFirst addrLast n) n := by
        simp [scanSectors, List.range_succ]
      rw [step, ih (by omega), scan_sector_eq valid ordered _ (by omega), last_match_succ,
        last_match_succ]

/-- All that the loop body can do in an identified bank. -/
theorem bank_step_cases (identified : info.known = true) (ulong : addrLast < 2 ^ 32) :
    (∃ s t : Nat, s ≤ t ∧ t < info.sectorCount ∧ info.start s = addrFirst ∧
      info.sectorEnd t = addrLast ∧
      bankStep info addrFirst addrLast = .take s t (toUlong (addrLast + 1))) ∨
    (∃ s : Nat, s < info.sectorCount ∧ info.start s = addrFirst ∧ info.bEnd < addrLast ∧
      bankStep info addrFirst addrLast = .take s (info.sectorCount - 1 : Nat) (info.bEnd + 1)) ∨
    (∃ sFirst sLast : Int, bankStep info addrFirst addrLast = .fail sFirst sLast ∧
      (info.IsStart addrFirst → ¬ info.IsEnd addrLast ∧ addrLast < info.bEnd) ∧
      (¬ info.IsStart addrFirst →
        info.IsEnd addrLast ∨ info.start 0 ≤ addrFirst ∧ addrFirst < info.bEnd)) ∨
    (bankStep info addrFirst addrLast = .skip ∧ ¬ info.IsStart addrFirst ∧
      ¬ info.IsEnd addrLast ∧ ¬ (info.start 0 ≤ addrFirst ∧ addrFirst < info.bEnd)) := by
  have scanned := scan_sectors_eq valid ordered info.sectorCount (Nat.le_refl _)
  have last := s_end_eq valid
  have positive := valid.hasSector
  have stop := b_end_eq valid
  have mapped := valid.mapped
  simp only [bankStep, identified, Bool.true_eq_false, if_false, scanned]
  -- The scan has found the last sector that matches, if there is one, for either address.
  rcases last_match_cases (fun s => addrFirst = info.start s) info.sectorCount with
    ⟨noFirst, unsetFirst⟩ | ⟨s, below, same, setFirst⟩
  · have notStart : ¬ info.IsStart addrFirst := fun ⟨s, below, same⟩ => noFirst s below same.symm
    rw [unsetFirst, if_neg (by decide)]
    by_cases inside : info.start 0 ≤ addrFirst ∧ addrFirst < info.bEnd
    · rw [if_pos inside]
      exact Or.inr (Or.inr (Or.inl ⟨_, _, rfl, fun start => absurd start notStart,
        fun _ => Or.inr inside⟩))
    · rw [if_neg inside]
      rcases last_match_cases (fun s => addrLast = info.sectorEnd s) info.sectorCount with
        ⟨noLast, unsetLast⟩ | ⟨t, belowLast, sameLast, setLast⟩
      · have notEnd : ¬ info.IsEnd addrLast := fun ⟨t, belowLast, sameLast⟩ =>
          noLast t belowLast sameLast.symm
        rw [unsetLast, if_neg (by decide)]
        exact Or.inr (Or.inr (Or.inr ⟨rfl, notStart, notEnd, inside⟩))
      · rw [setLast, if_pos (by omega)]
        exact Or.inr (Or.inr (Or.inl ⟨_, _, rfl, fun start => absurd start notStart,
          fun _ => Or.inl ⟨t, belowLast, sameLast.symm⟩⟩))
  · have isStart : info.IsStart addrFirst := ⟨s, below, same.symm⟩
    rw [setFirst, if_pos (by omega)]
    rcases last_match_cases (fun s => addrLast = info.sectorEnd s) info.sectorCount with
      ⟨noLast, unsetLast⟩ | ⟨t, belowLast, sameLast, setLast⟩
    · have notEnd : ¬ info.IsEnd addrLast := fun ⟨t, belowLast, sameLast⟩ =>
        noLast t belowLast sameLast.symm
      have notLast : addrLast ≠ info.bEnd := by
        have whole := sector_end_last valid
        exact fun same => noLast (info.sectorCount - 1) (by omega) (by rw [whole, same])
      rw [unsetLast, if_pos (by decide)]
      by_cases past : addrLast > info.bEnd
      · rw [if_pos past]
        refine Or.inr (Or.inl ⟨s, below, same.symm, past, ?_⟩)
        rw [bankTake, if_neg (by omega), if_pos rfl, last]
        congr 1
        · omega
        · unfold toUlong
          omega
      · rw [if_neg past]
        exact Or.inr (Or.inr (Or.inl ⟨_, _, rfl, fun _ => ⟨notEnd, by omega⟩,
          fun notStart => absurd isStart notStart⟩))
    · rw [setLast, if_neg (by omega)]
      have order : s ≤ t := by
        by_contra reversed
        have crossed := sector_end_lt_start valid (s := t) (t := s) (by omega) below
        omega
      refine Or.inl ⟨s, t, order, belowLast, same.symm, sameLast.symm, ?_⟩
      rw [bankTake, if_neg (by omega)]
      congr 1
      by_cases whole : t = info.sectorCount - 1
      · have lastEnd := sector_end_last valid
        rw [if_pos (by omega), sameLast, whole, lastEnd]
      · have next := sector_end_next valid (s := t) (by omega)
        have begins := start_le_last valid (s := t + 1) (by omega)
        have inside := valid.lastInside
        rw [if_neg (by omega), sameLast]
        have index : ((t : Int) + 1).toNat = t + 1 := by omega
        rw [index, ← next]
        unfold toUlong
        omega

end Bank

theorem sector_run_union {info : FlashInfo} (valid : info.WellFormed) (s t addr : Nat)
    (order : s ≤ t) (sector : t < info.sectorCount) :
    (∃ k, s ≤ k ∧ k ≤ t ∧ info.start k ≤ addr ∧ addr ≤ info.sectorEnd k) ↔
      info.start s ≤ addr ∧ addr ≤ info.sectorEnd t := by
  induction t, order using Nat.le_induction with
  | base =>
      constructor
      · rintro ⟨k, above, below, inside⟩
        have same : k = s := by omega
        rwa [same] at inside
      · exact fun inside => ⟨s, Nat.le_refl s, Nat.le_refl s, inside⟩
  | succ t order ih =>
      have joint := sector_end_next valid sector
      have tail := ih (by omega)
      have extent := start_le_sector_end valid sector
      constructor
      · rintro ⟨k, above, below, inside⟩
        by_cases last : k = t + 1
        · have whole := tail.mp
          have begins := sector_end_lt_start valid (s := s) (t := t + 1) (by omega) sector
          have low := start_le_sector_end valid (s := s) (by omega)
          rw [last] at inside
          omega
        · have earlier := tail.mp ⟨k, above, by omega, inside⟩
          omega
      · rintro ⟨above, below⟩
        by_cases earlier : addr ≤ info.sectorEnd t
        · obtain ⟨k, low, high, inside⟩ := tail.mpr ⟨above, earlier⟩
          exact ⟨k, low, by omega, inside⟩
        · exact ⟨t + 1, by omega, Nat.le_refl _, by omega, below⟩

def FlashInfo.Holds (info : FlashInfo) (addr : Nat) : Prop :=
  info.known = true ∧ info.start 0 ≤ addr ∧ addr ≤ info.bEnd

instance (info : FlashInfo) (addr : Nat) : Decidable (info.Holds addr) :=
  inferInstanceAs (Decidable (_ ∧ _ ∧ _))

theorem start_holds {info : FlashInfo} {addr : Nat} (valid : info.WellFormed)
    (identified : info.known = true) (start : info.IsStart addr) : info.Holds addr := by
  obtain ⟨s, sector, rfl⟩ := start
  exact ⟨identified, start_zero_le valid sector,
    Nat.le_trans (start_le_sector_end valid sector) (sector_end_le_b_end valid sector)⟩

theorem end_holds {info : FlashInfo} {addr : Nat} (valid : info.WellFormed)
    (identified : info.known = true) (stop : info.IsEnd addr) : info.Holds addr := by
  obtain ⟨s, sector, rfl⟩ := stop
  exact ⟨identified, Nat.le_trans (start_zero_le valid sector) (start_le_sector_end valid sector),
    sector_end_le_b_end valid sector⟩

theorem zero_is_start {info : FlashInfo} (valid : info.WellFormed) : info.IsStart (info.start 0) :=
  ⟨0, valid.hasSector, rfl⟩

theorem start_le_b_end {info : FlashInfo} (valid : info.WellFormed) : info.start 0 ≤ info.bEnd :=
  Nat.le_trans (start_le_sector_end valid valid.hasSector)
    (sector_end_le_b_end valid valid.hasSector)

/-- The board's bank, whatever its protection table says. -/
theorem flash_get_geom_well_formed (protect : Nat → UInt8) :
    ({ flashGetGeom with protect := protect } : FlashInfo).WellFormed where
  hasSector := (by decide : 0 < flashGetGeom.sectorCount)
  shortIndex := (by decide : flashGetGeom.sectorCount ≤ 2 ^ 15)
  ascending := by
    intro i j order _
    simp only [flashGetGeom, cfgFlashSectorSize]
    omega
  lastInside := (by decide : flashGetGeom.start (flashGetGeom.sectorCount - 1) <
    flashGetGeom.start 0 + flashGetGeom.size)
  mapped := (by decide : flashGetGeom.start 0 + flashGetGeom.size ≤ 2 ^ 32)

end UBoot.Flash.SectRanges
