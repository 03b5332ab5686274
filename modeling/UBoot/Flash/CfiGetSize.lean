import UBoot.Library.Layout

/-!
drivers/cfi_flash.c: flash_get_size fills the sectors of a flash from its query area. The arrays of
flash_info_t are a list here, so that it can be told where they would be overrun.
-/

namespace UBoot.Flash.CfiGetSize

open Library.Layout

def NUM_ERASE_REGIONS : Nat := 4

def FLASH_OFFSET_CFI_RESP : Nat := 0x10
def FLASH_OFFSET_PRIMARY_VENDOR : Nat := 0x13
def FLASH_OFFSET_INTERFACE : Nat := 0x28
def FLASH_OFFSET_NUM_ERASE_REGIONS : Nat := 0x2C
def FLASH_OFFSET_ERASE_REGIONS : Nat := 0x2D
def FLASH_OFFSET_PROTECT : Nat := 0x02

def CFI_CMDSET_INTEL_EXTENDED : Nat := 1
def CFI_CMDSET_INTEL_STANDARD : Nat := 3

def FLASH_CFI_X8X16 : Nat := 2

/-- The configuration of the board. -/
structure Config where
  bigEndian : Bool
  /-- CFG_FLASH_CFI_WIDTH. -/
  cfiWidth : Nat
  /-- CFG_MAX_FLASH_SECT. -/
  maxFlashSect : Nat

section Reads
variable (config : Config) (bytes : UInt32 → UInt8) (portwidth chipwidth : Nat)

def flashMakeAddr (start : UInt32) (offset : Nat) : UInt32 := start + UInt32.ofNat (offset * portwidth)

/-- The `k`-th port behind an address, at its lane of low bits. -/
def lane (addr : UInt32) (k : Nat) : Nat :=
  (bytes (addr + UInt32.ofNat (k * portwidth + if config.bigEndian then portwidth - 1 else 0))).toNat

def flashReadUchar (start : UInt32) (offset : Nat) : Nat :=
  lane config bytes portwidth (flashMakeAddr portwidth start offset) 0

def flashReadUshort (start : UInt32) (offset : Nat) : Nat :=
  let addr := flashMakeAddr portwidth start offset
  lane config bytes portwidth addr 1 * 2 ^ 8 + lane config bytes portwidth addr 0

def flashReadLong (start : UInt32) (offset : Nat) : Nat :=
  let addr := flashMakeAddr portwidth start offset
  lane config bytes portwidth addr 1 * 2 ^ 24 + lane config bytes portwidth addr 0 * 2 ^ 16 +
    lane config bytes portwidth addr 3 * 2 ^ 8 + lane config bytes portwidth addr 2

/-- The `k`-th byte of a command. -/
def flashMakeCmd (cmd : UInt8) (k : Nat) : UInt8 :=
  let i := if config.bigEndian then k + 1 else portwidth - k
  if i &&& (chipwidth - 1) ≠ 0 then 0 else cmd

/-- The widths that a port can have. -/
def portwidths : List Nat := [1, 2, 4, 8]

def flashIsequal (start : UInt32) (offset : Nat) (cmd : UInt8) : Bool :=
  portwidths.contains portwidth && (List.range portwidth).all fun k =>
    bytes (flashMakeAddr portwidth start offset + UInt32.ofNat k) ==
      flashMakeCmd config portwidth chipwidth cmd k

def flashIsset (start : UInt32) (offset : Nat) (cmd : UInt8) : Bool :=
  portwidths.contains portwidth && (List.range portwidth).all fun k =>
    bytes (flashMakeAddr portwidth start offset + UInt32.ofNat k) &&&
        flashMakeCmd config portwidth chipwidth cmd k ==
      flashMakeCmd config portwidth chipwidth cmd k

end Reads

/-- A width that is doubled up to a limit. -/
def widths (first limit : Nat) : List Nat :=
  ((List.range 4).map fun n => first <<< n).filter (· ≤ limit)

/-- The widths of the port and the chip at which flash_detect_cfi finds a query area; `query` is what
the flash shows behind the command of these widths. -/
def flashDetectCfi (config : Config) (query : Nat → Nat → UInt32 → UInt8) (base : UInt32) :
    Option (Nat × Nat) :=
  ((widths config.cfiWidth 8).flatMap fun portwidth =>
      (widths 1 portwidth).map fun chipwidth => (portwidth, chipwidth)).find?
    fun (portwidth, chipwidth) =>
      let isequal := flashIsequal config (query portwidth chipwidth) portwidth chipwidth base
      isequal FLASH_OFFSET_CFI_RESP 0x51 && isequal (FLASH_OFFSET_CFI_RESP + 1) 0x52 &&
        isequal (FLASH_OFFSET_CFI_RESP + 2) 0x59

/-- An element of info->start with that of info->protect. -/
structure Entry where
  start : UInt32
  isProtected : Bool

structure Geometry where
  entries : List Entry
  sector : UInt32
  /-- The erase regions that were used. -/
  regions : Nat

section Fill
variable (config : Config) (bytes : UInt32 → UInt8) (portwidth chipwidth : Nat) (base : UInt32)

def sizeRatio (interface : Nat) : Nat :=
  let ratio := portwidth / chipwidth
  if interface = FLASH_CFI_X8X16 ∧ chipwidth = 1 then ratio >>> 1 else ratio

def eraseRegionSize (tmp : Nat) : Nat :=
  if tmp &&& 0xffff ≠ 0 then (tmp &&& 0xffff) * 256 else 128

def eraseRegionCount (tmp : Nat) : Nat := (tmp >>> 16 &&& 0xffff) + 1

/-- Only Intel's command sets tell a protection. -/
def protection (vendor : Nat) (sector : UInt32) : Bool :=
  if vendor = CFI_CMDSET_INTEL_EXTENDED ∨ vendor = CFI_CMDSET_INTEL_STANDARD then
    flashIsset config bytes portwidth chipwidth sector FLASH_OFFSET_PROTECT 0x01
  else false

/-- The sectors of a region. -/
def sectorLoop (vendor step : Nat) : (turns : Nat) → Geometry → Geometry
  | 0, geometry => geometry
  | turns + 1, geometry =>
      let entry :=
        { start := geometry.sector
          isProtected := protection config bytes portwidth chipwidth vendor geometry.sector }
      sectorLoop vendor step turns
        { geometry with
          entries := geometry.entries ++ [entry]
          sector := geometry.sector + UInt32.ofNat step }

/-- The long word of a region in the query area. -/
def regionWord (i : Nat) : Nat :=
  flashReadLong config bytes portwidth base (FLASH_OFFSET_ERASE_REGIONS + i * 4)

def regionLoop (vendor ratio : Nat) : (left i : Nat) → Geometry → Geometry
  | 0, _, geometry => geometry
  | left + 1, i, geometry =>
      if i > NUM_ERASE_REGIONS then geometry
      else
        let tmp := regionWord config bytes portwidth base i
        regionLoop vendor ratio left (i + 1)
          (sectorLoop config bytes portwidth chipwidth vendor (eraseRegionSize tmp * ratio)
            (eraseRegionCount tmp) { geometry with regions := geometry.regions + 1 })

def interfaceOf : Nat := flashReadUshort config bytes portwidth base FLASH_OFFSET_INTERFACE

def numEraseRegions : Nat := flashReadUchar config bytes portwidth base FLASH_OFFSET_NUM_ERASE_REGIONS

/-- The part of flash_get_size behind the detection. -/
def fillSectors : Geometry :=
  let vendor := flashReadUshort config bytes portwidth base FLASH_OFFSET_PRIMARY_VENDOR
  let ratio := sizeRatio portwidth chipwidth (interfaceOf config bytes portwidth base)
  regionLoop config bytes portwidth chipwidth base vendor ratio
    (numEraseRegions config bytes portwidth base) 0 { entries := [], sector := base, regions := 0 }

end Fill

/-- flash_get_size, where a query area is found. -/
def flashGetSize (config : Config) (query : Nat → Nat → UInt32 → UInt8) (base : UInt32) :
    Option Geometry :=
  (flashDetectCfi config query base).map fun (portwidth, chipwidth) =>
    fillSectors config (query portwidth chipwidth) portwidth chipwidth base

/-- info->sector_count, an unsigned short. -/
def Geometry.sectorCount (geometry : Geometry) : UInt16 := UInt16.ofNat geometry.entries.length

/-- Sectors as flash_info_t can hold them. -/
structure Geometry.Sound (maxFlashSect : Nat) (geometry : Geometry) : Prop where
  fits : geometry.entries.length ≤ maxFlashSect
  regions : geometry.regions ≤ NUM_ERASE_REGIONS
  ascending : geometry.entries.Pairwise fun one other => one.start < other.start
  counted : geometry.sectorCount.toNat = geometry.entries.length

section Table
variable (config : Config) (bytes : UInt32 → UInt8) (portwidth chipwidth : Nat) (base : UInt32)

/-- The sizes of the sectors that the table tells, region by region. -/
def regionSectors (i : Nat) : List Nat :=
  let tmp := regionWord config bytes portwidth base i
  List.replicate (eraseRegionCount tmp)
    (eraseRegionSize tmp * sizeRatio portwidth chipwidth (interfaceOf config bytes portwidth base))

def sectors : List Nat :=
  (List.range' 0 (numEraseRegions config bytes portwidth base)).flatMap
    (regionSectors config bytes portwidth chipwidth base)

/-- A table that flash_info_t can hold: four regions at most, as many sectors as there is room and
a short can count, none of them behind the address space, and no chip of two widths at a port of
eight bits, unless it has one sector. -/
structure Holdable : Prop where
  regions : numEraseRegions config bytes portwidth base ≤ NUM_ERASE_REGIONS
  fits : (sectors config bytes portwidth chipwidth base).length ≤ config.maxFlashSect
  counted : (sectors config bytes portwidth chipwidth base).length < 2 ^ 16
  below : ∀ start ∈ starts base.toNat (sectors config bytes portwidth chipwidth base), start < 2 ^ 32
  wide : (sectors config bytes portwidth chipwidth base).length ≤ 1 ∨
    ¬(portwidth = 1 ∧ interfaceOf config bytes portwidth base = FLASH_CFI_X8X16)

end Table

section Loops
variable {config : Config} {bytes : UInt32 → UInt8} {portwidth chipwidth : Nat} {base : UInt32}

theorem sector_loop_eq (vendor step turns first : Nat) (geometry : Geometry)
    (place : geometry.sector = UInt32.ofNat first) :
    let after := sectorLoop config bytes portwidth chipwidth vendor step turns geometry
    after.entries.map Entry.start = geometry.entries.map Entry.start ++
        (starts first (List.replicate turns step)).map UInt32.ofNat ∧
      after.sector = UInt32.ofNat (first + (List.replicate turns step).sum) ∧
        after.regions = geometry.regions := by
  induction turns generalizing first geometry with
  | zero => exact ⟨(List.append_nil _).symm, place, rfl⟩
  | succ turns ih =>
      rw [sectorLoop]
      have next : geometry.sector + UInt32.ofNat step = UInt32.ofNat (first + step) := by
        rw [place, UInt32.ofNat_add]
      obtain ⟨entries, sector, regions⟩ := ih (first + step)
        { geometry with
          entries := geometry.entries ++ [
            { start := geometry.sector
              isProtected :=
                protection config bytes portwidth chipwidth vendor geometry.sector }]
          sector := geometry.sector + UInt32.ofNat step } next
      refine ⟨entries.trans ?_, sector.trans ?_, regions⟩
      · rw [List.map_append, List.replicate_succ, starts, List.map_cons, List.map_cons, List.append_assoc,
          ← place]
        rfl
      · rw [List.replicate_succ, List.sum_cons, Nat.add_assoc]

/-- The loop uses five regions at most. -/
theorem region_loop_regions (vendor ratio left i : Nat) (geometry : Geometry) :
    (regionLoop config bytes portwidth chipwidth base vendor ratio left i geometry).regions =
      geometry.regions + min left (NUM_ERASE_REGIONS + 1 - i) := by
  induction left generalizing i geometry with
  | zero => rw [regionLoop, Nat.zero_min, Nat.add_zero]
  | succ left ih =>
      rw [regionLoop]
      by_cases last : i > NUM_ERASE_REGIONS
      · rw [if_pos last]
        omega
      · obtain ⟨-, -, regions⟩ := @sector_loop_eq config bytes portwidth chipwidth vendor
          (eraseRegionSize (regionWord config bytes portwidth base i) * ratio)
          (eraseRegionCount (regionWord config bytes portwidth base i)) geometry.sector.toNat
          { geometry with regions := geometry.regions + 1 } (UInt32.ofNat_toNat).symm
        rw [if_neg last]
        dsimp only
        rw [ih, regions]
        dsimp only
        omega

theorem region_loop_entries (vendor left i first : Nat) (geometry : Geometry)
    (few : i + left ≤ NUM_ERASE_REGIONS + 1) (place : geometry.sector = UInt32.ofNat first) :
    (regionLoop config bytes portwidth chipwidth base vendor
        (sizeRatio portwidth chipwidth (interfaceOf config bytes portwidth base)) left i
        geometry).entries.map Entry.start =
      geometry.entries.map Entry.start ++
        (starts first ((List.range' i left).flatMap
          (regionSectors config bytes portwidth chipwidth base))).map UInt32.ofNat := by
  induction left generalizing i first geometry with
  | zero => exact (List.append_nil _).symm
  | succ left ih =>
      obtain ⟨entries, sector, -⟩ := @sector_loop_eq config bytes portwidth chipwidth vendor
        (eraseRegionSize (regionWord config bytes portwidth base i) *
          sizeRatio portwidth chipwidth (interfaceOf config bytes portwidth base))
        (eraseRegionCount (regionWord config bytes portwidth base i)) first
        { geometry with regions := geometry.regions + 1 } place
      rw [regionLoop, if_neg (by omega)]
      dsimp only
      rw [ih (i + 1) _ _ (by omega) sector, entries, List.range'_succ, List.flatMap_cons, starts_append,
        List.map_append, List.append_assoc]
      rfl

theorem fill_starts (few : numEraseRegions config bytes portwidth base ≤ NUM_ERASE_REGIONS) :
    (fillSectors config bytes portwidth chipwidth base).entries.map Entry.start =
      (starts base.toNat (sectors config bytes portwidth chipwidth base)).map UInt32.ofNat :=
  region_loop_entries _ _ 0 base.toNat _ (by omega) UInt32.ofNat_toNat.symm

theorem fill_regions : (fillSectors config bytes portwidth chipwidth base).regions =
    min (numEraseRegions config bytes portwidth base) (NUM_ERASE_REGIONS + 1) := by
  rw [fillSectors, region_loop_regions]
  exact Nat.zero_add _

end Loops

section Sound
variable {config : Config} {query : Nat → Nat → UInt32 → UInt8} {portwidth chipwidth : Nat}
  {base : UInt32}

/-- The widths of a detected flash. -/
theorem detected_widths (detected : flashDetectCfi config query base = some (portwidth, chipwidth)) :
    portwidth ∈ portwidths ∧ 0 < chipwidth ∧ chipwidth ≤ portwidth := by
  have equal := List.find?_some detected
  have member := List.mem_of_find?_eq_some detected
  obtain ⟨port, -, chip⟩ := List.mem_flatMap.mp member
  obtain ⟨width, limit, same⟩ := List.mem_map.mp chip
  cases same
  obtain ⟨doubled, limit⟩ := List.mem_filter.mp limit
  obtain ⟨n, -, rfl⟩ := List.mem_map.mp doubled
  simp only [flashIsequal, Bool.and_eq_true, List.contains_iff_mem] at equal
  refine ⟨equal.1.1.1, ?_, of_decide_eq_true limit⟩
  rw [Nat.one_shiftLeft]
  exact Nat.two_pow_pos n

/-- The ratio is zero for a chip of two widths at a port of eight bits. -/
theorem ratio_positive {interface : Nat} (positive : 0 < chipwidth) (chip : chipwidth ≤ portwidth) :
    0 < sizeRatio portwidth chipwidth interface ↔ ¬(portwidth = 1 ∧ interface = FLASH_CFI_X8X16) := by
  have whole : 0 < portwidth / chipwidth := Nat.div_pos chip positive
  rw [sizeRatio]
  by_cases both : interface = FLASH_CFI_X8X16 ∧ chipwidth = 1
  · obtain ⟨rfl, rfl⟩ := both
    rw [if_pos ⟨rfl, rfl⟩, Nat.div_one, Nat.shiftRight_one]
    omega
  · rw [if_neg both]
    refine iff_of_true whole fun narrow => both ⟨narrow.2, ?_⟩
    omega

theorem region_size (tmp : Nat) : 0 < eraseRegionSize tmp ∧ eraseRegionSize tmp < 2 ^ 24 := by
  have word : tmp &&& 0xffff = tmp % 2 ^ 16 := Nat.and_two_pow_sub_one_eq_mod tmp 16
  rw [eraseRegionSize, word]
  split <;> omega

theorem ratio_small (port : portwidth ∈ portwidths) (interface : Nat) :
    sizeRatio portwidth chipwidth interface ≤ 8 := by
  have part := Nat.div_le_self portwidth chipwidth
  have eight : portwidth ≤ 8 := by
    simp only [portwidths, List.mem_cons, List.not_mem_nil, or_false] at port
    omega
  rw [sizeRatio]
  split
  · rw [Nat.shiftRight_one]
    omega
  · omega

theorem sector_sizes (bytes : UInt32 → UInt8) {size : Nat}
    (member : size ∈ sectors config bytes portwidth chipwidth base) :
    ∃ tmp, size = eraseRegionSize tmp *
      sizeRatio portwidth chipwidth (interfaceOf config bytes portwidth base) := by
  obtain ⟨i, -, inside⟩ := List.mem_flatMap.mp member
  exact ⟨_, List.eq_of_mem_replicate inside⟩

/-- No sector but the last one is empty exactly where the ratio is not zero, or where there is no other
sector. -/
theorem sizes_positive (bytes : UInt32 → UInt8) :
    (∀ size ∈ (sectors config bytes portwidth chipwidth base).dropLast, 0 < size) ↔
      (sectors config bytes portwidth chipwidth base).length ≤ 1 ∨
        0 < sizeRatio portwidth chipwidth (interfaceOf config bytes portwidth base) := by
  constructor
  · intro positive
    cases front : (sectors config bytes portwidth chipwidth base).dropLast with
    | nil =>
        have length := congrArg List.length front
        rw [List.length_dropLast] at length
        exact Or.inl (Nat.le_of_sub_eq_zero length)
    | cons size rest =>
        have here : size ∈ (sectors config bytes portwidth chipwidth base).dropLast := by
          rw [front]
          exact List.mem_cons_self
        obtain ⟨tmp, same⟩ := sector_sizes bytes (List.mem_of_mem_dropLast here)
        have more := positive size here
        rw [same] at more
        exact Or.inr (Nat.pos_of_mul_pos_left more)
  · rintro (few | positive) size member
    · have length : (sectors config bytes portwidth chipwidth base).dropLast.length = 0 := by
        rw [List.length_dropLast]
        omega
      rw [List.length_eq_zero_iff.mp length] at member
      exact absurd member List.not_mem_nil
    · obtain ⟨tmp, rfl⟩ := sector_sizes bytes (List.mem_of_mem_dropLast member)
      exact Nat.mul_pos (region_size tmp).1 positive

theorem sizes_small (port : portwidth ∈ portwidths) (bytes : UInt32 → UInt8) :
    ∀ size ∈ sectors config bytes portwidth chipwidth base, size < 2 ^ 32 := by
  intro size member
  obtain ⟨tmp, rfl⟩ := sector_sizes bytes member
  have large := (region_size tmp).2
  have ratio := @ratio_small portwidth chipwidth port (interfaceOf config bytes portwidth base)
  calc eraseRegionSize tmp * _ ≤ 2 ^ 24 * 8 := Nat.mul_le_mul (Nat.le_of_lt large) ratio
    _ < 2 ^ 32 := by decide

theorem ascending_starts {entries : List Entry} {places : List Nat}
    (same : entries.map Entry.start = places.map UInt32.ofNat) :
    (entries.Pairwise fun one other => one.start < other.start) ↔
      (places.map (· % 2 ^ 32)).Pairwise (· < ·) := by
  have values : places.map (· % 2 ^ 32) = entries.map (fun entry => entry.start.toNat) := by
    have both := congrArg (List.map UInt32.toNat) same
    rw [List.map_map, List.map_map] at both
    exact both.symm
  rw [values, List.pairwise_map]
  rfl

theorem sound_iff (port : portwidth ∈ portwidths) (positive : 0 < chipwidth)
    (chip : chipwidth ≤ portwidth) (bytes : UInt32 → UInt8) :
    (fillSectors config bytes portwidth chipwidth base).Sound config.maxFlashSect ↔
      Holdable config bytes portwidth chipwidth base := by
  have used := @fill_regions config bytes portwidth chipwidth base
  by_cases few : numEraseRegions config bytes portwidth base ≤ NUM_ERASE_REGIONS
  · have places := @fill_starts config bytes portwidth chipwidth base few
    have length : (fillSectors config bytes portwidth chipwidth base).entries.length =
        (sectors config bytes portwidth chipwidth base).length := by
      have both := congrArg List.length places
      rw [List.length_map, List.length_map, starts_length] at both
      exact both
    have ascending : ((fillSectors config bytes portwidth chipwidth base).entries.Pairwise
        fun one other => one.start < other.start) ↔ _ := (ascending_starts places).trans
          (ascending_iff base.toNat_lt (sizes_small port bytes))
    rw [sizes_positive bytes, ratio_positive positive chip] at ascending
    have counted : (fillSectors config bytes portwidth chipwidth base).sectorCount.toNat =
        (fillSectors config bytes portwidth chipwidth base).entries.length ↔
          (sectors config bytes portwidth chipwidth base).length < 2 ^ 16 := by
      rw [Geometry.sectorCount, UInt16.toNat_ofNat', length]
      omega
    constructor
    · intro sound
      obtain ⟨below, wide⟩ := ascending.mp sound.ascending
      exact ⟨few, length ▸ sound.fits, counted.mp sound.counted, below, wide⟩
    · intro holdable
      exact ⟨length ▸ holdable.fits, by omega, ascending.mpr ⟨holdable.below, holdable.wide⟩,
        counted.mpr holdable.counted⟩
  · refine iff_of_false (fun sound => ?_) (fun holdable => few holdable.regions)
    have four := sound.regions
    omega

end Sound

/-- The sectors of a flash are filled as flash_info_t can hold them exactly where the table of its
query area is holdable. -/
theorem flash_get_size_iff (config : Config) (query : Nat → Nat → UInt32 → UInt8) (base : UInt32) :
    (∀ geometry, flashGetSize config query base = some geometry →
      geometry.Sound config.maxFlashSect) ↔
    ∀ portwidth chipwidth, flashDetectCfi config query base = some (portwidth, chipwidth) →
      Holdable config (query portwidth chipwidth) portwidth chipwidth base := by
  rw [flashGetSize]
  constructor
  · intro sound portwidth chipwidth detected
    obtain ⟨port, positive, chip⟩ := detected_widths detected
    rw [detected] at sound
    exact (sound_iff port positive chip _).mp (sound _ rfl)
  · intro holdable geometry filled
    obtain ⟨⟨portwidth, chipwidth⟩, detected, rfl⟩ := Option.map_eq_some_iff.mp filled
    obtain ⟨port, positive, chip⟩ := detected_widths detected
    exact (sound_iff port positive chip _).mpr (holdable portwidth chipwidth detected)

/-- A query area with five erase regions, each of one sector of 128 bytes. -/
def fiveRegions (address : UInt32) : UInt8 :=
  if address = 0x10 then 0x51 else if address = 0x11 then 0x52 else if address = 0x12 then 0x59
  else if address = 0x2C then 5 else 0

/-- All five are used. -/
theorem fifth_region_used : ¬∀ geometry,
    flashGetSize { bigEndian := true, cfiWidth := 1, maxFlashSect := 512 } (fun _ _ => fiveRegions) 0 =
      some geometry → geometry.Sound 512 := by
  intro sound
  have regions := (sound _ rfl).regions
  exact absurd regions (by decide)

end UBoot.Flash.CfiGetSize
