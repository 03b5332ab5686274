import UBoot.Library.Bits

/-!
drivers/dataflash.c: the check of a range and the protected areas before a DataFlash is written.
AT91F_DataFlashWrite, which writes it, is a parameter. Addresses are unsigned 32-bit numbers.
-/

namespace UBoot.Flash.Dataflash

def FLAG_PROTECT_SET : UInt8 := 1
def FLAG_PROTECT_CLEAR : UInt8 := 2

def DATAFLASH_OK : Int := 1

def ERR_PROTECTED : Int := 4
def ERR_INVAL : Int := 8
def ERR_UNKNOWN_FLASH_TYPE : Int := 64

/-- An area goes from `start` to `stop`, its last address. -/
structure Area where
  start : UInt32
  stop : UInt32
  protection : UInt8

/-- The size of a device is an int. -/
structure Device where
  pagesNumber : Nat
  pagesSize : Nat
  areaList : List Area
  fits : pagesSize * pagesNumber < 2 ^ 31

def Device.bytes (device : Device) : Nat := device.pagesSize * device.pagesNumber

structure Info where
  device : Device
  logicalAddress : UInt32

/-- The bytes of each bank. -/
abbrev Contents := Nat → Nat → UInt8

/-- AT91F_DataFlashWrite writes `size` bytes from `dest` on, or fails; it leaves the rest alone. -/
structure Driver where
  write : (bank : Nat) → Device → (src : Nat → UInt8) → (dest size : Nat) → Contents → Int × Contents
  frame : ∀ bank device src dest size contents other offset,
    ¬(other = bank ∧ dest ≤ offset ∧ offset < dest + size) →
      (write bank device src dest size contents).2 other offset = contents other offset

section Code
variable (infos : List Info)

/-- The bank that AT91F_DataflashSelect finds for an address. -/
def dataflashSelect (addr : UInt32) : Option (Fin infos.length) :=
  infos.findFinIdx? fun info => addr &&& 0xff000000 == info.logicalAddress

def sizeDataflash (device : Device) (addr size : UInt32) : Int :=
  if (addr &&& 0x0fffffff).toNat > device.bytes then 0
  else if size.toNat > device.bytes - (addr &&& 0x0fffffff).toNat then 0
  else 1

/-- The area that prot_dataflash finds for an address. -/
def areaOf (device : Device) (addr : UInt32) : Option Area :=
  device.areaList.find? fun area => addr ≥ area.start && addr < area.stop

def protDataflash (device : Device) (addr : UInt32) : Int :=
  match areaOf device addr with
  | none => -1
  | some area => if area.protection = FLAG_PROTECT_SET then 0 else 1

/-- The result of dataflash_real_protect, and the devices after it. -/
def dataflashRealProtect (flag : Int) (startAddr endAddr : UInt32) : Int × List Info :=
  match infos.findFinIdx? fun info => startAddr &&& 0xf0000000 == info.logicalAddress with
  | none => (-1, infos)
  | some bank =>
      let info := infos.get bank
      let areas := info.device.areaList
      match areas.findIdx? (fun area => startAddr == area.start),
          areas.findIdx? (fun area => endAddr == area.stop) with
      | some area1, some area2 =>
          let protection := if flag = 0 then FLAG_PROTECT_CLEAR else FLAG_PROTECT_SET
          let areas := areas.mapIdx fun j area =>
            if area1 ≤ j ∧ j < area2 + 1 then { area with protection := protection } else area
          ((area2 : Int) - area1 + 1,
            infos.set bank { info with device := { info.device with areaList := areas } })
      | _, _ => (-1, infos)

/-- The result of write_dataflash, and the bytes after it. -/
def writeDataflash (driver : Driver) (addrDest : UInt32) (src : Nat → UInt8) (size : UInt32)
    (contents : Contents) : Int × Contents :=
  match dataflashSelect infos addrDest with
  | none => (ERR_UNKNOWN_FLASH_TYPE, contents)
  | some bank =>
      let info := infos.get bank
      let addrToWrite := addrDest - info.logicalAddress
      if sizeDataflash info.device addrDest size = 0 then (ERR_INVAL, contents)
      else if protDataflash info.device addrDest = 0 then (ERR_PROTECTED, contents)
      else if addrToWrite = 0xffffffff then (-1, contents)
      else driver.write bank info.device src addrToWrite.toNat size.toNat contents

/-- area_list as AT91F_DataflashInit sets it for a device. -/
def initialAreas (bytes logicalAddress : UInt32) : List Area :=
  let areaList : List Area :=
    [{ start := 0, stop := 0x7fff, protection := FLAG_PROTECT_SET },
      { start := 0x8000, stop := 0x1ffff, protection := FLAG_PROTECT_SET },
      { start := 0x20000, stop := 0x27fff, protection := FLAG_PROTECT_CLEAR },
      { start := 0x28000, stop := bytes - 1, protection := FLAG_PROTECT_CLEAR }]
  areaList.map fun area =>
    { area with start := area.start + logicalAddress, stop := area.stop + logicalAddress }

end Code

/-- A byte of a bank whose address lies in an area that is protected, its last address included. -/
def Protected (infos : List Info) (bank offset : Nat) : Prop :=
  ∃ info, infos[bank]? = some info ∧ ∃ area ∈ info.device.areaList,
    area.protection = FLAG_PROTECT_SET ∧ area.start ≤ info.logicalAddress + UInt32.ofNat offset ∧
      info.logicalAddress + UInt32.ofNat offset ≤ area.stop

/-- The range lies inside one device, at an offset of it, and meets no protected area. -/
def Writable (infos : List Info) (addr size : UInt32) : Prop :=
  ∃ bank info, ∃ offset : UInt32, infos[bank]? = some info ∧ info.logicalAddress + offset = addr ∧
    offset.toNat + size.toNat ≤ info.device.bytes ∧
      ∀ k < size.toNat, ¬Protected infos bank (offset.toNat + k)

/-- What a write may do. -/
structure Guarded (infos : List Info) (addr size : UInt32) (contents : Contents)
    (result : Int × Contents) : Prop where
  kept : ∀ bank offset, Protected infos bank offset → result.2 bank offset = contents bank offset
  success : result.1 = DATAFLASH_OK → Writable infos addr size
  refused : ¬Writable infos addr size → result.2 = contents

section Places

def Area.place (area : Area) : UInt32 × UInt32 := (area.start, area.stop)

/-- Where a device and its areas lie. -/
def Info.places (info : Info) : UInt32 × Nat × List (UInt32 × UInt32) :=
  (info.logicalAddress, info.device.bytes, info.device.areaList.map Area.place)

theorem marked_places (areas : List Area) (protection : UInt8) (area1 area2 : Nat) :
    (areas.mapIdx fun j area =>
        if area1 ≤ j ∧ j < area2 + 1 then { area with protection := protection } else area).map
      Area.place = areas.map Area.place := by
  apply List.ext_getElem (by simp)
  intro j _ _
  rw [List.getElem_map, List.getElem_map, List.getElem_mapIdx]
  split <;> rfl

theorem set_places (infos : List Info) (bank : Fin infos.length) (info : Info)
    (same : info.places = (infos.get bank).places) :
    (infos.set bank info).map Info.places = infos.map Info.places := by
  apply List.ext_getElem (by simp)
  intro j _ _
  rw [List.getElem_map, List.getElem_map, List.getElem_set]
  split
  · next here =>
      subst here
      exact same
  · rfl

/-- Protection moves no device and no area. -/
theorem real_protect_places (infos : List Info) (flag : Int) (startAddr endAddr : UInt32) :
    (dataflashRealProtect infos flag startAddr endAddr).2.map Info.places = infos.map Info.places := by
  rw [dataflashRealProtect]
  split
  · rfl
  · dsimp only
    split
    · apply set_places
      rw [Info.places, Info.places, Device.bytes, Device.bytes, marked_places]
    · rfl

end Places

section Checks
variable {infos : List Info} {addr size : UInt32} {bank : Fin infos.length}

theorem selected_base (selected : dataflashSelect infos addr = some bank) :
    addr &&& 0xff000000 = (infos.get bank).logicalAddress := by
  have found := (List.findFinIdx?_eq_some_iff.mp selected).1
  exact eq_of_beq found

/-- The offset that is written, below 16 MiB. -/
theorem offset_eq (selected : dataflashSelect infos addr = some bank) :
    (addr - (infos.get bank).logicalAddress).toNat = addr.toNat % 2 ^ 24 := by
  have base := selected_base selected
  have below : (infos.get bank).logicalAddress ≤ addr := by
    rw [← base, UInt32.le_iff_toNat_le, UInt32.toNat_and]
    exact Nat.and_le_left
  rw [UInt32.toNat_sub_of_le _ _ below, ← base, UInt32.toNat_and]
  exact @Library.Bits.minus_round_down addr.toNat 24 (by decide) addr.toNat_lt

theorem never_all_ones (selected : dataflashSelect infos addr = some bank) :
    addr - (infos.get bank).logicalAddress ≠ 0xffffffff := by
  intro ones
  have offset := offset_eq selected
  rw [ones] at offset
  have window := Nat.mod_lt addr.toNat (show 0 < 2 ^ 24 by decide)
  rw [← offset] at window
  exact absurd window (by decide)

/-- size_dataflash looks at four bits of the address more than the offset has. -/
theorem inside_of_size (selected : dataflashSelect infos addr = some bank)
    (fits : sizeDataflash (infos.get bank).device addr size ≠ 0) :
    (addr - (infos.get bank).logicalAddress).toNat + size.toNat ≤ (infos.get bank).device.bytes := by
  have low : (addr &&& 0x0fffffff).toNat = addr.toNat % 2 ^ 28 := by
    rw [UInt32.toNat_and]
    exact Nat.and_two_pow_sub_one_eq_mod addr.toNat 28
  have less : addr.toNat % 2 ^ 24 ≤ addr.toNat % 2 ^ 28 := by
    rw [← Nat.mod_mod_of_dvd addr.toNat (show 2 ^ 24 ∣ 2 ^ 28 by decide)]
    exact Nat.mod_le _ _
  rw [sizeDataflash, low] at fits
  rw [offset_eq selected]
  split at fits
  · exact absurd rfl fits
  · split at fits
    · exact absurd rfl fits
    · omega

end Checks

section Writes
variable {infos : List Info} {driver : Driver} {addr size : UInt32} {src : Nat → UInt8}
  {contents : Contents} {bank : Fin infos.length}

/-- A range that passes the three checks is written. -/
theorem write_passed (selected : dataflashSelect infos addr = some bank)
    (fits : sizeDataflash (infos.get bank).device addr size ≠ 0)
    (allowed : protDataflash (infos.get bank).device addr ≠ 0) :
    writeDataflash infos driver addr src size contents =
      driver.write bank (infos.get bank).device src (addr - (infos.get bank).logicalAddress).toNat
        size.toNat contents := by
  rw [writeDataflash, selected]
  dsimp only
  rw [if_neg fits, if_neg allowed, if_neg (never_all_ones selected)]

/-- Any other range is refused. -/
theorem write_refused (checked : ∀ bank, dataflashSelect infos addr = some bank →
      sizeDataflash (infos.get bank).device addr size = 0 ∨
        protDataflash (infos.get bank).device addr = 0) :
    (writeDataflash infos driver addr src size contents).1 ≠ DATAFLASH_OK ∧
      (writeDataflash infos driver addr src size contents).2 = contents := by
  rw [writeDataflash]
  cases selected : dataflashSelect infos addr with
  | none => exact ⟨show ERR_UNKNOWN_FLASH_TYPE ≠ DATAFLASH_OK by decide, rfl⟩
  | some bank =>
      dsimp only
      by_cases fits : sizeDataflash (infos.get bank).device addr size = 0
      · rw [if_pos fits]
        exact ⟨show ERR_INVAL ≠ DATAFLASH_OK by decide, rfl⟩
      · rw [if_neg fits, if_pos ((checked bank selected).resolve_left fits)]
        exact ⟨show ERR_PROTECTED ≠ DATAFLASH_OK by decide, rfl⟩

theorem refused_guarded (failed : (writeDataflash infos driver addr src size contents).1 ≠ DATAFLASH_OK)
    (same : (writeDataflash infos driver addr src size contents).2 = contents) :
    Guarded infos addr size contents (writeDataflash infos driver addr src size contents) :=
  ⟨fun _ _ _ => by rw [same], fun ok => absurd ok failed, fun _ => same⟩

/-- The bytes of a range are free in a bank, at its offset there. -/
def Free (infos : List Info) (bank : Fin infos.length) (addr size : UInt32) : Prop :=
  ∀ k < size.toNat, ¬Protected infos bank ((addr - (infos.get bank).logicalAddress).toNat + k)

theorem passed_guarded (selected : dataflashSelect infos addr = some bank)
    (fits : sizeDataflash (infos.get bank).device addr size ≠ 0)
    (allowed : protDataflash (infos.get bank).device addr ≠ 0) (free : Free infos bank addr size) :
    Guarded infos addr size contents (writeDataflash infos driver addr src size contents) := by
  have writable : Writable infos addr size := by
    refine ⟨bank, infos.get bank, addr - (infos.get bank).logicalAddress, ?_, ?_,
      inside_of_size selected fits, free⟩
    · exact List.getElem?_eq_getElem bank.isLt
    · rw [UInt32.add_comm]
      exact UInt32.sub_add_cancel _ _
  rw [write_passed selected fits allowed]
  refine ⟨fun other offset guarded => ?_, fun _ => writable, fun not => absurd writable not⟩
  apply driver.frame
  rintro ⟨rfl, after, before⟩
  have inside := free (offset - (addr - (infos.get bank).logicalAddress).toNat) (by omega)
  rw [Nat.add_sub_of_le after] at inside
  exact inside guarded

/-- A driver that writes what it is given. -/
def storing : Driver where
  write bank _ src dest size contents :=
    (DATAFLASH_OK, fun other offset =>
      if other = bank ∧ dest ≤ offset ∧ offset < dest + size then src (offset - dest)
      else contents other offset)
  frame _ _ _ _ _ _ _ _ outside := if_neg outside

theorem passed_free (selected : dataflashSelect infos addr = some bank)
    (fits : sizeDataflash (infos.get bank).device addr size ≠ 0)
    (allowed : protDataflash (infos.get bank).device addr ≠ 0)
    (guarded : Guarded infos addr size (fun _ _ => 0)
      (writeDataflash infos storing addr (fun _ => 1) size fun _ _ => 0)) :
    Free infos bank addr size := by
  intro k inside locked
  have kept := guarded.kept _ _ locked
  rw [write_passed selected fits allowed] at kept
  have written : (1 : UInt8) = 0 := by
    rw [← kept]
    exact (if_pos ⟨rfl, Nat.le_add_right _ _, Nat.add_lt_add_left inside _⟩).symm
  exact absurd written (by decide)

end Writes

theorem prot_refuses_iff (device : Device) (addr : UInt32) :
    protDataflash device addr = 0 ↔
      ∃ area, areaOf device addr = some area ∧ area.protection = FLAG_PROTECT_SET := by
  rw [protDataflash]
  cases areaOf device addr with
  | none => simp
  | some area => simp

/-- What keeps a write from harm: no device is selected, the range is too large for it, the first
area that holds the address, its last one excluded, is protected, or the whole range is free. -/
def Harmless (infos : List Info) (addr size : UInt32) : Prop :=
  ∀ bank, dataflashSelect infos addr = some bank →
    sizeDataflash (infos.get bank).device addr size = 0 ∨
      (∃ area, areaOf (infos.get bank).device addr = some area ∧
        area.protection = FLAG_PROTECT_SET) ∨
      Free infos bank addr size

/-- Protected areas are safe from a write, and it succeeds inside one device and outside of them
alone, whatever the driver does inside its range. -/
theorem write_dataflash_iff (infos : List Info) (addr size : UInt32) :
    (∀ driver src contents, Guarded infos addr size contents
      (writeDataflash infos driver addr src size contents)) ↔ Harmless infos addr size := by
  constructor
  · intro guarded bank selected
    by_cases fits : sizeDataflash (infos.get bank).device addr size = 0
    · exact Or.inl fits
    · rw [← prot_refuses_iff]
      by_cases refused : protDataflash (infos.get bank).device addr = 0
      · exact Or.inr (Or.inl refused)
      · exact Or.inr (Or.inr (passed_free selected fits refused (guarded _ _ _)))
  · intro harmless driver src contents
    by_cases checked : ∀ bank, dataflashSelect infos addr = some bank →
        sizeDataflash (infos.get bank).device addr size = 0 ∨
          protDataflash (infos.get bank).device addr = 0
    · obtain ⟨failed, same⟩ := @write_refused infos driver addr size src contents checked
      exact refused_guarded failed same
    · simp only [not_forall, not_or] at checked
      obtain ⟨bank, selected, fits, allowed⟩ := checked
      have free := (harmless bank selected).resolve_left fits
      rw [← prot_refuses_iff] at free
      exact passed_guarded selected fits allowed (free.resolve_left allowed)

/-- One AT45DB161 as AT91F_DataflashInit sets it up. -/
def board : List Info :=
  [{ device :=
      { pagesNumber := 4096
        pagesSize := 528
        areaList := initialAreas (4096 * 528) 0xc0000000
        fits := by decide }
     logicalAddress := 0xc0000000 }]

/-- The last byte of the ROM code is written. -/
theorem last_byte_written : ¬∀ driver src contents, Guarded board 0xc0007fff 1 contents
    (writeDataflash board driver 0xc0007fff src 1 contents) := by
  intro guarded
  have kept := (guarded storing (fun _ => 1) fun _ _ => 0).kept 0 0x7fff
    ⟨_, rfl, _, List.mem_cons_self, rfl, by decide, by decide⟩
  exact absurd kept (by decide)

end UBoot.Flash.Dataflash
