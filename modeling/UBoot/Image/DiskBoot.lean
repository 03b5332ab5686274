import UBoot.Image.Mkimage
import UBoot.Lib.Strings

/-!
The commands diskboot and scsiboot. Both load an image from a partition with the
read function of the device, which answers the number of blocks that it stored.
The two bodies are one text but for the test of the magic number.
-/

namespace UBoot.Image.DiskBoot

open Lib.Crc32 Lib.Strings Library.Memory Library.BigEndian Mkimage

/-- disk_partition_t, from get_partition_info. -/
structure DiskPartition where
  start : Nat
  blksz : Nat
  type : List UInt8
  positive : 0 < blksz

/-- A device with the bytes of its blocks, and what get_partition_info finds in its table. -/
structure BlockDev where
  type : UInt8
  blksz : Nat
  block : Nat → Nat → UInt8
  partitionInfo : Int → Option DiskPartition
  holdsHeader : sizeofImageHeader ≤ blksz
  word : blksz < 2 ^ 32

/-- The devices of one interface, the variables and the memory. -/
structure Machine where
  devDesc : Nat → BlockDev
  cfgLoadAddr : Nat
  bootdevice : Option (List UInt8)
  autostart : Option (List UInt8)
  memory : Nat → UInt8
  loadAddr : Nat

def devTypeUnknown : UInt8 := 0xff

def bootPartType : List UInt8 := ascii "U-Boot"

def bootPartComp : List UInt8 := ascii "PPCBoot"

/-- The number of blocks that a device stores, out of those it is asked for. -/
abbrev Driver := (dev start blkcnt : Nat) → Nat

structure Selection where
  addr : Nat
  dev : Nat
  info : DiskPartition

/-- The address and the text that names the device; too many words print the usage. -/
def bootArguments (machine : Machine) (argv : List (List UInt8)) :
    Option (Nat × Option (List UInt8)) :=
  match argv with
  | [] => some (machine.cfgLoadAddr, machine.bootdevice)
  | [addr] => some ((simpleStrtoul addr 16).value, machine.bootdevice)
  | [addr, device] => some ((simpleStrtoul addr 16).value, some device)
  | _ => none

/-- The number behind the colon. -/
def partNumber (ep : List UInt8) : Option Int :=
  match ep with
  | [] => some 0
  | 58 :: part => some (toInt (simpleStrtoul part 16).value)
  | _ => none

/-- Everything before the first read. The partition is looked up in the table of the first
device, whatever device is named. -/
def selectPartition (machine : Machine) (argv : List (List UInt8)) : Option Selection :=
  match bootArguments machine argv with
  | none => none
  | some (_, none) => none
  | some (addr, some device) =>
      let parsed := simpleStrtoul device 16
      if (machine.devDesc parsed.value).type = devTypeUnknown then none
      else
        match partNumber parsed.rest with
        | none => none
        | some part =>
            match (machine.devDesc 0).partitionInfo part with
            | none => none
            | some info =>
                if info.type ≠ bootPartType ∧ info.type ≠ bootPartComp then none
                else some ⟨addr, parsed.value, info⟩

/-- The blocks of a device as they are stored from an address on. -/
def storeBlocks (dev : BlockDev) (start addr : Nat) : (n : Nat) → (Nat → UInt8) → Nat → UInt8
  | 0, memory => memory
  | n + 1, memory =>
      copy (2 ^ 32) (storeBlocks dev start addr n memory) (addr + n * dev.blksz)
        (dev.block ((start + n) % 2 ^ 32)) dev.blksz

/-- block_read: the number of blocks that came, and the memory. -/
def blockRead (machine : Machine) (driver : Driver) (dev start blkcnt addr : Nat) :
    Nat × Machine :=
  let n := min (driver dev start blkcnt) blkcnt
  (n, { machine with memory := storeBlocks (machine.devDesc dev) start addr n machine.memory })

/-- The image header at an address. -/
def hdrAt (memory : Nat → UInt8) (addr : Nat) : ImageHeader :=
  headerAt (fun i => memory ((addr + i) % 2 ^ 32)) 0

/-- The header's checksum, taken while ih_hcrc is zero. -/
def checksumRight (hdr : ImageHeader) : Bool :=
  crc32 0 { hdr with hcrc := 0 }.bytes == hdr.hcrc.toNat

/-- The blocks of the image behind its first one, as `cnt` counts them. -/
def restBlocks (hdr : ImageHeader) (info : DiskPartition) : Nat :=
  toUlong (((hdr.size.toNat + sizeofImageHeader) % 2 ^ 32 + info.blksz - 1) % 2 ^ 32 / info.blksz - 1
    : Int)

inductive Ended
  | refused
  | loaded
  /-- loaded and given to do_bootm -/
  | started
  deriving DecidableEq

/-- The body that the two commands share. -/
def bootFrom (badMagic : UInt32 → Bool) (driver : Driver) (argv : List (List UInt8))
    (machine : Machine) : Ended × Machine :=
  match selectPartition machine argv with
  | none => (.refused, machine)
  | some ⟨addr, dev, info⟩ =>
      let (n, machine) := blockRead machine driver dev info.start 1 addr
      if n ≠ 1 then (.refused, machine)
      else
        let hdr := hdrAt machine.memory addr
        if badMagic hdr.magic then (.refused, machine)
        else if !checksumRight hdr then
          -- ih_hcrc stays zero
          (.refused,
            { machine with memory := copy (2 ^ 32) machine.memory (addr + 4) (fun _ => 0) 4 })
        else
          let cnt := restBlocks hdr info
          let (n, machine) := blockRead machine driver dev ((info.start + 1) % 2 ^ 32) cnt
            (addr + info.blksz)
          if n ≠ cnt then (.refused, machine)
          else
            let machine := { machine with loadAddr := addr }
            (if machine.autostart = some (ascii "yes") then .started else .loaded, machine)

def doDiskboot : Driver → List (List UInt8) → Machine → Ended × Machine :=
  bootFrom (· != ihMagic)

def doScsiboot : Driver → List (List UInt8) → Machine → Ended × Machine :=
  bootFrom (· == ihMagic)

/-! ### What the commands are for -/

section Contents

variable (machine : Machine) (selection : Selection)

/-- The bytes of the partition. -/
def partitionByte (i : Nat) : UInt8 :=
  (machine.devDesc selection.dev).block
    ((selection.info.start + i / (machine.devDesc selection.dev).blksz) % 2 ^ 32)
    (i % (machine.devDesc selection.dev).blksz)

/-- The header at the beginning of the partition. -/
def partitionHeader : ImageHeader := headerAt (partitionByte machine selection) 0

def GoodImage : Prop :=
  (partitionHeader machine selection).magic = ihMagic ∧
    checksumRight (partitionHeader machine selection) = true

end Contents

/-- The device stores all blocks that it is asked for. -/
def Delivers (driver : Driver) : Prop := ∀ dev start blkcnt, driver dev start blkcnt = blkcnt

/-- One command loads the good images, all of them and nothing else. -/
structure LoadsExactly (machine : Machine) (selection : Selection) (driver : Driver)
    (result : Ended × Machine) : Prop where
  good : result.1 ≠ .refused → GoodImage machine selection
  loads : GoodImage machine selection → Delivers driver → result.1 ≠ .refused
  holds : result.1 ≠ .refused →
    ∀ i < sizeofImageHeader + (partitionHeader machine selection).size.toNat,
      result.2.memory ((selection.addr + i) % 2 ^ 32) = partitionByte machine selection i

/-- The two commands behave alike on a partition, whatever the memory holds and however many
blocks come. -/
def BootAlike (machine : Machine) (argv : List (List UInt8)) : Prop :=
  ∀ driver memory,
    let before := { machine with memory := memory }
    (doScsiboot driver argv before).1 = (doDiskboot driver argv before).1 ∧
      ∀ selection, selectPartition machine argv = some selection →
        LoadsExactly machine selection driver (doScsiboot driver argv before) ∧
          LoadsExactly machine selection driver (doDiskboot driver argv before)

/-! ### Reading the header -/

theorem header_congr {left right : Nat → UInt8}
    (same : ∀ i < sizeofImageHeader, left i = right i) : headerAt left 0 = headerAt right 0 := by
  have words : ∀ place, place + 4 ≤ sizeofImageHeader → word left place = word right place := by
    intro place inside
    exact word_congr fun i below => same (place + i) (by omega)
  have name : (Vector.ofFn fun i : Fin ihNmlen => left (0 + 32 + i)) =
      Vector.ofFn fun i : Fin ihNmlen => right (0 + 32 + i) := by
    congr 1
    funext i
    have inside := i.isLt
    exact same _ (by simp only [ihNmlen] at inside; simp only [sizeofImageHeader]; omega)
  unfold headerAt
  rw [name, words 0 (by decide), words (0 + 4) (by decide), words (0 + 8) (by decide),
    words (0 + 12) (by decide), words (0 + 16) (by decide), words (0 + 20) (by decide),
    words (0 + 24) (by decide), same (0 + 28) (by decide), same (0 + 29) (by decide),
    same (0 + 30) (by decide), same (0 + 31) (by decide)]

theorem stored_at (dev : BlockDev) (start addr n : Nat) (memory : Nat → UInt8) {i : Nat}
    (fits : n * dev.blksz ≤ 2 ^ 32) (inside : i < 2 ^ 32) :
    storeBlocks dev start addr n memory ((addr + i) % 2 ^ 32) =
      if i < n * dev.blksz then dev.block ((start + i / dev.blksz) % 2 ^ 32) (i % dev.blksz)
      else memory ((addr + i) % 2 ^ 32) := by
  have positive : 0 < dev.blksz := lt_of_lt_of_le (by decide) dev.holdsHeader
  induction n with
  | zero => rw [storeBlocks, if_neg (by omega)]
  | succ n induction =>
      rw [Nat.succ_mul] at fits ⊢
      rw [storeBlocks, copy_offset _ _ _ _ _ _ _ fits inside, induction (by omega)]
      by_cases before : i < n * dev.blksz
      · rw [if_neg (by omega), if_pos before, if_pos (by omega)]
      · rw [if_neg before]
        by_cases here : i < n * dev.blksz + dev.blksz
        · have turn : i = n * dev.blksz + (i - n * dev.blksz) := by omega
          have quotient : i / dev.blksz = n := by
            apply Nat.div_eq_of_lt_le (by omega)
            rw [Nat.succ_mul]
            exact here
          have remainder : i % dev.blksz = i - n * dev.blksz := by
            have split := Nat.div_add_mod i dev.blksz
            rw [quotient, Nat.mul_comm] at split
            omega
          rw [if_pos ⟨by omega, here⟩, if_pos here, quotient, remainder]
        · rw [if_neg (by omega), if_neg here]

section Reads

variable {machine : Machine} {driver : Driver} {argv : List (List UInt8)} {selection : Selection}

/-- The machine after the first read. -/
def firstRead (machine : Machine) (driver : Driver) (selection : Selection) : Machine :=
  (blockRead machine driver selection.dev selection.info.start 1 selection.addr).2

/-- The second read, for a header that has been accepted. -/
def restRead (machine : Machine) (driver : Driver) (selection : Selection) : Nat × Machine :=
  blockRead (firstRead machine driver selection) driver selection.dev
    ((selection.info.start + 1) % 2 ^ 32)
    (restBlocks (partitionHeader machine selection) selection.info)
    (selection.addr + selection.info.blksz)

/-- After the first read the header in memory is the header of the partition. -/
theorem first_header (came : driver selection.dev selection.info.start 1 ≠ 0) :
    hdrAt (firstRead machine driver selection).memory selection.addr =
      partitionHeader machine selection := by
  have one : min (driver selection.dev selection.info.start 1) 1 = 1 := by omega
  have block := (machine.devDesc selection.dev).word
  have covers := (machine.devDesc selection.dev).holdsHeader
  apply header_congr
  intro i inside
  unfold firstRead blockRead
  dsimp only
  rw [one, stored_at _ _ _ _ _ (by omega) (by simp only [sizeofImageHeader] at inside; omega),
    if_pos (by omega)]
  rfl

/-- What the commands do with a partition, once the header has come. -/
theorem boot_from_some (badMagic : UInt32 → Bool)
    (selected : selectPartition machine argv = some selection)
    (came : driver selection.dev selection.info.start 1 ≠ 0) :
    bootFrom badMagic driver argv machine =
      if badMagic (partitionHeader machine selection).magic then
        (.refused, firstRead machine driver selection)
      else if !checksumRight (partitionHeader machine selection) then
        (.refused, { firstRead machine driver selection with
          memory := copy (2 ^ 32) (firstRead machine driver selection).memory
            (selection.addr + 4) (fun _ => 0) 4 })
      else if (restRead machine driver selection).1 ≠
          restBlocks (partitionHeader machine selection) selection.info then
        (.refused, (restRead machine driver selection).2)
      else
        (if machine.autostart = some (ascii "yes") then .started else .loaded,
          { (restRead machine driver selection).2 with loadAddr := selection.addr }) := by
  have one : (blockRead machine driver selection.dev selection.info.start 1 selection.addr).1 = 1 := by
    show min _ 1 = 1
    omega
  unfold bootFrom
  rw [selected]
  dsimp only
  have header := @first_header machine driver selection came
  unfold firstRead at header
  rw [if_neg (not_not.mpr one), header]
  rfl

theorem boot_from_none (badMagic : UInt32 → Bool) (selected : selectPartition machine argv = none) :
    (bootFrom badMagic driver argv machine).1 = .refused := by
  unfold bootFrom
  rw [selected]

theorem no_block_refused (badMagic : UInt32 → Bool)
    (selected : selectPartition machine argv = some selection)
    (came : driver selection.dev selection.info.start 1 = 0) :
    (bootFrom badMagic driver argv machine).1 = .refused := by
  have none : (blockRead machine driver selection.dev selection.info.start 1 selection.addr).1 ≠ 1 := by
    show min _ 1 ≠ 1
    omega
  unfold bootFrom
  rw [selected]
  dsimp only
  rw [if_pos none]

/-- A wrong checksum is refused, whatever the test of the magic number. -/
theorem bad_checksum_refused (badMagic : UInt32 → Bool)
    (selected : selectPartition machine argv = some selection)
    (wrong : checksumRight (partitionHeader machine selection) = false) :
    (bootFrom badMagic driver argv machine).1 = .refused := by
  by_cases came : driver selection.dev selection.info.start 1 = 0
  · exact no_block_refused badMagic selected came
  · rw [boot_from_some badMagic selected came]
    split
    · rfl
    · rw [wrong]
      rfl

/-- With a right checksum the test of the magic number decides, if all blocks come. -/
theorem right_checksum_refused_iff (badMagic : UInt32 → Bool)
    (selected : selectPartition machine argv = some selection) (delivers : Delivers driver)
    (right : checksumRight (partitionHeader machine selection) = true) :
    (bootFrom badMagic driver argv machine).1 = .refused ↔
      badMagic (partitionHeader machine selection).magic = true := by
  rw [boot_from_some badMagic selected (by rw [delivers]; exact Nat.one_ne_zero)]
  have all : (restRead machine driver selection).1 =
      restBlocks (partitionHeader machine selection) selection.info := by
    show min _ _ = _
    rw [delivers, min_self]
  split
  · next bad => exact ⟨fun _ => bad, fun _ => rfl⟩
  · next good =>
      rw [right, all, if_neg (by decide), if_neg (fun differs => differs rfl)]
      constructor
      · intro refused
        dsimp only at refused
        split at refused <;> cases refused
      · intro bad
        exact absurd bad good

/-- The count of the blocks behind the first, when no sum has a carry. -/
theorem rest_blocks {hdr : ImageHeader} {info : DiskPartition}
    (narrow : hdr.size.toNat + sizeofImageHeader + info.blksz - 1 < 2 ^ 32) :
    restBlocks hdr info + 1 = (hdr.size.toNat + sizeofImageHeader + info.blksz - 1) / info.blksz := by
  have positive := info.positive
  have header : sizeofImageHeader = 64 := rfl
  have sum : ((hdr.size.toNat + sizeofImageHeader : Int) % 2 ^ 32 + info.blksz - 1) % 2 ^ 32 =
      ((hdr.size.toNat + sizeofImageHeader + info.blksz - 1 : Nat) : Int) := by omega
  unfold restBlocks
  rw [sum, ← Int.natCast_ediv]
  have some_block : 1 ≤ (hdr.size.toNat + sizeofImageHeader + info.blksz - 1) / info.blksz := by
    rw [Nat.le_div_iff_mul_le positive]
    omega
  have quotient := Nat.div_le_self (hdr.size.toNat + sizeofImageHeader + info.blksz - 1) info.blksz
  unfold toUlong
  omega

/-- What the two reads leave in memory. -/
theorem loaded_bytes (came : driver selection.dev selection.info.start 1 ≠ 0)
    (blocks : selection.info.blksz = (machine.devDesc selection.dev).blksz)
    (narrow : (partitionHeader machine selection).size.toNat + sizeofImageHeader +
      selection.info.blksz - 1 < 2 ^ 32)
    (whole : (restRead machine driver selection).1 =
      restBlocks (partitionHeader machine selection) selection.info)
    {i : Nat} (inside : i < sizeofImageHeader + (partitionHeader machine selection).size.toNat) :
    (restRead machine driver selection).2.memory ((selection.addr + i) % 2 ^ 32) =
      partitionByte machine selection i := by
  have count := rest_blocks narrow
  have block := (machine.devDesc selection.dev).word
  have one : min (driver selection.dev selection.info.start 1) 1 = 1 := by omega
  have first : ∀ j < 2 ^ 32, (firstRead machine driver selection).memory
      ((selection.addr + j) % 2 ^ 32) =
        if j < (machine.devDesc selection.dev).blksz then partitionByte machine selection j
        else machine.memory ((selection.addr + j) % 2 ^ 32) := by
    intro j below
    unfold firstRead blockRead
    dsimp only
    rw [one, stored_at _ _ _ _ _ (by omega) below, Nat.one_mul]
    rfl
  unfold restRead blockRead at whole ⊢
  dsimp only at whole ⊢
  rw [whole]
  change storeBlocks (machine.devDesc selection.dev) ((selection.info.start + 1) % 2 ^ 32)
    (selection.addr + selection.info.blksz)
    (restBlocks (partitionHeader machine selection) selection.info)
    (firstRead machine driver selection).memory ((selection.addr + i) % 2 ^ 32) = _
  generalize (firstRead machine driver selection).memory = memory at first ⊢
  generalize restBlocks (partitionHeader machine selection) selection.info = cnt at count ⊢
  have covers := (machine.devDesc selection.dev).holdsHeader
  rw [blocks] at narrow count ⊢
  have header : sizeofImageHeader = 64 := rfl
  have most := Nat.div_mul_le_self ((partitionHeader machine selection).size.toNat +
    sizeofImageHeader + (machine.devDesc selection.dev).blksz - 1)
    (machine.devDesc selection.dev).blksz
  have least := Nat.lt_div_mul_add (a := (partitionHeader machine selection).size.toNat +
    sizeofImageHeader + (machine.devDesc selection.dev).blksz - 1)
    (b := (machine.devDesc selection.dev).blksz) (by omega)
  rw [← count, Nat.succ_mul] at most least
  by_cases ahead : i < (machine.devDesc selection.dev).blksz
  · have around : (selection.addr + i) % 2 ^ 32 = (selection.addr +
        (machine.devDesc selection.dev).blksz +
          (i + 2 ^ 32 - (machine.devDesc selection.dev).blksz)) % 2 ^ 32 := by
      omega
    rw [around, stored_at _ _ _ _ _ (by omega) (by omega), if_neg (by omega), ← around,
      first i (by omega), if_pos ahead]
  · have later : selection.addr + i = selection.addr + (machine.devDesc selection.dev).blksz +
        (i - (machine.devDesc selection.dev).blksz) := by omega
    rw [later, stored_at _ _ _ _ _ (by omega) (by omega), if_pos (by omega)]
    have next : i = i - (machine.devDesc selection.dev).blksz +
        (machine.devDesc selection.dev).blksz := by omega
    have quotient : i / (machine.devDesc selection.dev).blksz =
        (i - (machine.devDesc selection.dev).blksz) / (machine.devDesc selection.dev).blksz + 1 := by
      conv_lhs => rw [next]
      exact Nat.add_div_right _ (by omega)
    have remainder : i % (machine.devDesc selection.dev).blksz =
        (i - (machine.devDesc selection.dev).blksz) % (machine.devDesc selection.dev).blksz := by
      conv_lhs => rw [next]
      exact Nat.add_mod_right _ _
    unfold partitionByte
    rw [quotient, remainder, Nat.mod_add_mod, Nat.add_assoc, Nat.add_comm 1]

end Reads

theorem refused_exact {machine : Machine} {selection : Selection} {driver : Driver}
    {result : Ended × Machine} (refused : result.1 = .refused)
    (wrong : checksumRight (partitionHeader machine selection) = false) :
    LoadsExactly machine selection driver result where
  good := fun loaded => absurd refused loaded
  loads := fun good => absurd (good.2.symm.trans wrong) (by decide)
  holds := fun loaded => absurd refused loaded

/-- With the blocks of the partition's own device, and no carry in the count of the blocks,
diskboot does what it is for. -/
theorem diskboot_exact {machine : Machine} {argv : List (List UInt8)} {selection : Selection}
    (selected : selectPartition machine argv = some selection)
    (blocks : selection.info.blksz = (machine.devDesc selection.dev).blksz)
    (narrow : (partitionHeader machine selection).size.toNat + sizeofImageHeader +
      selection.info.blksz - 1 < 2 ^ 32) (driver : Driver) :
    LoadsExactly machine selection driver (doDiskboot driver argv machine) := by
  by_cases wrong : checksumRight (partitionHeader machine selection) = false
  · exact refused_exact (bad_checksum_refused _ selected wrong) wrong
  have right := Bool.of_not_eq_false wrong
  have accepted : (doDiskboot driver argv machine).1 ≠ .refused →
      GoodImage machine selection ∧ ∀ i < sizeofImageHeader +
        (partitionHeader machine selection).size.toNat,
        (doDiskboot driver argv machine).2.memory ((selection.addr + i) % 2 ^ 32) =
          partitionByte machine selection i := by
    intro loaded
    have came : driver selection.dev selection.info.start 1 ≠ 0 :=
      fun none => loaded (no_block_refused _ selected none)
    have body := boot_from_some (· != ihMagic) selected came
    unfold doDiskboot at loaded ⊢
    rw [body] at loaded ⊢
    split at loaded
    · exact absurd rfl loaded
    next good =>
    have magic : (partitionHeader machine selection).magic = ihMagic := by simpa using good
    rw [right, if_neg (by decide)] at loaded
    refine ⟨⟨magic, right⟩, ?_⟩
    rw [if_neg good, right, if_neg (by decide)]
    split at loaded
    · exact absurd rfl loaded
    next whole =>
    rw [if_neg whole]
    intro i inside
    exact loaded_bytes came blocks narrow (not_not.mp whole) inside
  constructor
  · exact fun loaded => (accepted loaded).1
  · intro good delivers refused
    have bad := (right_checksum_refused_iff (· != ihMagic) selected delivers right).mp refused
    exact absurd good.1 (by simpa using bad)
  · exact fun loaded => (accepted loaded).2

/-- A device that stores whatever it is asked for. -/
def delivering : Driver := fun _ _ blkcnt => blkcnt

theorem delivering_delivers : Delivers delivering := fun _ _ _ => rfl

/-- scsiboot refuses the right magic number, and loads what has any other. -/
theorem alike_wrong {machine : Machine} {argv : List (List UInt8)} {selection : Selection}
    (alike : BootAlike machine argv) (selected : selectPartition machine argv = some selection) :
    checksumRight (partitionHeader machine selection) = false := by
  by_contra wrong
  have right := Bool.of_not_eq_false wrong
  have scsi := ((alike delivering machine.memory).2 selection selected).1
  have refuses := right_checksum_refused_iff (· == ihMagic) selected delivering_delivers right
  by_cases magic : (partitionHeader machine selection).magic = ihMagic
  · exact scsi.loads ⟨magic, right⟩ delivering_delivers (refuses.mpr (beq_iff_eq.mpr magic))
  · have loaded := fun refused => magic (beq_iff_eq.mp (refuses.mp refused))
    exact magic (scsi.good loaded).1

theorem wrong_alike {machine : Machine} {argv : List (List UInt8)}
    (wrong : ∀ selection, selectPartition machine argv = some selection →
      checksumRight (partitionHeader machine selection) = false) : BootAlike machine argv := by
  intro driver memory
  have refused : ∀ badMagic,
      (bootFrom badMagic driver argv { machine with memory := memory }).1 = .refused := by
    intro badMagic
    cases selected : selectPartition machine argv with
    | none => exact boot_from_none badMagic selected
    | some selection => exact bad_checksum_refused badMagic selected (wrong selection selected)
  constructor
  · exact (refused _).trans (refused _).symm
  · intro selection selected
    exact ⟨refused_exact (refused _) (wrong selection selected),
      refused_exact (refused _) (wrong selection selected)⟩

/-- The commands behave alike on the partitions whose header has a wrong checksum, and on no
others. -/
theorem boot_alike_iff (machine : Machine) (argv : List (List UInt8)) :
    BootAlike machine argv ↔
      ∀ selection, selectPartition machine argv = some selection →
        checksumRight (partitionHeader machine selection) = false :=
  ⟨fun alike _ selected => alike_wrong alike selected, wrong_alike⟩

/-- The header of an empty image. -/
def emptyImage : ImageHeader :=
  { magic := ihMagic, hcrc := 0x90897911, time := 0, size := 0, load := 0, ep := 0, dcrc := 0
    os := 5, arch := 5, type := 2, comp := 0, name := Vector.replicate ihNmlen 0 }

theorem sector_positive : 0 < 512 := Nat.succ_pos 511

theorem sector_holds_header : sizeofImageHeader ≤ 512 := Nat.le_of_ble_eq_true rfl

theorem sector_word : 512 < 2 ^ 32 := Nat.le_of_ble_eq_true rfl

/-- A disk with one partition, which begins with a header. -/
def imageDisk (header : ImageHeader) : BlockDev :=
  { type := 0
    blksz := 512
    block := fun _ i => (header.bytes[i]?).getD 0
    partitionInfo := fun _ => some ⟨0, 512, bootPartType, sector_positive⟩
    holdsHeader := sector_holds_header
    word := sector_word }

def emptyImageMachine : Machine :=
  { devDesc := fun _ => imageDisk emptyImage
    cfgLoadAddr := 0x80100000
    bootdevice := some (ascii "0:1")
    autostart := none
    memory := fun _ => 0
    loadAddr := 0 }

/-- The image is a good one, so diskboot loads it, and scsiboot does not. -/
theorem good_image_apart : ¬ BootAlike emptyImageMachine [] := by
  intro alike
  have selected : selectPartition emptyImageMachine [] =
      some ⟨0x80100000, 0, 0, 512, bootPartType, sector_positive⟩ := by rfl
  have wrong := alike_wrong alike selected
  revert wrong
  decide +kernel

end UBoot.Image.DiskBoot
