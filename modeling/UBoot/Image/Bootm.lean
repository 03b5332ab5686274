import UBoot.Image.DiskBoot
import UBoot.Image.LzmaWrapper

/-!
The command bootm of common/cmd_bootm.c as it was changed for the tags of
include/tpLinuxTag.h, and the commands nboot and diskboot that start it. The
kernel is decompressed with lzma_inflate and entered by do_bootm_linux, which
finds no ramdisk when bootm has no second argument.
-/

namespace UBoot.Image.Bootm

open Lib.Strings Library.Memory Library.BigEndian Mkimage DiskBoot

def ihOsLinux : UInt8 := 5

def ihCpuMips : UInt8 := 5

def ihTypeKernel : UInt8 := 2

def ihCompGzip : UInt8 := 1

def ihCompLzma : UInt8 := 3

def tagLen : UInt32 := 512

/-- The fields of LINUX_FILE_TAG that bootm uses. -/
structure LinuxFileTag where
  kernelTextAddr : UInt32
  kernelEntryPoint : UInt32
  kernelLen : UInt32

/-- A word of the memory, whose addresses have 32 bits. -/
def wordAt (memory : Nat → UInt8) (addr : Nat) : UInt32 :=
  UInt32.ofNat (word (fun i => memory ((addr + i) % 2 ^ 32)) 0)

def fileTagAt (memory : Nat → UInt8) (addr : Nat) : LinuxFileTag :=
  { kernelTextAddr := wordAt memory (addr + 116)
    kernelEntryPoint := wordAt memory (addr + 120)
    kernelLen := wordAt memory (addr + 132) }

def fakeImageHeader (kernelTextAddr entryPoint size : UInt32) : ImageHeader :=
  { magic := ihMagic
    hcrc := 0
    time := 0
    size := size
    load := kernelTextAddr
    ep := entryPoint
    dcrc := 0
    os := ihOsLinux
    arch := ihCpuMips
    type := ihTypeKernel
    comp := ihCompGzip
    name := strncpy (ascii "(none)") }

/-- The decoder and what lzma_inflate needs besides the memory. -/
structure Board where
  decode : LzmaWrapper.Decoder
  malloc : Nat → Bool
  cfgBootmLen : Int32
  /-- The address of unc_len. -/
  uncLen : LzmaWrapper.Address
  rpos : UInt32
  cfgMaxNandDevice : Nat
  /-- CONFIG_ATH_NAND_SUPPORT -/
  athNandSupport : Bool

/-- A run of bootm: the call of lzma_inflate, its result, and the address the kernel is entered
at. After an error the board is reset. -/
structure BootmRun where
  call : LzmaWrapper.Call
  result : LzmaWrapper.Result
  kernel : Option UInt32

/-- do_bootm, with the word behind the command if there is one. -/
def doBootm (board : Board) (arg : Option (List UInt8)) (machine : Machine) : BootmRun :=
  let addr :=
    match arg with
    | none => machine.loadAddr
    | some arg => (simpleStrtoul arg 16).value
  let fileTag := fileTagAt machine.memory addr
  let hdr := fakeImageHeader fileTag.kernelTextAddr fileTag.kernelEntryPoint fileTag.kernelLen
  let call : LzmaWrapper.Call :=
    { memory := fun a => machine.memory a.toNat
      source := UInt32.ofNat addr + tagLen
      sLen := hdr.size.toInt32
      dest := hdr.load
      dLen := board.uncLen
      capacity := board.cfgBootmLen
      malloc := board.malloc }
  let result := (LzmaWrapper.lzmaInflate board.decode board.rpos call).1
  ⟨call, result, if result.code = 0 then some hdr.ep else none⟩

/-! ### nboot -/

/-- A NAND device: nand_read answers whether it succeeded, with the bytes that it stored. -/
structure NandDevice where
  named : Bool
  oobblock : Nat
  read : (offset cnt : Nat) → Bool × List UInt8

structure NandSelection where
  addr : Nat
  dev : Nat
  offset : Nat

def nandArguments (machine : Machine) (argv : List (List UInt8)) :
    Option (Nat × Option (List UInt8) × Nat) :=
  match argv with
  | [] => some (machine.cfgLoadAddr, machine.bootdevice, 0)
  | [addr] => some ((simpleStrtoul addr 16).value, machine.bootdevice, 0)
  | [addr, device] => some ((simpleStrtoul addr 16).value, some device, 0)
  | [addr, device, offset] =>
      some ((simpleStrtoul addr 16).value, some device, (simpleStrtoul offset 16).value)
  | _ => none

def selectNand (board : Board) (nandInfo : Nat → NandDevice) (machine : Machine)
    (argv : List (List UInt8)) : Option NandSelection :=
  match nandArguments machine argv with
  | none => none
  | some (_, none, _) => none
  | some (addr, some device, offset) =>
      let dev := toInt (simpleStrtoul device 16).value
      if dev < 0 ∨ dev ≥ board.cfgMaxNandDevice ∨ !(nandInfo dev.toNat).named then none
      else some ⟨addr, dev.toNat, offset⟩

def nandRead (nand : NandDevice) (machine : Machine) (offset cnt addr : Nat) : Bool × Machine :=
  let (done, bytes) := nand.read offset cnt
  (done, { machine with
    memory := copy (2 ^ 32) machine.memory addr (fun i => (bytes[i]?).getD 0) bytes.length })

def doNandboot (board : Board) (nandInfo : Nat → NandDevice) (argv : List (List UInt8))
    (machine : Machine) : Ended × Machine :=
  match selectNand board nandInfo machine argv with
  | none => (.refused, machine)
  | some ⟨addr, dev, offset⟩ =>
      let nand := nandInfo dev
      let (done, machine) := nandRead nand machine offset nand.oobblock addr
      if !done then (.refused, machine)
      else
        let hdr := hdrAt machine.memory addr
        if hdr.magic ≠ ihMagic then (.refused, machine)
        else
          let cnt := (hdr.size.toNat + sizeofImageHeader) % 2 ^ 32
          let (done, machine) := nandRead nand machine offset cnt addr
          if !done then (.refused, machine)
          else
            let machine := { machine with loadAddr := addr }
            (if board.athNandSupport ∨ machine.autostart = some (ascii "yes") then .started
              else .loaded, machine)

/-! ### From the loaders to bootm -/

section Started

variable {board : Board} {nandInfo : Nat → NandDevice} {driver : Driver}
  {argv : List (List UInt8)} {before after : Machine} {addr : Nat}

/-- One of the two commands has loaded an image to `addr` and started it. -/
inductive StartedAt (board : Board) (argv : List (List UInt8)) (before : Machine) :
    (addr : Nat) → (after : Machine) → Prop
  | nboot {nandInfo after selection}
      (selected : selectNand board nandInfo before argv = some selection)
      (started : doNandboot board nandInfo argv before = (.started, after)) :
      StartedAt board argv before selection.addr after
  | diskboot {driver after selection}
      (selected : selectPartition before argv = some selection)
      (started : doDiskboot driver argv before = (.started, after)) :
      StartedAt board argv before selection.addr after

theorem nandboot_loaded {selection : NandSelection}
    (selected : selectNand board nandInfo before argv = some selection)
    (started : doNandboot board nandInfo argv before = (.started, after)) :
    after.loadAddr = selection.addr := by
  unfold doNandboot at started
  rw [selected] at started
  dsimp only at started
  split at started
  · cases started
  split at started
  · cases started
  split at started
  · cases started
  · rw [← (Prod.mk.inj started).2]

theorem diskboot_loaded {selection : Selection}
    (selected : selectPartition before argv = some selection)
    (started : doDiskboot driver argv before = (.started, after)) :
    after.loadAddr = selection.addr := by
  have loaded : (bootFrom (· != ihMagic) driver argv before).1 ≠ .refused := by
    unfold doDiskboot at started
    rw [started]
    exact fun refused => Ended.noConfusion refused
  have came : driver selection.dev selection.info.start 1 ≠ 0 :=
    fun none => loaded (no_block_refused _ selected none)
  unfold doDiskboot at started
  rw [boot_from_some _ selected came] at started
  split at started
  · cases started
  split at started
  · cases started
  split at started
  · cases started
  · rw [← (Prod.mk.inj started).2]

theorem started_loaded (started : StartedAt board argv before addr after) :
    after.loadAddr = addr := by
  cases started with
  | nboot selected started => exact nandboot_loaded selected started
  | diskboot selected started => exact diskboot_loaded selected started

/-- The image whose header stands at the address is booted, as the loaders read the header. -/
structure BootsImage (board : Board) (addr : Nat) (after : Machine) : Prop where
  source : (doBootm board none after).call.source =
    UInt32.ofNat addr + UInt32.ofNat sizeofImageHeader
  length : (doBootm board none after).call.sLen = (hdrAt after.memory addr).size.toInt32
  dest : (doBootm board none after).call.dest = (hdrAt after.memory addr).load
  kernel : ∀ entry, (doBootm board none after).kernel = some entry →
    entry = (hdrAt after.memory addr).ep

/-- What bootm does: the tag stands at the address, and the kernel behind it. -/
structure BootsTag (board : Board) (addr : Nat) (after : Machine) : Prop where
  source : (doBootm board none after).call.source = UInt32.ofNat addr + tagLen
  length : (doBootm board none after).call.sLen = (fileTagAt after.memory addr).kernelLen.toInt32
  dest : (doBootm board none after).call.dest = (fileTagAt after.memory addr).kernelTextAddr
  kernel : ∀ entry, (doBootm board none after).kernel = some entry ↔
    (doBootm board none after).result.code = 0 ∧
      entry = (fileTagAt after.memory addr).kernelEntryPoint

theorem bootm_source (loaded : after.loadAddr = addr) :
    (doBootm board none after).call.source = UInt32.ofNat addr + tagLen := by
  subst loaded
  rfl

/-- It is never booted by its image header: the bytes that follow the header are not the ones that
are decompressed. -/
theorem started_not_image (started : StartedAt board argv before addr after) :
    ¬ BootsImage board addr after := by
  intro image
  have places := (bootm_source (started_loaded started)).symm.trans image.source
  have apart : tagLen = UInt32.ofNat sizeofImageHeader := (UInt32.add_right_inj _).mp places
  exact absurd apart (by decide)

end Started

/-- The header of a kernel of 1000 bytes, compressed with LZMA. -/
def lzmaKernel : ImageHeader :=
  { magic := ihMagic, hcrc := 0xe70749eb, time := 0, size := 1000, load := 0x80002000, ep := 0x80002400
    dcrc := 0, os := ihOsLinux, arch := ihCpuMips, type := ihTypeKernel, comp := ihCompLzma
    name := Vector.replicate ihNmlen 0 }

def lzmaKernelMachine : Machine :=
  { devDesc := fun _ => imageDisk lzmaKernel
    cfgLoadAddr := 0x80100000
    bootdevice := some (ascii "0:1")
    autostart := some (ascii "yes")
    memory := fun _ => 0
    loadAddr := 0 }

def lzmaKernelBoard : Board :=
  { decode := LzmaWrapper.decodeZeros
    malloc := fun _ => true
    cfgBootmLen := 0x1000000
    uncLen := 0x80f00000
    rpos := 0
    cfgMaxNandDevice := 1
    athNandSupport := false }

/-- diskboot loads the image and starts it. -/
theorem lzma_kernel_started : StartedAt lzmaKernelBoard [] lzmaKernelMachine 0x80100000
    (doDiskboot delivering [] lzmaKernelMachine).2 := by
  have selected : selectPartition lzmaKernelMachine [] =
      some ⟨0x80100000, 0, 0, 512, bootPartType, sector_positive⟩ := by rfl
  have started : (doDiskboot delivering [] lzmaKernelMachine).1 = .started := by decide +kernel
  have whole : doDiskboot delivering [] lzmaKernelMachine =
      (.started, (doDiskboot delivering [] lzmaKernelMachine).2) := by rw [← started]
  exact .diskboot selected whole

end UBoot.Image.Bootm
