import Mathlib.Data.UInt
import Mathlib.Tactic

/-!
drivers/pci_auto.c with the scan of drivers/pci.c: the functions behind a host bridge
are a tree, and the scan goes through it in the order of the buses. It hands out bus
numbers and addresses from the regions of the controller, and programs each bridge
with what came to be behind it.
-/

namespace UBoot.Pci.PciAuto

/-- The regions that addresses come from: hose->pci_mem, hose->pci_prefetch and hose->pci_io. -/
inductive Space where
  | mem
  | prefetch
  | io
  deriving DecidableEq

structure PciRegion where
  busStart : UInt32
  size : UInt32
  busLower : UInt32

def PCI_REGION_MEM : UInt32 := 0x00000000
def PCI_REGION_IO : UInt32 := 0x00000001
def PCI_REGION_PREFETCH : UInt32 := 0x00000008

def PCI_CLASS_STORAGE_IDE : UInt16 := 0x0101
def PCI_CLASS_BRIDGE_PCI : UInt16 := 0x0604
def PCI_CLASS_BRIDGE_CARDBUS : UInt16 := 0x0607

def PCIAUTO_IDE_MODE_MASK : UInt8 := 0x05

/-- A function that is no bridge. `responses` is what its registers from PCI_BASE_ADDRESS_0 on read
after all ones were written. -/
structure Device where
  deviceClass : UInt16
  progIf : UInt8
  responses : Nat → UInt32
  plain : deviceClass ≠ PCI_CLASS_BRIDGE_PCI ∧ deviceClass ≠ PCI_CLASS_BRIDGE_CARDBUS

structure Slot where
  dev : Nat
  func : Nat
  headerType : UInt8

mutual

inductive Node where
  | device (device : Device)
  | bridge (responses : Nat → UInt32) (behind : Bus)

/-- The functions of a bus in the order of their numbers. -/
inductive Bus where
  | empty
  | cons (slot : Slot) (node : Node) (rest : Bus)

end

/-- An address that was assigned. A function is named by its place on its bus and those of the
bridges in front of it. -/
structure Bar where
  path : List Nat
  space : Space
  address : UInt32
  size : UInt32

/-- What a bridge is programmed with. -/
structure Registers where
  primary : UInt8
  secondary : UInt8
  subordinate : UInt8
  memoryBase : Option UInt16
  memoryLimit : Option UInt16
  prefMemoryBase : Option UInt16
  prefMemoryLimit : Option UInt16
  ioBase : Option (UInt8 × UInt16)
  ioLimit : Option (UInt8 × UInt16)

structure Bridge where
  path : List Nat
  registers : Registers

/-- A host bridge. `bars` and `bridges` record what the scan has set up, `wrapped` whether a cursor
has passed the end of the addresses, and `refused` whether an allocation had no room. -/
structure PciController where
  firstBusno : Nat
  currentBusno : Nat
  table : List (UInt32 × PciRegion)
  regions : Space → Option PciRegion
  wrapped : Bool
  refused : Bool
  bars : List Bar
  bridges : List Bridge

/-! ### The regions -/

def regionInit (res : PciRegion) : PciRegion := { res with busLower := res.busStart }

def alignUp (lower size : UInt32) : UInt32 := ((lower - 1) ||| (size - 1)) + 1

def granularity : Space → UInt32
  | .mem => 0x100000
  | .prefetch => 0x100000
  | .io => 0x1000

/-- pciauto_region_align for a region of the controller, if it has it. -/
def regionAlign (hose : PciController) (space : Space) : PciController :=
  match hose.regions space with
  | none => hose
  | some res =>
      let lower := alignUp res.busLower (granularity space)
      { hose with
        regions := Function.update hose.regions space (some { res with busLower := lower })
        wrapped := hose.wrapped || decide (res.busLower ≠ 0 ∧ lower = 0) }

/-- pciauto_region_allocate: the address, and the controller behind it. -/
def regionAllocate (hose : PciController) (space : Space) (size : UInt32) :
    Option (UInt32 × PciController) :=
  match hose.regions space with
  | none => none
  | some res =>
      let addr := alignUp res.busLower size
      if res.size < addr - res.busStart + size then none
      else some (addr, { hose with
        regions := Function.update hose.regions space (some { res with busLower := addr + size })
        wrapped := hose.wrapped ||
          decide (res.busLower ≠ 0 ∧ addr = 0 ∨ 2 ^ 32 ≤ addr.toNat + size.toNat) })

/-! ### pciauto_setup_device -/

/-- The space, the size and whether the decoder has 64 bits. -/
def decodeBar (prefetch : Bool) (response : UInt32) : Space × UInt32 × Bool :=
  if response &&& 1 ≠ 0 then (.io, ~~~(response &&& 0xfffffffc) + 1, false)
  else
    (if prefetch ∧ response &&& 8 ≠ 0 then .prefetch else .mem,
      ~~~(response &&& 0xfffffff0) + 1, decide (response &&& 6 = 4))

/-- The loop over the registers from number `bar` on, of which `left` are left. -/
def setupBars (responses : Nat → UInt32) (path : List Nat) :
    (left bar : Nat) → PciController → PciController
  | 0, _, hose => hose
  | left + 1, bar, hose =>
      if responses bar = 0 then setupBars responses path left (bar + 1) hose
      else
        let decoded := decodeBar (hose.regions .prefetch).isSome (responses bar)
        match regionAllocate hose decoded.1 decoded.2.1 with
        | none => setupBars responses path left (bar + 1) { hose with refused := true }
        | some (addr, hose) =>
            let hose := { hose with bars := hose.bars ++ [⟨path, decoded.1, addr, decoded.2.1⟩] }
            if decoded.2.2 then
              -- the next register is the upper half
              match left with
              | 0 => hose
              | left + 1 => setupBars responses path left (bar + 2) hose
            else setupBars responses path left (bar + 1) hose

/-- pciauto_setup_device. The loop takes one register more than it is asked for. -/
def pciautoSetupDevice (responses : Nat → UInt32) (path : List Nat) (barsNum : Nat)
    (hose : PciController) : PciController :=
  setupBars responses path (barsNum + 1) 0 hose

/-! ### The windows of a bridge -/

def memoryBase (lower : UInt32) : UInt16 := ((lower &&& 0xfff00000) >>> 16).toUInt16
def memoryLimit (lower : UInt32) : UInt16 := ((lower - 1) >>> 16).toUInt16

def ioBase (lower : UInt32) : UInt8 × UInt16 :=
  (((lower &&& 0x0000f000) >>> 8).toUInt8, ((lower &&& 0xffff0000) >>> 16).toUInt16)
def ioLimit (lower : UInt32) : UInt8 × UInt16 := ioBase (lower - 1)

def lowerOf (hose : PciController) (space : Space) : Option UInt32 :=
  (hose.regions space).map PciRegion.busLower

def alignAll (hose : PciController) : PciController :=
  regionAlign (regionAlign (regionAlign hose .mem) .prefetch) .io

def pciautoPrescanSetupBridge (hose : PciController) (bus subBus : Nat) :
    PciController × Registers :=
  let hose := alignAll hose
  (hose, {
    primary := UInt8.ofNat bus
    secondary := UInt8.ofNat subBus
    subordinate := 0xff
    memoryBase := (lowerOf hose .mem).map memoryBase
    memoryLimit := none
    -- We don't support prefetchable memory for now, so disable
    prefMemoryBase := some (((lowerOf hose .prefetch).map memoryBase).getD 0x1000)
    prefMemoryLimit := if (lowerOf hose .prefetch).isSome then none else some 0x1000
    ioBase := (lowerOf hose .io).map ioBase
    ioLimit := none })

def pciautoPostscanSetupBridge (hose : PciController) (path : List Nat) (subBus : Nat)
    (registers : Registers) : PciController :=
  let hose := alignAll hose
  let registers := { registers with
    subordinate := UInt8.ofNat subBus
    memoryLimit := (lowerOf hose .mem).map memoryLimit
    prefMemoryLimit :=
      match lowerOf hose .prefetch with
      | some lower => some (memoryLimit lower)
      | none => registers.prefMemoryLimit
    ioLimit := (lowerOf hose .io).map ioLimit }
  { hose with bridges := hose.bridges ++ [⟨path, registers⟩] }

/-! ### The scan -/

/-- The loop of pci_hose_scan_bus on its way. -/
structure Scan where
  hose : PciController
  subBus : Nat
  foundMulti : UInt8

/-- The loop does not come to the last function, or it skips the host bridge on its bus or a function
that was not announced. -/
def skipped (host : Bool) (slot : Slot) (foundMulti : UInt8) : Bool :=
  slot.dev == 31 && slot.func == 7 || host && slot.dev == 0 && slot.func == 0 ||
    slot.func != 0 && foundMulti == 0

/-- What the header type of a function says of the functions behind it. -/
def announces (slot : Slot) (foundMulti : UInt8) : UInt8 :=
  if slot.func = 0 then slot.headerType &&& 0x80 else foundMulti

/-- An IDE controller in legacy mode keeps its addresses. -/
def legacyIde (device : Device) : Bool :=
  device.deviceClass == PCI_CLASS_STORAGE_IDE && device.progIf &&& PCIAUTO_IDE_MODE_MASK == 0

mutual

/-- pciauto_config_device, with the controller and the result. -/
def pciautoConfigDevice (path : List Nat) (bus : Nat) : Node → PciController → PciController × Nat
  | .device device, hose =>
      if legacyIde device then (hose, bus % 256)
      else (pciautoSetupDevice device.responses path 6 hose, bus % 256)
  | .bridge responses behind, hose =>
      let number := hose.currentBusno + 1
      let hose := pciautoSetupDevice responses path 2 { hose with currentBusno := number }
      let prescan := pciautoPrescanSetupBridge hose (bus % 256) number
      let scan := scanSlots path number 0 behind ⟨prescan.1, number, 0⟩
      let hose := pciautoPostscanSetupBridge scan.hose path (max scan.subBus (bus % 256)) prescan.2
      (hose, hose.currentBusno)

/-- The loop of pci_hose_scan_bus over the functions of a bus, the first of which is at `index`. -/
def scanSlots (path : List Nat) (bus index : Nat) : Bus → Scan → Scan
  | .empty, scan => scan
  | .cons slot node rest, scan =>
      if skipped (bus == scan.hose.firstBusno) slot scan.foundMulti then scanSlots path bus (index + 1) rest scan
      else
        let done := pciautoConfigDevice (path ++ [index]) bus node scan.hose
        scanSlots path bus (index + 1) rest {
          hose := done.1
          subBus := max scan.subBus done.2
          foundMulti := announces slot scan.foundMulti }

end

/-- The choice of pciauto_config_init: the first region of the largest size. -/
def chooseRegion (table : List (UInt32 × PciRegion)) (flags : UInt32) (old : Option PciRegion) :
    Option PciRegion :=
  table.foldl (fun chosen entry =>
    if entry.1 = flags ∧ chosen.all (·.size < entry.2.size) then some entry.2 else chosen) old

/-- pciauto_config_init. It does not clear hose->pci_prefetch. -/
def pciautoConfigInit (hose : PciController) : PciController :=
  { hose with
    regions := fun space =>
      (match space with
        | .mem => chooseRegion hose.table PCI_REGION_MEM none
        | .prefetch => chooseRegion hose.table (PCI_REGION_MEM ||| PCI_REGION_PREFETCH)
            (hose.regions .prefetch)
        | .io => chooseRegion hose.table PCI_REGION_IO none).map regionInit }

/-- pci_hose_scan. The records start anew. -/
def pciHoseScan (hose : PciController) (tree : Bus) : PciController :=
  let hose := pciautoConfigInit { hose with
    wrapped := false, refused := false, bars := [], bridges := [] }
  (scanSlots [] hose.firstBusno 0 tree ⟨hose, hose.firstBusno, 0⟩).hose

end UBoot.Pci.PciAuto
