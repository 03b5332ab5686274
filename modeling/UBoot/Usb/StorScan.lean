import UBoot.Library.Memory
import UBoot.Library.Retry
import UBoot.Library.BigEndian

/-!
common/usb_storage.c: the scan for storage devices, with the queries that it makes of each one. A
transport is known by what it returns and leaves behind.
-/

namespace UBoot.Usb.StorScan

open Library.Memory Library.Retry Library.BigEndian

def USB_MAX_STOR_DEV : Nat := 5
def USB_MAX_DEVICE : Nat := 32

def SCSI_TST_U_RDY : UInt8 := 0x00
def SCSI_INQUIRY : UInt8 := 0x12
def SCSI_RD_CAPAC : UInt8 := 0x25

/-- The command and the length of its data in a ccb. -/
structure Command where
  cmd : List UInt8
  datalen : Nat
deriving DecidableEq

/-- What the transport returns, and the bytes that pdata holds behind it. -/
structure Reply where
  result : Int
  pdata : Nat → UInt8

structure Endpoint where
  bEndpointAddress : UInt8
  bmAttributes : UInt8

/-- A device with its first interface. It answers its n-th command of a scan; `setInterface` is what
usb_set_interface returns. -/
structure Device where
  devnum : UInt8
  bDeviceClass : UInt8
  bInterfaceClass : UInt8
  bInterfaceSubClass : UInt8
  bInterfaceProtocol : UInt8
  endpoints : List Endpoint
  setInterface : Int
  reply : (sent : Nat) → Command → Reply

/-- block_dev_desc_t. -/
structure BlockDev where
  ifType : Nat
  dev : Nat
  partType : UInt8
  target : UInt8
  lun : UInt8
  type : UInt8
  removable : UInt8
  lba : UInt32
  blksz : UInt32
  vendor : List UInt8
  product : List UInt8
  revision : List UInt8

section Queries
variable (dev : Device) (lun : UInt8)

def command (code fourth : UInt8) (datalen : Nat) : Command :=
  { cmd := [code, lun <<< 5, 0, 0, fourth, 0, 0, 0, 0, 0, 0, 0], datalen := datalen }

def inquiryCommand : Command := command lun SCSI_INQUIRY 36 36

def readyCommand : Command := command lun SCSI_TST_U_RDY 0 0

def capacityCommand : Command := command lun SCSI_RD_CAPAC 0 8

/-- The loop of usb_inquiry: the last value of `retry`, the commands sent, and the data. -/
def inquiryLoop : (retry sent : Nat) → Int × Nat × (Nat → UInt8)
  | 0, sent =>
      let reply := dev.reply sent (inquiryCommand lun)
      (if reply.result = 0 then 0 else -1, sent + 1, reply.pdata)
  | retry + 1, sent =>
      let reply := dev.reply sent (inquiryCommand lun)
      if reply.result = 0 then (retry + 1, sent + 1, reply.pdata) else inquiryLoop retry (sent + 1)

def usbInquiry : Int × Nat × (Nat → UInt8) :=
  let (retry, sent, data) := inquiryLoop dev lun 5 0
  if retry = 0 then (-1, sent, data) else (0, sent, data)

/-- The loop of usb_test_unit_ready; usb_request_sense sends a command of its own. -/
def readyLoop : (retries sent : Nat) → Int × Nat
  | 0, sent => if (dev.reply sent (readyCommand lun)).result = 0 then (0, sent + 1) else (-1, sent + 2)
  | retries + 1, sent =>
      if (dev.reply sent (readyCommand lun)).result = 0 then (0, sent + 1)
      else readyLoop retries (sent + 2)

def usbTestUnitReady (sent : Nat) : Int × Nat := readyLoop dev lun 10 sent

def capacityLoop : (retry sent : Nat) → Int × Nat × (Nat → UInt8)
  | 0, sent =>
      let reply := dev.reply sent (capacityCommand lun)
      (if reply.result = 0 then 0 else -1, sent + 1, reply.pdata)
  | retry + 1, sent =>
      let reply := dev.reply sent (capacityCommand lun)
      if reply.result = 0 then (0, sent + 1, reply.pdata) else capacityLoop retry (sent + 1)

def usbReadCapacity (sent : Nat) : Int × Nat × (Nat → UInt8) := capacityLoop dev lun 3 sent

end Queries

/-- The number of the last bulk endpoint of a direction, or 0. -/
def bulkEndpoint (dev : Device) (incoming : Bool) : UInt8 :=
  dev.endpoints.foldl (fun number endpoint =>
    if endpoint.bmAttributes &&& 0x03 = 2 ∧ (endpoint.bEndpointAddress &&& 0x80 != 0) = incoming then
      endpoint.bEndpointAddress &&& 0x0f
    else number) 0

def interruptEndpoint (dev : Device) : UInt8 :=
  dev.endpoints.foldl (fun number endpoint =>
    if endpoint.bmAttributes &&& 0x03 = 3 then endpoint.bEndpointAddress &&& 0x0f else number) 0

def usbStorageProbe (dev : Device) : Bool :=
  if dev.bDeviceClass ≠ 0 ∨ dev.bInterfaceClass ≠ 8 ∨ dev.bInterfaceSubClass < 1 ∨
      dev.bInterfaceSubClass > 6 then false
  else if dev.bInterfaceProtocol ≠ 1 ∧ dev.bInterfaceProtocol ≠ 0 ∧ dev.bInterfaceProtocol ≠ 0x50 then
    false
  else if dev.setInterface ≠ 0 ∨ bulkEndpoint dev true = 0 ∨ bulkEndpoint dev false = 0 ∨
      (dev.bInterfaceProtocol = 0 ∧ interruptEndpoint dev = 0) then false
  else if dev.bInterfaceSubClass ≠ 4 ∧ dev.bInterfaceSubClass ≠ 6 ∧ dev.bInterfaceSubClass ≠ 5 then
    false
  else true

section Scan
variable (initPart : BlockDev → Device → (sent : Nat) → UInt8)

/-- What usb_stor_get_info takes from the data of an inquiry. -/
def identify (desc : BlockDev) (data : Nat → UInt8) : BlockDev :=
  { desc with
    removable := if data 1 &&& 0x80 = 0x80 then 1 else desc.removable
    vendor := slice data 8 8
    product := slice data 16 16
    revision := slice data 32 4 }

/-- What it takes from a capacity, the last block and the size of a block. -/
def measure (desc : BlockDev) (type : UInt8) (cap0 cap1 : UInt32) : BlockDev :=
  { desc with lba := cap0 + 1, blksz := cap1, type := type }

/-- The capacity in usb_stor_get_info. `initPart` is the partition type that init_part sets. -/
def capacityInfo (dev : Device) (desc : BlockDev) (perq : UInt8) (sent : Nat) : Int × BlockDev :=
  let (failed, sent, cap) := usbReadCapacity dev desc.lun sent
  let desc :=
    if failed ≠ 0 then measure desc perq 2880 0x200
    else measure desc perq (UInt32.ofNat (word cap 0)) (UInt32.ofNat (word cap 4))
  (1, { desc with partType := initPart desc dev sent })

/-- The test of the unit in usb_stor_get_info. -/
def unitInfo (dev : Device) (desc : BlockDev) (perq : UInt8) (sent : Nat) : Int × BlockDev :=
  let (notReady, sent) := usbTestUnitReady dev desc.lun sent
  if notReady ≠ 0 then
    if desc.removable = 1 then (1, { desc with type := perq }) else (0, desc)
  else capacityInfo initPart dev desc perq sent

def usbStorGetInfo (dev : Device) (desc : BlockDev) : Int × BlockDev :=
  let desc := { desc with target := dev.devnum }
  let (failed, sent, data) := usbInquiry dev desc.lun
  if failed ≠ 0 then (-1, desc)
  else
    let perq := data 0
    -- skip unknown devices
    if perq &&& 0x1f = 0x1f then (0, desc)
    else unitInfo initPart dev (identify desc data) perq sent

/-- An entry of usb_dev_desc before the scan. -/
def initialDesc (i : Nat) : BlockDev where
  ifType := 4
  dev := i
  partType := 0
  target := 0xff
  lun := 0
  type := 0
  removable := 0
  lba := 0
  blksz := 0
  vendor := []
  product := []
  revision := []

structure Table where
  usbMaxDevs : Nat
  usbDevDesc : Nat → BlockDev

def Table.set (table : Table) (desc : BlockDev) : Table :=
  { table with usbDevDesc := Function.update table.usbDevDesc table.usbMaxDevs desc }

/-- A device of the loop of usb_stor_scan. -/
def scanDevice (dev : Device) (table : Table) : Table :=
  if usbStorageProbe dev then
    let (result, desc) := usbStorGetInfo initPart dev (table.usbDevDesc table.usbMaxDevs)
    let table := table.set desc
    if result ≠ 0 then { table with usbMaxDevs := table.usbMaxDevs + 1 } else table
  else table

def scanLoop : List Device → Table → Table
  | [], table => table
  | dev :: rest, table =>
      let table := scanDevice initPart dev table
      if table.usbMaxDevs = USB_MAX_STOR_DEV then table else scanLoop rest table

/-- usb_stor_scan on the devices that usb_get_dev_index knows. -/
def usbStorScan (devices : List Device) : Int × Table :=
  let table := scanLoop initPart (devices.take USB_MAX_DEVICE)
    { usbMaxDevs := 0, usbDevDesc := initialDesc }
  (if table.usbMaxDevs > 0 then 0 else -1, table)

end Scan

/-! ### What the devices answer -/

/-- What the answers of a device say: the data of its inquiry, its last block and the size of its
blocks if it is ready, and how many commands it got. -/
structure Answers where
  data : Nat → UInt8
  capacity : Option (UInt32 × UInt32)
  sent : Nat

section Answers
variable (dev : Device)

def inquired (attempt : Nat) : Bool := (dev.reply attempt (inquiryCommand 0)).result = 0

def ready (sent attempt : Nat) : Bool := (dev.reply (sent + 2 * attempt) (readyCommand 0)).result = 0

def measured (attempt : Nat) : Bool := (dev.reply attempt (capacityCommand 0)).result = 0

/-- The capacity of a device that is ready, 2880 and 512 if it tells none. -/
def capacityAnswers (data : Nat → UInt8) (sent : Nat) : Answers :=
  match firstGood (measured dev) 4 sent with
  | none => { data := data, capacity := some (2880, 0x200), sent := sent + 4 }
  | some attempt =>
      let cap := (dev.reply attempt (capacityCommand 0)).pdata
      { data := data
        capacity := some (UInt32.ofNat (word cap 0), UInt32.ofNat (word cap 4))
        sent := attempt + 1 }

/-- A unit that is ready at one of eleven attempts, or removable. -/
def unitAnswers (data : Nat → UInt8) (sent : Nat) : Option Answers :=
  match firstGood (ready dev sent) 11 0 with
  | none =>
      if data 1 &&& 0x80 = 0x80 then some { data := data, capacity := none, sent := sent + 22 }
      else none
  | some turn => some (capacityAnswers dev data (sent + 2 * turn + 1))

/-- A device that answers one of five inquiries, and is of a known type. -/
def answers : Option Answers :=
  (firstGood (inquired dev) 5 0).bind fun attempt =>
    let data := (dev.reply attempt (inquiryCommand 0)).pdata
    if data 0 &&& 0x1f = 0x1f then none else unitAnswers dev data (attempt + 1)

end Answers

/-- The entry of usb_dev_desc that describes a device. -/
def describe (initPart : BlockDev → Device → Nat → UInt8) (dev : Device) (i : Nat)
    (answers : Answers) : BlockDev :=
  let desc := identify { initialDesc i with target := dev.devnum } answers.data
  match answers.capacity with
  | none => { desc with type := answers.data 0 }
  | some (cap0, cap1) =>
      let desc := measure desc (answers.data 0) cap0 cap1
      { desc with partType := initPart desc dev answers.sent }

/-- A storage device whose queries are answered. -/
def accepted (dev : Device) : Bool := usbStorageProbe dev && (answers dev).isSome

/-- One of the first five attempts transfers the data of the inquiry. -/
def Early (dev : Device) (lun : UInt8) : Prop :=
  ∃ attempt < 5, (dev.reply attempt (inquiryCommand lun)).result = 0

section Loops
variable {dev : Device} {lun : UInt8}

theorem inquiry_loop_good {retry sent attempt : Nat}
    (first : firstGood (fun attempt => (dev.reply attempt (inquiryCommand lun)).result = 0)
      retry sent = some attempt) :
    inquiryLoop dev lun retry sent = ((retry : Int) - (attempt - sent), attempt + 1,
      (dev.reply attempt (inquiryCommand lun)).pdata) := by
  induction retry generalizing sent with
  | zero => cases first
  | succ retry ih =>
      rw [inquiryLoop]
      by_cases good : (dev.reply sent (inquiryCommand lun)).result = 0
      · rw [first_good_here (decide_eq_true good)] at first
        cases first
        rw [if_pos good]
        congr 1
        omega
      · rw [first_good_later (decide_eq_false good)] at first
        rw [if_neg good, ih first]
        congr 1
        omega

theorem inquiry_good {attempt : Nat}
    (first : firstGood (fun attempt => (dev.reply attempt (inquiryCommand lun)).result = 0)
      5 0 = some attempt) :
    usbInquiry dev lun = (0, attempt + 1, (dev.reply attempt (inquiryCommand lun)).pdata) := by
  obtain ⟨-, -, before⟩ := first_good_spec first
  rw [usbInquiry, inquiry_loop_good first]
  exact if_neg (by omega)

theorem early_first (early : Early dev lun) : ∃ attempt,
    firstGood (fun attempt => (dev.reply attempt (inquiryCommand lun)).result = 0) 5 0 =
      some attempt := by
  obtain ⟨attempt, before, good⟩ := early
  cases first : firstGood (fun attempt => (dev.reply attempt (inquiryCommand lun)).result = 0) 5 0 with
  | none =>
      have failed := first_good_none_iff.mp first attempt (Nat.zero_le _) (by omega)
      exact absurd good (of_decide_eq_false failed)
  | some attempt => exact ⟨attempt, rfl⟩

theorem early_inquiry (early : Early dev lun) : (usbInquiry dev lun).1 = 0 := by
  obtain ⟨attempt, first⟩ := early_first early
  rw [inquiry_good first]

/-- The retries of usb_test_unit_ready, two commands each. -/
theorem ready_loop_eq {sent : Nat} (retries turn : Nat) :
    readyLoop dev 0 retries (sent + 2 * turn) =
      match firstGood (ready dev sent) (retries + 1) turn with
      | none => (-1, sent + 2 * turn + 2 * (retries + 1))
      | some found => (0, sent + 2 * found + 1) := by
  induction retries generalizing turn with
  | zero =>
      rw [readyLoop]
      by_cases good : (dev.reply (sent + 2 * turn) (readyCommand 0)).result = 0
      · rw [if_pos good, first_good_here (decide_eq_true good)]
      · rw [if_neg good, first_good_later (decide_eq_false good)]
        rfl
  | succ retries ih =>
      rw [readyLoop]
      by_cases good : (dev.reply (sent + 2 * turn) (readyCommand 0)).result = 0
      · rw [if_pos good, first_good_here (decide_eq_true good)]
      · have next : sent + 2 * turn + 2 = sent + 2 * (turn + 1) := by omega
        rw [if_neg good, first_good_later (decide_eq_false good), next, ih]
        cases firstGood (ready dev sent) (retries + 1) (turn + 1) with
        | none =>
            dsimp only
            congr 1
            omega
        | some found => rfl

theorem capacity_loop_eq (retry sent : Nat) :
    match firstGood (measured dev) (retry + 1) sent with
    | none => ∃ cap, capacityLoop dev 0 retry sent = (-1, sent + retry + 1, cap)
    | some found => capacityLoop dev 0 retry sent =
        (0, found + 1, (dev.reply found (capacityCommand 0)).pdata) := by
  induction retry generalizing sent with
  | zero =>
      rw [capacityLoop]
      by_cases good : (dev.reply sent (capacityCommand 0)).result = 0
      · rw [first_good_here (decide_eq_true good), if_pos good]
      · rw [first_good_later (decide_eq_false good), if_neg good]
        exact ⟨_, rfl⟩
  | succ retry ih =>
      rw [capacityLoop]
      by_cases good : (dev.reply sent (capacityCommand 0)).result = 0
      · rw [first_good_here (decide_eq_true good), if_pos good]
      · rw [first_good_later (decide_eq_false good), if_neg good]
        have later := ih (sent + 1)
        cases first : firstGood (measured dev) (retry + 1) (sent + 1) with
        | none =>
            rw [first] at later
            obtain ⟨cap, same⟩ := later
            refine ⟨cap, ?_⟩
            rw [same]
            congr 2
            omega
        | some found =>
            rw [first] at later
            exact later

end Loops

/-- An entry that describes no device yet. -/
structure Unused (i : Nat) (desc : BlockDev) : Prop where
  rest : ∃ target vendor product revision,
    desc = { initialDesc i with
      target := target, vendor := vendor, product := product, revision := revision }

section Info
variable {initPart : BlockDev → Device → Nat → UInt8} {dev : Device} {i : Nat} {desc : BlockDev}

/-- Nothing is left of an unused entry behind an inquiry. -/
theorem unused_identify (unused : Unused i desc) (data : Nat → UInt8) :
    identify { desc with target := dev.devnum } data =
      identify { initialDesc i with target := dev.devnum } data := by
  obtain ⟨target, vendor, product, revision, rfl⟩ := unused
  rfl

theorem capacity_info_eq (lun : desc.lun = 0) (data : Nat → UInt8) (sent : Nat)
    (known : desc = identify { initialDesc i with target := dev.devnum } data) :
    capacityInfo initPart dev desc (data 0) sent =
      (1, describe initPart dev i (capacityAnswers dev data sent)) := by
  have loop := @capacity_loop_eq dev 3 sent
  rw [capacityInfo, capacityAnswers, lun, usbReadCapacity]
  cases first : firstGood (measured dev) 4 sent with
  | none =>
      rw [first] at loop
      obtain ⟨cap, same⟩ := loop
      rw [same]
      subst known
      rfl
  | some attempt =>
      rw [first] at loop
      dsimp only at loop
      rw [loop]
      subst known
      rfl

theorem unit_info_answers (data : Nat → UInt8) (sent : Nat)
    (known : desc = identify { initialDesc i with target := dev.devnum } data) :
    match unitAnswers dev data sent with
    | none => ∃ other, unitInfo initPart dev desc (data 0) sent = (0, other) ∧ Unused i other
    | some answers =>
        unitInfo initPart dev desc (data 0) sent = (1, describe initPart dev i answers) := by
  have lun : desc.lun = 0 := by rw [known]; rfl
  have loop := @ready_loop_eq dev sent 10 0
  rw [unitAnswers, unitInfo, lun, usbTestUnitReady]
  rw [Nat.mul_zero, Nat.add_zero] at loop
  rw [loop]
  cases first : firstGood (ready dev sent) 11 0 with
  | some turn => exact capacity_info_eq lun data _ known
  | none =>
      have failed : (-1 : Int) ≠ 0 := by decide
      dsimp only
      rw [if_pos failed]
      by_cases bit : data 1 &&& 0x80 = 0x80
      · have removable : desc.removable = 1 := by
          rw [known]
          exact if_pos bit
        rw [if_pos bit, if_pos removable, known]
        rfl
      · have removable : desc.removable = 0 := by
          rw [known]
          exact if_neg bit
        have fixed : ¬desc.removable = 1 := by
          rw [removable]
          decide
        rw [if_neg bit, if_neg fixed]
        refine ⟨desc, rfl, ⟨dev.devnum, slice data 8 8, slice data 16 16, slice data 32 4, ?_⟩⟩
        subst known
        rw [identify, if_neg bit]

theorem get_info_answers (early : Early dev 0) (unused : Unused i desc) :
    match answers dev with
    | none => ∃ other, usbStorGetInfo initPart dev desc = (0, other) ∧ Unused i other
    | some answers => usbStorGetInfo initPart dev desc = (1, describe initPart dev i answers) := by
  obtain ⟨attempt, first⟩ := early_first early
  have inquiry := inquiry_good first
  have named : firstGood (inquired dev) 5 0 = some attempt := first
  have lun : desc.lun = 0 := by
    obtain ⟨target, vendor, product, revision, rfl⟩ := unused
    rfl
  rw [answers, named, Option.bind_some, usbStorGetInfo]
  dsimp only
  rw [lun, inquiry]
  dsimp only
  generalize (dev.reply attempt (inquiryCommand 0)).pdata = data
  rw [if_neg (not_not_intro rfl)]
  by_cases known : data 0 &&& 0x1f = 0x1f
  · rw [if_pos known, if_pos known]
    refine ⟨_, rfl, ?_⟩
    obtain ⟨target, vendor, product, revision, rfl⟩ := unused
    exact ⟨_, _, _, _, rfl⟩
  · rw [if_neg known, if_neg known]
    have entry := @unused_identify dev i desc unused data
    rw [lun] at entry
    exact unit_info_answers data _ entry

end Info

section Table
variable {initPart : BlockDev → Device → Nat → UInt8} {dev : Device} {table : Table} {desc : BlockDev}

theorem set_self : (table.set desc).usbDevDesc table.usbMaxDevs = desc := Function.update_self _ _ _

theorem set_other {i : Nat} (other : i ≠ table.usbMaxDevs) :
    (table.set desc).usbDevDesc i = table.usbDevDesc i :=
  Function.update_of_ne other _ _

/-- A table behind `n` entries: those it had are as they were, and the others unused. -/
structure Extends (before : Table) (n : Nat) (table : Table) : Prop where
  count : table.usbMaxDevs = before.usbMaxDevs + n
  kept : ∀ i < before.usbMaxDevs, table.usbDevDesc i = before.usbDevDesc i
  unused : ∀ i, table.usbMaxDevs ≤ i → Unused i (table.usbDevDesc i)

/-- A device that is refused leaves the entries as they were. -/
theorem scan_device_refused (early : usbStorageProbe dev = true → Early dev 0)
    (unused : ∀ i, table.usbMaxDevs ≤ i → Unused i (table.usbDevDesc i))
    (refused : accepted dev = false) : Extends table 0 (scanDevice initPart dev table) := by
  by_cases probed : usbStorageProbe dev = true
  · have none : answers dev = none := by
      rw [accepted, probed, Bool.true_and] at refused
      exact Option.not_isSome_iff_eq_none.mp (Bool.eq_false_iff.mp refused)
    have info := @get_info_answers initPart dev table.usbMaxDevs _ (early probed)
      (unused table.usbMaxDevs (Nat.le_refl _))
    rw [none] at info
    obtain ⟨other, same, still⟩ := info
    have next : scanDevice initPart dev table = table.set other := by
      rw [scanDevice, if_pos probed, same]
      rfl
    rw [next]
    refine ⟨rfl, fun i before => set_other (Nat.ne_of_lt before), fun i after => ?_⟩
    by_cases here : i = table.usbMaxDevs
    · subst here
      rw [set_self]
      exact still
    · rw [set_other here]
      exact unused i after
  · rw [scanDevice, if_neg probed]
    exact ⟨rfl, fun _ _ => rfl, unused⟩

/-- A device that is accepted is described by a new entry. -/
theorem scan_device_accepted (early : usbStorageProbe dev = true → Early dev 0)
    (unused : ∀ i, table.usbMaxDevs ≤ i → Unused i (table.usbDevDesc i))
    (taken : accepted dev = true) : Extends table 1 (scanDevice initPart dev table) ∧
      ∃ found, answers dev = some found ∧
        (scanDevice initPart dev table).usbDevDesc table.usbMaxDevs =
          describe initPart dev table.usbMaxDevs found := by
  obtain ⟨probed, some⟩ := Bool.and_eq_true_iff.mp taken
  obtain ⟨found, answered⟩ := Option.isSome_iff_exists.mp some
  have info := @get_info_answers initPart dev table.usbMaxDevs _ (early probed)
    (unused table.usbMaxDevs (Nat.le_refl _))
  rw [answered] at info
  have next : scanDevice initPart dev table =
      { table.set (describe initPart dev table.usbMaxDevs found) with
        usbMaxDevs := table.usbMaxDevs + 1 } := by
    rw [scanDevice, if_pos probed]
    dsimp only at info
    rw [info]
    rfl
  rw [next]
  refine ⟨⟨rfl, fun i before => set_other (Nat.ne_of_lt before), fun i after => ?_⟩,
    found, answered, Function.update_self _ _ _⟩
  have later : i ≠ table.usbMaxDevs := Nat.ne_of_gt after
  have same := @set_other table (describe initPart dev table.usbMaxDevs found) i later
  exact same ▸ unused i (Nat.le_of_lt after)

/-- What the scan makes of a table: new entries that describe the devices, one behind the other. -/
structure Filled (initPart : BlockDev → Device → Nat → UInt8) (before : Table) (devices : List Device)
    (table : Table) : Prop where
  count : table.usbMaxDevs = before.usbMaxDevs + devices.length
  kept : ∀ i < before.usbMaxDevs, table.usbDevDesc i = before.usbDevDesc i
  described : ∀ j dev, devices[j]? = some dev → ∃ found, answers dev = some found ∧
    table.usbDevDesc (before.usbMaxDevs + j) = describe initPart dev (before.usbMaxDevs + j) found

theorem filled_nil : Filled initPart table [] table := ⟨rfl, fun _ _ => rfl, fun _ _ => nofun⟩

theorem filled_refused {middle last : Table} {devices : List Device} (next : Extends table 0 middle)
    (filled : Filled initPart middle devices last) : Filled initPart table devices last := by
  have count := next.count
  rw [Nat.add_zero] at count
  refine ⟨by rw [filled.count, count], fun i before => ?_, fun j dev member => ?_⟩
  · rw [filled.kept i (by omega), next.kept i before]
  · rw [← count]
    exact filled.described j dev member

theorem filled_accepted {middle last : Table} {devices : List Device} {found : Answers}
    (next : Extends table 1 middle) (answered : answers dev = some found)
    (entry : middle.usbDevDesc table.usbMaxDevs = describe initPart dev table.usbMaxDevs found)
    (filled : Filled initPart middle devices last) : Filled initPart table (dev :: devices) last := by
  have count := next.count
  refine ⟨?_, fun i before => ?_, fun j other member => ?_⟩
  · rw [filled.count, count, List.length_cons]
    omega
  · rw [filled.kept i (by omega), next.kept i before]
  · cases j with
    | zero =>
        cases member
        refine ⟨found, answered, ?_⟩
        rw [Nat.add_zero, filled.kept _ (by omega), entry]
    | succ j =>
        have described := filled.described j other member
        have place : middle.usbMaxDevs + j = table.usbMaxDevs + (j + 1) := by omega
        rw [place] at described
        exact described

/-- The accepted devices, as many as the table has entries for. -/
def entries (devices : List Device) (room : Nat) : List Device :=
  (devices.filter accepted).take room

theorem scan_loop_filled {devices : List Device}
    (early : ∀ dev ∈ devices, usbStorageProbe dev = true → Early dev 0)
    (room : table.usbMaxDevs < USB_MAX_STOR_DEV)
    (unused : ∀ i, table.usbMaxDevs ≤ i → Unused i (table.usbDevDesc i)) :
    Filled initPart table (entries devices (USB_MAX_STOR_DEV - table.usbMaxDevs))
      (scanLoop initPart devices table) := by
  induction devices generalizing table with
  | nil =>
      have none : entries [] (USB_MAX_STOR_DEV - table.usbMaxDevs) = [] := List.take_nil
      rw [none]
      exact filled_nil
  | cons dev rest ih =>
      obtain ⟨here, later⟩ := List.forall_mem_cons.mp early
      rw [scanLoop]
      cases taken : accepted dev with
      | false =>
          have next := @scan_device_refused initPart dev table here unused taken
          have same : ∀ count, entries (dev :: rest) count = entries rest count := by
            intro count
            rw [entries, List.filter_cons_of_neg (by rw [taken]; decide)]
            rfl
          have count := next.count
          rw [Nat.add_zero] at count
          rw [same, if_neg (by omega), ← count]
          exact filled_refused next (ih later (by omega) next.unused)
      | true =>
          obtain ⟨next, found, answered, entry⟩ :=
            @scan_device_accepted initPart dev table here unused taken
          have count := next.count
          have first : ∀ count, entries (dev :: rest) (count + 1) = dev :: entries rest count := by
            intro count
            rw [entries, List.filter_cons_of_pos taken, List.take_succ_cons]
            rfl
          have more : USB_MAX_STOR_DEV - table.usbMaxDevs =
              USB_MAX_STOR_DEV - (table.usbMaxDevs + 1) + 1 := by omega
          rw [more, first]
          refine filled_accepted next answered entry ?_
          rw [← count]
          by_cases full : (scanDevice initPart dev table).usbMaxDevs = USB_MAX_STOR_DEV
          · have none : entries rest 0 = [] := List.take_zero
            rw [if_pos full, full, Nat.sub_self, none]
            exact filled_nil
          · rw [if_neg full]
            exact ih later (by omega) next.unused

end Table

/-- An entry is unused before the scan. -/
theorem initial_unused (i : Nat) : Unused i (initialDesc i) := ⟨_, _, _, _, rfl⟩

/-- A card reader without a card: it is removable, and answers its inquiry alone. -/
def reader : Device where
  devnum := 2
  bDeviceClass := 0
  bInterfaceClass := 8
  bInterfaceSubClass := 6
  bInterfaceProtocol := 0x50
  endpoints :=
    [{ bEndpointAddress := 0x81, bmAttributes := 2 }, { bEndpointAddress := 2, bmAttributes := 2 }]
  setInterface := 0
  reply _ asked :=
    { result := if asked = inquiryCommand 0 then 0 else -1
      pdata := fun place => if place = 1 then 0x80 else 0 }

/-- The reader is counted, though it is not ready at any attempt, and tells no capacity. -/
theorem reader_counted : (usbStorScan (fun _ _ _ => 0) [reader]).2.usbMaxDevs = 1 ∧
    ∀ sent, (reader.reply sent (readyCommand 0)).result ≠ 0 ∧
      (reader.reply sent (capacityCommand 0)).result ≠ 0 :=
  ⟨by decide, fun _ =>
    ⟨show (if readyCommand 0 = inquiryCommand 0 then (0 : Int) else -1) ≠ 0 by decide,
      show (if capacityCommand 0 = inquiryCommand 0 then (0 : Int) else -1) ≠ 0 by decide⟩⟩

/-- A first success at the sixth attempt is an error, and six failures are none. -/
example : (usbInquiry { reader with
      reply := fun sent asked => { reader.reply sent asked with result := if sent < 5 then -1 else 0 } }
    0).1 = -1 ∧
      (usbInquiry { reader with
          reply := fun sent asked => { reader.reply sent asked with result := -1 } } 0).1 = 0 := by
  decide

/-- An early inquiry succeeds, and where all storage devices answer one, the table has an entry for
each device that is accepted, of the first 32 and five at most, in their order. -/
theorem scan_describes_accepted (initPart : BlockDev → Device → Nat → UInt8) (devices : List Device)
    (early : ∀ dev ∈ devices.take USB_MAX_DEVICE, usbStorageProbe dev = true → Early dev 0) :
    (∀ (dev : Device) (lun : UInt8), Early dev lun → (usbInquiry dev lun).1 = 0) ∧
      Filled initPart { usbMaxDevs := 0, usbDevDesc := initialDesc }
        (entries (devices.take USB_MAX_DEVICE) USB_MAX_STOR_DEV) (usbStorScan initPart devices).2 :=
  ⟨fun _ _ => early_inquiry, scan_loop_filled early (by decide) fun i _ => initial_unused i⟩

theorem reader_described : (usbInquiry reader 0).1 = 0 ∧
    (usbStorScan (fun _ _ _ => 0) [reader]).2.usbMaxDevs = 1 := by
  have early : Early reader 0 := ⟨0, by decide, by decide⟩
  have scan := scan_describes_accepted (fun _ _ _ => 0) [reader] fun dev member _ => by
    have same : dev = reader := by simpa using List.mem_of_mem_take member
    rw [same]
    exact early
  exact ⟨scan.1 reader 0 early, scan.2.count.trans (by decide)⟩

end UBoot.Usb.StorScan
