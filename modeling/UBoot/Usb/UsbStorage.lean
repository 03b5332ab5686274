import UBoot.Library.Programs
import Mathlib.Data.UInt

/-!
common/usb_storage.c: usb_stor_read with the transports below it. The messages
on the bus are numbered, and what comes of each of them is a parameter, so the
device may stall, stop short or fail in any order. What it sends for READ(10) is
named by its place on the medium. Addresses are counted from the beginning of the
buffer, which lies in memory as a whole.
-/

namespace UBoot.Usb.UsbStorage

open Library.Programs

/-- A command status wrapper, as it is found in memory after a message. -/
structure Csw where
  signature : UInt32
  tag : UInt32
  residue : UInt32
  status : UInt8

/-- What comes of a message: dev->status and dev->act_len, and the data if it is none of the
medium. -/
structure Answer where
  status : UInt32
  actLen : Nat
  sense : Nat → UInt8
  csw : Csw
  /-- Whether the interrupt comes, and its data. -/
  interrupt : Option UInt16

inductive Protocol where
  | cb
  | cbi
  | bulk
  deriving DecidableEq

/-- struct us_data and the entry of usb_dev_desc. -/
structure UsData where
  protocol : Protocol
  /-- The subclass is US_SC_UFI. -/
  ufi : Bool
  lun : UInt8
  blksz : Nat
  /-- usb_maxpacket for a pipe, by its direction. -/
  maxpacket : Bool → Nat
  positive : 0 < blksz
  small : 20 * blksz < 2 ^ 31

/-- Where srb->pdata points to. -/
inductive Pointer where
  | buffer (offset : Nat)
  | sense (offset : Nat)
  deriving DecidableEq

def Pointer.add : Pointer → Nat → Pointer
  | .buffer offset, n => .buffer (offset + n)
  | .sense offset, n => .sense (offset + n)

structure Ccb where
  cmd : List UInt8
  datalen : Nat
  pdata : Pointer

/-- One READ(10): the data is wanted from `offset` on, stands in the buffer up to `filled`, and the
transport answered that the command was good. -/
structure Attempt where
  offset : Nat
  asked : Nat
  filled : Nat
  good : Bool

/-- The state of the driver; `buffer` holds the block and the place in it that a byte came from. -/
structure Host where
  /-- The number of messages so far. -/
  messages : Nat
  status : UInt32
  /-- The command that the device has, and how much data it has sent for it. -/
  cdb : List UInt8
  position : Nat
  buffer : Nat → Option (Nat × Nat)
  senseBuf : Nat → UInt8
  ipData : UInt16
  cbwTag : UInt32
  /-- The end of the data of the current READ(10). -/
  filled : Nat
  log : List Attempt

def USB_ST_STALLED : UInt32 := 0x2
def USB_ST_NAK_REC : UInt32 := 0x10

def SCSI_TST_U_RDY : UInt8 := 0x00
def SCSI_REQ_SENSE : UInt8 := 0x03
def SCSI_INQUIRY : UInt8 := 0x12
def SCSI_SEND_DIAG : UInt8 := 0x1D
def SCSI_READ10 : UInt8 := 0x28

def CSWSIGNATURE : UInt32 := 0x53425355
def CSWSTATUS_FAILED : UInt8 := 0x1
def CSWSTATUS_PHASE : UInt8 := 0x2

def USB_STOR_TRANSPORT_GOOD : Int := 0
def USB_STOR_TRANSPORT_FAILED : Int := -1
def USB_STOR_TRANSPORT_ERROR : Int := -2

def USB_TRANSPORT_UNKNOWN_RETRY : Nat := 5
def USB_TRANSPORT_NOT_READY_RETRY : Nat := 10
def USB_MAX_READ_BLK : Nat := 20

def usDirectionTable : List UInt8 :=
  [0x28, 0x81, 0x14, 0x14, 0x20, 0x01, 0x90, 0x77, 0x0C, 0x20, 0x00, 0x04, 0x00, 0x00, 0x00, 0x00,
    0x00, 0x00, 0x00, 0x00, 0x00, 0x01, 0x00, 0x01, 0x00, 0x00, 0x00, 0x00, 0x00, 0x00, 0x00, 0x00]

/-- US_DIRECTION: whether the data of a command comes in. -/
def usDirection (x : UInt8) : Bool :=
  ((usDirectionTable[(x >>> 3).toNat]?).getD 0 >>> (x &&& 7)) &&& 1 = 1

/-- The command of usb_stor_CB_reset. -/
def sendDiag : List UInt8 := [SCSI_SEND_DIAG, 4] ++ List.replicate 10 0xFF

def be32 (bytes : List UInt8) (place : Nat) : Nat :=
  ((bytes[place]?).getD 0).toNat * 2 ^ 24 + ((bytes[place + 1]?).getD 0).toNat * 2 ^ 16 +
    ((bytes[place + 2]?).getD 0).toNat * 2 ^ 8 + ((bytes[place + 3]?).getD 0).toNat

section Messages

variable (us : UsData) (answers : Nat → Answer)

/-- The byte at a position of the data for a command: a READ(10) sends its blocks. -/
def mediumByte (cdb : List UInt8) (position : Nat) : Option (Nat × Nat) :=
  if cdb.head? = some SCSI_READ10 then
    some ((be32 cdb 2 + position / us.blksz) % 2 ^ 32, position % us.blksz)
  else none

/-- `n` bytes of the device's data come to a place. -/
def Host.store (host : Host) (pointer : Pointer) (n : Nat) (sense : Nat → UInt8) : Host :=
  match pointer with
  | .buffer offset =>
      { host with
        buffer := fun x =>
          if offset ≤ x ∧ x < offset + n then
            mediumByte us host.cdb (host.position + (x - offset))
          else host.buffer x
        filled := max host.filled (offset + n) }
  | .sense offset =>
      { host with
        senseBuf := fun x =>
          if offset ≤ x ∧ x < offset + n then sense (x - offset) else host.senseBuf x }

/-- The result of usb_bulk_msg or of a control message without data. -/
def messageResult (answer : Answer) : Int := if answer.status = 0 then 0 else -1

/-- usb_bulk_msg on the pipe for data of the device. The host controller reports no more bytes than
it was asked for. -/
def bulkIn (pointer : Pointer) (len : Nat) : Program Host (Int × Nat) := fun host =>
  let answer := answers host.messages
  let actLen := min answer.actLen len
  some ((messageResult answer, actLen), { host.store us pointer actLen answer.sense with
    messages := host.messages + 1
    status := answer.status
    position := host.position + actLen })

/-- usb_bulk_msg for data to the device. -/
def bulkOut (len : Nat) : Program Host (Int × Nat) := fun host =>
  let answer := answers host.messages
  some ((messageResult answer, min answer.actLen len),
    { host with messages := host.messages + 1, status := answer.status })

def bulkData (dirIn : Bool) (pointer : Pointer) (len : Nat) : Program Host (Int × Nat) :=
  if dirIn then bulkIn us answers pointer len else bulkOut answers len

/-- A message that brings a command to the device. -/
def sendCommand (cmd : List UInt8) : Program Host Int := fun host =>
  let answer := answers host.messages
  some (messageResult answer, { host with
    messages := host.messages + 1, status := answer.status, cdb := cmd, position := 0 })

/-- usb_control_msg without data, for a reset or to clear a halt. -/
def controlMsg : Program Host Int := fun host =>
  let answer := answers host.messages
  some (messageResult answer,
    { host with messages := host.messages + 1, status := answer.status })

/-- The message for the status wrapper. -/
def bulkCsw : Program Host (Int × Csw) := fun host =>
  let answer := answers host.messages
  some ((messageResult answer, answer.csw),
    { host with messages := host.messages + 1, status := answer.status })

def getStatus : Program Host UInt32 := fun host => some (host.status, host)

def putStatus (status : UInt32) : Program Host Unit := fun host =>
  some ((), { host with status := status })

def stalled (status : UInt32) : Bool := status &&& USB_ST_STALLED ≠ 0

def naked (status : UInt32) : Bool := status &&& USB_ST_NAK_REC ≠ 0

/-! ### us_one_transfer -/

/-- The inner loop: where the next chunk goes, or the value that the function returns. -/
def transferChunk (dirIn : Bool) :
    (fuel : Nat) → Pointer → (thisXfer maxtry : Nat) → Program Host (Pointer ⊕ Int)
  | 0, _, _, _ => fun _ => none
  | fuel + 1, pointer, thisXfer, maxtry => do
      let (result, partialLen) ← bulkData us answers dirIn pointer thisXfer
      let status ← getStatus
      if status ≠ 0 ∧ stalled status then
        let _ ← controlMsg answers
        putStatus status
        -- with an error, but the data is taken to be ok
        if thisXfer = partialLen then pure (.inr 0) else pure (.inr result)
      else if status ≠ 0 ∧ naked status then pure (.inr result)
      else if status ≠ 0 ∧ thisXfer = partialLen then pure (.inr 0)
      else if status ≠ 0 ∧ maxtry = 0 then pure (.inr result)
      else if thisXfer - partialLen = 0 then pure (.inl (pointer.add partialLen))
      else
        transferChunk dirIn fuel (pointer.add partialLen) (thisXfer - partialLen)
          (if status ≠ 0 then maxtry - 1 else maxtry)

def usOneTransfer (dirIn : Bool) : (fuel : Nat) → Pointer → (length : Nat) → Program Host Int
  | 0, _, _ => fun _ => none
  | fuel + 1, pointer, length =>
      if length = 0 then pure 0
      else do
        let maxSize := us.maxpacket dirIn * 16
        let thisXfer := if maxSize < length then maxSize else length
        match ← transferChunk us answers dirIn (fuel + 1) pointer thisXfer 10 with
        | .inr result => pure result
        | .inl next => usOneTransfer dirIn fuel next (length - thisXfer)

/-! ### The bulk-only transport -/

def usbStorBBBReset : Program Host Unit := do
  let result ← controlMsg answers
  let status ← getStatus
  if result < 0 ∧ stalled status then pure ()
  else
    let _ ← controlMsg answers
    let _ ← controlMsg answers
    pure ()

def takeTag : Program Host UInt32 := fun host =>
  some (host.cbwTag, { host with cbwTag := host.cbwTag + 1 })

def failAfterReset : Program Host Int := do
  usbStorBBBReset answers
  pure USB_STOR_TRANSPORT_FAILED

/-- The data phase: none stands for the way out with a reset. -/
def bbbData (srb : Ccb) : Program Host (Option Nat) :=
  if srb.datalen = 0 then pure (some 0)
  else do
    let dirIn := usDirection (srb.cmd.headD 0)
    let (result, dataActlen) ← bulkData us answers dirIn srb.pdata srb.datalen
    let status ← getStatus
    if result < 0 ∧ stalled status then
      let cleared ← controlMsg answers
      if 0 ≤ cleared then pure (some dataActlen) else pure none
    else if result < 0 then pure none
    else pure (some dataActlen)

/-- The status phase, with one more try after a stall. -/
def bbbStatus : Program Host (Option (Int × Csw)) := do
  let (result, csw) ← bulkCsw answers
  let status ← getStatus
  if result < 0 ∧ stalled status then
    let cleared ← controlMsg answers
    if 0 ≤ cleared then
      let (result, csw) ← bulkCsw answers
      if result < 0 then pure none else pure (some (result, csw))
    else pure none
  else if result < 0 then pure none
  else pure (some (result, csw))

/-- usb_stor_BBB_transport, with usb_stor_BBB_comdat. The residue is computed and not used. -/
def usbStorBBBTransport (srb : Ccb) : Program Host Int := do
  let tag ← takeTag
  let result ← sendCommand answers srb.cmd
  if result < 0 then failAfterReset answers
  else
    match ← bbbData us answers srb with
    | none => failAfterReset answers
    | some dataActlen =>
        match ← bbbStatus answers with
        | none => failAfterReset answers
        | some (result, csw) =>
            if csw.signature ≠ CSWSIGNATURE then failAfterReset answers
            else if csw.tag ≠ tag then failAfterReset answers
            else if CSWSTATUS_PHASE < csw.status then failAfterReset answers
            else if csw.status = CSWSTATUS_PHASE then failAfterReset answers
            else if srb.datalen < dataActlen then pure USB_STOR_TRANSPORT_FAILED
            else if csw.status = CSWSTATUS_FAILED then pure USB_STOR_TRANSPORT_FAILED
            else pure result

/-! ### The control/bulk transports -/

def usbStorCBReset : Program Host Unit := do
  let _ ← sendCommand answers sendDiag
  let _ ← controlMsg answers
  let _ ← controlMsg answers
  pure ()

/-- usb_stor_CB_comdat; `retry` is what is left of the five tries. -/
def usbStorCBComdat (fuel : Nat) (srb : Ccb) : (retry : Nat) → (result : Int) → Program Host Int
  | 0, result => pure result
  | retry + 1, _ => do
      let result ← sendCommand answers srb.cmd
      if result < 0 then
        let status ← getStatus
        if stalled status then
          let _ ← controlMsg answers
          putStatus status
          pure result
        else pure result
      else if srb.datalen = 0 then pure result
      else
        let result ← usOneTransfer us answers (usDirection (srb.cmd.headD 0)) fuel srb.pdata srb.datalen
        let status ← getStatus
        if naked status then usbStorCBComdat fuel srb retry result else pure result

/-- submit_int_msg and the wait for usb_stor_irq: whether the interrupt came. -/
def waitInterrupt : Program Host Bool := fun host =>
  match (answers host.messages).interrupt with
  | none => some (false, { host with messages := host.messages + 1 })
  | some data => some (true, { host with messages := host.messages + 1, ipData := data })

def getIpData : Program Host UInt16 := fun host => some (host.ipData, host)

/-- usb_stor_CBI_get_status -/
def usbStorCBIGetStatus (srb : Ccb) : Program Host Int := do
  if ← waitInterrupt answers then
    let ipData ← getIpData
    if us.ufi then
      if srb.cmd.headD 0 = SCSI_REQ_SENSE ∨ srb.cmd.headD 0 = SCSI_INQUIRY then
        pure USB_STOR_TRANSPORT_GOOD
      else if ipData ≠ 0 then pure USB_STOR_TRANSPORT_FAILED
      else pure USB_STOR_TRANSPORT_GOOD
    else if ipData = 1 then pure USB_STOR_TRANSPORT_GOOD
    else if ipData = 2 then pure USB_STOR_TRANSPORT_FAILED
    else pure USB_STOR_TRANSPORT_ERROR
  else pure USB_STOR_TRANSPORT_ERROR

/-- The sense codes of the interrupt go into srb->sense_buf. -/
def putSense : Program Host Unit := fun host =>
  some ((), { host with
    senseBuf := Function.update (Function.update host.senseBuf 12 (host.ipData >>> 8).toUInt8)
      13 (host.ipData &&& 0xff).toUInt8 })

def getSense (place : Nat) : Program Host UInt8 := fun host => some (host.senseBuf place, host)

/-- The request for sense data that the driver makes after a command. -/
def senseCcb : Ccb where
  cmd := [SCSI_REQ_SENSE, us.lun <<< 5, 0, 0, 18, 0, 0, 0, 0, 0, 0, 0]
  datalen := 18
  pdata := .sense 0

/-- What the interrupt of a CBI device says of a command: the result of usb_stor_CB_transport if it
ends there. -/
def interruptResult (srb : Ccb) : Program Host (Option Int) :=
  if us.protocol = .cbi then do
    let status ← usbStorCBIGetStatus us answers srb
    if status = USB_STOR_TRANSPORT_ERROR then pure (some status)
    else
      putSense
      let ipData ← getIpData
      if ipData = 0 ∧ status = USB_STOR_TRANSPORT_GOOD then pure (some status) else pure none
  else pure none

/-- What the sense data says of a command: the result, or whether the device was not ready and the
command goes out again. -/
inductive Sense where
  | result (status : Int)
  | notReady
  | unknown

/-- The interrupt after the auto request; its status is not used. -/
def autoInterrupt : Program Host Unit :=
  if us.protocol = .cbi then do
    let _ ← usbStorCBIGetStatus us answers (senseCcb us)
    pure ()
  else pure ()

/-- The auto request and the check of its sense data. -/
def autoRequest (fuel : Nat) : Program Host Sense := do
  let result ← usbStorCBComdat us answers fuel (senseCcb us) 5 0
  autoInterrupt us answers
  let status ← getStatus
  if result < 0 ∧ ¬ stalled status then pure (.result USB_STOR_TRANSPORT_ERROR)
  else
    let key ← getSense 2
    let asc ← getSense 12
    let ascq ← getSense 13
    if key = 0 ∧ asc = 0 ∧ ascq = 0 then pure (.result USB_STOR_TRANSPORT_GOOD)
    else if key = 1 then pure (.result USB_STOR_TRANSPORT_GOOD)
    else if key = 2 then pure .notReady
    else pure .unknown

/-- usb_stor_CB_transport, from do_retry on. -/
def usbStorCBTransport (srb : Ccb) :
    (fuel retry notready : Nat) → Program Host Int
  | 0, _, _ => fun _ => none
  | fuel + 1, retry, notready => do
      let result ← usbStorCBComdat us answers fuel srb 5 0
      match ← interruptResult us answers srb with
      | some status => pure status
      | none =>
          let status ← getStatus
          if result < 0 ∧ ¬ stalled status then
            usbStorCBReset answers
            pure USB_STOR_TRANSPORT_ERROR
          else if us.protocol = .cbi ∧
              (srb.cmd.headD 0 = SCSI_REQ_SENSE ∨ srb.cmd.headD 0 = SCSI_INQUIRY) then
            pure USB_STOR_TRANSPORT_GOOD
          else
            match ← autoRequest us answers fuel with
            | .result status => pure status
            | .notReady =>
                if USB_TRANSPORT_NOT_READY_RETRY < notready then pure USB_STOR_TRANSPORT_FAILED
                else usbStorCBTransport srb fuel retry (notready + 1)
            | .unknown =>
                if USB_TRANSPORT_UNKNOWN_RETRY < retry then pure USB_STOR_TRANSPORT_FAILED
                else usbStorCBTransport srb fuel (retry + 1) notready

/-- ss->transport -/
def transport (fuel : Nat) (srb : Ccb) : Program Host Int :=
  match us.protocol with
  | .bulk => usbStorBBBTransport us answers srb
  | .cb => usbStorCBTransport us answers srb fuel 0 0
  | .cbi => usbStorCBTransport us answers srb fuel 0 0

/-! ### The commands -/

/-- usb_request_sense -/
def usbRequestSense (fuel : Nat) : Program Host Unit := do
  let _ ← transport us answers fuel (senseCcb us)
  pure ()

def readyCcb : Ccb where
  cmd := [SCSI_TST_U_RDY, us.lun <<< 5, 0, 0, 0, 0, 0, 0, 0, 0, 0, 0]
  datalen := 0
  pdata := .buffer 0

/-- usb_test_unit_ready: whether the device was ready in one of the tries. -/
def usbTestUnitReady (fuel : Nat) : (tries : Nat) → Program Host Bool
  | 0 => pure false
  | tries + 1 => do
      let result ← transport us answers fuel (readyCcb us)
      if result = USB_STOR_TRANSPORT_GOOD then pure true
      else
        usbRequestSense us answers fuel
        usbTestUnitReady fuel tries

def readCcb (start : UInt32) (blocks : Nat) (bufAddr : Nat) : Ccb where
  cmd := [SCSI_READ10, us.lun <<< 5, (start >>> 24).toUInt8, (start >>> 16).toUInt8,
    (start >>> 8).toUInt8, start.toUInt8, 0, UInt8.ofNat (blocks / 256), UInt8.ofNat blocks, 0, 0, 0]
  datalen := us.blksz * blocks
  pdata := .buffer bufAddr

def beginAttempt (offset : Nat) : Program Host Unit := fun host =>
  some ((), { host with filled := offset })

def endAttempt (offset asked : Nat) (good : Bool) : Program Host Unit := fun host =>
  some ((), { host with
    log := host.log ++ [{ offset := offset, asked := asked, filled := host.filled, good := good }] })

/-- usb_read_10, and its record. -/
def usbRead10 (fuel : Nat) (start : UInt32) (blocks bufAddr : Nat) : Program Host Int := do
  beginAttempt bufAddr
  let result ← transport us answers fuel (readCcb us start blocks bufAddr)
  endAttempt bufAddr (us.blksz * blocks) (decide (result = 0))
  pure result

/-- The loop at retry_it: whether the blocks were read. -/
def readChunk (fuel : Nat) (start : UInt32) (smallblks bufAddr : Nat) :
    (tries : Nat) → Program Host Bool
  | 0 => pure false
  | tries + 1 => do
      let result ← usbRead10 us answers fuel start smallblks bufAddr
      if result = 0 then pure true
      else
        usbRequestSense us answers fuel
        readChunk fuel start smallblks bufAddr tries

/-- The loop of usb_stor_read: the blocks that are left. -/
def readLoop : (fuel : Nat) → (start : UInt32) → (blks bufAddr : Nat) → Program Host Nat
  | 0, _, _, _ => fun _ => none
  | fuel + 1, start, blks, bufAddr => do
      let smallblks := min blks USB_MAX_READ_BLK
      if ← readChunk us answers fuel start smallblks bufAddr 3 then
        if blks - smallblks = 0 then pure 0
        else
          readLoop fuel (start + UInt32.ofNat smallblks) (blks - smallblks)
            (bufAddr + us.blksz * smallblks)
      else pure blks

end Messages

/-- At the beginning nothing in the buffer is of this transfer. -/
def beginTransfer : Program Host Unit := fun host =>
  some ((), { host with buffer := fun _ => none, log := [] })

/-- usb_stor_read; `dev` is what the search through the devices ends at. -/
def usbStorRead (dev : Option UsData) (answers : Nat → Answer) (fuel : Nat) (blknr blkcnt : UInt32) :
    Program Host Nat := do
  beginTransfer
  if blkcnt = 0 then pure 0
  else
    match dev with
    | none => pure 0
    | some us =>
        if ← usbTestUnitReady us answers fuel 11 then
          let left ← readLoop us answers fuel blknr blkcnt.toNat 0
          pure (blkcnt.toNat - left)
        else pure 0

end UBoot.Usb.UsbStorage
