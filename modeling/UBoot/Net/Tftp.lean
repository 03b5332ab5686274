import Mathlib.Data.UInt
import UBoot.Lib.Strings
import UBoot.Library.Memory
import UBoot.Library.Runs

/-!
The TFTP client of net/tftp.c inside the loop of net/net.c: the handler of
received packets, the retry timer, NetStartAgain with the ring of network
devices, and the switch on NetState at the end of each turn of NetLoop. `ulong`
and addresses have 32 bits. CFG_DIRECT_FLASH_TFTP, CONFIG_TFTP_PORT and
CONFIG_NET_RETRY_COUNT are not defined for the board, CONFIG_NET_MULTI and
FW_RECOVERY are.
-/

namespace UBoot.Net.Tftp

open Lib.Strings Library.Memory

def tftpTimeoutSeconds : Nat := 2

def timeoutCount : Nat := 3

def wellKnownPort : Nat := 69

def tftpBlockSize : Nat := 512

def tftpSequenceSize : Nat := 2 ^ 16

inductive TftpState where
  | rrq
  | data
  | tooLarge
  | badMagic
  | oack
  deriving DecidableEq

inductive NetState where
  | «continue»
  | restart
  | success
  | fail
  deriving DecidableEq

inductive RxHandler where
  | tftpHandler
  | startAgainHandler
  deriving DecidableEq

inductive TimeHandler where
  | tftpTimeout
  | startAgainTimeout
  deriving DecidableEq

/-- What does not change during a transfer; `netretry` is the value of that variable. -/
structure NetConfig where
  fwRecovery : Nat
  netretry : Option (List UInt8)
  ethDevices : Nat
  tftpFilename : List UInt8

/-- The state of net.c; devices are numbered along the ring of eth_current->next. -/
structure LoopState where
  netState : NetState
  packetHandler : RxHandler
  timeHandler : Option TimeHandler
  netRestartWrap : Bool
  netRestarted : Bool
  netDevExists : Bool
  ethCurrent : Nat
  firstFailed : Option Nat

inductive Message where
  | rrq (filename : List UInt8) (timeout : Nat)
  | ack (block : Nat)
  | error (code : Nat) (text : List UInt8)

structure SentPacket where
  port : Nat
  message : Message

/-- A call of memcpy in store_block. -/
structure StoredBlock where
  offset : Nat
  dest : Nat
  len : Nat

/-- `sent` holds what went to NetSendUDPPacket and `stored` the blocks that were stored, both
since TftpStart. -/
structure Client where
  loop : LoopState
  tftpServerPort : Nat
  tftpOurPort : Nat
  tftpTimeoutCount : Nat
  tftpBlock : Nat
  tftpLastBlock : Nat
  tftpBlockWrap : Nat
  tftpBlockWrapOffset : Nat
  tftpState : TftpState
  netBootFileXferSize : Nat
  loadAddr : Nat
  mem : Nat → UInt8
  sent : List SentPacket
  stored : List StoredBlock

def storeBlock (client : Client) (block : Nat) (src : Nat → UInt8) (len : Nat) : Client :=
  let offset := (block * tftpBlockSize + client.tftpBlockWrapOffset) % 2 ^ 32
  let newsize := (offset + len) % 2 ^ 32
  { client with
    mem := copy (2 ^ 32) client.mem (client.loadAddr + offset) src len
    stored := client.stored ++ [⟨offset, client.loadAddr + offset, len⟩]
    netBootFileXferSize :=
      if client.netBootFileXferSize < newsize then newsize else client.netBootFileXferSize }

def tftpMessage (cfg : NetConfig) (client : Client) : Message :=
  match client.tftpState with
  | .rrq => .rrq cfg.tftpFilename tftpTimeoutSeconds
  | .data => .ack (client.tftpBlock % 2 ^ 16)
  | .oack => .ack (client.tftpBlock % 2 ^ 16)
  | .tooLarge => .error 3 (ascii "File too large")
  | .badMagic => .error 2 (ascii "File has bad magic")

def tftpSend (cfg : NetConfig) (client : Client) : Client :=
  { client with sent := client.sent ++ [⟨client.tftpServerPort, tftpMessage cfg client⟩] }

def ethTryAnother (cfg : NetConfig) (loop : LoopState) (firstRestart : Bool) : LoopState :=
  if cfg.ethDevices = 0 then loop
  else
    let firstFailed := if firstRestart then some loop.ethCurrent else loop.firstFailed
    let ethCurrent := (loop.ethCurrent + 1) % cfg.ethDevices
    { loop with
      firstFailed := firstFailed
      ethCurrent := ethCurrent
      netRestartWrap := loop.netRestartWrap || firstFailed == some ethCurrent }

def netStartAgain (cfg : NetConfig) (loop : LoopState) : LoopState :=
  if cfg.fwRecovery ≠ 0 then loop
  else if cfg.netretry = some (ascii "no") then { loop with netState := .fail }
  else
    let next := ethTryAnother cfg loop (!loop.netRestarted)
    if next.netRestartWrap then
      if next.netDevExists ∧ cfg.netretry ≠ some (ascii "once") then
        { next with
          netRestartWrap := false
          timeHandler := some .startAgainTimeout
          packetHandler := .startAgainHandler }
      else { next with netRestartWrap := false, netState := .fail }
    else { next with netState := .restart }

def startAgain (cfg : NetConfig) (client : Client) : Client :=
  { client with loop := netStartAgain cfg client.loop }

def netSetTimeout (loop : LoopState) (handler : TimeHandler) : LoopState :=
  { loop with timeHandler := some handler }

/-- `TftpBlock = ntohs (...)` and the wrap-around of the counter. -/
def countBlock (client : Client) (block : Nat) : Client :=
  if block = 0 then
    { client with
      tftpBlock := block
      tftpBlockWrap := (client.tftpBlockWrap + 1) % 2 ^ 32
      tftpBlockWrapOffset :=
        (client.tftpBlockWrapOffset + tftpBlockSize * tftpSequenceSize) % 2 ^ 32 }
  else { client with tftpBlock := block }

/-- A block that is not the last one again. -/
def acceptBlock (cfg : NetConfig) (client : Client) (src : Nat → UInt8) (len : Nat) : Client :=
  let timed := { client with
    tftpLastBlock := client.tftpBlock
    loop := netSetTimeout client.loop .tftpTimeout
    tftpTimeoutCount := 0 }
  let stored := storeBlock timed ((client.tftpBlock + 2 ^ 32 - 1) % 2 ^ 32) src len
  let acknowledged := tftpSend cfg stored
  if len < tftpBlockSize then
    { acknowledged with loop := { acknowledged.loop with netState := .success } }
  else acknowledged

/-- TFTP_DATA; `src` and `len` are the payload behind the block number. -/
def tftpData (cfg : NetConfig) (client : Client) (block srcPort : Nat) (src : Nat → UInt8)
    (len : Nat) : Client :=
  let counted := countBlock client block
  if counted.tftpState = .rrq ∨ counted.tftpState = .oack then
    let first := { counted with
      tftpState := .data
      tftpServerPort := srcPort
      tftpLastBlock := 0
      tftpBlockWrap := 0
      tftpBlockWrapOffset := 0 }
    if block ≠ 1 then startAgain cfg first
    else if block = first.tftpLastBlock then first
    else acceptBlock cfg first src len
  else if block = counted.tftpLastBlock then counted
  else acceptBlock cfg counted src len

def read16 (pkt : Nat → UInt8) (at_ : Nat) : Nat := (pkt at_).toNat * 256 + (pkt (at_ + 1)).toNat

def tftpHandler (cfg : NetConfig) (client : Client) (pkt : Nat → UInt8) (dest src len : Nat) :
    Client :=
  if dest ≠ client.tftpOurPort then client
  else if client.tftpState ≠ .rrq ∧ src ≠ client.tftpServerPort then client
  else if len < 2 then client
  else
    match read16 pkt 0 with
    | 6 => tftpSend cfg { client with tftpState := .oack, tftpServerPort := src }
    | 3 =>
        if len - 2 < 2 then client
        else tftpData cfg client (read16 pkt 2) src (fun i => pkt (4 + i)) (len - 4)
    | 5 => startAgain cfg client
    | _ => client

/-- `bootMem` is the memory when do_bootm returns. -/
def tftpTimeout (cfg : NetConfig) (client : Client) (bootMem : Nat → UInt8) : Client :=
  let counted := { client with tftpTimeoutCount := client.tftpTimeoutCount + 1 }
  if timeoutCount < counted.tftpTimeoutCount then
    if cfg.fwRecovery ≠ 0 then startAgain cfg { counted with loadAddr := 0x9f020000, mem := bootMem }
    else startAgain cfg counted
  else tftpSend cfg { counted with loop := netSetTimeout counted.loop .tftpTimeout }

/-- TftpStart, and NetLoop's reset of the size behind it; `timer` is get_timer (0). -/
def tftpStart (cfg : NetConfig) (client : Client) (timer : Nat) : Client :=
  let started := { client with
    loop := { netSetTimeout client.loop .tftpTimeout with
      packetHandler := .tftpHandler
      netDevExists := true }
    tftpServerPort := wellKnownPort
    tftpOurPort := 1024 + timer % 3072
    tftpTimeoutCount := 0
    tftpState := .rrq
    tftpBlock := 0
    sent := []
    stored := [] }
  { tftpSend cfg started with netBootFileXferSize := 0 }

/-- net_check_prereq (TFTP). -/
inductive Prereq where
  | ok
  | notConfigured
  | deviceNotConfigured

/-- NetLoop from the label `restart` on; `none` when it returns. -/
def netRestart (cfg : NetConfig) (client : Client) (prereq : Prereq) (timer : Nat) : Option Client :=
  let again := { client with loop := { client.loop with netState := .continue } }
  match prereq with
  | .ok => some (tftpStart cfg again timer)
  | .notConfigured => none
  | .deviceNotConfigured => some (startAgain cfg again)

inductive NetEvent where
  | receive (pkt : Nat → UInt8) (dest src len : Nat)
  | timeout (bootMem : Nat → UInt8)
  | arpTimeout
  | poll (prereq : Prereq) (timer : Nat)

/-- One thing that NetLoop does in a turn; `none` when it returns. -/
def netStep (cfg : NetConfig) (client : Client) : NetEvent → Option Client
  | .receive pkt dest src len =>
      match client.loop.packetHandler with
      | .tftpHandler => some (tftpHandler cfg client pkt dest src len)
      | .startAgainHandler => some client
  | .timeout bootMem =>
      let fired := { client with loop := { client.loop with timeHandler := none } }
      match client.loop.timeHandler with
      | none => some client
      | some .tftpTimeout => some (tftpTimeout cfg fired bootMem)
      | some .startAgainTimeout =>
          some { fired with loop := { fired.loop with netState := .restart } }
  | .arpTimeout => some (startAgain cfg client)
  | .poll prereq timer =>
      match client.loop.netState with
      | .continue => some client
      | .restart =>
          netRestart cfg { client with loop := { client.loop with netRestarted := true } } prereq timer
      | .success => none
      | .fail => none

end UBoot.Net.Tftp
