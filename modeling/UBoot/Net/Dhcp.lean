import UBoot.Library.Runs
import UBoot.Net.NetSend
import UBoot.Net.OptionReaders
import UBoot.Net.ReceiveEffects
import UBoot.Net.Tftp

/-!
The DHCP client of net/bootp.c in NetLoop: BootpRequest, BootpTimeout,
DhcpHandler and the packets that NetReceive hands to it. A sent message is noted
by its fields, all messages are broadcasts. Once the client is bound, TFTP or NFS
takes over the handlers, and what becomes of it is given by an event; what
NetStartAgain comes to is given by an event too.
-/

namespace UBoot.Net.Dhcp

open Library.Memory Library.OptionArea Library.Runs NetReceive NetSend ReceiveEffects BootpOptions
open Tftp (NetState)

def timeoutCount : Nat := 5

def portBootps : Nat := 67

def portBootpc : Nat := 68

def opBootrequest : Nat := 1

def opBootreply : Nat := 2

def dhcpDiscover : Nat := 1

def dhcpOffer : Nat := 2

def dhcpRequestType : Nat := 3

def dhcpAck : Nat := 5

def dhcpNak : Nat := 6

inductive DhcpState where
  | init
  | initReboot
  | rebooting
  | selecting
  | requesting
  | rebinding
  | bound
  | renewing
  deriving DecidableEq

inductive DhcpTimer where
  | bootpTimeout
  | startAgainTimeout

inductive DhcpRx where
  | dhcpHandler
  | startAgainHandler
  | fileTransfer
  deriving DecidableEq

structure DhcpMessage where
  messageType : Nat
  id : Nat
  ciaddr : Nat
  yiaddr : Nat
  siaddr : Nat
  giaddr : Nat
  serverID : Nat
  requestedIP : Nat

/-- `autoload` is the variable of the environment, and `ram` bytes can be read from the start of a
received packet on. -/
structure DhcpConfig where
  net : NetConfig
  autoload : Option (List UInt8)
  ram : Nat

/-- `stuck` when DhcpMessageType has run off the memory. -/
structure DhcpLoop where
  node : Node
  netState : NetState
  rxHandler : DhcpRx
  timer : Option DhcpTimer
  dhcpState : DhcpState
  bootpID : Nat
  bootpTry : Nat
  params : NetParams
  bootFile : Buffer
  sent : List DhcpMessage
  stuck : Bool

def bootpCheckPkt (bootpID : Nat) (pkt : Buffer) (dest src len : Nat) : Int :=
  if dest ≠ portBootpc ∨ src ≠ portBootps then -1
  else if len < bpVend then -2
  -- bp_op is also compared with message types of DHCP
  else if (pkt 0).toNat ≠ opBootrequest ∧ (pkt 0).toNat ≠ opBootreply ∧
      (pkt 0).toNat ≠ dhcpOffer ∧ (pkt 0).toNat ≠ dhcpAck ∧ (pkt 0).toNat ≠ dhcpNak then -3
  else if pkt 1 ≠ 1 then -4
  else if pkt 2 ≠ 6 then -5
  else if be32 pkt 4 ≠ bootpID then -6
  else 0

/-- The lower four bytes of the Ethernet address. -/
def etherLow (mac : Mac) : Nat :=
  (mac.getD 2 0).toNat * 2 ^ 24 + (mac.getD 3 0).toNat * 2 ^ 16 + (mac.getD 4 0).toNat * 2 ^ 8 +
    (mac.getD 5 0).toNat

/-- `timer` is get_timer (0). -/
def bootpRequest (loop : DhcpLoop) (timer : Nat) : DhcpLoop :=
  let id := (etherLow loop.node.g.netOurEther + timer) % 2 ^ 32
  { loop with
    node := { loop.node with netIPID := (loop.node.netIPID + 1) % 2 ^ 32 }
    bootpTry := loop.bootpTry + 1
    bootpID := id
    timer := some .bootpTimeout
    dhcpState := .selecting
    rxHandler := .dhcpHandler
    sent := loop.sent ++ [⟨dhcpDiscover, id, 0, 0, 0, 0, 0, 0⟩] }

/-- The bytes that copy_filename takes, `count` at most. -/
def filenameBytes (src : Buffer) : Nat → Nat → List UInt8
  | 0, _ => []
  | count + 1, place =>
      if src place = 0 ∨ src place = 34 then []
      else src place :: filenameBytes src count (place + 1)

def copyFilename (dst src : Buffer) (size : Nat) : Buffer :=
  -- a quote in front is skipped, and one behind ends the name
  let name := if src 0 = 34 then filenameBytes src (size - 2) 1 else filenameBytes src (size - 1) 0
  splice dst 0 (name ++ [0])

/-- `frame` is NetRxPkt; the file name is the one of the packet after its options. -/
def bootpCopyNetParams (frame pkt : Buffer) (loop : DhcpLoop) : DhcpLoop :=
  -- the server is who sent the frame
  let served := setEther loop.node.g .netServerEther (slice frame 6 6)
  { loop with
    node := { loop.node with g := { served with
      netOurIP := be32 pkt 16
      netServerIP := if be32 pkt 20 ≠ 0 then be32 pkt 20 else loop.node.g.netServerIP } }
    bootFile := if loop.params.bpFile 0 ≠ 0 then copyFilename loop.bootFile loop.params.bpFile 128
      else loop.bootFile }

/-- The options of a packet with the cookie, then the parameters of its header. -/
def readPacket (frame pkt : Buffer) (loop : DhcpLoop) : DhcpLoop :=
  let params := { loop.params with bpFile := fun i => pkt (108 + i) }
  bootpCopyNetParams frame pkt
    { loop with
      params := if be32 pkt bpVend = bootpVendorMagic then
          dhcpOptionsProcess pkt bootpHdrSize (bpVend + 4) params
        else params }

def dhcpSendRequestPkt (offer : Buffer) (loop : DhcpLoop) : DhcpLoop :=
  { loop with
    node := { loop.node with netIPID := (loop.node.netIPID + 1) % 2 ^ 32 }
    sent := loop.sent ++ [⟨dhcpRequestType, be32 offer 4, be32 offer 12, be32 offer 16, be32 offer 20,
      be32 offer 24, loop.params.netDHCPServerIP, be32 offer 16⟩] }

/-- The 'autoload' setting; NfsStart and TftpStart set a timer and a handler of their own. -/
def autoload (cfg : DhcpConfig) (loop : DhcpLoop) : DhcpLoop :=
  let fetched := { loop with rxHandler := .fileTransfer, timer := none }
  match cfg.autoload with
  | none => fetched
  -- "n" ends NetLoop here
  | some setting => if setting.head? = some 110 then { loop with netState := .success } else fetched

/-- A packet in REQUESTING. -/
def awaitAck (cfg : DhcpConfig) (frame pkt : Buffer) (loop : DhcpLoop) : DhcpLoop :=
  match dhcpMessageType cfg.ram pkt with
  | none => { loop with stuck := true }
  | some type =>
      if type = dhcpAck then autoload cfg { readPacket frame pkt loop with dhcpState := .bound }
      else loop

def dhcpHandler (cfg : DhcpConfig) (frame pkt : Buffer) (dest src len : Nat) (loop : DhcpLoop) :
    DhcpLoop :=
  if bootpCheckPkt loop.bootpID pkt dest src len ≠ 0 then loop
  else
    match loop.dhcpState with
    | .selecting =>
        -- the message type is not looked at here
        let read := readPacket frame pkt { loop with dhcpState := .requesting }
        dhcpSendRequestPkt pkt { read with timer := some .bootpTimeout }
    | .requesting => awaitAck cfg frame pkt loop
    -- "DHCP: INVALID STATE"
    | _ => loop

def netStartAgain (loop : DhcpLoop) : StartAgain → DhcpLoop
  | .returns => loop
  | .fails => { loop with netState := .fail }
  | .waits => { loop with rxHandler := .startAgainHandler, timer := some .startAgainTimeout }
  | .restarts => { loop with netState := .restart }

def bootpTimeout (loop : DhcpLoop) (timer : Nat) (again : StartAgain) : DhcpLoop :=
  if timeoutCount ≤ loop.bootpTry then netStartAgain loop again else bootpRequest loop timer

def timeHandler (loop : DhcpLoop) (timer : Nat) (again : StartAgain) : DhcpLoop :=
  match loop.timer with
  | none => loop
  -- the timer is off before its handler runs
  | some .bootpTimeout => bootpTimeout { loop with timer := none } timer again
  | some .startAgainTimeout => { loop with timer := none, netState := .restart }

def rxHandler (cfg : DhcpConfig) (frame pkt : Buffer) (dest src len : Nat) (loop : DhcpLoop) :
    DhcpLoop :=
  match loop.rxHandler with
  | .dhcpHandler => dhcpHandler cfg frame pkt dest src len loop
  | .startAgainHandler => loop
  | .fileTransfer => loop

/-- A handler that is called without a packet, or with a port that is not its own, does nothing. -/
def handleEvent (cfg : DhcpConfig) (inpkt : Buffer) (loop : DhcpLoop) : NetEvent → DhcpLoop
  | .packetHandler (some at_) dest src len =>
      rxHandler cfg inpkt (fun i => inpkt (at_ + i)) dest src len loop
  | .packetHandler none _ _ _ => loop
  | .ethSend _ => loop
  | .cdpHandler _ _ => loop

/-- What NetLoop reads again when it starts DHCP. -/
structure DhcpIdentity where
  netOurEther : Mac
  netServerIP : Nat
  netOurVLAN : Nat
  netOurNativeVLAN : Nat

def dhcpNode (node : Node) (identity : DhcpIdentity) : Node :=
  { node with g := { node.g with
    netOurEther := identity.netOurEther
    netOurIP := 0
    netServerIP := identity.netServerIP
    netOurVLAN := identity.netOurVLAN
    netOurNativeVLAN := identity.netOurNativeVLAN } }

def dhcpStart (loop : DhcpLoop) (identity : DhcpIdentity) (timer : Nat) : DhcpLoop :=
  bootpRequest
    { loop with node := dhcpNode loop.node identity, netState := .continue, bootpTry := 0 } timer

inductive DhcpEvent where
  | receive (inpkt : Buffer) (len : Int)
  | timeout (timer : Nat) (again : StartAgain)
  | transferEnds (outcome : NetState)
  | restart (identity : DhcpIdentity) (timer : Nat)

def loopStep (cfg : DhcpConfig) (loop : DhcpLoop) : DhcpEvent → DhcpLoop
  | .receive inpkt len =>
      -- the handlers are called in the order in which NetReceive calls them
      let result := netReceive cfg.net loop.node.g inpkt len
      result.2.foldl (handleEvent cfg inpkt) { loop with node := { loop.node with g := result.1 } }
  | .timeout timer again => timeHandler loop timer again
  | .transferEnds outcome =>
      if loop.rxHandler = .fileTransfer then { loop with netState := outcome } else loop
  | .restart identity timer =>
      if loop.netState = .restart then dhcpStart loop identity timer else loop

def dhcpStep (cfg : DhcpConfig) (loop : DhcpLoop) (event : DhcpEvent) : DhcpLoop :=
  if loop.stuck then loop else loopStep cfg loop event

end UBoot.Net.Dhcp
