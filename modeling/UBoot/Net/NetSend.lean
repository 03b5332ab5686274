import UBoot.Net.NetReceive

/-!
Sending in net/net.c: the IP and UDP headers, the packet that waits for an ARP
reply, and the ARP requests for it. A node is the variables of NetReceive and
those that only the sender uses; `ulong` and IP addresses have 32 bits, and a
function returns the frames that it hands to eth_send. The mac of PingSend is a
variable of its own, like NetServerEther.
-/

namespace UBoot.Net.NetSend

open Library.Memory NetReceive

def arpTimeoutCount : Nat := 5

structure Node where
  g : NetGlobals
  netTxPacket : Buffer
  netIPID : Nat
  netOurSubnetMask : Nat
  netOurGatewayIP : Nat
  netArpWaitTimerStart : Nat
  netArpWaitTry : Nat
  netPingIP : Nat
  pingSeqNo : Nat

def netEtherNullAddr : Mac := [0, 0, 0, 0, 0, 0]

def netEthHdrSize (g : NetGlobals) : Nat :=
  if ourVlanid g.netOurVLAN &&& vlanIdmask = vlanNone then etherHdrSize else vlanEtherHdrSize

/-- `~NetCksum (...)` in a halfword. -/
def cksumField (p : Buffer) (at_ words : Nat) : Nat := 0xffff - netCksum p at_ words

/-- The header of NetSetIP with ip_sum still zero. -/
def udpHeader (g : NetGlobals) (netIPID dest dport sport len : Nat) : List UInt8 :=
  [0x45, 0] ++ bytes16 (ipHdrSize + len) ++ bytes16 netIPID ++ bytes16 0x4000 ++ [255, 17] ++
    bytes16 0 ++ bytes32 g.netOurIP ++ bytes32 dest ++ bytes16 sport ++ bytes16 dport ++
    bytes16 (8 + len) ++ bytes16 0

def netSetIP (g : NetGlobals) (netIPID : Nat) (xip : Buffer) (ip dest dport sport len : Nat) :
    Buffer :=
  let padded := if len % 2 = 1 then splice xip (ip + ipHdrSize + len) [0] else xip
  let unsummed := splice padded ip (udpHeader g netIPID dest dport sport len)
  splice unsummed (ip + 10) (bytes16 (cksumField unsummed ip (ipHdrSizeNoUdp / 2)))

/-- Whom to ask for the packet's destination. -/
def arpReplyIP (node : Node) : Nat :=
  if node.g.netArpWaitPacketIP &&& node.netOurSubnetMask ≠ node.g.netOurIP &&& node.netOurSubnetMask
  then
    if node.netOurGatewayIP = 0 then node.g.netArpWaitPacketIP else node.netOurGatewayIP
  else node.g.netArpWaitPacketIP

def arpHeader (g : NetGlobals) (replyIP : Nat) : List UInt8 :=
  bytes16 arpEther ++ bytes16 protIp ++ [6, 4] ++ bytes16 arpopRequest ++ g.netOurEther ++
    bytes32 g.netOurIP ++ [0, 0, 0, 0, 0, 0] ++ bytes32 replyIP

def arpRequest (node : Node) : Node × List (List UInt8) :=
  let headed := netSetEther node.g node.netTxPacket (node.g.ether .netBcastAddr) protArp
  let replyIP := arpReplyIP node
  let pkt := splice headed.1 headed.2 (arpHeader node.g replyIP)
  ({ node with
      netTxPacket := pkt
      g := { node.g with netArpWaitReplyIP := replyIP } },
    [slice pkt 0 (headed.2 + arpHdrSize)])

/-- The waiting packet of NetSendUDPPacket. -/
def waitingUdp (node : Node) (mac : Mac) (dest dport sport len : Nat) : Buffer × Nat :=
  let headed := netSetEther node.g node.g.netArpWaitTxPacket mac protIp
  let addressed := netSetIP node.g node.netIPID headed.1 headed.2 dest dport sport len
  (splice addressed (headed.2 + ipHdrSize) (slice node.netTxPacket (headed.2 + ipHdrSize) len),
    headed.2 + ipHdrSize + len)

/-- The new style broadcast. -/
def broadcastDest (dest : Nat) : Nat := if dest = 0 then 0xffffffff else dest

def etherFor (ether : EtherVar) (dest : Nat) : EtherVar :=
  if broadcastDest dest = 0xffffffff then .netBcastAddr else ether

/-- NetArpWaitTry, the timer and the packet for an address that is not known. -/
def startWait (node : Node) (packet : Buffer × Nat) (which : EtherVar) (dest timer : Nat) : Node :=
  { node with
    netIPID := (node.netIPID + 1) % 2 ^ 32
    netArpWaitTry := 1
    netArpWaitTimerStart := timer
    g := { node.g with
      netArpWaitPacketIP := dest
      netArpWaitPacketMAC := some which
      netArpWaitTxPacket := packet.1
      netArpWaitTxPacketSize := packet.2 } }

/-- NetSendUDPPacket has to resolve the destination. -/
def mustResolve (node : Node) (ether : EtherVar) (dest : Nat) : Bool :=
  node.g.ether (etherFor ether dest) == netEtherNullAddr

/-- `timer` is get_timer (0); the payload lies in NetTxPacket behind the headers. -/
def netSendUDPPacket (node : Node) (ether : EtherVar) (dest dport sport len timer : Nat) :
    Node × List (List UInt8) :=
  let mac := node.g.ether (etherFor ether dest)
  if mustResolve node ether dest then
    let packet := waitingUdp node mac (broadcastDest dest) dport sport len
    arpRequest (startWait node packet (etherFor ether dest) (broadcastDest dest) timer)
  else
    let headed := netSetEther node.g node.netTxPacket mac protIp
    let pkt := netSetIP node.g node.netIPID headed.1 headed.2 (broadcastDest dest) dport sport len
    ({ node with netTxPacket := pkt, netIPID := (node.netIPID + 1) % 2 ^ 32 },
      [slice pkt 0 (headed.2 + ipHdrSize + len)])

/-- The IP header of an echo request with ip_sum still zero. -/
def pingHeader (g : NetGlobals) (netIPID netPingIP : Nat) : List UInt8 :=
  [0x45, 0] ++ bytes16 (ipHdrSizeNoUdp + 8) ++ bytes16 netIPID ++ bytes16 0x4000 ++ [255, 1] ++
    bytes16 0 ++ bytes32 g.netOurIP ++ bytes32 netPingIP

def echoRequest (pingSeqNo : Nat) : List UInt8 :=
  bytes16 0x0800 ++ bytes16 0 ++ bytes16 0 ++ bytes16 pingSeqNo

/-- The waiting packet of PingSend. -/
def waitingPing (node : Node) : Buffer × Nat :=
  let headed := netSetEther node.g node.g.netArpWaitTxPacket netEtherNullAddr protIp
  let unsummed := splice headed.1 headed.2 (pingHeader node.g node.netIPID node.netPingIP)
  let ip := splice unsummed (headed.2 + 10)
    (bytes16 (cksumField unsummed headed.2 (ipHdrSizeNoUdp / 2)))
  let icmp := splice ip (headed.2 + ipHdrSizeNoUdp) (echoRequest node.pingSeqNo)
  (splice icmp (headed.2 + ipHdrSizeNoUdp + 2)
      (bytes16 (cksumField icmp (headed.2 + ipHdrSizeNoUdp) 4)),
    headed.2 + ipHdrSizeNoUdp + 8)

def pingSend (node : Node) (timer : Nat) : Node × List (List UInt8) :=
  let cleared := { node with g := setEther node.g .pingMac netEtherNullAddr }
  let packet := waitingPing cleared
  let waiting := startWait cleared packet .pingMac node.netPingIP timer
  arpRequest { waiting with pingSeqNo := (node.pingSeqNo + 1) % 2 ^ 16 }

/-- What NetStartAgain comes to: nothing, NETLOOP_FAIL, a wait of ten seconds or NETLOOP_RESTART. -/
inductive StartAgain where
  | returns
  | fails
  | waits
  | restarts

structure ArpCheck where
  node : Node
  frames : List (List UInt8)
  startsAgain : Bool

/-- `interval` is ARP_TIMEOUT * CFG_HZ. -/
def arpTimeoutCheck (interval : Nat) (node : Node) (timer : Nat) : ArpCheck :=
  if node.g.netArpWaitPacketIP = 0 then ⟨node, [], false⟩
  else if interval < (timer + 2 ^ 32 - node.netArpWaitTimerStart) % 2 ^ 32 then
    let again := { node with netArpWaitTry := node.netArpWaitTry + 1 }
    if arpTimeoutCount ≤ again.netArpWaitTry then ⟨{ again with netArpWaitTry := 0 }, [], true⟩
    else
      let asked := arpRequest { again with netArpWaitTimerStart := timer }
      ⟨asked.1, asked.2, false⟩
  else ⟨node, [], false⟩

end UBoot.Net.NetSend
