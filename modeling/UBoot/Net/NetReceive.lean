import Mathlib.Tactic
import UBoot.Library.Memory

/-!
Frame reception of net/net.c. A received frame is the memory `inpkt` behind the
driver's pointer together with the length the driver reports; bytes past that
length are whatever the receive buffer held before. Calls into other components
(the transmit routine, the current packet handler, the CDP reader) are returned
as events in the order in which the source makes them. The board is big-endian,
so `ntohs` and `htons` are the identity. CONFIG_NETCONSOLE and CFG_ATHRHDR_EN
are not set for this board and their branches are left out.
-/

namespace UBoot.Net.NetReceive

open Library.Memory

abbrev Buffer := Nat → UInt8
abbrev Mac := List UInt8

def be16 (p : Buffer) (at_ : Nat) : Nat := (p at_).toNat * 256 + (p (at_ + 1)).toNat

def be32 (p : Buffer) (at_ : Nat) : Nat := be16 p at_ * 65536 + be16 p (at_ + 2)

def bytes16 (value : Nat) : List UInt8 :=
  [UInt8.ofNat (value / 256), UInt8.ofNat value]

def bytes32 (value : Nat) : List UInt8 :=
  bytes16 (value / 65536) ++ bytes16 (value % 65536)

def etherHdrSize : Nat := 14
def e802HdrSize : Nat := 22
def vlanEtherHdrSize : Nat := 18
def ipHdrSize : Nat := 28
def ipHdrSizeNoUdp : Nat := 20
def arpHdrSize : Nat := 28

def protIp : Nat := 0x0800
def protArp : Nat := 0x0806
def protRarp : Nat := 0x8035
def protVlan : Nat := 0x8100

def ipprotoIcmp : Nat := 1
def ipprotoUdp : Nat := 17

def vlanNone : Nat := 4095
def vlanIdmask : Nat := 0x0fff

def arpEther : Nat := 1
def arpopRequest : Nat := 1
def arpopReply : Nat := 2
def rarpopReply : Nat := 4
def icmpEchoReply : Nat := 0
def icmpRedirect : Nat := 5

/-- The variables a waiting packet's destination address may be stored in. -/
inductive EtherVar where
  | netServerEther
  | netBcastAddr
  | pingMac
  | sntpEther
  deriving DecidableEq

structure NetConfig where
  ping : Bool
  cdp : Bool
  udpChecksum : Bool

structure NetGlobals where
  netOurIP : Nat
  netServerIP : Nat
  netOurEther : Mac
  netOurVLAN : Nat
  netOurNativeVLAN : Nat
  ether : EtherVar → Mac
  netArpWaitPacketIP : Nat
  netArpWaitReplyIP : Nat
  netArpWaitPacketMAC : Option EtherVar
  netArpWaitTxPacket : Buffer
  netArpWaitTxPacketSize : Nat

inductive NetEvent where
  | ethSend (frame : List UInt8)
  | packetHandler (pkt : Option Nat) (dest src len : Nat)
  | cdpHandler (pkt : Nat) (len : Int)
  deriving DecidableEq

def netCDPAddr : Mac := [0x01, 0x00, 0x0c, 0xcc, 0xcc, 0xcc]

/-- Sum of `words` halfwords with the carries folded back twice. -/
def netCksum (p : Buffer) (at_ words : Nat) : Nat :=
  let xsum := ((List.range words).map fun i => be16 p (at_ + 2 * i)).sum
  let once := xsum % 65536 + xsum / 65536
  let twice := once % 65536 + once / 65536
  twice % 65536

def netCksumOk (p : Buffer) (at_ words : Nat) : Bool :=
  (netCksum p at_ words + 1) &&& 0xfffe == 0

def ourVlanid (vlan : Nat) : Nat := if vlan = 0xffff then vlanNone else vlan

/-- Writes the Ethernet header in place and returns its size. -/
def netSetEther (g : NetGlobals) (xet : Buffer) (addr : Mac) (prot : Nat) : Buffer × Nat :=
  let myvlanid := ourVlanid g.netOurVLAN
  let addressed := splice (splice xet 0 addr) 6 g.netOurEther
  if myvlanid &&& vlanIdmask = vlanNone then
    (splice addressed 12 (bytes16 prot), etherHdrSize)
  else
    let tagged := splice addressed 12 (bytes16 protVlan)
    let withTag := splice tagged 14 (bytes16 (myvlanid &&& vlanIdmask))
    (splice withTag 16 (bytes16 prot), vlanEtherHdrSize)

structure LinkPacket where
  prot : Nat
  ip : Nat
  len : Int
  vlanid : Nat

/-- The 802.3, Ethernet II and 802.1q branches, down to the network header. -/
def linkDecode (g : NetGlobals) (iscdp : Bool) (inpkt : Buffer) (len : Int) : Option LinkPacket :=
  let x := be16 inpkt 12
  if x < 1514 then
    -- nothing checks that the frame is long enough for the 802 header
    some { prot := be16 inpkt 20, ip := e802HdrSize, len := len - e802HdrSize, vlanid := vlanNone }
  else if x ≠ protVlan then
    some { prot := x, ip := etherHdrSize, len := len - etherHdrSize, vlanid := vlanNone }
  else if len < vlanEtherHdrSize then none
  else if g.netOurVLAN &&& vlanIdmask = vlanNone ∧ iscdp = false then none
  else
    some { prot := be16 inpkt 16, ip := vlanEtherHdrSize, len := len - vlanEtherHdrSize,
           vlanid := be16 inpkt 14 &&& vlanIdmask }

def vlanMatches (g : NetGlobals) (vlanid : Nat) : Bool :=
  let myvlanid := ourVlanid g.netOurVLAN
  let mynvlanid := ourVlanid g.netOurNativeVLAN
  if myvlanid &&& vlanIdmask = vlanNone then true
  else
    let effective := if vlanid = vlanNone then mynvlanid &&& vlanIdmask else vlanid
    decide (effective = myvlanid &&& vlanIdmask)

/-- The reply to an ARP request is built over the received frame. -/
def arpAnswer (g : NetGlobals) (inpkt : Buffer) (arp : Nat) : List UInt8 :=
  let headed := netSetEther g inpkt (slice inpkt 6 6) protArp
  let replied := splice headed.1 (arp + 6) (bytes16 arpopReply)
  let toAsker := splice replied (arp + 18) (slice replied (arp + 8) 6)
  let toAskerIP := splice toAsker (arp + 24) (slice toAsker (arp + 14) 4)
  let fromUs := splice toAskerIP (arp + 8) g.netOurEther
  let complete := splice fromUs (arp + 14) (bytes32 g.netOurIP)
  slice complete 0 (headed.2 + arpHdrSize)

def setEther (g : NetGlobals) (which : EtherVar) (address : Mac) : NetGlobals :=
  { g with ether := fun name => if name = which then address else g.ether name }

def receiveArp (g : NetGlobals) (inpkt : Buffer) (arp : Nat) (len : Int) :
    NetGlobals × List NetEvent :=
  if len < arpHdrSize then (g, [])
  else if be16 inpkt arp ≠ arpEther ∨ be16 inpkt (arp + 2) ≠ protIp then (g, [])
  else if inpkt (arp + 4) ≠ 6 ∨ inpkt (arp + 5) ≠ 4 then (g, [])
  else if g.netOurIP = 0 ∨ be32 inpkt (arp + 24) ≠ g.netOurIP then (g, [])
  else if be16 inpkt (arp + 6) = arpopRequest then
    (g, [.ethSend (arpAnswer g inpkt arp)])
  else if be16 inpkt (arp + 6) = arpopReply then
    match g.netArpWaitPacketMAC with
    | none => (g, [])
    | some waiting =>
        if g.netArpWaitPacketIP = 0 then (g, [])
        else if be32 inpkt (arp + 14) ≠ g.netArpWaitReplyIP then (g, [])
        else
          let mac := slice inpkt (arp + 8) 6
          let stored := setEther g waiting mac
          let packet := splice g.netArpWaitTxPacket 0 mac
          ({ stored with
              netArpWaitTxPacket := packet
              netArpWaitPacketIP := 0
              netArpWaitTxPacketSize := 0
              netArpWaitPacketMAC := none },
            [.ethSend (slice packet 0 g.netArpWaitTxPacketSize)])
  else (g, [])

def receiveRarp (g : NetGlobals) (inpkt : Buffer) (arp : Nat) (len : Int) :
    NetGlobals × List NetEvent :=
  if len < arpHdrSize then (g, [])
  else if be16 inpkt (arp + 6) ≠ rarpopReply ∨ be16 inpkt arp ≠ arpEther ∨
      be16 inpkt (arp + 2) ≠ protIp ∨ inpkt (arp + 4) ≠ 6 ∨ inpkt (arp + 5) ≠ 4 then (g, [])
  else
    let named := setEther g .netServerEther (slice inpkt (arp + 8) 6)
    ({ named with
        netOurIP := be32 inpkt (arp + 24)
        netServerIP := if g.netServerIP = 0 then be32 inpkt (arp + 14) else g.netServerIP },
      [.packetHandler none 0 0 0])

/-- The halfwords CONFIG_UDP_CHECKSUM adds up, an odd last byte padded with zero. -/
def udpWords (p : Buffer) (at_ : Nat) : Nat → Nat
  | 0 => 0
  | 1 => (p at_).toNat * 256
  | sumlen + 2 => be16 p at_ + udpWords p (at_ + 2) sumlen

def foldCarries : Nat → Nat → Nat
  | 0, xsum => xsum
  | fuel + 1, xsum =>
      if xsum / 65536 = 0 then xsum else foldCarries fuel (xsum % 65536 + xsum / 65536)

def udpChecksumOk (p : Buffer) (ip : Nat) : Bool :=
  let udpLen := be16 p (ip + 24)
  let pseudo := (p (ip + 9)).toNat + udpLen + be16 p (ip + 12) + be16 p (ip + 14) +
    be16 p (ip + 16) + be16 p (ip + 18)
  -- the sum is below 2^32, so the source's loop folds it at most three times
  let xsum := foldCarries 4 (pseudo + udpWords p (ip + 20) udpLen)
  decide (be16 p (ip + 26) = 0 ∨ xsum = 0 ∨ xsum = 0xffff)

/-- The C expression `ntohs(ip->udp_len) - 8`, converted to the handler's unsigned length. -/
def udpPayloadLen (p : Buffer) (ip : Nat) : Nat :=
  (be16 p (ip + 24) + 2 ^ 32 - 8) % 2 ^ 32

def receiveIcmp (cfg : NetConfig) (inpkt : Buffer) (ip : Nat) : List NetEvent :=
  -- a host redirect is only printed
  if (inpkt (ip + 20)).toNat = icmpRedirect then []
  else if (inpkt (ip + 20)).toNat = icmpEchoReply ∧ cfg.ping then [.packetHandler (some ip) 0 0 0]
  else []

/-- `ip_hl_v`, `ip_off`, checksum and destination tests of the PROT_IP branch. -/
def ipHeaderOk (g : NetGlobals) (inpkt : Buffer) (ip : Nat) : Bool :=
  (inpkt ip &&& 0xf0 == 0x40) && (be16 inpkt (ip + 6) &&& 0x1fff == 0) &&
    netCksumOk inpkt ip (ipHdrSizeNoUdp / 2) &&
    (g.netOurIP == 0 || be32 inpkt (ip + 16) == g.netOurIP || be32 inpkt (ip + 16) == 0xffffffff)

def receiveIp (cfg : NetConfig) (g : NetGlobals) (inpkt : Buffer) (ip : Nat) (len : Int) :
    List NetEvent :=
  if len < ipHdrSize then []
  else if len < be16 inpkt (ip + 2) then []
  else if ipHeaderOk g inpkt ip = false then []
  else if (inpkt (ip + 9)).toNat = ipprotoIcmp then receiveIcmp cfg inpkt ip
  else if (inpkt (ip + 9)).toNat ≠ ipprotoUdp then []
  else if cfg.udpChecksum ∧ udpChecksumOk inpkt ip = false then []
  else
    [.packetHandler (some (ip + ipHdrSize)) (be16 inpkt (ip + 22)) (be16 inpkt (ip + 20))
      (udpPayloadLen inpkt ip)]

def netReceive (cfg : NetConfig) (g : NetGlobals) (inpkt : Buffer) (len : Int) :
    NetGlobals × List NetEvent :=
  if len < etherHdrSize then (g, [])
  else
    let iscdp := cfg.cdp && (slice inpkt 0 6 == netCDPAddr)
    match linkDecode g iscdp inpkt len with
    | none => (g, [])
    | some packet =>
        if iscdp then (g, [.cdpHandler packet.ip packet.len])
        else if vlanMatches g packet.vlanid = false then (g, [])
        else if packet.prot = protArp then receiveArp g inpkt packet.ip packet.len
        else if packet.prot = protRarp then receiveRarp g inpkt packet.ip packet.len
        else if packet.prot = protIp then (g, receiveIp cfg g inpkt packet.ip packet.len)
        else (g, [])

theorem be16_lt (p : Buffer) (at_ : Nat) : be16 p at_ < 65536 := by
  have high := (p at_).toNat_lt
  have low := (p (at_ + 1)).toNat_lt
  unfold be16
  omega

theorem be16_congr {p q : Buffer} {at_ : Nat} (first : p at_ = q at_)
    (second : p (at_ + 1) = q (at_ + 1)) : be16 p at_ = be16 q at_ := by
  rw [be16, be16, first, second]

theorem be32_congr {p q : Buffer} {at_ : Nat} (same : ∀ i, i < 4 → p (at_ + i) = q (at_ + i)) :
    be32 p at_ = be32 q at_ := by
  have high : be16 p at_ = be16 q at_ := be16_congr (same 0 (by decide)) (same 1 (by decide))
  have low : be16 p (at_ + 2) = be16 q (at_ + 2) :=
    be16_congr (same 2 (by decide)) (same 3 (by decide))
  rw [be32, be32, high, low]

theorem link_decode_len (g : NetGlobals) (iscdp : Bool) (inpkt : Buffer) (len : Int)
    (packet : LinkPacket) (decoded : linkDecode g iscdp inpkt len = some packet) :
    packet.ip + packet.len = len ∧ packet.ip ≤ e802HdrSize := by
  unfold linkDecode at decoded
  dsimp only at decoded
  split at decoded
  · cases decoded
    simp [e802HdrSize]
  · split at decoded
    · cases decoded
      simp [etherHdrSize, e802HdrSize]
    · split at decoded
      · cases decoded
      · split at decoded
        · cases decoded
        · cases decoded
          simp [vlanEtherHdrSize, e802HdrSize]

theorem receive_arp_no_handler (g : NetGlobals) (inpkt : Buffer) (arp : Nat) (len : Int)
    (pkt : Option Nat) (dest src count : Nat) :
    NetEvent.packetHandler pkt dest src count ∉ (receiveArp g inpkt arp len).2 := by
  unfold receiveArp
  repeat' split
  all_goals simp

theorem receive_rarp_handler (g : NetGlobals) (inpkt : Buffer) (arp : Nat) (len : Int)
    (ptr dest src count : Nat) :
    NetEvent.packetHandler (some ptr) dest src count ∉ (receiveRarp g inpkt arp len).2 := by
  unfold receiveRarp
  repeat' split
  all_goals simp

/-- Everything the PROT_IP branch checks before it calls the packet handler. -/
theorem receive_ip_call (cfg : NetConfig) (g : NetGlobals) (inpkt : Buffer) (ip : Nat) (len : Int)
    (ptr dest src count : Nat)
    (called : NetEvent.packetHandler (some ptr) dest src count ∈ receiveIp cfg g inpkt ip len) :
    (be16 inpkt (ip + 2) : Int) ≤ len ∧
      (ptr = ip ∨ ptr = ip + ipHdrSize ∧ count = udpPayloadLen inpkt ip) := by
  unfold receiveIp at called
  split at called
  · simp at called
  · split at called
    · simp at called
    · rename_i fits
      refine ⟨by omega, ?_⟩
      split at called
      · simp at called
      · split at called
        · left
          unfold receiveIcmp at called
          repeat' split at called
          all_goals simp_all
        · right
          repeat' split at called
          all_goals simp_all

/-- A handler call with a packet pointer comes from the PROT_IP branch of a decoded frame. -/
theorem net_receive_call (cfg : NetConfig) (g : NetGlobals) (inpkt : Buffer) (len : Int)
    (ptr dest src count : Nat)
    (called : NetEvent.packetHandler (some ptr) dest src count ∈ (netReceive cfg g inpkt len).2) :
    ∃ packet : LinkPacket, packet.ip + packet.len = len ∧ packet.ip ≤ e802HdrSize ∧
      NetEvent.packetHandler (some ptr) dest src count ∈
        receiveIp cfg g inpkt packet.ip packet.len := by
  unfold netReceive at called
  split at called
  · simp at called
  · simp only at called
    cases decoded : linkDecode g (cfg.cdp && (slice inpkt 0 6 == netCDPAddr)) inpkt len with
    | none => simp [decoded] at called
    | some packet =>
        have extent := link_decode_len g _ inpkt len packet decoded
        refine ⟨packet, extent.1, extent.2, ?_⟩
        simp only [decoded] at called
        split at called
        · simp at called
        · split at called
          · simp at called
          · split at called
            · exact absurd called (receive_arp_no_handler g inpkt _ _ _ _ _ _)
            · split at called
              · exact absurd called (receive_rarp_handler g inpkt _ _ _ _ _ _)
              · split at called
                · exact called
                · simp at called

/-- NetReceive passes the UDP datagram whose IP header is at `ip` to the packet handler. -/
def DispatchesUdp (cfg : NetConfig) (g : NetGlobals) (inpkt : Buffer) (len : Int)
    (ip dport sport count : Nat) : Prop :=
  NetEvent.packetHandler (some (ip + ipHdrSize)) dport sport count ∈ (netReceive cfg g inpkt len).2

/-- The handler's range is in the frame, its length is not negative as a C `int` and no larger
than the payload that the IP total length leaves. -/
structure RangeInFrame (inpkt : Buffer) (len : Int) (ip count : Nat) : Prop where
  notNegative : count < 2 ^ 31
  inFrame : (ip + ipHdrSize + count : Int) ≤ len
  inDatagram : count + ipHdrSize ≤ be16 inpkt (ip + 2)

def UdpLengthFits (inpkt : Buffer) (ip : Nat) : Prop :=
  8 ≤ be16 inpkt (ip + 24) ∧ be16 inpkt (ip + 24) + ipHdrSizeNoUdp ≤ be16 inpkt (ip + 2)

instance (inpkt : Buffer) (ip : Nat) : Decidable (UdpLengthFits inpkt ip) :=
  inferInstanceAs (Decidable (_ ∧ _))

/-- NetReceive never compares the UDP length with the IP total length, so the range it hands on
is good exactly for the datagrams whose UDP length happens to fit. -/
theorem udp_dispatch_in_frame_iff (cfg : NetConfig) (g : NetGlobals) (inpkt : Buffer) (len : Int)
    (ip dport sport count : Nat) (dispatched : DispatchesUdp cfg g inpkt len ip dport sport count) :
    RangeInFrame inpkt len ip count ↔ UdpLengthFits inpkt ip := by
  obtain ⟨packet, extent, low, called⟩ := net_receive_call cfg g inpkt len _ _ _ _ dispatched
  obtain ⟨total, source⟩ := receive_ip_call cfg g inpkt _ _ _ _ _ _ called
  simp only [ipHdrSize, e802HdrSize] at low source
  have same : packet.ip = ip := by omega
  have length : count = udpPayloadLen inpkt ip := by
    rcases source with icmp | udp
    · omega
    · rw [udp.2, same]
  have udpBound := be16_lt inpkt (ip + 24)
  rw [same] at total extent
  unfold udpPayloadLen at length
  constructor
  · rintro ⟨notNegative, _, inDatagram⟩
    simp only [UdpLengthFits, ipHdrSizeNoUdp, ipHdrSize] at *
    omega
  · rintro ⟨header, datagram⟩
    simp only [ipHdrSizeNoUdp] at datagram
    exact ⟨by omega, by simp only [ipHdrSize]; omega, by simp only [ipHdrSize]; omega⟩

def tftpGlobals : NetGlobals where
  netOurIP := 0xc0a80101
  netServerIP := 0xc0a8010a
  netOurEther := [0xba, 0xbe, 0xfa, 0xce, 0x08, 0x41]
  netOurVLAN := 0xffff
  netOurNativeVLAN := 0xffff
  ether := fun _ => [0, 0, 0, 0, 0, 0]
  netArpWaitPacketIP := 0
  netArpWaitReplyIP := 0
  netArpWaitPacketMAC := none
  netArpWaitTxPacket := fun _ => 0
  netArpWaitTxPacketSize := 0

def boardConfig : NetConfig where
  ping := true
  cdp := false
  udpChecksum := false

/-- A 60-byte frame, padded with zeros, from port 69 to port 1024 with the given UDP length. -/
def udpFrame (udpLen : UInt8) : Buffer := fun i =>
  ([0xba, 0xbe, 0xfa, 0xce, 0x08, 0x41, 0x02, 0, 0, 0, 0, 1, 0x08, 0x00,
    0x45, 0, 0, 32, 0, 0, 0x40, 0, 0xff, 17, 0xf8, 0x70, 0xc0, 0xa8, 1, 10, 0xc0, 0xa8, 1, 1,
    0, 69, 4, 0, 0, udpLen, 0, 0] : List UInt8).getD i 0

theorem udp_dispatch_good_length :
    DispatchesUdp boardConfig tftpGlobals (udpFrame 12) 60 14 1024 69 4 ∧
      RangeInFrame (udpFrame 12) 60 14 4 :=
  have dispatched : DispatchesUdp boardConfig tftpGlobals (udpFrame 12) 60 14 1024 69 4 := by
    unfold DispatchesUdp
    decide
  ⟨dispatched, (udp_dispatch_in_frame_iff _ _ _ _ _ _ _ _ dispatched).mpr (by decide)⟩

/-- A UDP length of zero reaches the handler as 4294967288 bytes of a 60-byte frame. -/
theorem udp_dispatch_leaves_frame :
    DispatchesUdp boardConfig tftpGlobals (udpFrame 0) 60 14 1024 69 4294967288 ∧
      ¬ RangeInFrame (udpFrame 0) 60 14 4294967288 := by
  refine ⟨?_, fun inside => absurd inside.notNegative (by decide)⟩
  unfold DispatchesUdp
  decide

end UBoot.Net.NetReceive
