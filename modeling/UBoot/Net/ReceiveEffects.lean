import UBoot.Net.NetReceive

/-!
What NetReceive can do to the variables of the network: nothing, take an ARP
reply for the packet that waits, or take a RARP reply. Every law about received
frames is read off this one case split.
-/

namespace UBoot.Net.ReceiveEffects

open Library.Memory NetReceive

/-- The ARP reply at `arp` is for the waiting packet. -/
structure ArpReply (g : NetGlobals) (inpkt : Buffer) (arp : Nat) (waiting : EtherVar) : Prop where
  opcode : be16 inpkt (arp + 6) = arpopReply
  known : g.netOurIP ≠ 0
  target : be32 inpkt (arp + 24) = g.netOurIP
  sender : be32 inpkt (arp + 14) = g.netArpWaitReplyIP
  pending : g.netArpWaitPacketIP ≠ 0
  waits : g.netArpWaitPacketMAC = some waiting

def senderMac (inpkt : Buffer) (arp : Nat) : Mac := slice inpkt (arp + 8) 6

/-- The variables behind an ARP reply that was taken. -/
def released (g : NetGlobals) (inpkt : Buffer) (arp : Nat) (waiting : EtherVar) : NetGlobals :=
  { setEther g waiting (senderMac inpkt arp) with
    netArpWaitTxPacket := splice g.netArpWaitTxPacket 0 (senderMac inpkt arp)
    netArpWaitPacketIP := 0
    netArpWaitTxPacketSize := 0
    netArpWaitPacketMAC := none }

/-- The waiting packet with the address that was found. -/
def releasedFrame (g : NetGlobals) (inpkt : Buffer) (arp : Nat) : List UInt8 :=
  slice (splice g.netArpWaitTxPacket 0 (senderMac inpkt arp)) 0 g.netArpWaitTxPacketSize

structure RarpReply (inpkt : Buffer) (arp : Nat) : Prop where
  opcode : be16 inpkt (arp + 6) = rarpopReply
  hardware : be16 inpkt arp = arpEther
  protocol : be16 inpkt (arp + 2) = protIp
  sizes : inpkt (arp + 4) = 6 ∧ inpkt (arp + 5) = 4

/-- The variables behind a RARP reply. -/
def named (g : NetGlobals) (inpkt : Buffer) (arp : Nat) : NetGlobals :=
  { setEther g .netServerEther (senderMac inpkt arp) with
    netOurIP := be32 inpkt (arp + 24)
    netServerIP := if g.netServerIP = 0 then be32 inpkt (arp + 14) else g.netServerIP }

theorem set_ether_self (g : NetGlobals) (which : EtherVar) (mac : Mac) :
    (setEther g which mac).ether which = mac := by
  simp [setEther]

theorem set_ether_other (g : NetGlobals) {which name : EtherVar} (mac : Mac) (other : name ≠ which) :
    (setEther g which mac).ether name = g.ether name := by
  simp [setEther, other]

theorem receive_arp_cases (g : NetGlobals) (inpkt : Buffer) (arp : Nat) (len : Int) :
    (receiveArp g inpkt arp len = (g, []) ∨
      be16 inpkt (arp + 6) = arpopRequest ∧
        receiveArp g inpkt arp len = (g, [.ethSend (arpAnswer g inpkt arp)])) ∨
    ∃ waiting, ArpReply g inpkt arp waiting ∧
      receiveArp g inpkt arp len =
        (released g inpkt arp waiting, [.ethSend (releasedFrame g inpkt arp)]) := by
  unfold receiveArp
  -- The checks in the order of the source; the first one that fails drops the packet.
  by_cases short : len < arpHdrSize
  · rw [if_pos short]
    exact Or.inl (Or.inl rfl)
  by_cases types : be16 inpkt arp ≠ arpEther ∨ be16 inpkt (arp + 2) ≠ protIp
  · rw [if_neg short, if_pos types]
    exact Or.inl (Or.inl rfl)
  by_cases sizes : inpkt (arp + 4) ≠ 6 ∨ inpkt (arp + 5) ≠ 4
  · rw [if_neg short, if_neg types, if_pos sizes]
    exact Or.inl (Or.inl rfl)
  by_cases foreign : g.netOurIP = 0 ∨ be32 inpkt (arp + 24) ≠ g.netOurIP
  · rw [if_neg short, if_neg types, if_neg sizes, if_pos foreign]
    exact Or.inl (Or.inl rfl)
  rw [if_neg short, if_neg types, if_neg sizes, if_neg foreign]
  by_cases request : be16 inpkt (arp + 6) = arpopRequest
  · rw [if_pos request]
    exact Or.inl (Or.inr ⟨request, rfl⟩)
  rw [if_neg request]
  by_cases reply : be16 inpkt (arp + 6) = arpopReply
  · rw [if_pos reply]
    -- Only the reply that is waited for releases the packet.
    cases waits : g.netArpWaitPacketMAC with
    | none => exact Or.inl (Or.inl rfl)
    | some waiting =>
        simp only
        by_cases idle : g.netArpWaitPacketIP = 0
        · rw [if_pos idle]
          exact Or.inl (Or.inl rfl)
        by_cases other : be32 inpkt (arp + 14) ≠ g.netArpWaitReplyIP
        · rw [if_neg idle, if_pos other]
          exact Or.inl (Or.inl rfl)
        rw [if_neg idle, if_neg other]
        obtain ⟨known, target⟩ := not_or.mp foreign
        exact Or.inr ⟨waiting, ⟨reply, known, not_not.mp target, not_not.mp other, idle, waits⟩, rfl⟩
  · rw [if_neg reply]
    exact Or.inl (Or.inl rfl)

theorem receive_rarp_cases (g : NetGlobals) (inpkt : Buffer) (arp : Nat) (len : Int) :
    receiveRarp g inpkt arp len = (g, []) ∨
    RarpReply inpkt arp ∧
      receiveRarp g inpkt arp len = (named g inpkt arp, [.packetHandler none 0 0 0]) := by
  unfold receiveRarp
  by_cases short : len < arpHdrSize
  · rw [if_pos short]
    exact Or.inl rfl
  rw [if_neg short]
  split
  · exact Or.inl rfl
  · rename_i accepted
    simp only [not_or, not_not] at accepted
    obtain ⟨opcode, hardware, protocol, hln, pln⟩ := accepted
    exact Or.inr ⟨⟨opcode, hardware, protocol, hln, pln⟩, rfl⟩

/-- The frame is for this node, and its network header is at `at_`. -/
def LinkFrame (g : NetGlobals) (inpkt : Buffer) (len : Int) (prot at_ : Nat) : Prop :=
  ∃ packet, linkDecode g false inpkt len = some packet ∧ vlanMatches g packet.vlanid = true ∧
    packet.prot = prot ∧ packet.ip = at_

/-- The decoded header says what the frame is. -/
theorem link_frame_at {g : NetGlobals} {inpkt : Buffer} {len : Int} {prot ip prot' ip' : Nat}
    (decoded : (linkDecode g false inpkt len).map (fun packet => (packet.prot, packet.ip)) =
      some (prot, ip)) (frame : LinkFrame g inpkt len prot' ip') : prot' = prot ∧ ip' = ip := by
  obtain ⟨packet, found, _, protIs, ipIs⟩ := frame
  rw [found, Option.map_some] at decoded
  injection decoded with decoded
  injection decoded with first second
  exact ⟨protIs.symm.trans first, ipIs.symm.trans second⟩

/-- The opcode of a received ARP frame. -/
def arpOpcode (g : NetGlobals) (inpkt : Buffer) (len : Int) : Option Nat :=
  (linkDecode g false inpkt len).bind fun packet =>
    if packet.prot = protArp then some (be16 inpkt (packet.ip + 6)) else none

/-- An IP datagram that the PROT_IP branch accepts, its header at `ip`. -/
structure IpFrame (g : NetGlobals) (inpkt : Buffer) (len : Int) (ip : Nat) : Prop where
  link : LinkFrame g inpkt len protIp ip
  long : (ip + ipHdrSize : Int) ≤ len
  whole : (ip + be16 inpkt (ip + 2) : Int) ≤ len
  header : ipHeaderOk g inpkt ip = true

structure EchoReply (g : NetGlobals) (inpkt : Buffer) (len : Int) (ip : Nat) : Prop where
  frame : IpFrame g inpkt len ip
  icmp : (inpkt (ip + 9)).toNat = ipprotoIcmp
  type : (inpkt (ip + 20)).toNat = icmpEchoReply

structure UdpFrame (cfg : NetConfig) (g : NetGlobals) (inpkt : Buffer) (len : Int) (ip : Nat) :
    Prop where
  frame : IpFrame g inpkt len ip
  udp : (inpkt (ip + 9)).toNat = ipprotoUdp
  checksum : cfg.udpChecksum = true → udpChecksumOk inpkt ip = true

/-- What NetReceive tells the rest of the program about a frame that changes nothing. -/
inductive Quiet (cfg : NetConfig) (g : NetGlobals) (inpkt : Buffer) (len : Int) :
    List NetEvent → Prop where
  | dropped : Quiet cfg g inpkt len []
  | answered (arp : Nat) (opcode : arpOpcode g inpkt len = some arpopRequest) :
      Quiet cfg g inpkt len [.ethSend (arpAnswer g inpkt arp)]
  | cdp (ip : Nat) (count : Int) : Quiet cfg g inpkt len [.cdpHandler ip count]
  | echo (ip : Nat) (reply : EchoReply g inpkt len ip) :
      Quiet cfg g inpkt len [.packetHandler (some ip) 0 0 0]
  | udp (ip : Nat) (datagram : UdpFrame cfg g inpkt len ip) :
      Quiet cfg g inpkt len [.packetHandler (some (ip + ipHdrSize)) (be16 inpkt (ip + 22))
        (be16 inpkt (ip + 20)) (udpPayloadLen inpkt ip)]

theorem receive_ip_quiet {cfg : NetConfig} {g : NetGlobals} {inpkt : Buffer} {len : Int}
    {packet : LinkPacket} (link : LinkFrame g inpkt len protIp packet.ip)
    (extent : packet.ip + packet.len = len) :
    Quiet cfg g inpkt len (receiveIp cfg g inpkt packet.ip packet.len) := by
  unfold receiveIp
  split
  · exact Quiet.dropped
  rename_i long
  split
  · exact Quiet.dropped
  rename_i whole
  split
  · exact Quiet.dropped
  rename_i header
  have frame : IpFrame g inpkt len packet.ip :=
    ⟨link, by omega, by omega, (Bool.not_eq_false _).mp header⟩
  split
  · rename_i icmp
    unfold receiveIcmp
    split
    · exact Quiet.dropped
    split
    · rename_i echo
      exact Quiet.echo packet.ip ⟨frame, icmp, echo.1⟩
    · exact Quiet.dropped
  split
  · exact Quiet.dropped
  rename_i udp
  split
  · exact Quiet.dropped
  rename_i checksum
  refine Quiet.udp packet.ip ⟨frame, not_not.mp udp, fun checked => ?_⟩
  exact (Bool.not_eq_false _).mp fun bad => checksum ⟨checked, bad⟩

/-- A received frame changes the variables only as a wanted ARP reply or as a RARP reply. -/
theorem net_receive_cases (cfg : NetConfig) (g : NetGlobals) (inpkt : Buffer) (len : Int) :
    (∃ events, netReceive cfg g inpkt len = (g, events) ∧ Quiet cfg g inpkt len events) ∨
    (∃ arp waiting, ArpReply g inpkt arp waiting ∧ LinkFrame g inpkt len protArp arp ∧
      arpOpcode g inpkt len = some arpopReply ∧ netReceive cfg g inpkt len =
      (released g inpkt arp waiting, [.ethSend (releasedFrame g inpkt arp)])) ∨
    ∃ arp, RarpReply inpkt arp ∧ LinkFrame g inpkt len protRarp arp ∧
      netReceive cfg g inpkt len = (named g inpkt arp, [.packetHandler none 0 0 0]) := by
  unfold netReceive
  by_cases short : len < etherHdrSize
  · rw [if_pos short]
    exact Or.inl ⟨[], rfl, Quiet.dropped⟩
  rw [if_neg short]
  simp only
  generalize cdp : (cfg.cdp && (slice inpkt 0 6 == netCDPAddr)) = iscdp
  cases decoded : linkDecode g iscdp inpkt len with
  | none => exact Or.inl ⟨[], rfl, Quiet.dropped⟩
  | some packet =>
      simp only
      -- The frame types in the order of the switch.
      split
      · exact Or.inl ⟨_, rfl, Quiet.cdp packet.ip packet.len⟩
      rename_i notCdp
      rw [Bool.not_eq_true] at notCdp
      rw [notCdp] at decoded
      split
      · exact Or.inl ⟨[], rfl, Quiet.dropped⟩
      rename_i dropped
      have matched : vlanMatches g packet.vlanid = true := (Bool.not_eq_false _).mp dropped
      split
      · rename_i isArp
        have opcodeOf : ∀ op, be16 inpkt (packet.ip + 6) = op → arpOpcode g inpkt len = some op := by
          intro op opcode
          rw [arpOpcode, decoded, Option.bind_some, if_pos isArp, opcode]
        rcases receive_arp_cases g inpkt packet.ip packet.len with
          (dropped | ⟨opcode, answered⟩) | ⟨waiting, reply, taken⟩
        · exact Or.inl ⟨[], dropped, Quiet.dropped⟩
        · exact Or.inl ⟨_, answered, Quiet.answered packet.ip (opcodeOf _ opcode)⟩
        · exact Or.inr (Or.inl ⟨packet.ip, waiting, reply, ⟨packet, decoded, matched, isArp, rfl⟩,
            opcodeOf _ reply.opcode, taken⟩)
      split
      · rename_i isRarp
        rcases receive_rarp_cases g inpkt packet.ip packet.len with dropped | ⟨reply, taken⟩
        · exact Or.inl ⟨[], dropped, Quiet.dropped⟩
        · exact Or.inr (Or.inr ⟨packet.ip, reply, ⟨packet, decoded, matched, isRarp, rfl⟩, taken⟩)
      split
      · rename_i isIp
        have extent := (link_decode_len g _ inpkt len packet decoded).1
        exact Or.inl ⟨_, rfl, receive_ip_quiet ⟨packet, decoded, matched, isIp, rfl⟩ extent⟩
      · exact Or.inl ⟨[], rfl, Quiet.dropped⟩

end UBoot.Net.ReceiveEffects
