import UBoot.Library.Runs
import UBoot.Net.NetSend
import UBoot.Net.ReceiveEffects

/-!
The packet that waits for an ARP reply, over every order of sends, received
frames and timer checks. The log numbers the packets in the order in which they
were put into NetArpWaitTxPacket and notes every frame that NetReceive sends,
answers to ARP requests apart.
-/

namespace UBoot.Net.ArpWait

open Library.Memory Library.Runs NetReceive NetSend ReceiveEffects

abbrev Frame := List UInt8

/-- What the restart of NetLoop reads again; the wait for an ARP reply goes on. -/
structure Identity where
  netOurEther : Mac
  netOurIP : Nat
  netServerIP : Nat
  netOurVLAN : Nat
  netOurNativeVLAN : Nat
  netOurSubnetMask : Nat
  netOurGatewayIP : Nat

inductive NodeEvent where
  | sendUdp (tx : Buffer) (ether : EtherVar) (dest dport sport len timer : Nat)
  | pingSend (timer : Nat)
  | forgetServerEther
  | receive (inpkt : Buffer) (len : Int)
  | arpCheck (timer : Nat)
  | restart (identity : Identity)

/-- A frame that NetReceive sent while packet number `queue` was the last one that waited. -/
structure Release where
  queue : Nat
  frame : Frame
  inpkt : Buffer
  before : NetGlobals
  after : NetGlobals

structure ArpLog where
  node : Node
  queued : List Frame
  released : List Release

def waitingFrame (g : NetGlobals) : Frame :=
  slice g.netArpWaitTxPacket 0 g.netArpWaitTxPacketSize

def sentFrames (events : List NetEvent) : List Frame :=
  events.filterMap fun event =>
    match event with
    | .ethSend frame => some frame
    | .packetHandler _ _ _ _ => none
    | .cdpHandler _ _ => none

def restartNode (node : Node) (identity : Identity) : Node :=
  { node with
    netOurSubnetMask := identity.netOurSubnetMask
    netOurGatewayIP := identity.netOurGatewayIP
    g := { node.g with
      netOurEther := identity.netOurEther
      netOurIP := identity.netOurIP
      netServerIP := identity.netServerIP
      netOurVLAN := identity.netOurVLAN
      netOurNativeVLAN := identity.netOurNativeVLAN } }

def noteReceive (cfg : NetConfig) (log : ArpLog) (inpkt : Buffer) (len : Int) : List Release :=
  if arpOpcode log.node.g inpkt len = some arpopRequest then []
  else
    (sentFrames (netReceive cfg log.node.g inpkt len).2).map fun frame =>
      ⟨log.queued.length - 1, frame, inpkt, log.node.g, (netReceive cfg log.node.g inpkt len).1⟩

def logStep (cfg : NetConfig) (interval : Nat) (log : ArpLog) : NodeEvent → ArpLog
  | .sendUdp tx ether dest dport sport len timer =>
      let loaded := { log.node with netTxPacket := tx }
      let sent := netSendUDPPacket loaded ether dest dport sport len timer
      { log with
        node := sent.1
        queued := if mustResolve loaded ether dest then log.queued ++ [waitingFrame sent.1.g]
          else log.queued }
  | .pingSend timer =>
      let sent := pingSend log.node timer
      { log with node := sent.1, queued := log.queued ++ [waitingFrame sent.1.g] }
  | .forgetServerEther =>
      { log with node := { log.node with g := setEther log.node.g .netServerEther netEtherNullAddr } }
  | .receive inpkt len =>
      { log with
        node := { log.node with g := (netReceive cfg log.node.g inpkt len).1 }
        released := log.released ++ noteReceive cfg log inpkt len }
  | .arpCheck timer => { log with node := (arpTimeoutCheck interval log.node timer).node }
  | .restart identity => { log with node := restartNode log.node identity }

/-- What the waiting packet is owed when it is sent. -/
structure Fair (interval : Nat) (queued : List Frame) (release : Release) : Prop where
  reply : ∃ arp waiting, ArpReply release.before release.inpkt arp waiting ∧
    ∃ packet, queued[release.queue]? = some packet ∧ release.frame.length = packet.length ∧
      release.frame = senderMac release.inpkt arp ++ packet.drop 6
  finished : release.after.netArpWaitPacketIP = 0
  timerOff : ∀ node timer, node.g = release.after →
    arpTimeoutCheck interval node timer = ⟨node, [], false⟩

/-- The wait is on for the last packet that was queued, and that packet was not sent. -/
structure Pending (log : ArpLog) : Prop where
  queued : log.queued.getLast? = some (waitingFrame log.node.g)
  headers : 6 ≤ log.node.g.netArpWaitTxPacketSize
  unsent : ∀ release ∈ log.released, release.queue + 1 < log.queued.length

structure Inv (interval : Nat) (log : ArpLog) : Prop where
  fair : ∀ release ∈ log.released, Fair interval log.queued release
  once : (log.released.map Release.queue).Nodup
  pending : log.node.g.netArpWaitPacketIP ≠ 0 → Pending log

section Steps
variable {cfg : NetConfig} {interval : Nat} {log : ArpLog}

theorem released_frame_eq (g : NetGlobals) (inpkt : Buffer) (arp : Nat)
    (headers : 6 ≤ g.netArpWaitTxPacketSize) :
    releasedFrame g inpkt arp = senderMac inpkt arp ++ (waitingFrame g).drop 6 := by
  have size : (senderMac inpkt arp).length = 6 := slice_length _ _ _
  obtain ⟨rest, count⟩ := Nat.exists_eq_add_of_le headers
  have front := slice_splice_same g.netArpWaitTxPacket 0 (senderMac inpkt arp)
  rw [size] at front
  have back : slice (splice g.netArpWaitTxPacket 0 (senderMac inpkt arp)) (0 + 6) rest =
      slice g.netArpWaitTxPacket (0 + 6) rest :=
    slice_splice_outside _ _ _ _ _ (Or.inr (by rw [size]))
  rw [releasedFrame, waitingFrame, count, slice_add, slice_add, front, back]
  exact congrArg _ (List.drop_left' (slice_length _ _ _)).symm

theorem fair_append {queued : List Frame} {release : Release} (more : List Frame)
    (fair : Fair interval queued release) : Fair interval (queued ++ more) release := by
  obtain ⟨⟨arp, waiting, reply, packet, found, length, frame⟩, finished, timerOff⟩ := fair
  refine ⟨⟨arp, waiting, reply, packet, ?_, length, frame⟩, finished, timerOff⟩
  exact List.getElem?_append_left (List.getElem?_eq_some_iff.mp found).1 ▸ found

theorem fair_inside {queued : List Frame} {release : Release}
    (fair : Fair interval queued release) : release.queue < queued.length := by
  obtain ⟨⟨_, _, _, _, found, _, _⟩, _, _⟩ := fair
  exact (List.getElem?_eq_some_iff.mp found).1

/-- Steps that leave the wait and the log alone. -/
theorem inv_congr {node : Node} (inv : Inv interval log)
    (ip : node.g.netArpWaitPacketIP = log.node.g.netArpWaitPacketIP)
    (packet : node.g.netArpWaitTxPacket = log.node.g.netArpWaitTxPacket)
    (size : node.g.netArpWaitTxPacketSize = log.node.g.netArpWaitTxPacketSize) :
    Inv interval { log with node := node } := by
  refine ⟨inv.fair, inv.once, fun waits => ?_⟩
  have pending := inv.pending (ip ▸ waits)
  have same : waitingFrame node.g = waitingFrame log.node.g := by
    rw [waitingFrame, packet, size]
    rfl
  refine ⟨?_, ?_, pending.unsent⟩
  · show log.queued.getLast? = some (waitingFrame node.g)
    rw [same]
    exact pending.queued
  · show 6 ≤ node.g.netArpWaitTxPacketSize
    rw [size]
    exact pending.headers

/-- A packet that is queued takes the place of the one before it. -/
theorem queue_inv {node : Node} (inv : Inv interval log) (headers : 6 ≤ node.g.netArpWaitTxPacketSize) :
    Inv interval { log with node := node, queued := log.queued ++ [waitingFrame node.g] } := by
  refine ⟨fun release member => fair_append _ (inv.fair release member), inv.once, fun _ => ?_⟩
  refine ⟨List.getLast?_concat, headers, fun release member => ?_⟩
  have inside := fair_inside (inv.fair release member)
  rw [List.length_append, List.length_singleton]
  exact Nat.succ_lt_succ inside

/-- The ARP reply sends the packet that waits, and the wait is over. -/
theorem release_inv {inpkt : Buffer} {arp : Nat} {waiting : EtherVar} (inv : Inv interval log)
    (reply : ArpReply log.node.g inpkt arp waiting) :
    Inv interval
      { log with
        node := { log.node with g := released log.node.g inpkt arp waiting }
        released := log.released ++ [⟨log.queued.length - 1, releasedFrame log.node.g inpkt arp, inpkt,
          log.node.g, released log.node.g inpkt arp waiting⟩] } := by
  have pending := inv.pending reply.pending
  have last := pending.queued
  rw [List.getLast?_eq_getElem?] at last
  have frame := released_frame_eq log.node.g inpkt arp pending.headers
  refine ⟨?_, ?_, fun waits => absurd rfl waits⟩
  · intro release member
    rcases List.mem_append.mp member with before | now
    · exact inv.fair release before
    · rw [List.mem_singleton.mp now]
      refine ⟨⟨arp, waiting, reply, waitingFrame log.node.g, last, ?_, frame⟩, rfl, ?_⟩
      · exact (slice_length _ _ _).trans (slice_length _ _ _).symm
      · intro node timer same
        have off : node.g.netArpWaitPacketIP = 0 := by rw [same]; rfl
        rw [arpTimeoutCheck, if_pos off]
  · rw [List.map_append, List.map_cons, List.map_nil]
    apply List.nodup_append.mpr
    refine ⟨inv.once, List.nodup_singleton _, ?_⟩
    intro queue before other now same
    obtain ⟨release, member, named⟩ := List.mem_map.mp before
    have earlier := pending.unsent release member
    have current : other = log.queued.length - 1 := List.mem_singleton.mp now
    omega

/-- What NetReceive sends for a frame that changes nothing answers an ARP request. -/
theorem quiet_note {inpkt : Buffer} {len : Int} {events : List NetEvent}
    (result : netReceive cfg log.node.g inpkt len = (log.node.g, events))
    (quiet : Quiet cfg log.node.g inpkt len events) : noteReceive cfg log inpkt len = [] := by
  unfold noteReceive
  split
  · rfl
  · rename_i notRequest
    rw [result]
    cases quiet with
    | dropped => rfl
    | answered arp opcode => exact absurd opcode notRequest
    | cdp ip count => rfl
    | echo ip reply => rfl
    | udp ip datagram => rfl

theorem receive_inv {inpkt : Buffer} {len : Int} (inv : Inv interval log) :
    Inv interval (logStep cfg interval log (.receive inpkt len)) := by
  unfold logStep
  rcases net_receive_cases cfg log.node.g inpkt len with
    ⟨events, result, quiet⟩ | ⟨arp, waiting, reply, _, opcode, result⟩ | ⟨arp, _, _, result⟩
  · simp only [quiet_note result quiet, List.append_nil, result]
    exact inv
  · have note : noteReceive cfg log inpkt len = [⟨log.queued.length - 1,
        releasedFrame log.node.g inpkt arp, inpkt, log.node.g,
        released log.node.g inpkt arp waiting⟩] := by
      have notRequest : ¬ arpOpcode log.node.g inpkt len = some arpopRequest := by
        rw [opcode]
        decide
      rw [noteReceive, if_neg notRequest, result]
      rfl
    simp only [note, result]
    exact release_inv inv reply
  · have note : noteReceive cfg log inpkt len = [] := by
      unfold noteReceive
      rw [result]
      split
      · rfl
      · rfl
    simp only [note, List.append_nil, result]
    exact inv_congr inv rfl rfl rfl

theorem wait_headers (node : Node) (ether : EtherVar) (dest dport sport len timer : Nat)
    (unknown : mustResolve node ether dest = true) :
    6 ≤ (netSendUDPPacket node ether dest dport sport len timer).1.g.netArpWaitTxPacketSize := by
  rw [netSendUDPPacket, if_pos unknown]
  show 6 ≤ _ + ipHdrSize + len
  unfold ipHdrSize
  omega

theorem sent_keeps_wait (node : Node) (ether : EtherVar) (dest dport sport len timer : Nat)
    (known : ¬ mustResolve node ether dest = true) :
    (netSendUDPPacket node ether dest dport sport len timer).1.g = node.g := by
  rw [netSendUDPPacket, if_neg known]

theorem arp_check_keeps_wait (node : Node) (timer : Nat) :
    (arpTimeoutCheck interval node timer).node.g.netArpWaitPacketIP = node.g.netArpWaitPacketIP ∧
      (arpTimeoutCheck interval node timer).node.g.netArpWaitTxPacket = node.g.netArpWaitTxPacket ∧
      (arpTimeoutCheck interval node timer).node.g.netArpWaitTxPacketSize =
        node.g.netArpWaitTxPacketSize := by
  unfold arpTimeoutCheck
  split
  · exact ⟨rfl, rfl, rfl⟩
  split
  · simp only
    split
    · exact ⟨rfl, rfl, rfl⟩
    · exact ⟨rfl, rfl, rfl⟩
  · exact ⟨rfl, rfl, rfl⟩

theorem log_step_inv (inv : Inv interval log) (event : NodeEvent) :
    Inv interval (logStep cfg interval log event) := by
  cases event with
  | sendUdp tx ether dest dport sport len timer =>
      unfold logStep
      simp only
      split
      · rename_i unknown
        exact queue_inv inv (wait_headers _ _ _ _ _ _ _ unknown)
      · rename_i known
        have same := sent_keeps_wait { log.node with netTxPacket := tx } ether dest dport sport len
          timer known
        exact inv_congr inv (by rw [same]) (by rw [same]) (by rw [same])
  | pingSend timer =>
      apply queue_inv inv
      show 6 ≤ _ + ipHdrSizeNoUdp + 8
      unfold ipHdrSizeNoUdp
      omega
  | forgetServerEther => exact inv_congr inv rfl rfl rfl
  | receive inpkt len => exact receive_inv inv
  | arpCheck timer =>
      obtain ⟨ip, packet, size⟩ := @arp_check_keeps_wait interval log.node timer
      exact inv_congr inv ip packet size
  | restart identity => exact inv_congr inv rfl rfl rfl

end Steps

/-- NetLoop begins with no packet waiting. -/
def beginLog (node : Node) : ArpLog :=
  ⟨{ node with g := { node.g with netArpWaitPacketIP := 0 } }, [], []⟩

/-- A client that does not know its server's address. -/
def lostClient : Node where
  g := tftpGlobals
  netTxPacket := fun _ => 7
  netIPID := 0
  netOurSubnetMask := 0xffffff00
  netOurGatewayIP := 0
  netArpWaitTimerStart := 0
  netArpWaitTry := 0
  netPingIP := 0
  pingSeqNo := 0

/-- The server's ARP reply to the client. -/
def serverReply : Buffer := fun i =>
  ([0xba, 0xbe, 0xfa, 0xce, 0x08, 0x41, 0x02, 0, 0, 0, 0, 1, 0x08, 0x06,
    0, 1, 8, 0, 6, 4, 0, 2, 0x02, 0, 0, 0, 0, 1, 0xc0, 0xa8, 1, 10,
    0xba, 0xbe, 0xfa, 0xce, 0x08, 0x41, 0xc0, 0xa8, 1, 1] : List UInt8).getD i 0

/-- A datagram of four bytes, queued, and two replies. -/
def answeredEvents : List NodeEvent :=
  [.sendUdp (fun _ => 7) .netServerEther 0xc0a8010a 69 1024 4 0, .receive serverReply 42,
    .receive serverReply 42]

def answeredLog : ArpLog := answeredEvents.foldl (logStep boardConfig 5) (beginLog lostClient)

end UBoot.Net.ArpWait
