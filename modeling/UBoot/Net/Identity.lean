import UBoot.Library.Runs
import UBoot.Net.NetSend
import UBoot.Net.ReceiveEffects

/-!
The client's own address and its server, while TFTP, NFS or PING is the active
protocol. The handlers of these protocols do not write NetOurIP, NetServerIP or
NetServerEther; what is left are the frames that NetReceive takes itself and the
packets that the protocol sends.
-/

namespace UBoot.Net.Identity

open Library.Memory Library.Runs NetReceive NetSend ReceiveEffects

inductive ProtocolEvent where
  | receive (inpkt : Buffer) (len : Int)
  | sendUdp (tx : Buffer) (ether : EtherVar) (dest dport sport len timer : Nat)
  | pingSend (timer : Nat)
  | arpCheck (timer : Nat)

def protocolStep (cfg : NetConfig) (interval : Nat) (node : Node) : ProtocolEvent → Node
  | .receive inpkt len => { node with g := (netReceive cfg node.g inpkt len).1 }
  | .sendUdp tx ether dest dport sport len timer =>
      (netSendUDPPacket { node with netTxPacket := tx } ether dest dport sport len timer).1
  | .pingSend timer => (NetSend.pingSend node timer).1
  | .arpCheck timer => (arpTimeoutCheck interval node timer).node

/-- An ARP reply that the client waits for, to have the server's address. -/
def ServerReply (g : NetGlobals) (inpkt : Buffer) (len : Int) (mac : Mac) : Prop :=
  ∃ arp, LinkFrame g inpkt len protArp arp ∧ ArpReply g inpkt arp .netServerEther ∧
    mac = senderMac inpkt arp

/-- A run takes an ARP reply with this address. -/
def Learns (cfg : NetConfig) (interval : Nat) (first : Node) (events : List ProtocolEvent)
    (mac : Mac) : Prop :=
  ∃ front inpkt len back middle, events = front ++ .receive inpkt len :: back ∧
    Run (stepOf (protocolStep cfg interval)) first front middle ∧
    ServerReply middle.g inpkt len mac

/-- The identity with which the protocol was started. -/
structure KeepsIdentity (cfg : NetConfig) (interval : Nat) (first : Node)
    (events : List ProtocolEvent) (last : Node) : Prop where
  ourIP : last.g.netOurIP = first.g.netOurIP
  serverIP : last.g.netServerIP = first.g.netServerIP
  serverEther : last.g.ether .netServerEther = first.g.ether .netServerEther ∨
    Learns cfg interval first events (last.g.ether .netServerEther)

/-- A RARP reply is not taken, or tells the client what it knows. -/
def NoRename (node : Node) : ProtocolEvent → Prop
  | .receive inpkt len => ∀ arp, LinkFrame node.g inpkt len protRarp arp → RarpReply inpkt arp →
      be32 inpkt (arp + 24) = node.g.netOurIP ∧
      (node.g.netServerIP = 0 → be32 inpkt (arp + 14) = 0) ∧
      senderMac inpkt arp = node.g.ether .netServerEther
  | .sendUdp _ _ _ _ _ _ _ => True
  | .pingSend _ => True
  | .arpCheck _ => True

section Steps
variable {cfg : NetConfig} {interval : Nat} {node : Node}

/-- Nothing that the client sends changes who it is. -/
structure SameIdentity (before after : NetGlobals) : Prop where
  ourIP : after.netOurIP = before.netOurIP
  serverIP : after.netServerIP = before.netServerIP
  serverEther : after.ether .netServerEther = before.ether .netServerEther

theorem same_identity_refl (g : NetGlobals) : SameIdentity g g := ⟨rfl, rfl, rfl⟩

theorem send_udp_identity (ether : EtherVar) (dest dport sport len timer : Nat) :
    SameIdentity node.g (netSendUDPPacket node ether dest dport sport len timer).1.g := by
  unfold netSendUDPPacket
  simp only
  split
  · exact ⟨rfl, rfl, rfl⟩
  · exact ⟨rfl, rfl, rfl⟩

theorem ping_send_identity (timer : Nat) :
    SameIdentity node.g (NetSend.pingSend node timer).1.g := by
  have other : EtherVar.netServerEther ≠ .pingMac := by decide
  exact ⟨rfl, rfl, set_ether_other node.g netEtherNullAddr other⟩

theorem arp_check_identity (timer : Nat) :
    SameIdentity node.g (arpTimeoutCheck interval node timer).node.g := by
  unfold arpTimeoutCheck
  split
  · exact same_identity_refl node.g
  split
  · simp only
    split
    · exact same_identity_refl node.g
    · exact ⟨rfl, rfl, rfl⟩
  · exact same_identity_refl node.g

theorem receive_identity {inpkt : Buffer} {len : Int} (calm : NoRename node (.receive inpkt len)) :
    SameIdentity node.g (netReceive cfg node.g inpkt len).1 ∨
    (netReceive cfg node.g inpkt len).1.netOurIP = node.g.netOurIP ∧
      (netReceive cfg node.g inpkt len).1.netServerIP = node.g.netServerIP ∧
      ServerReply node.g inpkt len ((netReceive cfg node.g inpkt len).1.ether .netServerEther) := by
  rcases net_receive_cases cfg node.g inpkt len with
    ⟨events, result, _⟩ | ⟨arp, waiting, reply, frame, _, result⟩ | ⟨arp, reply, frame, result⟩
  · rw [result]
    exact Or.inl (same_identity_refl node.g)
  · rw [result]
    by_cases server : waiting = .netServerEther
    · subst server
      exact Or.inr ⟨rfl, rfl, arp, frame, reply, set_ether_self node.g .netServerEther (senderMac inpkt arp)⟩
    · exact Or.inl ⟨rfl, rfl, set_ether_other node.g _ fun same => server same.symm⟩
  · rw [result]
    obtain ⟨ours, unset, mac⟩ := calm arp frame reply
    refine Or.inl ⟨ours, ?_, ?_⟩
    · show (if node.g.netServerIP = 0 then be32 inpkt (arp + 14) else node.g.netServerIP) = _
      split
      · rename_i zero
        rw [unset zero, zero]
      · rfl
    · exact (set_ether_self node.g .netServerEther (senderMac inpkt arp)).trans mac

/-- One step keeps the identity, or is the ARP reply that the client waits for. -/
theorem protocol_step_identity {event : ProtocolEvent} (calm : NoRename node event) :
    KeepsIdentity cfg interval node [event] (protocolStep cfg interval node event) := by
  have sends : ∀ {after : Node}, SameIdentity node.g after.g →
      KeepsIdentity cfg interval node [event] after :=
    fun same => ⟨same.ourIP, same.serverIP, Or.inl same.serverEther⟩
  cases event with
  | receive inpkt len =>
      rcases @receive_identity cfg node inpkt len calm with same | ⟨ours, server, reply⟩
      · exact sends same
      · exact ⟨ours, server, Or.inr ⟨[], inpkt, len, [], node, rfl, Run.refl node, reply⟩⟩
  | sendUdp tx ether dest dport sport len timer =>
      exact sends (@send_udp_identity { node with netTxPacket := tx } ether dest dport sport len timer)
  | pingSend timer => exact sends (ping_send_identity timer)
  | arpCheck timer => exact sends (arp_check_identity timer)

theorem learns_cons {event : ProtocolEvent} {events : List ProtocolEvent} {mac : Mac}
    (learns : Learns cfg interval (protocolStep cfg interval node event) events mac) :
    Learns cfg interval node (event :: events) mac := by
  obtain ⟨front, inpkt, len, back, middle, parts, run, reply⟩ := learns
  refine ⟨event :: front, inpkt, len, back, middle, ?_, Run.next rfl run, reply⟩
  rw [parts]
  rfl

/-- A reply that is taken in the first step is taken in the run. -/
theorem learns_first {event : ProtocolEvent} (events : List ProtocolEvent) {mac : Mac}
    (learns : Learns cfg interval node [event] mac) :
    Learns cfg interval node (event :: events) mac := by
  obtain ⟨front, inpkt, len, back, middle, parts, run, reply⟩ := learns
  cases front with
  | nil =>
      injection parts with head _
      exact ⟨[], inpkt, len, events, middle, by rw [head]; rfl, run, reply⟩
  | cons head front =>
      injection parts with _ impossible
      cases front with
      | nil => cases impossible
      | cons _ _ => cases impossible

end Steps

def tftpNode : Node where
  g := tftpGlobals
  netTxPacket := fun _ => 0
  netIPID := 0
  netOurSubnetMask := 0xffffff00
  netOurGatewayIP := 0
  netArpWaitTimerStart := 0
  netArpWaitTry := 0
  netPingIP := 0
  pingSeqNo := 0

/-- A RARP reply from 02:00:00:00:00:01 that gives the client the address 10.0.0.1. -/
def rarpReply : Buffer := fun i =>
  ([0xff, 0xff, 0xff, 0xff, 0xff, 0xff, 0x02, 0, 0, 0, 0, 1, 0x80, 0x35,
    0, 1, 8, 0, 6, 4, 0, 4, 0x02, 0, 0, 0, 0, 1, 10, 0, 0, 2,
    0xba, 0xbe, 0xfa, 0xce, 0x08, 0x41, 10, 0, 0, 1] : List UInt8).getD i 0

end UBoot.Net.Identity
