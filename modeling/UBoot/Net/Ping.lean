import UBoot.Net.ArpWait
import UBoot.Net.Tftp

/-!
NetLoop (PING): PingHandler is the packet handler, and NetReceive calls it from
the ICMP branch with the IP header, from the UDP dispatch with the payload and
from the RARP branch with a null pointer. `nullWord` is the word at address 12,
where the null pointer's ip_src would be. What NetStartAgain comes to, which
depends on fw_recovery, netretry and the network devices, is given by the event.
-/

namespace UBoot.Net.Ping

open Library.Memory Library.Runs NetReceive NetSend ReceiveEffects ArpWait
open Tftp (NetState)

inductive PingTimer where
  | pingTimeout
  | startAgainTimeout
  deriving DecidableEq

/-- `request` is the echo request that PingSend queued and `sent` what went to eth_send since. -/
structure PingLoop where
  node : Node
  netState : NetState
  listens : Bool
  timer : Option PingTimer
  request : Frame
  sent : List Frame

def pingStart (loop : PingLoop) (timer : Nat) : PingLoop :=
  let started := NetSend.pingSend loop.node timer
  { loop with
    node := started.1
    listens := true
    timer := some .pingTimeout
    request := waitingFrame started.1.g
    sent := started.2 }

/-- The word that PingHandler takes for ip_src. -/
def sourceRead (nullWord : Nat) (inpkt : Buffer) (pkt : Option Nat) : Nat :=
  match pkt with
  | some ip => be32 inpkt (ip + 12)
  | none => nullWord

def pingHandler (nullWord : Nat) (inpkt : Buffer) (pkt : Option Nat) (loop : PingLoop) : PingLoop :=
  if sourceRead nullWord inpkt pkt ≠ loop.node.netPingIP then loop
  else { loop with netState := .success }

/-- What one event of NetReceive does to the loop; startAgainHandler ignores the packet. -/
def handleEvent (nullWord : Nat) (inpkt : Buffer) (loop : PingLoop) : NetEvent → PingLoop
  | .ethSend frame => { loop with sent := loop.sent ++ [frame] }
  | .packetHandler pkt _ _ _ =>
      if loop.listens then pingHandler nullWord inpkt pkt loop else loop
  | .cdpHandler _ _ => loop

def netStartAgain (loop : PingLoop) : StartAgain → PingLoop
  | .returns => loop
  | .fails => { loop with netState := .fail }
  | .waits => { loop with listens := false, timer := some .startAgainTimeout }
  | .restarts => { loop with netState := .restart }

inductive PingEvent where
  | receive (inpkt : Buffer) (len : Int)
  | arpCheck (timer : Nat) (again : StartAgain)
  | timeout
  | restart (identity : Identity) (timer : Nat)

/-- The time handler that has run out; NetLoop takes it away before it calls it. -/
def timeHandler (loop : PingLoop) : PingLoop :=
  match loop.timer with
  | none => loop
  | some .pingTimeout => { loop with timer := none, netState := .fail }
  | some .startAgainTimeout => { loop with timer := none, netState := .restart }

def restartLoop (loop : PingLoop) (identity : Identity) (timer : Nat) : PingLoop :=
  match loop.netState with
  | .restart =>
      pingStart { loop with node := restartNode loop.node identity, netState := .continue } timer
  | .continue => loop
  | .success => loop
  | .fail => loop

/-- One thing that NetLoop does in a turn. -/
def pingStep (cfg : NetConfig) (interval nullWord : Nat) (loop : PingLoop) : PingEvent → PingLoop
  | .receive inpkt len =>
      let result := netReceive cfg loop.node.g inpkt len
      result.2.foldl (handleEvent nullWord inpkt) { loop with node := { loop.node with g := result.1 } }
  | .arpCheck timer again =>
      let check := arpTimeoutCheck interval loop.node timer
      let checked := { loop with node := check.node, sent := loop.sent ++ check.frames }
      if check.startsAgain then netStartAgain checked again else checked
  | .timeout => timeHandler loop
  | .restart identity timer => restartLoop loop identity timer

/-- The echo request has left, to whatever address the ARP reply named. -/
def PingSent (loop : PingLoop) : Prop := ∃ frame ∈ loop.sent, frame.drop 6 = loop.request.drop 6

/-- An echo reply from NetPingIP came in after the request was sent. -/
def Answered (cfg : NetConfig) (interval nullWord : Nat) (first : PingLoop)
    (events : List PingEvent) : Prop :=
  ∃ front inpkt len back before ip, events = front ++ .receive inpkt len :: back ∧
    Run (stepOf (pingStep cfg interval nullWord)) first front before ∧ PingSent before ∧
    EchoReply before.node.g inpkt len ip ∧ be32 inpkt (ip + 12) = before.node.netPingIP

/-- No frame looks like an answer from NetPingIP but is none: a UDP datagram has no NetPingIP at
the twelfth byte of its payload, a RARP reply does not find it at address 12, and an echo reply
does not come before the request. -/
def NoFalseAnswer (cfg : NetConfig) (nullWord : Nat) (loop : PingLoop) : PingEvent → Prop
  | .receive inpkt len => loop.listens = true →
      (∀ ip, UdpFrame cfg loop.node.g inpkt len ip →
        be32 inpkt (ip + ipHdrSize + 12) ≠ loop.node.netPingIP) ∧
      (∀ arp, LinkFrame loop.node.g inpkt len protRarp arp → RarpReply inpkt arp →
        nullWord ≠ loop.node.netPingIP) ∧
      ∀ ip, EchoReply loop.node.g inpkt len ip → be32 inpkt (ip + 12) = loop.node.netPingIP →
        loop.node.g.netArpWaitPacketIP = 0
  | .arpCheck _ _ => True
  | .timeout => True
  | .restart _ _ => True

/-- While the request waits, it lies in NetArpWaitTxPacket; when nothing waits, it was sent. -/
structure Inv (loop : PingLoop) : Prop where
  target : loop.node.netPingIP ≠ 0
  waits : loop.node.g.netArpWaitPacketIP ≠ 0 →
    6 ≤ loop.node.g.netArpWaitTxPacketSize ∧ waitingFrame loop.node.g = loop.request
  done : loop.node.g.netArpWaitPacketIP = 0 → PingSent loop

section Steps
variable {cfg : NetConfig} {interval nullWord : Nat} {loop : PingLoop}

theorem ping_sent_append {frames : List Frame} {after : PingLoop} (sent : PingSent loop)
    (more : after.sent = loop.sent ++ frames) (request : after.request = loop.request) :
    PingSent after := by
  obtain ⟨frame, member, same⟩ := sent
  refine ⟨frame, ?_, ?_⟩
  · rw [more]
    exact List.mem_append_left frames member
  · rw [request]
    exact same

/-- Steps that leave the waiting packet alone. -/
theorem inv_congr {after : PingLoop} (frames : List Frame) (inv : Inv loop)
    (target : after.node.netPingIP = loop.node.netPingIP)
    (ip : after.node.g.netArpWaitPacketIP = loop.node.g.netArpWaitPacketIP)
    (packet : after.node.g.netArpWaitTxPacket = loop.node.g.netArpWaitTxPacket)
    (size : after.node.g.netArpWaitTxPacketSize = loop.node.g.netArpWaitTxPacketSize)
    (request : after.request = loop.request) (more : after.sent = loop.sent ++ frames) :
    Inv after := by
  refine ⟨target ▸ inv.target, ?_, ?_⟩
  · intro waits
    have held := inv.waits (ip ▸ waits)
    rw [waitingFrame, size, packet, request]
    exact held
  · intro idle
    exact ping_sent_append (inv.done (ip ▸ idle)) more request

theorem ping_start_inv (timer : Nat) (target : loop.node.netPingIP ≠ 0) :
    Inv (pingStart loop timer) := by
  refine ⟨target, fun _ => ⟨?_, rfl⟩, fun idle => absurd idle target⟩
  show 6 ≤ _ + ipHdrSizeNoUdp + 8
  unfold ipHdrSizeNoUdp
  omega

theorem ping_handler_frame (inpkt : Buffer) (pkt : Option Nat) (loop : PingLoop) :
    (pingHandler nullWord inpkt pkt loop).node = loop.node ∧
      (pingHandler nullWord inpkt pkt loop).request = loop.request ∧
      (pingHandler nullWord inpkt pkt loop).sent = loop.sent := by
  unfold pingHandler
  split
  · exact ⟨rfl, rfl, rfl⟩
  · exact ⟨rfl, rfl, rfl⟩

theorem handle_event_frame (inpkt : Buffer) (loop : PingLoop) (event : NetEvent) :
    (handleEvent nullWord inpkt loop event).node = loop.node ∧
      (handleEvent nullWord inpkt loop event).request = loop.request ∧
      (handleEvent nullWord inpkt loop event).sent = loop.sent ++ sentFrames [event] := by
  cases event with
  | ethSend frame => exact ⟨rfl, rfl, rfl⟩
  | packetHandler pkt dest src len =>
      by_cases listens : loop.listens = true
      · obtain ⟨node, request, sent⟩ := @ping_handler_frame nullWord inpkt pkt loop
        rw [handleEvent, if_pos listens]
        exact ⟨node, request, sent.trans (List.append_nil _).symm⟩
      · rw [handleEvent, if_neg listens]
        exact ⟨rfl, rfl, (List.append_nil _).symm⟩
  | cdpHandler pkt len => exact ⟨rfl, rfl, (List.append_nil _).symm⟩

theorem handle_events_frame (inpkt : Buffer) (events : List NetEvent) (loop : PingLoop) :
    (events.foldl (handleEvent nullWord inpkt) loop).node = loop.node ∧
      (events.foldl (handleEvent nullWord inpkt) loop).request = loop.request ∧
      (events.foldl (handleEvent nullWord inpkt) loop).sent = loop.sent ++ sentFrames events := by
  induction events generalizing loop with
  | nil => exact ⟨rfl, rfl, (List.append_nil _).symm⟩
  | cons event events ih =>
      obtain ⟨node, request, sent⟩ := @handle_event_frame nullWord inpkt loop event
      obtain ⟨nodes, requests, sents⟩ := ih (handleEvent nullWord inpkt loop event)
      refine ⟨nodes.trans node, requests.trans request, sents.trans ?_⟩
      rw [sent, List.append_assoc]
      exact congrArg _ (List.filterMap_append (l := [event])).symm

theorem receive_inv {inpkt : Buffer} {len : Int} (inv : Inv loop) :
    Inv (pingStep cfg interval nullWord loop (.receive inpkt len)) := by
  have frame := @handle_events_frame nullWord inpkt (netReceive cfg loop.node.g inpkt len).2
    { loop with node := { loop.node with g := (netReceive cfg loop.node.g inpkt len).1 } }
  unfold pingStep
  simp only
  generalize (netReceive cfg loop.node.g inpkt len).2.foldl (handleEvent nullWord inpkt)
    { loop with node := { loop.node with g := (netReceive cfg loop.node.g inpkt len).1 } } = after
    at frame ⊢
  obtain ⟨node, request, sent⟩ := frame
  rcases net_receive_cases cfg loop.node.g inpkt len with
    ⟨events, result, _⟩ | ⟨arp, waiting, reply, _, _, result⟩ | ⟨arp, _, _, result⟩
  · rw [result] at node sent
    exact inv_congr _ inv (by rw [node]) (by rw [node]) (by rw [node]) (by rw [node]) request sent
  · -- The request leaves with the address of the reply.
    rw [result] at node sent
    have queued := inv.waits reply.pending
    have leaves := released_frame_eq loop.node.g inpkt arp queued.1
    refine ⟨by rw [node]; exact inv.target, ?_, ?_⟩
    · intro waits
      rw [node] at waits
      exact absurd rfl waits
    · intro _
      refine ⟨releasedFrame loop.node.g inpkt arp, ?_, ?_⟩
      · rw [sent]
        exact List.mem_append_right _ List.mem_cons_self
      · have size : (senderMac inpkt arp).length = 6 := slice_length _ _ _
        rw [leaves, request, List.drop_left' size, ← queued.2]
  · rw [result] at node sent
    exact inv_congr _ inv (by rw [node]) (by rw [node]; rfl) (by rw [node]; rfl)
      (by rw [node]; rfl) request sent

theorem ping_handler_state {inpkt : Buffer} {pkt : Option Nat}
    (before : loop.netState ≠ .success)
    (after : (pingHandler nullWord inpkt pkt loop).netState = .success) :
    sourceRead nullWord inpkt pkt = loop.node.netPingIP := by
  by_cases source : sourceRead nullWord inpkt pkt ≠ loop.node.netPingIP
  · rw [pingHandler, if_pos source] at after
    exact absurd after before
  · exact not_not.mp source

/-- A packet that makes PingHandler succeed carries NetPingIP where it looks for ip_src. -/
theorem handle_event_state {inpkt : Buffer} {pkt : Option Nat} {dest src len : Nat}
    (before : loop.netState ≠ .success)
    (after : (handleEvent nullWord inpkt loop (.packetHandler pkt dest src len)).netState = .success) :
    loop.listens = true ∧ sourceRead nullWord inpkt pkt = loop.node.netPingIP := by
  by_cases listens : loop.listens = true
  · rw [handleEvent, if_pos listens] at after
    exact ⟨listens, ping_handler_state before after⟩
  · rw [handleEvent, if_neg listens] at after
    exact absurd after before

theorem receive_success {inpkt : Buffer} {len : Int} (inv : Inv loop)
    (calm : NoFalseAnswer cfg nullWord loop (.receive inpkt len)) (before : loop.netState ≠ .success)
    (after : (pingStep cfg interval nullWord loop (.receive inpkt len)).netState = .success) :
    PingSent loop ∧ ∃ ip, EchoReply loop.node.g inpkt len ip ∧
      be32 inpkt (ip + 12) = loop.node.netPingIP := by
  rcases net_receive_cases cfg loop.node.g inpkt len with
    ⟨events, result, quiet⟩ | ⟨arp, waiting, _, _, _, result⟩ | ⟨arp, reply, frame, result⟩
  · rw [pingStep, result] at after
    cases quiet with
    | dropped => exact absurd after before
    | answered arp opcode => exact absurd after before
    | cdp ip count => exact absurd after before
    | echo ip reply =>
        obtain ⟨listens, source⟩ := @handle_event_state nullWord loop inpkt (some ip) 0 0 0 before
          after
        have idle := (calm listens).2.2 ip reply source
        exact ⟨inv.done idle, ip, reply, source⟩
    | udp ip datagram =>
        obtain ⟨listens, source⟩ := @handle_event_state nullWord loop inpkt (some (ip + ipHdrSize))
          (be16 inpkt (ip + 22)) (be16 inpkt (ip + 20)) (udpPayloadLen inpkt ip) before after
        exact absurd source ((calm listens).1 ip datagram)
  · rw [pingStep, result] at after
    exact absurd after before
  · rw [pingStep, result] at after
    obtain ⟨listens, source⟩ := @handle_event_state nullWord
      { loop with node := { loop.node with g := named loop.node.g inpkt arp } } inpkt none 0 0 0
      before after
    exact absurd source ((calm listens).2.1 arp frame reply)

theorem net_start_again_state (again : StartAgain) (before : loop.netState ≠ .success) :
    (netStartAgain loop again).netState ≠ .success := by
  cases again with
  | returns => exact before
  | fails => intro same; cases same
  | waits => exact before
  | restarts => intro same; cases same

theorem net_start_again_frame (again : StartAgain) :
    (netStartAgain loop again).node = loop.node ∧ (netStartAgain loop again).request = loop.request ∧
      (netStartAgain loop again).sent = loop.sent := by
  cases again with
  | returns => exact ⟨rfl, rfl, rfl⟩
  | fails => exact ⟨rfl, rfl, rfl⟩
  | waits => exact ⟨rfl, rfl, rfl⟩
  | restarts => exact ⟨rfl, rfl, rfl⟩

theorem arp_check_target (node : Node) (timer : Nat) :
    (arpTimeoutCheck interval node timer).node.netPingIP = node.netPingIP := by
  unfold arpTimeoutCheck
  split
  · rfl
  split
  · simp only
    split
    · rfl
    · rfl
  · rfl

theorem arp_check_inv (timer : Nat) (again : StartAgain) (inv : Inv loop) :
    Inv (pingStep cfg interval nullWord loop (.arpCheck timer again)) := by
  obtain ⟨ip, packet, size⟩ := @arp_check_keeps_wait interval loop.node timer
  have target := @arp_check_target interval loop.node timer
  have checked : Inv { loop with
      node := (arpTimeoutCheck interval loop.node timer).node
      sent := loop.sent ++ (arpTimeoutCheck interval loop.node timer).frames } :=
    inv_congr _ inv target ip packet size rfl rfl
  unfold pingStep
  simp only
  split
  · obtain ⟨node, request, sent⟩ := @net_start_again_frame
      { loop with
        node := (arpTimeoutCheck interval loop.node timer).node
        sent := loop.sent ++ (arpTimeoutCheck interval loop.node timer).frames } again
    exact inv_congr [] checked (by rw [node]) (by rw [node]) (by rw [node]) (by rw [node]) request
      (by rw [sent, List.append_nil])
  · exact checked

theorem timeout_inv (inv : Inv loop) : Inv (pingStep cfg interval nullWord loop .timeout) := by
  show Inv (timeHandler loop)
  unfold timeHandler
  split
  · exact inv
  · exact inv_congr [] inv rfl rfl rfl rfl rfl (List.append_nil _).symm
  · exact inv_congr [] inv rfl rfl rfl rfl rfl (List.append_nil _).symm

theorem restart_inv (identity : Identity) (timer : Nat) (inv : Inv loop) :
    Inv (pingStep cfg interval nullWord loop (.restart identity timer)) := by
  show Inv (restartLoop loop identity timer)
  unfold restartLoop
  split
  · exact ping_start_inv timer inv.target
  · exact inv
  · exact inv
  · exact inv

theorem ping_step_inv (event : PingEvent) (inv : Inv loop) :
    Inv (pingStep cfg interval nullWord loop event) := by
  cases event with
  | receive inpkt len => exact receive_inv inv
  | arpCheck timer again => exact arp_check_inv timer again inv
  | timeout => exact timeout_inv inv
  | restart identity timer => exact restart_inv identity timer inv

/-- Only a received frame makes the ping succeed. -/
theorem ping_step_success {event : PingEvent} (inv : Inv loop)
    (calm : NoFalseAnswer cfg nullWord loop event) (before : loop.netState ≠ .success)
    (after : (pingStep cfg interval nullWord loop event).netState = .success) :
    Answered cfg interval nullWord loop [event] := by
  cases event with
  | receive inpkt len =>
      obtain ⟨sent, ip, reply, source⟩ := receive_success inv calm before after
      exact ⟨[], inpkt, len, [], loop, ip, rfl, Run.refl loop, sent, reply, source⟩
  | arpCheck timer again =>
      unfold pingStep at after
      simp only at after
      split at after
      · exact absurd after (net_start_again_state again before)
      · exact absurd after before
  | timeout =>
      change (timeHandler loop).netState = .success at after
      unfold timeHandler at after
      split at after
      · exact absurd after before
      · cases after
      · cases after
  | restart identity timer =>
      change (restartLoop loop identity timer).netState = .success at after
      unfold restartLoop at after
      split at after
      · cases after
      · exact absurd after before
      · exact absurd after before
      · exact absurd after before

theorem answered_cons {event : PingEvent} {events : List PingEvent}
    (answered : Answered cfg interval nullWord (pingStep cfg interval nullWord loop event) events) :
    Answered cfg interval nullWord loop (event :: events) := by
  obtain ⟨front, inpkt, len, back, before, ip, parts, run, reply⟩ := answered
  refine ⟨event :: front, inpkt, len, back, before, ip, ?_, Run.next rfl run, reply⟩
  rw [parts]
  rfl

/-- An answer in the first step is one in the run. -/
theorem answered_first {event : PingEvent} (events : List PingEvent)
    (answered : Answered cfg interval nullWord loop [event]) :
    Answered cfg interval nullWord loop (event :: events) := by
  obtain ⟨front, inpkt, len, back, before, ip, parts, run, reply⟩ := answered
  cases front with
  | nil =>
      injection parts with head _
      exact ⟨[], inpkt, len, events, before, ip, by rw [head]; rfl, run, reply⟩
  | cons head front =>
      injection parts with _ impossible
      cases front with
      | nil => cases impossible
      | cons _ _ => cases impossible

theorem run_success_answered {first last : PingLoop} {events : List PingEvent}
    (run : Run (Guarded (NoFalseAnswer cfg nullWord) (stepOf (pingStep cfg interval nullWord)))
      first events last)
    (inv : Inv first) (before : first.netState ≠ .success) (success : last.netState = .success) :
    Answered cfg interval nullWord first events := by
  induction run with
  | refl => exact absurd success before
  | @next first middle last event rest step _ ih =>
      obtain ⟨calm, same⟩ := step
      have reached : middle = pingStep cfg interval nullWord first event := same
      rw [reached] at ih
      by_cases now : (pingStep cfg interval nullWord first event).netState = .success
      · exact answered_first rest (ping_step_success inv calm before now)
      · exact answered_cons (ih (ping_step_inv event inv) now success)

end Steps

/-- A ping that succeeds was answered after it was sent, as long as no frame is taken for the
answer that is none. -/
theorem ping_success_answered (cfg : NetConfig) (interval nullWord timer : Nat)
    {loop last : PingLoop} {events : List PingEvent} (target : loop.node.netPingIP ≠ 0)
    (running : loop.netState = .continue)
    (run : Run (Guarded (NoFalseAnswer cfg nullWord) (stepOf (pingStep cfg interval nullWord)))
      (pingStart loop timer) events last)
    (success : last.netState = .success) :
    Answered cfg interval nullWord (pingStart loop timer) events := by
  apply run_success_answered run (ping_start_inv timer target) ?_ success
  intro already
  have still : (pingStart loop timer).netState = .continue := running
  rw [still] at already
  cases already
/-- A client that pings its server, whose address it has to ask for. -/
def pingNode : Node := { lostClient with netPingIP := 0xc0a8010a }

def pingBegin : PingLoop := ⟨pingNode, .continue, false, none, [], []⟩

/-- The server's answer to the ping. -/
def echoReplyFrame : Buffer := fun i =>
  ([0xba, 0xbe, 0xfa, 0xce, 0x08, 0x41, 0x02, 0, 0, 0, 0, 1, 0x08, 0,
    0x45, 0, 0, 28, 0, 0, 0x40, 0, 64, 1, 0xb7, 0x85, 0xc0, 0xa8, 1, 10, 0xc0, 0xa8, 1, 1,
    0, 0, 0xff, 0xff, 0, 0, 0, 0] : List UInt8).getD i 0

def pingEvents : List PingEvent := [.receive serverReply 42, .receive echoReplyFrame 42]

def pinged : PingLoop := pingStep boardConfig 5 0 (pingStart pingBegin 0) (.receive serverReply 42)

/-- The server is asked for its address, and answers the ping. -/
theorem ping_success_answered_server :
    (pingStep boardConfig 5 0 pinged (.receive echoReplyFrame 42)).netState = .success ∧
      Answered boardConfig 5 0 (pingStart pingBegin 0) pingEvents := by
  have success : (pingStep boardConfig 5 0 pinged (.receive echoReplyFrame 42)).netState =
      .success := by decide +kernel
  refine ⟨success, ?_⟩
  apply ping_success_answered boardConfig 5 0 0 (by decide) rfl _ success
  have asked : (linkDecode (pingStart pingBegin 0).node.g false serverReply 42).map
      (fun packet => (packet.prot, packet.ip)) = some (protArp, 14) := by decide +kernel
  have echo : (linkDecode pinged.node.g false echoReplyFrame 42).map
      (fun packet => (packet.prot, packet.ip)) = some (protIp, 14) := by decide +kernel
  have sent : pinged.node.g.netArpWaitPacketIP = 0 := by decide +kernel
  refine Run.next ⟨fun _ => ⟨?_, ?_, ?_⟩, rfl⟩ (Run.next ⟨fun _ => ⟨?_, ?_, ?_⟩, rfl⟩ (Run.refl _))
  · intro ip datagram
    exact absurd (link_frame_at asked datagram.frame.link).1 (by decide)
  · intro arp frame _
    exact absurd (link_frame_at asked frame).1 (by decide)
  · intro ip reply _
    exact absurd (link_frame_at asked reply.frame.link).1 (by decide)
  · intro ip datagram
    have place := (link_frame_at echo datagram.frame.link).2
    have proto := datagram.udp
    rw [place] at proto
    exact absurd proto (by decide)
  · intro arp frame _
    exact absurd (link_frame_at echo frame).1 (by decide)
  · intro ip _ _
    exact sent

/-- A datagram from 10.0.0.9 whose payload has the server's address at its twelfth byte. -/
def strayDatagram : Buffer := fun i =>
  ([0xba, 0xbe, 0xfa, 0xce, 0x08, 0x41, 0x02, 0, 0, 0, 0, 9, 0x08, 0,
    0x45, 0, 0, 44, 0, 0, 0x40, 0, 64, 17, 0x6f, 0x0f, 10, 0, 0, 9, 0xc0, 0xa8, 1, 1,
    0x30, 0x39, 0x30, 0x39, 0, 24, 0, 0, 0, 0, 0, 0, 0, 0, 0, 0, 0, 0, 0, 0,
    0xc0, 0xa8, 1, 10] : List UInt8).getD i 0

/-- The datagram makes the ping succeed, before the echo request has even left. -/
theorem datagram_answers_ping : ¬ ∀ events last,
    Run (stepOf (pingStep boardConfig 5 0)) (pingStart pingBegin 0) events last →
      last.netState = .success → Answered boardConfig 5 0 (pingStart pingBegin 0) events := by
  intro sound
  have success : (pingStep boardConfig 5 0 (pingStart pingBegin 0)
      (.receive strayDatagram 58)).netState = .success := by decide +kernel
  obtain ⟨front, inpkt, len, back, before, ip, parts, run, _, reply, _⟩ :=
    sound [.receive strayDatagram 58] _ (Run.next rfl (Run.refl _)) success
  have decoded : (linkDecode (pingStart pingBegin 0).node.g false strayDatagram 58).map
      (fun packet => (packet.prot, packet.ip)) = some (protIp, 14) := by decide +kernel
  cases front with
  | nil =>
      injection parts with head _
      injection head with buffer length
      cases run
      rw [← buffer, ← length] at reply
      have place := (link_frame_at decoded reply.frame.link).2
      have proto := reply.icmp
      rw [place] at proto
      exact absurd proto (by decide)
  | cons head front =>
      injection parts with _ impossible
      cases front with
      | nil => cases impossible
      | cons _ _ => cases impossible

end UBoot.Net.Ping
