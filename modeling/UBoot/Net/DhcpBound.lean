import UBoot.Net.Dhcp

/-!
The way of the DHCP client from SELECTING over REQUESTING to BOUND, over every
order of received frames and timeouts.
-/

namespace UBoot.Net.DhcpBound

open Library.Memory Library.OptionArea Library.Runs NetReceive NetSend ReceiveEffects BootpOptions
open OptionReaders Dhcp

/-- The payload of the datagram whose IP header is at `ip`. -/
def payload (inpkt : Buffer) (ip : Nat) : Buffer := fun i => inpkt (ip + ipHdrSize + i)

/-- A datagram at `ip` for which DhcpHandler is called, and which it does not filter out. -/
structure LetThrough (cfg : DhcpConfig) (loop : DhcpLoop) (inpkt : Buffer) (len : Int) (ip : Nat) :
    Prop where
  running : loop.stuck = false
  listens : loop.rxHandler = .dhcpHandler
  datagram : UdpFrame cfg.net loop.node.g inpkt len ip
  checked : bootpCheckPkt loop.bootpID (payload inpkt ip) (be16 inpkt (ip + 22))
    (be16 inpkt (ip + 20)) (udpPayloadLen inpkt ip) = 0

/-- The message type of a packet, an option of one byte. -/
def messageType (pkt : Buffer) (len : Nat) : Option Nat :=
  ((vendorOptions pkt len).find? (fun option => option.code == 53)).bind fun option =>
    if option.length = 1 then some (pkt (option.at_ + 2)).toNat else none

/-- A BOOTREPLY to the last request, received whole, with this message type. -/
structure Carries (loop : DhcpLoop) (inpkt : Buffer) (len : Int) (ip type : Nat) : Prop where
  received : (ip + ipHdrSize + udpPayloadLen inpkt ip : Int) ≤ len
  reply : (payload inpkt ip 0).toNat = opBootreply
  id : be32 (payload inpkt ip) 4 = loop.bootpID
  type : messageType (payload inpkt ip) (udpPayloadLen inpkt ip) = some type

/-- The packets that DhcpHandler lets through while it selects are offers, and those that
DhcpMessageType takes for an acknowledgement are acknowledgements. -/
def Honest (cfg : DhcpConfig) (loop : DhcpLoop) : DhcpEvent → Prop
  | .receive inpkt len => ∀ ip, LetThrough cfg loop inpkt len ip →
      (loop.dhcpState = .selecting → Carries loop inpkt len ip dhcpOffer) ∧
      (loop.dhcpState = .requesting →
        dhcpMessageType cfg.ram (payload inpkt ip) = some (dhcpAck : Int) →
        Carries loop inpkt len ip dhcpAck)
  | .timeout _ _ => True
  | .transferEnds _ => True
  | .restart _ _ => True

/-- What one event can do to the state of the client. -/
inductive Effect (cfg : DhcpConfig) (loop : DhcpLoop) : DhcpEvent → DhcpLoop → Prop where
  | keeps {event : DhcpEvent} {after : DhcpLoop} (state : after.dhcpState = loop.dhcpState)
      (id : after.bootpID = loop.bootpID) : Effect cfg loop event after
  | asks {event : DhcpEvent} {after : DhcpLoop} (state : after.dhcpState = .selecting) :
      Effect cfg loop event after
  | offered {inpkt : Buffer} {len : Int} {ip : Nat} {after : DhcpLoop}
      (packet : LetThrough cfg loop inpkt len ip) (before : loop.dhcpState = .selecting)
      (state : after.dhcpState = .requesting) (id : after.bootpID = loop.bootpID) :
      Effect cfg loop (.receive inpkt len) after
  | acked {inpkt : Buffer} {len : Int} {ip : Nat} {after : DhcpLoop}
      (packet : LetThrough cfg loop inpkt len ip) (before : loop.dhcpState = .requesting)
      (type : dhcpMessageType cfg.ram (payload inpkt ip) = some (dhcpAck : Int))
      (state : after.dhcpState = .bound)
      (named : after.node.g.netOurIP = be32 (payload inpkt ip) 16) :
      Effect cfg loop (.receive inpkt len) after

section Steps
variable {cfg : DhcpConfig} {loop : DhcpLoop}

theorem autoload_frame (loop : DhcpLoop) : (autoload cfg loop).node = loop.node ∧
    (autoload cfg loop).dhcpState = loop.dhcpState := by
  unfold autoload
  simp only
  split
  · exact ⟨rfl, rfl⟩
  split
  · exact ⟨rfl, rfl⟩
  · exact ⟨rfl, rfl⟩

theorem await_ack_cases (frame pkt : Buffer) (loop : DhcpLoop) :
    ((awaitAck cfg frame pkt loop).dhcpState = loop.dhcpState ∧
      (awaitAck cfg frame pkt loop).bootpID = loop.bootpID) ∨
    dhcpMessageType cfg.ram pkt = some (dhcpAck : Int) ∧
      (awaitAck cfg frame pkt loop).dhcpState = .bound ∧
      (awaitAck cfg frame pkt loop).node.g.netOurIP = be32 pkt 16 := by
  unfold awaitAck
  cases type : dhcpMessageType cfg.ram pkt with
  | none => exact Or.inl ⟨rfl, rfl⟩
  | some found =>
      simp only
      by_cases ack : found = dhcpAck
      · obtain ⟨node, bound⟩ :=
          @autoload_frame cfg { readPacket frame pkt loop with dhcpState := .bound }
        rw [if_pos ack]
        refine Or.inr ⟨by rw [ack], bound, ?_⟩
        rw [node]
        rfl
      · rw [if_neg ack]
        exact Or.inl ⟨rfl, rfl⟩

/-- What DhcpHandler does with a packet. -/
theorem dhcp_handler_cases (frame pkt : Buffer) (dest src len : Nat) (loop : DhcpLoop) :
    ((dhcpHandler cfg frame pkt dest src len loop).dhcpState = loop.dhcpState ∧
      (dhcpHandler cfg frame pkt dest src len loop).bootpID = loop.bootpID) ∨
    bootpCheckPkt loop.bootpID pkt dest src len = 0 ∧
      (loop.dhcpState = .selecting ∧
          (dhcpHandler cfg frame pkt dest src len loop).dhcpState = .requesting ∧
          (dhcpHandler cfg frame pkt dest src len loop).bootpID = loop.bootpID ∨
        loop.dhcpState = .requesting ∧ dhcpMessageType cfg.ram pkt = some (dhcpAck : Int) ∧
          (dhcpHandler cfg frame pkt dest src len loop).dhcpState = .bound ∧
          (dhcpHandler cfg frame pkt dest src len loop).node.g.netOurIP = be32 pkt 16) := by
  unfold dhcpHandler
  by_cases refused : bootpCheckPkt loop.bootpID pkt dest src len ≠ 0
  · rw [if_pos refused]
    exact Or.inl ⟨rfl, rfl⟩
  rw [if_neg refused]
  have checked := not_not.mp refused
  split
  · rename_i selecting
    exact Or.inr ⟨checked, Or.inl ⟨selecting, rfl, rfl⟩⟩
  · rename_i requesting
    rcases @await_ack_cases cfg frame pkt loop with kept | ⟨type, bound, named⟩
    · exact Or.inl kept
    · exact Or.inr ⟨checked, Or.inr ⟨requesting, type, bound, named⟩⟩
  · exact Or.inl ⟨rfl, rfl⟩

theorem check_port {bootpID : Nat} {pkt : Buffer} {src len : Nat} :
    bootpCheckPkt bootpID pkt 0 src len ≠ 0 := by
  have foreign : (0 : Nat) ≠ portBootpc ∨ src ≠ portBootps := Or.inl (by decide)
  rw [bootpCheckPkt, if_pos foreign]
  decide

/-- The handler of the loop sees no packet but datagrams. -/
theorem receive_effect {inpkt : Buffer} {len : Int} (running : loop.stuck = false) :
    Effect cfg loop (.receive inpkt len) (loopStep cfg loop (.receive inpkt len)) := by
  unfold loopStep
  simp only
  rcases net_receive_cases cfg.net loop.node.g inpkt len with
    ⟨events, result, quiet⟩ | ⟨arp, waiting, _, _, _, result⟩ | ⟨arp, _, _, result⟩
  · rw [result]
    cases quiet with
    | dropped => exact Effect.keeps rfl rfl
    | answered arp opcode => exact Effect.keeps rfl rfl
    | cdp ip count => exact Effect.keeps rfl rfl
    | echo ip reply =>
        -- an echo reply calls the handler with port 0, which BootpCheckPkt refuses
        show Effect cfg loop _ (rxHandler cfg inpkt (fun i => inpkt (ip + i)) 0 0 0 loop)
        unfold rxHandler
        split
        · rcases @dhcp_handler_cases cfg inpkt (fun i => inpkt (ip + i)) 0 0 0 loop with
            ⟨state, id⟩ | ⟨checked, _⟩
          · exact Effect.keeps state id
          · exact absurd checked check_port
        · exact Effect.keeps rfl rfl
        · exact Effect.keeps rfl rfl
    | udp ip datagram =>
        show Effect cfg loop _ (rxHandler cfg inpkt (payload inpkt ip) (be16 inpkt (ip + 22))
          (be16 inpkt (ip + 20)) (udpPayloadLen inpkt ip) loop)
        unfold rxHandler
        split
        · rename_i listens
          rcases @dhcp_handler_cases cfg inpkt (payload inpkt ip) (be16 inpkt (ip + 22))
              (be16 inpkt (ip + 20)) (udpPayloadLen inpkt ip) loop with
            ⟨state, id⟩ | ⟨checked, ⟨before, state, id⟩ | ⟨before, type, state, named⟩⟩
          · exact Effect.keeps state id
          · exact Effect.offered ⟨running, listens, datagram, checked⟩ before state id
          · exact Effect.acked ⟨running, listens, datagram, checked⟩ before type state named
        · exact Effect.keeps rfl rfl
        · exact Effect.keeps rfl rfl
  -- an ARP reply that was waited for, and a RARP reply, come without a packet for the handler
  · rw [result]
    exact Effect.keeps rfl rfl
  · rw [result]
    exact Effect.keeps rfl rfl

theorem net_start_again_effect {event : DhcpEvent} (again : StartAgain)
    {after : DhcpLoop} (state : after.dhcpState = loop.dhcpState) (id : after.bootpID = loop.bootpID) :
    Effect cfg loop event (netStartAgain after again) := by
  cases again with
  | returns => exact Effect.keeps state id
  | fails => exact Effect.keeps state id
  | waits => exact Effect.keeps state id
  | restarts => exact Effect.keeps state id

theorem timeout_effect (timer : Nat) (again : StartAgain) :
    Effect cfg loop (.timeout timer again) (timeHandler loop timer again) := by
  unfold timeHandler
  split
  · exact Effect.keeps rfl rfl
  · unfold bootpTimeout
    split
    · exact net_start_again_effect again rfl rfl
    · exact Effect.asks rfl
  · exact Effect.keeps rfl rfl

theorem dhcp_step_effect (event : DhcpEvent) : Effect cfg loop event (dhcpStep cfg loop event) := by
  by_cases stuck : loop.stuck = true
  · rw [dhcpStep, if_pos stuck]
    exact Effect.keeps rfl rfl
  rw [dhcpStep, if_neg stuck]
  cases event with
  | receive inpkt len => exact receive_effect ((Bool.not_eq_true _).mp stuck)
  | timeout timer again => exact timeout_effect timer again
  | transferEnds outcome =>
      show Effect cfg loop _
        (if loop.rxHandler = .fileTransfer then { loop with netState := outcome } else loop)
      split
      · exact Effect.keeps rfl rfl
      · exact Effect.keeps rfl rfl
  | restart identity timer =>
      show Effect cfg loop _
        (if loop.netState = .restart then dhcpStart loop identity timer else loop)
      split
      · exact Effect.asks rfl
      · exact Effect.keeps rfl rfl

/-- The offer that the client took before it came to REQUESTING, for the same BootpID. -/
def Offered (cfg : DhcpConfig) (first : DhcpLoop) (events : List DhcpEvent) (last : DhcpLoop) : Prop :=
  ∃ front inpkt len ip back before, events = front ++ .receive inpkt len :: back ∧
    Run (stepOf (dhcpStep cfg)) first front before ∧ before.dhcpState = .selecting ∧
    LetThrough cfg before inpkt len ip ∧ Carries before inpkt len ip dhcpOffer ∧
    before.bootpID = last.bootpID ∧
    Run (stepOf (dhcpStep cfg)) (dhcpStep cfg before (.receive inpkt len)) back last

theorem offered_cons {event : DhcpEvent} {events : List DhcpEvent} {last : DhcpLoop}
    (offered : Offered cfg (dhcpStep cfg loop event) events last) :
    Offered cfg loop (event :: events) last := by
  obtain ⟨front, inpkt, len, ip, back, before, parts, run, rest⟩ := offered
  refine ⟨event :: front, inpkt, len, ip, back, before, ?_, Run.next rfl run, rest⟩
  rw [parts]
  rfl

/-- A client in REQUESTING has been there with this BootpID all the time, or took an offer. -/
theorem requesting_since_offer {first last : DhcpLoop} {events : List DhcpEvent}
    (run : Run (Guarded (Honest cfg) (stepOf (dhcpStep cfg))) first events last)
    (requesting : last.dhcpState = .requesting) :
    first.dhcpState = .requesting ∧ first.bootpID = last.bootpID ∨ Offered cfg first events last := by
  induction run with
  | refl => exact Or.inl ⟨requesting, rfl⟩
  | @next first middle last event rest step tail ih =>
      obtain ⟨honest, same⟩ := step
      have reached : middle = dhcpStep cfg first event := same
      subst reached
      rcases ih requesting with ⟨there, id⟩ | offered
      · have back := unguarded tail
        cases @dhcp_step_effect cfg first event with
        | keeps state kept => exact Or.inl ⟨state.symm.trans there, kept.symm.trans id⟩
        | asks state =>
            rw [state] at there
            cases there
        | @offered inpkt len ip _ packet before _ kept =>
            have carries := (honest ip packet).1 before
            exact Or.inr ⟨[], inpkt, len, ip, rest, first, rfl, Run.refl first, before, packet,
              carries, kept.symm.trans id, back⟩
        | acked _ _ _ state _ =>
            rw [state] at there
            cases there
      · exact Or.inr (offered_cons offered)

end Steps

/-- What every step of the client keeps to: a step out of SELECTING takes an offer, and a step
into BOUND takes the acknowledgement of a request that answered an offer. -/
structure Lawful (cfg : DhcpConfig) (first : DhcpLoop) (events : List DhcpEvent) (before : DhcpLoop)
    (event : DhcpEvent) : Prop where
  leavesSelecting : before.dhcpState = .selecting →
    (dhcpStep cfg before event).dhcpState ≠ .selecting →
    ∃ inpkt len ip, event = .receive inpkt len ∧ LetThrough cfg before inpkt len ip ∧
      Carries before inpkt len ip dhcpOffer
  entersBound : before.dhcpState ≠ .bound → (dhcpStep cfg before event).dhcpState = .bound →
    before.dhcpState = .requesting ∧ Offered cfg first events before ∧
    ∃ inpkt len ip, event = .receive inpkt len ∧ LetThrough cfg before inpkt len ip ∧
      Carries before inpkt len ip dhcpAck ∧
      (dhcpStep cfg before event).node.g.netOurIP = be32 (payload inpkt ip) 16

/-- Every step of a run after BootpRequest is lawful, as long as the packets are what the client
takes them for. -/
theorem bound_after_offer_and_ack {cfg : DhcpConfig} {start before : DhcpLoop} {timer : Nat}
    {events : List DhcpEvent} {event : DhcpEvent}
    (run : Run (Guarded (Honest cfg) (stepOf (dhcpStep cfg))) (bootpRequest start timer) events before)
    (honest : Honest cfg before event) :
    Lawful cfg (bootpRequest start timer) events before event := by
  constructor
  · intro selecting left
    cases @dhcp_step_effect cfg before event with
    | keeps state _ => exact absurd (state.trans selecting) left
    | asks state => exact absurd state left
    | @offered inpkt len ip _ packet _ _ _ =>
        exact ⟨inpkt, len, ip, rfl, packet, (honest ip packet).1 selecting⟩
    | acked _ requesting _ _ _ =>
        rw [selecting] at requesting
        cases requesting
  · intro notYet bound
    cases @dhcp_step_effect cfg before event with
    | keeps state _ => exact absurd (state.symm.trans bound) notYet
    | asks state =>
        rw [state] at bound
        cases bound
    | offered _ _ state _ =>
        rw [state] at bound
        cases bound
    | @acked inpkt len ip _ packet requesting type _ named =>
        have carries := (honest ip packet).2 requesting type
        refine ⟨requesting, ?_, inpkt, len, ip, rfl, packet, carries, named⟩
        rcases requesting_since_offer run requesting with ⟨there, _⟩ | offered
        · cases there
        · exact offered

def dhcpBoard : DhcpConfig := ⟨boardConfig, none, 4096⟩

/-- A client that begins to look for an address. -/
def dhcpClient : DhcpLoop where
  node :=
    { g := { tftpGlobals with netOurIP := 0 }
      netTxPacket := fun _ => 0
      netIPID := 0
      netOurSubnetMask := 0
      netOurGatewayIP := 0
      netArpWaitTimerStart := 0
      netArpWaitTry := 0
      netPingIP := 0
      pingSeqNo := 0 }
  netState := .continue
  rxHandler := .dhcpHandler
  timer := none
  dhcpState := .init
  bootpID := 0
  bootpTry := 0
  params := noParams
  bootFile := fun _ => 0
  sent := []
  stuck := false

/-- A BOOTREPLY from 192.168.1.10 that gives the client 192.168.1.50, with a message type. -/
def dhcpFrame (type : UInt8) : Buffer := fun i =>
  if i < 278 then
    ([0xff, 0xff, 0xff, 0xff, 0xff, 0xff, 0x02, 0, 0, 0, 0, 1, 0x08, 0,
      0x45, 0, 1, 16, 0, 0, 0x40, 0, 64, 17, 0x78, 0x2b, 0xc0, 0xa8, 1, 10, 255, 255, 255, 255,
      0, 67, 0, 68, 0, 252, 0, 0, 2, 1, 6, 0, 0xfa, 0xce, 0x08, 0x41, 0, 0, 0, 0, 0, 0, 0, 0,
      0xc0, 0xa8, 1, 50, 0xc0, 0xa8, 1, 10] : List UInt8).getD i 0
  else ([0x63, 0x82, 0x53, 0x63, 53, 1, type, 255] : List UInt8).getD (i - 278) 0

theorem dhcp_frame_carries {loop : DhcpLoop} {type : UInt8} (id : loop.bootpID = 0xface0841)
    (known : type = 2 ∨ type = 5) : Carries loop (dhcpFrame type) 286 14 type.toNat := by
  rcases known with offer | ack
  · subst offer
    exact ⟨by decide, by decide, id.symm ▸ by decide, by decide +kernel⟩
  · subst ack
    exact ⟨by decide, by decide, id.symm ▸ by decide, by decide +kernel⟩

/-- The client behind the offer. -/
def offeredClient : DhcpLoop :=
  dhcpStep dhcpBoard (bootpRequest dhcpClient 0) (.receive (dhcpFrame 2) 286)

/-- An offer and its acknowledgement. -/
theorem bound_after_exchange :
    (dhcpStep dhcpBoard offeredClient (.receive (dhcpFrame 5) 286)).dhcpState = .bound ∧
      Lawful dhcpBoard (bootpRequest dhcpClient 0) [.receive (dhcpFrame 2) 286] offeredClient
        (.receive (dhcpFrame 5) 286) := by
  have requesting : offeredClient.dhcpState = .requesting := by decide +kernel
  have place : ∀ {loop : DhcpLoop} {type : UInt8} {ip : Nat},
      (linkDecode loop.node.g false (dhcpFrame type) 286).map
        (fun packet => (packet.prot, packet.ip)) = some (protIp, 14) →
      LetThrough dhcpBoard loop (dhcpFrame type) 286 ip → ip = 14 :=
    fun decoded packet => (link_frame_at decoded packet.datagram.frame.link).2
  refine ⟨by decide +kernel, ?_⟩
  refine bound_after_offer_and_ack (Run.next ⟨?_, rfl⟩ (Run.refl _)) ?_
  · intro ip packet
    have at14 := place (by decide +kernel) packet
    subst at14
    refine ⟨fun _ => dhcp_frame_carries (by decide) (Or.inl rfl), fun waits => ?_⟩
    cases waits
  · intro ip packet
    have at14 := place (by decide +kernel) packet
    subst at14
    refine ⟨fun selects => ?_, fun _ _ => dhcp_frame_carries (by decide +kernel) (Or.inr rfl)⟩
    rw [requesting] at selects
    cases selects

/-- A DHCPNAK that comes while the client selects is taken for an offer. -/
theorem nak_taken_for_offer : ¬ ∀ events before event,
    Run (stepOf (dhcpStep dhcpBoard)) (bootpRequest dhcpClient 0) events before →
      Lawful dhcpBoard (bootpRequest dhcpClient 0) events before event := by
  intro lawful
  have left : (dhcpStep dhcpBoard (bootpRequest dhcpClient 0)
      (.receive (dhcpFrame 6) 286)).dhcpState ≠ .selecting := by decide +kernel
  obtain ⟨inpkt, len, ip, same, packet, carries⟩ :=
    (lawful [] _ (.receive (dhcpFrame 6) 286) (Run.refl _)).leavesSelecting rfl left
  injection same with frame length
  subst frame
  subst length
  have decoded : (linkDecode (bootpRequest dhcpClient 0).node.g false (dhcpFrame 6) 286).map
      (fun packet => (packet.prot, packet.ip)) = some (protIp, 14) := by decide +kernel
  have place := (link_frame_at decoded packet.datagram.frame.link).2
  subst place
  have nak : messageType (payload (dhcpFrame 6) 14) (udpPayloadLen (dhcpFrame 6) 14) = some 6 := by
    decide +kernel
  have type := carries.type
  rw [nak] at type
  exact absurd type (by decide)

end UBoot.Net.DhcpBound
