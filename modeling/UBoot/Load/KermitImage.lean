import UBoot.Load.KermitLine
import UBoot.Library.Runs

/-!
k_recv decodes a packet into memory while it arrives, and refines the receiver
that takes a packet whole, or goes back to what it has saved. Its comment says
that it assumes that the sequence number is correctly received: a damaged packet
with another number makes it save or go back at the wrong place.
-/

namespace UBoot.Load.KermitImage

open KermitData Kermit KermitLine Library.Memory Library.Rollback Library.Runs

/-- The quote character that a send-init packet asks for. -/
def sendQuote (chars : List UInt8) : UInt8 := chars[5]?.getD kEscape

def keepQuote (hisQuote : UInt8) (packet : Packet) : UInt8 :=
  if packet.type = sendType then sendQuote packet.chars else hisQuote

def applyData (hisQuote : UInt8) (image : Image) (packet : Packet) : Image :=
  if packet.type = dataType then decode hisQuote image packet.chars else image

theorem keepQuote_send {packet : Packet} (send : packet.type = sendType) (hisQuote : UInt8) :
    keepQuote hisQuote packet = sendQuote packet.chars := if_pos send

theorem keepQuote_other {packet : Packet} (other : packet.type ≠ sendType) (hisQuote : UInt8) :
    keepQuote hisQuote packet = hisQuote := if_neg other

theorem applyData_data {packet : Packet} (data : packet.type = dataType) (hisQuote : UInt8)
    (image : Image) : applyData hisQuote image packet = decode hisQuote image packet.chars :=
  if_pos data

theorem applyData_other {packet : Packet} (other : packet.type ≠ dataType) (hisQuote : UInt8)
    (image : Image) : applyData hisQuote image packet = image := if_neg other

/-- A packet without characters, and one whose type is not known yet. -/
theorem applyData_empty (hisQuote : UInt8) (image : Image) (n : Nat) (type : UInt8) :
    applyData hisQuote image ⟨n, type, []⟩ = image := by
  by_cases data : type = dataType
  · exact applyData_data data hisQuote image
  · exact applyData_other data hisQuote image

def kermitLink : Link UInt8 Image Packet Nat where
  seq := Packet.n
  keep := keepQuote
  apply := applyData
  keep_again := by
    intro hisQuote packet
    by_cases send : packet.type = sendType
    · rw [keepQuote_send send, keepQuote_send send]
    · rw [keepQuote_other send]
  apply_again := by
    intro hisQuote image packet
    by_cases data : packet.type = dataType
    · have other : packet.type ≠ sendType := by
        rw [data]
        decide
      rw [keepQuote_other other]
    · rw [applyData_other data, applyData_other data]

/-- k_recv before the first packet. -/
def firstReceiver : Receiver UInt8 Image Nat := ⟨kEscape, emptyImage, emptyImage, none⟩

/-- What the packets so far have come to. -/
def received (k : KRecv) : Receiver UInt8 Image Nat := k.log.foldl (receive kermitLink) firstReceiver

section Simulation

/-- send_parms holds the characters of a send-init packet up to where the buffer is full. -/
structure Parms (k : KRecv) : Prop where
  ptr : k.sendPtr = min k.chars.length (sendDataSize - 1)
  quote : 6 ≤ k.chars.length → k.chars[5]? = some (k.sendParms 5)

/-- The last packet was accepted and is of type B. -/
def Ended (log : List (Outcome Packet Nat)) : Prop :=
  ∃ rest packet, log = rest ++ [.accepted packet] ∧ packet.type = breakType

/-- Where the number of the next packet is not known yet. -/
structure Between (k : KRecv) (receiver : Receiver UInt8 Image Nat) : Prop where
  current : Rep k.binStartAddress k.mem k.data receiver.current
  saved : Rep k.binStartAddress k.mem k.dataSaved receiver.saved
  last : k.lastN = receiver.last
  quote : k.hisQuote = receiver.kept
  place : if k.phase = .done then Ended k.log else k.sendPtr = 0

/-- Inside a packet: what it had before this packet is saved, and what has come is decoded. -/
structure Within (k : KRecv) (receiver : Receiver UInt8 Image Nat) : Prop where
  current : Rep k.binStartAddress k.mem k.data
    (applyData receiver.kept (base receiver k.n) ⟨k.n, k.kState, k.chars⟩)
  saved : Rep k.binStartAddress k.mem k.dataSaved (base receiver k.n)
  last : k.lastN = some k.n
  quote : k.hisQuote = receiver.kept
  begins : k.phase = .type → k.chars = []
  parms : k.phase = .type ∨ k.kState = sendType → Parms k

def Sim (k : KRecv) (receiver : Receiver UInt8 Image Nat) : Prop :=
  match k.phase with
  | .start | .length | .sequence | .done | .aborted => Between k receiver
  | .type | .lenHi | .lenLo | .headerCheck | .body | .check | .endChar => Within k receiver

/-- One character ends at most one packet, and does to it what the receiver does. -/
def Follows (k : KRecv) (receiver : Receiver UInt8 Image Nat) (after : KRecv) : Prop :=
  after.binStartAddress = k.binStartAddress ∧
    ((after.log = k.log ∧ Sim after receiver) ∨
      ∃ outcome, after.log = k.log ++ [outcome] ∧ Sim after (receive kermitLink receiver outcome))

variable {k : KRecv} {receiver : Receiver UInt8 Image Nat}

theorem error_between (between : Between k receiver) :
    Follows k receiver (packetError k none) := by
  refine ⟨rfl, Or.inr ⟨.damaged none, rfl, ?_⟩⟩
  exact ⟨between.saved, between.saved, between.last, between.quote, rfl⟩

theorem error_within (within : Within k receiver) :
    Follows k receiver (packetError k (some k.n)) := by
  refine ⟨rfl, Or.inr ⟨.damaged (some k.n), rfl, ?_⟩⟩
  exact ⟨within.saved, within.saved, within.last, within.quote, rfl⟩

/-- The quote character that handle_send_packet takes. -/
theorem handle_quote (parms : Parms k) (n : Nat) :
    (handleSendPacket k n).hisQuote = sendQuote k.chars := by
  have size : k.sendPtr = min k.chars.length 19 := parms.ptr
  show (if 6 ≤ (if k.sendPtr = 19 then k.sendPtr - 1 else k.sendPtr) then k.sendParms 5 else kEscape) =
    sendQuote k.chars
  have cracked : 6 ≤ (if k.sendPtr = 19 then k.sendPtr - 1 else k.sendPtr) ↔ 6 ≤ k.chars.length := by
    split
    · omega
    · omega
  by_cases enough : 6 ≤ k.chars.length
  · rw [if_pos (cracked.mpr enough), sendQuote, parms.quote enough]
    rfl
  · rw [if_neg (fun six => enough (cracked.mp six)), sendQuote, List.getElem?_eq_none (by omega)]
    rfl

theorem saveParm_parms (parms : Parms k) (newChar : UInt8) (sum : Nat) (length : Int) :
    Parms (saveParm { k with sum := sum, length := length, chars := k.chars ++ [newChar] } newChar) := by
  have size : k.sendPtr = min k.chars.length 19 := parms.ptr
  have longer : (k.chars ++ [newChar]).length = k.chars.length + 1 := by simp
  constructor
  · show (if 20 ≤ k.sendPtr + 1 then k.sendPtr else k.sendPtr + 1) =
      min (k.chars ++ [newChar]).length 19
    rw [longer]
    split
    · omega
    · omega
  · show 6 ≤ (k.chars ++ [newChar]).length → (k.chars ++ [newChar])[5]? =
      some (Function.update k.sendParms k.sendPtr newChar 5)
    intro enough
    rw [longer] at enough
    by_cases sixth : k.chars.length = 5
    · have five : k.sendPtr = 5 := by omega
      rw [five, Function.update_self, List.getElem?_append_right (by omega), sixth]
      rfl
    · have other : (5 : Nat) ≠ k.sendPtr := by omega
      rw [Function.update_of_ne other, List.getElem?_append_left (by omega)]
      exact parms.quote (by omega)

theorem accepted_within (within : Within k receiver) :
    Follows k receiver (packetAccepted k) := by
  have frame : (packetAccepted k).binStartAddress = k.binStartAddress ∧
      (packetAccepted k).log = k.log ++ [.accepted ⟨k.n, k.kState, k.chars⟩] := by
    unfold packetAccepted
    split
    · exact ⟨rfl, rfl⟩
    · split
      · exact ⟨rfl, rfl⟩
      · exact ⟨rfl, rfl⟩
  refine ⟨frame.1, Or.inr ⟨.accepted ⟨k.n, k.kState, k.chars⟩, frame.2, ?_⟩⟩
  unfold packetAccepted
  by_cases send : k.kState = sendType
  · simp only [if_pos send]
    have parms := within.parms (Or.inr send)
    have logged : Parms { k with log := k.log ++ [.accepted ⟨k.n, k.kState, k.chars⟩] } :=
      ⟨parms.ptr, parms.quote⟩
    have kept : keepQuote receiver.kept ⟨k.n, k.kState, k.chars⟩ = sendQuote k.chars :=
      keepQuote_send send receiver.kept
    exact ⟨within.current, within.saved, within.last, (handle_quote logged k.n).trans kept.symm,
      rfl⟩
  · simp only [if_neg send]
    have quote : k.hisQuote = keepQuote receiver.kept ⟨k.n, k.kState, k.chars⟩ :=
      within.quote.trans (keepQuote_other send receiver.kept).symm
    by_cases last : k.kState = breakType
    · simp only [if_pos last]
      exact ⟨within.current, within.saved, within.last, quote, k.log, _, rfl, last⟩
    · simp only [if_neg last]
      exact ⟨within.current, within.saved, within.last, quote, rfl⟩

theorem between_ptr (between : Between k receiver) (waits : k.phase ≠ .done) : k.sendPtr = 0 := by
  have place := between.place
  rw [if_neg waits] at place
  exact place

theorem start_follows (between : Between k receiver) (phase : k.phase = .start) (newChar : UInt8) :
    Follows k receiver (waitStart k newChar) := by
  have ptr := between_ptr between (by simp [phase])
  unfold waitStart
  split
  · exact ⟨rfl, Or.inl ⟨rfl, between.current, between.saved, between.last, between.quote, ptr⟩⟩
  · split
    · exact ⟨rfl, Or.inl ⟨rfl, between.current, between.saved, between.last, between.quote, ptr⟩⟩
    · refine ⟨rfl, Or.inl ⟨rfl, ?_⟩⟩
      unfold Sim
      rw [phase]
      exact between

theorem length_follows (between : Between k receiver) (phase : k.phase = .length) (newChar : UInt8) :
    Follows k receiver (getLength k newChar) := by
  have ptr := between_ptr between (by simp [phase])
  unfold getLength
  split
  · exact error_between between
  · exact ⟨rfl, Or.inl ⟨rfl, between.current, between.saved, between.last, between.quote, ptr⟩⟩

/-- A packet begins with what was saved or with what has been received, by its number. -/
theorem sequence_follows (between : Between k receiver) (phase : k.phase = .sequence)
    (newChar : UInt8) : Follows k receiver (getSequence k newChar) := by
  have fresh := between_ptr between (by simp [phase])
  have noParms : ∀ after : KRecv, after.sendPtr = 0 → after.chars = [] → Parms after := by
    intro after ptr chars
    constructor
    · rw [ptr, chars]
      rfl
    · rw [chars]
      intro enough
      exact absurd enough (by decide)
  unfold getSequence
  split
  · exact error_between between
  · unfold checkSequence
    -- The receiver begins a packet with this number at the same place.
    by_cases again : k.lastN = some (untochar newChar)
    · simp only [if_pos again]
      have from_ : base receiver (untochar newChar) = receiver.saved :=
        base_last (between.last.symm.trans again)
      refine ⟨rfl, Or.inl ⟨rfl, ?_, ?_, again, between.quote, fun _ => rfl, fun _ => noParms _ fresh rfl⟩⟩
      · show Rep _ _ _ (applyData _ _ ⟨_, _, []⟩)
        rw [applyData_empty, from_]
        exact between.saved
      · rw [from_]
        exact between.saved
    · simp only [if_neg again]
      have from_ : base receiver (untochar newChar) = receiver.current :=
        base_other (fun last => again (between.last.trans last))
      refine ⟨rfl, Or.inl ⟨rfl, ?_, ?_, rfl, between.quote, fun _ => rfl, fun _ => noParms _ fresh rfl⟩⟩
      · show Rep _ _ _ (applyData _ _ ⟨_, _, []⟩)
        rw [applyData_empty, from_]
        exact between.current
      · rw [from_]
        exact between.current

/-- The fields of the header change nothing else. -/
theorem header_within (within : Within k receiver) (next : Phase) (sum : Nat) (length : Int)
    (lenHi : Nat) (behind : next ≠ .type) :
    Within { k with phase := next, sum := sum, length := length, lenHi := lenHi } receiver := by
  refine ⟨within.current, within.saved, within.last, within.quote, fun at_ => absurd at_ behind, ?_⟩
  intro send
  have parms := within.parms (Or.inr (send.resolve_left behind))
  exact ⟨parms.ptr, parms.quote⟩

theorem rest_sim (within : Within { k with phase := .body } receiver) :
    Sim (restOfPacket k) receiver := by
  unfold restOfPacket
  split
  · exact within
  · exact header_within within .check _ _ _ (by decide)

theorem passOn_within (within : Within k receiver) (typed : k.phase ≠ .type) (newChar : UInt8)
    (sum : Nat) (length : Int) :
    Within (passOn { k with sum := sum, length := length, chars := k.chars ++ [newChar] } newChar)
      receiver := by
  unfold passOn
  by_cases data : k.kState = dataType
  · have notSend : k.kState ≠ sendType := by
      rw [data]
      decide
    simp only [if_pos data]
    have current := within.current
    rw [applyData_data data] at current
    -- What has been decoded since the checkpoint was written behind the saved image.
    have grown := decode_grows receiver.kept (base receiver k.n) k.chars
    refine ⟨?_, kDataChar_saved current within.saved grown k.hisQuote newChar, within.last,
      within.quote, fun at_ => absurd at_ typed, fun send => ?_⟩
    · show Rep _ _ _ (applyData receiver.kept (base receiver k.n) ⟨k.n, k.kState, k.chars ++ [newChar]⟩)
      rw [applyData_data data, decode_concat, ← within.quote]
      rw [← within.quote] at current
      exact kDataChar_rep current k.hisQuote newChar
    · exact absurd send (by simp [typed, notSend])
  · simp only [if_neg data]
    have current : Rep k.binStartAddress k.mem k.data
        (applyData receiver.kept (base receiver k.n) ⟨k.n, k.kState, k.chars ++ [newChar]⟩) := by
      rw [applyData_other data]
      have before := within.current
      rw [applyData_other data] at before
      exact before
    by_cases send : k.kState = sendType
    · simp only [if_pos send]
      refine ⟨current, within.saved, within.last, within.quote, fun at_ => absurd at_ typed, fun _ => ?_⟩
      exact saveParm_parms (within.parms (Or.inr send)) newChar sum length
    · simp only [if_neg send]
      exact ⟨current, within.saved, within.last, within.quote, fun at_ => absurd at_ typed,
        fun some => absurd some (by simp [typed, send])⟩

theorem type_follows (within : Within k receiver) (phase : k.phase = .type) (newChar : UInt8) :
    Follows k receiver (getType k newChar) := by
  have empty := within.begins phase
  have typed : ∀ next sum length, next ≠ .type →
      Within { k with phase := next, sum := sum, kState := newChar, length := length } receiver := by
    intro next sum length behind
    refine ⟨?_, within.saved, within.last, within.quote, fun at_ => absurd at_ behind, fun _ => ?_⟩
    · have current := within.current
      rw [empty, applyData_empty] at current
      show Rep _ _ _ (applyData receiver.kept (base receiver k.n) ⟨k.n, newChar, k.chars⟩)
      rw [empty, applyData_empty]
      exact current
    · have parms := within.parms (Or.inl phase)
      exact ⟨parms.ptr, parms.quote⟩
  unfold getType
  split
  · exact error_within within
  · by_cases extended : k.length - 1 = -2
    · simp only [if_pos extended]
      exact ⟨rfl, Or.inl ⟨rfl, typed .lenHi _ _ (by decide)⟩⟩
    · simp only [if_neg extended]
      exact ⟨rfl, Or.inl ⟨rfl, rest_sim (typed .body _ _ (by decide))⟩⟩

theorem body_follows (within : Within k receiver) (phase : k.phase = .body) (newChar : UInt8) :
    Follows k receiver (getBody k newChar) := by
  have typed : k.phase ≠ .type := by simp [phase]
  unfold getBody
  split
  · exact error_within within
  · have passed := passOn_within within typed newChar (k.sum + newChar.toNat) (k.length - 1)
    have same := passOn_same { k with
      sum := k.sum + newChar.toNat, length := k.length - 1, chars := k.chars ++ [newChar] } newChar
    exact ⟨same.start, Or.inl ⟨same.log, rest_sim (header_within passed .body _ _ _ (by decide))⟩⟩

theorem headerCheck_follows (within : Within k receiver) (newChar : UInt8) :
    Follows k receiver (getHeaderCheck k newChar) := by
  unfold getHeaderCheck
  split
  · exact error_within within
  · split
    · exact ⟨rfl, Or.inl ⟨rfl, rest_sim (header_within within .body _ _ _ (by decide))⟩⟩
    · exact error_within within

theorem check_follows (within : Within k receiver) (newChar : UInt8) :
    Follows k receiver (getCheck k newChar) := by
  unfold getCheck
  split
  · exact error_within within
  · split
    · exact ⟨rfl, Or.inl ⟨rfl, header_within within .endChar _ _ _ (by decide)⟩⟩
    · exact error_within within

theorem endChar_follows (within : Within k receiver) (newChar : UInt8) :
    Follows k receiver (getEndChar k newChar) := by
  unfold getEndChar
  split
  · exact accepted_within within
  · exact error_within within

theorem lenHi_follows (within : Within k receiver) (newChar : UInt8) :
    Follows k receiver (getLenHi k newChar) := by
  unfold getLenHi
  split
  · exact error_within within
  · exact ⟨rfl, Or.inl ⟨rfl, header_within within .lenLo _ _ _ (by decide)⟩⟩

theorem lenLo_follows (within : Within k receiver) (newChar : UInt8) :
    Follows k receiver (getLenLo k newChar) := by
  unfold getLenLo
  split
  · exact error_within within
  · exact ⟨rfl, Or.inl ⟨rfl, header_within within .headerCheck _ _ _ (by decide)⟩⟩

theorem stays_follows (sim : Sim k receiver) : Follows k receiver k := ⟨rfl, Or.inl ⟨rfl, sim⟩⟩

/-- One character of the line. -/
theorem kRecvChar_follows (sim : Sim k receiver) (newChar : UInt8) :
    Follows k receiver (kRecvChar k newChar) := by
  have state := sim
  unfold Sim at state
  unfold kRecvChar
  cases phase : k.phase with
  | start =>
      rw [phase] at state
      exact start_follows state phase newChar
  | length =>
      rw [phase] at state
      exact length_follows state phase newChar
  | sequence =>
      rw [phase] at state
      exact sequence_follows state phase newChar
  | type =>
      rw [phase] at state
      exact type_follows state phase newChar
  | lenHi =>
      rw [phase] at state
      exact lenHi_follows state newChar
  | lenLo =>
      rw [phase] at state
      exact lenLo_follows state newChar
  | headerCheck =>
      rw [phase] at state
      exact headerCheck_follows state newChar
  | body =>
      rw [phase] at state
      exact body_follows state phase newChar
  | check =>
      rw [phase] at state
      exact check_follows state newChar
  | endChar =>
      rw [phase] at state
      exact endChar_follows state newChar
  | done => exact stays_follows sim
  | aborted => exact stays_follows sim

theorem init_sim (start : Nat) (mem sendParms : Nat → UInt8) :
    Sim (kRecvInit start mem sendParms) firstReceiver :=
  ⟨rep_init start mem, rep_init start mem, rfl, rfl, rfl⟩

/-- What k_recv has decoded, saved and kept is what its packets have come to. -/
theorem kRecv_sim (start : Nat) (mem sendParms : Nat → UInt8) (line : List UInt8) :
    (kRecv start mem sendParms line).binStartAddress = start ∧
      Sim (kRecv start mem sendParms line) (received (kRecv start mem sendParms line)) := by
  have step : ∀ before newChar, before.binStartAddress = start ∧ Sim before (received before) →
      (kRecvChar before newChar).binStartAddress = start ∧
        Sim (kRecvChar before newChar) (received (kRecvChar before newChar)) := by
    intro before newChar sim
    obtain ⟨place, follows⟩ := kRecvChar_follows sim.2 newChar
    refine ⟨place.trans sim.1, ?_⟩
    rcases follows with ⟨log, after⟩ | ⟨outcome, log, after⟩
    · rw [show received (kRecvChar before newChar) = received before from
        congrArg (List.foldl _ _) log]
      exact after
    · have one : received (kRecvChar before newChar) =
          receive kermitLink (received before) outcome := by
        unfold received
        rw [log, List.foldl_append]
        rfl
      rw [one]
      exact after
  refine run_preserves (stepOf kRecvChar)
    (fun k => k.binStartAddress = start ∧ Sim k (received k)) ?_
    (run_foldl kRecvChar line (kRecvInit start mem sendParms)) ⟨rfl, init_sim start mem sendParms⟩
  intro before newChar after sim same
  rw [show after = kRecvChar before newChar from same]
  exact step before newChar sim

end Simulation

section Received

/-- The data of the packets in order, each decoded once. -/
def decodePackets (hisQuote : UInt8) (image : Image) : List Packet → Image
  | [] => image
  | packet :: rest =>
      decodePackets (keepQuote hisQuote packet) (applyData hisQuote image packet) rest

def imageOf (packets : List Packet) : List UInt8 := (decodePackets kEscape emptyImage packets).bytes

/-- Without another send-init packet, the data packets are decoded as one text. -/
theorem decodePackets_concat (hisQuote : UInt8) (image : Image) (packets : List Packet)
    (noSend : ∀ packet ∈ packets, packet.type ≠ sendType) :
    decodePackets hisQuote image packets = decode hisQuote image
      ((packets.filter fun packet => packet.type = dataType).flatMap Packet.chars) := by
  induction packets generalizing image with
  | nil => rfl
  | cons packet rest ih =>
      have others : ∀ other ∈ rest, other.type ≠ sendType := by
        intro other member
        exact noSend other (List.mem_cons_of_mem packet member)
      rw [decodePackets, keepQuote_other (noSend packet List.mem_cons_self), ih _ others]
      by_cases data : packet.type = dataType
      · rw [applyData_data data, List.filter_cons_of_pos (by simp [data]), List.flatMap_cons,
          decode_append]
      · rw [applyData_other data, List.filter_cons_of_neg (by simp [data])]

theorem expected_decode (start : UInt8 × Image) (packets : List Packet) (count : Nat) :
    (expected kermitLink start packets count).2 =
      decodePackets start.1 start.2 (packets.take count) := by
  unfold expected
  induction packets.take count generalizing start with
  | nil => rfl
  | cons packet rest ih => exact ih _

/-- What is known of the packets when the last one is of type B. -/
theorem track_ended {log : List (Outcome Packet Nat)} {heard : Heard Packet Nat}
    (run : Run (stepOf track) nothingHeard log heard) (ended : Ended log) :
    ∃ packet, heard.last = some packet ∧ heard.damage = none ∧ packet.type = breakType := by
  obtain ⟨rest, packet, same, last⟩ := ended
  have heardIs := run_end run
  rw [same, List.foldl_append] at heardIs
  rw [heardIs]
  exact ⟨packet, rfl, rfl, last⟩

/-- S, F, D with "A#JB", D with "C##", Z and B. -/
def sentPackets : List Packet :=
  [⟨0, 0x53, [0x7e, 0x2a, 0x20, 0x40, 0x2d, 0x23]⟩, ⟨1, 0x46, [0x61]⟩,
    ⟨2, 0x44, [0x41, 0x23, 0x4a, 0x42]⟩, ⟨3, 0x44, [0x43, 0x23, 0x23]⟩, ⟨4, 0x5a, []⟩, ⟨5, 0x42, []⟩]

/-- The bytes of the packets, with `noise` behind the first data packet. -/
def noisyLine (noise : List UInt8) : List UInt8 :=
  (sentPackets.take 3).flatMap packetBytes ++ noise ++ (sentPackets.drop 3).flatMap packetBytes

/-- The first data packet again, and the second one with a wrong character. -/
def repeatedNoise : List UInt8 :=
  packetBytes ⟨2, 0x44, [0x41, 0x23, 0x4a, 0x42]⟩ ++
    [0x01, 0x26, 0x23, 0x44, 0x43, 0x23, 0x24, 0x36, 0x0d]

/-- The second data packet with 2 for its sequence number. -/
def misreadNoise : List UInt8 := [0x01, 0x26, 0x22, 0x44, 0x43, 0x23, 0x23, 0x36, 0x0d]

theorem sent_numbered : Numbered kermitLink sentPackets := by
  apply numbered_of_chain
  simp only [sentPackets, List.isChain_cons_cons, kermitLink]
  decide

/-- When k_recv finishes, the packets up to the one of type B have been acknowledged, and memory
holds the data of these packets in order, each decoded once, if the packet checks have let no damaged
packet through and the number of a damaged packet did no harm. -/
theorem image_received (start : Nat) (mem sendParms : Nat → UInt8) (line : List UInt8)
    (packets : List Packet) {heard : Heard Packet Nat} (numbered : Numbered kermitLink packets)
    (finished : (kRecv start mem sendParms line).phase = .done)
    (run : Run (Guarded (fun heard outcome => Genuine packets heard outcome ∧
      Harmless kermitLink heard outcome) (stepOf track)) nothingHeard
      (kRecv start mem sendParms line).log heard) :
    (∃ index packet, heard.count = index + 1 ∧ packets[index]? = some packet ∧
      packet.type = breakType) ∧
    size (kRecv start mem sendParms line) =
      some ((imageOf (packets.take heard.count)).length % 2 ^ 32) ∧
    slice (kRecv start mem sendParms line).mem start (imageOf (packets.take heard.count)).length =
      imageOf (packets.take heard.count) := by
  obtain ⟨place, sim⟩ := kRecv_sim start mem sendParms line
  generalize kRecv start mem sendParms line = k at finished run place sim ⊢
  have between : Between k (received k) := by
    unfold Sim at sim
    rw [finished] at sim
    exact sim
  have ended := between.place
  rw [if_pos finished] at ended
  obtain ⟨packet, heardLast, whole, type⟩ := track_ended (unguarded run) ended
  have inv : Inv kermitLink (kEscape, emptyImage) packets (received k) heard :=
    run_expected numbered run (begin_inv kermitLink (kEscape, emptyImage) packets)
  have image : (received k).current.bytes = imageOf (packets.take heard.count) := by
    rw [inv_current inv heardLast whole, expected_decode]
    rfl
  have rep := between.current
  obtain ⟨index, behind⟩ := inv.behind packet heardLast
  refine ⟨⟨index, packet, behind.count, behind.place, type⟩, ?_, ?_⟩
  · unfold size
    rw [finished, rep.addr, Nat.add_sub_cancel_left, image]
  · rw [← image, ← place]
    exact rep.written

def repeatedRun : KRecv := kRecv 0x100 (fun _ => 0) (fun _ => 0) (noisyLine repeatedNoise)

theorem image_received_repeated : size repeatedRun = some 5 ∧
    slice repeatedRun.mem 0x100 5 = [0x41, 0x0a, 0x42, 0x43, 0x23] := by
  have passes : Passes (fun heard outcome => Genuine sentPackets heard outcome ∧
      NumberRead kermitLink heard outcome) track nothingHeard repeatedRun.log := by
    decide +kernel
  have run := run_read sent_numbered (run_passes _ _ passes)
    (begin_inv kermitLink (kEscape, emptyImage) sentPackets)
  have finished : repeatedRun.phase = .done := by decide +kernel
  have whole := (image_received 0x100 (fun _ => 0) (fun _ => 0) (noisyLine repeatedNoise) sentPackets
    sent_numbered finished run).2
  have count : (repeatedRun.log.foldl track nothingHeard).count = 6 := by decide +kernel
  have image : imageOf (sentPackets.take 6) = [0x41, 0x0a, 0x42, 0x43, 0x23] := by decide +kernel
  rw [show kRecv 0x100 (fun _ => 0) (fun _ => 0) (noisyLine repeatedNoise) = repeatedRun from rfl,
    count, image] at whole
  exact whole

def misreadRun : KRecv := kRecv 0x100 (fun _ => 0) (fun _ => 0) (noisyLine misreadNoise)

/-- One misread sequence number: every packet is acknowledged, and the first data packet is lost. -/
theorem misread_number_loses_data : Numbered kermitLink sentPackets ∧
    (∃ heard, Run (Guarded (Genuine sentPackets) (stepOf track)) nothingHeard misreadRun.log heard ∧
      heard.count = sentPackets.length) ∧
    misreadRun.phase = .done ∧ size misreadRun = some 2 ∧
    slice misreadRun.mem 0x100 2 = [0x43, 0x23] ∧
    imageOf sentPackets = [0x41, 0x0a, 0x42, 0x43, 0x23] := by
  have passes : Passes (Genuine sentPackets) track nothingHeard misreadRun.log := by decide +kernel
  refine ⟨sent_numbered, ⟨_, run_passes _ _ passes, ?_⟩, ?_⟩
  · decide +kernel
  · decide +kernel

end Received

end UBoot.Load.KermitImage
