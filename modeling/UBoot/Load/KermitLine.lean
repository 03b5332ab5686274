import UBoot.Load.Kermit

/-!
The bytes of an intact packet, as a sender writes it, and that k_recv accepts
exactly this packet when it waits for one.
-/

namespace UBoot.Load.KermitLine

open KermitData Kermit
open Library.Rollback (Outcome)

/-- A packet with a short header: its length is in the length character. -/
structure Sendable (packet : Packet) : Prop where
  short : packet.chars.length ≤ 91
  number : packet.n < 64
  type : ¬ isControl packet.type
  chars : ∀ newChar ∈ packet.chars, ¬ isControl newChar

def charSum (chars : List UInt8) : Nat := (chars.map UInt8.toNat).sum

def header (packet : Packet) : List UInt8 :=
  [tochar (packet.chars.length + 3), tochar packet.n, packet.type]

def packetBytes (packet : Packet) : List UInt8 :=
  startChar :: header packet ++ packet.chars ++
    [tochar (blockCheck (charSum (header packet ++ packet.chars))), endChar]

theorem isControl_iff (newChar : UInt8) : isControl newChar ↔ newChar.toNat < 0x20 := by
  have all : ∀ n : Fin 256, isControl (UInt8.ofNat n) ↔ n.val < 0x20 := by decide +kernel
  have this_ := all ⟨newChar.toNat, newChar.toNat_lt⟩
  rw [UInt8.ofNat_toNat] at this_
  exact this_

theorem tochar_toNat {x : Nat} (bound : x < 224) : (tochar x).toNat = x + 0x20 :=
  UInt8.toNat_ofNat_of_lt' (show x + 0x20 < 256 by omega)

theorem untochar_tochar {x : Nat} (bound : x < 224) : untochar (tochar x) = x := by
  have value := tochar_toNat bound
  have space : (0x20 : UInt8) ≤ tochar x := by
    rw [UInt8.le_iff_toNat_le, value]
    exact Nat.le_add_left 32 x
  unfold untochar
  rw [UInt8.toNat_sub_of_le _ _ space, value]
  rfl

theorem tochar_not_control {x : Nat} (bound : x < 224) : ¬ isControl (tochar x) := by
  rw [isControl_iff, tochar_toNat bound]
  omega

theorem blockCheck_lt (sum : Nat) : blockCheck sum < 224 := by
  have small : blockCheck sum < 64 := Nat.mod_lt _ (by decide)
  exact Nat.lt_trans small (by decide)

theorem charSum_append (first second : List UInt8) :
    charSum (first ++ second) = charSum first + charSum second := by
  simp [charSum]

/-- What is left of a packet's header while its characters are passed on. -/
structure SameHeader (k after : KRecv) : Prop where
  start : after.binStartAddress = k.binStartAddress
  n : after.n = k.n
  kState : after.kState = k.kState
  sum : after.sum = k.sum
  length : after.length = k.length
  chars : after.chars = k.chars
  log : after.log = k.log

theorem passOn_same (k : KRecv) (newChar : UInt8) : SameHeader k (passOn k newChar) := by
  unfold passOn
  split
  · exact ⟨rfl, rfl, rfl, rfl, rfl, rfl, rfl⟩
  · split
    · exact ⟨rfl, rfl, rfl, rfl, rfl, rfl, rfl⟩
    · exact ⟨rfl, rfl, rfl, rfl, rfl, rfl, rfl⟩

/-- Inside the packet: its header and the characters `front` have been read. -/
structure Reading (k : KRecv) (packet : Packet) (front rest : List UInt8)
    (log : List (Outcome Packet Nat)) : Prop where
  phase : k.phase = if rest = [] then .check else .body
  length : k.length = rest.length + 1
  n : k.n = packet.n
  kState : k.kState = packet.type
  sum : k.sum = charSum (header packet ++ front)
  chars : k.chars = front
  log : k.log = log

theorem rest_phase (rest : List UInt8) :
    (if (1 : Int) < rest.length + 1 then Phase.body else .check) =
      if rest = [] then .check else .body := by
  cases rest with
  | nil => rfl
  | cons newChar rest =>
      have longer : (1 : Int) < (newChar :: rest).length + 1 := by
        rw [List.length_cons]
        omega
      rw [if_pos longer]
      rfl

theorem body_reading {k : KRecv} {packet : Packet} {front rest : List UInt8} {newChar : UInt8}
    {log : List (Outcome Packet Nat)} (reading : Reading k packet front (newChar :: rest) log)
    (printable : ¬ isControl newChar) :
    Reading (kRecvChar k newChar) packet (front ++ [newChar]) rest log := by
  have inBody : k.phase = .body := reading.phase
  have next : kRecvChar k newChar = getBody k newChar := by
    unfold kRecvChar
    rw [inBody]
  rw [next]
  unfold getBody
  rw [if_neg printable]
  have length : k.length - 1 = rest.length + 1 := by
    rw [reading.length, List.length_cons]
    omega
  have same := passOn_same { k with
    sum := k.sum + newChar.toNat, length := k.length - 1, chars := k.chars ++ [newChar] } newChar
  generalize passOn _ newChar = passed at same ⊢
  have left : passed.length = rest.length + 1 := same.length.trans length
  refine ⟨?_, left, same.n.trans reading.n, same.kState.trans reading.kState, ?_,
    same.chars.trans (congrArg (· ++ [newChar]) reading.chars), same.log.trans reading.log⟩
  · show (if 1 < passed.length then Phase.body else .check) = _
    rw [left]
    exact rest_phase rest
  · show passed.sum = _
    rw [same.sum, ← List.append_assoc, charSum_append]
    exact congrArg (· + newChar.toNat) reading.sum

theorem body_read {k : KRecv} {packet : Packet} {front rest : List UInt8}
    {log : List (Outcome Packet Nat)} (reading : Reading k packet front rest log)
    (printable : ∀ newChar ∈ rest, ¬ isControl newChar) :
    Reading (rest.foldl kRecvChar k) packet (front ++ rest) [] log := by
  induction rest generalizing k front with
  | nil =>
      rw [List.append_nil]
      exact reading
  | cons newChar rest ih =>
      have first := printable newChar List.mem_cons_self
      have others : ∀ other ∈ rest, ¬ isControl other := by
        intro other member
        exact printable other (List.mem_cons_of_mem newChar member)
      have whole := ih (body_reading reading first) others
      rw [List.append_assoc] at whole
      exact whole

theorem checkSequence_same (k : KRecv) :
    (checkSequence k).phase = k.phase ∧ (checkSequence k).n = k.n ∧
      (checkSequence k).sum = k.sum ∧ (checkSequence k).length = k.length ∧
      (checkSequence k).chars = k.chars ∧ (checkSequence k).log = k.log := by
  unfold checkSequence
  split
  · exact ⟨rfl, rfl, rfl, rfl, rfl, rfl⟩
  · exact ⟨rfl, rfl, rfl, rfl, rfl, rfl⟩

theorem length_read {k : KRecv} (waits : k.phase = .start) {newChar : UInt8}
    (printable : ¬ isControl newChar) :
    kRecvChar (kRecvChar k startChar) newChar =
      { k with phase := .sequence, sum := newChar.toNat, length := untochar newChar } := by
  have started : kRecvChar k startChar = { k with phase := .length } := by
    unfold kRecvChar
    rw [waits]
    rfl
  rw [started]
  show getLength { k with phase := .length } newChar = _
  unfold getLength
  rw [if_neg printable]

theorem type_read {k : KRecv} (waits : k.phase = .type) (left : k.length - 1 ≠ -2) {newChar : UInt8}
    (printable : ¬ isControl newChar) :
    kRecvChar k newChar = restOfPacket
      { k with sum := k.sum + newChar.toNat, kState := newChar, length := k.length - 1 } := by
  have typed : kRecvChar k newChar = getType k newChar := by
    unfold kRecvChar
    rw [waits]
  rw [typed]
  unfold getType
  rw [if_neg printable]
  exact if_neg left

theorem header_read {k : KRecv} {packet : Packet} (waits : k.phase = .start)
    (sendable : Sendable packet) :
    Reading ((startChar :: header packet).foldl kRecvChar k) packet [] packet.chars k.log := by
  have short := sendable.short
  have number := sendable.number
  have lengthChar : packet.chars.length + 3 < 224 := by omega
  have numberChar : packet.n < 224 := by omega
  show Reading (kRecvChar (kRecvChar (kRecvChar (kRecvChar k startChar)
    (tochar (packet.chars.length + 3))) (tochar packet.n)) packet.type) packet [] packet.chars k.log
  rw [length_read waits (tochar_not_control lengthChar), untochar_tochar lengthChar]
  -- Whether the packet is new or repeated, its number is kept and its characters begin afresh.
  have numbered : ∀ before : KRecv, before.phase = .sequence →
      kRecvChar before (tochar packet.n) = checkSequence
        { before with
          phase := .type
          sum := before.sum + (tochar packet.n).toNat
          n := packet.n
          length := before.length - 1
          chars := [] } := by
    intro before phase
    have next : kRecvChar before (tochar packet.n) = getSequence before (tochar packet.n) := by
      unfold kRecvChar
      rw [phase]
    rw [next]
    unfold getSequence
    rw [if_neg (tochar_not_control numberChar), untochar_tochar numberChar]
  rw [numbered _ rfl]
  have same := checkSequence_same
    { k with
      phase := .type
      sum := (tochar (packet.chars.length + 3)).toNat + (tochar packet.n).toNat
      n := packet.n
      length := ((packet.chars.length + 3 : Nat) : Int) - 1
      chars := [] }
  generalize checkSequence _ = checked at same ⊢
  obtain ⟨phase, n, sum, length, chars, log⟩ := same
  have lengthIs : checked.length = ((packet.chars.length + 3 : Nat) : Int) - 1 := length
  have left : checked.length - 1 = packet.chars.length + 1 := by
    rw [lengthIs]
    omega
  have notExtended : checked.length - 1 ≠ -2 := by omega
  rw [type_read phase notExtended sendable.type]
  refine ⟨?_, left, n, rfl, ?_, chars, log⟩
  · show (if 1 < checked.length - 1 then Phase.body else .check) = _
    rw [left]
    exact rest_phase packet.chars
  · show checked.sum + packet.type.toNat = _
    rw [sum]
    simp [charSum, header, Nat.add_assoc]

/-- k_recv accepts an intact packet when it waits for one. -/
theorem packet_accepted {k : KRecv} {packet : Packet} (waits : k.phase = .start)
    (sendable : Sendable packet) :
    ((packetBytes packet).foldl kRecvChar k).log = k.log ++ [.accepted packet] ∧
      ((packetBytes packet).foldl kRecvChar k).phase =
        if packet.type = breakType then .done else .start := by
  have reading := body_read (header_read waits sendable) sendable.chars
  have whole : (packetBytes packet).foldl kRecvChar k =
      kRecvChar (kRecvChar (packet.chars.foldl kRecvChar
        ((startChar :: header packet).foldl kRecvChar k))
        (tochar (blockCheck (charSum (header packet ++ packet.chars))))) endChar := by
    unfold packetBytes
    rw [List.foldl_append, List.foldl_append]
    rfl
  rw [whole]
  generalize packet.chars.foldl kRecvChar _ = before at reading ⊢
  have atCheck : before.phase = .check := reading.phase
  have sum : before.sum = charSum (header packet ++ packet.chars) := reading.sum
  have matching : matchesSum before (tochar (blockCheck (charSum (header packet ++ packet.chars)))) := by
    unfold matchesSum
    rw [sum]
  have checked : kRecvChar before (tochar (blockCheck (charSum (header packet ++ packet.chars)))) =
      { before with phase := .endChar } := by
    unfold kRecvChar
    rw [atCheck]
    show getCheck before _ = _
    unfold getCheck
    rw [if_neg (tochar_not_control (blockCheck_lt _)), if_pos matching]
  have ended : kRecvChar { before with phase := .endChar } endChar =
      packetAccepted { before with phase := .endChar } := rfl
  have accepted : (⟨before.n, before.kState, before.chars⟩ : Packet) = packet := by
    rw [reading.n, reading.kState, reading.chars]
    rfl
  have typeIs := reading.kState
  rw [checked, ended, ← typeIs, ← reading.log, ← accepted]
  unfold packetAccepted
  -- Only a packet of type B ends k_recv.
  by_cases send : before.kState = sendType
  · have notBreak : before.kState ≠ breakType := by
      rw [send]
      decide
    simp only [if_pos send, if_neg notBreak]
    exact ⟨rfl, rfl⟩
  · by_cases last : before.kState = breakType
    · simp only [if_neg send, if_pos last]
      exact ⟨rfl, trivial⟩
    · simp only [if_neg send, if_neg last]
      exact ⟨rfl, rfl⟩

/-- An undisturbed download: every packet up to the one of type B is accepted, in order. -/
theorem packets_accepted {k : KRecv} (packets : List Packet) (waits : k.phase = .start)
    (sendable : ∀ packet ∈ packets, Sendable packet)
    (others : ∀ packet ∈ packets, packet.type ≠ breakType) :
    ((packets.flatMap packetBytes).foldl kRecvChar k).log = k.log ++ packets.map .accepted ∧
      ((packets.flatMap packetBytes).foldl kRecvChar k).phase = .start := by
  induction packets generalizing k with
  | nil => exact ⟨(List.append_nil _).symm, waits⟩
  | cons packet rest ih =>
      obtain ⟨log, phase⟩ := packet_accepted waits (sendable packet List.mem_cons_self)
      rw [if_neg (others packet List.mem_cons_self)] at phase
      rw [List.flatMap_cons, List.foldl_append]
      obtain ⟨logs, phases⟩ := ih phase
        (fun other member => sendable other (List.mem_cons_of_mem packet member))
        (fun other member => others other (List.mem_cons_of_mem packet member))
      rw [logs, log, List.append_assoc]
      exact ⟨rfl, phases⟩

end UBoot.Load.KermitLine
