import UBoot.Load.KermitData
import UBoot.Library.Rollback

/-!
k_recv of common/cmd_load.c as a machine that is given one character at a time;
each phase is a place where the source calls getc. `lastN` is none for -1. `sent`
is what putc was given. `chars` are the characters of the packet that have been
read behind its header, and `log` notes how each packet ended; k_recv does not
look at either.
-/

namespace UBoot.Load.Kermit

open KermitData Library.Memory
open Library.Rollback (Outcome)

/-- The next character that is read. -/
inductive Phase where
  | start
  | length
  | sequence
  | type
  | lenHi
  | lenLo
  | headerCheck
  | body
  | check
  | endChar
  | done
  | aborted
  deriving DecidableEq

structure Packet where
  n : Nat
  type : UInt8
  chars : List UInt8
  deriving DecidableEq

structure KRecv where
  phase : Phase
  mem : Nat → UInt8
  binStartAddress : Nat
  data : KData
  dataSaved : KData
  kState : UInt8
  kStateSaved : UInt8
  sum : Nat
  length : Int
  lenHi : Nat
  n : Nat
  lastN : Option Nat
  hisEol : UInt8
  hisPadCount : Nat
  hisPadChar : UInt8
  hisQuote : UInt8
  sendParms : Nat → UInt8
  sendPtr : Nat
  sent : List UInt8
  chars : List UInt8
  log : List (Outcome Packet Nat)

def sendDataSize : Nat := 20

section Replies

def s1SendPacket (k : KRecv) (packet : List UInt8) : KRecv :=
  { k with
    sent := k.sent ++ List.replicate k.hisPadCount k.hisPadChar ++
      packet.takeWhile fun newChar => newChar ≠ 0 }

/-- A reply of type Y or N with its data, and the end of line he needs. -/
def replyPacket (type : UInt8) (n : Nat) (fields : List UInt8) (hisEol : UInt8) : List UInt8 :=
  let packet := tochar (3 + fields.length) :: tochar n :: type :: fields
  startChar :: packet ++ [tochar (chk1 packet), hisEol]

def sendAck (k : KRecv) (n : Nat) : KRecv := s1SendPacket k (replyPacket ackType n [] k.hisEol)

def sendNack (k : KRecv) (n : Nat) : KRecv := s1SendPacket k (replyPacket nackType n [] k.hisEol)

/-- MAXL, TIME, NPAD, PADC, EOL, QCTL, QBIN, CHKT, REPT and CAPAS, as many as he has sent. -/
def sendParmsReply (bytes : Nat) : List UInt8 :=
  [tochar 94, tochar 1, tochar 0, 0x40, tochar 0x0d, 0x23, 0x4e, 0x31, 0x4e].take bytes ++
    if 10 ≤ bytes then [tochar 2, tochar 0, tochar 94, tochar 94] else []

def handleSendPacket (k : KRecv) (n : Nat) : KRecv :=
  -- the last character is ignored if it filled the buffer
  let sendPtr := if k.sendPtr = sendDataSize - 1 then k.sendPtr - 1 else k.sendPtr
  let cracked := { k with
    sendPtr := sendPtr
    hisPadCount := if 3 ≤ sendPtr then untochar (k.sendParms 2) else 0
    hisPadChar := if 4 ≤ sendPtr then ktrans (k.sendParms 3) else 0
    hisEol := if 5 ≤ sendPtr then UInt8.ofNat (untochar (k.sendParms 4)) else endChar
    hisQuote := if 6 ≤ sendPtr then k.sendParms 5 else kEscape }
  s1SendPacket cracked (replyPacket ackType n (sendParmsReply sendPtr) cracked.hisEol)

end Replies

section Packets

/-- The head of the main loop. -/
def nextPacket (k : KRecv) : KRecv := { k with phase := .start, sendPtr := 0 }

/-- `number` is what the packet had for its sequence number, if it came to that. -/
def packetError (k : KRecv) (number : Option Nat) : KRecv :=
  nextPacket (sendNack
    { k with
      kState := k.kStateSaved
      data := k.dataSaved
      log := k.log ++ [.damaged number] } k.n)

def packetAccepted (k : KRecv) : KRecv :=
  let logged := { k with log := k.log ++ [.accepted ⟨k.n, k.kState, k.chars⟩] }
  -- S is answered with our parameters, everything else with a simple Y
  if k.kState = sendType then nextPacket (handleSendPacket logged k.n)
  else if k.kState = breakType then { sendAck logged k.n with phase := .done }
  else nextPacket (sendAck logged k.n)

def checkSequence (k : KRecv) : KRecv :=
  -- the last packet once more is decoded from where it began before
  if k.lastN = some k.n then { k with kState := k.kStateSaved, data := k.dataSaved }
  else { k with lastN := some k.n, kStateSaved := k.kState, dataSaved := k.data }

/-- The head of the loop that brings in the rest of the packet. -/
def restOfPacket (k : KRecv) : KRecv :=
  { k with phase := if 1 < k.length then .body else .check }

def matchesSum (k : KRecv) (newChar : UInt8) : Prop := newChar = tochar (blockCheck k.sum)

instance (k : KRecv) (newChar : UInt8) : Decidable (matchesSum k newChar) :=
  inferInstanceAs (Decidable (newChar = tochar (blockCheck k.sum)))

def saveParm (k : KRecv) (newChar : UInt8) : KRecv :=
  { k with
    sendParms := Function.update k.sendParms k.sendPtr newChar
    -- a full buffer keeps its last place
    sendPtr := if sendDataSize ≤ k.sendPtr + 1 then k.sendPtr else k.sendPtr + 1 }

def passOn (k : KRecv) (newChar : UInt8) : KRecv :=
  if k.kState = dataType then
    { k with
      mem := (kDataChar k.hisQuote k.mem k.data newChar).1
      data := (kDataChar k.hisQuote k.mem k.data newChar).2 }
  else if k.kState = sendType then saveParm k newChar
  else k

end Packets

section Characters
variable (k : KRecv) (newChar : UInt8)

def waitStart : KRecv :=
  if newChar = startChar then { k with phase := .length }
  else if newChar = etxChar then { k with phase := .aborted }
  else k

def getLength : KRecv :=
  if isControl newChar then packetError k none
  else { k with phase := .sequence, sum := newChar.toNat, length := untochar newChar }

def getSequence : KRecv :=
  if isControl newChar then packetError k none
  else checkSequence
    { k with
      phase := .type
      sum := k.sum + newChar.toNat
      n := untochar newChar
      length := k.length - 1
      chars := [] }

def getType : KRecv :=
  if isControl newChar then packetError k (some k.n)
  else
    let typed := { k with
      sum := k.sum + newChar.toNat
      kState := newChar
      length := k.length - 1 }
    -- the length was 0 and has been decremented twice
    if typed.length = -2 then { typed with phase := .lenHi } else restOfPacket typed

def getLenHi : KRecv :=
  if isControl newChar then packetError k (some k.n)
  else { k with phase := .lenLo, sum := k.sum + newChar.toNat, lenHi := untochar newChar }

def getLenLo : KRecv :=
  if isControl newChar then packetError k (some k.n)
  else
    { k with
      phase := .headerCheck
      sum := k.sum + newChar.toNat
      -- the new length counts the data and the block check to come
      length := (k.lenHi * 95 + untochar newChar : Nat) }

def getHeaderCheck : KRecv :=
  if isControl newChar then packetError k (some k.n)
  else if matchesSum k newChar then restOfPacket { k with sum := k.sum + newChar.toNat }
  else packetError k (some k.n)

def getBody : KRecv :=
  if isControl newChar then packetError k (some k.n)
  else restOfPacket (passOn
    { k with
      sum := k.sum + newChar.toNat
      length := k.length - 1
      chars := k.chars ++ [newChar] } newChar)

def getCheck : KRecv :=
  if isControl newChar then packetError k (some k.n)
  else if matchesSum k newChar then { k with phase := .endChar }
  else packetError k (some k.n)

def getEndChar : KRecv :=
  if newChar = endChar then packetAccepted k else packetError k (some k.n)

/-- What k_recv does up to the next getc. -/
def kRecvChar : KRecv :=
  match k.phase with
  | .start => waitStart k newChar
  | .length => getLength k newChar
  | .sequence => getSequence k newChar
  | .type => getType k newChar
  | .lenHi => getLenHi k newChar
  | .lenLo => getLenLo k newChar
  | .headerCheck => getHeaderCheck k newChar
  | .body => getBody k newChar
  | .check => getCheck k newChar
  | .endChar => getEndChar k newChar
  | .done => k
  | .aborted => k

end Characters

/-- `sendParms` is what the last download has left there. -/
def kRecvInit (start : Nat) (mem sendParms : Nat → UInt8) : KRecv :=
  { phase := .start
    mem := mem
    binStartAddress := start
    data := kDataInit start
    dataSaved := kDataInit start
    kState := 0
    kStateSaved := 0
    sum := 0
    length := 0
    lenHi := 0
    n := 0
    lastN := none
    hisEol := endChar
    hisPadCount := 0
    hisPadChar := 0
    hisQuote := kEscape
    sendParms := sendParms
    sendPtr := 0
    sent := []
    chars := []
    log := [] }

def kRecv (start : Nat) (mem sendParms : Nat → UInt8) (line : List UInt8) : KRecv :=
  line.foldl kRecvChar (kRecvInit start mem sendParms)

/-- The return value of k_recv; none while it waits for a character. -/
def size (k : KRecv) : Option Nat :=
  match k.phase with
  | .done => some ((k.data.addr - k.binStartAddress) % 2 ^ 32)
  | .aborted => some 0
  | _ => none

end UBoot.Load.Kermit
