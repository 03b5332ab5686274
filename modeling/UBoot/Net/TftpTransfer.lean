import UBoot.Net.TftpStored

/-!
The client and an honest lock-step server. The server answers every read request
from a port of its own; it sends a block when the one before it has been
acknowledged, and again whenever it likes. DATA and OACK packets of the transfer
arrive in any order, any number of times or never; an ACK counts for the block
that the server waits on when it is sent.
-/

namespace UBoot.Net.TftpTransfer

open Library.Memory Library.Runs Tftp TftpStored

/-- The blocks of a file: the last one has less than 512 bytes. -/
def blockCount (file : List UInt8) : Nat := file.length / tftpBlockSize + 1

def blockLen (file : List UInt8) (k : Nat) : Nat :=
  min tftpBlockSize (file.length - (k - 1) * tftpBlockSize)

def blockByte (file : List UInt8) (k i : Nat) : UInt8 := file.getD ((k - 1) * tftpBlockSize + i) 0

/-- The UDP payload of DATA number `k`. -/
def dataPayload (file : List UInt8) (k i : Nat) : UInt8 :=
  if i < 4 then ([0, 3, UInt8.ofNat (k / 256), UInt8.ofNat k] : List UInt8).getD i 0
  else blockByte file k (i - 4)

def oackPayload (options : List UInt8) (i : Nat) : UInt8 :=
  ([0, 6] ++ options : List UInt8).getD i 0

/-- What the server knows of one answer: the last block it has sent and whether it was
acknowledged. -/
structure Session where
  cur : Nat
  acked : Bool

def newSession : Session := ⟨1, false⟩

/-- `server` gives the answer from each port. -/
structure Transfer where
  client : Client
  server : Nat → Session

def receiveAck (session : Session) (block : Nat) : Session :=
  if block = session.cur % 2 ^ 16 then { session with acked := true } else session

def deliver (server : Nat → Session) (packet : SentPacket) : Nat → Session :=
  match packet.message with
  | .ack block => Function.update server packet.port (receiveAck (server packet.port) block)
  | .rrq _ _ => server
  | .error _ _ => server

inductive TransferEvent where
  | data (port k : Nat)
  | oack (port : Nat) (options : List UInt8)
  | advance (port : Nat)
  | timeout (bootMem : Nat → UInt8)
  | arpTimeout
  | poll (prereq : Prereq) (timer : Nat)

/-- The client takes a turn; what it sends reaches the server. -/
def clientTurn (cfg : NetConfig) (before : Transfer) (event : NetEvent) (after : Transfer) : Prop :=
  ∃ client, netStep cfg before.client event = some client ∧
    after = ⟨client, (client.sent.drop before.client.sent.length).foldl deliver before.server⟩

def transferStep (cfg : NetConfig) (file : List UInt8) (before : Transfer) :
    TransferEvent → Transfer → Prop
  | .data port k, after => 1 ≤ k ∧ k ≤ (before.server port).cur ∧
      clientTurn cfg before (.receive (dataPayload file k) before.client.tftpOurPort port
        (4 + blockLen file k)) after
  | .oack port options, after =>
      clientTurn cfg before (.receive (oackPayload options) before.client.tftpOurPort port
        (2 + options.length)) after
  | .advance port, after =>
      (before.server port).acked = true ∧ (before.server port).cur < blockCount file ∧
        after = ⟨before.client,
          Function.update before.server port ⟨(before.server port).cur + 1, false⟩⟩
  | .timeout bootMem, after => clientTurn cfg before (.timeout bootMem) after
  | .arpTimeout, after => clientTurn cfg before .arpTimeout after
  | .poll prereq timer, after =>
      -- A new read request is a new transfer.
      match before.client.loop.netState, prereq with
      | .restart, .ok => ∃ client, netStep cfg before.client (.poll prereq timer) = some client ∧
          after = ⟨client, fun _ => newSession⟩
      | _, _ => clientTurn cfg before (.poll prereq timer) after

/-- The packet is for the running transfer. -/
structure ForTransfer (client : Client) (port : Nat) : Prop where
  handled : client.loop.packetHandler = .tftpHandler
  running : client.tftpState = .data
  serverPort : port = client.tftpServerPort

/-- DATA arrives in the turn of the block counter it belongs to, OACK before the first DATA, and
load_addr does not change under a transfer. -/
def InTurn (cfg : NetConfig) (before : Transfer) : TransferEvent → Prop
  | .data port k => ForTransfer before.client port → before.client.tftpBlockWrap = (k - 1) / 2 ^ 16
  | .oack port _ => ¬ ForTransfer before.client port
  | .advance _ => True
  | .timeout _ => GivesUp cfg before.client → before.client.netBootFileXferSize = 0
  | .arpTimeout => True
  | .poll _ _ => True

/-- The first `m` blocks of the file are in memory. -/
structure Delivered (file : List UInt8) (client : Client) (m : Nat) : Prop where
  bounded : m ≤ blockCount file
  size : client.netBootFileXferSize = min (m * tftpBlockSize) file.length
  bytes : ∀ i, i < client.netBootFileXferSize →
    client.mem ((client.loadAddr + i) % 2 ^ 32) = file.getD i 0

/-- The counters stand at block `n`, the last one received, in the turn of `m`. -/
structure Counting (client : Client) (session : Session) (m n : Nat) : Prop where
  received : n ≤ m
  block : client.tftpBlock = n % 2 ^ 16
  wrap : client.tftpBlockWrap = n / 2 ^ 16
  offset : client.tftpBlockWrapOffset = n / 2 ^ 16 * 2 ^ 25 % 2 ^ 32
  sameTurn : m < n / 2 ^ 16 * 2 ^ 16 + 2 ^ 16
  atWrap : n % 2 ^ 16 = 0 → n = m
  sent : session.cur ≤ m + 1
  acked : session.acked = true → session.cur ≤ m

/-- No DATA has been accepted. -/
structure Waiting (transfer : Transfer) (m : Nat) : Prop where
  nothing : m = 0
  block : transfer.client.tftpBlock = 0
  fresh : ∀ port, transfer.server port = newSession

structure Inv (file : List UInt8) (transfer : Transfer) (m : Nat) : Prop where
  delivered : Delivered file transfer.client m
  phase : (transfer.client.tftpState = .rrq ∨ transfer.client.tftpState = .oack) ∧
      Waiting transfer m ∨
    transfer.client.tftpState = .data ∧
      ∃ n, transfer.client.tftpLastBlock = n % 2 ^ 16 ∧
        Counting transfer.client (transfer.server transfer.client.tftpServerPort) m n
  success : transfer.client.loop.netState = .success → m = blockCount file

section Blocks
variable {file : List UInt8} {k : Nat}

theorem block_start_le (inside : k ≤ blockCount file) (positive : 1 ≤ k) :
    (k - 1) * tftpBlockSize ≤ file.length := by
  unfold blockCount tftpBlockSize at *
  omega

/-- Only the last block is short. -/
theorem block_short_iff (positive : 1 ≤ k) (inside : k ≤ blockCount file) :
    blockLen file k < tftpBlockSize ↔ k = blockCount file := by
  unfold blockLen blockCount tftpBlockSize at *
  omega

theorem block_end (positive : 1 ≤ k) (inside : k ≤ blockCount file) :
    (k - 1) * tftpBlockSize + blockLen file k = min (k * tftpBlockSize) file.length := by
  unfold blockLen blockCount tftpBlockSize at *
  omega

/-- What a block adds to the bytes below it. -/
theorem block_covers {m i : Nat} (positive : 1 ≤ k) (inside : k ≤ blockCount file)
    (follows : k ≤ m + 1) (below : i < min (max m k * tftpBlockSize) file.length)
    (outside : ¬ ((k - 1) * tftpBlockSize ≤ i ∧ i < (k - 1) * tftpBlockSize + blockLen file k)) :
    i < min (m * tftpBlockSize) file.length := by
  have stop := block_end positive inside
  rw [stop] at outside
  rcases Nat.lt_or_ge m k with next | again
  · have last : m = k - 1 := by omega
    rw [Nat.max_eq_right (Nat.le_of_lt next)] at below
    rw [last]
    omega
  · rw [Nat.max_eq_left again] at below
    exact below

theorem data_payload_opcode (file : List UInt8) (k : Nat) : read16 (dataPayload file k) 0 = 3 := by
  have high : dataPayload file k 0 = 0 := rfl
  have low : dataPayload file k 1 = 3 := rfl
  rw [read16, high, low]
  rfl

theorem data_payload_block (file : List UInt8) (k : Nat) :
    read16 (dataPayload file k) 2 = k % 2 ^ 16 := by
  have high : dataPayload file k 2 = UInt8.ofNat (k / 256) := rfl
  have low : dataPayload file k 3 = UInt8.ofNat k := rfl
  rw [read16, high, low, UInt8.toNat_ofNat', UInt8.toNat_ofNat']
  omega

theorem data_payload_byte (file : List UInt8) (k : Nat) :
    (fun i => dataPayload file k (4 + i)) = blockByte file k := by
  funext i
  have behind : ¬ 4 + i < 4 := by omega
  rw [dataPayload, if_neg behind, Nat.add_sub_cancel_left]

end Blocks

section Storing
variable {cfg : NetConfig} {file : List UInt8} {client : Client}

theorem store_block_load_addr (client : Client) (block : Nat) (src : Nat → UInt8) (len : Nat) :
    (storeBlock client block src len).loadAddr = client.loadAddr := rfl

theorem accept_block_store (cfg : NetConfig) (client : Client) (src : Nat → UInt8) (len : Nat) :
    (acceptBlock cfg client src len).mem =
        (storeBlock client ((client.tftpBlock + 2 ^ 32 - 1) % 2 ^ 32) src len).mem ∧
      (acceptBlock cfg client src len).netBootFileXferSize =
        (storeBlock client ((client.tftpBlock + 2 ^ 32 - 1) % 2 ^ 32) src len).netBootFileXferSize ∧
      (acceptBlock cfg client src len).loadAddr = client.loadAddr := by
  unfold acceptBlock
  generalize (client.tftpBlock + 2 ^ 32 - 1) % 2 ^ 32 = block
  simp only
  split
  · exact ⟨rfl, rfl, rfl⟩
  · exact ⟨rfl, rfl, rfl⟩

/-- A block of the file, stored at its place, extends what has been delivered. -/
theorem store_block_delivered {m k block : Nat} (small : file.length < 2 ^ 32)
    (delivered : Delivered file client m) (positive : 1 ≤ k) (inside : k ≤ blockCount file)
    (follows : k ≤ m + 1)
    (place : (block * tftpBlockSize + client.tftpBlockWrapOffset) % 2 ^ 32 =
      (k - 1) * tftpBlockSize) :
    Delivered file (storeBlock client block (blockByte file k) (blockLen file k)) (max m k) := by
  obtain ⟨bounded, size, bytes⟩ := delivered
  have stop := block_end positive inside
  have start := block_start_le inside positive
  have newsize : ((k - 1) * tftpBlockSize + blockLen file k) % 2 ^ 32 =
      min (k * tftpBlockSize) file.length := by
    rw [stop]
    omega
  have sizeAfter : (storeBlock client block (blockByte file k)
      (blockLen file k)).netBootFileXferSize = min (max m k * tftpBlockSize) file.length := by
    simp only [storeBlock, place, newsize, size]
    unfold tftpBlockSize
    split <;> omega
  refine ⟨by omega, sizeAfter, ?_⟩
  rw [sizeAfter]
  intro i below
  have range : i < 2 ^ 32 := by omega
  have stored := copy_offset (2 ^ 32) client.mem client.loadAddr ((k - 1) * tftpBlockSize)
    (blockByte file k) (blockLen file k) i (by omega) range
  show copy (2 ^ 32) client.mem (client.loadAddr + _) (blockByte file k) (blockLen file k)
    ((client.loadAddr + i) % 2 ^ 32) = _
  rw [place, stored]
  split
  · rename_i covered
    have index : (k - 1) * tftpBlockSize + (i - (k - 1) * tftpBlockSize) = i := by omega
    rw [blockByte, index]
  · rename_i outside
    apply bytes
    rw [size]
    exact block_covers positive inside follows below outside

/-- Within one turn of the counter, the number of a received block is not the number of the next
one. -/
theorem stale_number {cur m n : Nat} (received : n ≤ m) (sameTurn : m < n / 2 ^ 16 * 2 ^ 16 + 2 ^ 16)
    (atWrap : n % 2 ^ 16 = 0 → n = m) (sent : cur ≤ m + 1) (current : n % 2 ^ 16 = cur % 2 ^ 16) :
    cur ≤ m := by
  by_contra next
  have top : cur = m + 1 := by omega
  subst top
  by_cases start : n % 2 ^ 16 = 0
  · have same := atWrap start
    subst same
    omega
  · omega

/-- An ACK of the last block received never stands for a block that is not in memory. -/
theorem counting_ack {session : Session} {m n : Nat} (counting : Counting client session m n) :
    Counting client (receiveAck session (client.tftpBlock % 2 ^ 16)) m n := by
  obtain ⟨received, block, wrap, offset, sameTurn, atWrap, sent, acked⟩ := counting
  have number : n % 2 ^ 16 % 2 ^ 16 = n % 2 ^ 16 := Nat.mod_mod _ _
  unfold receiveAck
  rw [block, number]
  split
  · rename_i current
    exact ⟨received, block, wrap, offset, sameTurn, atWrap, sent, fun _ =>
      stale_number received sameTurn atWrap sent current⟩
  · exact ⟨received, block, wrap, offset, sameTurn, atWrap, sent, acked⟩

theorem block_place {k : Nat} (positive : 1 ≤ k) (small : (k - 1) * tftpBlockSize < 2 ^ 32) :
    ((k % 2 ^ 16 + 2 ^ 32 - 1) % 2 ^ 32 * tftpBlockSize + k / 2 ^ 16 * 2 ^ 25 % 2 ^ 32) % 2 ^ 32 =
      (k - 1) * tftpBlockSize := by
  unfold tftpBlockSize at *
  omega

theorem accept_block_frame (cfg : NetConfig) (client : Client) (src : Nat → UInt8) (len : Nat) :
    (acceptBlock cfg client src len).tftpServerPort = client.tftpServerPort ∧
      (acceptBlock cfg client src len).tftpState = client.tftpState ∧
      (acceptBlock cfg client src len).tftpBlock = client.tftpBlock ∧
      (acceptBlock cfg client src len).tftpLastBlock = client.tftpBlock ∧
      (acceptBlock cfg client src len).tftpBlockWrap = client.tftpBlockWrap ∧
      (acceptBlock cfg client src len).tftpBlockWrapOffset = client.tftpBlockWrapOffset ∧
      (acceptBlock cfg client src len).loop.netState =
        (if len < tftpBlockSize then .success else client.loop.netState) ∧
      (acceptBlock cfg client src len).sent =
        client.sent ++ [⟨client.tftpServerPort, tftpMessage cfg client⟩] := by
  unfold acceptBlock
  generalize (client.tftpBlock + 2 ^ 32 - 1) % 2 ^ 32 = block
  simp only
  split
  · exact ⟨rfl, rfl, rfl, rfl, rfl, rfl, rfl, rfl⟩
  · exact ⟨rfl, rfl, rfl, rfl, rfl, rfl, rfl, rfl⟩

theorem accept_block_delivered {m k : Nat} (small : file.length < 2 ^ 32)
    (delivered : Delivered file client m) (positive : 1 ≤ k) (inside : k ≤ blockCount file)
    (follows : k ≤ m + 1) (block : client.tftpBlock = k % 2 ^ 16)
    (offset : client.tftpBlockWrapOffset = k / 2 ^ 16 * 2 ^ 25 % 2 ^ 32) :
    Delivered file (acceptBlock cfg client (blockByte file k) (blockLen file k)) (max m k) := by
  have start := block_start_le inside positive
  have place : ((client.tftpBlock + 2 ^ 32 - 1) % 2 ^ 32 * tftpBlockSize +
      client.tftpBlockWrapOffset) % 2 ^ 32 = (k - 1) * tftpBlockSize := by
    rw [block, offset]
    exact block_place positive (Nat.lt_of_le_of_lt start small)
  have stored := store_block_delivered small delivered positive inside follows place
  obtain ⟨mem, size, load⟩ :=
    accept_block_store cfg client (blockByte file k) (blockLen file k)
  refine ⟨stored.bounded, size.trans stored.size, ?_⟩
  have bytes := stored.bytes
  rw [store_block_load_addr] at bytes
  rw [mem, size, load]
  exact bytes

theorem counting_congr {after : Client} {session : Session} {m n : Nat}
    (counting : Counting client session m n) (block : after.tftpBlock = client.tftpBlock)
    (wrap : after.tftpBlockWrap = client.tftpBlockWrap)
    (offset : after.tftpBlockWrapOffset = client.tftpBlockWrapOffset) :
    Counting after session m n :=
  ⟨counting.received, block.trans counting.block, wrap.trans counting.wrap,
    offset.trans counting.offset, counting.sameTurn, counting.atWrap, counting.sent, counting.acked⟩

theorem deliver_ack (server : Nat → Session) (port block : Nat) :
    deliver server ⟨port, .ack block⟩ port = receiveAck (server port) block :=
  Function.update_self _ _ _

theorem accept_block_inv {server : Nat → Session} {m k : Nat} (small : file.length < 2 ^ 32)
    (running : client.tftpState = .data) (delivered : Delivered file client m)
    (positive : 1 ≤ k) (inside : k ≤ blockCount file) (follows : k ≤ m + 1)
    (counting : Counting client (server client.tftpServerPort) (max m k) k)
    (success : client.loop.netState = .success → m = blockCount file) :
    Inv file ⟨acceptBlock cfg client (blockByte file k) (blockLen file k),
      deliver server ⟨client.tftpServerPort, .ack (client.tftpBlock % 2 ^ 16)⟩⟩ (max m k) := by
  have stored := @accept_block_delivered cfg file client m k small delivered positive inside follows
    counting.block counting.offset
  obtain ⟨port, state, block, last, wrap, offset, netState, _⟩ :=
    accept_block_frame cfg client (blockByte file k) (blockLen file k)
  generalize acceptBlock cfg client (blockByte file k) (blockLen file k) = after at *
  have counted : Counting after (deliver server
      ⟨client.tftpServerPort, .ack (client.tftpBlock % 2 ^ 16)⟩ after.tftpServerPort) (max m k) k := by
    rw [port, deliver_ack]
    exact counting_congr (counting_ack counting) block wrap offset
  refine ⟨stored, Or.inr ⟨state.trans running, k, last.trans counting.block, counted⟩, ?_⟩
  · intro done
    have bounded := delivered.bounded
    by_cases short : blockLen file k < tftpBlockSize
    · have whole := (block_short_iff positive inside).mp short
      omega
    · rw [netState, if_neg short] at done
      have complete := success done
      omega

theorem wrap_counted {k n : Nat} (positive : 1 ≤ k) (small : k < 2 ^ 32)
    (turn : n / 2 ^ 16 = (k - 1) / 2 ^ 16) :
    (k % 2 ^ 16 = 0 → (n / 2 ^ 16 + 1) % 2 ^ 32 = k / 2 ^ 16 ∧
      (n / 2 ^ 16 * 2 ^ 25 % 2 ^ 32 + 512 * 2 ^ 16) % 2 ^ 32 = k / 2 ^ 16 * 2 ^ 25 % 2 ^ 32) ∧
    (k % 2 ^ 16 ≠ 0 → n / 2 ^ 16 = k / 2 ^ 16) := by
  omega

/-- countBlock puts the counters where the block belongs. -/
theorem count_block_counted {k n : Nat} (positive : 1 ≤ k) (small : k < 2 ^ 32)
    (wrap : client.tftpBlockWrap = n / 2 ^ 16)
    (offset : client.tftpBlockWrapOffset = n / 2 ^ 16 * 2 ^ 25 % 2 ^ 32)
    (turn : client.tftpBlockWrap = (k - 1) / 2 ^ 16) :
    (countBlock client (k % 2 ^ 16)).tftpBlockWrap = k / 2 ^ 16 ∧
      (countBlock client (k % 2 ^ 16)).tftpBlockWrapOffset = k / 2 ^ 16 * 2 ^ 25 % 2 ^ 32 := by
  rw [wrap] at turn
  obtain ⟨atWrap, between⟩ := wrap_counted positive small turn
  unfold countBlock
  split
  · rename_i zero
    obtain ⟨count, place⟩ := atWrap zero
    rw [← wrap] at count
    rw [← offset] at place
    exact ⟨count, place⟩
  · rename_i nonzero
    have same := between nonzero
    rw [same] at wrap offset
    exact ⟨wrap, offset⟩

theorem count_block_keeps (client : Client) (block : Nat) :
    (countBlock client block).mem = client.mem ∧ (countBlock client block).sent = client.sent ∧
      (countBlock client block).tftpServerPort = client.tftpServerPort := by
  unfold countBlock
  split
  · exact ⟨rfl, rfl, rfl⟩
  · exact ⟨rfl, rfl, rfl⟩

theorem delivered_congr {after : Client} {m : Nat} (delivered : Delivered file client m)
    (size : after.netBootFileXferSize = client.netBootFileXferSize)
    (load : after.loadAddr = client.loadAddr) (mem : after.mem = client.mem) :
    Delivered file after m := by
  refine ⟨delivered.bounded, size.trans delivered.size, ?_⟩
  rw [size, load, mem]
  exact delivered.bytes

theorem count_block_delivered {m : Nat} (delivered : Delivered file client m) (block : Nat) :
    Delivered file (countBlock client block) m := by
  obtain ⟨_, size, load, _⟩ := count_block_frame client block
  exact delivered_congr delivered size load (count_block_keeps client block).1

/-- The counters for a block of the running turn, from those of the block before it. -/
theorem counting_next {session : Session} {after : Client} {m n k : Nat}
    (counting : Counting client session m n) (positive : 1 ≤ k) (follows : k ≤ m + 1)
    (turn : client.tftpBlockWrap = (k - 1) / 2 ^ 16) (block : after.tftpBlock = k % 2 ^ 16)
    (wrap : after.tftpBlockWrap = k / 2 ^ 16)
    (offset : after.tftpBlockWrapOffset = k / 2 ^ 16 * 2 ^ 25 % 2 ^ 32) :
    Counting after session (max m k) k := by
  have sameTurn := counting.sameTurn
  have sent := counting.sent
  have acked := counting.acked
  rw [counting.wrap] at turn
  refine ⟨by omega, block, wrap, offset, by omega, by omega, by omega, fun yes => ?_⟩
  have held := acked yes
  omega

/-- The number of the last block again is that block again. -/
theorem same_number {m n k : Nat} (positive : 1 ≤ k) (follows : k ≤ m + 1)
    (turn : n / 2 ^ 16 = (k - 1) / 2 ^ 16) (atWrap : n % 2 ^ 16 = 0 → n = m)
    (same : k % 2 ^ 16 = n % 2 ^ 16) : k = n := by
  by_cases start : n % 2 ^ 16 = 0
  · have top := atWrap start
    omega
  · omega

theorem sent_one (client after : Client) (packet : SentPacket)
    (sent : after.sent = client.sent ++ [packet]) (server : Nat → Session) :
    (after.sent.drop client.sent.length).foldl deliver server = deliver server packet := by
  rw [sent, List.drop_left]
  rfl

theorem sent_none (client after : Client) (sent : after.sent = client.sent)
    (server : Nat → Session) : (after.sent.drop client.sent.length).foldl deliver server = server := by
  rw [sent, List.drop_length]
  rfl

theorem block_count_small (small : file.length < 2 ^ 32) : blockCount file < 2 ^ 32 := by
  unfold blockCount tftpBlockSize
  omega

theorem ack_message (running : client.tftpState = .data) :
    tftpMessage cfg client = .ack (client.tftpBlock % 2 ^ 16) := by
  rw [tftpMessage, running]

/-- DATA for a running transfer, in its turn. -/
theorem tftp_data_running {server : Nat → Session} {m n k port : Nat}
    (small : file.length < 2 ^ 32) (running : client.tftpState = .data)
    (delivered : Delivered file client m) (last : client.tftpLastBlock = n % 2 ^ 16)
    (counting : Counting client (server client.tftpServerPort) m n)
    (success : client.loop.netState = .success → m = blockCount file)
    (positive : 1 ≤ k) (inside : k ≤ blockCount file)
    (offered : k ≤ (server client.tftpServerPort).cur)
    (turn : client.tftpBlockWrap = (k - 1) / 2 ^ 16) :
    ∃ m', Inv file ⟨tftpData cfg client (k % 2 ^ 16) port (blockByte file k) (blockLen file k),
      ((tftpData cfg client (k % 2 ^ 16) port (blockByte file k) (blockLen file k)).sent.drop
        client.sent.length).foldl deliver server⟩ m' := by
  have follows : k ≤ m + 1 := Nat.le_trans offered counting.sent
  have bound := Nat.lt_of_le_of_lt inside (block_count_small small)
  obtain ⟨wrap, offset⟩ := count_block_counted positive bound counting.wrap counting.offset turn
  obtain ⟨_, _, _, loop, state, lastBlock, block⟩ := count_block_frame client (k % 2 ^ 16)
  obtain ⟨_, sent, server_port⟩ := count_block_keeps client (k % 2 ^ 16)
  have kept := count_block_delivered delivered (k % 2 ^ 16)
  have next := counting_next counting positive follows turn block wrap offset
  have notFirst : ¬ ((countBlock client (k % 2 ^ 16)).tftpState = .rrq ∨
      (countBlock client (k % 2 ^ 16)).tftpState = .oack) := by
    rw [state, running]
    decide
  have done : (countBlock client (k % 2 ^ 16)).loop.netState = .success → m = blockCount file := by
    rw [loop]
    exact success
  have result : tftpData cfg client (k % 2 ^ 16) port (blockByte file k) (blockLen file k) =
      if k % 2 ^ 16 = (countBlock client (k % 2 ^ 16)).tftpLastBlock then
        countBlock client (k % 2 ^ 16)
      else acceptBlock cfg (countBlock client (k % 2 ^ 16)) (blockByte file k) (blockLen file k) := by
    rw [tftpData, if_neg notFirst]
  rw [result]
  generalize countBlock client (k % 2 ^ 16) = counted at *
  split
  -- The last block again is dropped.
  · rename_i again
    rw [lastBlock, last] at again
    have same : k = n := same_number positive follows (counting.wrap.symm.trans turn)
      counting.atWrap again
    have top : max m k = m := by
      have received := counting.received
      omega
    rw [sent_none client counted sent]
    rw [top, same] at next
    refine ⟨m, kept, Or.inr ⟨state.trans running, n, lastBlock.trans last, ?_⟩, done⟩
    rw [server_port]
    exact next
  -- A new block is stored and acknowledged.
  · have accepted := @accept_block_inv cfg file counted server m k small (state.trans running) kept
      positive inside follows (by rw [server_port]; exact next) done
    obtain ⟨_, _, _, _, _, _, _, acknowledged⟩ :=
      accept_block_frame cfg counted (blockByte file k) (blockLen file k)
    rw [sent, ack_message (state.trans running)] at acknowledged
    rw [sent_one client _ _ acknowledged]
    exact ⟨max m k, accepted⟩

/-- The client when it takes DATA 1 as the first block. -/
def begun (client : Client) (port : Nat) : Client :=
  { client with
    tftpBlock := 1
    tftpState := .data
    tftpServerPort := port
    tftpLastBlock := 0
    tftpBlockWrap := 0
    tftpBlockWrapOffset := 0 }

theorem tftp_data_one (idle : client.tftpState = .rrq ∨ client.tftpState = .oack) (port : Nat)
    (src : Nat → UInt8) (len : Nat) :
    tftpData cfg client 1 port src len = acceptBlock cfg (begun client port) src len := by
  have counted : countBlock client 1 = { client with tftpBlock := 1 } := rfl
  have idleStill : ({ client with tftpBlock := 1 } : Client).tftpState = .rrq ∨
      ({ client with tftpBlock := 1 } : Client).tftpState = .oack := idle
  have first : ¬ (1 : Nat) ≠ 1 := by decide
  have fresh : ¬ (1 : Nat) = 0 := by decide
  rw [tftpData, counted, if_pos idleStill, if_neg first, if_neg fresh]
  rfl

/-- DATA 1, the first packet that is accepted. -/
theorem tftp_data_first {server : Nat → Session} {m port : Nat} (small : file.length < 2 ^ 32)
    (idle : client.tftpState = .rrq ∨ client.tftpState = .oack)
    (delivered : Delivered file client m) (waiting : Waiting ⟨client, server⟩ m)
    (success : client.loop.netState = .success → m = blockCount file) :
    ∃ m', Inv file ⟨tftpData cfg client 1 port (blockByte file 1) (blockLen file 1),
      ((tftpData cfg client 1 port (blockByte file 1) (blockLen file 1)).sent.drop
        client.sent.length).foldl deliver server⟩ m' := by
  have zero : m = 0 := waiting.nothing
  subst zero
  have session : server port = newSession := waiting.fresh port
  have counting : Counting (begun client port) (server (begun client port).tftpServerPort)
      (max 0 1) 1 := by
    show Counting (begun client port) (server port) 1 1
    rw [session]
    exact ⟨by decide, rfl, rfl, rfl, by decide, by decide, by decide, by decide⟩
  have started : Delivered file (begun client port) 0 := delivered_congr delivered rfl rfl rfl
  have inside : 1 ≤ blockCount file := Nat.le_add_left 1 _
  have accepted := @accept_block_inv cfg file (begun client port) server 0 1 small rfl started
    (Nat.le_refl 1) inside (Nat.le_refl 1) counting success
  obtain ⟨_, _, _, _, _, _, _, acknowledged⟩ :=
    accept_block_frame cfg (begun client port) (blockByte file 1) (blockLen file 1)
  rw [ack_message (show (begun client port).tftpState = .data from rfl)] at acknowledged
  rw [tftp_data_one idle, sent_one client _ _ acknowledged]
  exact ⟨max 0 1, accepted⟩

end Storing

section Turns
variable {cfg : NetConfig} {file : List UInt8} {client : Client} {server : Nat → Session}

/-- Everything a turn leaves of the counters keeps the invariant. -/
theorem inv_congr {after : Client} {m : Nat} (inv : Inv file ⟨client, server⟩ m)
    (delivered : Delivered file after m) (state : after.tftpState = client.tftpState)
    (port : after.tftpServerPort = client.tftpServerPort)
    (block : after.tftpBlock = client.tftpBlock)
    (last : after.tftpLastBlock = client.tftpLastBlock)
    (wrap : after.tftpBlockWrap = client.tftpBlockWrap)
    (offset : after.tftpBlockWrapOffset = client.tftpBlockWrapOffset)
    (success : after.loop.netState = .success → client.loop.netState = .success) :
    Inv file ⟨after, server⟩ m := by
  obtain ⟨_, phase, done⟩ := inv
  refine ⟨delivered, ?_, fun reported => done (success reported)⟩
  rcases phase with ⟨idle, waiting⟩ | ⟨running, n, number, counting⟩
  · left
    refine ⟨?_, waiting.nothing, block.trans waiting.block, waiting.fresh⟩
    show after.tftpState = .rrq ∨ after.tftpState = .oack
    rw [state]
    exact idle
  · right
    refine ⟨state.trans running, n, last.trans number, ?_⟩
    show Counting after (server after.tftpServerPort) m n
    rw [port]
    exact counting_congr counting block wrap offset

theorem deliver_fresh (fresh : ∀ other, server other = newSession) (port : Nat) :
    ∀ other, deliver server ⟨port, .ack 0⟩ other = newSession := by
  intro other
  by_cases same : other = port
  · subst same
    rw [deliver_ack, fresh]
    rfl
  · exact (Function.update_of_ne same _ _).trans (fresh other)

/-- What the client sends does not mislead the server. -/
theorem deliver_inv {m : Nat} (inv : Inv file ⟨client, server⟩ m) :
    Inv file ⟨client, deliver server ⟨client.tftpServerPort, tftpMessage cfg client⟩⟩ m := by
  obtain ⟨delivered, phase, done⟩ := inv
  refine ⟨delivered, ?_, done⟩
  rcases phase with ⟨idle, waiting⟩ | ⟨running, n, number, counting⟩
  · left
    refine ⟨idle, waiting.nothing, waiting.block, ?_⟩
    have fresh : ∀ other, server other = newSession := waiting.fresh
    have block : client.tftpBlock = 0 := waiting.block
    rcases idle with rrq | oack
    · have message : tftpMessage cfg client = .rrq cfg.tftpFilename tftpTimeoutSeconds := by
        rw [tftpMessage, show client.tftpState = .rrq from rrq]
      rw [message]
      exact fresh
    · have message : tftpMessage cfg client = .ack 0 := by
        rw [tftpMessage, show client.tftpState = .oack from oack, block]
        rfl
      rw [message]
      exact deliver_fresh fresh client.tftpServerPort
  · right
    have counted := counting_ack counting
    rw [← deliver_ack] at counted
    refine ⟨running, n, number, ?_⟩
    rw [ack_message running]
    exact counted

theorem start_again_inv {m : Nat} (inv : Inv file ⟨client, server⟩ m) :
    Inv file ⟨startAgain cfg client, server⟩ m :=
  inv_congr inv (delivered_congr inv.delivered rfl rfl rfl) rfl rfl rfl rfl rfl rfl
    (net_start_again_state cfg client.loop)

theorem receive_data (cfg : NetConfig) (file : List UInt8) (client : Client) (k port : Nat) :
    netStep cfg client (.receive (dataPayload file k) client.tftpOurPort port (4 + blockLen file k)) =
      some (if client.loop.packetHandler = .startAgainHandler ∨
          client.tftpState ≠ .rrq ∧ port ≠ client.tftpServerPort then client
        else tftpData cfg client (k % 2 ^ 16) port (blockByte file k) (blockLen file k)) := by
  have opcode := data_payload_opcode file k
  have number := data_payload_block file k
  have bytes := data_payload_byte file k
  have long : ¬ 4 + blockLen file k < 2 := by omega
  have behind : ¬ 4 + blockLen file k - 2 < 2 := by omega
  have rest : 4 + blockLen file k - 4 = blockLen file k := Nat.add_sub_cancel_left _ _
  cases handler : client.loop.packetHandler with
  | startAgainHandler => simp only [netStep, handler, true_or, if_true]
  | tftpHandler =>
      simp only [netStep, handler, tftpHandler, ne_eq, not_true_eq_false, if_false, long, opcode,
        behind, number, bytes, rest]
      split
      · rename_i foreign
        rw [if_pos (Or.inr foreign)]
      · rename_i ours
        rw [if_neg (by simpa using ours)]

theorem receive_oack (cfg : NetConfig) (client : Client) (options : List UInt8) (port : Nat) :
    netStep cfg client (.receive (oackPayload options) client.tftpOurPort port
      (2 + options.length)) =
      some (if client.loop.packetHandler = .startAgainHandler ∨
          client.tftpState ≠ .rrq ∧ port ≠ client.tftpServerPort then client
        else tftpSend cfg { client with tftpState := .oack, tftpServerPort := port }) := by
  have opcode : read16 (oackPayload options) 0 = 6 := by
    have high : oackPayload options 0 = 0 := rfl
    have low : oackPayload options 1 = 6 := rfl
    rw [read16, high, low]
    rfl
  have long : ¬ 2 + options.length < 2 := by omega
  cases handler : client.loop.packetHandler with
  | startAgainHandler => simp only [netStep, handler, true_or, if_true]
  | tftpHandler =>
      simp only [netStep, handler, tftpHandler, ne_eq, not_true_eq_false, if_false, long, opcode]
      split
      · rename_i foreign
        rw [if_pos (Or.inr foreign)]
      · rename_i ours
        rw [if_neg (by simpa using ours)]

theorem turn_inv {event : NetEvent} {after : Transfer} {m : Nat}
    (turn : clientTurn cfg ⟨client, server⟩ event after) {next : Client}
    (step : netStep cfg client event = some next)
    (inv : Inv file ⟨next, (next.sent.drop client.sent.length).foldl deliver server⟩ m) :
    ∃ m, Inv file after m := by
  obtain ⟨reached, stepped, same⟩ := turn
  have agree : next = reached := Option.some.inj (step.symm.trans stepped)
  rw [same, ← agree]
  exact ⟨m, inv⟩

/-- A turn that sends nothing. -/
theorem silent_inv {next : Client} {m : Nat} (sent : next.sent = client.sent)
    (inv : Inv file ⟨next, server⟩ m) :
    Inv file ⟨next, (next.sent.drop client.sent.length).foldl deliver server⟩ m := by
  rw [sent_none client next sent]
  exact inv

/-- A turn that ends with TftpSend. -/
theorem send_inv {next : Client} {m : Nat} (sent : next.sent = client.sent)
    (inv : Inv file ⟨next, server⟩ m) :
    Inv file ⟨tftpSend cfg next,
      ((tftpSend cfg next).sent.drop client.sent.length).foldl deliver server⟩ m := by
  have one : (tftpSend cfg next).sent =
      client.sent ++ [⟨next.tftpServerPort, tftpMessage cfg next⟩] := by
    rw [← sent]
    rfl
  rw [sent_one client _ _ one]
  have delivered := @deliver_inv cfg file next server m inv
  exact inv_congr delivered (delivered_congr delivered.delivered rfl rfl rfl) rfl rfl rfl rfl rfl rfl
    (fun done => done)

theorem oack_inv {m port : Nat} (inv : Inv file ⟨client, server⟩ m)
    (early : client.tftpState = .rrq ∨ client.tftpState = .oack) :
    Inv file ⟨{ client with tftpState := .oack, tftpServerPort := port }, server⟩ m := by
  obtain ⟨delivered, phase, done⟩ := inv
  refine ⟨delivered_congr delivered rfl rfl rfl, ?_, done⟩
  rcases phase with ⟨_, waiting⟩ | ⟨running, _⟩
  · exact Or.inl ⟨Or.inr rfl, waiting.nothing, waiting.block, waiting.fresh⟩
  · have data : client.tftpState = .data := running
    rw [data] at early
    rcases early with rrq | oack
    · contradiction
    · contradiction

theorem timeout_inv {m : Nat} (inv : Inv file ⟨client, server⟩ m) (bootMem : Nat → UInt8)
    (calm : cfg.fwRecovery ≠ 0 → timeoutCount < client.tftpTimeoutCount + 1 →
      client.netBootFileXferSize = 0) :
    Inv file ⟨tftpTimeout cfg client bootMem,
      ((tftpTimeout cfg client bootMem).sent.drop client.sent.length).foldl deliver server⟩ m := by
  unfold tftpTimeout
  simp only
  split
  · rename_i exceeded
    split
    · rename_i recovery
      have empty := calm recovery exceeded
      refine silent_inv rfl (start_again_inv ?_)
      refine inv_congr inv ⟨inv.delivered.bounded, inv.delivered.size, fun i below => ?_⟩ rfl rfl rfl
        rfl rfl rfl (fun done => done)
      have nothing : i < client.netBootFileXferSize := below
      omega
    · refine silent_inv rfl (start_again_inv ?_)
      exact inv_congr inv (delivered_congr inv.delivered rfl rfl rfl) rfl rfl rfl rfl rfl rfl
        (fun done => done)
  · refine send_inv rfl ?_
    exact inv_congr inv (delivered_congr inv.delivered rfl rfl rfl) rfl rfl rfl rfl rfl rfl
      (fun done => done)

theorem tftp_start_inv (timer : Nat) (running : client.loop.netState ≠ .success) :
    Inv file ⟨tftpStart cfg client timer, fun _ => newSession⟩ 0 := by
  refine ⟨⟨Nat.zero_le _, ?_, fun i below => absurd below (Nat.not_lt_zero i)⟩,
    Or.inl ⟨Or.inl rfl, rfl, rfl, fun _ => rfl⟩, fun done => absurd done running⟩
  rw [Nat.zero_mul, Nat.zero_min]
  rfl

/-- No answer goes past the end of the file. -/
def InFile (file : List UInt8) (server : Nat → Session) : Prop :=
  ∀ port, (server port).cur ≤ blockCount file

theorem new_session_in_file (file : List UInt8) : InFile file fun _ => newSession :=
  fun _ => Nat.le_add_left 1 _

theorem deliver_cur (server : Nat → Session) (packet : SentPacket) (port : Nat) :
    (deliver server packet port).cur = (server port).cur := by
  cases message : packet.message with
  | ack block =>
      simp only [deliver, message]
      by_cases same : port = packet.port
      · subst same
        rw [Function.update_self, receiveAck]
        split
        · rfl
        · rfl
      · rw [Function.update_of_ne same]
  | rrq _ _ => simp only [deliver, message]
  | error _ _ => simp only [deliver, message]

theorem deliver_all_cur (packets : List SentPacket) (server : Nat → Session) (port : Nat) :
    (packets.foldl deliver server port).cur = (server port).cur := by
  induction packets generalizing server with
  | nil => rfl
  | cons packet rest ih =>
      rw [List.foldl_cons, ih]
      exact deliver_cur server packet port

theorem deliver_in_file (inFile : InFile file server) (packets : List SentPacket) :
    InFile file (packets.foldl deliver server) := by
  intro port
  rw [deliver_all_cur]
  exact inFile port

theorem turn_in_file {event : NetEvent} {after : Transfer} (inFile : InFile file server)
    (turn : clientTurn cfg ⟨client, server⟩ event after) : InFile file after.server := by
  obtain ⟨next, _, same⟩ := turn
  rw [same]
  exact deliver_in_file inFile _

theorem transfer_step_in_file {before after : Transfer} {event : TransferEvent}
    (inFile : InFile file before.server) (step : transferStep cfg file before event after) :
    InFile file after.server := by
  cases event with
  | data port k => exact turn_in_file inFile step.2.2
  | oack port options => exact turn_in_file inFile step
  | advance port =>
      obtain ⟨_, more, same⟩ := step
      intro other
      rw [same]
      by_cases here : other = port
      · subst here
        simp only [Function.update_self]
        exact more
      · simp only [Function.update_of_ne here]
        exact inFile other
  | timeout bootMem => exact turn_in_file inFile step
  | arpTimeout => exact turn_in_file inFile step
  | poll prereq timer =>
      simp only [transferStep] at step
      split at step
      · obtain ⟨_, _, same⟩ := step
        rw [same]
        exact new_session_in_file file
      · exact turn_in_file inFile step

/-- A DATA packet for the client, whatever it is doing. -/
theorem data_step_inv {after : Transfer} {m port k : Nat} (small : file.length < 2 ^ 32)
    (inv : Inv file ⟨client, server⟩ m) (inFile : InFile file server)
    (turn : ForTransfer client port → client.tftpBlockWrap = (k - 1) / 2 ^ 16)
    (step : transferStep cfg file ⟨client, server⟩ (.data port k) after) :
    ∃ m, Inv file after m := by
  obtain ⟨positive, offered, taken⟩ := step
  have inside : k ≤ blockCount file := Nat.le_trans offered (inFile port)
  have received := receive_data cfg file client k port
  split at received
  · exact turn_inv taken received (silent_inv rfl inv)
  · rename_i ours
    have handled : client.loop.packetHandler = .tftpHandler := by
      cases handler : client.loop.packetHandler with
      | tftpHandler => rfl
      | startAgainHandler => exact absurd (Or.inl handler) ours
    rcases inv.phase with ⟨idle, waiting⟩ | ⟨running, n, last, counting⟩
    · have fresh : (server port).cur = 1 := by rw [show server port = _ from waiting.fresh port]; rfl
      have first : k = 1 := Nat.le_antisymm (Nat.le_trans offered (Nat.le_of_eq fresh)) positive
      subst first
      obtain ⟨m', next⟩ := @tftp_data_first cfg file client server m port small idle inv.delivered
        waiting inv.success
      exact turn_inv taken received next
    · have served : port = client.tftpServerPort := by
        by_contra foreign
        refine ours (Or.inr ⟨?_, foreign⟩)
        rw [show client.tftpState = .data from running]
        decide
      subst served
      obtain ⟨m', next⟩ := @tftp_data_running cfg file client server m n k client.tftpServerPort small
        running inv.delivered last counting inv.success positive inside offered
        (turn ⟨handled, running, rfl⟩)
      exact turn_inv taken received next

theorem oack_step_inv {after : Transfer} {m port : Nat} {options : List UInt8}
    (inv : Inv file ⟨client, server⟩ m) (early : ¬ ForTransfer client port)
    (step : transferStep cfg file ⟨client, server⟩ (.oack port options) after) :
    ∃ m, Inv file after m := by
  have received := receive_oack cfg client options port
  split at received
  · exact turn_inv step received (silent_inv rfl inv)
  · rename_i ours
    have idle : client.tftpState = .rrq ∨ client.tftpState = .oack := by
      rcases inv.phase with ⟨idle, _⟩ | ⟨running, _⟩
      · exact idle
      · have data : client.tftpState = .data := running
        have handled : client.loop.packetHandler = .tftpHandler := by
          cases handler : client.loop.packetHandler with
          | tftpHandler => rfl
          | startAgainHandler => exact absurd (Or.inl handler) ours
        have served : port = client.tftpServerPort := by
          by_contra foreign
          refine ours (Or.inr ⟨?_, foreign⟩)
          rw [data]
          decide
        exact absurd ⟨handled, data, served⟩ early
    refine turn_inv step received (send_inv ?_ (oack_inv inv idle))
    rfl

/-- The server sends its next block once the one before it is acknowledged. -/
theorem advance_step_inv {after : Transfer} {m port : Nat} (inv : Inv file ⟨client, server⟩ m)
    (step : transferStep cfg file ⟨client, server⟩ (.advance port) after) :
    ∃ m, Inv file after m := by
  obtain ⟨acked, _, same⟩ := step
  obtain ⟨delivered, phase, done⟩ := inv
  rw [same]
  refine ⟨m, delivered, ?_, done⟩
  rcases phase with ⟨idle, waiting⟩ | ⟨running, n, last, counting⟩
  · have fresh : server port = newSession := waiting.fresh port
    have notAcked : (server port).acked = true := acked
    rw [fresh] at notAcked
    cases notAcked
  · refine Or.inr ⟨running, n, last, ?_⟩
    show Counting client (Function.update server port ⟨(server port).cur + 1, false⟩
      client.tftpServerPort) m n
    by_cases here : client.tftpServerPort = port
    · rw [here, Function.update_self]
      rw [show (⟨client, server⟩ : Transfer).client.tftpServerPort = port from here] at counting
      have held : (server port).cur ≤ m := counting.acked acked
      exact ⟨counting.received, counting.block, counting.wrap, counting.offset, counting.sameTurn,
        counting.atWrap, Nat.succ_le_succ held, fun never => by cases never⟩
    · rw [Function.update_of_ne here]
      exact counting

theorem timeout_step_inv {after : Transfer} {m : Nat} {bootMem : Nat → UInt8}
    (inv : Inv file ⟨client, server⟩ m)
    (calm : GivesUp cfg client → client.netBootFileXferSize = 0)
    (step : transferStep cfg file ⟨client, server⟩ (.timeout bootMem) after) :
    ∃ m, Inv file after m := by
  have fired : Inv file ⟨{ client with loop := { client.loop with timeHandler := none } }, server⟩ m :=
    inv_congr inv (delivered_congr inv.delivered rfl rfl rfl) rfl rfl rfl rfl rfl rfl
      (fun done => done)
  cases armed : client.loop.timeHandler with
  | none =>
      have idle : netStep cfg client (.timeout bootMem) = some client := by
        simp only [netStep, armed]
      exact turn_inv step idle (silent_inv rfl inv)
  | some handler =>
      cases handler with
      | tftpTimeout =>
          have next : netStep cfg client (.timeout bootMem) = some (tftpTimeout cfg
              { client with loop := { client.loop with timeHandler := none } } bootMem) := by
            simp only [netStep, armed]
          refine turn_inv step next (timeout_inv fired bootMem ?_)
          intro recovery exceeded
          exact calm ⟨armed, recovery, exceeded⟩
      | startAgainTimeout =>
          have next : netStep cfg client (.timeout bootMem) = some { client with
              loop := { client.loop with timeHandler := none, netState := .restart } } := by
            simp only [netStep, armed]
          refine turn_inv (m := m) step next (silent_inv rfl ?_)
          exact inv_congr inv (delivered_congr inv.delivered rfl rfl rfl) rfl rfl rfl rfl rfl rfl
            (fun done => by cases done)

theorem poll_step_inv {after : Transfer} {m : Nat} {prereq : Prereq} {timer : Nat}
    (inv : Inv file ⟨client, server⟩ m)
    (step : transferStep cfg file ⟨client, server⟩ (.poll prereq timer) after) :
    ∃ m, Inv file after m := by
  -- Once NetLoop has ended there is no further turn.
  have refused : netStep cfg client (.poll prereq timer) = none → ¬ clientTurn cfg
      ⟨client, server⟩ (.poll prereq timer) after := by
    rintro stop ⟨next, ran, _⟩
    rw [show netStep cfg client (.poll prereq timer) = some next from ran] at stop
    cases stop
  cases state : client.loop.netState with
  | «continue» =>
      simp only [transferStep, state] at step
      exact turn_inv step (by simp only [netStep, state]) (silent_inv rfl inv)
  | success =>
      simp only [transferStep, state] at step
      exact absurd step (refused (by simp only [netStep, state]))
  | fail =>
      simp only [transferStep, state] at step
      exact absurd step (refused (by simp only [netStep, state]))
  | restart =>
      cases prereq with
      | ok =>
          simp only [transferStep, state] at step
          obtain ⟨next, ran, same⟩ := step
          simp only [netStep, state, netRestart] at ran
          rw [same, ← Option.some.inj ran]
          exact ⟨0, tftp_start_inv timer (fun done => by cases done)⟩
      | notConfigured =>
          simp only [transferStep, state] at step
          exact absurd step (refused (by simp only [netStep, state, netRestart]))
      | deviceNotConfigured =>
          simp only [transferStep, state] at step
          have again : netStep cfg client (.poll .deviceNotConfigured timer) =
              some (startAgain cfg { client with
                loop := { client.loop with netState := .continue, netRestarted := true } }) := by
            simp only [netStep, state, netRestart]
          refine turn_inv (m := m) step again (silent_inv rfl ?_)
          refine start_again_inv ?_
          exact inv_congr inv (delivered_congr inv.delivered rfl rfl rfl) rfl rfl rfl rfl rfl rfl
            (fun done => by cases done)

theorem transfer_step_inv {before after : Transfer} {event : TransferEvent} {m : Nat}
    (small : file.length < 2 ^ 32) (inv : Inv file before m) (inFile : InFile file before.server)
    (turn : InTurn cfg before event) (step : transferStep cfg file before event after) :
    ∃ m, Inv file after m := by
  obtain ⟨client, server⟩ := before
  cases event with
  | data port k => exact data_step_inv small inv inFile turn step
  | oack port options => exact oack_step_inv inv turn step
  | advance port => exact advance_step_inv inv step
  | timeout bootMem => exact timeout_step_inv inv turn step
  | arpTimeout => exact turn_inv step rfl (silent_inv rfl (start_again_inv inv))
  | poll prereq timer => exact poll_step_inv inv step

/-- However the packets of the transfer are duplicated, delayed and lost, a success leaves the
file in memory, as long as every step is in its turn. -/
theorem success_file_stored {first : Client} {last : Transfer} {events : List TransferEvent}
    (timer : Nat) (small : file.length < 2 ^ 32) (fresh : first.loop.netState = .continue)
    (run : Run (Guarded (InTurn cfg) (transferStep cfg file))
      ⟨tftpStart cfg first timer, fun _ => newSession⟩ events last)
    (done : last.client.loop.netState = .success) :
    last.client.netBootFileXferSize = file.length ∧ ∀ i, i < file.length →
      last.client.mem ((last.client.loadAddr + i) % 2 ^ 32) = file.getD i 0 := by
  have start : Inv file ⟨tftpStart cfg first timer, fun _ => newSession⟩ 0 :=
    tftp_start_inv timer (by rw [fresh]; decide)
  have keeps : ∀ before event after, ((∃ m, Inv file before m) ∧ InFile file before.server) →
      Guarded (InTurn cfg) (transferStep cfg file) before event after →
      (∃ m, Inv file after m) ∧ InFile file after.server := by
    rintro before event after ⟨⟨m, inv⟩, inFile⟩ ⟨turn, step⟩
    exact ⟨transfer_step_inv small inv inFile turn step, transfer_step_in_file inFile step⟩
  obtain ⟨⟨m, inv⟩, _⟩ := run_preserves _ _ keeps run ⟨⟨0, start⟩, new_session_in_file file⟩
  have whole := inv.success done
  have size : last.client.netBootFileXferSize = file.length := by
    rw [inv.delivered.size, whole]
    unfold blockCount tftpBlockSize
    omega
  refine ⟨size, fun i below => inv.delivered.bytes i ?_⟩
  rw [size]
  exact below

end Turns

section Running

def takeTurn (cfg : NetConfig) (before : Transfer) (event : NetEvent) : Option Transfer :=
  (netStep cfg before.client event).map fun client =>
    ⟨client, (client.sent.drop before.client.sent.length).foldl deliver before.server⟩

/-- transferStep as a function. -/
def nextTransfer (cfg : NetConfig) (file : List UInt8) (before : Transfer) :
    TransferEvent → Option Transfer
  | .data port k =>
      if 1 ≤ k ∧ k ≤ (before.server port).cur then
        takeTurn cfg before (.receive (dataPayload file k) before.client.tftpOurPort port
          (4 + blockLen file k))
      else none
  | .oack port options =>
      takeTurn cfg before (.receive (oackPayload options) before.client.tftpOurPort port
        (2 + options.length))
  | .advance port =>
      if (before.server port).acked = true ∧ (before.server port).cur < blockCount file then
        some ⟨before.client, Function.update before.server port ⟨(before.server port).cur + 1, false⟩⟩
      else none
  | .timeout bootMem => takeTurn cfg before (.timeout bootMem)
  | .arpTimeout => takeTurn cfg before .arpTimeout
  | .poll prereq timer =>
      match before.client.loop.netState, prereq with
      | .restart, .ok => (netStep cfg before.client (.poll prereq timer)).map fun client =>
          ⟨client, fun _ => newSession⟩
      | _, _ => takeTurn cfg before (.poll prereq timer)

def runTransfer (cfg : NetConfig) (file : List UInt8) :
    Transfer → List TransferEvent → Option Transfer
  | transfer, [] => some transfer
  | transfer, event :: rest =>
      (nextTransfer cfg file transfer event).bind fun next => runTransfer cfg file next rest

theorem take_turn_turn {cfg : NetConfig} {before after : Transfer} {event : NetEvent}
    (taken : takeTurn cfg before event = some after) : clientTurn cfg before event after := by
  obtain ⟨client, step, same⟩ := Option.map_eq_some_iff.mp taken
  exact ⟨client, step, same.symm⟩

theorem next_transfer_step {cfg : NetConfig} {file : List UInt8} {before after : Transfer}
    {event : TransferEvent} (next : nextTransfer cfg file before event = some after) :
    transferStep cfg file before event after := by
  cases event with
  | data port k =>
      simp only [nextTransfer] at next
      split at next
      · rename_i offered
        exact ⟨offered.1, offered.2, take_turn_turn next⟩
      · contradiction
  | oack port options => exact take_turn_turn next
  | advance port =>
      simp only [nextTransfer] at next
      split at next
      · rename_i more
        exact ⟨more.1, more.2, (Option.some.inj next).symm⟩
      · contradiction
  | timeout bootMem => exact take_turn_turn next
  | arpTimeout => exact take_turn_turn next
  | poll prereq timer =>
      simp only [nextTransfer] at next
      simp only [transferStep]
      split at next
      · obtain ⟨client, step, same⟩ := Option.map_eq_some_iff.mp next
        exact ⟨client, step, same.symm⟩
      · exact take_turn_turn next

theorem run_transfer_run {cfg : NetConfig} {file : List UInt8} {transfer last : Transfer}
    {events : List TransferEvent} (ran : runTransfer cfg file transfer events = some last) :
    Run (transferStep cfg file) transfer events last := by
  induction events generalizing transfer with
  | nil =>
      injection ran with same
      rw [same]
      exact Run.refl last
  | cons event rest ih =>
      obtain ⟨next, step, later⟩ := Option.bind_eq_some_iff.mp ran
      exact Run.next (next_transfer_step step) (ih later)

def requested (cfg : NetConfig) : Transfer := ⟨tftpStart cfg idleClient 0, fun _ => newSession⟩

/-- A file of three bytes. -/
theorem short_file_transfer : ∃ last,
    runTransfer (plainNet 0) [1, 2, 3] (requested (plainNet 0)) [.data 2000 1] = some last ∧
      last.client.loop.netState = .success ∧ last.client.netBootFileXferSize = 3 := by
  have turn : InTurn (plainNet 0) (requested (plainNet 0)) (.data 2000 1) :=
    fun running => absurd running.running (by decide)
  have ends : ((runTransfer (plainNet 0) [1, 2, 3] (requested (plainNet 0))
      [.data 2000 1]).map fun last => last.client.loop.netState) = some .success := by
    decide +kernel
  obtain ⟨last, ran, done⟩ := Option.map_eq_some_iff.mp ends
  obtain ⟨next, step, later⟩ := Option.bind_eq_some_iff.mp ran
  injection later with same
  rw [same] at step
  have stored := success_file_stored 0 (by decide) (by rfl)
    (Run.next ⟨turn, next_transfer_step step⟩ (Run.refl _)) done
  exact ⟨last, ran, done, stored.1⟩

/-- The OACK once more, behind DATA 1: DATA 2 is dropped, the next timeout acknowledges it, and the
transfer succeeds without it. -/
theorem late_oack_leaves_hole : ∃ last,
    Run (transferStep (plainNet 1) (List.replicate 1030 7)) (requested (plainNet 1))
        [.oack 2000 [], .data 2000 1, .advance 2000, .oack 2000 [], .data 2000 2,
          .timeout fun _ => 0, .advance 2000, .data 2000 3] last ∧
      last.client.loop.netState = .success ∧
      last.client.mem ((last.client.loadAddr + 512) % 2 ^ 32) ≠
        (List.replicate 1030 7).getD 512 0 := by
  have ends : ((runTransfer (plainNet 1) (List.replicate 1030 7) (requested (plainNet 1))
      [.oack 2000 [], .data 2000 1, .advance 2000, .oack 2000 [], .data 2000 2,
        .timeout fun _ => 0, .advance 2000, .data 2000 3]).map fun last =>
          (last.client.loop.netState,
            last.client.mem ((last.client.loadAddr + 512) % 2 ^ 32))) = some (.success, 0) := by
    decide +kernel
  obtain ⟨last, ran, result⟩ := Option.map_eq_some_iff.mp ends
  injection result with done hole
  refine ⟨last, run_transfer_run ran, done, ?_⟩
  rw [hole]
  decide +kernel

end Running

end UBoot.Net.TftpTransfer
