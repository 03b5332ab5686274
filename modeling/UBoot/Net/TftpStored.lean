import UBoot.Net.Tftp

/-!
Which bytes of a transfer store_block has written. The handler compares a block
number with the last one only, so it is the packets that decide whether the
blocks follow each other; NetStartAgain does nothing in the recovery mode.
-/

namespace UBoot.Net.TftpStored

open Library.Memory Library.Runs Tftp

/-- The `i`-th byte behind load_addr was written by store_block. -/
def Written (client : Client) (i : Nat) : Prop :=
  ∃ call ∈ client.stored, ∃ j, j < call.len ∧
    (call.dest + j) % 2 ^ 32 = (client.loadAddr + i) % 2 ^ 32

structure Covered (client : Client) : Prop where
  written : ∀ i, i < client.netBootFileXferSize → Written client i
  begins : client.stored ≠ [] → ∃ call ∈ client.stored, call.offset = 0

/-- The offset of store_block for a block that is not the first one. -/
def blockOffset (client : Client) (block : Nat) : Nat :=
  ((block + 2 ^ 32 - 1) % 2 ^ 32 * tftpBlockSize +
    (countBlock client block).tftpBlockWrapOffset) % 2 ^ 32

/-- The packet carries a DATA block for the running transfer, which is not its last one again. -/
structure NextData (client : Client) (pkt : Nat → UInt8) (dest src len : Nat) : Prop where
  handled : client.loop.packetHandler = .tftpHandler
  ourPort : dest = client.tftpOurPort
  serverPort : src = client.tftpServerPort
  started : client.tftpState ≠ .rrq ∧ client.tftpState ≠ .oack
  whole : 4 ≤ len
  data : read16 pkt 0 = 3
  next : read16 pkt 2 ≠ client.tftpLastBlock

/-- The timer gives up a transfer in the recovery mode. -/
structure GivesUp (cfg : NetConfig) (client : Client) : Prop where
  armed : client.loop.timeHandler = some .tftpTimeout
  recovery : cfg.fwRecovery ≠ 0
  exceeded : timeoutCount < client.tftpTimeoutCount + 1

/-- A DATA block begins inside or right behind what has been transferred, and load_addr changes
only before anything has. -/
def Continues (cfg : NetConfig) (client : Client) : NetEvent → Prop
  | .receive pkt dest src len => NextData client pkt dest src len →
      blockOffset client (read16 pkt 2) ≤ client.netBootFileXferSize
  | .timeout _ => GivesUp cfg client → client.netBootFileXferSize = 0
  | .arpTimeout => True
  | .poll _ _ => True

def clientStep (cfg : NetConfig) (client : Client) (event : NetEvent) (after : Client) : Prop :=
  netStep cfg client event = some after

section Frames
variable {cfg : NetConfig} {client : Client}

/-- Covered looks at the stored blocks, the size and load_addr only. -/
theorem covered_congr {after : Client} (covered : Covered client)
    (stored : after.stored = client.stored)
    (size : after.netBootFileXferSize = client.netBootFileXferSize)
    (load : after.loadAddr = client.loadAddr) : Covered after := by
  constructor
  · intro i below
    rw [size] at below
    unfold Written
    rw [stored, load]
    exact covered.written i below
  · rw [stored]
    exact covered.begins

theorem stored_of_size (covered : Covered client) (some_bytes : 0 < client.netBootFileXferSize) :
    client.stored ≠ [] := by
  obtain ⟨call, member, _⟩ := covered.written 0 some_bytes
  exact List.ne_nil_of_mem member

theorem store_block_covered (covered : Covered client) (block : Nat) (src : Nat → UInt8) (len : Nat)
    (follows : (block * tftpBlockSize + client.tftpBlockWrapOffset) % 2 ^ 32 ≤
      client.netBootFileXferSize) : Covered (storeBlock client block src len) := by
  generalize place : (block * tftpBlockSize + client.tftpBlockWrapOffset) % 2 ^ 32 = offset at follows
  have newest : (⟨offset, client.loadAddr + offset, len⟩ : StoredBlock) ∈
      (storeBlock client block src len).stored := by
    rw [← place]
    exact List.mem_append_right _ List.mem_cons_self
  have kept : ∀ call ∈ client.stored, call ∈ (storeBlock client block src len).stored := by
    intro call member
    exact List.mem_append_left _ member
  have load : (storeBlock client block src len).loadAddr = client.loadAddr := rfl
  have size : (storeBlock client block src len).netBootFileXferSize =
      if client.netBootFileXferSize < (offset + len) % 2 ^ 32 then (offset + len) % 2 ^ 32
      else client.netBootFileXferSize := by
    rw [← place]
    rfl
  constructor
  · intro i below
    unfold Written
    rw [load]
    -- Old bytes stay written, and new ones lie in the block.
    by_cases old : i < client.netBootFileXferSize
    · obtain ⟨call, member, j, inside, same⟩ := covered.written i old
      exact ⟨call, kept call member, j, inside, same⟩
    · have reach : (offset + len) % 2 ^ 32 ≤ offset + len := Nat.mod_le _ _
      have bound : i < (offset + len) % 2 ^ 32 := by
        rw [size] at below
        split at below
        · exact below
        · exact absurd below old
      refine ⟨_, newest, i - offset, ?_, ?_⟩
      · show i - offset < len
        omega
      · have address : client.loadAddr + offset + (i - offset) = client.loadAddr + i := by omega
        exact congrArg (· % 2 ^ 32) address
  · intro _
    -- The first block of all has offset zero, since nothing has been transferred before it.
    by_cases first : client.stored = []
    · have zero : offset = 0 := by
        by_contra positive
        exact stored_of_size covered (by omega) first
      exact ⟨_, newest, zero⟩
    · obtain ⟨call, member, begin⟩ := covered.begins first
      exact ⟨call, kept call member, begin⟩

/-- Everything that a transfer has reported is covered. -/
structure Sound (client : Client) : Prop where
  covered : Covered client
  success : client.loop.netState = .success → client.stored ≠ []

/-- NetStartAgain never reports a success. -/
theorem net_start_again_state (cfg : NetConfig) (loop : LoopState)
    (done : (netStartAgain cfg loop).netState = .success) : loop.netState = .success := by
  have kept : ∀ firstRestart, (ethTryAnother cfg loop firstRestart).netState = loop.netState := by
    intro firstRestart
    unfold ethTryAnother
    split <;> rfl
  unfold netStartAgain at done
  split at done
  · exact done
  · split at done
    · contradiction
    · simp only at done
      split at done
      · split at done
        · exact (kept _).symm.trans done
        · contradiction
      · contradiction

theorem start_again_sound (sound : Sound client) : Sound (startAgain cfg client) :=
  ⟨covered_congr sound.covered rfl rfl rfl, fun done =>
    sound.success (net_start_again_state cfg client.loop done)⟩

theorem accept_block_sound (covered : Covered client) (src : Nat → UInt8) (len : Nat)
    (follows : ((client.tftpBlock + 2 ^ 32 - 1) % 2 ^ 32 * tftpBlockSize +
      client.tftpBlockWrapOffset) % 2 ^ 32 ≤ client.netBootFileXferSize) :
    Sound (acceptBlock cfg client src len) := by
  have timed : Covered { client with
      tftpLastBlock := client.tftpBlock
      loop := netSetTimeout client.loop .tftpTimeout
      tftpTimeoutCount := 0 } := covered_congr covered rfl rfl rfl
  have stored := store_block_covered timed ((client.tftpBlock + 2 ^ 32 - 1) % 2 ^ 32) src len follows
  have some_block : (acceptBlock cfg client src len).stored ≠ [] := by
    unfold acceptBlock
    simp only
    split <;> exact List.append_ne_nil_of_right_ne_nil _ (List.cons_ne_nil _ _)
  refine ⟨?_, fun _ => some_block⟩
  unfold acceptBlock
  simp only
  split
  · exact covered_congr stored rfl rfl rfl
  · exact covered_congr stored rfl rfl rfl

theorem count_block_frame (client : Client) (block : Nat) :
    (countBlock client block).stored = client.stored ∧
      (countBlock client block).netBootFileXferSize = client.netBootFileXferSize ∧
      (countBlock client block).loadAddr = client.loadAddr ∧
      (countBlock client block).loop = client.loop ∧
      (countBlock client block).tftpState = client.tftpState ∧
      (countBlock client block).tftpLastBlock = client.tftpLastBlock ∧
      (countBlock client block).tftpBlock = block := by
  unfold countBlock
  split <;> exact ⟨rfl, rfl, rfl, rfl, rfl, rfl, rfl⟩

theorem count_block_sound (sound : Sound client) (block : Nat) : Sound (countBlock client block) := by
  obtain ⟨stored, size, load, loop, _⟩ := count_block_frame client block
  refine ⟨covered_congr sound.covered stored size load, ?_⟩
  rw [loop, stored]
  exact sound.success

theorem tftp_data_sound (sound : Sound client) (block srcPort : Nat) (src : Nat → UInt8)
    (len : Nat)
    (follows : client.tftpState ≠ .rrq ∧ client.tftpState ≠ .oack → block ≠ client.tftpLastBlock →
      blockOffset client block ≤ client.netBootFileXferSize) :
    Sound (tftpData cfg client block srcPort src len) := by
  obtain ⟨_, size, _, _, state, last, number⟩ := count_block_frame client block
  have counted := count_block_sound sound block
  unfold tftpData
  simp only
  split
  -- The first packet: any block but 1 starts the transfer again.
  · have first : Sound { countBlock client block with
        tftpState := .data
        tftpServerPort := srcPort
        tftpLastBlock := 0
        tftpBlockWrap := 0
        tftpBlockWrapOffset := 0 } :=
      ⟨covered_congr counted.covered rfl rfl rfl, counted.success⟩
    split
    · exact start_again_sound first
    · rename_i isFirst
      have one : block = 1 := not_not.mp isFirst
      split
      · exact first
      · have offset : (((countBlock client block).tftpBlock + 2 ^ 32 - 1) % 2 ^ 32 * tftpBlockSize +
            0) % 2 ^ 32 = 0 := by
          rw [number, one]
          rfl
        exact accept_block_sound first.covered src len
          ((Nat.le_of_eq offset).trans (Nat.zero_le _))
  · rename_i started
    -- A later packet: the last block again is dropped.
    obtain ⟨notRrq, notOack⟩ := not_or.mp started
    split
    · exact counted
    · rename_i next
      rw [state] at notRrq notOack
      rw [last] at next
      refine accept_block_sound counted.covered src len ?_
      rw [number, size]
      exact follows ⟨notRrq, notOack⟩ next

theorem tftp_start_sound (cfg : NetConfig) (client : Client) (timer : Nat)
    (running : client.loop.netState ≠ .success) : Sound (tftpStart cfg client timer) := by
  constructor
  · constructor
    · intro i below
      exact absurd below (Nat.not_lt_zero i)
    · exact fun stored => absurd rfl stored
  · exact fun done => absurd done running

/-- One turn keeps what has been transferred covered. -/
theorem client_step_sound {after : Client} {event : NetEvent} (sound : Sound client)
    (continues : Continues cfg client event) (step : clientStep cfg client event after) :
    Sound after := by
  unfold clientStep netStep at step
  -- Only a DATA block stores anything, and only a timeout in the recovery mode moves load_addr.
  cases event with
  | receive pkt dest src len =>
      cases handler : client.loop.packetHandler with
      | startAgainHandler =>
          simp only [handler, Option.some.injEq] at step
          rw [← step]
          exact sound
      | tftpHandler =>
          simp only [handler, Option.some.injEq] at step
          rw [← step]
          unfold tftpHandler
          split
          · exact sound
          · rename_i ours
            split
            · exact sound
            · rename_i server
              split
              · exact sound
              · split
                · exact ⟨covered_congr sound.covered rfl rfl rfl, sound.success⟩
                · rename_i opcode
                  split
                  · exact sound
                  · rename_i whole
                    refine tftp_data_sound sound _ _ _ _ fun started next => ?_
                    refine continues ⟨handler, not_not.mp ours, ?_, started, by omega, opcode, next⟩
                    by_contra other
                    exact server ⟨started.1, other⟩
                · exact start_again_sound sound
                · exact sound
  | timeout bootMem =>
      cases armed : client.loop.timeHandler with
      | none =>
          simp only [armed, Option.some.injEq] at step
          rw [← step]
          exact sound
      | some handler =>
          cases handler with
          | startAgainTimeout =>
              simp only [armed, Option.some.injEq] at step
              rw [← step]
              exact ⟨covered_congr sound.covered rfl rfl rfl, fun done => by contradiction⟩
          | tftpTimeout =>
              simp only [armed, Option.some.injEq] at step
              rw [← step]
              unfold tftpTimeout
              simp only
              split
              · rename_i exceeded
                split
                · rename_i recovery
                  have empty := continues ⟨armed, recovery, exceeded⟩
                  apply start_again_sound
                  refine ⟨⟨fun i below => ?_, sound.covered.begins⟩, sound.success⟩
                  exact absurd below (by rw [empty]; exact Nat.not_lt_zero i)
                · apply start_again_sound
                  exact ⟨covered_congr sound.covered rfl rfl rfl, sound.success⟩
              · exact ⟨covered_congr sound.covered rfl rfl rfl, sound.success⟩
  | arpTimeout =>
      simp only [Option.some.injEq] at step
      rw [← step]
      exact start_again_sound sound
  | poll prereq timer =>
      cases polled : client.loop.netState with
      | «continue» =>
          simp only [polled, Option.some.injEq] at step
          rw [← step]
          exact sound
      | success =>
          simp only [polled] at step
          contradiction
      | fail =>
          simp only [polled] at step
          contradiction
      | restart =>
          simp only [polled] at step
          cases prereq with
          | ok =>
              simp only [netRestart, Option.some.injEq] at step
              rw [← step]
              exact tftp_start_sound _ _ _ (by simp)
          | notConfigured => contradiction
          | deviceNotConfigured =>
              simp only [netRestart, Option.some.injEq] at step
              rw [← step]
              apply start_again_sound
              exact ⟨covered_congr sound.covered rfl rfl rfl, fun done => by contradiction⟩

/-- Whatever the packets are, a transfer whose blocks continue each other has written every byte
that it reports, from block 1 on. -/
theorem success_bytes_stored {first last : Client} {events : List NetEvent} (timer : Nat)
    (fresh : first.loop.netState = .continue)
    (run : Run (Guarded (Continues cfg) (clientStep cfg)) (tftpStart cfg first timer) events last)
    (done : last.loop.netState = .success) :
    (∃ call ∈ last.stored, call.offset = 0) ∧
      ∀ i, i < last.netBootFileXferSize → Written last i := by
  have start : Sound (tftpStart cfg first timer) :=
    tftp_start_sound cfg first timer (by rw [fresh]; decide)
  have sound := run_preserves _ Sound
    (fun _ _ _ kept step => client_step_sound kept step.1 step.2) run start
  exact ⟨sound.covered.begins (sound.success done), sound.covered.written⟩

end Frames

/-- One network device, which exists, and no variable `netretry`. -/
def plainNet (fwRecovery : Nat) : NetConfig := ⟨fwRecovery, none, 1, [102]⟩

/-- A client that has run nothing yet. -/
def idleClient : Client :=
  { loop := ⟨.continue, .tftpHandler, none, false, false, true, 0, none⟩
    tftpServerPort := 0
    tftpOurPort := 0
    tftpTimeoutCount := 0
    tftpBlock := 0
    tftpLastBlock := 0
    tftpBlockWrap := 0
    tftpBlockWrapOffset := 0
    tftpState := .rrq
    netBootFileXferSize := 0
    loadAddr := 0x80060000
    mem := fun _ => 0
    sent := []
    stored := [] }

/-- DATA number `block` with `size` bytes, all 7, from port 2000 to port 1024. -/
def dataPacket (block size : Nat) : NetEvent :=
  .receive (fun i => ([0, 3, UInt8.ofNat (block / 256), UInt8.ofNat block] : List UInt8).getD i 7)
    1024 2000 (4 + size)

/-- The client after the events, as long as NetLoop does not return. -/
def runEvents (cfg : NetConfig) : Client → List NetEvent → Option Client
  | client, [] => some client
  | client, event :: rest => (netStep cfg client event).bind fun next => runEvents cfg next rest

theorem run_events_run {cfg : NetConfig} {client last : Client} {events : List NetEvent}
    (ran : runEvents cfg client events = some last) : Run (clientStep cfg) client events last := by
  induction events generalizing client with
  | nil =>
      injection ran with same
      rw [same]
      exact Run.refl last
  | cons event rest ih =>
      obtain ⟨next, step, later⟩ := Option.bind_eq_some_iff.mp ran
      exact Run.next step (ih later)

/-- A file of three bytes. -/
theorem short_file_stored : ∃ last,
    runEvents (plainNet 0) (tftpStart (plainNet 0) idleClient 0) [dataPacket 1 3] = some last ∧
      last.loop.netState = .success ∧ last.netBootFileXferSize = 3 ∧
      ∀ i, i < last.netBootFileXferSize → Written last i := by
  have first : Continues (plainNet 0) (tftpStart (plainNet 0) idleClient 0) (dataPacket 1 3) :=
    fun next => absurd rfl next.started.1
  have ends : ((runEvents (plainNet 0) (tftpStart (plainNet 0) idleClient 0)
      [dataPacket 1 3]).map fun last => (last.loop.netState, last.netBootFileXferSize)) =
        some (.success, 3) := by decide +kernel
  obtain ⟨last, ran, result⟩ := Option.map_eq_some_iff.mp ends
  injection result with done size
  obtain ⟨next, step, later⟩ := Option.bind_eq_some_iff.mp ran
  injection later with same
  rw [same] at step
  have laws := success_bytes_stored 0 (by rfl) (Run.next ⟨first, step⟩ (Run.refl _)) done
  exact ⟨last, ran, done, size, laws.2⟩

/-- In the recovery mode DATA 2 and DATA 3 make a transfer: NetStartAgain returns at once, and the
state is already the one of a running transfer. -/
theorem recovery_accepts_later_blocks : ∃ last,
    Run (clientStep (plainNet 1)) (tftpStart (plainNet 1) idleClient 0)
        [dataPacket 2 512, dataPacket 3 0] last ∧
      last.loop.netState = .success ∧ last.netBootFileXferSize = 1024 ∧
      (∀ call ∈ last.stored, call.offset ≠ 0) ∧ ∀ i, ¬ Written last i := by
  have ends : ((runEvents (plainNet 1) (tftpStart (plainNet 1) idleClient 0)
      [dataPacket 2 512, dataPacket 3 0]).map fun last => (last.loop.netState,
        last.netBootFileXferSize, last.stored.map fun call => (call.offset, call.len))) =
        some (.success, 1024, [(1024, 0)]) := by decide +kernel
  obtain ⟨last, ran, result⟩ := Option.map_eq_some_iff.mp ends
  injection result with done rest
  injection rest with size stored
  have calls : ∀ call ∈ last.stored, call.offset = 1024 ∧ call.len = 0 := by
    intro call member
    have pair := List.mem_map_of_mem (f := fun call => (call.offset, call.len)) member
    rw [stored] at pair
    exact Prod.mk.inj (List.mem_singleton.mp pair)
  refine ⟨last, run_events_run ran, done, size, ?_, ?_⟩
  · intro call member zero
    have offset := (calls call member).1
    omega
  · rintro i ⟨call, member, j, inside, _⟩
    have len := (calls call member).2
    omega

end UBoot.Net.TftpStored
