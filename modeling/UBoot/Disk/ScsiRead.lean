import Mathlib.Data.UInt
import Mathlib.Tactic

/-!
scsi_read of common/cmd_scsi.c, with scsi_setup_read_ext. A transfer is cut into READ(10) commands of
0xFFFF blocks at most; scsi_exec runs them, and may fail in any pattern. Numbers are unsigned and have
32 bits.
-/

namespace UBoot.Disk.ScsiRead

def SCSI_MAX_READ_BLK : UInt32 := 0xFFFF
def SCSI_READ10 : UInt8 := 0x28

/-- The command block that is handed to scsi_exec. -/
structure Ccb where
  cmd : List UInt8
  target : UInt8
  lun : UInt8
  datalen : UInt32
  pdata : UInt32

/-- What scsi_dev_desc says about the device. -/
structure DevDesc where
  target : UInt8
  lun : UInt8
  blksz : UInt32

/-- scsi_setup_read_ext, which leaves the bytes of the command behind the ninth as they are. -/
def scsiSetupReadExt (pccb : Ccb) (start : UInt32) (blocks : UInt16) : Ccb :=
  { pccb with cmd := [SCSI_READ10, pccb.lun <<< 5, (start >>> 24).toUInt8, (start >>> 16).toUInt8,
      (start >>> 8).toUInt8, start.toUInt8, 0, (blocks >>> 8).toUInt8, blocks.toUInt8] ++
        pccb.cmd.drop 9 }

/-- A command that was executed, and whether scsi_exec has returned TRUE. -/
structure Command where
  ccb : Ccb
  good : Bool

section Code
variable (desc : DevDesc) (exec : Nat → Bool)

/-- The loop, of which `k` turns are done. It tells the commands, and the count of blocks that
`blkcnt -= blks` takes away. -/
def readLoop : (turns k : Nat) → Ccb → (start blks bufAddr : UInt32) → List Command × UInt32
  | 0, _, _, _, _, _ => ([], 0)
  | turns + 1, k, pccb, start, blks, bufAddr =>
      let pccb := { pccb with pdata := bufAddr }
      let (pccb, next, left) :=
        if SCSI_MAX_READ_BLK < blks then
          let pccb := { pccb with datalen := desc.blksz * SCSI_MAX_READ_BLK }
          (scsiSetupReadExt pccb start SCSI_MAX_READ_BLK.toUInt16,
            start + SCSI_MAX_READ_BLK, blks - SCSI_MAX_READ_BLK)
        else
          let pccb := { pccb with datalen := desc.blksz * blks }
          (scsiSetupReadExt pccb start blks.toUInt16, start + blks, 0)
      if exec k then
        if left = 0 then ([⟨pccb, true⟩], 0)
        else
          let (rest, back) := readLoop turns (k + 1) pccb next left (bufAddr + pccb.datalen)
          (⟨pccb, true⟩ :: rest, back)
      else ([⟨pccb, false⟩], left)

/-- scsi_read: the commands and the result. Every turn but the last reads 0xFFFF blocks. -/
def scsiRead (tempccb : Ccb) (blknr blkcnt buffer : UInt32) : List Command × UInt32 :=
  let pccb := { tempccb with target := desc.target, lun := desc.lun }
  let (log, back) := readLoop desc exec (blkcnt.toNat / 0xFFFF + 1) 0 pccb blknr blkcnt buffer
  (log, blkcnt - back)

end Code

/-! ### What the device does -/

/-- The first block that the command names. -/
def Command.first (command : Command) : Nat :=
  ((command.ccb.cmd.getD 2 0).toNat <<< 24) + ((command.ccb.cmd.getD 3 0).toNat <<< 16) +
    ((command.ccb.cmd.getD 4 0).toNat <<< 8) + (command.ccb.cmd.getD 5 0).toNat

/-- The count of blocks that it names. -/
def Command.blocks (command : Command) : Nat :=
  ((command.ccb.cmd.getD 7 0).toNat <<< 8) + (command.ccb.cmd.getD 8 0).toNat

/-- The device sends a block of the disk to an address: the blocks of a command go behind each other to
`pdata`, and as many bytes as `datalen` says. -/
def Command.Sends (command : Command) (blksz : UInt32) (block : Nat) (address : UInt32) : Prop :=
  command.good = true ∧ ∃ j < command.blocks, command.first + j = block ∧
    command.ccb.pdata + blksz * UInt32.ofNat j = address ∧
    blksz.toNat * (j + 1) ≤ command.ccb.datalen.toNat

/-- The blocks that the successful commands have read. -/
def blocksRead (log : List Command) : Nat :=
  ((log.filter Command.good).map Command.blocks).sum

/-- A result of `n` blocks: they are there, no other ones are counted, and all were asked for only if no
command has failed. -/
structure Reads (blksz blknr blkcnt buffer : UInt32) (log : List Command) (n : UInt32) : Prop where
  sent : ∀ i < n.toNat, ∃ command ∈ log,
    command.Sends blksz (blknr.toNat + i) (buffer + blksz * UInt32.ofNat i)
  counted : n.toNat = blocksRead log
  complete : n = blkcnt → ∀ command ∈ log, command.good = true

/-! ### The commands of a transfer -/

section Transfer
variable (desc : DevDesc) (exec : Nat → Bool) (tempccb : Ccb) (blknr blkcnt buffer : UInt32)

/-- The commands that a transfer takes. Without blocks it is one. -/
def chunks (blkcnt : UInt32) : Nat := max 1 ((blkcnt.toNat + 0xFFFE) / 0xFFFF)

def chunkBlocks (k : Nat) : Nat := min 0xFFFF (blkcnt.toNat - 0xFFFF * k)

/-- The command with number `k`. -/
def commandAt (k : Nat) : Ccb :=
  scsiSetupReadExt
    { tempccb with
      target := desc.target
      lun := desc.lun
      pdata := buffer + desc.blksz * UInt32.ofNat (0xFFFF * k)
      datalen := desc.blksz * UInt32.ofNat (chunkBlocks blkcnt k) }
    (blknr + UInt32.ofNat (0xFFFF * k)) (UInt16.ofNat (chunkBlocks blkcnt k))

def entry (k : Nat) : Command := ⟨commandAt desc tempccb blknr blkcnt buffer k, exec k⟩

/-- The state in front of turn `k`. -/
structure At (k : Nat) (pccb : Ccb) (start blks bufAddr : UInt32) : Prop where
  start : start = blknr + UInt32.ofNat (0xFFFF * k)
  blks : blks.toNat = blkcnt.toNat - 0xFFFF * k
  buffer : bufAddr = buffer + desc.blksz * UInt32.ofNat (0xFFFF * k)
  device : pccb.target = desc.target ∧ pccb.lun = desc.lun
  behind : pccb.cmd.drop 9 = tempccb.cmd.drop 9

variable {desc exec tempccb blknr blkcnt buffer} {k : Nat} {pccb : Ccb} {start blks bufAddr : UInt32}

theorem setup_behind (pccb : Ccb) (start : UInt32) (blocks : UInt16) :
    (scsiSetupReadExt pccb start blocks).cmd.drop 9 = pccb.cmd.drop 9 := rfl

/-- The command that a turn sets up. -/
theorem turn_command (here : At desc tempccb blknr blkcnt buffer k pccb start blks bufAddr)
    (count : UInt32) (counted : count.toNat = chunkBlocks blkcnt k) :
    scsiSetupReadExt { { pccb with pdata := bufAddr } with datalen := desc.blksz * count } start
      count.toUInt16 = commandAt desc tempccb blknr blkcnt buffer k := by
  have whole : count = UInt32.ofNat (chunkBlocks blkcnt k) := by
    rw [← counted, UInt32.ofNat_toNat]
  have half : count.toUInt16 = UInt16.ofNat (chunkBlocks blkcnt k) := by
    rw [← counted]
    rfl
  rw [commandAt, half, whole, here.start, here.buffer, ← here.device.1, ← here.device.2]
  simp only [scsiSetupReadExt, here.behind]

/-- A turn in the middle of the transfer. -/
theorem turn_full (here : At desc tempccb blknr blkcnt buffer k pccb start blks bufAddr)
    (more : 0xFFFF * (k + 1) < blkcnt.toNat) (turns : Nat) :
    ∃ pccb' start' blks' bufAddr',
      At desc tempccb blknr blkcnt buffer (k + 1) pccb' start' blks' bufAddr' ∧
      readLoop desc exec (turns + 1) k pccb start blks bufAddr =
        if exec k then
          (entry desc exec tempccb blknr blkcnt buffer k ::
              (readLoop desc exec turns (k + 1) pccb' start' blks' bufAddr').1,
            (readLoop desc exec turns (k + 1) pccb' start' blks' bufAddr').2)
        else ([entry desc exec tempccb blknr blkcnt buffer k],
          UInt32.ofNat (blkcnt.toNat - 0xFFFF * (k + 1))) := by
  have step : 0xFFFF * (k + 1) = 0xFFFF * k + 0xFFFF := Nat.mul_succ _ _
  have left := here.blks
  have large : SCSI_MAX_READ_BLK < blks := by
    rw [UInt32.lt_iff_toNat_lt, left, show SCSI_MAX_READ_BLK.toNat = 0xFFFF from rfl]
    omega
  have later : (blks - SCSI_MAX_READ_BLK).toNat = blkcnt.toNat - 0xFFFF * (k + 1) := by
    have bound := blkcnt.toNat_lt
    rw [UInt32.toNat_sub, left, show SCSI_MAX_READ_BLK.toNat = 0xFFFF from rfl]
    omega
  have goes_on : blks - SCSI_MAX_READ_BLK ≠ 0 := by
    intro zero
    rw [zero, UInt32.toNat_zero] at later
    omega
  have full : SCSI_MAX_READ_BLK.toNat = chunkBlocks blkcnt k := by
    rw [chunkBlocks, show SCSI_MAX_READ_BLK.toNat = 0xFFFF from rfl]
    omega
  have command := turn_command here SCSI_MAX_READ_BLK full
  have further : UInt32.ofNat (0xFFFF * (k + 1)) = UInt32.ofNat (0xFFFF * k) + SCSI_MAX_READ_BLK := by
    rw [step, UInt32.ofNat_add]
    rfl
  have length : (commandAt desc tempccb blknr blkcnt buffer k).datalen = desc.blksz * SCSI_MAX_READ_BLK := by
    rw [← UInt32.ofNat_toNat (x := SCSI_MAX_READ_BLK), full]
    rfl
  refine ⟨commandAt desc tempccb blknr blkcnt buffer k, start + SCSI_MAX_READ_BLK, blks - SCSI_MAX_READ_BLK,
    bufAddr + (commandAt desc tempccb blknr blkcnt buffer k).datalen, ?_, ?_⟩
  · refine ⟨?_, later, ?_, ⟨rfl, rfl⟩, setup_behind _ _ _⟩
    · rw [here.start, further, UInt32.add_assoc]
    · rw [length, here.buffer, further, UInt32.mul_add, UInt32.add_assoc]
  · rw [readLoop]
    simp only [if_pos large, if_neg goes_on, command]
    rw [← later, UInt32.ofNat_toNat]
    cases result : exec k <;> simp [entry, result]

/-- The last turn. -/
theorem turn_last (here : At desc tempccb blknr blkcnt buffer k pccb start blks bufAddr)
    (last : blkcnt.toNat ≤ 0xFFFF * (k + 1)) (turns : Nat) :
    readLoop desc exec (turns + 1) k pccb start blks bufAddr =
      ([entry desc exec tempccb blknr blkcnt buffer k], 0) := by
  have left := here.blks
  have small : ¬ SCSI_MAX_READ_BLK < blks := by
    rw [UInt32.lt_iff_toNat_lt, left, show SCSI_MAX_READ_BLK.toNat = 0xFFFF from rfl]
    omega
  have rest : blks.toNat = chunkBlocks blkcnt k := by
    rw [chunkBlocks, left]
    omega
  have command := turn_command here blks rest
  rw [readLoop]
  simp only [if_neg small, command]
  cases result : exec k <;> simp [entry, result]

/-- Where no command fails, all are made. -/
theorem loop_good {turns : Nat} (here : At desc tempccb blknr blkcnt buffer k pccb start blks bufAddr)
    (inside : k < chunks blkcnt) (enough : chunks blkcnt ≤ k + turns)
    (good : ∀ j, k ≤ j → j < chunks blkcnt → exec j = true) :
    readLoop desc exec turns k pccb start blks bufAddr =
      ((List.range' k (chunks blkcnt - k)).map (entry desc exec tempccb blknr blkcnt buffer), 0) := by
  induction turns generalizing k pccb start blks bufAddr with
  | zero => omega
  | succ turns ih =>
      by_cases last : blkcnt.toNat ≤ 0xFFFF * (k + 1)
      · have one : chunks blkcnt - k = 1 := by
          unfold chunks at inside ⊢
          omega
        rw [turn_last here last, one]
        rfl
      · obtain ⟨pccb', start', blks', bufAddr', next, turn⟩ :=
          turn_full here (Nat.not_le.mp last) turns
        have further : k + 1 < chunks blkcnt := by
          unfold chunks
          omega
        have size : chunks blkcnt - k = (chunks blkcnt - (k + 1)) + 1 := by omega
        rw [turn, if_pos (good k (Nat.le_refl k) inside),
          ih next further (by omega) fun j after => good j (by omega), size, List.range'_succ, List.map_cons]

/-- The first command that fails is the last one. -/
theorem loop_fails {turns f : Nat} (here : At desc tempccb blknr blkcnt buffer k pccb start blks bufAddr)
    (after : k ≤ f) (inside : f < chunks blkcnt) (enough : f < k + turns) (failed : exec f = false)
    (good : ∀ j, k ≤ j → j < f → exec j = true) :
    readLoop desc exec turns k pccb start blks bufAddr =
      ((List.range' k (f + 1 - k)).map (entry desc exec tempccb blknr blkcnt buffer),
        UInt32.ofNat (blkcnt.toNat - 0xFFFF * (f + 1))) := by
  induction turns generalizing k pccb start blks bufAddr with
  | zero => omega
  | succ turns ih =>
      by_cases last : blkcnt.toNat ≤ 0xFFFF * (k + 1)
      · have same : k = f := by
          unfold chunks at inside
          omega
        have one : f + 1 - k = 1 := by omega
        have none_left : blkcnt.toNat - 0xFFFF * (f + 1) = 0 := by omega
        rw [turn_last here last, one, none_left]
        rfl
      · obtain ⟨pccb', start', blks', bufAddr', next, turn⟩ :=
          turn_full here (Nat.not_le.mp last) turns
        rw [turn]
        by_cases here_failed : k = f
        · subst here_failed
          have one : k + 1 - k = 1 := by omega
          rw [if_neg (by rw [failed]; decide), one]
          rfl
        · have size : f + 1 - k = (f + 1 - (k + 1)) + 1 := by omega
          rw [if_pos (good k (Nat.le_refl k) (by omega)),
            ih next (by omega) (by omega) fun j later => good j (by omega), size, List.range'_succ]
          rfl

/-- The state in front of the first turn. -/
theorem at_start (desc : DevDesc) (tempccb : Ccb) (blknr blkcnt buffer : UInt32) :
    At desc tempccb blknr blkcnt buffer 0 { tempccb with target := desc.target, lun := desc.lun } blknr
      blkcnt buffer := by
  refine ⟨?_, rfl, ?_, ⟨rfl, rfl⟩, rfl⟩
  · exact (UInt32.add_zero blknr).symm
  · change buffer = buffer + desc.blksz * 0
    rw [UInt32.mul_zero, UInt32.add_zero]

theorem scsi_read_good (good : ∀ k < chunks blkcnt, exec k = true) :
    scsiRead desc exec tempccb blknr blkcnt buffer =
      ((List.range (chunks blkcnt)).map (entry desc exec tempccb blknr blkcnt buffer), blkcnt) := by
  have positive : 0 < chunks blkcnt := by
    unfold chunks
    omega
  have enough : chunks blkcnt ≤ 0 + (blkcnt.toNat / 0xFFFF + 1) := by
    unfold chunks
    omega
  rw [scsiRead, loop_good (at_start desc tempccb blknr blkcnt buffer) positive enough
    fun j _ => good j, List.range_eq_range', Nat.sub_zero]
  exact congrArg (Prod.mk _) (UInt32.sub_zero blkcnt)

theorem scsi_read_fails {f : Nat} (inside : f < chunks blkcnt) (failed : exec f = false)
    (good : ∀ k < f, exec k = true) :
    scsiRead desc exec tempccb blknr blkcnt buffer =
      ((List.range (f + 1)).map (entry desc exec tempccb blknr blkcnt buffer),
        blkcnt - UInt32.ofNat (blkcnt.toNat - 0xFFFF * (f + 1))) := by
  have enough : f < 0 + (blkcnt.toNat / 0xFFFF + 1) := by
    unfold chunks at inside
    omega
  rw [scsiRead, loop_fails (at_start desc tempccb blknr blkcnt buffer) (Nat.zero_le f) inside enough failed
    fun j _ => good j, List.range_eq_range', Nat.sub_zero]

/-! ### Its commands on the device -/

theorem entry_first (k : Nat) : (entry desc exec tempccb blknr blkcnt buffer k).first =
    (blknr.toNat + 0xFFFF * k) % 2 ^ 32 := by
  have number : (entry desc exec tempccb blknr blkcnt buffer k).first =
      (blknr + UInt32.ofNat (0xFFFF * k)).toNat := by
    generalize start : blknr + UInt32.ofNat (0xFFFF * k) = first
    have bound := first.toNat_lt
    simp only [Command.first, entry, commandAt, scsiSetupReadExt, start, List.cons_append, List.getD_cons_succ,
      List.getD_cons_zero, UInt32.toNat_toUInt8, UInt32.toNat_shiftRight, Nat.shiftRight_eq_div_pow,
      Nat.shiftLeft_eq]
    simp
    omega
  rw [number, UInt32.toNat_add, UInt32.toNat_ofNat', Nat.add_mod_mod]

theorem entry_blocks (k : Nat) : (entry desc exec tempccb blknr blkcnt buffer k).blocks =
    chunkBlocks blkcnt k := by
  have small : chunkBlocks blkcnt k < 2 ^ 16 := by
    unfold chunkBlocks
    omega
  simp only [Command.blocks, entry, commandAt, scsiSetupReadExt, List.cons_append, List.getD_cons_succ,
    List.getD_cons_zero, UInt16.toNat_toUInt8, UInt16.toNat_shiftRight, Nat.shiftRight_eq_div_pow,
    Nat.shiftLeft_eq, UInt16.toNat_ofNat', Nat.mod_eq_of_lt small]
  simp
  omega

theorem chunks_sum (count : Nat) :
    ((List.range count).map (chunkBlocks blkcnt)).sum = min blkcnt.toNat (0xFFFF * count) := by
  induction count with
  | zero => simp
  | succ count ih =>
      rw [List.range_succ, List.map_append, List.sum_append, ih, List.map_singleton, List.sum_singleton,
        chunkBlocks]
      omega

theorem blocks_read_good {count : Nat} (good : ∀ k < count, exec k = true) :
    blocksRead ((List.range count).map (entry desc exec tempccb blknr blkcnt buffer)) =
      min blkcnt.toNat (0xFFFF * count) := by
  have all : ((List.range count).map (entry desc exec tempccb blknr blkcnt buffer)).filter Command.good =
      (List.range count).map (entry desc exec tempccb blknr blkcnt buffer) := by
    rw [List.filter_eq_self]
    intro command member
    obtain ⟨k, bound, rfl⟩ := List.mem_map.mp member
    exact good k (List.mem_range.mp bound)
  rw [blocksRead, all, List.map_map, ← chunks_sum]
  congr 1
  apply List.map_congr_left
  intro k _
  exact entry_blocks k

theorem blocks_read_failed {f : Nat} (failed : exec f = false) (good : ∀ k < f, exec k = true) :
    blocksRead ((List.range (f + 1)).map (entry desc exec tempccb blknr blkcnt buffer)) =
      min blkcnt.toNat (0xFFFF * f) := by
  rw [← @blocks_read_good desc exec tempccb blknr blkcnt buffer f good,
    blocksRead, blocksRead, List.range_succ, List.map_append, List.filter_append]
  simp [entry, failed]

/-- The bytes of a command do not overflow 32 bits. -/
theorem entry_datalen (fits : desc.blksz.toNat * min 0xFFFF blkcnt.toNat < 2 ^ 32) (k : Nat) :
    (entry desc exec tempccb blknr blkcnt buffer k).ccb.datalen.toNat =
      desc.blksz.toNat * chunkBlocks blkcnt k := by
  have few : chunkBlocks blkcnt k ≤ min 0xFFFF blkcnt.toNat := by
    unfold chunkBlocks
    omega
  have bytes : desc.blksz.toNat * chunkBlocks blkcnt k < 2 ^ 32 :=
    Nat.lt_of_le_of_lt (Nat.mul_le_mul_left _ few) fits
  have small : chunkBlocks blkcnt k < 2 ^ 32 := by
    unfold chunkBlocks
    omega
  change (desc.blksz * UInt32.ofNat (chunkBlocks blkcnt k)).toNat = _
  rw [UInt32.toNat_mul, UInt32.toNat_ofNat', Nat.mod_eq_of_lt small, Nat.mod_eq_of_lt bytes]

/-- A block of the transfer is sent by its command, if the numbers of the first blocks do not wrap. -/
theorem entry_sends (fits : desc.blksz.toNat * min 0xFFFF blkcnt.toNat < 2 ^ 32) {i : Nat}
    (inside : i < blkcnt.toNat) (good : exec (i / 0xFFFF) = true)
    (first : blknr.toNat + 0xFFFF * (i / 0xFFFF) < 2 ^ 32) :
    (entry desc exec tempccb blknr blkcnt buffer (i / 0xFFFF)).Sends desc.blksz (blknr.toNat + i)
      (buffer + desc.blksz * UInt32.ofNat i) := by
  have split := Nat.div_add_mod i 0xFFFF
  have small := Nat.mod_lt i (show 0 < 0xFFFF by decide)
  have within : i % 0xFFFF < chunkBlocks blkcnt (i / 0xFFFF) := by
    unfold chunkBlocks
    omega
  refine ⟨good, i % 0xFFFF, ?_, ?_, ?_, ?_⟩
  · rw [entry_blocks]
    exact within
  · rw [entry_first, Nat.mod_eq_of_lt first, Nat.add_assoc, split]
  · change buffer + desc.blksz * UInt32.ofNat (0xFFFF * (i / 0xFFFF)) +
      desc.blksz * UInt32.ofNat (i % 0xFFFF) = _
    rw [UInt32.add_assoc, ← UInt32.mul_add, ← UInt32.ofNat_add, split]
  · rw [entry_datalen fits]
    exact Nat.mul_le_mul_left _ within

/-- The commands that can send a block. -/
theorem sends_command {k block : Nat} {address : UInt32}
    (sends : (entry desc exec tempccb blknr blkcnt buffer k).Sends desc.blksz block address) :
    ∃ j < chunkBlocks blkcnt k, (blknr.toNat + 0xFFFF * k) % 2 ^ 32 + j = block ∧
      desc.blksz.toNat * (j + 1) ≤
        desc.blksz.toNat * chunkBlocks blkcnt k % 2 ^ 32 := by
  obtain ⟨_, j, inside, place, _, whole⟩ := sends
  rw [entry_blocks] at inside
  rw [entry_first] at place
  refine ⟨j, inside, place, ?_⟩
  have small : chunkBlocks blkcnt k < 2 ^ 32 := by
    unfold chunkBlocks
    omega
  have length : (entry desc exec tempccb blknr blkcnt buffer k).ccb.datalen.toNat =
      desc.blksz.toNat * chunkBlocks blkcnt k % 2 ^ 32 := by
    change (desc.blksz * UInt32.ofNat (chunkBlocks blkcnt k)).toNat = _
    rw [UInt32.toNat_mul, UInt32.toNat_ofNat', Nat.mod_eq_of_lt small]
  rwa [length] at whole

end Transfer

section Exact
variable {desc : DevDesc} {exec : Nat → Bool} {tempccb : Ccb} {blknr blkcnt buffer : UInt32}

/-- A command that fails is counted, or hidden behind a count of zero. -/
theorem failed_counted {f : Nat} (inside : f < chunks blkcnt) (failed : exec f = false)
    (good : ∀ k < f, exec k = true) :
    ¬ Reads desc.blksz blknr blkcnt buffer (scsiRead desc exec tempccb blknr blkcnt buffer).1
      (scsiRead desc exec tempccb blknr blkcnt buffer).2 := by
  have bound := blkcnt.toNat_lt
  rw [scsi_read_fails inside failed good]
  intro reads
  have counted := reads.counted
  rw [blocks_read_failed failed good, UInt32.toNat_sub, UInt32.toNat_ofNat'] at counted
  by_cases none_asked : blkcnt.toNat = 0
  · have all : blkcnt - UInt32.ofNat (blkcnt.toNat - 0xFFFF * (f + 1)) = blkcnt := by
      rw [none_asked, Nat.zero_sub]
      exact UInt32.sub_zero blkcnt
    have complete := reads.complete all (entry desc exec tempccb blknr blkcnt buffer f)
      (List.mem_map_of_mem (List.mem_range.mpr (Nat.lt_succ_self f)))
    exact absurd (complete.symm.trans failed) (by decide)
  · unfold chunks at inside
    omega

theorem good_result (good : ∀ k < chunks blkcnt, exec k = true) :
    (scsiRead desc exec tempccb blknr blkcnt buffer).1 =
      (List.range (chunks blkcnt)).map (entry desc exec tempccb blknr blkcnt buffer) ∧
    (scsiRead desc exec tempccb blknr blkcnt buffer).2 = blkcnt := by
  rw [scsi_read_good good]
  exact ⟨rfl, rfl⟩

/-- A transfer whose commands succeed and whose numbers stay in 32 bits. -/
theorem good_reads (good : ∀ k < chunks blkcnt, exec k = true)
    (first : blknr.toNat + 0xFFFF * (chunks blkcnt - 1) < 2 ^ 32)
    (fits : desc.blksz.toNat * min 0xFFFF blkcnt.toNat < 2 ^ 32) :
    Reads desc.blksz blknr blkcnt buffer (scsiRead desc exec tempccb blknr blkcnt buffer).1
      (scsiRead desc exec tempccb blknr blkcnt buffer).2 := by
  rw [(good_result good).1, (good_result good).2]
  constructor
  · intro i inside
    have chunk : i / 0xFFFF < chunks blkcnt := by
      unfold chunks
      omega
    refine ⟨_, List.mem_map_of_mem (List.mem_range.mpr chunk), ?_⟩
    exact entry_sends fits inside (good _ chunk) (by omega)
  · rw [blocks_read_good good]
    unfold chunks
    omega
  · intro _ command member
    obtain ⟨k, inside, rfl⟩ := List.mem_map.mp member
    exact good k (List.mem_range.mp inside)

/-- The commands of a transfer whose last command names a block that has wrapped do not send the block
that it is for. -/
theorem wrapped_missing (good : ∀ k < chunks blkcnt, exec k = true)
    (reads : Reads desc.blksz blknr blkcnt buffer (scsiRead desc exec tempccb blknr blkcnt buffer).1
      (scsiRead desc exec tempccb blknr blkcnt buffer).2) :
    blknr.toNat + 0xFFFF * (chunks blkcnt - 1) < 2 ^ 32 := by
  have bound := blkcnt.toNat_lt
  have start := blknr.toNat_lt
  by_contra wraps
  have inside : 0xFFFF * (chunks blkcnt - 1) < blkcnt.toNat := by
    unfold chunks at wraps ⊢
    omega
  have sent := reads.sent (0xFFFF * (chunks blkcnt - 1))
  rw [(good_result good).1, (good_result good).2] at sent
  obtain ⟨command, member, sends⟩ := sent inside
  obtain ⟨k, listed, rfl⟩ := List.mem_map.mp member
  obtain ⟨j, within, place, _⟩ := sends_command sends
  have numbered : k < chunks blkcnt := List.mem_range.mp listed
  have short : j < 0xFFFF := Nat.lt_of_lt_of_le within (Nat.min_le_left _ _)
  by_cases whole : blknr.toNat + 0xFFFF * k < 2 ^ 32
  · rw [Nat.mod_eq_of_lt whole] at place
    have earlier : k < chunks blkcnt - 1 := by omega
    omega
  · have cut := Nat.mod_lt (blknr.toNat + 0xFFFF * k) (show 0 < 2 ^ 32 by decide)
    have wrapped : (blknr.toNat + 0xFFFF * k) % 2 ^ 32 + 2 ^ 32 ≤ blknr.toNat + 0xFFFF * k := by omega
    omega

/-- Nor is the last block of a command sent whose bytes cannot be counted in 32 bits. -/
theorem overflow_missing (good : ∀ k < chunks blkcnt, exec k = true)
    (first : blknr.toNat + 0xFFFF * (chunks blkcnt - 1) < 2 ^ 32)
    (reads : Reads desc.blksz blknr blkcnt buffer (scsiRead desc exec tempccb blknr blkcnt buffer).1
      (scsiRead desc exec tempccb blknr blkcnt buffer).2) :
    desc.blksz.toNat * min 0xFFFF blkcnt.toNat < 2 ^ 32 := by
  have bound := blkcnt.toNat_lt
  by_contra overflows
  have some_blocks : 0 < min 0xFFFF blkcnt.toNat := by
    by_contra none_asked
    have zero : min 0xFFFF blkcnt.toNat = 0 := by omega
    rw [zero, Nat.mul_zero] at overflows
    exact overflows (by decide)
  have sent := reads.sent (min 0xFFFF blkcnt.toNat - 1)
  rw [(good_result good).1, (good_result good).2] at sent
  obtain ⟨command, member, sends⟩ := sent (by omega)
  obtain ⟨k, listed, rfl⟩ := List.mem_map.mp member
  obtain ⟨j, within, place, whole⟩ := sends_command sends
  have numbered : k < chunks blkcnt := List.mem_range.mp listed
  have unwrapped : blknr.toNat + 0xFFFF * k < 2 ^ 32 := by omega
  rw [Nat.mod_eq_of_lt unwrapped] at place
  have leading : k = 0 := by omega
  have last : j + 1 = min 0xFFFF blkcnt.toNat := by omega
  have cut := Nat.mod_lt (desc.blksz.toNat * chunkBlocks blkcnt k) (show 0 < 2 ^ 32 by decide)
  rw [last] at whole
  omega

/-- A transfer reads what it reports if none of its commands fails, the last of them starts below block
2 ^ 32, and its bytes can be counted in 32 bits. -/
theorem scsi_read_iff (desc : DevDesc) (exec : Nat → Bool) (tempccb : Ccb)
    (blknr blkcnt buffer : UInt32) :
    Reads desc.blksz blknr blkcnt buffer (scsiRead desc exec tempccb blknr blkcnt buffer).1
        (scsiRead desc exec tempccb blknr blkcnt buffer).2 ↔
      (∀ k < chunks blkcnt, exec k = true) ∧ blknr.toNat + 0xFFFF * (chunks blkcnt - 1) < 2 ^ 32 ∧
        desc.blksz.toNat * min 0xFFFF blkcnt.toNat < 2 ^ 32 := by
  constructor
  · intro reads
    have good : ∀ k < chunks blkcnt, exec k = true := by
      by_contra some_fails
      push Not at some_fails
      have first := Nat.find_spec some_fails
      have failed : exec (Nat.find some_fails) = false := Bool.eq_false_iff.mpr first.2
      refine failed_counted first.1 failed (fun k before => ?_) reads
      by_contra other
      exact Nat.find_min some_fails before ⟨Nat.lt_trans before first.1, other⟩
    have first := wrapped_missing good reads
    exact ⟨good, first, overflow_missing good first reads⟩
  · rintro ⟨good, first, fits⟩
    exact good_reads good first fits

end Exact

/-- The only command for a block fails, and the block is reported as read. -/
theorem failed_block_counted :
    ¬ Reads 512 0 1 0x80100000
      (scsiRead ⟨0, 0, 512⟩ (fun _ => false) ⟨[], 0, 0, 0, 0⟩ 0 1 0x80100000).1
      (scsiRead ⟨0, 0, 512⟩ (fun _ => false) ⟨[], 0, 0, 0, 0⟩ 0 1 0x80100000).2 := by
  intro reads
  exact absurd reads.counted (by decide)

end UBoot.Disk.ScsiRead
