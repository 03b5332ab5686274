import Mathlib.Data.UInt
import Mathlib.Tactic

/-!
ide_read and ide_write of common/cmd_ide.c with CONFIG_LBA48 and an lbaint_t of 64 bits, and the two
drives of a bus with their common registers. A sector is addressed with 28 bits or with 48; for the
latter a register takes two bytes, one behind the other. The waits of ide_wait end with any status.
-/

namespace UBoot.Disk.IdeTransfer

abbrev Sector := Fin 512 → UInt8

/-! ### The drives -/

inductive Port where
  | ATA_SECT_CNT
  | ATA_LBA_LOW
  | ATA_LBA_MID
  | ATA_LBA_HIGH
  deriving DecidableEq

/-- A register keeps the byte that it had before the last one. -/
structure Register where
  previous : UInt8
  last : UInt8

/-- The transfer that a drive expects. -/
structure Pending where
  write : Bool
  drive : Bool
  sector : Nat
  left : Nat

/-- The registers of the bus, the sectors of its drives, and the buffer of the caller in sectors. -/
structure State where
  registers : Port → Register
  devHd : UInt8
  pending : Option Pending
  disk : Bool → Nat → Sector
  buffer : Nat → Sector

def ATA_LBA : UInt8 := 0xE0
def ATA_DEVICE (device : UInt8) : UInt8 := (device &&& 1) <<< 4

def ATA_STAT_BUSY : UInt8 := 0x80
def ATA_STAT_DRQ : UInt8 := 0x08
def ATA_STAT_ERR : UInt8 := 0x01

def ATA_CMD_READ : UInt8 := 0x20
def ATA_CMD_WRITE : UInt8 := 0x30
def ATA_CMD_CHK_PWR : UInt8 := 0xE5
def ATA_CMD_READ_EXT : UInt8 := 0x24
def ATA_CMD_WRITE_EXT : UInt8 := 0x34

namespace State

def outb (state : State) (port : Port) (val : UInt8) : State :=
  { state with registers := Function.update state.registers port ⟨(state.registers port).last, val⟩ }

def outDevHd (state : State) (val : UInt8) : State := { state with devHd := val }

def sector28 (state : State) : Nat :=
  (state.registers .ATA_LBA_LOW).last.toNat + (state.registers .ATA_LBA_MID).last.toNat * 2 ^ 8 +
    (state.registers .ATA_LBA_HIGH).last.toNat * 2 ^ 16 + (state.devHd &&& 0x0F).toNat * 2 ^ 24

def sector48 (state : State) : Nat :=
  (state.registers .ATA_LBA_LOW).last.toNat + (state.registers .ATA_LBA_MID).last.toNat * 2 ^ 8 +
    (state.registers .ATA_LBA_HIGH).last.toNat * 2 ^ 16 +
    (state.registers .ATA_LBA_LOW).previous.toNat * 2 ^ 24 +
    (state.registers .ATA_LBA_MID).previous.toNat * 2 ^ 32 +
    (state.registers .ATA_LBA_HIGH).previous.toNat * 2 ^ 40

/-- The count of sectors, where 0 stands for the most. -/
def count28 (state : State) : Nat :=
  let count := (state.registers .ATA_SECT_CNT).last.toNat
  if count = 0 then 256 else count

def count48 (state : State) : Nat :=
  let register := state.registers .ATA_SECT_CNT
  let count := register.last.toNat + register.previous.toNat * 2 ^ 8
  if count = 0 then 65536 else count

/-- The drive that is selected. -/
def drive (state : State) : Bool := state.devHd &&& 0x10 ≠ 0

/-- A command for the selected drive. Without the LBA bit it would address no sectors by number. -/
def command (state : State) (val : UInt8) : State :=
  { state with
    pending :=
      if state.devHd &&& 0x40 = 0 then none
      else if val = ATA_CMD_READ then some ⟨false, state.drive, state.sector28, state.count28⟩
      else if val = ATA_CMD_WRITE then some ⟨true, state.drive, state.sector28, state.count28⟩
      else if val = ATA_CMD_READ_EXT then some ⟨false, state.drive, state.sector48, state.count48⟩
      else if val = ATA_CMD_WRITE_EXT then some ⟨true, state.drive, state.sector48, state.count48⟩
      else none }

def next (pending : Pending) : Option Pending :=
  if pending.left ≤ 1 then none
  else some { pending with sector := pending.sector + 1, left := pending.left - 1 }

/-- input_data of a sector to a place of the buffer. -/
def inputData (state : State) (place : Nat) : State :=
  match state.pending with
  | some pending =>
      if pending.write then state
      else { state with
        buffer := Function.update state.buffer place (state.disk pending.drive pending.sector)
        pending := next pending }
  | none => state

/-- output_data of a sector from a place of the buffer, which the drive may fail to store. -/
def outputData (state : State) (place : Nat) (stored : Bool) : State :=
  match state.pending with
  | some pending =>
      if pending.write then { state with
        disk :=
          if stored then
            Function.update state.disk pending.drive
              (Function.update (state.disk pending.drive) pending.sector (state.buffer place))
          else state.disk
        pending := next pending }
      else state
  | none => state

end State

/-- What the drive answers: the status behind its selection and behind ATA_CMD_CHK_PWR, in turn `i` in
front of the command and behind it, and whether it stores the sector that it has got then. -/
structure Answers where
  selected : UInt8
  power : UInt8
  before : Nat → UInt8
  after : Nat → UInt8
  stored : Nat → Bool

/-! ### The code -/

/-- More than 28 bits of the address are used. -/
def usesLba48 (blknr : UInt64) : Bool := blknr &&& 0x0000fffff0000000 ≠ 0

/-- The registers and the command of one sector. -/
def issue (write lba48 : Bool) (device : UInt8) (blknr : UInt64) (state : State) : State :=
  let state :=
    if lba48 then
      (((state.outb .ATA_SECT_CNT 0).outb .ATA_LBA_LOW (blknr >>> 24).toUInt8).outb
        .ATA_LBA_MID (blknr >>> 32).toUInt8).outb .ATA_LBA_HIGH (blknr >>> 40).toUInt8
    else state
  let state :=
    (((state.outb .ATA_SECT_CNT 1).outb .ATA_LBA_LOW (blknr >>> 0).toUInt8).outb
      .ATA_LBA_MID (blknr >>> 8).toUInt8).outb .ATA_LBA_HIGH (blknr >>> 16).toUInt8
  if lba48 then
    (state.outDevHd ( ATA_LBA ||| ATA_DEVICE device)).command
      (if write then ATA_CMD_WRITE_EXT else ATA_CMD_READ_EXT)
  else
    (state.outDevHd ( ATA_LBA ||| ATA_DEVICE device ||| ((blknr >>> 24).toUInt8 &&& 0xF))).command
      (if write then ATA_CMD_WRITE else ATA_CMD_READ)

/-- The loop over the sectors, behind the first `n` of them. -/
def transferLoop (write lba48 : Bool) (device : UInt8) (answers : Answers) :
    (blkcnt n : Nat) → (blknr : UInt64) → State → Nat × State
  | 0, n, _, state => (n, state)
  | blkcnt + 1, n, blknr, state =>
      if answers.before n &&& ATA_STAT_BUSY ≠ 0 then (n, state)
      else
        let state := issue write lba48 device blknr state
        if answers.after n &&& ( ATA_STAT_DRQ ||| ATA_STAT_BUSY ||| ATA_STAT_ERR) ≠ ATA_STAT_DRQ then
          (n, state)
        else
          let state := if write then state.outputData n (answers.stored n) else state.inputData n
          transferLoop write lba48 device answers blkcnt (n + 1) (blknr + 1) state

/-- ide_read: the count of sectors, and the state behind it. A drive in power save mode is only waited
for longer. -/
def ideRead (device : UInt8) (blknr : UInt64) (blkcnt : UInt32) (answers : Answers) (state : State) :
    Nat × State :=
  let state := state.outDevHd ( ATA_LBA ||| ATA_DEVICE device)
  if answers.selected &&& ATA_STAT_BUSY ≠ 0 then (0, state)
  else
    let state := state.command ATA_CMD_CHK_PWR
    if answers.power &&& ATA_STAT_BUSY ≠ 0 then (0, state)
    else transferLoop false (usesLba48 blknr) device answers blkcnt.toNat 0 blknr state

def ideWrite (device : UInt8) (blknr : UInt64) (blkcnt : UInt32) (answers : Answers) (state : State) :
    Nat × State :=
  let state := state.outDevHd ( ATA_LBA ||| ATA_DEVICE device)
  transferLoop true (usesLba48 blknr) device answers blkcnt.toNat 0 blknr state

/-! ### What a transfer is to do -/

/-- The drive of a device number. -/
def driveOf (device : UInt8) : Bool := device &&& 1 ≠ 0

/-- The first sectors of the buffer come from the disk, and nothing else changes. -/
structure Read (device : UInt8) (blknr : UInt64) (before : State) (result : Nat × State) : Prop where
  disk : result.2.disk = before.disk
  inside : ∀ i < result.1, result.2.buffer i = before.disk (driveOf device) (blknr.toNat + i)
  outside : ∀ i, result.1 ≤ i → result.2.buffer i = before.buffer i

/-- The first sectors of the buffer go to the disk, and nothing else changes. -/
structure Written (device : UInt8) (blknr : UInt64) (before : State) (result : Nat × State) : Prop where
  buffer : result.2.buffer = before.buffer
  inside : ∀ i < result.1, result.2.disk (driveOf device) (blknr.toNat + i) = before.buffer i
  outside : ∀ sector, sector < blknr.toNat ∨ blknr.toNat + result.1 ≤ sector →
    result.2.disk (driveOf device) sector = before.disk (driveOf device) sector
  other : result.2.disk (!driveOf device) = before.disk (!driveOf device)

/-- The drive takes the command of a turn, and asks for data. -/
def Takes (answers : Answers) (turn : Nat) : Prop :=
  answers.before turn &&& ATA_STAT_BUSY = 0 ∧
    answers.after turn &&& ( ATA_STAT_DRQ ||| ATA_STAT_BUSY ||| ATA_STAT_ERR) = ATA_STAT_DRQ

/-- The turn is one of the transfer, and is made: the drive takes all commands up to its own. -/
def Accepted (answers : Answers) (blkcnt : UInt32) (turn : Nat) : Prop :=
  turn < blkcnt.toNat ∧ ∀ j ≤ turn, Takes answers j

/-- The sectors that can be named, with the way of addressing that the first one needs. -/
def limit (blknr : UInt64) : Nat := if usesLba48 blknr then 2 ^ 48 else 2 ^ 28

/-! ### One sector -/

/-- The sector that a command names. -/
def sectorOf (lba48 : Bool) (blknr : UInt64) : Nat := blknr.toNat % if lba48 then 2 ^ 48 else 2 ^ 28

section Select

theorem device_bit (device : UInt8) : device &&& 1 = 0 ∨ device &&& 1 = 1 := by
  have small : (device &&& 1).toNat ≤ 1 := by
    rw [UInt8.toNat_and]
    exact Nat.and_le_right
  rcases Nat.le_one_iff_eq_zero_or_eq_one.mp small with zero | one
  · exact .inl (UInt8.toNat_inj.mp zero)
  · exact .inr (UInt8.toNat_inj.mp one)

/-- The drive and head register: the LBA bit, the drive and four address bits. -/
theorem select_bits (device high : UInt8) :
    (ATA_LBA ||| ATA_DEVICE device ||| (high &&& 0xF)) &&& 0x40 ≠ 0 ∧
      (decide ((ATA_LBA ||| ATA_DEVICE device ||| (high &&& 0xF)) &&& 0x10 ≠ 0)) = driveOf device ∧
      (ATA_LBA ||| ATA_DEVICE device ||| (high &&& 0xF)) &&& 0x0F = high &&& 0xF := by
  have nibble : ∀ k : Fin 16, ∀ bit : Fin 2,
      (ATA_LBA ||| (UInt8.ofNat bit.val <<< 4) ||| UInt8.ofNat k.val) &&& 0x40 ≠ 0 ∧
        (decide ((ATA_LBA ||| (UInt8.ofNat bit.val <<< 4) ||| UInt8.ofNat k.val) &&& 0x10 ≠ 0)) =
          decide (UInt8.ofNat bit.val ≠ 0) ∧
        (ATA_LBA ||| (UInt8.ofNat bit.val <<< 4) ||| UInt8.ofNat k.val) &&& 0x0F =
          UInt8.ofNat k.val := by
    decide
  have low : (high &&& 0xF).toNat < 16 := by
    rw [UInt8.toNat_and]
    exact Nat.lt_succ_of_le Nat.and_le_right
  have bit : (device &&& 1).toNat < 2 := by
    rw [UInt8.toNat_and]
    exact Nat.lt_succ_of_le Nat.and_le_right
  have facts := nibble ⟨(high &&& 0xF).toNat, low⟩ ⟨(device &&& 1).toNat, bit⟩
  rw [UInt8.ofNat_toNat, UInt8.ofNat_toNat] at facts
  exact facts

end Select

section Issue
variable (write : Bool) (device : UInt8) (blknr : UInt64) (state : State)

@[simp] theorem outb_same (port : Port) (val : UInt8) :
    (state.outb port val).registers port = ⟨(state.registers port).last, val⟩ :=
  Function.update_self _ _ _

@[simp] theorem outb_other {port other : Port} (different : other ≠ port) (val : UInt8) :
    (state.outb port val).registers other = state.registers other :=
  Function.update_of_ne different _ _

theorem issue_same (lba48 : Bool) : (issue write lba48 device blknr state).disk = state.disk ∧
    (issue write lba48 device blknr state).buffer = state.buffer := by
  cases lba48 <;> exact ⟨rfl, rfl⟩

theorem issue_lba28 : (issue write false device blknr state).pending =
    some ⟨write, driveOf device, sectorOf false blknr, 1⟩ := by
  obtain ⟨lba, drive, head⟩ := select_bits device (blknr >>> 24).toUInt8
  have nibble : ((blknr >>> 24).toUInt8 &&& 0xF).toNat = blknr.toNat / 2 ^ 24 % 16 := by
    have byte : (blknr >>> 24).toUInt8.toNat = blknr.toNat / 2 ^ 24 % 2 ^ 8 := by
      rw [UInt64.toNat_toUInt8, UInt64.toNat_shiftRight, Nat.shiftRight_eq_div_pow]
      rfl
    have mask := Nat.and_two_pow_sub_one_eq_mod (blknr.toNat / 2 ^ 24 % 2 ^ 8) 4
    rw [UInt8.toNat_and, byte, show ((0xF : UInt8).toNat) = 2 ^ 4 - 1 from rfl, mask]
    omega
  have sector : sectorOf false blknr =
      (blknr >>> 0).toUInt8.toNat + (blknr >>> 8).toUInt8.toNat * 2 ^ 8 +
        (blknr >>> 16).toUInt8.toNat * 2 ^ 16 + ((blknr >>> 24).toUInt8 &&& 0xF).toNat * 2 ^ 24 := by
    rw [nibble]
    simp only [sectorOf, UInt64.toNat_toUInt8, UInt64.toNat_shiftRight, Nat.shiftRight_eq_div_pow]
    simp
    omega
  simp only [issue, State.command, State.outDevHd]
  generalize ATA_LBA ||| ATA_DEVICE device ||| ((blknr >>> 24).toUInt8 &&& 0xF) = val at lba drive head
  rw [sector, ← drive, ← head]
  cases write <;> simp [lba, State.sector28, State.count28, State.drive, ATA_CMD_READ, ATA_CMD_WRITE]

theorem issue_lba48 : (issue write true device blknr state).pending =
    some ⟨write, driveOf device, sectorOf true blknr, 1⟩ := by
  obtain ⟨lba, drive, _⟩ := select_bits device 0
  have none_high : ATA_LBA ||| ATA_DEVICE device ||| (0 &&& 0xF) = ATA_LBA ||| ATA_DEVICE device := by
    simp
  rw [none_high] at lba drive
  have sector : sectorOf true blknr =
      (blknr >>> 0).toUInt8.toNat + (blknr >>> 8).toUInt8.toNat * 2 ^ 8 +
        (blknr >>> 16).toUInt8.toNat * 2 ^ 16 + (blknr >>> 24).toUInt8.toNat * 2 ^ 24 +
        (blknr >>> 32).toUInt8.toNat * 2 ^ 32 + (blknr >>> 40).toUInt8.toNat * 2 ^ 40 := by
    simp only [sectorOf, UInt64.toNat_toUInt8, UInt64.toNat_shiftRight, Nat.shiftRight_eq_div_pow]
    simp
    omega
  rw [sector, ← drive]
  simp only [issue, State.command, State.outDevHd]
  cases write <;> simp [lba, State.sector48, State.count48, State.drive, ATA_CMD_READ, ATA_CMD_WRITE,
    ATA_CMD_READ_EXT, ATA_CMD_WRITE_EXT]

theorem issue_pending (lba48 : Bool) : (issue write lba48 device blknr state).pending =
    some ⟨write, driveOf device, sectorOf lba48 blknr, 1⟩ := by
  cases lba48
  · exact issue_lba28 write device blknr state
  · exact issue_lba48 write device blknr state

end Issue

/-! ### The loop -/

section Loop
variable {write lba48 : Bool} {device : UInt8} {answers : Answers}

/-- The sector of a turn. -/
def sectorAt (lba48 : Bool) (blknr : UInt64) (turn : Nat) : Nat :=
  sectorOf lba48 (blknr + UInt64.ofNat turn)

theorem sector_at_eq (blknr : UInt64) (turn : Nat) :
    sectorAt lba48 blknr turn = (blknr.toNat + turn) % if lba48 then 2 ^ 48 else 2 ^ 28 := by
  rw [sectorAt, sectorOf, UInt64.toNat_add, UInt64.toNat_ofNat', Nat.add_mod_mod]
  cases lba48
  · exact Nat.mod_mod_of_dvd _ (by decide)
  · exact Nat.mod_mod_of_dvd _ (by decide)

theorem next_block (blknr : UInt64) (turn : Nat) :
    blknr + UInt64.ofNat turn + 1 = blknr + UInt64.ofNat (turn + 1) := by
  rw [UInt64.ofNat_add, UInt64.add_assoc]
  rfl

/-- The state behind a turn that is made. -/
def turn (write lba48 : Bool) (device : UInt8) (answers : Answers) (n : Nat) (blknr : UInt64)
    (state : State) : State :=
  if write then (issue write lba48 device blknr state).outputData n (answers.stored n)
  else (issue write lba48 device blknr state).inputData n

/-- A sector that is read. -/
theorem turn_read (blknr : UInt64) (n : Nat) (state : State) :
    (turn false lba48 device answers n (blknr + UInt64.ofNat n) state).disk = state.disk ∧
      (turn false lba48 device answers n (blknr + UInt64.ofNat n) state).buffer =
        Function.update state.buffer n (state.disk (driveOf device) (sectorAt lba48 blknr n)) := by
  obtain ⟨disk, buffer⟩ := issue_same false device (blknr + UInt64.ofNat n) state lba48
  simp only [turn, Bool.false_eq_true, if_false, State.inputData, issue_pending]
  exact ⟨disk, by rw [disk, buffer]; rfl⟩

/-- A sector that is written, if the drive stores it. -/
theorem turn_written (blknr : UInt64) (n : Nat) (state : State) :
    (turn true lba48 device answers n (blknr + UInt64.ofNat n) state).buffer = state.buffer ∧
      (turn true lba48 device answers n (blknr + UInt64.ofNat n) state).disk =
        if answers.stored n then
          Function.update state.disk (driveOf device)
            (Function.update (state.disk (driveOf device)) (sectorAt lba48 blknr n) (state.buffer n))
        else state.disk := by
  obtain ⟨disk, buffer⟩ := issue_same true device (blknr + UInt64.ofNat n) state lba48
  simp only [turn, if_true, State.outputData, issue_pending]
  exact ⟨buffer, by rw [disk, buffer]; rfl⟩

theorem loop_takes {blkcnt n : Nat} {blknr : UInt64} {state : State} (takes : Takes answers n) :
    transferLoop write lba48 device answers (blkcnt + 1) n blknr state =
      transferLoop write lba48 device answers blkcnt (n + 1) (blknr + 1)
        (turn write lba48 device answers n blknr state) := by
  rw [transferLoop, if_neg (fun busy => busy takes.1)]
  dsimp only
  rw [if_neg (fun failed => failed takes.2)]
  rfl

theorem loop_refused {blkcnt n : Nat} {blknr : UInt64} {state : State} (refused : ¬ Takes answers n) :
    (transferLoop write lba48 device answers (blkcnt + 1) n blknr state).1 = n ∧
      (transferLoop write lba48 device answers (blkcnt + 1) n blknr state).2.disk = state.disk ∧
      (transferLoop write lba48 device answers (blkcnt + 1) n blknr state).2.buffer = state.buffer := by
  rw [transferLoop]
  split
  · exact ⟨rfl, rfl, rfl⟩
  · rename_i ready
    have failed : answers.after n &&& ( ATA_STAT_DRQ ||| ATA_STAT_BUSY ||| ATA_STAT_ERR) ≠ ATA_STAT_DRQ :=
      fun asks => refused ⟨not_not.mp ready, asks⟩
    rw [if_pos failed]
    exact ⟨rfl, issue_same write device blknr state lba48⟩

/-- The turns that are made are those up to the first command that the drive does not take. -/
theorem loop_count {blkcnt n : Nat} {blknr : UInt64} {state : State} :
    n ≤ (transferLoop write lba48 device answers blkcnt n blknr state).1 ∧
      ∀ i, n ≤ i → (i < (transferLoop write lba48 device answers blkcnt n blknr state).1 ↔
        i < n + blkcnt ∧ ∀ j, n ≤ j → j ≤ i → Takes answers j) := by
  induction blkcnt generalizing n blknr state with
  | zero => exact ⟨Nat.le_refl n, fun i after => ⟨fun before => absurd before (Nat.not_lt.mpr after),
      fun both => absurd both.1 (Nat.not_lt.mpr after)⟩⟩
  | succ blkcnt ih =>
      by_cases takes : Takes answers n
      · rw [loop_takes takes]
        obtain ⟨further, counted⟩ := @ih (n + 1) (blknr + 1) (turn write lba48 device answers n blknr state)
        refine ⟨by omega, fun i after => ?_⟩
        by_cases here : i = n
        · subst here
          refine iff_of_true further ⟨by omega, fun j above below => ?_⟩
          rwa [Nat.le_antisymm below above]
        · rw [counted i (by omega)]
          constructor
          · rintro ⟨below, all⟩
            refine ⟨by omega, fun j above within => ?_⟩
            by_cases first : j = n
            · rwa [first]
            · exact all j (by omega) within
          · rintro ⟨below, all⟩
            exact ⟨by omega, fun j above => all j (by omega)⟩
      · rw [(loop_refused takes).1]
        exact ⟨Nat.le_refl n, fun i after => iff_of_false (Nat.not_lt.mpr after)
          fun both => takes (both.2 n (Nat.le_refl n) after)⟩

/-- The sectors that a loop reads. -/
theorem loop_read {blkcnt n : Nat} (blknr : UInt64) (state : State) :
    let result := transferLoop false lba48 device answers blkcnt n (blknr + UInt64.ofNat n) state
    result.2.disk = state.disk ∧
      (∀ i, n ≤ i → i < result.1 →
        result.2.buffer i = state.disk (driveOf device) (sectorAt lba48 blknr i)) ∧
      ∀ i, i < n ∨ result.1 ≤ i → result.2.buffer i = state.buffer i := by
  induction blkcnt generalizing n state with
  | zero => exact ⟨rfl, fun i after before => absurd before (Nat.not_lt.mpr after), fun _ _ => rfl⟩
  | succ blkcnt ih =>
      by_cases takes : Takes answers n
      · have count := (@loop_count false lba48 device answers blkcnt (n + 1)
          (blknr + UInt64.ofNat (n + 1)) (turn false lba48 device answers n (blknr + UInt64.ofNat n) state)).1
        rw [loop_takes takes, next_block]
        obtain ⟨disk, inside, outside⟩ := @ih (n + 1) (turn false lba48 device answers n (blknr + UInt64.ofNat n) state)
        obtain ⟨same, buffer⟩ := @turn_read lba48 device answers blknr n state
        refine ⟨disk.trans same, fun i after before => ?_, fun i away => ?_⟩
        · by_cases here : i = n
          · subst here
            rw [outside i (.inl (Nat.lt_succ_self i)), buffer, Function.update_self]
          · rw [inside i (by omega) before, same]
        · rw [outside i (by omega), buffer, Function.update_of_ne (by omega)]
      · obtain ⟨count, disk, buffer⟩ := @loop_refused false lba48 device answers blkcnt n
          (blknr + UInt64.ofNat n) state takes
        dsimp only
        rw [count]
        exact ⟨disk, fun i after before => absurd before (Nat.not_lt.mpr after),
          fun i _ => congrFun buffer i⟩

/-- The sectors that a loop may write, and what it does not touch. -/
theorem loop_written {blkcnt n : Nat} (blknr : UInt64) (state : State) :
    let result := transferLoop true lba48 device answers blkcnt n (blknr + UInt64.ofNat n) state
    result.2.buffer = state.buffer ∧
      result.2.disk (!driveOf device) = state.disk (!driveOf device) ∧
      ∀ sector, result.2.disk (driveOf device) sector = state.disk (driveOf device) sector ∨
        ∃ i, n ≤ i ∧ i < result.1 ∧ answers.stored i = true ∧ sectorAt lba48 blknr i = sector ∧
          result.2.disk (driveOf device) sector = state.buffer i := by
  induction blkcnt generalizing n state with
  | zero => exact ⟨rfl, rfl, fun _ => .inl rfl⟩
  | succ blkcnt ih =>
      by_cases takes : Takes answers n
      · have count := (@loop_count true lba48 device answers blkcnt (n + 1)
          (blknr + UInt64.ofNat (n + 1)) (turn true lba48 device answers n (blknr + UInt64.ofNat n) state)).1
        rw [loop_takes takes, next_block]
        obtain ⟨buffer, other, cases⟩ := @ih (n + 1)
          (turn true lba48 device answers n (blknr + UInt64.ofNat n) state)
        obtain ⟨same, disk⟩ := @turn_written lba48 device answers blknr n state
        rw [same] at buffer cases
        rw [disk] at other cases
        refine ⟨buffer, ?_, fun sector => ?_⟩
        · rw [other]
          split
          · exact Function.update_of_ne (by simp) _ _
          · rfl
        · rcases cases sector with unchanged | ⟨i, after, before, stored, place, value⟩
          · by_cases stored : answers.stored n = true
            · rw [if_pos stored, Function.update_self] at unchanged
              by_cases here : sector = sectorAt lba48 blknr n
              · refine .inr ⟨n, Nat.le_refl n, count, stored, here.symm, ?_⟩
                rw [unchanged, here, Function.update_self]
              · rw [Function.update_of_ne here] at unchanged
                exact .inl unchanged
            · rw [if_neg stored] at unchanged
              exact .inl unchanged
          · exact .inr ⟨i, by omega, before, stored, place, value⟩
      · obtain ⟨_, disk, buffer⟩ := @loop_refused true lba48 device answers blkcnt n
          (blknr + UInt64.ofNat n) state takes
        dsimp only
        rw [disk, buffer]
        exact ⟨rfl, rfl, fun _ => .inl rfl⟩

/-- A sector that the drive stores in one turn alone holds that turn's part of the buffer. -/
theorem loop_stored {blkcnt n i : Nat} (blknr : UInt64) (state : State) (after : n ≤ i)
    (stored : answers.stored i = true)
    (alone : ∀ j, n ≤ j → j ≠ i → sectorAt lba48 blknr j ≠ sectorAt lba48 blknr i ∨
      (transferLoop true lba48 device answers blkcnt n (blknr + UInt64.ofNat n) state).1 ≤ j) :
    let result := transferLoop true lba48 device answers blkcnt n (blknr + UInt64.ofNat n) state
    i < result.1 → result.2.disk (driveOf device) (sectorAt lba48 blknr i) = state.buffer i := by
  induction blkcnt generalizing n state with
  | zero => exact fun before => absurd before (Nat.not_lt.mpr after)
  | succ blkcnt ih =>
      by_cases takes : Takes answers n
      · rw [loop_takes takes, next_block] at alone ⊢
        intro result before
        obtain ⟨same, disk⟩ := @turn_written lba48 device answers blknr n state
        by_cases here : i = n
        · subst here
          obtain ⟨_, _, cases⟩ := @loop_written lba48 device answers blkcnt (i + 1) blknr
            (turn true lba48 device answers i (blknr + UInt64.ofNat i) state)
          rcases cases (sectorAt lba48 blknr i) with unchanged | ⟨j, later, within, _, place, _⟩
          · refine unchanged.trans ?_
            rw [disk, if_pos stored, Function.update_self, Function.update_self]
          · rcases alone j (by omega) (by omega) with apart | past
            · exact absurd place apart
            · exact absurd within (Nat.not_lt.mpr past)
        · have later := ih (turn true lba48 device answers n (blknr + UInt64.ofNat n) state)
            (show n + 1 ≤ i by omega) (fun j above => alone j (by omega)) before
          rw [same] at later
          exact later
      · intro result before
        rw [show result.1 = n from (loop_refused takes).1] at before
        exact absurd before (Nat.not_lt.mpr after)

end Loop

/-! ### The transfers -/

section Transfers
variable (device : UInt8) (blknr : UInt64) (blkcnt : UInt32) (answers : Answers)

theorem sector_below (turn : Nat) : sectorAt (usesLba48 blknr) blknr turn < limit blknr := by
  rw [sector_at_eq, limit]
  exact Nat.mod_lt _ (by split <;> decide)

theorem sector_own {turn : Nat} (below : blknr.toNat + turn < limit blknr) :
    sectorAt (usesLba48 blknr) blknr turn = blknr.toNat + turn := by
  rw [sector_at_eq]
  exact Nat.mod_eq_of_lt below

/-- The turns that are made are the accepted ones. -/
theorem accepted_iff (write : Bool) (state : State) (turn : Nat) :
    turn < (transferLoop write (usesLba48 blknr) device answers blkcnt.toNat 0
      (blknr + UInt64.ofNat 0) state).1 ↔ Accepted answers blkcnt turn := by
  rw [loop_count.2 turn (Nat.zero_le turn), Nat.zero_add]
  simp only [Accepted, Nat.zero_le, true_imp_iff]

/-- A buffer or a disk of one byte. -/
def filled (byte : UInt8) : Sector := fun _ => byte

theorem filled_apart : filled 0 ≠ filled 1 := by
  intro same
  exact absurd (congrFun same 0) (by decide)

/-- A state with a disk and a buffer. -/
def stateWith (disk : Bool → Nat → Sector) (buffer : Nat → Sector) : State :=
  ⟨fun _ => ⟨0, 0⟩, 0, none, disk, buffer⟩

/-- Without a sector nothing changes. -/
theorem read_none {state after : State} (disk : after.disk = state.disk)
    (buffer : after.buffer = state.buffer) : Read device blknr state (0, after) :=
  ⟨disk, fun i before => absurd before (Nat.not_lt_zero i), fun i _ => congrFun buffer i⟩

/-- ide_read behind the tests of the selected drive. -/
theorem ide_read_loop (selected : answers.selected &&& ATA_STAT_BUSY = 0)
    (power : answers.power &&& ATA_STAT_BUSY = 0) (state : State) :
    ideRead device blknr blkcnt answers state =
      transferLoop false (usesLba48 blknr) device answers blkcnt.toNat 0 (blknr + UInt64.ofNat 0)
        ((state.outDevHd ( ATA_LBA ||| ATA_DEVICE device)).command ATA_CMD_CHK_PWR) := by
  have start : blknr + UInt64.ofNat 0 = blknr := UInt64.add_zero blknr
  rw [ideRead, start]
  dsimp only
  rw [if_neg (not_not.mpr selected), if_neg (not_not.mpr power)]

/-- ide_read transfers the sectors that it counts if each of them can be named with the addressing that
the first one needs. -/
theorem read_iff :
    (∀ state, Read device blknr state (ideRead device blknr blkcnt answers state)) ↔
      (answers.selected &&& ATA_STAT_BUSY = 0 → answers.power &&& ATA_STAT_BUSY = 0 →
        ∀ turn, Accepted answers blkcnt turn → blknr.toNat + turn < limit blknr) := by
  constructor
  · intro reads selected power turn accepted
    by_contra beyond
    have below := sector_below blknr turn
    have read := reads (stateWith
      (fun _ sector => filled (if sector = blknr.toNat + turn then 1 else 0)) fun _ => filled 0)
    rw [ide_read_loop device blknr blkcnt answers selected power] at read
    have made := fun state => (accepted_iff device blknr blkcnt answers false state turn).mpr accepted
    have wanted := read.inside turn (made _)
    rw [(loop_read blknr _).2.1 turn (Nat.zero_le turn) (made _)] at wanted
    have other : sectorAt (usesLba48 blknr) blknr turn ≠ blknr.toNat + turn := by omega
    apply filled_apart
    simpa [stateWith, State.command, State.outDevHd, other] using wanted
  · intro named state
    by_cases selected : answers.selected &&& ATA_STAT_BUSY = 0
    · by_cases power : answers.power &&& ATA_STAT_BUSY = 0
      · rw [ide_read_loop device blknr blkcnt answers selected power]
        obtain ⟨disk, inside, outside⟩ := @loop_read (usesLba48 blknr) device answers blkcnt.toNat 0 blknr
          ((state.outDevHd ( ATA_LBA ||| ATA_DEVICE device)).command ATA_CMD_CHK_PWR)
        refine ⟨disk, fun i before => ?_, fun i past => outside i (.inr past)⟩
        have accepted := (accepted_iff device blknr blkcnt answers false _ i).mp before
        have own := sector_own blknr (named selected power i accepted)
        rw [inside i (Nat.zero_le i) before, own]
        rfl
      · have left : ideRead device blknr blkcnt answers state =
            (0, (state.outDevHd ( ATA_LBA ||| ATA_DEVICE device)).command ATA_CMD_CHK_PWR) := by
          rw [ideRead]
          dsimp only
          rw [if_neg (not_not.mpr selected), if_pos power]
        rw [left]
        exact read_none device blknr rfl rfl
    · have left : ideRead device blknr blkcnt answers state =
          (0, state.outDevHd ( ATA_LBA ||| ATA_DEVICE device)) := by
        rw [ideRead]
        dsimp only
        rw [if_pos selected]
      rw [left]
      exact read_none device blknr rfl rfl

/-- ide_write transfers the sectors that it counts if each of them can be named like that, and the drive
has stored it. -/
theorem write_iff :
    (∀ state, Written device blknr state (ideWrite device blknr blkcnt answers state)) ↔
      ∀ turn, Accepted answers blkcnt turn →
        blknr.toNat + turn < limit blknr ∧ answers.stored turn = true := by
  have start : blknr + UInt64.ofNat 0 = blknr := UInt64.add_zero blknr
  have loop : ∀ state, ideWrite device blknr blkcnt answers state =
      transferLoop true (usesLba48 blknr) device answers blkcnt.toNat 0 (blknr + UInt64.ofNat 0)
        (state.outDevHd ( ATA_LBA ||| ATA_DEVICE device)) := by
    intro state
    rw [start]
    rfl
  constructor
  · intro writes turn accepted
    by_contra fails
    have written := writes (stateWith (fun _ _ => filled 0)
      fun place => filled (if place = turn then 1 else 0))
    rw [loop] at written
    have made := fun state => (accepted_iff device blknr blkcnt answers true state turn).mpr accepted
    have wanted := written.inside turn (made _)
    obtain ⟨_, _, cases⟩ := @loop_written (usesLba48 blknr) device answers blkcnt.toNat 0 blknr
      ((stateWith (fun _ _ => filled 0) fun place => filled (if place = turn then 1 else 0)).outDevHd
        ( ATA_LBA ||| ATA_DEVICE device))
    rcases cases (blknr.toNat + turn) with unchanged | ⟨i, _, _, stored, place, value⟩
    · rw [unchanged] at wanted
      apply filled_apart
      simpa [stateWith, State.outDevHd] using wanted
    · rw [value] at wanted
      by_cases same : i = turn
      · subst same
        have below := sector_below blknr i
        exact fails ⟨by omega, stored⟩
      · apply filled_apart
        simpa [stateWith, State.outDevHd, same] using wanted
  · intro named state
    rw [loop]
    obtain ⟨buffer, other, cases⟩ := @loop_written (usesLba48 blknr) device answers blkcnt.toNat 0 blknr
      (state.outDevHd ( ATA_LBA ||| ATA_DEVICE device))
    have own : ∀ i, i < (transferLoop true (usesLba48 blknr) device answers blkcnt.toNat 0
        (blknr + UInt64.ofNat 0) (state.outDevHd ( ATA_LBA ||| ATA_DEVICE device))).1 →
        sectorAt (usesLba48 blknr) blknr i = blknr.toNat + i ∧ answers.stored i = true := by
      intro i before
      have both := named i ((accepted_iff device blknr blkcnt answers true _ i).mp before)
      exact ⟨sector_own blknr both.1, both.2⟩
    refine ⟨buffer, fun i before => ?_, fun sector away => ?_, other⟩
    · have stored := @loop_stored (usesLba48 blknr) device answers blkcnt.toNat 0 i blknr
        (state.outDevHd ( ATA_LBA ||| ATA_DEVICE device)) (Nat.zero_le i) (own i before).2
        (fun j _ different => ?_) before
      · rw [(own i before).1] at stored
        exact stored
      · by_cases within : j < (transferLoop true (usesLba48 blknr) device answers blkcnt.toNat 0
            (blknr + UInt64.ofNat 0) (state.outDevHd ( ATA_LBA ||| ATA_DEVICE device))).1
        · rw [(own i before).1, (own j within).1]
          exact .inl (by omega)
        · exact .inr (Nat.not_lt.mp within)
    · rcases cases sector with unchanged | ⟨i, _, before, _, place, _⟩
      · exact unchanged
      · rw [(own i before).1] at place
        omega

/-- The exact conditions of both transfers. -/
theorem ide_transfers_iff :
    ((∀ state, Read device blknr state (ideRead device blknr blkcnt answers state)) ↔
      (answers.selected &&& ATA_STAT_BUSY = 0 → answers.power &&& ATA_STAT_BUSY = 0 →
        ∀ turn, Accepted answers blkcnt turn → blknr.toNat + turn < limit blknr)) ∧
    ((∀ state, Written device blknr state (ideWrite device blknr blkcnt answers state)) ↔
      ∀ turn, Accepted answers blkcnt turn →
        blknr.toNat + turn < limit blknr ∧ answers.stored turn = true) :=
  ⟨read_iff device blknr blkcnt answers, write_iff device blknr blkcnt answers⟩

end Transfers

/-- A drive that takes every command. -/
def willing : Answers := ⟨0x50, 0x50, fun _ => 0x50, fun _ => 0x58, fun _ => true⟩

/-- Two sectors from the last one of 28 bits on: the second one is written to sector 0. -/
theorem first_sector_overwritten :
    ¬ ∀ state, Written 0 0x0fffffff state (ideWrite 0 0x0fffffff 2 willing state) := by
  intro writes
  have ready : (0x50 : UInt8) &&& ATA_STAT_BUSY = 0 := by decide
  have asks : (0x58 : UInt8) &&& ( ATA_STAT_DRQ ||| ATA_STAT_BUSY ||| ATA_STAT_ERR) = ATA_STAT_DRQ := by decide
  have accepted : Accepted willing 2 1 := ⟨by decide, fun _ _ => ⟨ready, asks⟩⟩
  have below := (write_iff 0 0x0fffffff 2 willing).mp writes 1 accepted
  exact absurd below.1 (by decide)

end UBoot.Disk.IdeTransfer
