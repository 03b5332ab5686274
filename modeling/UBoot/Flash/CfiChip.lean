import UBoot.Library.NorFlash
import UBoot.Flash.CfiGetSize

/-!
A CFI flash at a port, as Intel's and AMD's command sets describe it: what a write does that its
command set has, for one word or for the write buffer. The chips of a port work side by side, and a
command goes to all of them. A word is programmed at once, and the wait behind it tells whether that
went well. What any other write does is left to the board.
-/

namespace UBoot.Flash.CfiChip

open Library.Memory Library.NorFlash CfiGetSize

def FLASH_CMD_RESET : UInt8 := 0xff
def FLASH_CMD_WRITE : UInt8 := 0x40
def FLASH_CMD_CLEAR_STATUS : UInt8 := 0x50
def FLASH_CMD_WRITE_TO_BUFFER : UInt8 := 0xE8
def FLASH_CMD_WRITE_BUFFER_CONFIRM : UInt8 := 0xD0

def AMD_CMD_RESET : UInt8 := 0xF0
def AMD_CMD_WRITE : UInt8 := 0xA0
def AMD_CMD_UNLOCK_START : UInt8 := 0xAA
def AMD_CMD_UNLOCK_ACK : UInt8 := 0x55
def AMD_CMD_WRITE_TO_BUFFER : UInt8 := 0x25
def AMD_CMD_WRITE_BUFFER_CONFIRM : UInt8 := 0x29

def CFI_CMDSET_AMD_STANDARD : Nat := 2
def CFI_CMDSET_AMD_EXTENDED : Nat := 4
def CFI_CMDSET_SST : Nat := 258

/-- The fields of flash_info_t that writing needs, as flash_get_size fills them; buffer_size is
1 << n in an unsigned short. -/
structure FlashInfo where
  portwidth : Nat
  chipwidth : Nat
  bufferSize : Nat
  vendor : Nat
  start : List UInt32
  port : portwidth ∈ portwidths
  chip : chipwidth ∈ portwidths ∧ chipwidth ≤ portwidth
  buffer : bufferSize = 0 ∨ ∃ n < 16, bufferSize = 2 ^ n

inductive CommandSet where
  | intel
  | amd
  | unknown
  deriving DecidableEq

def FlashInfo.commandSet (info : FlashInfo) : CommandSet :=
  if info.vendor = CFI_CMDSET_INTEL_EXTENDED ∨ info.vendor = CFI_CMDSET_INTEL_STANDARD then .intel
  else if info.vendor = CFI_CMDSET_AMD_EXTENDED ∨ info.vendor = CFI_CMDSET_AMD_STANDARD then .amd
  else .unknown

def FlashInfo.cmdReset (info : FlashInfo) : UInt8 :=
  if info.commandSet = .amd then AMD_CMD_RESET else FLASH_CMD_RESET

/-- The write buffers of the chips of a port, in bytes. -/
def FlashInfo.bufferedSize (info : FlashInfo) : Nat :=
  info.portwidth / info.chipwidth * info.bufferSize

def FlashInfo.amdAddrStart (info : FlashInfo) : Nat := if info.portwidth = 1 then 0xAAA else 0x555

def FlashInfo.amdAddrAck (info : FlashInfo) : Nat := if info.portwidth = 1 then 0x555 else 0x2AA

/-- A word that is written to the port. -/
structure BusWrite where
  addr : Nat
  data : List UInt8

inductive Mode where
  | array
  | status
  /-- One or both unlock cycles came. -/
  | unlock
  | unlocked
  /-- The next write is the word to program. -/
  | program
  /-- The next write is the count of the words for the buffer, less one. -/
  | bufferCount
  | bufferData (left : Nat) (held : List BusWrite)
  | bufferConfirm (held : List BusWrite)
  | busy

structure FlashState where
  cells : Nat → UInt8
  mode : Mode

/-- A board with a flash. -/
structure Board where
  /-- What the flash does on a write that its command set does not have. -/
  other : FlashState → BusWrite → FlashState
  /-- What is read when the flash does not show its array. -/
  shown : FlashState → Nat → UInt8
  /-- The status word that ends a wait, if it does not time out; the waits are counted. -/
  checks : Nat → Option (UInt32 → UInt8)
  /-- What the part of a cfiword_t holds that cword.l = 0 does not clear. -/
  stale : UInt64

section Chip
variable (config : Config) (info : FlashInfo) (board : Board)

/-- The bytes of a command word, in the order of their addresses. -/
def cmdWord (cmd : UInt8) : List UInt8 :=
  (List.range info.portwidth).map (flashMakeCmd config info.portwidth info.chipwidth cmd)

/-- The command of a word, when it is the same for every chip. -/
def command? (data : List UInt8) : Option UInt8 :=
  let cmd := (data[if config.bigEndian then info.chipwidth - 1 else 0]?).getD 0
  if data = cmdWord config info cmd then some cmd else none

def flashAddr (sect offset : Nat) : Nat :=
  (flashMakeAddr info.portwidth (info.start.getD sect 0) offset).toNat

/-- A write while the flash shows its array or its status. -/
def intelCommand (flash : FlashState) (write : BusWrite) : FlashState :=
  match command? config info write.data with
  | none => board.other flash write
  | some cmd =>
      if cmd = FLASH_CMD_CLEAR_STATUS then flash
      else if cmd = FLASH_CMD_WRITE then { flash with mode := .program }
      else if cmd = FLASH_CMD_WRITE_TO_BUFFER then { flash with mode := .bufferCount }
      else if cmd = FLASH_CMD_RESET then { flash with mode := .array }
      else board.other flash write

def unlockCycle (offset : Nat) (cmd : UInt8) (next : Mode) (flash : FlashState) (write : BusWrite) :
    FlashState :=
  if write.addr = flashAddr info 0 offset ∧ command? config info write.data = some cmd then
    { flash with mode := next }
  else board.other flash write

/-- A write behind the unlock cycles. -/
def amdCommand (flash : FlashState) (write : BusWrite) : FlashState :=
  match command? config info write.data with
  | none => board.other flash write
  | some cmd =>
      if cmd = AMD_CMD_WRITE then { flash with mode := .program }
      else if cmd = AMD_CMD_WRITE_TO_BUFFER then { flash with mode := .bufferCount }
      else board.other flash write

def confirmCommand : UInt8 :=
  if info.commandSet = .intel then FLASH_CMD_WRITE_BUFFER_CONFIRM else AMD_CMD_WRITE_BUFFER_CONFIRM

def burnAll (cells : Nat → UInt8) (writes : List BusWrite) : Nat → UInt8 :=
  writes.foldl (fun cells write => burn cells write.addr write.data) cells

/-- What the buffer waits for: more words, or the confirmation. -/
def awaiting : (left : Nat) → List BusWrite → Mode
  | 0, held => .bufferConfirm held
  | left + 1, held => .bufferData left held

/-- A write to the port. -/
def busWrite (flash : FlashState) (write : BusWrite) : FlashState :=
  match info.commandSet, flash.mode with
  | .unknown, _ | _, .busy => board.other flash write
  | .intel, .array | .intel, .status => intelCommand config info board flash write
  | .amd, .array => unlockCycle config info board info.amdAddrStart AMD_CMD_UNLOCK_START .unlock
      flash write
  | .amd, .unlock => unlockCycle config info board info.amdAddrAck AMD_CMD_UNLOCK_ACK .unlocked
      flash write
  | .amd, .unlocked => amdCommand config info board flash write
  | _, .program => { cells := burn flash.cells write.addr write.data, mode := .busy }
  | _, .bufferCount =>
      match command? config info write.data with
      | some count => { flash with mode := .bufferData count.toNat [] }
      | none => board.other flash write
  | _, .bufferData left held =>
      -- the buffer takes words of one block of its size
      if held.all fun first => first.addr / info.bufferedSize == write.addr / info.bufferedSize then
        { flash with mode := awaiting left (held ++ [write]) }
      else board.other flash write
  | _, .bufferConfirm held =>
      if write.data = cmdWord config info (confirmCommand info) then
        { cells := burnAll flash.cells held, mode := .busy }
      else board.other flash write
  | _, _ => board.other flash write

/-- The flash when a wait has ended. -/
def settle (flash : FlashState) : FlashState :=
  match flash.mode with
  | .busy => { flash with mode := if info.commandSet = .intel then .status else .array }
  | _ => flash

def readByte (flash : FlashState) (addr : Nat) : UInt8 :=
  match flash.mode with
  | .array => flash.cells addr
  | _ => board.shown flash addr

end Chip

section Widths
variable (info : FlashInfo)

theorem portwidth_pos : 0 < info.portwidth := by
  have port := info.port
  simp only [portwidths, List.mem_cons, List.not_mem_nil, or_false] at port
  omega

theorem chipwidth_pos : 0 < info.chipwidth := by
  obtain ⟨chip, -⟩ := info.chip
  simp only [portwidths, List.mem_cons, List.not_mem_nil, or_false] at chip
  omega

theorem chipwidth_divides : info.chipwidth ∣ info.portwidth := by
  obtain ⟨chip, le⟩ := info.chip
  have port := info.port
  simp only [portwidths, List.mem_cons, List.not_mem_nil, or_false] at port chip
  rcases port with port | port | port | port <;> rcases chip with chip | chip | chip | chip <;>
    rw [port, chip] at le ⊢ <;> revert le <;> decide

/-- A buffer that takes a word of each chip takes whole words of the port. -/
theorem buffered_words (holds : info.chipwidth ≤ info.bufferSize) :
    info.portwidth ∣ info.bufferedSize := by
  have divides : info.chipwidth ∣ info.bufferSize := by
    obtain ⟨chip, -⟩ := info.chip
    simp only [portwidths, List.mem_cons, List.not_mem_nil, or_false] at chip
    obtain ⟨k, width⟩ : ∃ k, info.chipwidth = 2 ^ k := by
      rcases chip with chip | chip | chip | chip
      · exact ⟨0, chip⟩
      · exact ⟨1, chip⟩
      · exact ⟨2, chip⟩
      · exact ⟨3, chip⟩
    rcases info.buffer with empty | ⟨n, -, size⟩
    · rw [empty]
      exact Nat.dvd_zero _
    · rw [width, size] at holds ⊢
      exact Nat.pow_dvd_pow 2 ((Nat.pow_le_pow_iff_right (by decide)).mp holds)
  have whole := Nat.mul_dvd_mul_left (info.portwidth / info.chipwidth) divides
  rwa [Nat.div_mul_cancel (chipwidth_divides info)] at whole

theorem buffered_pos (holds : 0 < info.bufferSize) : 0 < info.bufferedSize :=
  Nat.mul_pos (Nat.div_pos info.chip.2 (chipwidth_pos info)) holds

end Widths

section Writes
variable (config : Config) (info : FlashInfo) (board : Board)

/-- Every chip of the port reads the command. -/
theorem command_word (cmd : UInt8) :
    command? config info (cmdWord config info cmd) = some cmd := by
  have lane : ((cmdWord config info cmd)[
      if config.bigEndian then info.chipwidth - 1 else 0]?).getD 0 = cmd := by
    obtain ⟨chip, le⟩ := info.chip
    have port := info.port
    simp only [portwidths, List.mem_cons, List.not_mem_nil, or_false] at port chip
    unfold cmdWord flashMakeCmd
    cases config.bigEndian <;> rcases port with port | port | port | port <;>
      rcases chip with chip | chip | chip | chip <;>
      rw [port, chip] at le <;> first | omega | (rw [port, chip]; rfl)
  rw [command?]
  simp only [lane, if_true]

theorem bus_program (flash : FlashState) (write : BusWrite) (known : info.commandSet ≠ .unknown)
    (mode : flash.mode = .program) : busWrite config info board flash write =
      { cells := burn flash.cells write.addr write.data, mode := .busy } := by
  cases kind : info.commandSet with
  | unknown => exact absurd kind known
  | intel => simp only [busWrite, mode, kind]
  | amd => simp only [busWrite, mode, kind]

theorem bus_count (flash : FlashState) (addr : Nat) (count : UInt8)
    (known : info.commandSet ≠ .unknown) (mode : flash.mode = .bufferCount) :
    busWrite config info board flash ⟨addr, cmdWord config info count⟩ =
      { flash with mode := .bufferData count.toNat [] } := by
  cases kind : info.commandSet with
  | unknown => exact absurd kind known
  | intel => simp only [busWrite, mode, kind, command_word]
  | amd => simp only [busWrite, mode, kind, command_word]

theorem bus_data (flash : FlashState) (write : BusWrite) (left : Nat) (held : List BusWrite)
    (known : info.commandSet ≠ .unknown) (mode : flash.mode = .bufferData left held)
    (block : ∀ first ∈ held,
      first.addr / info.bufferedSize = write.addr / info.bufferedSize) :
    busWrite config info board flash write =
      { flash with mode := awaiting left (held ++ [write]) } := by
  have inside : (held.all fun first =>
      first.addr / info.bufferedSize == write.addr / info.bufferedSize) = true := by
    rw [List.all_eq_true]
    intro first member
    exact beq_iff_eq.mpr (block first member)
  cases kind : info.commandSet with
  | unknown => exact absurd kind known
  | intel => simp only [busWrite, mode, kind, inside, if_true]
  | amd => simp only [busWrite, mode, kind, inside, if_true]

theorem bus_confirm (flash : FlashState) (write : BusWrite) (held : List BusWrite)
    (known : info.commandSet ≠ .unknown) (mode : flash.mode = .bufferConfirm held) :
    busWrite config info board flash write =
      if write.data = cmdWord config info (confirmCommand info) then
        { cells := burnAll flash.cells held, mode := .busy }
      else board.other flash write := by
  cases kind : info.commandSet with
  | unknown => exact absurd kind known
  | intel => simp only [busWrite, mode, kind]
  | amd => simp only [busWrite, mode, kind]

theorem bus_busy (flash : FlashState) (write : BusWrite) (mode : flash.mode = .busy) :
    busWrite config info board flash write = board.other flash write := by
  cases kind : info.commandSet with
  | unknown => simp only [busWrite, mode, kind]
  | intel => simp only [busWrite, mode, kind]
  | amd => simp only [busWrite, mode, kind]

theorem bus_unknown (flash : FlashState) (write : BusWrite) (kind : info.commandSet = .unknown) :
    busWrite config info board flash write = board.other flash write := by
  simp only [busWrite, kind]

/-- The buffer takes the words of one block, as many as were counted. -/
theorem buffer_takes (writes : List BusWrite) (flash : FlashState) (held : List BusWrite)
    (left block : Nat) (known : info.commandSet ≠ .unknown)
    (mode : flash.mode = .bufferData left held) (enough : writes.length ≤ left + 1)
    (inside : ∀ write ∈ held ++ writes, write.addr / info.bufferedSize = block) :
    writes.foldl (busWrite config info board) flash = ⟨flash.cells,
      if writes.length = left + 1 then .bufferConfirm (held ++ writes)
      else .bufferData (left - writes.length) (held ++ writes)⟩ := by
  induction writes generalizing flash held left with
  | nil =>
      rw [List.append_nil, if_neg (by simp), List.length_nil, Nat.sub_zero, ← mode]
      rfl
  | cons write rest ih =>
      have here : ∀ first ∈ held,
          first.addr / info.bufferedSize = write.addr / info.bufferedSize := by
        intro first member
        rw [inside first (List.mem_append_left _ member),
          inside write (List.mem_append_right _ List.mem_cons_self)]
      have later : held ++ write :: rest = held ++ [write] ++ rest := by simp
      rw [List.length_cons] at enough ⊢
      rw [List.foldl_cons, bus_data config info board flash write left held known mode here]
      cases left with
      | zero =>
          have last : rest = [] := List.length_eq_zero_iff.mp (by omega)
          rw [last]
          rfl
      | succ left =>
          have tail := ih { flash with mode := awaiting (left + 1) (held ++ [write]) }
            (held ++ [write]) left rfl (by omega) (later ▸ inside)
          rw [tail, ← later, Nat.add_sub_add_right]
          simp only [Nat.add_right_cancel_iff]

end Writes

end UBoot.Flash.CfiChip
