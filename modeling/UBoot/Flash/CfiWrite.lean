import UBoot.Library.Loop
import UBoot.Flash.CfiChip

/-!
drivers/cfi_flash.c: write_buff. A range is written as one word at its unaligned start, words or
pieces of the write buffer, and one word at its end; the words at both ends are filled up from the
flash.
-/

namespace UBoot.Flash.CfiWrite

open Library.Memory Library.NorFlash Library.Loop CfiGetSize CfiChip

def FLASH_STATUS_DONE : UInt8 := 0x80
def FLASH_STATUS_ECLBS : UInt8 := 0x20
def FLASH_STATUS_PSLBS : UInt8 := 0x10
def FLASH_STATUS_DPS : UInt8 := 0x02

def ERR_OK : Int := 0
def ERR_TIMOUT : Int := 1
def ERR_NOT_ERASED : Int := 2
def ERR_PROTECTED : Int := 4
def ERR_INVAL : Int := 8

/-- The flash, and how many waits for it there were. -/
structure World where
  flash : FlashState
  waits : Nat

/-- A source and where it goes in the flash. -/
structure Request where
  src : Nat → UInt8
  addr : Nat
  cnt : Nat
  range : addr + cnt ≤ 2 ^ 32
  count : cnt < 2 ^ 32

/-- Where write_buff is: `pos` bytes of the source are behind it. -/
structure Part where
  wp : Nat
  cnt : Nat
  pos : Nat
  world : World

section Driver
variable (config : Config) (info : FlashInfo) (board : Board)

def portWrite (world : World) (write : BusWrite) : World :=
  { world with flash := busWrite config info board world.flash write }

def flashWriteCmd (sect offset : Nat) (cmd : UInt8) (world : World) : World :=
  portWrite config info board world ⟨flashAddr info sect offset, cmdWord config info cmd⟩

def flashUnlockSeq (sect : Nat) (world : World) : World :=
  flashWriteCmd config info board sect info.amdAddrAck AMD_CMD_UNLOCK_ACK
    (flashWriteCmd config info board sect info.amdAddrStart AMD_CMD_UNLOCK_START world)

def flashAddByte (cword : Nat) (c : UInt8) : Nat :=
  if info.portwidth = 1 then c.toNat
  else if config.bigEndian then (cword <<< 8 ||| c.toNat) % 2 ^ (8 * info.portwidth)
  else cword >>> 8 ||| c.toNat <<< (8 * (info.portwidth - 1))

/-- A cfiword_t in memory. -/
def memBytes (cword : Nat) : List UInt8 :=
  (List.range info.portwidth).map fun k =>
    UInt8.ofNat (cword >>> (8 * if config.bigEndian then info.portwidth - 1 - k else k))

/-- The word that flash_add_byte makes of bytes from cword.l = 0 on. -/
def assemble (bytes : List UInt8) : Nat :=
  bytes.foldl (flashAddByte config info) (if info.portwidth = 8 then board.stale.toNat else 0)

/-- The last sector that does not start behind an address. -/
def findSector (addr : Nat) : Nat :=
  ((List.range info.start.length).reverse.find? fun sector =>
    (info.start.getD sector 0).toNat ≤ addr).getD 0

def flashStatusCheck (sector : Nat) (world : World) : Int × World :=
  -- flash_is_busy knows Intel's and AMD's chips
  if info.commandSet = .unknown then (ERR_OK, world)
  else match board.checks world.waits with
    | none => (ERR_TIMOUT, flashWriteCmd config info board sector 0 info.cmdReset
        { world with waits := world.waits + 1 })
    | some _ => (ERR_OK, { flash := settle info world.flash, waits := world.waits + 1 })

/-- The code for Intel's status word. -/
def statusCode (status : UInt32 → UInt8) : Int :=
  let isset := flashIsset config status info.portwidth info.chipwidth 0 0
  if flashIsequal config status info.portwidth info.chipwidth 0 0 FLASH_STATUS_DONE then ERR_OK
  else if isset FLASH_STATUS_DPS then ERR_PROTECTED
  else if !isset (FLASH_STATUS_ECLBS ||| FLASH_STATUS_PSLBS) && isset FLASH_STATUS_ECLBS then
    ERR_NOT_ERASED
  else ERR_INVAL

def flashFullStatusCheck (sector : Nat) (world : World) : Int × World :=
  let (retcode, next) := flashStatusCheck config info board sector world
  if info.commandSet = .intel then
    let retcode := match board.checks world.waits with
      | some status => statusCode config info status
      | none => retcode
    (retcode, flashWriteCmd config info board sector 0 info.cmdReset next)
  else (retcode, next)

/-- The commands in front of a word. -/
def announceWord (world : World) : World :=
  match info.commandSet with
  | .intel => flashWriteCmd config info board 0 0 FLASH_CMD_WRITE
      (flashWriteCmd config info board 0 0 FLASH_CMD_CLEAR_STATUS world)
  | .amd => flashWriteCmd config info board 0 info.amdAddrStart AMD_CMD_WRITE
      (flashUnlockSeq config info board 0 world)
  | .unknown => world

def flashWriteCfiword (dest cword : Nat) (world : World) : Int × World :=
  let word := memBytes config info cword
  -- Check if Flash is (sufficiently) erased
  let held := slice (readByte board world.flash) dest info.portwidth
  if List.zipWith (· &&& ·) held word ≠ word then (2, world)
  else
    flashFullStatusCheck config info board (findSector info dest)
      (portWrite config info board (announceWord config info board world) ⟨dest, word⟩)

/-- The words of a piece of the source. -/
def words (src : Nat → UInt8) (dest pos cnt : Nat) : List BusWrite :=
  (List.range cnt).map fun i =>
    ⟨dest + i * info.portwidth, slice src (pos + i * info.portwidth) info.portwidth⟩

/-- The count, the words, the confirmation and the wait behind it. -/
def fillBuffer (src : Nat → UInt8) (sector dest pos cnt : Nat) (world : World) : Int × World :=
  let world := flashWriteCmd config info board sector 0 (UInt8.ofNat cnt - 1) world
  let world := (words info src dest pos cnt).foldl (portWrite config info board) world
  flashFullStatusCheck config info board sector
    (flashWriteCmd config info board sector 0 (confirmCommand info) world)

def flashWriteCfibuffer (src : Nat → UInt8) (dest pos len : Nat) (world : World) : Int × World :=
  let sector := findSector info dest
  -- len >> 0, 1, 2 or 3
  let cnt := len / info.portwidth
  match info.commandSet with
  | .intel =>
      let (retcode, world) := flashStatusCheck config info board sector
        (flashWriteCmd config info board sector 0 FLASH_CMD_WRITE_TO_BUFFER
          (flashWriteCmd config info board sector 0 FLASH_CMD_CLEAR_STATUS world))
      if retcode = ERR_OK then fillBuffer config info board src sector dest pos cnt world
      else (retcode, world)
  | .amd =>
      fillBuffer config info board src sector dest pos cnt
        (flashWriteCmd config info board sector 0 AMD_CMD_WRITE_TO_BUFFER
          (flashUnlockSeq config info board 0 world))
  | .unknown => (ERR_INVAL, world)

variable (request : Request)

/-- The word at an unaligned start. -/
def writeHead (world : World) : Int × Part :=
  let wp := request.addr / info.portwidth * info.portwidth
  let aln := request.addr - wp
  if aln ≠ 0 then
    let n := min (info.portwidth - aln) request.cnt
    let bytes := slice (readByte board world.flash) wp aln ++ slice request.src 0 n ++
      slice (readByte board world.flash) (wp + aln + n) (info.portwidth - aln - n)
    let (rc, world) :=
      flashWriteCfiword config info board wp (assemble config info board bytes) world
    (rc, ⟨wp + info.portwidth, request.cnt - n, n, world⟩)
  else (0, ⟨wp, request.cnt, 0, world⟩)

/-- The bytes up to the next buffered_size aligned boundary, or the rest. -/
def pieceLen (part : Part) : Nat :=
  min (info.bufferedSize - part.wp % info.bufferedSize) part.cnt

/-- A round of the loop over the aligned part; CFG_FLASH_USE_BUFFER_WRITE is `buffered`. -/
def middleStep (buffered : Bool) (part : Part) : Part ⊕ (Int × Part) :=
  if part.cnt < info.portwidth then .inr (0, part)
  -- prohibit buffer write when buffer_size is 1
  else if buffered ∧ info.bufferSize ≠ 1 then
    -- wp % buffered_size has no value
    if info.bufferedSize = 0 then .inl part
    else
      let i := pieceLen info part
      let (rc, world) :=
        flashWriteCfibuffer config info board request.src part.wp part.pos i part.world
      if rc ≠ ERR_OK then .inr (rc, { part with world := world })
      else
        let i := i - i % info.portwidth
        .inl ⟨part.wp + i, part.cnt - i, part.pos + i, world⟩
  else
    let (rc, world) := flashWriteCfiword config info board part.wp
      (assemble config info board (slice request.src part.pos info.portwidth)) part.world
    if rc ≠ 0 then .inr (rc, { part with world := world })
    else
      .inl ⟨part.wp + info.portwidth, part.cnt - info.portwidth, part.pos + info.portwidth, world⟩

def writeTail (part : Part) : Int × World :=
  if part.cnt = 0 then (0, part.world)
  else
    let bytes := slice request.src part.pos part.cnt ++
      slice (readByte board part.world.flash) (part.wp + part.cnt) (info.portwidth - part.cnt)
    flashWriteCfiword config info board part.wp (assemble config info board bytes) part.world

/-- write_buff, when it returns within so many rounds of its loop. -/
def writeBuff (buffered : Bool) (fuel : Nat) (world : World) : Option (Int × World) :=
  let (rc, part) := writeHead config info board request world
  if rc ≠ 0 then some (rc, part.world)
  else
    match run (middleStep config info board request buffered) fuel part with
    | none => none
    | some (rc, part) =>
        if rc ≠ 0 then some (rc, part.world) else some (writeTail config info board request part)

end Driver

/-- A flash that shows its array. -/
def shows (cells : Nat → UInt8) : World := ⟨⟨cells, .array⟩, 0⟩

def Erased (request : Request) (cells : Nat → UInt8) : Prop :=
  ∀ address, request.addr ≤ address → address < request.addr + request.cnt → cells address = 0xff

/-- The range holds the source, and every other byte what it did. -/
def Exact (request : Request) (before after : Nat → UInt8) : Prop :=
  ∀ address, after address =
    if request.addr ≤ address ∧ address < request.addr + request.cnt then
      request.src (address - request.addr)
    else before address

/-- What write_buff promises on erased flash, with and without buffer writes. -/
structure Correct (config : Config) (info : FlashInfo) (request : Request) : Prop where
  exact : ∀ board buffered fuel cells after, Erased request cells →
    writeBuff config info board request buffered fuel (shows cells) = some (0, after) →
      Exact request cells after.flash.cells
  same : ∀ one other oneFuel otherFuel cells buffer word, Erased request cells →
    writeBuff config info one request true oneFuel (shows cells) = some (0, buffer) →
    writeBuff config info other request false otherFuel (shows cells) = some (0, word) →
      buffer.flash.cells = word.flash.cells

/-- No block of the write buffer holds more than 256 words of the aligned part. -/
def ShortPieces (info : FlashInfo) (request : Request) : Prop :=
  ∀ first last, request.addr ≤ first / info.portwidth * info.portwidth →
    last < (request.addr + request.cnt) / info.portwidth * info.portwidth →
    first / info.bufferedSize = last / info.bufferedSize → last < first + 256 * info.portwidth

/-- A request that the driver can serve. -/
def Served (info : FlashInfo) (request : Request) : Prop :=
  request.cnt = 0 ∧ info.portwidth ∣ request.addr ∨
    info.commandSet ≠ .unknown ∧
      (info.bufferSize ≤ 1 ∨ info.bufferSize < info.chipwidth ∨ ShortPieces info request)

section Commands
variable (config : Config) (info : FlashInfo) (board : Board)

/-- A command that Intel's flash takes while it shows its array or its status. -/
theorem intel_cmd (kind : info.commandSet = .intel) (sect : Nat) (cmd : UInt8) (world : World)
    (mode : world.flash.mode = .array ∨ world.flash.mode = .status) :
    (flashWriteCmd config info board sect 0 cmd world).flash =
      intelCommand config info board world.flash
        ⟨flashAddr info sect 0, cmdWord config info cmd⟩ := by
  rcases mode with mode | mode <;> simp only [flashWriteCmd, portWrite, busWrite, kind, mode]

theorem announce_word (world : World) (known : info.commandSet ≠ .unknown)
    (mode : world.flash.mode = .array) :
    (announceWord config info board world).flash = ⟨world.flash.cells, .program⟩ := by
  cases kind : info.commandSet with
  | unknown => exact absurd kind known
  | intel =>
      have cleared := intel_cmd config info board kind 0 FLASH_CMD_CLEAR_STATUS world (Or.inl mode)
      simp only [intelCommand, command_word, if_true] at cleared
      simp only [announceWord, kind]
      rw [intel_cmd config info board kind 0 FLASH_CMD_WRITE _ (Or.inl (cleared ▸ mode)), cleared]
      simp only [intelCommand, command_word]
      rfl
  | amd =>
      simp only [announceWord, flashUnlockSeq, flashWriteCmd, portWrite, busWrite, kind, mode,
        unlockCycle, command_word, and_self, if_true, amdCommand]

/-- A wait that ends, behind a program command or not. -/
theorem status_check_some (sector : Nat) (world : World) (known : info.commandSet ≠ .unknown)
    (status : UInt32 → UInt8) (answer : board.checks world.waits = some status) :
    flashStatusCheck config info board sector world =
      (ERR_OK, ⟨settle info world.flash, world.waits + 1⟩) := by
  rw [flashStatusCheck, if_neg known, answer]

theorem status_check_none (sector : Nat) (world : World) (known : info.commandSet ≠ .unknown)
    (answer : board.checks world.waits = none) :
    (flashStatusCheck config info board sector world).1 = ERR_TIMOUT := by
  rw [flashStatusCheck, if_neg known, answer]

/-- When a wait behind a program command ends, the flash shows its array. -/
theorem full_check_some (sector : Nat) (world : World) (known : info.commandSet ≠ .unknown)
    (mode : world.flash.mode = .busy) (status : UInt32 → UInt8)
    (answer : board.checks world.waits = some status) :
    (flashFullStatusCheck config info board sector world).2.flash =
      ⟨world.flash.cells, .array⟩ := by
  have settled := status_check_some config info board sector world known status answer
  cases kind : info.commandSet with
  | unknown => exact absurd kind known
  | intel =>
      have reset : info.cmdReset = FLASH_CMD_RESET := by
        rw [FlashInfo.cmdReset, kind]
        rfl
      have shown : settle info world.flash = ⟨world.flash.cells, .status⟩ := by
        simp only [settle, mode, kind, if_true]
      simp only [flashFullStatusCheck, settled, kind, if_true, reset]
      rw [intel_cmd config info board kind sector FLASH_CMD_RESET _ (Or.inr (by rw [shown])), shown]
      simp only [intelCommand, command_word]
      rfl
  | amd =>
      simp only [flashFullStatusCheck, settled, kind, settle, mode]
      rfl

theorem full_check_none (sector : Nat) (world : World) (known : info.commandSet ≠ .unknown)
    (answer : board.checks world.waits = none) :
    (flashFullStatusCheck config info board sector world).1 = ERR_TIMOUT := by
  have late := status_check_none config info board sector world known answer
  simp only [flashFullStatusCheck, answer]
  split
  · exact late
  · exact late

theorem full_check_busy (sector : Nat) (world : World) (known : info.commandSet ≠ .unknown)
    (mode : world.flash.mode = .busy)
    (success : (flashFullStatusCheck config info board sector world).1 = 0) :
    (flashFullStatusCheck config info board sector world).2.flash =
      ⟨world.flash.cells, .array⟩ := by
  cases answer : board.checks world.waits with
  | none =>
      rw [full_check_none config info board sector world known answer] at success
      cases success
  | some status => exact full_check_some config info board sector world known mode status answer

/-- A word that write_buff programs with success. -/
theorem word_written (dest cword : Nat) (world : World) (known : info.commandSet ≠ .unknown)
    (mode : world.flash.mode = .array)
    (success : (flashWriteCfiword config info board dest cword world).1 = 0) :
    (flashWriteCfiword config info board dest cword world).2.flash =
      ⟨burn world.flash.cells dest (memBytes config info cword), .array⟩ := by
  have announced := announce_word config info board world known mode
  unfold flashWriteCfiword at success ⊢
  simp only at success ⊢
  split at success
  · cases success
  · rename_i erased
    have sent : (portWrite config info board (announceWord config info board world)
        ⟨dest, memBytes config info cword⟩).flash =
          ⟨burn world.flash.cells dest (memBytes config info cword), .busy⟩ := by
      rw [portWrite]
      simp only
      rw [bus_program config info board _ _ known (by rw [announced]), announced]
    rw [if_neg erased, full_check_busy config info board _ _ known (by rw [sent]) success, sent]

theorem fold_port (writes : List BusWrite) (world : World) :
    writes.foldl (portWrite config info board) world =
      { world with flash := writes.foldl (busWrite config info board) world.flash } := by
  induction writes generalizing world with
  | nil => rfl
  | cons write rest ih => exact ih _

theorem count_words (cnt : Nat) (positive : 0 < cnt) :
    (UInt8.ofNat cnt - 1).toNat = (cnt - 1) % 256 := by
  rw [UInt8.toNat_sub, UInt8.toNat_ofNat', show (1 : UInt8).toNat = 1 from rfl]
  omega

/-- The words of a piece are its bytes, one behind the other. -/
theorem words_burn (src : Nat → UInt8) (dest pos cnt : Nat) (cells : Nat → UInt8) :
    burnAll cells (words info src dest pos cnt) =
      burn cells dest (slice src pos (cnt * info.portwidth)) := by
  induction cnt with
  | zero =>
      rw [Nat.zero_mul]
      exact (burn_nil cells dest).symm
  | succ cnt ih =>
      have front : words info src dest pos (cnt + 1) = words info src dest pos cnt ++
          [⟨dest + cnt * info.portwidth,
            slice src (pos + cnt * info.portwidth) info.portwidth⟩] := by
        rw [words, List.range_succ, List.map_append]
        rfl
      have size : (slice src pos (cnt * info.portwidth)).length = cnt * info.portwidth :=
        slice_length _ _ _
      rw [front, burnAll, List.foldl_append]
      rw [burnAll] at ih
      rw [ih, Nat.succ_mul, slice_add, ← burn_append, size]
      rfl

/-- A buffer that is announced, counted and filled is programmed when it is confirmed. -/
theorem buffer_filled (src : Nat → UInt8) (sector dest pos cnt : Nat) (world : World)
    (known : info.commandSet ≠ .unknown) (mode : world.flash.mode = .bufferCount)
    (positive : 0 < cnt) (few : cnt ≤ 256)
    (block : ∀ i < cnt, (dest + i * info.portwidth) / info.bufferedSize =
      dest / info.bufferedSize)
    (success : (fillBuffer config info board src sector dest pos cnt world).1 = 0) :
    (fillBuffer config info board src sector dest pos cnt world).2.flash =
      ⟨burn world.flash.cells dest (slice src pos (cnt * info.portwidth)), .array⟩ := by
  have size : (words info src dest pos cnt).length = cnt := by
    rw [words, List.length_map, List.length_range]
  have inside : ∀ write ∈ [] ++ words info src dest pos cnt,
      write.addr / info.bufferedSize = dest / info.bufferedSize := by
    intro write member
    obtain ⟨i, less, rfl⟩ := List.mem_map.mp member
    exact block i (List.mem_range.mp less)
  have counted : (flashWriteCmd config info board sector 0 (UInt8.ofNat cnt - 1) world).flash =
      ⟨world.flash.cells, .bufferData (cnt - 1) []⟩ := by
    simp only [flashWriteCmd, portWrite]
    rw [bus_count config info board _ _ _ known mode, count_words cnt positive,
      Nat.mod_eq_of_lt (by omega)]
  unfold fillBuffer at success ⊢
  simp only [fold_port, counted] at success ⊢
  have taken := buffer_takes config info board (words info src dest pos cnt)
    ⟨world.flash.cells, .bufferData (cnt - 1) []⟩ [] (cnt - 1) (dest / info.bufferedSize) known rfl
    (by omega) inside
  rw [size, if_pos (by omega), List.nil_append] at taken
  have confirmed : (flashWriteCmd config info board sector 0 (confirmCommand info)
      { flashWriteCmd config info board sector 0 (UInt8.ofNat cnt - 1) world with
        flash := (words info src dest pos cnt).foldl (busWrite config info board)
          ⟨world.flash.cells, .bufferData (cnt - 1) []⟩ }).flash =
        ⟨burn world.flash.cells dest (slice src pos (cnt * info.portwidth)), .busy⟩ := by
    simp only [flashWriteCmd, portWrite]
    rw [bus_confirm config info board _ _ (words info src dest pos cnt) known (by rw [taken]),
      taken]
    simp only [if_true, words_burn]
  rw [full_check_busy config info board _ _ known (by rw [confirmed]) success, confirmed]

/-- The write buffer is announced. -/
theorem announce_buffer (sector : Nat) (world : World) (kind : info.commandSet = .amd)
    (mode : world.flash.mode = .array) :
    (flashWriteCmd config info board sector 0 AMD_CMD_WRITE_TO_BUFFER
      (flashUnlockSeq config info board 0 world)).flash = ⟨world.flash.cells, .bufferCount⟩ := by
  simp only [flashUnlockSeq, flashWriteCmd, portWrite, busWrite, kind, mode, unlockCycle,
    command_word, and_self, if_true, amdCommand]
  rfl

theorem announce_buffer_intel (sector : Nat) (world : World) (kind : info.commandSet = .intel)
    (mode : world.flash.mode = .array) :
    (flashWriteCmd config info board sector 0 FLASH_CMD_WRITE_TO_BUFFER
      (flashWriteCmd config info board sector 0 FLASH_CMD_CLEAR_STATUS world)).flash =
        ⟨world.flash.cells, .bufferCount⟩ := by
  have cleared := intel_cmd config info board kind sector FLASH_CMD_CLEAR_STATUS world (Or.inl mode)
  simp only [intelCommand, command_word, if_true] at cleared
  rw [intel_cmd config info board kind sector FLASH_CMD_WRITE_TO_BUFFER _
    (Or.inl (cleared ▸ mode)), cleared]
  simp only [intelCommand, command_word]
  rfl

theorem piece_written (src : Nat → UInt8) (dest pos len : Nat) (world : World)
    (known : info.commandSet ≠ .unknown) (mode : world.flash.mode = .array)
    (positive : 0 < len / info.portwidth) (few : len / info.portwidth ≤ 256)
    (block : ∀ i < len / info.portwidth, (dest + i * info.portwidth) / info.bufferedSize =
      dest / info.bufferedSize)
    (success : (flashWriteCfibuffer config info board src dest pos len world).1 = 0) :
    (flashWriteCfibuffer config info board src dest pos len world).2.flash =
      ⟨burn world.flash.cells dest (slice src pos (len / info.portwidth * info.portwidth)),
        .array⟩ := by
  cases kind : info.commandSet with
  | unknown => exact absurd kind known
  | intel =>
      have announced :=
        announce_buffer_intel config info board (findSector info dest) world kind mode
      simp only [flashWriteCfibuffer, kind] at success ⊢
      generalize flashWriteCmd config info board (findSector info dest) 0
        FLASH_CMD_WRITE_TO_BUFFER _ = next at *
      cases answer : board.checks next.waits with
      | none =>
          have late := status_check_none config info board (findSector info dest) next known answer
          rw [if_neg (by rw [late]; decide)] at success
          rw [late] at success
          cases success
      | some status =>
          rw [status_check_some config info board _ next known status answer] at success ⊢
          rw [if_pos rfl] at success ⊢
          have settled : settle info next.flash = ⟨world.flash.cells, .bufferCount⟩ := by
            rw [announced]
            rfl
          rw [settled] at success ⊢
          exact buffer_filled config info board src _ dest pos _ _ known rfl positive few block
            success
  | amd =>
      have announced := announce_buffer config info board (findSector info dest) world kind mode
      simp only [flashWriteCfibuffer, kind] at success ⊢
      rw [buffer_filled config info board src _ dest pos _ _ known (by rw [announced]) positive few
        block success, announced]

end Commands

section Words
variable (config : Config) (info : FlashInfo)

theorem byte_of_bits {left right : Nat} (same : ∀ i < 8, left.testBit i = right.testBit i) :
    UInt8.ofNat left = UInt8.ofNat right := by
  apply UInt8.toNat.inj
  rw [UInt8.toNat_ofNat', UInt8.toNat_ofNat']
  apply Nat.eq_of_testBit_eq
  intro i
  rw [Nat.testBit_mod_two_pow, Nat.testBit_mod_two_pow]
  by_cases low : i < 8
  · rw [same i low]
  · simp only [low, decide_false, Bool.false_and]

theorem byte_high_bits (c : UInt8) (i : Nat) (high : 8 ≤ i) : c.toNat.testBit i = false :=
  Nat.testBit_lt_two_pow (Nat.lt_of_lt_of_le c.toNat_lt (Nat.pow_le_pow_right (by decide) high))

theorem mem_bytes_length (cword : Nat) : (memBytes config info cword).length = info.portwidth := by
  rw [memBytes, List.length_map, List.length_range]

theorem mem_bytes_get (cword k : Nat) (bound : k < (memBytes config info cword).length) :
    (memBytes config info cword)[k] =
      UInt8.ofNat (cword >>> (8 * if config.bigEndian then info.portwidth - 1 - k else k)) := by
  simp [memBytes]

theorem add_byte_big (big : config.bigEndian = true) (cword j : Nat) (c : UInt8)
    (inside : j < 8 * info.portwidth) :
    (flashAddByte config info cword c).testBit j =
      if j < 8 then c.toNat.testBit j else cword.testBit (j - 8) := by
  unfold flashAddByte
  by_cases single : info.portwidth = 1
  · rw [if_pos single, if_pos (by omega)]
  · rw [if_neg single, if_pos big, Nat.testBit_mod_two_pow, Nat.testBit_or, Nat.testBit_shiftLeft]
    by_cases low : j < 8
    · simp only [inside, low, Nat.not_le.mpr low, decide_true, decide_false, Bool.true_and,
        Bool.false_and, Bool.false_or, if_true]
    · simp only [inside, low, Nat.le_of_not_lt low, byte_high_bits c j (Nat.le_of_not_lt low),
        decide_true, Bool.true_and, Bool.or_false, if_false]

theorem add_byte_little (little : config.bigEndian = false) (cword j : Nat) (c : UInt8)
    (small : cword < 2 ^ (8 * info.portwidth)) :
    (flashAddByte config info cword c).testBit j =
      if j < 8 * (info.portwidth - 1) then cword.testBit (8 + j)
      else c.toNat.testBit (j - 8 * (info.portwidth - 1)) := by
  unfold flashAddByte
  by_cases single : info.portwidth = 1
  · rw [if_pos single, if_neg (by omega), single]
    rfl
  · rw [if_neg single, if_neg (by rw [little]; decide), Nat.testBit_or, Nat.testBit_shiftRight,
      Nat.testBit_shiftLeft]
    by_cases low : j < 8 * (info.portwidth - 1)
    · simp only [low, Nat.not_le.mpr low, decide_false, Bool.false_and, Bool.or_false, if_true]
    · have above : cword.testBit (8 + j) = false := by
        apply Nat.testBit_lt_two_pow
        exact Nat.lt_of_lt_of_le small (Nat.pow_le_pow_right (by decide) (by omega))
      simp only [low, Nat.le_of_not_lt low, above, decide_true, Bool.true_and, Bool.false_or,
        if_false]

/-- flash_add_byte moves the bytes of the word one address down, whatever the byte order. -/
theorem add_byte_bytes (cword : Nat) (c : UInt8) (small : cword < 2 ^ (8 * info.portwidth)) :
    memBytes config info (flashAddByte config info cword c) =
      (memBytes config info cword).tail ++ [c] := by
  have positive := portwidth_pos info
  have lengths : (memBytes config info (flashAddByte config info cword c)).length =
      ((memBytes config info cword).tail ++ [c]).length := by
    rw [List.length_append, List.length_tail, mem_bytes_length, mem_bytes_length]
    simp only [List.length_singleton]
    omega
  refine List.ext_getElem lengths fun k bound _ => ?_
  rw [mem_bytes_get]
  rw [mem_bytes_length] at bound
  by_cases last : k = info.portwidth - 1
  · have tail : (memBytes config info cword).tail.length = k := by
      rw [List.length_tail, mem_bytes_length, last]
    rw [List.getElem_append_right (by omega)]
    simp only [tail, Nat.sub_self, List.getElem_cons_zero]
    have byte : c = UInt8.ofNat c.toNat := by simp
    conv_rhs => rw [byte]
    apply byte_of_bits
    intro i low
    rw [Nat.testBit_shiftRight]
    cases order : config.bigEndian with
    | true =>
        rw [if_pos rfl, add_byte_big config info order _ _ _ (by omega), if_pos (by omega), last,
          Nat.sub_self, Nat.mul_zero, Nat.zero_add]
    | false =>
        rw [if_neg (by decide), add_byte_little config info order _ _ _ small, if_neg (by omega),
          last, Nat.add_sub_cancel_left]
  · have inner : k < (memBytes config info cword).tail.length := by
      rw [List.length_tail, mem_bytes_length]
      omega
    rw [List.getElem_append_left inner, List.getElem_tail, mem_bytes_get]
    apply byte_of_bits
    intro i low
    rw [Nat.testBit_shiftRight, Nat.testBit_shiftRight]
    cases order : config.bigEndian with
    | true =>
        rw [if_pos rfl, if_pos rfl, add_byte_big config info order _ _ _ (by omega),
          if_neg (by omega)]
        congr 1
        omega
    | false =>
        rw [if_neg (by decide), if_neg (by decide), add_byte_little config info order _ _ _ small,
          if_pos (by omega)]
        congr 1
        omega

theorem add_byte_small (cword : Nat) (c : UInt8) (small : cword < 2 ^ (8 * info.portwidth)) :
    flashAddByte config info cword c < 2 ^ (8 * info.portwidth) := by
  have positive := portwidth_pos info
  have byte : c.toNat < 2 ^ 8 := c.toNat_lt
  unfold flashAddByte
  split
  · exact Nat.lt_of_lt_of_le byte (Nat.pow_le_pow_right (by decide) (by omega))
  · split
    · exact Nat.mod_lt _ (Nat.two_pow_pos _)
    · apply Nat.or_lt_two_pow
      · exact Nat.lt_of_le_of_lt (Nat.shiftRight_le _ _) small
      · rw [Nat.shiftLeft_eq]
        have whole : 8 * info.portwidth = 8 + 8 * (info.portwidth - 1) := by omega
        rw [whole, Nat.pow_add]
        exact Nat.mul_lt_mul_of_pos_right byte (Nat.two_pow_pos _)

/-- As many bytes as the port is wide push out what the word held before. -/
theorem fold_bytes (bytes : List UInt8) (cword : Nat) (small : cword < 2 ^ (8 * info.portwidth))
    (fits : bytes.length ≤ info.portwidth) :
    memBytes config info (bytes.foldl (flashAddByte config info) cword) =
      (memBytes config info cword).drop bytes.length ++ bytes := by
  induction bytes generalizing cword with
  | nil => simp
  | cons c rest ih =>
      rw [List.length_cons] at fits
      have next := ih _ (add_byte_small config info cword c small) (by omega)
      have size : rest.length ≤ (memBytes config info cword).tail.length := by
        rw [List.length_tail, mem_bytes_length]
        omega
      rw [List.foldl_cons, next, add_byte_bytes config info cword c small,
        List.drop_append_of_le_length size, List.length_cons, List.append_assoc, List.drop_tail,
        List.singleton_append]

theorem assemble_bytes (board : Board) (bytes : List UInt8)
    (size : bytes.length = info.portwidth) :
    memBytes config info (assemble config info board bytes) = bytes := by
  have small : (if info.portwidth = 8 then board.stale.toNat else 0) <
      2 ^ (8 * info.portwidth) := by
    split
    · rename_i wide
      rw [wide]
      exact board.stale.toNat_lt
    · exact Nat.two_pow_pos _
  rw [assemble, fold_bytes config info bytes _ small (Nat.le_of_eq size), List.drop_eq_nil_of_le,
    List.nil_append]
  rw [mem_bytes_length, size]

theorem bytes_written (board : Board) (dest : Nat) (bytes : List UInt8) (world : World)
    (known : info.commandSet ≠ .unknown) (mode : world.flash.mode = .array)
    (size : bytes.length = info.portwidth)
    (success : (flashWriteCfiword config info board dest (assemble config info board bytes)
      world).1 = 0) :
    (flashWriteCfiword config info board dest (assemble config info board bytes) world).2.flash =
      ⟨burn world.flash.cells dest bytes, .array⟩ := by
  rw [word_written config info board dest _ world known mode success,
    assemble_bytes config info board bytes size]

end Words

section Runs
variable (config : Config) (info : FlashInfo) (board : Board) (request : Request)

/-- The byte of the source for an address. -/
def Request.wanted (request : Request) (address : Nat) : UInt8 :=
  request.src (address - request.addr)

/-- A place between the words: what is left, and how much of the source lies behind it. -/
structure Placed (part : Part) : Prop where
  aligned : info.portwidth ∣ part.wp
  left : part.cnt = request.addr + request.cnt - part.wp
  pos : part.wp ≤ request.addr + request.cnt → request.addr + part.pos = part.wp

/-- The source is in the flash up to a place, and nothing else was programmed. -/
structure Reached (cells : Nat → UInt8) (part : Part) : Prop extends Placed info request part where
  mode : part.world.flash.mode = .array
  done : ∀ address, part.world.flash.cells address = cells address &&&
    window request.wanted request.addr (min part.wp (request.addr + request.cnt)) address

theorem placed_next (part : Part) (len : Nat) (world : World) (placed : Placed info request part)
    (fits : len ≤ part.cnt) (positive : 0 < len) (whole : info.portwidth ∣ len) :
    Placed info request ⟨part.wp + len, part.cnt - len, part.pos + len, world⟩ := by
  have left := placed.left
  have start := placed.pos (by omega)
  exact ⟨Nat.dvd_add placed.aligned whole, by simp only; omega, fun _ => by simp only; omega⟩

/-- A start at a whole word. -/
theorem placed_start (world : World)
    (straight : request.addr - request.addr / info.portwidth * info.portwidth = 0) :
    Placed info request
      ⟨request.addr / info.portwidth * info.portwidth, request.cnt, 0, world⟩ := by
  have low := Nat.div_mul_le_self request.addr info.portwidth
  exact ⟨Nat.dvd_mul_left _ _, by simp only; omega, fun _ => by simp only; omega⟩

/-- The place behind the word at an unaligned start. -/
theorem placed_head (world : World) (aln n : Nat)
    (start : request.addr / info.portwidth * info.portwidth + aln = request.addr)
    (count : n = min (info.portwidth - aln) request.cnt) (inside : aln < info.portwidth) :
    Placed info request ⟨request.addr / info.portwidth * info.portwidth + info.portwidth,
      request.cnt - n, n, world⟩ := by
  refine ⟨⟨request.addr / info.portwidth + 1, ?_⟩, ?_, fun within => ?_⟩
  · rw [Nat.mul_succ, Nat.mul_comm info.portwidth]
  · simp only
    omega
  · simp only at within ⊢
    omega

theorem read_array (flash : FlashState) (mode : flash.mode = .array) :
    readByte board flash = flash.cells := by
  funext addr
  simp only [readByte, mode]

/-- One more stretch of the source. -/
theorem reached_more (cells : Nat → UInt8) (part : Part) (len : Nat)
    (reached : Reached info request cells part) (fits : len ≤ part.cnt) (positive : 0 < len)
    (address : Nat) :
    burn part.world.flash.cells part.wp (slice request.src part.pos len) address =
      cells address &&& window request.wanted request.addr (part.wp + len) address := by
  have left := reached.left
  have start := reached.pos (by omega)
  rw [burn_slice, reached.done address, UInt8.and_assoc, Nat.min_eq_left (by omega)]
  congr 1
  have place : window (fun a => request.src (part.pos + (a - part.wp))) part.wp (part.wp + len)
      address = window request.wanted part.wp (part.wp + len) address := by
    unfold window
    split
    · simp only [Request.wanted]
      congr 1
      omega
    · rfl
  rw [place, window_join _ _ _ _ _ (by omega) (by omega)]

theorem reached_burn (cells : Nat → UInt8) (part : Part) (len : Nat) (world : World)
    (reached : Reached info request cells part) (fits : len ≤ part.cnt) (positive : 0 < len)
    (whole : info.portwidth ∣ len)
    (burnt : world.flash =
      ⟨burn part.world.flash.cells part.wp (slice request.src part.pos len), .array⟩) :
    Reached info request cells ⟨part.wp + len, part.cnt - len, part.pos + len, world⟩ := by
  have left := reached.left
  refine ⟨placed_next info request part len world reached.toPlaced fits positive whole,
    by rw [burnt], fun address => ?_⟩
  simp only [burnt]
  rw [reached_more info request cells part len reached fits positive, Nat.min_eq_left (by omega)]

/-- The word at the start: bytes of the flash, of the source, and of the flash again. -/
theorem head_burn (cells : Nat → UInt8) (aln n : Nat)
    (start : request.addr / info.portwidth * info.portwidth + aln = request.addr)
    (address : Nat) :
    burn cells (request.addr / info.portwidth * info.portwidth)
        (slice cells (request.addr / info.portwidth * info.portwidth) aln ++
          slice request.src 0 n ++
          slice cells (request.addr / info.portwidth * info.portwidth + aln + n)
            (info.portwidth - aln - n)) address =
      cells address &&& window request.wanted request.addr (request.addr + n) address := by
  have front : (slice cells (request.addr / info.portwidth * info.portwidth) aln ++
      slice request.src 0 n).length = aln + n := by
    rw [List.length_append, slice_length, slice_length]
  have first : (slice cells (request.addr / info.portwidth * info.portwidth) aln).length = aln :=
    slice_length _ _ _
  rw [← burn_append, ← burn_append, front, first, burn_same _ cells _ _ aln (fun _ _ => rfl), start,
    ← Nat.add_assoc, start, burn_same _ cells, burn_slice]
  · congr 2
    funext a
    rw [Nat.zero_add, Request.wanted]
  · intro i _
    rw [burn_outside _ _ _ _ (Or.inr (by rw [slice_length]; omega))]

theorem head_reached (cells : Nat → UInt8) (known : info.commandSet ≠ .unknown)
    (success : (writeHead config info board request (shows cells)).1 = 0) :
    Reached info request cells (writeHead config info board request (shows cells)).2 := by
  have positive := portwidth_pos info
  have split := Nat.div_add_mod' request.addr info.portwidth
  have bound := Nat.mod_lt request.addr positive
  unfold writeHead at success ⊢
  simp only at success ⊢
  by_cases straight : request.addr - request.addr / info.portwidth * info.portwidth = 0
  · rw [if_neg (not_not.mpr straight)]
    refine ⟨placed_start info request _ straight, rfl, fun address => ?_⟩
    simp only
    rw [show request.addr / info.portwidth * info.portwidth = request.addr by omega,
      Nat.min_eq_left (by omega), window_empty]
    exact UInt8.and_neg_one.symm
  · rw [if_pos straight] at success ⊢
    simp only [read_array board (shows cells).flash rfl] at success ⊢
    have written := bytes_written config info board _ _ (shows cells) known rfl (by
      simp only [List.length_append, slice_length]
      omega) success
    refine ⟨placed_head info request _ _ _ (by omega) rfl (by omega), by simp only [written],
      fun address => ?_⟩
    simp only [written]
    simp only [shows]
    rw [head_burn info request cells _ _ (by omega)]
    congr 2
    omega

theorem piece_words (part : Part) (holds : info.chipwidth ≤ info.bufferSize)
    (aligned : info.portwidth ∣ part.wp) (more : info.portwidth ≤ part.cnt) :
    info.portwidth ≤ pieceLen info part ∧
      part.wp % info.bufferedSize + pieceLen info part ≤ info.bufferedSize := by
  have positive := portwidth_pos info
  have chip := chipwidth_pos info
  have size := buffered_pos info (by omega)
  have bound := Nat.mod_lt part.wp size
  obtain ⟨a, whole⟩ := buffered_words info holds
  obtain ⟨b, rest⟩ : info.portwidth ∣ part.wp % info.bufferedSize :=
    (Nat.dvd_mod_iff ⟨a, whole⟩).mpr aligned
  have less : info.portwidth * b < info.portwidth * a := by
    rw [← rest, ← whole]
    exact bound
  have room : info.portwidth * b + info.portwidth ≤ info.portwidth * a := by
    rw [← Nat.mul_succ]
    exact Nat.mul_le_mul_left _ (Nat.lt_of_mul_lt_mul_left less)
  unfold pieceLen
  omega

/-- The bytes of a piece lie in one block. -/
theorem piece_block (part : Part) (i : Nat)
    (inside : part.wp % info.bufferedSize + i < info.bufferedSize) :
    (part.wp + i) / info.bufferedSize = part.wp / info.bufferedSize := by
  have split := Nat.div_add_mod' part.wp info.bufferedSize
  apply Nat.div_eq_of_lt_le
  · omega
  · rw [Nat.add_mul]
    omega

theorem piece_blocks (part : Part)
    (inside : part.wp % info.bufferedSize + pieceLen info part ≤ info.bufferedSize) (i : Nat)
    (less : i < pieceLen info part / info.portwidth) :
    (part.wp + i * info.portwidth) / info.bufferedSize = part.wp / info.bufferedSize := by
  have positive := portwidth_pos info
  have cut := Nat.div_mul_le_self (pieceLen info part) info.portwidth
  have upto := Nat.mul_le_mul_right info.portwidth (Nat.succ_le_of_lt less)
  rw [Nat.succ_mul] at upto
  exact piece_block info part _ (by omega)

section Steps
variable (buffered : Bool) (part : Part)

theorem step_done (few : part.cnt < info.portwidth) :
    middleStep config info board request buffered part = .inr (0, part) := by
  rw [middleStep, if_pos few]

/-- A round that writes a piece through the buffer. -/
theorem step_piece (more : info.portwidth ≤ part.cnt)
    (pieces : buffered = true ∧ info.bufferSize ≠ 1) (size : info.bufferedSize ≠ 0)
    (result : Int × World)
    (wrote : flashWriteCfibuffer config info board request.src part.wp part.pos (pieceLen info part)
      part.world = result) :
    middleStep config info board request buffered part =
      if result.1 ≠ ERR_OK then .inr (result.1, { part with world := result.2 })
      else .inl ⟨part.wp + pieceLen info part / info.portwidth * info.portwidth,
        part.cnt - pieceLen info part / info.portwidth * info.portwidth,
        part.pos + pieceLen info part / info.portwidth * info.portwidth, result.2⟩ := by
  have cut : pieceLen info part - pieceLen info part % info.portwidth =
      pieceLen info part / info.portwidth * info.portwidth := by
    have := Nat.div_add_mod' (pieceLen info part) info.portwidth
    omega
  rw [middleStep, if_neg (by omega), if_pos pieces, if_neg size]
  simp only [wrote, cut]

/-- A round that writes a word. -/
theorem step_word (more : info.portwidth ≤ part.cnt)
    (single : ¬(buffered = true ∧ info.bufferSize ≠ 1)) (result : Int × World)
    (wrote : flashWriteCfiword config info board part.wp
      (assemble config info board (slice request.src part.pos info.portwidth)) part.world =
        result) :
    middleStep config info board request buffered part =
      if result.1 ≠ 0 then .inr (result.1, { part with world := result.2 })
      else .inl ⟨part.wp + info.portwidth, part.cnt - info.portwidth, part.pos + info.portwidth,
        result.2⟩ := by
  rw [middleStep, if_neg (by omega), if_neg single]
  simp only [wrote]

end Steps

/-- A piece of the buffer is at most 256 words. -/
theorem piece_few (part : Part) (placed : Placed info request part)
    (holds : info.chipwidth ≤ info.bufferSize) (short : ShortPieces info request)
    (more : info.portwidth ≤ part.cnt) : pieceLen info part / info.portwidth ≤ 256 := by
  have positive := portwidth_pos info
  obtain ⟨atLeast, inside⟩ := piece_words info part holds placed.aligned more
  have whole : 0 < pieceLen info part / info.portwidth := Nat.div_pos atLeast positive
  have cut := Nat.div_mul_le_self (pieceLen info part) info.portwidth
  have pos := placed.pos (by rw [placed.left] at more; omega)
  have stop : part.wp + pieceLen info part / info.portwidth * info.portwidth ≤
      (request.addr + request.cnt) / info.portwidth * info.portwidth := by
    obtain ⟨q, start⟩ := placed.aligned
    have upto : part.wp + pieceLen info part / info.portwidth * info.portwidth ≤
        request.addr + request.cnt := by
      have := placed.left
      unfold pieceLen at cut ⊢
      omega
    rw [start, Nat.mul_comm info.portwidth q, ← Nat.add_mul] at upto ⊢
    exact Nat.mul_le_mul_right _ ((Nat.le_div_iff_mul_le positive).mpr upto)
  have least := Nat.mul_le_mul_right info.portwidth whole
  have near := short part.wp
    (part.wp + (pieceLen info part / info.portwidth * info.portwidth - 1))
    (by rw [Nat.div_mul_cancel placed.aligned]; omega) (by omega)
    (piece_block info part _ (by omega)).symm
  by_contra many
  have much := Nat.mul_le_mul_right info.portwidth (Nat.succ_le_of_lt (Nat.lt_of_not_le many))
  rw [Nat.succ_mul] at much
  omega

/-- A round of the loop goes on behind the source it has written. -/
theorem middle_next (cells : Nat → UInt8) (buffered : Bool) (part next : Part)
    (known : info.commandSet ≠ .unknown) (reached : Reached info request cells part)
    (short : ¬(buffered = true ∧ info.bufferSize ≠ 1) ∨
      info.chipwidth ≤ info.bufferSize ∧ ShortPieces info request)
    (went : middleStep config info board request buffered part = .inl next) :
    Reached info request cells next := by
  have positive := portwidth_pos info
  by_cases few : part.cnt < info.portwidth
  · rw [step_done config info board request buffered part few] at went
    cases went
  · have more := Nat.le_of_not_lt few
    by_cases pieces : buffered = true ∧ info.bufferSize ≠ 1
    · obtain ⟨holds, short⟩ := short.resolve_left (not_not.mpr pieces)
      have chip := chipwidth_pos info
      have size := buffered_pos info (by omega)
      obtain ⟨atLeast, inside⟩ := piece_words info part holds reached.aligned more
      have cut := Nat.div_mul_le_self (pieceLen info part) info.portwidth
      have whole := Nat.div_pos atLeast positive
      have block := piece_blocks info part inside
      rw [step_piece config info board request buffered part more pieces (by omega) _ rfl] at went
      split at went
      · cases went
      · rename_i success
        cases went
        refine reached_burn info request cells part _ _ reached ?_ (Nat.mul_pos whole positive)
          (Nat.dvd_mul_left _ _) ?_
        · unfold pieceLen at cut ⊢
          omega
        · exact piece_written config info board request.src part.wp part.pos _ part.world known
            reached.mode whole (piece_few info request part reached.toPlaced holds short more) block
            (not_not.mp success)
    · rw [step_word config info board request buffered part more pieces _ rfl] at went
      split at went
      · cases went
      · rename_i success
        cases went
        exact reached_burn info request cells part _ _ reached more positive (Nat.dvd_refl _)
          (bytes_written config info board part.wp _ part.world known reached.mode
            (slice_length _ _ _) (not_not.mp success))

/-- With a word left the loop is only left with an error. -/
theorem middle_error (buffered : Bool) (part : Part) (result : Int × Part)
    (more : info.portwidth ≤ part.cnt)
    (ended : middleStep config info board request buffered part = .inr result) :
    result.1 ≠ 0 := by
  by_cases pieces : buffered = true ∧ info.bufferSize ≠ 1
  · by_cases size : info.bufferedSize = 0
    · rw [middleStep, if_neg (by omega), if_pos pieces, if_pos size] at ended
      cases ended
    · rw [step_piece config info board request buffered part more pieces size _ rfl] at ended
      split at ended
      · rename_i failed
        cases ended
        exact failed
      · cases ended
  · rw [step_word config info board request buffered part more pieces _ rfl] at ended
    split at ended
    · rename_i failed
      cases ended
      exact failed
    · cases ended

theorem middle_run (cells : Nat → UInt8) (buffered : Bool) (fuel : Nat) (part last : Part)
    (known : info.commandSet ≠ .unknown) (reached : Reached info request cells part)
    (short : ¬(buffered = true ∧ info.bufferSize ≠ 1) ∨
      info.chipwidth ≤ info.bufferSize ∧ ShortPieces info request)
    (ended : run (middleStep config info board request buffered) fuel part = some (0, last)) :
    Reached info request cells last ∧ last.cnt < info.portwidth := by
  induction fuel generalizing part with
  | zero => cases ended
  | succ fuel ih =>
      by_cases few : part.cnt < info.portwidth
      · simp only [run, step_done config info board request buffered part few] at ended
        cases ended
        exact ⟨reached, few⟩
      · cases went : middleStep config info board request buffered part with
        | inl next =>
            rw [run_next went] at ended
            exact ih next (middle_next config info board request cells buffered part next known
              reached short went) ended
        | inr result =>
            simp only [run, went] at ended
            cases ended
            exact absurd rfl (middle_error config info board request buffered part _
              (Nat.le_of_not_lt few) went)

/-- A buffer that takes no word of each chip never gets on. -/
theorem middle_stuck (fuel : Nat) (part last : Part) (small : info.bufferSize < info.chipwidth)
    (wide : info.bufferSize ≠ 1) (more : info.portwidth ≤ part.cnt) :
    run (middleStep config info board request true) fuel part ≠ some (0, last) := by
  have positive := portwidth_pos info
  induction fuel generalizing part with
  | zero => exact fun ended => by cases ended
  | succ fuel ih =>
      intro ended
      cases went : middleStep config info board request true part with
      | inr result =>
          simp only [run, went] at ended
          cases ended
          exact middle_error config info board request true part _ more went rfl
      | inl next =>
          rw [run_next went] at ended
          refine ih next ?_ ended
          by_cases size : info.bufferedSize = 0
          · rw [middleStep, if_neg (by omega), if_pos ⟨rfl, wide⟩, if_pos size] at went
            cases went
            exact more
          · rw [step_piece config info board request true part more ⟨rfl, wide⟩ size _ rfl] at went
            have short : info.bufferedSize < info.portwidth := by
              have less := Nat.mul_lt_mul_of_pos_left small
                (Nat.div_pos info.chip.2 (chipwidth_pos info))
              rwa [Nat.div_mul_cancel (chipwidth_divides info)] at less
            have zero : pieceLen info part / info.portwidth = 0 := by
              apply Nat.div_eq_of_lt
              unfold pieceLen
              omega
            split at went
            · cases went
            · cases went
              simp only [zero, Nat.zero_mul, Nat.sub_zero]
              exact more

/-- The whole source is in the flash behind the word at the end. -/
theorem tail_done (cells : Nat → UInt8) (part : Part) (known : info.commandSet ≠ .unknown)
    (reached : Reached info request cells part) (few : part.cnt < info.portwidth)
    (success : (writeTail config info board request part).1 = 0) (address : Nat) :
    (writeTail config info board request part).2.flash.cells address = cells address &&&
      window request.wanted request.addr (request.addr + request.cnt) address := by
  have left := reached.left
  unfold writeTail at success ⊢
  by_cases ended : part.cnt = 0
  · rw [if_pos ended, reached.done address, Nat.min_eq_right (by omega)]
  · rw [if_neg ended] at success ⊢
    simp only [read_array board part.world.flash reached.mode] at success ⊢
    have written := bytes_written config info board part.wp _ part.world known reached.mode (by
      simp only [List.length_append, slice_length]
      omega) success
    have front := slice_length request.src part.pos part.cnt
    rw [written]
    simp only
    rw [← burn_append, front, burn_same]
    · rw [reached_more info request cells part part.cnt reached (Nat.le_refl _) (by omega)]
      congr 2
      omega
    · intro i _
      rw [burn_outside _ _ _ _ (Or.inr (by rw [slice_length]; omega))]

/-- The parts of a call that succeeds. -/
theorem write_buff_ok (buffered : Bool) (fuel : Nat) (world result : World) :
    writeBuff config info board request buffered fuel world = some (0, result) ↔
      ∃ first last, writeHead config info board request world = (0, first) ∧
        run (middleStep config info board request buffered) fuel first = some (0, last) ∧
          writeTail config info board request last = (0, result) := by
  rw [writeBuff]
  obtain ⟨rc, first⟩ := writeHead config info board request world
  simp only
  constructor
  · intro ended
    split at ended
    · rename_i failed
      exact absurd (Prod.mk.inj (Option.some.inj ended)).1 failed
    · rename_i success
      cases middle : run (middleStep config info board request buffered) fuel first with
      | none =>
          rw [middle] at ended
          cases ended
      | some outcome =>
          obtain ⟨code, last⟩ := outcome
          simp only [middle] at ended
          split at ended
          · rename_i failed
            exact absurd (Prod.mk.inj (Option.some.inj ended)).1 failed
          · rename_i good
            refine ⟨first, last, ?_, ?_, Option.some.inj ended⟩
            · rw [not_not.mp success]
            · rw [middle, not_not.mp good]
  · rintro ⟨one, last, head, middle, tail⟩
    cases head
    rw [if_neg (not_not.mpr rfl), middle]
    simp only
    rw [if_neg (not_not.mpr rfl), tail]

/-- A request of no bytes at a whole word is done at once. -/
theorem nothing_written (buffered : Bool) (fuel : Nat) (cells : Nat → UInt8) (result : World)
    (empty : request.cnt = 0) (whole : info.portwidth ∣ request.addr)
    (ended : writeBuff config info board request buffered fuel (shows cells) = some (0, result)) :
    result.flash.cells = cells := by
  have positive := portwidth_pos info
  obtain ⟨first, last, head, middle, tail⟩ :=
    (write_buff_ok config info board request buffered fuel _ _).mp ended
  simp only [writeHead, Nat.div_mul_cancel whole, Nat.sub_self, not_true, ne_eq, if_false] at head
  cases head
  cases fuel with
  | zero => cases middle
  | succ fuel =>
      rw [run, step_done config info board request buffered _ (by simp only; omega)] at middle
      cases middle
      rw [writeTail, if_pos empty] at tail
      cases tail
      rfl

theorem served_window (buffered : Bool) (fuel : Nat) (cells : Nat → UInt8) (result : World)
    (served : Served info request)
    (ended : writeBuff config info board request buffered fuel (shows cells) = some (0, result))
    (address : Nat) :
    result.flash.cells address = cells address &&&
      window request.wanted request.addr (request.addr + request.cnt) address := by
  rcases served with ⟨empty, whole⟩ | ⟨known, short⟩
  · rw [nothing_written config info board request buffered fuel cells result empty whole ended,
      empty, Nat.add_zero, window_empty]
    exact UInt8.and_neg_one.symm
  · obtain ⟨first, last, head, middle, tail⟩ :=
      (write_buff_ok config info board request buffered fuel _ _).mp ended
    have reached := head_reached config info board request cells known (by rw [head])
    rw [head] at reached
    have final : Reached info request cells last ∧ last.cnt < info.portwidth := by
      by_cases pieces : buffered = true ∧ info.bufferSize ≠ 1
      · obtain ⟨rfl, wide⟩ := pieces
        by_cases few : first.cnt < info.portwidth
        · cases fuel with
          | zero => cases middle
          | succ fuel =>
              rw [run, step_done config info board request true first few] at middle
              cases middle
              exact ⟨reached, few⟩
        · by_cases small : info.bufferSize < info.chipwidth
          · exact absurd middle (middle_stuck config info board request fuel first last small wide
              (Nat.le_of_not_lt few))
          · have chip := chipwidth_pos info
            exact middle_run config info board request cells true fuel first last known reached
              (Or.inr ⟨by omega, (short.resolve_left (by omega)).resolve_left small⟩) middle
      · exact middle_run config info board request cells buffered fuel first last known reached
          (Or.inl pieces) middle
    have whole := tail_done config info board request cells last known final.1 final.2
      (by rw [tail])
    rw [tail] at whole
    exact whole address

/-- What the driver can serve it writes exactly, with and without buffer writes. -/
theorem correct_of_served (served : Served info request) : Correct config info request := by
  have exact : ∀ board buffered fuel cells after, Erased request cells →
      writeBuff config info board request buffered fuel (shows cells) = some (0, after) →
        Exact request cells after.flash.cells := by
    intro board buffered fuel cells after erased ended address
    rw [served_window config info board request buffered fuel cells after served ended, window]
    by_cases covered : request.addr ≤ address ∧ address < request.addr + request.cnt
    · rw [if_pos covered, if_pos covered, erased address covered.1 covered.2]
      exact UInt8.neg_one_and
    · rw [if_neg covered, if_neg covered]
      exact UInt8.and_neg_one
  refine ⟨exact, fun one other oneFuel otherFuel cells buffer word erased left right => ?_⟩
  funext address
  rw [exact one true oneFuel cells buffer erased left address,
    exact other false otherFuel cells word erased right address]

end Runs

end UBoot.Flash.CfiWrite
