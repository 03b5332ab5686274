import UBoot.Flash.CfiWrite

/-!
Where write_buff is exact, and only there: on a board whose flash spoils a byte on every write that
its command set does not have, each request that the driver cannot serve ends well and spoils it.
-/

namespace UBoot.Flash.CfiWrite

open Library.Memory Library.NorFlash Library.Loop CfiGetSize CfiChip

section Spoiler
variable (config : Config) (info : FlashInfo) (place : Nat)

/-- A board whose waits end well, and whose flash clears one byte on every write that its command
set does not have. -/
def spoiler : Board where
  other flash _ := { flash with cells := fun a => if a = place then 0 else flash.cells a }
  shown _ _ := 0xff
  checks _ := some fun k =>
    flashMakeCmd config info.portwidth info.chipwidth FLASH_STATUS_DONE k.toNat
  stale := 0

theorem status_done : statusCode config info
    (fun k => flashMakeCmd config info.portwidth info.chipwidth FLASH_STATUS_DONE k.toNat) = 0 := by
  have port := info.port
  have narrow : info.portwidth ≤ 8 := by
    simp only [portwidths, List.mem_cons, List.not_mem_nil, or_false] at port
    omega
  have equal : flashIsequal config
      (fun k => flashMakeCmd config info.portwidth info.chipwidth FLASH_STATUS_DONE k.toNat)
      info.portwidth info.chipwidth 0 0 FLASH_STATUS_DONE = true := by
    rw [flashIsequal, Bool.and_eq_true, List.all_eq_true]
    refine ⟨List.contains_iff_mem.mpr port, fun k member => ?_⟩
    have less := List.mem_range.mp member
    have index : (flashMakeAddr info.portwidth 0 0 + UInt32.ofNat k).toNat = k := by
      rw [flashMakeAddr, Nat.zero_mul, show (0 : UInt32) + UInt32.ofNat 0 = 0 from rfl,
        UInt32.zero_add, UInt32.toNat_ofNat']
      omega
    rw [beq_iff_eq, index]
  rw [statusCode]
  simp only [equal, if_true]
  rfl

theorem spoiler_check (sector : Nat) (world : World) :
    (flashFullStatusCheck config info (spoiler config info place) sector world).1 = 0 := by
  cases kind : info.commandSet with
  | unknown => simp [flashFullStatusCheck, flashStatusCheck, kind, ERR_OK]
  | intel =>
      simp [flashFullStatusCheck, kind, spoiler, status_done]
  | amd =>
      simp [flashFullStatusCheck, flashStatusCheck, kind, spoiler, ERR_OK]

/-- What a step of the driver leaves: only its own range and the spoilt byte may differ, and that
byte stays spoilt. -/
structure Kept (start stop : Nat) (before after : FlashState) : Prop where
  mode : after.mode = .array
  frame : ∀ address, address < start ∨ stop ≤ address → address ≠ place →
    after.cells address = before.cells address
  spoilt : before.cells place = 0 → after.cells place = 0

theorem kept_burn (flash : FlashState) (start : Nat) (data : List UInt8) :
    Kept place start (start + data.length) flash ⟨burn flash.cells start data, .array⟩ where
  mode := rfl
  frame address outside _ := burn_outside _ _ _ _ outside
  spoilt zero := by
    simp only [burn]
    split
    · rw [zero]
      exact UInt8.zero_and
    · exact zero

/-- A write that no command set has spoils the byte. -/
theorem spoiler_other (flash : FlashState) (write : BusWrite) :
    ((spoiler config info place).other flash write).mode = flash.mode ∧
      ((spoiler config info place).other flash write).cells place = 0 ∧
      ∀ address, address ≠ place →
        ((spoiler config info place).other flash write).cells address = flash.cells address := by
  refine ⟨rfl, by simp [spoiler], fun address apart => ?_⟩
  simp only [spoiler, if_neg apart]

/-- A word that fits to what is erased is written, and spoils the byte of an unknown flash. -/
theorem spoiler_word (dest : Nat) (bytes : List UInt8) (world : World)
    (mode : world.flash.mode = .array) (size : bytes.length = info.portwidth)
    (fits : List.zipWith (· &&& ·) (slice world.flash.cells dest info.portwidth) bytes = bytes) :
    ∃ after, flashWriteCfiword config info (spoiler config info place) dest
        (assemble config info (spoiler config info place) bytes) world = (0, after) ∧
      Kept place dest (dest + info.portwidth) world.flash after.flash ∧
      (info.commandSet = .unknown → after.flash.cells place = 0) := by
  have success : (flashWriteCfiword config info (spoiler config info place) dest
      (assemble config info (spoiler config info place) bytes) world).1 = 0 := by
    simp only [flashWriteCfiword, assemble_bytes config info _ bytes size, read_array _ _ mode,
      fits, ne_eq, not_true, if_false]
    exact spoiler_check config info place _ _
  refine ⟨_, Prod.ext success rfl, ?_⟩
  by_cases known : info.commandSet ≠ .unknown
  · rw [bytes_written config info _ dest bytes world known mode size success, ← size]
    exact ⟨kept_burn place world.flash dest bytes, fun kind => absurd kind known⟩
  · have kind := not_not.mp known
    obtain ⟨same, zero, frame⟩ := spoiler_other config info place world.flash ⟨dest, bytes⟩
    have after : (flashWriteCfiword config info (spoiler config info place) dest
        (assemble config info (spoiler config info place) bytes) world).2.flash =
          (spoiler config info place).other world.flash ⟨dest, bytes⟩ := by
      simp only [flashWriteCfiword, assemble_bytes config info _ bytes size, read_array _ _ mode,
        fits, ne_eq, not_true, if_false, flashFullStatusCheck, flashStatusCheck, announceWord, kind,
        if_true, portWrite, bus_unknown config info _ _ _ kind]
      rfl
    rw [after]
    exact ⟨⟨same.trans mode, fun address _ apart => frame address apart, fun _ => zero⟩,
      fun _ => zero⟩

theorem burn_all_outside (writes : List BusWrite) (cells : Nat → UInt8) (start stop address : Nat)
    (inside : ∀ write ∈ writes, start ≤ write.addr ∧ write.addr + write.data.length ≤ stop)
    (outside : address < start ∨ stop ≤ address) :
    burnAll cells writes address = cells address := by
  induction writes generalizing cells with
  | nil => rfl
  | cons write rest ih =>
      have here := inside write List.mem_cons_self
      have tail := ih (burn cells write.addr write.data)
        (fun other member => inside other (List.mem_cons_of_mem _ member))
      exact tail.trans (burn_outside _ _ _ _ (by omega))

theorem burn_all_zero (writes : List BusWrite) (cells : Nat → UInt8) (zero : cells place = 0) :
    burnAll cells writes place = 0 := by
  induction writes generalizing cells with
  | nil => exact zero
  | cons write rest ih =>
      exact ih _ ((kept_burn place ⟨cells, .array⟩ write.addr write.data).spoilt zero)

/-- A buffer with all its words, and one write or more behind them. -/
structure Overrun (held : List BusWrite) (start stop : Nat) (before flash : FlashState) : Prop where
  mode : flash.mode = .busy ∨ flash.mode = .bufferConfirm held ∧ flash.cells place = 0
  frame : ∀ address, address < start ∨ stop ≤ address → address ≠ place →
    flash.cells address = before.cells address
  spoilt : before.cells place = 0 → flash.cells place = 0

section Overruns
variable (held : List BusWrite) (start stop : Nat) (before : FlashState)
  (known : info.commandSet ≠ .unknown)
  (inside : ∀ write ∈ held, start ≤ write.addr ∧ write.addr + write.data.length ≤ stop)
include known inside

/-- The write behind the last word that was counted. -/
theorem overrun_first (flash : FlashState) (write : BusWrite)
    (mode : flash.mode = .bufferConfirm held) (same : flash.cells = before.cells) :
    Overrun place held start stop before
      (busWrite config info (spoiler config info place) flash write) := by
  rw [bus_confirm config info _ flash write held known mode]
  split
  · refine ⟨Or.inl rfl, fun address outside _ => ?_, fun zero => ?_⟩
    · exact (burn_all_outside held _ start stop address inside outside).trans (by rw [same])
    · exact burn_all_zero place held _ (by rw [same, zero])
  · obtain ⟨stays, zero, frame⟩ := spoiler_other config info place flash write
    exact ⟨Or.inr ⟨stays.trans mode, zero⟩,
      fun address _ apart => by rw [frame address apart, same], fun _ => zero⟩

/-- The writes behind it: the flash is busy, or goes on waiting for the confirmation. -/
theorem overrun_next (flash : FlashState) (write : BusWrite)
    (overrun : Overrun place held start stop before flash) :
    Overrun place held start stop before
      (busWrite config info (spoiler config info place) flash write) := by
  obtain ⟨stays, zero, frame⟩ := spoiler_other config info place flash write
  rcases overrun.mode with busy | ⟨mode, spoilt⟩
  · rw [bus_busy config info _ flash write busy]
    exact ⟨Or.inl (stays.trans busy),
      fun address outside apart =>
        (frame address apart).trans (overrun.frame address outside apart), fun _ => zero⟩
  · rw [bus_confirm config info _ flash write held known mode]
    split
    · exact ⟨Or.inl rfl, fun address outside apart =>
        (burn_all_outside held _ start stop address inside outside).trans
          (overrun.frame address outside apart), fun _ => burn_all_zero place held _ spoilt⟩
    · exact ⟨Or.inr ⟨stays.trans mode, zero⟩, fun address outside apart =>
        (frame address apart).trans (overrun.frame address outside apart), fun _ => zero⟩

theorem overrun_all (writes : List BusWrite) (flash : FlashState)
    (overrun : Overrun place held start stop before flash) :
    Overrun place held start stop before
      (writes.foldl (busWrite config info (spoiler config info place)) flash) := by
  induction writes generalizing flash with
  | nil => exact overrun
  | cons write rest ih => exact ih _ (overrun_next config info place held start stop before known
      inside flash write overrun)

omit inside in
/-- At the confirmation the byte is spoilt. -/
theorem overrun_confirm (flash : FlashState) (addr : Nat)
    (overrun : Overrun place held start stop before flash) :
    (busWrite config info (spoiler config info place) flash
        ⟨addr, cmdWord config info (confirmCommand info)⟩).mode = .busy ∧
      (busWrite config info (spoiler config info place) flash
        ⟨addr, cmdWord config info (confirmCommand info)⟩).cells place = 0 := by
  rcases overrun.mode with busy | ⟨mode, spoilt⟩
  · obtain ⟨stays, zero, _⟩ := spoiler_other config info place flash
      ⟨addr, cmdWord config info (confirmCommand info)⟩
    rw [bus_busy config info _ flash _ busy]
    exact ⟨stays.trans busy, zero⟩
  · rw [bus_confirm config info _ flash _ held known mode, if_pos rfl]
    exact ⟨rfl, burn_all_zero place held _ spoilt⟩

end Overruns

/-- More words than the count can tell spoil the byte. -/
theorem spoiler_fill (src : Nat → UInt8) (sector dest pos cnt : Nat) (world : World)
    (known : info.commandSet ≠ .unknown) (mode : world.flash.mode = .bufferCount)
    (many : 256 < cnt)
    (block : ∀ i < cnt, (dest + i * info.portwidth) / info.bufferedSize =
      dest / info.bufferedSize) :
    Kept place dest (dest + cnt * info.portwidth) world.flash
        (fillBuffer config info (spoiler config info place) src sector dest pos cnt world).2.flash ∧
      (fillBuffer config info (spoiler config info place) src sector dest pos cnt
        world).2.flash.cells place = 0 := by
  have size : (words info src dest pos cnt).length = cnt := by
    rw [words, List.length_map, List.length_range]
  have every : ∀ write ∈ words info src dest pos cnt,
      (dest ≤ write.addr ∧ write.addr + write.data.length ≤ dest + cnt * info.portwidth) ∧
        write.addr / info.bufferedSize = dest / info.bufferedSize := by
    intro write member
    obtain ⟨i, less, rfl⟩ := List.mem_map.mp member
    have upto := Nat.mul_le_mul_right info.portwidth (Nat.succ_le_of_lt (List.mem_range.mp less))
    rw [Nat.succ_mul] at upto
    refine ⟨⟨Nat.le_add_right _ _, ?_⟩, block i (List.mem_range.mp less)⟩
    simp only [slice_length]
    omega
  have counted : (flashWriteCmd config info (spoiler config info place) sector 0
      (UInt8.ofNat cnt - 1) world).flash =
        ⟨world.flash.cells, .bufferData ((cnt - 1) % 256) []⟩ := by
    simp only [flashWriteCmd, portWrite]
    rw [bus_count config info _ _ _ _ known mode, count_words cnt (by omega)]
  obtain ⟨held, write, rest, parts, short⟩ : ∃ held write rest,
      words info src dest pos cnt = held ++ write :: rest ∧
        held.length = (cnt - 1) % 256 + 1 := by
    have less : (cnt - 1) % 256 + 1 < (words info src dest pos cnt).length := by omega
    refine ⟨(words info src dest pos cnt).take ((cnt - 1) % 256 + 1),
      (words info src dest pos cnt)[(cnt - 1) % 256 + 1],
      (words info src dest pos cnt).drop ((cnt - 1) % 256 + 1 + 1), ?_, ?_⟩
    · rw [← List.drop_eq_getElem_cons less, List.take_append_drop]
    · rw [List.length_take]
      omega
  have taken := buffer_takes config info (spoiler config info place) held
    ⟨world.flash.cells, .bufferData ((cnt - 1) % 256) []⟩ [] ((cnt - 1) % 256)
    (dest / info.bufferedSize) known rfl (by omega)
    (fun one member => (every one (by rw [parts]; exact List.mem_append_left _ member)).2)
  rw [short, if_pos rfl, List.nil_append] at taken
  have inside := fun one member => (every one (parts ▸ List.mem_append_left _ member)).1
  have first := overrun_first config info place held dest (dest + cnt * info.portwidth) world.flash
    known inside ⟨world.flash.cells, .bufferConfirm held⟩ write rfl rfl
  have all := overrun_all config info place held dest (dest + cnt * info.portwidth) world.flash
    known inside rest _ first
  have confirm := overrun_confirm config info place held dest (dest + cnt * info.portwidth)
    world.flash known _ (flashAddr info sector 0) all
  have last := overrun_next config info place held dest (dest + cnt * info.portwidth) world.flash
    known inside _ ⟨flashAddr info sector 0, cmdWord config info (confirmCommand info)⟩ all
  unfold fillBuffer
  simp only [fold_port, counted, parts, List.foldl_append, taken, List.foldl_cons]
  rw [full_check_some config info (spoiler config info place) sector _ known confirm.1 _ rfl]
  exact ⟨⟨rfl, last.frame, last.spoilt⟩, confirm.2⟩

/-- A piece of the buffer is written, and spoils the byte when it has more than 256 words. -/
theorem spoiler_piece (src : Nat → UInt8) (dest pos len : Nat) (world : World)
    (known : info.commandSet ≠ .unknown) (mode : world.flash.mode = .array)
    (positive : 0 < len / info.portwidth)
    (block : ∀ i < len / info.portwidth, (dest + i * info.portwidth) / info.bufferedSize =
      dest / info.bufferedSize) :
    ∃ after, flashWriteCfibuffer config info (spoiler config info place) src dest pos len world =
        (0, after) ∧
      Kept place dest (dest + len / info.portwidth * info.portwidth) world.flash after.flash ∧
      (256 < len / info.portwidth → after.flash.cells place = 0) := by
  have filled : ∀ sector (announced : World), announced.flash = ⟨world.flash.cells, .bufferCount⟩ →
      ∃ after, fillBuffer config info (spoiler config info place) src sector dest pos
          (len / info.portwidth) announced = (0, after) ∧
        Kept place dest (dest + len / info.portwidth * info.portwidth) world.flash after.flash ∧
        (256 < len / info.portwidth → after.flash.cells place = 0) := by
    intro sector announced flash
    have success : (fillBuffer config info (spoiler config info place) src sector dest pos
        (len / info.portwidth) announced).1 = 0 := spoiler_check config info place _ _
    refine ⟨_, Prod.ext success rfl, ?_⟩
    by_cases few : len / info.portwidth ≤ 256
    · rw [buffer_filled config info _ src sector dest pos _ announced known (by rw [flash]) positive
        few block success, flash]
      have kept := kept_burn place world.flash dest
        (slice src pos (len / info.portwidth * info.portwidth))
      rw [slice_length] at kept
      exact ⟨kept, fun many => absurd few (Nat.not_le.mpr many)⟩
    · obtain ⟨kept, zero⟩ := spoiler_fill config info place src sector dest pos _ announced known
        (by rw [flash]) (Nat.lt_of_not_le few) block
      refine ⟨⟨kept.mode, fun address outside apart => ?_, fun _ => zero⟩, fun _ => zero⟩
      rw [kept.frame address outside apart, flash]
  cases kind : info.commandSet with
  | unknown => exact absurd kind known
  | intel =>
      have announced := announce_buffer_intel config info (spoiler config info place)
        (findSector info dest) world kind mode
      simp only [flashWriteCfibuffer, kind]
      rw [status_check_some config info _ _ _ known _ rfl]
      refine filled _ _ ?_
      simp only
      rw [announced]
      rfl
  | amd =>
      simp only [flashWriteCfibuffer, kind]
      exact filled _ _ (announce_buffer config info _ _ world kind mode)

/-- A word of the flash's own bytes around bytes for erased places fits. -/
theorem fits_erased (cells src : Nat → UInt8) (dest aln pos n rest : Nat)
    (erased : ∀ k < n, cells (dest + aln + k) = 0xff) :
    List.zipWith (· &&& ·) (slice cells dest (aln + n + rest))
        (slice cells dest aln ++ slice src pos n ++ slice cells (dest + aln + n) rest) =
      slice cells dest aln ++ slice src pos n ++ slice cells (dest + aln + n) rest := by
  have front : List.zipWith (· &&& ·) (slice cells dest aln) (slice cells dest aln) =
      slice cells dest aln := by
    rw [List.zipWith_self]
    simp
  have back : List.zipWith (· &&& ·) (slice cells (dest + aln + n) rest)
      (slice cells (dest + aln + n) rest) = slice cells (dest + aln + n) rest := by
    rw [List.zipWith_self]
    simp
  have middle : List.zipWith (· &&& ·) (slice cells (dest + aln) n) (slice src pos n) =
      slice src pos n := by
    apply List.ext_getElem
    · simp
    · intro k _ bound
      rw [slice_length] at bound
      rw [List.getElem_zipWith, slice_getElem, erased k bound]
      exact UInt8.neg_one_and
  rw [slice_add, slice_add, ← Nat.add_assoc, List.zipWith_append (by simp),
    List.zipWith_append (by simp), front, middle, back]

section Spoiling
variable (request : Request)
  (apart : place < request.addr ∨ request.addr + request.cnt ≤ place)

/-- What is left of the range is erased. -/
structure Open (part : Part) : Prop extends Placed info request part where
  mode : part.world.flash.mode = .array
  erased : ∀ address, part.wp ≤ address → address < request.addr + request.cnt →
    part.world.flash.cells address = 0xff

include apart

theorem open_kept (part : Part) (len : Nat) (world : World) (is_open : Open info request part)
    (fits : len ≤ part.cnt) (positive : 0 < len) (whole : info.portwidth ∣ len)
    (kept : Kept place part.wp (part.wp + len) part.world.flash world.flash) :
    Open info request ⟨part.wp + len, part.cnt - len, part.pos + len, world⟩ := by
  have left := is_open.left
  have start := is_open.pos (by omega)
  refine ⟨placed_next info request part len world is_open.toPlaced fits positive whole, kept.mode,
    fun address above below => ?_⟩
  simp only at above below ⊢
  rw [kept.frame address (Or.inr above) (by omega)]
  exact is_open.erased address (by omega) below

/-- A round that writes a word. -/
theorem spoiler_step_word (buffered : Bool) (part : Part) (is_open : Open info request part)
    (single : ¬(buffered = true ∧ info.bufferSize ≠ 1)) (more : info.portwidth ≤ part.cnt) :
    ∃ next, middleStep config info (spoiler config info place) request buffered part = .inl next ∧
      Open info request next ∧ next.cnt < part.cnt ∧
      (info.commandSet = .unknown ∨ part.world.flash.cells place = 0 →
        next.world.flash.cells place = 0) := by
  have positive := portwidth_pos info
  have left := is_open.left
  have fits := fits_erased part.world.flash.cells request.src part.wp 0 part.pos info.portwidth 0
    (fun k less => is_open.erased _ (by omega) (by omega))
  simp only [slice, List.range_zero, List.map_nil, List.nil_append, List.append_nil, Nat.zero_add,
    Nat.add_zero] at fits
  obtain ⟨after, wrote, kept, spoilt⟩ := spoiler_word config info place part.wp
    (slice request.src part.pos info.portwidth) part.world is_open.mode (slice_length _ _ _) fits
  refine ⟨_, ?_, open_kept info place request apart part info.portwidth after is_open more positive
    (Nat.dvd_refl _) kept, ?_, fun zero => zero.elim spoilt kept.spoilt⟩
  · rw [step_word config info _ request buffered part more single _ wrote, if_neg (by simp)]
  · simp only
    omega

/-- A round that writes a piece. -/
theorem spoiler_step_piece (part : Part) (is_open : Open info request part)
    (known : info.commandSet ≠ .unknown) (wide : info.bufferSize ≠ 1)
    (holds : info.chipwidth ≤ info.bufferSize) (more : info.portwidth ≤ part.cnt) :
    ∃ world, middleStep config info (spoiler config info place) request true part =
        .inl ⟨part.wp + pieceLen info part / info.portwidth * info.portwidth,
          part.cnt - pieceLen info part / info.portwidth * info.portwidth,
          part.pos + pieceLen info part / info.portwidth * info.portwidth, world⟩ ∧
      Open info request ⟨part.wp + pieceLen info part / info.portwidth * info.portwidth,
        part.cnt - pieceLen info part / info.portwidth * info.portwidth,
        part.pos + pieceLen info part / info.portwidth * info.portwidth, world⟩ ∧
      (256 < pieceLen info part / info.portwidth ∨ part.world.flash.cells place = 0 →
        world.flash.cells place = 0) := by
  have positive := portwidth_pos info
  have chip := chipwidth_pos info
  have size := buffered_pos info (by omega)
  obtain ⟨atLeast, inside⟩ := piece_words info part holds is_open.aligned more
  have cut := Nat.div_mul_le_self (pieceLen info part) info.portwidth
  have whole := Nat.div_pos atLeast positive
  have block := piece_blocks info part inside
  obtain ⟨after, wrote, kept, spoilt⟩ := spoiler_piece config info place request.src part.wp
    part.pos (pieceLen info part) part.world known is_open.mode whole block
  refine ⟨after, ?_, open_kept info place request apart part _ after is_open ?_
    (Nat.mul_pos whole positive) (Nat.dvd_mul_left _ _) kept,
    fun zero => zero.elim spoilt kept.spoilt⟩
  · rw [step_piece config info _ request true part more ⟨rfl, wide⟩ (by omega) _ wrote,
      if_neg (by simp [ERR_OK])]
  · unfold pieceLen at cut ⊢
    omega

omit apart in
/-- A long stretch of a block that begins in a piece makes the piece long. -/
theorem stretch_in_piece (part : Part) (placed : Placed info request part)
    (holds : info.chipwidth ≤ info.bufferSize) (more : info.portwidth ≤ part.cnt) (first last : Nat)
    (above : part.wp ≤ first / info.portwidth * info.portwidth)
    (below : last < (request.addr + request.cnt) / info.portwidth * info.portwidth)
    (block : first / info.bufferedSize = last / info.bufferedSize)
    (far : first + 256 * info.portwidth ≤ last)
    (here : first < part.wp + pieceLen info part / info.portwidth * info.portwidth) :
    256 < pieceLen info part / info.portwidth := by
  have positive := portwidth_pos info
  have chip := chipwidth_pos info
  have size := buffered_pos info (by omega)
  obtain ⟨atLeast, inside⟩ := piece_words info part holds placed.aligned more
  have cut := Nat.div_mul_le_self (pieceLen info part) info.portwidth
  have low := Nat.div_mul_le_self first info.portwidth
  have left := placed.left
  -- the piece goes to the end of the block, or of the last whole word
  have reach : last < part.wp + pieceLen info part / info.portwidth * info.portwidth := by
    by_cases room : info.bufferedSize - part.wp % info.bufferedSize ≤ part.cnt
    · have full : pieceLen info part = info.bufferedSize - part.wp % info.bufferedSize :=
        Nat.min_eq_left room
      have words : info.portwidth ∣ pieceLen info part := by
        rw [full]
        exact Nat.dvd_sub (buffered_words info holds)
          ((Nat.dvd_mod_iff (buffered_words info holds)).mpr placed.aligned)
      rw [Nat.div_mul_cancel words] at here ⊢
      have same := piece_block info part (first - part.wp) (by omega)
      rw [show part.wp + (first - part.wp) = first by omega, block] at same
      have bound := Nat.lt_div_mul_add (a := last) size
      have split := Nat.div_add_mod' part.wp info.bufferedSize
      rw [same] at bound
      omega
    · have rest : pieceLen info part = part.cnt := Nat.min_eq_right (by omega)
      obtain ⟨q, start⟩ := placed.aligned
      have stop : request.addr + request.cnt = part.wp + part.cnt := by omega
      rw [stop, start, Nat.add_comm, Nat.add_mul_div_left _ _ positive, Nat.add_mul] at below
      rw [rest, start, Nat.mul_comm info.portwidth q]
      omega
  by_contra few
  have bound := Nat.mul_le_mul_right info.portwidth (Nat.le_of_not_lt few)
  omega

/-- The loop over words comes to its end. -/
theorem spoiler_words (buffered : Bool) (single : ¬(buffered = true ∧ info.bufferSize ≠ 1))
    (part : Part) (is_open : Open info request part) :
    ∃ fuel last,
      run (middleStep config info (spoiler config info place) request buffered) fuel part =
        some (0, last) ∧
      Open info request last ∧ last.cnt < info.portwidth ∧
      (info.commandSet = .unknown ∧ info.portwidth ≤ part.cnt ∨ part.world.flash.cells place = 0 →
        last.world.flash.cells place = 0) ∧ (part.cnt < info.portwidth → last = part) := by
  induction size : part.cnt using Nat.strong_induction_on generalizing part with
  | _ n ih =>
      by_cases few : part.cnt < info.portwidth
      · refine ⟨1, part, ?_, is_open, few, fun zero => zero.elim (fun both => by omega) id,
          fun _ => rfl⟩
        rw [run, step_done config info _ request buffered part few]
      · obtain ⟨next, went, after, less, zero⟩ := spoiler_step_word config info place request apart
          buffered part is_open single (Nat.le_of_not_lt few)
        obtain ⟨fuel, last, ended, final, small, spoilt, _⟩ := ih next.cnt (by omega) next after rfl
        refine ⟨fuel + 1, last, (run_next went fuel).trans ended, final, small, fun cause => ?_,
          fun small => absurd (size ▸ small) few⟩
        exact spoilt (Or.inr (zero (cause.imp_left And.left)))

/-- The loop over pieces comes to its end, and spoils the byte where a piece is long. -/
theorem spoiler_pieces (known : info.commandSet ≠ .unknown) (wide : info.bufferSize ≠ 1)
    (holds : info.chipwidth ≤ info.bufferSize) (part : Part) (is_open : Open info request part) :
    ∃ fuel last, run (middleStep config info (spoiler config info place) request true) fuel part =
        some (0, last) ∧
      Open info request last ∧ last.cnt < info.portwidth ∧
      (part.world.flash.cells place = 0 → last.world.flash.cells place = 0) ∧
      ∀ first stop, part.wp ≤ first / info.portwidth * info.portwidth →
        stop < (request.addr + request.cnt) / info.portwidth * info.portwidth →
        first / info.bufferedSize = stop / info.bufferedSize →
        first + 256 * info.portwidth ≤ stop → last.world.flash.cells place = 0 := by
  have positive := portwidth_pos info
  induction size : part.cnt using Nat.strong_induction_on generalizing part with
  | _ n ih =>
      have left := is_open.left
      by_cases few : part.cnt < info.portwidth
      · refine ⟨1, part, ?_, is_open, few, id, fun first stop above below block far => ?_⟩
        · rw [run, step_done config info _ request true part few]
        · have low := Nat.div_mul_le_self first info.portwidth
          have high := Nat.div_mul_le_self (request.addr + request.cnt) info.portwidth
          omega
      · have more := Nat.le_of_not_lt few
        obtain ⟨atLeast, -⟩ := piece_words info part holds is_open.aligned more
        have whole := Nat.mul_pos (Nat.div_pos atLeast positive) positive
        obtain ⟨world, went, after, zero⟩ := spoiler_step_piece config info place request apart part
          is_open known wide holds more
        obtain ⟨fuel, last, ended, final, small, spoilt, later⟩ :=
          ih _ (by simp only; omega) _ after rfl
        refine ⟨fuel + 1, last, (run_next went fuel).trans ended, final, small,
          fun before => spoilt (zero (Or.inr before)), fun first stop above below block far => ?_⟩
        by_cases here : first < part.wp + pieceLen info part / info.portwidth * info.portwidth
        · exact spoilt (zero (Or.inl (stretch_in_piece info request part is_open.toPlaced holds more first
            stop above below block far here)))
        · refine later first stop ?_ below block far
          obtain ⟨q, start⟩ := after.aligned
          simp only at start ⊢
          rw [start, Nat.mul_comm]
          rw [start] at here
          exact Nat.mul_le_mul_right _ ((Nat.le_div_iff_mul_le positive).mpr
            (by rw [Nat.mul_comm]; omega))

/-- The start of the range, on a flash that is erased all over. -/
theorem spoiler_head :
    ∃ part, writeHead config info (spoiler config info place) request (shows fun _ => 0xff) =
        (0, part) ∧ Open info request part ∧
      (∀ m, request.addr ≤ m * info.portwidth → part.wp ≤ m * info.portwidth) ∧
      (info.commandSet = .unknown → info.portwidth ∣ request.addr ∧ part.cnt = request.cnt ∨
        part.world.flash.cells place = 0) := by
  have positive := portwidth_pos info
  have split := Nat.div_add_mod' request.addr info.portwidth
  have bound := Nat.mod_lt request.addr positive
  unfold writeHead
  simp only
  by_cases straight : request.addr - request.addr / info.portwidth * info.portwidth = 0
  · rw [if_neg (not_not.mpr straight)]
    refine ⟨_, rfl, ⟨placed_start info request _ straight, rfl, fun _ _ _ => rfl⟩,
      fun m above => by simp only; omega, fun _ => Or.inl ⟨?_, rfl⟩⟩
    exact Nat.dvd_of_mod_eq_zero (by omega)
  · rw [if_pos straight]
    simp only [read_array _ (shows fun _ => 0xff).flash rfl]
    have placed := fun world => placed_head info request world
      (request.addr - request.addr / info.portwidth * info.portwidth) _ (by omega) rfl (by omega)
    generalize aligned : request.addr / info.portwidth * info.portwidth = wp at *
    generalize inside : request.addr - wp = aln at *
    have fits := fits_erased (shows fun _ => 0xff).flash.cells request.src wp aln 0
      (min (info.portwidth - aln) request.cnt)
      (info.portwidth - aln - min (info.portwidth - aln) request.cnt) (fun _ _ => rfl)
    rw [show aln + min (info.portwidth - aln) request.cnt +
      (info.portwidth - aln - min (info.portwidth - aln) request.cnt) = info.portwidth by omega]
      at fits
    obtain ⟨after, wrote, kept, spoilt⟩ := spoiler_word config info place wp _
      (shows fun _ => 0xff) rfl (by
        rw [← fits, List.length_zipWith]
        simp only [List.length_append, slice_length]
        omega) fits
    rw [wrote]
    refine ⟨_, rfl, ⟨placed after, kept.mode, fun address above below => ?_⟩, fun m above => ?_,
      fun kind => Or.inr (spoilt kind)⟩
    · simp only at above
      rw [kept.frame address (Or.inr above) (by omega)]
      rfl
    · have ahead : request.addr / info.portwidth < m := by
        by_contra back
        have less := Nat.mul_le_mul_right info.portwidth (Nat.le_of_not_lt back)
        omega
      have next := Nat.mul_le_mul_right info.portwidth (Nat.succ_le_of_lt ahead)
      rw [Nat.succ_mul, aligned] at next
      exact next

omit apart in
theorem spoiler_tail (part : Part) (is_open : Open info request part)
    (few : part.cnt < info.portwidth) :
    ∃ after, writeTail config info (spoiler config info place) request part = (0, after) ∧
      (info.commandSet = .unknown ∧ part.cnt ≠ 0 ∨ part.world.flash.cells place = 0 →
        after.flash.cells place = 0) := by
  have left := is_open.left
  unfold writeTail
  by_cases ended : part.cnt = 0
  · rw [if_pos ended]
    exact ⟨_, rfl, fun zero => zero.elim (fun both => absurd ended both.2) id⟩
  · rw [if_neg ended]
    simp only [read_array _ part.world.flash is_open.mode]
    have fits := fits_erased part.world.flash.cells request.src part.wp 0 part.pos part.cnt
      (info.portwidth - part.cnt) (fun k less => is_open.erased _ (by omega) (by omega))
    rw [Nat.zero_add, Nat.add_zero, Nat.add_sub_cancel' (Nat.le_of_lt few)] at fits
    obtain ⟨after, wrote, kept, spoilt⟩ := spoiler_word config info place part.wp
      (slice request.src part.pos part.cnt ++ slice part.world.flash.cells (part.wp + part.cnt)
        (info.portwidth - part.cnt)) part.world is_open.mode (by
        simp only [List.length_append, slice_length]
        omega) (by simpa [slice] using fits)
    exact ⟨after, wrote, fun zero => zero.elim (fun both => spoilt both.1) kept.spoilt⟩

end Spoiling

/-- A call that spoils a byte outside the range is not correct. -/
theorem spoilt_not_correct (request : Request) (buffered : Bool) (fuel : Nat) (after : World)
    (apart : place < request.addr ∨ request.addr + request.cnt ≤ place)
    (ended : writeBuff config info (spoiler config info place) request buffered fuel
      (shows fun _ => 0xff) = some (0, after)) (zero : after.flash.cells place = 0) :
    ¬Correct config info request := by
  intro correct
  have byte := correct.exact _ buffered fuel _ after (fun _ _ _ => rfl) ended place
  rw [zero, if_neg (by omega)] at byte
  cases byte

end Spoiler

section Answer
variable (config : Config) (info : FlashInfo) (request : Request)

/-- A byte outside the range: there are fewer than 2 ^ 32 in it. -/
theorem outside_exists :
    ∃ place < 2 ^ 32, place < request.addr ∨ request.addr + request.cnt ≤ place := by
  have count := request.count
  have range := request.range
  by_cases first : request.addr = 0
  · exact ⟨request.cnt, count, Or.inr (by omega)⟩
  · exact ⟨request.addr - 1, by omega, Or.inl (by omega)⟩

/-- An unknown command set writes no word. -/
theorem unknown_nothing (correct : Correct config info request)
    (kind : info.commandSet = .unknown) : request.cnt = 0 ∧ info.portwidth ∣ request.addr := by
  by_contra wanted
  obtain ⟨place, -, apart⟩ := outside_exists request
  obtain ⟨first, head, is_open, -, start⟩ := spoiler_head config info place request apart
  obtain ⟨fuel, last, middle, final, few, spoilt, same⟩ := spoiler_words config info place request
    apart false (by simp) first is_open
  obtain ⟨after, tail, zero⟩ := spoiler_tail config info place request last final few
  have ended := (write_buff_ok config info (spoiler config info place) request false fuel
    (shows fun _ => 0xff) after).mpr ⟨first, last, head, middle, tail⟩
  refine spoilt_not_correct config info place request false fuel after apart ended (zero ?_) correct
  rcases start kind with ⟨whole, count⟩ | early
  · by_cases more : info.portwidth ≤ first.cnt
    · exact Or.inr (spoilt (Or.inl ⟨kind, more⟩))
    · rw [same (by omega)]
      exact Or.inl ⟨kind, fun empty => wanted ⟨by omega, whole⟩⟩
  · exact Or.inr (spoilt (Or.inr early))

theorem pieces_short (correct : Correct config info request) (known : info.commandSet ≠ .unknown)
    (wide : 1 < info.bufferSize) (holds : info.chipwidth ≤ info.bufferSize) :
    ShortPieces info request := by
  intro first stop above below block
  by_contra far
  obtain ⟨place, -, apart⟩ := outside_exists request
  obtain ⟨part, head, is_open, start, -⟩ := spoiler_head config info place request apart
  obtain ⟨fuel, last, middle, final, few, -, long⟩ := spoiler_pieces config info place request apart
    known (by omega) holds part is_open
  obtain ⟨after, tail, zero⟩ := spoiler_tail config info place request last final few
  have ended := (write_buff_ok config info (spoiler config info place) request true fuel
    (shows fun _ => 0xff) after).mpr ⟨part, last, head, middle, tail⟩
  exact spoilt_not_correct config info place request true fuel after apart ended
    (zero (Or.inr (long first stop (start _ above) below block (by omega)))) correct

/-- write_buff writes a range exactly, in both of its ways and whatever the flash does on a write
that its command set does not have, where the command set is known and no piece of the buffer has
more words than its count can tell, and only there, but for ranges of which nothing is written. -/
theorem write_buff_iff : Correct config info request ↔ Served info request := by
  refine ⟨fun correct => ?_, correct_of_served config info request⟩
  by_cases known : info.commandSet ≠ .unknown
  · refine Or.inr ⟨known, ?_⟩
    by_cases small : info.bufferSize ≤ 1
    · exact Or.inl small
    · by_cases short : info.bufferSize < info.chipwidth
      · exact Or.inr (Or.inl short)
      · exact Or.inr (Or.inr (pieces_short config info request correct known (by omega) (by omega)))
  · exact Or.inl (unknown_nothing config info request correct (not_not.mp known))

end Answer

def anyConfig : Config where
  bigEndian := true
  cfiWidth := 1
  maxFlashSect := 128

/-- An SST flash at a port of 8 bits. -/
def sst : FlashInfo where
  portwidth := 1
  chipwidth := 1
  bufferSize := 1
  vendor := CFI_CMDSET_SST
  start := [0]
  port := by decide
  chip := by decide
  buffer := Or.inr ⟨0, by decide, rfl⟩

def zeroByte : Request where
  src := fun _ => 0
  addr := 0
  cnt := 1
  range := by decide
  count := by decide

/-- A flash that ignores a write without a command. -/
def quiet : Board where
  other := fun flash _ => flash
  shown := fun _ _ => 0xff
  checks := fun _ => none
  stale := 0

/-- No command is sent to a flash of an unknown command set, and the write is a success. -/
theorem sst_byte_missing :
    (∃ after, writeBuff anyConfig sst quiet zeroByte false 2 (shows fun _ => 0xff) =
      some (0, after) ∧ after.flash.cells 0 = 0xff) ∧ ¬Correct anyConfig sst zeroByte := by
  have run : ∃ after, writeBuff anyConfig sst quiet zeroByte false 2 (shows fun _ => 0xff) =
      some (0, after) ∧ after.flash.cells 0 = 0xff := ⟨shows fun _ => 0xff, rfl, rfl⟩
  refine ⟨run, fun correct => ?_⟩
  obtain ⟨after, ended, byte⟩ := run
  have wanted := correct.exact quiet false 2 _ after (fun _ _ _ => rfl) ended 0
  rw [byte] at wanted
  cases wanted

end UBoot.Flash.CfiWrite
