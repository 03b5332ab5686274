import Mathlib.Tactic

/-!
common/cmd_eeprom.c for a device on the I2C bus that is no FRAM: eeprom_read and eeprom_write cut a
range into transfers. Offsets and counts are unsigned 32-bit numbers.
-/

namespace UBoot.Common.Eeprom

def I2C_RXTX_LEN : Nat := 128

/-- The configuration of the board. -/
structure Config where
  /-- CFG_I2C_EEPROM_ADDR_LEN is 2, not 1. -/
  wide : Bool
  /-- CFG_EEPROM_PAGE_WRITE_BITS, if it is defined. -/
  pageWriteBits : Option Nat

/-- The arguments of i2c_read and i2c_write; `buffer` counts from the buffer of the caller. -/
structure Transfer where
  chip : UInt8
  addr : Nat
  alen : Nat
  buffer : Nat
  len : Nat
deriving DecidableEq

section Code
variable (config : Config) (devAddr : UInt8)

/-- The transfer of `len` bytes at an offset. -/
def transferAt (offset buffer len : Nat) : Transfer :=
  let blkOff := UInt8.ofNat (offset &&& 0xff)
  let addr :=
    if config.wide then [UInt8.ofNat (offset >>> 16), UInt8.ofNat (offset >>> 8), blkOff]
    else [UInt8.ofNat (offset >>> 8), blkOff]
  { chip := addr.headD 0 ||| devAddr
    addr := offset
    alen := addr.length - 1
    buffer := buffer
    len := len }

/-- The loop of eeprom_read and eeprom_write, where `maxlen` is computed from the block offset, and
`fails` says which transfers fail, by their place in the buffer. A transfer has a byte at least, so
`turns` need not be more than the bytes. -/
def transferLoop (maxlen : Nat → Nat) (fails : Nat → Bool) (stop : Nat) :
    (turns offset buffer rcode : Nat) → List Transfer × Nat
  | 0, _, _, rcode => ([], rcode)
  | turns + 1, offset, buffer, rcode =>
      if offset < stop then
        let blkOff := offset &&& 0xff
        let maxlen' := if maxlen blkOff > I2C_RXTX_LEN then I2C_RXTX_LEN else maxlen blkOff
        let len := if stop - offset > maxlen' then maxlen' else stop - offset
        let (rest, rcode) := transferLoop maxlen fails stop turns (offset + len) (buffer + len)
          (if fails buffer then 1 else rcode)
        (transferAt config devAddr offset buffer len :: rest, rcode)
      else ([], rcode)

def EEPROM_PAGE_SIZE (bits : Nat) : Nat := 1 <<< bits

def EEPROM_PAGE_OFFSET (bits x : Nat) : Nat := x &&& (EEPROM_PAGE_SIZE bits - 1)

def readMaxlen (blkOff : Nat) : Nat := 0x100 - blkOff

def writeMaxlen (blkOff : Nat) : Nat :=
  match config.pageWriteBits with
  | some bits => EEPROM_PAGE_SIZE bits - EEPROM_PAGE_OFFSET bits blkOff
  | none => 0x100 - blkOff

/-- The transfers of eeprom_read, and its result. -/
def eepromRead (offset cnt : UInt32) (fails : Nat → Bool) : List Transfer × Nat :=
  let stop := (offset + cnt).toNat
  transferLoop config devAddr readMaxlen fails stop (stop - offset.toNat) offset.toNat 0 0

/-- The transfers of eeprom_write, and its result. -/
def eepromWrite (offset cnt : UInt32) (fails : Nat → Bool) : List Transfer × Nat :=
  let stop := (offset + cnt).toNat
  transferLoop config devAddr (writeMaxlen config) fails stop (stop - offset.toNat) offset.toNat 0 0

end Code

/-- The write page of the device. -/
def Config.page (config : Config) : Nat :=
  match config.pageWriteBits with
  | some bits => 2 ^ bits
  | none => 256

/-- The transfers lie one behind the other, from `place` to `stop`, in the device and in the buffer. -/
def Tiles (start stop : Nat) : Nat → List Transfer → Prop
  | place, [] => place = stop
  | place, transfer :: rest =>
      transfer.addr = place ∧ transfer.buffer + start = place ∧ 0 < transfer.len ∧
        Tiles start stop (place + transfer.len) rest

/-- A transfer that does not cross a page boundary. -/
def Transfer.Within (page : Nat) (transfer : Transfer) : Prop :=
  transfer.addr / page = (transfer.addr + transfer.len - 1) / page

/-- The transfers cover the range, without crossing a page boundary, and none are made for an empty
range alone. -/
structure Exact (page : Nat) (offset cnt : UInt32) (transfers : List Transfer) : Prop where
  covers : Tiles offset.toNat (offset.toNat + cnt.toNat) offset.toNat transfers
  within : ∀ transfer ∈ transfers, transfer.Within page
  empty : transfers = [] → cnt = 0

section Loop
variable {config : Config} {devAddr : UInt8} {maxlen : Nat → Nat} {fails : Nat → Bool}
  {start stop turns offset buffer rcode page : Nat}

theorem and_byte (offset : Nat) : offset &&& 0xff = offset % 256 :=
  Nat.and_two_pow_sub_one_eq_mod offset 8

/-- How many bytes the loop transfers at an offset. -/
def lenAt (maxlen : Nat → Nat) (stop offset : Nat) : Nat :=
  min (stop - offset) (min (maxlen (offset % 256)) I2C_RXTX_LEN)

theorem loop_step (more : offset < stop) :
    (transferLoop config devAddr maxlen fails stop (turns + 1) offset buffer rcode).1 =
      transferAt config devAddr offset buffer (lenAt maxlen stop offset) ::
        (transferLoop config devAddr maxlen fails stop turns (offset + lenAt maxlen stop offset)
          (buffer + lenAt maxlen stop offset) (if fails buffer then 1 else rcode)).1 := by
  have cap : (if maxlen (offset % 256) > I2C_RXTX_LEN then I2C_RXTX_LEN else maxlen (offset % 256)) =
      min (maxlen (offset % 256)) I2C_RXTX_LEN := by
    split <;> omega
  have len : (if stop - offset > min (maxlen (offset % 256)) I2C_RXTX_LEN
      then min (maxlen (offset % 256)) I2C_RXTX_LEN else stop - offset) = lenAt maxlen stop offset := by
    unfold lenAt
    split <;> omega
  rw [transferLoop, if_pos more]
  dsimp only
  rw [and_byte, cap, len]

theorem loop_done (done : stop ≤ offset) :
    (transferLoop config devAddr maxlen fails stop turns offset buffer rcode).1 = [] := by
  cases turns with
  | zero => rfl
  | succ turns =>
      rw [transferLoop, if_neg (Nat.not_lt.mpr done)]

theorem len_positive (positive : ∀ x, 0 < maxlen (x % 256)) (more : offset < stop) :
    0 < lenAt maxlen stop offset := by
  have room := positive offset
  unfold lenAt I2C_RXTX_LEN
  omega

theorem loop_tiles (positive : ∀ x, 0 < maxlen (x % 256)) (enough : stop - offset ≤ turns)
    (inside : offset ≤ stop) (place : buffer + start = offset) : Tiles start stop offset
      (transferLoop config devAddr maxlen fails stop turns offset buffer rcode).1 := by
  induction turns generalizing offset buffer rcode with
  | zero =>
      have done : offset = stop := by omega
      exact done
  | succ turns ih =>
      by_cases more : offset < stop
      · have some_bytes := len_positive positive more
        have fits : lenAt maxlen stop offset ≤ stop - offset := Nat.min_le_left _ _
        rw [loop_step more]
        refine ⟨rfl, place, some_bytes, ?_⟩
        change Tiles start stop (offset + lenAt maxlen stop offset) _
        exact ih (by omega) (by omega) (by omega)
      · rw [loop_done (Nat.not_lt.mp more)]
        exact Nat.le_antisymm inside (Nat.not_lt.mp more)

theorem within_of_room {transfer : Transfer} (some_bytes : 0 < transfer.len)
    (room : transfer.len ≤ page - transfer.addr % page) : transfer.Within page := by
  have split := Nat.div_add_mod transfer.addr page
  have some_room : 0 < page := by omega
  have last : transfer.addr + transfer.len - 1 =
      page * (transfer.addr / page) + (transfer.addr % page + transfer.len - 1) := by
    generalize page * (transfer.addr / page) = before at split ⊢
    omega
  have small : (transfer.addr % page + transfer.len - 1) / page = 0 := Nat.div_eq_of_lt (by omega)
  have same := Nat.mul_add_div some_room (transfer.addr / page) (transfer.addr % page + transfer.len - 1)
  rw [Transfer.Within, last, same, small, Nat.add_zero]

/-- Where a transfer never takes more than is left of the page. -/
theorem loop_within (positive : ∀ x, 0 < maxlen (x % 256))
    (fits : ∀ x, min (maxlen (x % 256)) I2C_RXTX_LEN ≤ page - x % page) :
    ∀ transfer ∈ (transferLoop config devAddr maxlen fails stop turns offset buffer rcode).1,
      transfer.Within page := by
  induction turns generalizing offset buffer rcode with
  | zero => exact fun _ member => absurd member List.not_mem_nil
  | succ turns ih =>
      by_cases more : offset < stop
      · rw [loop_step more]
        intro transfer member
        rcases List.mem_cons.mp member with rfl | later
        · apply within_of_room (len_positive positive more)
          exact Nat.le_trans (Nat.min_le_right _ _) (fits offset)
        · exact ih transfer later
      · rw [loop_done (Nat.not_lt.mp more)]
        exact fun _ member => absurd member List.not_mem_nil

/-- A page of whole blocks. -/
theorem within_blocks {transfer : Transfer} {block : Nat} (blocks : block ∣ page)
    (inside : transfer.Within block) : transfer.Within page := by
  obtain ⟨count, rfl⟩ := blocks
  rw [Transfer.Within, ← Nat.div_div_eq_div_mul, ← Nat.div_div_eq_div_mul, inside]

/-- Transfers of 128 bytes, which go from one block of 128 bytes to the next one. -/
theorem aligned_within (room : ∀ x, I2C_RXTX_LEN ≤ maxlen (x % 256)) (blocks : I2C_RXTX_LEN ∣ page)
    (aligned : I2C_RXTX_LEN ∣ offset) :
    ∀ transfer ∈ (transferLoop config devAddr maxlen fails stop turns offset buffer rcode).1,
      transfer.Within page := by
  induction turns generalizing offset buffer rcode with
  | zero => exact fun _ member => absurd member List.not_mem_nil
  | succ turns ih =>
      by_cases more : offset < stop
      · have full := room offset
        have len : lenAt maxlen stop offset = min (stop - offset) I2C_RXTX_LEN := by
          rw [lenAt, Nat.min_eq_right full]
        have long : 0 < I2C_RXTX_LEN := by decide
        rw [loop_step more, len]
        intro transfer member
        rcases List.mem_cons.mp member with rfl | later
        · apply within_blocks blocks
          have start := Nat.mod_eq_zero_of_dvd aligned
          apply within_of_room
          · change 0 < min (stop - offset) I2C_RXTX_LEN
            omega
          · change min (stop - offset) I2C_RXTX_LEN ≤ I2C_RXTX_LEN - offset % I2C_RXTX_LEN
            omega
        · by_cases last : stop - offset ≤ I2C_RXTX_LEN
          · rw [Nat.min_eq_left last, loop_done (by omega)] at later
            exact absurd later List.not_mem_nil
          · rw [Nat.min_eq_right (by omega)] at later
            exact ih (Nat.dvd_add aligned (Nat.dvd_refl _)) transfer later
      · rw [loop_done (Nat.not_lt.mp more)]
        exact fun _ member => absurd member List.not_mem_nil

/-- A range inside one page. -/
theorem one_page_within (positive : ∀ x, 0 < maxlen (x % 256))
    (one_page : offset / page = (stop - 1) / page) :
    ∀ transfer ∈ (transferLoop config devAddr maxlen fails stop turns offset buffer rcode).1,
      transfer.Within page := by
  induction turns generalizing offset buffer rcode with
  | zero => exact fun _ member => absurd member List.not_mem_nil
  | succ turns ih =>
      by_cases more : offset < stop
      · have some_bytes := len_positive positive more
        have fits : lenAt maxlen stop offset ≤ stop - offset := Nat.min_le_left _ _
        rw [loop_step more]
        generalize lenAt maxlen stop offset = len at some_bytes fits ⊢
        have between : ∀ x, offset ≤ x → x ≤ stop - 1 → x / page = offset / page := by
          intro x after before
          have lower := Nat.div_le_div_right (c := page) after
          have upper := Nat.div_le_div_right (c := page) before
          omega
        intro transfer member
        rcases List.mem_cons.mp member with rfl | later
        · exact (between (offset + len - 1) (by omega) (by omega)).symm
        · by_cases last : offset + len < stop
          · refine ih ?_ transfer later
            rw [between (offset + len) (by omega) (by omega), one_page]
          · rw [loop_done (Nat.not_lt.mp last)] at later
            exact absurd later List.not_mem_nil
      · rw [loop_done (Nat.not_lt.mp more)]
        exact fun _ member => absurd member List.not_mem_nil

/-- Transfers of 128 bytes that do not start at a block of 128 bytes get across a page boundary, if
there is one in the range. -/
theorem unaligned_crosses (room : ∀ x, I2C_RXTX_LEN ≤ maxlen (x % 256))
    (blocks : I2C_RXTX_LEN ∣ page) (unaligned : ¬I2C_RXTX_LEN ∣ offset) (more : offset < stop)
    (enough : stop - offset ≤ turns)
    (within : ∀ transfer ∈
      (transferLoop config devAddr maxlen fails stop turns offset buffer rcode).1,
        transfer.Within page) :
    offset / page = (stop - 1) / page := by
  induction turns generalizing offset buffer rcode with
  | zero => omega
  | succ turns ih =>
      have full := room offset
      have len : lenAt maxlen stop offset = min (stop - offset) I2C_RXTX_LEN := by
        rw [lenAt, Nat.min_eq_right full]
      rw [loop_step more, len] at within
      have first : offset / page = (offset + min (stop - offset) I2C_RXTX_LEN - 1) / page :=
        within _ List.mem_cons_self
      by_cases last : stop - offset ≤ I2C_RXTX_LEN
      · rw [first, Nat.min_eq_left last]
        congr 2
        omega
      · have long : 0 < I2C_RXTX_LEN := by decide
        rw [Nat.min_eq_right (by omega)] at within first
        have still : ¬I2C_RXTX_LEN ∣ offset + I2C_RXTX_LEN :=
          fun whole => unaligned ((Nat.dvd_add_left (Nat.dvd_refl _)).mp whole)
        have same : (offset + I2C_RXTX_LEN) / page = offset / page := by
          have step := @Nat.succ_div (offset + I2C_RXTX_LEN - 1) page
          have next : offset + I2C_RXTX_LEN - 1 + 1 = offset + I2C_RXTX_LEN := by omega
          have inside : ¬page ∣ offset + I2C_RXTX_LEN := fun whole => still (blocks.trans whole)
          rw [next, if_neg inside, Nat.add_zero] at step
          rw [step, first]
        rw [← same]
        exact ih still (by omega) (by omega)
          fun transfer later => within transfer (List.mem_cons_of_mem _ later)

end Loop

section Lengths
variable {config : Config}

theorem read_room (x : Nat) : min (readMaxlen (x % 256)) I2C_RXTX_LEN ≤ 256 - x % 256 :=
  Nat.min_le_left _ _

theorem read_positive (x : Nat) : 0 < readMaxlen (x % 256) := by
  unfold readMaxlen
  omega

theorem write_maxlen {bits : Nat} (page_bits : config.pageWriteBits = some bits) (x : Nat) :
    writeMaxlen config (x % 256) = 2 ^ bits - x % 256 % 2 ^ bits := by
  rw [writeMaxlen, page_bits]
  dsimp only [EEPROM_PAGE_OFFSET, EEPROM_PAGE_SIZE]
  rw [Nat.one_shiftLeft, Nat.and_two_pow_sub_one_eq_mod]

theorem write_positive (x : Nat) : 0 < writeMaxlen config (x % 256) := by
  cases page_bits : config.pageWriteBits with
  | none =>
      rw [writeMaxlen, page_bits]
      exact read_positive x
  | some bits =>
      rw [write_maxlen page_bits]
      have inside := Nat.mod_lt (x % 256) (Nat.two_pow_pos bits)
      omega

/-- The mask of the block offset does no harm to a page of 256 bytes at most. -/
theorem write_room (small : config.page ≤ 256) (x : Nat) :
    min (writeMaxlen config (x % 256)) I2C_RXTX_LEN ≤ config.page - x % config.page := by
  refine Nat.le_trans (Nat.min_le_left _ _) ?_
  cases page_bits : config.pageWriteBits with
  | none =>
      rw [writeMaxlen, Config.page, page_bits]
  | some bits =>
      have page : config.page = 2 ^ bits := by rw [Config.page, page_bits]
      rw [page] at small ⊢
      have few : bits ≤ 8 := (Nat.pow_le_pow_iff_right (by decide)).mp small
      rw [write_maxlen page_bits, Nat.mod_mod_of_dvd x (Nat.pow_dvd_pow 2 few)]

/-- Above 256 bytes the mask leaves more than one transfer takes. -/
theorem write_full (large : 256 < config.page) :
    I2C_RXTX_LEN ∣ config.page ∧ ∀ x, I2C_RXTX_LEN ≤ writeMaxlen config (x % 256) := by
  cases page_bits : config.pageWriteBits with
  | none =>
      rw [Config.page, page_bits] at large
      exact absurd large (by decide)
  | some bits =>
      have page : config.page = 2 ^ bits := by rw [Config.page, page_bits]
      rw [page] at large ⊢
      have many : 8 < bits := (Nat.pow_lt_pow_iff_right (Nat.one_lt_two)).mp large
      refine ⟨Nat.pow_dvd_pow 2 (Nat.le_of_lt (Nat.lt_of_succ_lt many)), fun x => ?_⟩
      have block := Nat.mod_lt x (show 0 < 256 by decide)
      have twice : 2 ^ 9 ≤ 2 ^ bits := Nat.pow_le_pow_right Nat.two_pos many
      rw [write_maxlen page_bits, Nat.mod_eq_of_lt (by omega)]
      unfold I2C_RXTX_LEN
      omega

end Lengths

section Ranges
variable {config : Config} {devAddr : UInt8} {maxlen : Nat → Nat} {fails : Nat → Bool}
  {offset cnt : UInt32} {page : Nat}

/-- The transfers of the loop as eeprom_read and eeprom_write start it. -/
def transfers (config : Config) (devAddr : UInt8) (maxlen : Nat → Nat) (fails : Nat → Bool)
    (offset cnt : UInt32) : List Transfer :=
  (transferLoop config devAddr maxlen fails (offset + cnt).toNat
    ((offset + cnt).toNat - offset.toNat) offset.toNat 0 0).1

theorem end_of_range (below : offset.toNat + cnt.toNat < 2 ^ 32) :
    (offset + cnt).toNat = offset.toNat + cnt.toNat := by
  rw [UInt32.toNat_add, Nat.mod_eq_of_lt below]

/-- Without a wrap of the end, the range is covered, and what is left is where the transfers end. -/
theorem exact_iff_within (positive : ∀ x, 0 < maxlen (x % 256))
    (below : offset.toNat + cnt.toNat < 2 ^ 32) :
    Exact page offset cnt (transfers config devAddr maxlen fails offset cnt) ↔
      ∀ transfer ∈ transfers config devAddr maxlen fails offset cnt, transfer.Within page := by
  have covers : Tiles offset.toNat (offset.toNat + cnt.toNat) offset.toNat
      (transfers config devAddr maxlen fails offset cnt) := by
    rw [transfers, end_of_range below]
    exact loop_tiles positive (Nat.le_refl _) (Nat.le_add_right _ _) (Nat.zero_add _)
  refine ⟨Exact.within, fun within => ⟨covers, within, fun none => ?_⟩⟩
  rw [none] at covers
  have nothing : offset.toNat = offset.toNat + cnt.toNat := covers
  exact UInt32.toNat.inj (by rw [UInt32.toNat_zero]; omega)

/-- The end of the range wraps, and nothing is transferred. -/
theorem wrapped_transfers (wraps : 2 ^ 32 ≤ offset.toNat + cnt.toNat) :
    transfers config devAddr maxlen fails offset cnt = [] := by
  have offset_bound := offset.toNat_lt
  have cnt_bound := cnt.toNat_lt
  apply loop_done
  rw [UInt32.toNat_add]
  omega

/-- An empty range needs no transfer. -/
theorem empty_exact : Exact page offset 0 (transfers config devAddr maxlen fails offset 0) := by
  have none : transfers config devAddr maxlen fails offset 0 = [] := by
    apply loop_done
    rw [UInt32.add_zero]
  rw [none]
  exact ⟨rfl, fun _ member => absurd member List.not_mem_nil, fun _ => rfl⟩

end Ranges

/-- Each range is transferred as the device needs it, exactly where its end does not wrap, and where
a page of more than 256 bytes is written from a block of 128 bytes, or in one page alone. -/
theorem eeprom_transfers_iff (config : Config) (devAddr : UInt8) (offset cnt : UInt32)
    (readFails writeFails : Nat → Bool) :
    (Exact config.page offset cnt (eepromWrite config devAddr offset cnt writeFails).1 ∧
      Exact 256 offset cnt (eepromRead config devAddr offset cnt readFails).1) ↔
    cnt = 0 ∨ offset.toNat + cnt.toNat < 2 ^ 32 ∧
      (config.page ≤ 256 ∨ I2C_RXTX_LEN ∣ offset.toNat ∨
        offset.toNat / config.page = (offset.toNat + cnt.toNat - 1) / config.page) := by
  change Exact config.page offset cnt
      (transfers config devAddr (writeMaxlen config) writeFails offset cnt) ∧
    Exact 256 offset cnt (transfers config devAddr readMaxlen readFails offset cnt) ↔ _
  by_cases empty : cnt = 0
  · subst empty
    exact iff_of_true ⟨empty_exact, empty_exact⟩ (Or.inl rfl)
  rw [or_iff_right empty]
  by_cases below : offset.toNat + cnt.toNat < 2 ^ 32
  · have some_bytes : 0 < cnt.toNat :=
      Nat.pos_of_ne_zero fun zero => empty (UInt32.toNat.inj zero)
    have read : Exact 256 offset cnt (transfers config devAddr readMaxlen readFails offset cnt) :=
      (exact_iff_within read_positive below).mpr (loop_within read_positive read_room)
    rw [and_iff_left read, and_iff_right below, exact_iff_within write_positive below]
    by_cases small : config.page ≤ 256
    · exact iff_of_true (loop_within write_positive (write_room small)) (Or.inl small)
    · obtain ⟨blocks, full⟩ := write_full (Nat.lt_of_not_le small)
      rw [or_iff_right small, transfers, end_of_range below]
      constructor
      · intro within
        by_cases aligned : I2C_RXTX_LEN ∣ offset.toNat
        · exact Or.inl aligned
        · exact Or.inr (unaligned_crosses full blocks aligned (by omega) (Nat.le_refl _) within)
      · rintro (aligned | one_page)
        · exact aligned_within full blocks aligned
        · exact one_page_within write_positive one_page
  · refine iff_of_false (fun both => ?_) (fun both => below both.1)
    exact empty (both.2.empty (wrapped_transfers (Nat.le_of_not_lt below)))

/-- A write of two bytes at 511 crosses the end of a page of 512 bytes, and 32 bytes at 0xfffffff0
are not written at all. -/
theorem range_missed :
    ¬Exact 512 511 2 (eepromWrite ⟨true, some 9⟩ 0x50 511 2 fun _ => false).1 ∧
      ¬Exact 256 0xfffffff0 32 (eepromWrite ⟨true, none⟩ 0x50 0xfffffff0 32 fun _ => false).1 := by
  constructor
  · intro exact
    have write := exact.within (transferAt ⟨true, some 9⟩ 0x50 511 0 2) (by decide)
    exact absurd write (by unfold Transfer.Within; decide)
  · intro exact
    exact absurd (exact.empty (by decide)) (by decide)

end UBoot.Common.Eeprom
