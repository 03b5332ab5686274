import UBoot.Lib.Strings
import UBoot.Nand.AthBlocks

/-!
The command nand erase. The size behind an offset that is given alone, and the
end of the range in the check of ath_nand_erase, are computed modulo 2^32; the
blocks are counted from the size alone.
-/

namespace UBoot.Nand.EraseCommand

open Lib.Strings AthRwBuff AthBlocks

/-- A device whose blocks the address registers can tell apart. -/
structure NandInfo extends MtdInfo where
  word : size < 2 ^ 32
  smallReach : isSmallBlockDevice = true → size ≤ 2 ^ 12 * 2 ^ erasesizeShift
  largeReach : isSmallBlockDevice = false → size ≤ 2 ^ 20 * 2 ^ writesizeShift

/-- arg_off_size, for the words behind the command. -/
def argOffSize (argv : List (List UInt8)) (totsize : Nat) : Nat × Nat :=
  match argv with
  | [] => (0, toUlong (totsize - 0))
  | [off] => ((simpleStrtoul off 16).value, toUlong (totsize - (simpleStrtoul off 16).value))
  | off :: size :: _ => ((simpleStrtoul off 16).value, (simpleStrtoul size 16).value)

/-- The command's value, the driver and its events. There is no value when `ret` was never set. -/
def doNandErase (nand : NandInfo) (driver : Driver) (argv : List (List UInt8)) :
    Option Int × Driver × List Event :=
  let (off, size) := argOffSize argv nand.size
  if off = 0 ∧ size = 0 then (some 1, driver, [])
  else
    let (ret, driver, events) := athNandErase nand.toMtdInfo driver off size
    (ret.map fun ret => if ret = 0 then 0 else 1, driver, events)

/-- A block lies in a range and in the device. -/
def Inside (nand : NandInfo) (off size block : Nat) : Prop :=
  off ≤ block * nand.erasesize ∧ (block + 1) * nand.erasesize ≤ off + size ∧
    (block + 1) * nand.erasesize ≤ nand.size

/-- Only blocks in the range are erased, and a range that leaves the device is refused. -/
def Kept (nand : NandInfo) (driver : Driver) (argv : List (List UInt8)) : Prop :=
  (∀ i, .erase i ∈ (doNandErase nand driver argv).2.2 →
    Inside nand (argOffSize argv nand.size).1 (argOffSize argv nand.size).2
      (erasedBlock nand.toMtdInfo i)) ∧
  (nand.size < (argOffSize argv nand.size).1 ∨
      nand.size < (argOffSize argv nand.size).1 + (argOffSize argv nand.size).2 →
    (∀ i, .erase i ∉ (doNandErase nand driver argv).2.2) ∧
      (doNandErase nand driver argv).1 = some 1)

/-- The condition on the two numbers: no size, a sum whose last 32 bits are beyond the device, or
whole blocks of the device. -/
def Fits (nand : NandInfo) (off size : Nat) : Prop :=
  size = 0 ∨ nand.size < (off + size) % 2 ^ 32 ∨
    off + size ≤ nand.size ∧ nand.erasesize ∣ off ∧ nand.erasesize ∣ size

/-! ### The block that is erased -/

theorem erased_block (nand : NandInfo) {addr : Nat} (inside : addr < nand.size) :
    erasedBlock nand.toMtdInfo addr = addr >>> nand.erasesizeShift := by
  unfold erasedBlock athNandConvAddr
  cases small : nand.isSmallBlockDevice with
  | true =>
      have few : addr >>> nand.erasesizeShift < 2 ^ 12 := by
        rw [Nat.shiftRight_eq_div_pow, Nat.div_lt_iff_lt_mul (Nat.two_pow_pos _)]
        exact lt_of_lt_of_le inside (nand.smallReach small)
      simp only [Bool.and_self, if_true]
      generalize addr >>> nand.erasesizeShift = block at few ⊢
      have low : block % 2 ^ 32 &&& 0xfff = block % 2 ^ 32 % 2 ^ 12 :=
        Nat.and_two_pow_sub_one_eq_mod _ 12
      have bit : (block % 2 ^ 32) >>> 11 &&& 0x1 = ((block % 2 ^ 32) >>> 11) % 2 ^ 1 :=
        Nat.and_two_pow_sub_one_eq_mod _ 1
      rw [low, bit]
      simp only [Nat.shiftLeft_eq, Nat.shiftRight_eq_div_pow]
      omega
  | false =>
      have few : addr >>> nand.writesizeShift < 2 ^ 20 := by
        rw [Nat.shiftRight_eq_div_pow, Nat.div_lt_iff_lt_mul (Nat.two_pow_pos _)]
        exact lt_of_lt_of_le inside (nand.largeReach small)
      have whole : addr >>> nand.erasesizeShift =
          (addr >>> nand.writesizeShift) / pagesPerBlock nand.toMtdInfo := by
        rw [Nat.shiftRight_eq_div_pow, Nat.shiftRight_eq_div_pow, pagesPerBlock,
          Nat.div_div_eq_div_mul, ← Nat.pow_add, Nat.add_sub_cancel' nand.pages]
      rw [whole, Nat.shiftRight_add]
      simp only [Bool.false_and, Bool.false_eq_true, if_false]
      congr 1
      generalize addr >>> nand.writesizeShift = page at few ⊢
      have high : page >>> 16 &&& 0xf = (page >>> 16) % 2 ^ 4 := Nat.and_two_pow_sub_one_eq_mod _ 4
      rw [high]
      simp only [Nat.shiftLeft_eq, Nat.shiftRight_eq_div_pow]
      omega

/-! ### The loop -/

section Loop

variable {mtd : MtdInfo}

/-- The address behind a block, as long as it does not wrap. -/
theorem next_addr {i count : Nat} (room : i + (count + 1) * mtd.erasesize ≤ 2 ^ 32)
    (more : 0 < count) : (i + mtd.erasesize) % 2 ^ 32 = i + mtd.erasesize := by
  apply Nat.mod_eq_of_lt
  have block := erasesize_pos mtd
  have rest : mtd.erasesize ≤ count * mtd.erasesize := Nat.le_mul_of_pos_left _ more
  rw [Nat.succ_mul] at room
  omega

/-- The loop erases at the addresses it comes to. -/
theorem erased_addr (count : Nat) (driver : Driver) (i : Nat) (ret : Option Int) (addr : Nat)
    (erased : .erase addr ∈ (eraseLoop mtd count driver i ret).2.2)
    (room : i + count * mtd.erasesize ≤ 2 ^ 32) :
    ∃ j < count, addr = i + j * mtd.erasesize := by
  induction count generalizing driver i ret with
  | zero => exact absurd erased List.not_mem_nil
  | succ count induction =>
      have later : ∀ driver ret,
          .erase addr ∈ (eraseLoop mtd count driver ((i + mtd.erasesize) % 2 ^ 32) ret).2.2 →
          ∃ j < count + 1, addr = i + j * mtd.erasesize := by
        intro driver ret member
        rcases Nat.eq_zero_or_pos count with none | more
        · subst none
          exact absurd member List.not_mem_nil
        · rw [next_addr room more] at member
          obtain ⟨j, below, same⟩ := induction driver (i + mtd.erasesize) ret member
            (by rw [Nat.succ_mul] at room; omega)
          exact ⟨j + 1, by omega, by rw [same, Nat.succ_mul]; omega⟩
      unfold eraseLoop at erased
      cases checked : athNandBlockIsbad mtd driver i with
      | mk bad after =>
          simp only [checked] at erased
          cases bad with
          | true =>
              rw [if_pos rfl] at erased
              rcases List.mem_cons.mp erased with first | rest
              · cases first
              · exact later after ret rest
          | false =>
              rw [if_neg Bool.false_ne_true] at erased
              cases done : eraseBlock mtd after i with
              | mk ok next =>
                  simp only [done] at erased
                  cases ok with
                  | true =>
                      rw [if_pos rfl] at erased
                      rcases List.mem_cons.mp erased with first | rest
                      · cases first
                      · rcases List.mem_cons.mp rest with now | rest
                        · cases now
                          exact ⟨0, Nat.succ_pos count, by omega⟩
                        · exact later next (some 0) rest
                  | false =>
                      rw [if_neg Bool.false_ne_true] at erased
                      rcases List.mem_cons.mp erased with first | rest
                      · cases first
                      · cases List.mem_singleton.mp rest
                        exact ⟨0, Nat.succ_pos count, by omega⟩

/-- A driver that knows of no bad block, with a chip that fails at nothing. -/
structure Willing (driver : Driver) : Prop where
  force : driver.force = true
  succeeds : ∀ call, driver.fails call = false

theorem willing_check {driver : Driver} (willing : Willing driver) (addr : Nat) :
    athNandBlockIsbad mtd driver addr = (false, driver) := if_pos willing.force

theorem willing_erase {driver : Driver} (willing : Willing driver) (addr : Nat) :
    (eraseBlock mtd driver addr).1 = true ∧ Willing (eraseBlock mtd driver addr).2 := by
  unfold eraseBlock
  dsimp only
  rw [if_neg (by rw [willing.succeeds]; exact Bool.false_ne_true)]
  exact ⟨rfl, willing.force, willing.succeeds⟩

/-- It erases at all of them on such a chip. -/
theorem all_erased (count : Nat) {driver : Driver} (willing : Willing driver) (i : Nat)
    (ret : Option Int) (room : i + count * mtd.erasesize ≤ 2 ^ 32) :
    ∀ j < count, .erase (i + j * mtd.erasesize) ∈ (eraseLoop mtd count driver i ret).2.2 := by
  induction count generalizing driver i ret with
  | zero => exact fun j below => absurd below (Nat.not_lt_zero j)
  | succ count induction =>
      obtain ⟨ok, after⟩ := @willing_erase mtd driver willing i
      intro j below
      unfold eraseLoop
      simp only [willing_check willing, Bool.false_eq_true, if_false, ok, if_true]
      cases j with
      | zero => simp
      | succ j =>
          rw [next_addr room (by omega)]
          have rest := induction after (i + mtd.erasesize) (some 0)
            (by rw [Nat.succ_mul] at room; omega) j (by omega)
          rw [show i + mtd.erasesize + j * mtd.erasesize = i + (j + 1) * mtd.erasesize by
            rw [Nat.succ_mul]; omega] at rest
          exact List.mem_cons_of_mem _ (List.mem_cons_of_mem _ rest)

/-- The first block is erased in any case. -/
theorem first_erased (count : Nat) {driver : Driver} (willing : Willing driver) (i : Nat)
    (ret : Option Int) (more : 0 < count) :
    .erase i ∈ (eraseLoop mtd count driver i ret).2.2 := by
  obtain ⟨left, rfl⟩ := Nat.exists_eq_succ_of_ne_zero more.ne'
  have ok := (@willing_erase mtd driver willing i).1
  unfold eraseLoop
  simp only [willing_check willing, Bool.false_eq_true, if_false, ok, if_true]
  simp

end Loop

/-! ### The command -/

theorem arg_lt (argv : List (List UInt8)) (totsize : Nat) :
    (argOffSize argv totsize).1 < 2 ^ 32 ∧ (argOffSize argv totsize).2 < 2 ^ 32 := by
  have word : ∀ n, toUlong n < 2 ^ 32 := by
    intro n
    unfold toUlong
    omega
  unfold argOffSize
  split
  · exact ⟨Nat.two_pow_pos 32, word (totsize - 0)⟩
  · next off => exact ⟨simple_strtoul_lt _ _, word (totsize - (simpleStrtoul off 16).value)⟩
  · exact ⟨simple_strtoul_lt _ _, simple_strtoul_lt _ _⟩

/-- The number of blocks that ath_nand_erase goes through. -/
def blockCount (mtd : MtdInfo) (len : Nat) : Nat :=
  if len % mtd.erasesize ≠ 0 then (len >>> mtd.erasesizeShift) + 1 else len >>> mtd.erasesizeShift

theorem ath_erase_eq (mtd : MtdInfo) (driver : Driver) (addr len : Nat) :
    athNandErase mtd driver addr len =
      if mtd.size < (addr + len) % 2 ^ 32 then (some (-EINVAL), driver, [])
      else eraseLoop mtd (blockCount mtd len) driver addr none := rfl

theorem shift_div (mtd : MtdInfo) (addr : Nat) :
    addr >>> mtd.erasesizeShift = addr / mtd.erasesize := Nat.shiftRight_eq_div_pow _ _

theorem inside_aligned (nand : NandInfo) {off size j : Nat} (first : nand.erasesize ∣ off)
    (blocks : nand.erasesize ∣ size) (fits : off + size ≤ nand.size)
    (below : j < size / nand.erasesize) :
    Inside nand off size (erasedBlock nand.toMtdInfo (off + j * nand.erasesize)) := by
  have block := erasesize_pos nand.toMtdInfo
  obtain ⟨front, rfl⟩ := first
  obtain ⟨count, rfl⟩ := blocks
  rw [Nat.mul_div_cancel_left _ block] at below
  have room : (j + 1) * nand.erasesize ≤ nand.erasesize * count := by
    rw [Nat.mul_comm]
    exact Nat.mul_le_mul_left _ below
  rw [Nat.succ_mul] at room
  rw [erased_block nand (by omega), shift_div, Nat.mul_add_div block,
    Nat.mul_div_cancel _ block]
  unfold Inside
  rw [Nat.succ_mul, Nat.add_mul, Nat.mul_comm front]
  omega

theorem willing_exists : ∃ driver, Willing driver :=
  ⟨⟨none, true, fun _ _ => 0, fun _ => false, fun _ => false, fun _ _ => 0, 0⟩, rfl, fun _ => rfl⟩

theorem fits_kept (nand : NandInfo) (argv : List (List UInt8))
    (fits : Fits nand (argOffSize argv nand.size).1 (argOffSize argv nand.size).2)
    (driver : Driver) : Kept nand driver argv := by
  obtain ⟨offWord, -⟩ := arg_lt argv nand.size
  unfold Kept doNandErase
  generalize argOffSize argv nand.size = numbers at fits offWord ⊢
  obtain ⟨off, size⟩ := numbers
  dsimp only at fits offWord ⊢
  by_cases nothing : off = 0 ∧ size = 0
  · rw [if_pos nothing]
    exact ⟨fun i member => absurd member List.not_mem_nil,
      fun _ => ⟨fun i => List.not_mem_nil, rfl⟩⟩
  rw [if_neg nothing, ath_erase_eq]
  by_cases refused : nand.size < (off + size) % 2 ^ 32
  · rw [if_pos refused]
    exact ⟨fun i member => absurd member List.not_mem_nil,
      fun _ => ⟨fun i => List.not_mem_nil, rfl⟩⟩
  rw [if_neg refused]
  rcases fits with none | beyond | ⟨within, first, blocks⟩
  · subst none
    have zero : blockCount nand.toMtdInfo 0 = 0 := by simp [blockCount]
    rw [zero]
    rw [Nat.add_zero, Nat.mod_eq_of_lt offWord] at refused
    exact ⟨fun i member => absurd member List.not_mem_nil, fun outside => by omega⟩
  · exact absurd beyond refused
  · have count : blockCount nand.toMtdInfo size = size / nand.erasesize := by
      rw [blockCount, if_neg (not_not.mpr (Nat.mod_eq_zero_of_dvd blocks)), shift_div]
    constructor
    · intro i erased
      rw [count] at erased
      have word := nand.word
      obtain ⟨j, below, rfl⟩ := erased_addr _ _ _ _ _ erased
        (by rw [Nat.div_mul_cancel blocks]; omega)
      exact inside_aligned nand first blocks within below
    · intro outside
      omega

theorem kept_fits (nand : NandInfo) (argv : List (List UInt8))
    (kept : ∀ driver, Kept nand driver argv) :
    Fits nand (argOffSize argv nand.size).1 (argOffSize argv nand.size).2 := by
  obtain ⟨driver, willing⟩ := willing_exists
  have held := kept driver
  unfold Kept doNandErase at held
  generalize argOffSize argv nand.size = numbers at held ⊢
  obtain ⟨off, size⟩ := numbers
  dsimp only at held ⊢
  by_contra fails
  unfold Fits at fails
  push Not at fails
  obtain ⟨some_size, accepted, unfit⟩ := fails
  rw [if_neg fun nothing => some_size nothing.2, ath_erase_eq, if_neg (not_lt.mpr accepted)] at held
  obtain ⟨inside, outside⟩ := held
  have block := erasesize_pos nand.toMtdInfo
  have more : 0 < blockCount nand.toMtdInfo size := by
    unfold blockCount
    split
    · exact Nat.succ_pos _
    · next whole =>
        rw [shift_div]
        exact Nat.div_pos (Nat.le_of_dvd (Nat.pos_of_ne_zero some_size)
          (Nat.dvd_of_mod_eq_zero (not_not.mp whole))) block
  have first := @first_erased nand.toMtdInfo _ driver willing off none more
  by_cases within : off + size ≤ nand.size
  · have word := nand.word
    have begins := (inside off first).1
    rw [erased_block nand (by omega), shift_div] at begins
    have aligned : nand.erasesize ∣ off := by
      have below := Nat.div_mul_le_self off nand.erasesize
      exact ⟨off / nand.erasesize, by rw [Nat.mul_comm]; exact le_antisymm begins below⟩
    have broken := unfit within aligned
    have rest : size % nand.erasesize ≠ 0 := fun whole => broken (Nat.dvd_of_mod_eq_zero whole)
    have count : blockCount nand.toMtdInfo size = size / nand.erasesize + 1 := by
      rw [blockCount, if_pos rest, shift_div]
    have split := Nat.div_add_mod size nand.erasesize
    rw [Nat.mul_comm] at split
    -- the last block begins in the device, so it ends there
    have last : off + size / nand.erasesize * nand.erasesize + nand.erasesize ≤ nand.size := by
      obtain ⟨front, same⟩ := aligned
      obtain ⟨total, whole⟩ := nand.whole
      have sum : nand.size = nand.erasesize * total := whole
      have before : front + size / nand.erasesize < total := by
        apply Nat.lt_of_mul_lt_mul_left (a := nand.erasesize)
        rw [← sum, Nat.mul_add, ← same, Nat.mul_comm _ (size / _)]
        omega
      have most := Nat.mul_le_mul_left nand.erasesize (Nat.succ_le_of_lt before)
      rw [← sum, Nat.mul_succ, Nat.mul_add, ← same, Nat.mul_comm _ (size / _)] at most
      exact most
    have erased := @all_erased nand.toMtdInfo (blockCount nand.toMtdInfo size) driver willing off none
      (by rw [count, Nat.succ_mul]; omega) (size / nand.erasesize) (by rw [count]; omega)
    have ends := (inside _ erased).2.1
    have within : off + size / nand.erasesize * nand.erasesize < nand.size := by omega
    obtain ⟨front, same⟩ := aligned
    rw [erased_block nand within, shift_div, same, Nat.mul_add_div block,
      Nat.mul_div_cancel _ block, Nat.succ_mul, Nat.add_mul, Nat.mul_comm front] at ends
    have most := Nat.mod_lt size block
    omega
  · exact (outside (Or.inr (not_le.mp within))).1 off first

/-- Whatever blocks are bad, the range is kept exactly for numbers that fit. -/
theorem erase_kept_iff (nand : NandInfo) (argv : List (List UInt8)) :
    (∀ driver, Kept nand driver argv) ↔
      Fits nand (argOffSize argv nand.size).1 (argOffSize argv nand.size).2 :=
  ⟨kept_fits nand argv, fits_kept nand argv⟩

theorem large_pages : 11 ≤ 17 := Nat.le_of_ble_eq_true rfl

theorem large_whole : 2 ^ 17 ∣ 2 ^ 27 := Nat.pow_dvd_pow 2 (Nat.le_of_ble_eq_true rfl)

theorem large_word : 2 ^ 27 < 2 ^ 32 :=
  Nat.pow_lt_pow_right Nat.one_lt_two (Nat.le_of_ble_eq_true rfl)

theorem large_reach : 2 ^ 27 ≤ 2 ^ 20 * 2 ^ 11 := Nat.le_of_ble_eq_true rfl

theorem large_not_small {p : Prop} (small : false = true) : p := absurd small Bool.false_ne_true

/-- A chip of 128 MiB with pages of 2 KiB and blocks of 128 KiB. -/
def largePageChip : NandInfo :=
  { size := 2 ^ 27
    erasesizeShift := 17
    writesizeShift := 11
    oobsize := 64
    eccOffset := 40
    isSmallBlockDevice := false
    pages := large_pages
    whole := large_whole
    word := large_word
    smallReach := large_not_small
    largeReach := fun _ => large_reach }

/-- The offset lies behind the chip; the size that is computed for it makes the end of the range
the end of the chip again, and the blocks that are erased are others. -/
theorem behind_chip : ¬ ∀ driver, Kept largePageChip driver [ascii "10000000"] := by
  intro kept
  have fits := kept_fits largePageChip [ascii "10000000"] kept
  have numbers : argOffSize [ascii "10000000"] largePageChip.size = (0x10000000, 0xf8000000) := by
    decide +kernel
  rw [numbers] at fits
  rcases fits with none | beyond | ⟨within, -, -⟩
  · cases none
  · exact absurd beyond (by decide +kernel)
  · exact absurd within (by decide +kernel)

end UBoot.Nand.EraseCommand
