import UBoot.Library.Loop
import UBoot.Library.GoodBlocks

/-!
Transfers of the Atheros NAND driver. ath_nand_rw_buff moves one page after the
other and adds the erase size to the address of a bad block; nothing compares the
address with the size of the device.
-/

namespace UBoot.Nand.AthRwBuff

open Library.Loop Library.GoodBlocks

/-- The fields of `struct mtd_info` and of ath_nand_sc_t that the driver reads. -/
structure MtdInfo where
  size : Nat
  erasesizeShift : Nat
  writesizeShift : Nat
  oobsize : Nat
  eccOffset : Nat
  isSmallBlockDevice : Bool
  pages : writesizeShift ≤ erasesizeShift
  whole : 2 ^ erasesizeShift ∣ size

def MtdInfo.erasesize (mtd : MtdInfo) : Nat := 2 ^ mtd.erasesizeShift

def MtdInfo.writesize (mtd : MtdInfo) : Nat := 2 ^ mtd.writesizeShift

/-- The values for the registers ADDR0_0 and ADDR0_1. -/
def athNandConvAddr (mtd : MtdInfo) (addr : Nat) (smallBlockErase : Bool) : Nat × Nat :=
  if mtd.isSmallBlockDevice && smallBlockErase then
    let b := (addr >>> mtd.erasesizeShift) % 2 ^ 32
    (((b &&& 0xfff) <<< 21) % 2 ^ 32, (b >>> 11) &&& 0x1)
  else if mtd.isSmallBlockDevice then
    -- the 32-bit mask clears the upper half of the address too
    let addr := (addr - addr % mtd.writesize) % 2 ^ 32
    (((addr &&& 0xff) ||| ((addr >>> 1) &&& 0xffffff00)) &&& (2 ^ 25 - 1), 0)
  else
    (((addr >>> mtd.writesizeShift) <<< 16) % 2 ^ 32, (addr >>> (mtd.writesizeShift + 16)) &&& 0xf)

/-- What the loop uses of the chip and of the block table: whether a block is bad, whether a page
has to be read with ECC, and a page command with its success. -/
structure Chip (State : Type) where
  isbad : State → Nat → Bool × State
  eccNeeded : State → Nat → Bool
  rwPage : State → (rd : Bool) → (addr : Nat) → (eccNeeded : Bool) → Bool × State

/-- One round that does not skip a block. -/
structure PageRecord where
  addr : Nat
  /-- The bytes of the request in the page. -/
  count : Nat
  /-- The address registers, or none if the page is not programmed as it is all 0xff. -/
  registers : Option (Nat × Nat)
  eccNeeded : Bool
  ok : Bool

structure RwBuff (State : Type) where
  state : State
  addr : Nat
  len : Nat
  /-- How far the pointer into the buffer has moved. -/
  pos : Nat
  iodone : Nat
  pages : List PageRecord

variable {State : Type}

def allOnes (mtd : MtdInfo) (buf : Nat → UInt8) (pos : Nat) : Bool :=
  (List.range mtd.writesize).all fun i => buf (pos + i) == 0xff

/-- What a round does with a page of `iolen` bytes: the record, and the state of the chip. -/
def movePage (mtd : MtdInfo) (chip : Chip State) (rd : Bool) (buf : Nat → UInt8)
    (state : State) (addr pos iolen : Nat) : PageRecord × State :=
  let registers := athNandConvAddr mtd addr false
  if rd then
    let ecc := chip.eccNeeded state addr
    let (ok, state) := chip.rwPage state true addr ecc
    (⟨addr, iolen, some registers, ecc, ok⟩, state)
  else if allOnes mtd buf pos then (⟨addr, iolen, none, true, true⟩, state)
  else
    let (ok, state) := chip.rwPage state false addr true
    (⟨addr, iolen, some registers, true, ok⟩, state)

def iolenAt (mtd : MtdInfo) (addr len : Nat) : Nat := min len (mtd.writesize - addr % mtd.writesize)

/-- One round of the loop of ath_nand_rw_buff. -/
def rwBuffStep (mtd : MtdInfo) (chip : Chip State) (rd : Bool) (buf : Nat → UInt8)
    (rw : RwBuff State) : RwBuff State ⊕ (Nat × RwBuff State) :=
  if rw.len = 0 then .inr (0, rw)
  else
    let (bad, state) := chip.isbad rw.state rw.addr
    if bad then .inl { rw with state := state, addr := rw.addr + mtd.erasesize }
    else
      let iolen := iolenAt mtd rw.addr rw.len
      let (page, state) := movePage mtd chip rd buf state rw.addr rw.pos iolen
      let moved := { rw with state := state, pages := rw.pages ++ [page] }
      if page.ok then .inl { moved with
        len := rw.len - iolen, pos := rw.pos + iolen, addr := rw.addr + iolen
        iodone := rw.iodone + iolen }
      else .inr (1, moved)

def athNandRwBuff (mtd : MtdInfo) (chip : Chip State) (rd : Bool) (buf : Nat → UInt8)
    (state : State) (addr len : Nat) : Nat × RwBuff State → Prop :=
  Ends (rwBuffStep mtd chip rd buf)
    { state := state, addr := addr, len := len, pos := 0, iodone := 0, pages := [] }

/-- The bytes of the pages whose command succeeded. -/
def transferred (pages : List PageRecord) : Nat :=
  ((pages.filter PageRecord.ok).map PageRecord.count).sum

theorem transferred_append (pages : List PageRecord) (page : PageRecord) :
    transferred (pages ++ [page]) = transferred pages + if page.ok then page.count else 0 := by
  unfold transferred
  cases fine : page.ok <;> simp [List.filter_append, fine]

theorem move_page_count (mtd : MtdInfo) (chip : Chip State) (rd : Bool) (buf : Nat → UInt8)
    (state : State) (addr pos iolen : Nat) :
    (movePage mtd chip rd buf state addr pos iolen).1.addr = addr ∧
      (movePage mtd chip rd buf state addr pos iolen).1.count = iolen := by
  unfold movePage
  dsimp only
  split
  · exact ⟨rfl, rfl⟩
  · split
    · exact ⟨rfl, rfl⟩
    · exact ⟨rfl, rfl⟩

section Rounds
variable {mtd : MtdInfo} {chip : Chip State} {rd : Bool} {buf : Nat → UInt8}

theorem step_done {rw : RwBuff State} (empty : rw.len = 0) :
    rwBuffStep mtd chip rd buf rw = .inr (0, rw) := by
  rw [rwBuffStep, if_pos empty]

theorem step_bad {rw : RwBuff State} (more : 0 < rw.len)
    (marked : (chip.isbad rw.state rw.addr).1 = true) :
    rwBuffStep mtd chip rd buf rw = .inl { rw with
      state := (chip.isbad rw.state rw.addr).2, addr := rw.addr + mtd.erasesize } := by
  rw [rwBuffStep, if_neg (Nat.ne_of_gt more)]
  simp only [marked, if_true]

/-- A round in a good block: the page is recorded, and counted if its command succeeds. -/
theorem step_good {rw : RwBuff State} (more : 0 < rw.len)
    (usable : (chip.isbad rw.state rw.addr).1 = false) :
    ∃ page state, page.addr = rw.addr ∧ page.count = iolenAt mtd rw.addr rw.len ∧
      (page, state) = movePage mtd chip rd buf (chip.isbad rw.state rw.addr).2 rw.addr rw.pos
        (iolenAt mtd rw.addr rw.len) ∧
      rwBuffStep mtd chip rd buf rw = if page.ok then .inl { rw with
          state := state, pages := rw.pages ++ [page]
          len := rw.len - iolenAt mtd rw.addr rw.len, pos := rw.pos + iolenAt mtd rw.addr rw.len
          addr := rw.addr + iolenAt mtd rw.addr rw.len
          iodone := rw.iodone + iolenAt mtd rw.addr rw.len }
        else .inr (1, { rw with state := state, pages := rw.pages ++ [page] }) := by
  obtain ⟨place, size⟩ := move_page_count mtd chip rd buf (chip.isbad rw.state rw.addr).2 rw.addr
    rw.pos (iolenAt mtd rw.addr rw.len)
  generalize moved : movePage mtd chip rd buf (chip.isbad rw.state rw.addr).2 rw.addr rw.pos
    (iolenAt mtd rw.addr rw.len) = pair at place size
  refine ⟨pair.1, pair.2, place, size, rfl, ?_⟩
  rw [rwBuffStep, if_neg (Nat.ne_of_gt more)]
  simp only [usable, Bool.false_eq_true, if_false, moved]

/-- The count that the caller gets is what was really transferred. -/
theorem iodone_transferred {rw : RwBuff State} {result : Nat × RwBuff State}
    (counted : rw.iodone = transferred rw.pages)
    (ended : Ends (rwBuffStep mtd chip rd buf) rw result) :
    result.2.iodone = transferred result.2.pages := by
  refine ends_keeps (fun rw => rw.iodone = transferred rw.pages)
    (fun result => result.2.iodone = transferred result.2.pages) ?_ ?_ counted ended
  · intro rw next held goes
    by_cases empty : rw.len = 0
    · rw [step_done empty] at goes
      cases goes
    · have more := Nat.pos_of_ne_zero empty
      cases bad : (chip.isbad rw.state rw.addr).1 with
      | true =>
          rw [step_bad more bad] at goes
          cases goes
          exact held
      | false =>
          obtain ⟨page, state, -, size, -, round⟩ :=
            @step_good State mtd chip rd buf rw more bad
          rw [round] at goes
          cases fine : page.ok with
          | true =>
              rw [fine, if_pos rfl] at goes
              cases goes
              dsimp only
              rw [transferred_append, held, fine, if_pos rfl, size]
          | false =>
              rw [fine, if_neg Bool.false_ne_true] at goes
              cases goes
  · intro rw result held leaves
    by_cases empty : rw.len = 0
    · rw [step_done empty] at leaves
      cases leaves
      exact held
    · have more := Nat.pos_of_ne_zero empty
      cases bad : (chip.isbad rw.state rw.addr).1 with
      | true =>
          rw [step_bad more bad] at leaves
          cases leaves
      | false =>
          obtain ⟨page, state, -, -, -, round⟩ :=
            @step_good State mtd chip rd buf rw more bad
          rw [round] at leaves
          cases fine : page.ok with
          | true =>
              rw [fine, if_pos rfl] at leaves
              cases leaves
          | false =>
              rw [fine, if_neg Bool.false_ne_true] at leaves
              cases leaves
              dsimp only
              rw [transferred_append, held, fine, if_neg Bool.false_ne_true, Nat.add_zero]

end Rounds

/-! ### A set of bad blocks -/

/-- A chip with the bad blocks `bad`, whose page command with a number fails as `faults` says. -/
def markedChip (mtd : MtdInfo) (bad : Nat → Bool) (faults : Nat → Bool) : Chip Nat where
  isbad calls addr := (bad (addr / mtd.erasesize), calls)
  eccNeeded _ _ := true
  rwPage calls _ _ _ := (!faults calls, calls + 1)

/-- The bytes that a transfer can move from `addr` to the end of the device. -/
abbrev roomFrom (mtd : MtdInfo) (bad : Nat → Bool) (addr : Nat) : Nat :=
  room mtd.erasesize mtd.size (fun block => !bad block) addr

/-- Whichever page commands fail, ath_nand_rw_buff returns, it touches only pages of good blocks
below the size of the device, it counts the bytes really transferred, and it returns an error when
too few good blocks remain before the end. -/
def Bounded (mtd : MtdInfo) (bad : Nat → Bool) (rd : Bool) (buf : Nat → UInt8) (addr len : Nat) :
    Prop :=
  ∀ faults, ∃ ret last,
    athNandRwBuff mtd (markedChip mtd bad faults) rd buf 0 addr len (ret, last) ∧
    (∀ page ∈ last.pages, page.addr < mtd.size ∧ bad (page.addr / mtd.erasesize) = false) ∧
    last.iodone = transferred last.pages ∧ (roomFrom mtd bad addr < len → ret ≠ 0)

section Marked
variable {mtd : MtdInfo} {bad faults : Nat → Bool} {rd : Bool} {buf : Nat → UInt8}

theorem writesize_pos (mtd : MtdInfo) : 0 < mtd.writesize := Nat.two_pow_pos _

theorem erasesize_pos (mtd : MtdInfo) : 0 < mtd.erasesize := Nat.two_pow_pos _

/-- The rest of a page does not cross its block. -/
theorem page_in_block (mtd : MtdInfo) (addr len : Nat) :
    addr % mtd.erasesize + iolenAt mtd addr len ≤ mtd.erasesize := by
  have split : mtd.erasesize = mtd.writesize * 2 ^ (mtd.erasesizeShift - mtd.writesizeShift) := by
    rw [MtdInfo.erasesize, MtdInfo.writesize, ← Nat.pow_add, Nat.add_sub_cancel' mtd.pages]
  have short := Nat.mod_lt addr (erasesize_pos mtd)
  have index : addr % mtd.erasesize / mtd.writesize + 1 ≤
      2 ^ (mtd.erasesizeShift - mtd.writesizeShift) := by
    rw [split] at short ⊢
    exact Nat.div_lt_of_lt_mul short
  have next := Nat.mul_le_mul_left mtd.writesize index
  rw [← split, Nat.mul_succ] at next
  have whole := Nat.div_add_mod (addr % mtd.erasesize) mtd.writesize
  have offset : addr % mtd.erasesize % mtd.writesize = addr % mtd.writesize := by
    rw [split, Nat.mod_mul_right_mod]
  rw [offset] at whole
  have part : iolenAt mtd addr len ≤ mtd.writesize - addr % mtd.writesize := Nat.min_le_right _ _
  have column := Nat.mod_lt addr (writesize_pos mtd)
  omega

theorem page_in_device {addr : Nat} (inside : addr < mtd.size) (len : Nat) :
    addr + iolenAt mtd addr len ≤ mtd.size := by
  obtain ⟨count, whole⟩ := mtd.whole
  have block := page_in_block mtd addr len
  have place := Nat.div_add_mod addr mtd.erasesize
  have size : mtd.size = mtd.erasesize * count := whole
  have index : addr / mtd.erasesize + 1 ≤ count := by
    rw [size] at inside
    exact Nat.div_lt_of_lt_mul inside
  have next := Nat.mul_le_mul_left mtd.erasesize index
  rw [Nat.mul_succ, ← size] at next
  omega

/-- Where there is room, the transfer ends on the device. -/
theorem rw_buff_fits (rw : RwBuff Nat) (enough : rw.len ≤ roomFrom mtd bad rw.addr) :
    ∃ ret last, Ends (rwBuffStep mtd (markedChip mtd bad faults) rd buf) rw (ret, last) ∧
      ∀ page ∈ last.pages, page ∈ rw.pages ∨
        page.addr < mtd.size ∧ bad (page.addr / mtd.erasesize) = false := by
  by_cases empty : rw.len = 0
  · exact ⟨0, rw, ends_done (step_done empty), fun page member => Or.inl member⟩
  · have more := Nat.pos_of_ne_zero empty
    have inside : rw.addr < mtd.size := by
      by_contra behind
      rw [roomFrom, room_end (Nat.not_lt.mp behind)] at enough
      omega
    have extent := erasesize_pos mtd
    cases marked : bad (rw.addr / mtd.erasesize) with
    | true =>
        have round := @step_bad Nat mtd (markedChip mtd bad faults) rd buf rw more marked
        have rest : rw.len ≤ roomFrom mtd bad (rw.addr + mtd.erasesize) := by
          rw [roomFrom, room_bad extent (by rw [marked]; rfl)] at enough
          exact enough
        obtain ⟨ret, last, ended, places⟩ :=
          rw_buff_fits { rw with state := rw.state, addr := rw.addr + mtd.erasesize } rest
        exact ⟨ret, last, ends_step round ended, places⟩
    | false =>
        obtain ⟨page, state, place, size, -, round⟩ :=
          @step_good Nat mtd (markedChip mtd bad faults) rd buf rw more marked
        have column := Nat.mod_lt rw.addr (writesize_pos mtd)
        have positive : 0 < iolenAt mtd rw.addr rw.len := by
          unfold iolenAt
          omega
        have here : page.addr < mtd.size ∧ bad (page.addr / mtd.erasesize) = false := by
          rw [place]
          exact ⟨inside, marked⟩
        cases fine : page.ok with
        | false =>
            rw [fine, if_neg Bool.false_ne_true] at round
            refine ⟨1, _, ends_done round, ?_⟩
            intro other member
            rcases List.mem_append.mp member with early | added
            · exact Or.inl early
            · rw [List.mem_singleton.mp added]
              exact Or.inr here
        | true =>
            rw [fine, if_pos rfl] at round
            have rooms := @room_piece mtd.erasesize mtd.size (fun block => !bad block) rw.addr _ (by rw [marked]; rfl)
              (page_in_block mtd rw.addr rw.len) (page_in_device inside rw.len) positive
            have rest : rw.len - iolenAt mtd rw.addr rw.len ≤
                roomFrom mtd bad (rw.addr + iolenAt mtd rw.addr rw.len) := by
              rw [roomFrom, rooms] at enough
              rw [roomFrom]
              omega
            obtain ⟨ret, last, ended, places⟩ := rw_buff_fits { rw with
              state := state, pages := rw.pages ++ [page]
              len := rw.len - iolenAt mtd rw.addr rw.len
              pos := rw.pos + iolenAt mtd rw.addr rw.len
              addr := rw.addr + iolenAt mtd rw.addr rw.len
              iodone := rw.iodone + iolenAt mtd rw.addr rw.len } rest
            refine ⟨ret, last, ends_step round ended, ?_⟩
            intro other member
            rcases places other member with early | later
            · rcases List.mem_append.mp early with before | added
              · exact Or.inl before
              · rw [List.mem_singleton.mp added]
                exact Or.inr here
            · exact Or.inr later
termination_by mtd.size - rw.addr

/-- If no page command fails, the only result is success. -/
theorem rw_buff_clean {rw : RwBuff Nat} {result : Nat × RwBuff Nat}
    (ended : Ends (rwBuffStep mtd (markedChip mtd bad fun _ => false) rd buf) rw result) :
    result.1 = 0 := by
  refine ends_keeps (fun _ => True) (fun result => result.1 = 0) (fun _ _ _ _ => trivial) ?_
    trivial ended
  intro rw result _ leaves
  by_cases empty : rw.len = 0
  · rw [step_done empty] at leaves
    cases leaves
    rfl
  · have more := Nat.pos_of_ne_zero empty
    cases marked : bad (rw.addr / mtd.erasesize) with
    | true =>
        rw [@step_bad Nat mtd (markedChip mtd bad fun _ => false) rd buf rw more marked] at leaves
        cases leaves
    | false =>
        obtain ⟨page, state, -, -, moved, round⟩ :=
          @step_good Nat mtd (markedChip mtd bad fun _ => false) rd buf rw more marked
        have fine : page.ok = true := by
          have same := congrArg (fun pair => pair.1.ok) moved
          refine same.trans ?_
          unfold movePage
          dsimp only
          split
          · rfl
          · split
            · rfl
            · rfl
        rw [round, fine, if_pos rfl] at leaves
        cases leaves

end Marked

theorem bounded_room {mtd : MtdInfo} {bad : Nat → Bool} {rd : Bool} {buf : Nat → UInt8}
    {addr len : Nat} (law : Bounded mtd bad rd buf addr len) : len ≤ roomFrom mtd bad addr := by
  obtain ⟨ret, last, ended, -, -, error⟩ := law fun _ => false
  by_contra short
  exact error (Nat.not_le.mp short) (rw_buff_clean ended)

theorem rw_buff_bounded_iff (mtd : MtdInfo) (bad : Nat → Bool) (rd : Bool) (buf : Nat → UInt8)
    (addr len : Nat) : Bounded mtd bad rd buf addr len ↔ len ≤ roomFrom mtd bad addr := by
  constructor
  · exact bounded_room
  · intro enough faults
    obtain ⟨ret, last, ended, places⟩ := @rw_buff_fits mtd bad faults rd buf
      { state := 0, addr := addr, len := len, pos := 0, iodone := 0, pages := [] } enough
    refine ⟨ret, last, ended, ?_, iodone_transferred rfl ended,
      fun short => absurd enough (Nat.not_le.mpr short)⟩
    intro page member
    rcases places page member with before | fine
    · cases before
    · exact fine

/-- A device of 128 MiB with pages of 2 KiB and blocks of 128 KiB. -/
def largePages : MtdInfo where
  size := 0x8000000
  erasesizeShift := 17
  writesizeShift := 11
  oobsize := 64
  eccOffset := 2068
  isSmallBlockDevice := false
  pages := Nat.le_of_ble_eq_true rfl
  whole := ⟨1024, rfl⟩

/-- A read of the last block, which is bad, goes on behind the device. -/
theorem last_block_passed :
    ¬ Bounded largePages (fun block => block == 1023) true (fun _ => 0) 0x7fe0000 0x800 := by
  intro law
  have room := bounded_room law
  have none : roomFrom largePages (fun block => block == 1023) 0x7fe0000 = 0 := by
    rw [roomFrom, room_bad (by decide) (by decide)]
    exact room_end (by decide)
  omega

/-- Pages that are 2^20 pages apart have the same address registers. -/
theorem conv_addr_alias {mtd : MtdInfo} (large : mtd.isSmallBlockDevice = false) (addr : Nat) :
    athNandConvAddr mtd (addr + 2 ^ 20 * mtd.writesize) false = athNandConvAddr mtd addr false := by
  have page : (addr + 2 ^ 20 * mtd.writesize) / mtd.writesize = addr / mtd.writesize + 2 ^ 20 :=
    Nat.add_mul_div_right addr (2 ^ 20) (writesize_pos mtd)
  have unit : 2 ^ mtd.writesizeShift = mtd.writesize := rfl
  simp only [athNandConvAddr, large, Bool.false_and, Bool.false_eq_true, if_false,
    Nat.shiftRight_eq_div_pow, Nat.shiftLeft_eq, Nat.pow_add, ← Nat.div_div_eq_div_mul, unit, page]
  refine Prod.ext ?_ ?_
  · dsimp only
    omega
  · dsimp only
    rw [show (0xf : Nat) = 2 ^ 4 - 1 by rfl, Nat.and_two_pow_sub_one_eq_mod,
      Nat.and_two_pow_sub_one_eq_mod]
    omega

end UBoot.Nand.AthRwBuff
