import UBoot.Nand.BlockMarks

/-!
The bytes that ath_nand_rw_buff moves. Every page goes through ath_nand_io_buf: a read takes the
bytes from their column, a write puts them at the start of the buffer and programs the whole page,
with what the buffer still holds behind them.
-/

namespace UBoot.Nand.PageData

open Library.Loop AthRwBuff AthBlocks BlockMarks

/-- The driver with the bytes of the pages. A command that fails leaves the bytes of `noise`, by its
number, where it would have put those of the page. -/
structure Device where
  driver : Driver
  data : Nat → Nat → UInt8
  /-- ath_nand_io_buf. -/
  io : Nat → UInt8
  noise : Nat → Nat → UInt8

def setBlkState (mtd : MtdInfo) (nand : Device) (ofs : Nat) (state : BitVec 32) : Device :=
  { nand with driver := athNandSetBlkState mtd nand.driver ofs state }

/-- nand_read_raw of the spare bytes: the page comes into the buffer with them. -/
def readRaw (mtd : MtdInfo) (nand : Device) (ofs : Nat) : Option (Nat → UInt8) × Device :=
  let page := pageAt mtd ofs
  let (raw, driver) := nandReadRaw mtd nand.driver ofs
  (raw, { nand with
    driver := driver
    io := fun i =>
      if i < mtd.writesize + mtd.oobsize then
        match raw with
        | none => nand.noise nand.driver.calls i
        | some oob => if i < mtd.writesize then nand.data page i else oob (i - mtd.writesize)
      else nand.io i })

def scanPages (mtd : MtdInfo) : (count : Nat) → Device → (ofs : Nat) → (oob : Nat → UInt8) →
    Bool × Device
  | 0, nand, ofs, oob =>
      (false, setBlkState mtd nand ofs
        (if spareBlank mtd oob then ATH_NAND_BLK_ERASED else ATH_NAND_BLK_GOOD))
  | count + 1, nand, ofs, _ =>
      let (raw, nand) := readRaw mtd nand ofs
      match raw with
      | none => (true, setBlkState mtd nand ofs ATH_NAND_BLK_DONT_KNOW)
      | some oob =>
          if oob 0 != 0xff || oob 1 != 0xff then (true, setBlkState mtd nand ofs ATH_NAND_BLK_BAD)
          else scanPages mtd count nand (ofs + mtd.writesize) oob

/-- ath_nand_block_isbad. -/
def blockIsbad (mtd : MtdInfo) (nand : Device) (ofs : Nat) : Bool × Device :=
  if nand.driver.force then (false, nand)
  else
    let bs := athNandGetBlkState mtd nand.driver.bbt ofs
    if bs = ATH_NAND_BLK_ERASED ∨ bs = ATH_NAND_BLK_GOOD then (false, nand)
    else if bs = ATH_NAND_BLK_BAD then (true, nand)
    else scanPages mtd 2 nand ofs fun _ => 0

/-- ath_nand_rw_page of a whole page, from or to the buffer. Programming clears bits only. -/
def rwPage (mtd : MtdInfo) (nand : Device) (rd : Bool) (addr : Nat) (eccNeeded : Bool) : Bool × Device :=
  let page := pageAt mtd addr
  let (ok, driver) := athNandRwPage mtd nand.driver rd addr eccNeeded
  let failed := nand.noise nand.driver.calls
  if rd then
    (ok, { nand with
      driver := driver
      io := fun i =>
        if i < mtd.writesize then if ok then nand.data page i else failed i else nand.io i })
  else
    (ok, { nand with
      driver := driver
      data := Function.update nand.data page fun i =>
        if ok then nand.data page i &&& nand.io i else failed i })

/-- memcpy of `count` bytes to `at`. -/
def copy (target : Nat → UInt8) (place : Nat) (source : Nat → UInt8) (start count : Nat) :
    Nat → UInt8 :=
  fun i => if place ≤ i ∧ i < place + count then source (start + (i - place)) else target i

/-- What a round does with `iolen` bytes of a page: the success of its command, the chip, and the
memory with the caller's buffer. -/
def movePart (mtd : MtdInfo) (rd : Bool) (nand : Device) (memory : Nat → UInt8)
    (addr pos iolen : Nat) : Bool × Device × (Nat → UInt8) :=
  let c := addr % mtd.writesize
  if rd then
    let (ok, nand) := rwPage mtd nand true addr (eccNeeded mtd nand.driver addr)
    (ok, nand, copy memory pos nand.io c iolen)
  else if allOnes mtd memory pos then (true, nand, memory)
  else
    -- the column is not used here
    let nand := { nand with io := copy nand.io 0 memory pos iolen }
    let (ok, nand) := rwPage mtd nand false addr true
    (ok, nand, memory)

structure RwData where
  nand : Device
  /-- The memory from the start of the caller's buffer on. -/
  memory : Nat → UInt8
  addr : Nat
  len : Nat
  /-- How far the pointer into the buffer has moved. -/
  pos : Nat
  iodone : Nat

/-- One round of the loop of ath_nand_rw_buff. -/
def rwDataStep (mtd : MtdInfo) (rd : Bool) (rw : RwData) : RwData ⊕ (Nat × RwData) :=
  if rw.len = 0 then .inr (0, rw)
  else
    let (bad, nand) := blockIsbad mtd rw.nand rw.addr
    if bad then .inl { rw with nand := nand, addr := rw.addr + mtd.erasesize }
    else
      let iolen := iolenAt mtd rw.addr rw.len
      let (ok, nand, memory) := movePart mtd rd nand rw.memory rw.addr rw.pos iolen
      let moved := { rw with nand := nand, memory := memory }
      if ok then .inl { moved with
        len := rw.len - iolen, pos := rw.pos + iolen, addr := rw.addr + iolen
        iodone := rw.iodone + iolen }
      else .inr (1, moved)

def started (nand : Device) (memory : Nat → UInt8) (addr len : Nat) : RwData where
  nand := nand
  memory := memory
  addr := addr
  len := len
  pos := 0
  iodone := 0

def rwBuff (mtd : MtdInfo) (rd : Bool) (nand : Device) (memory : Nat → UInt8) (addr len : Nat) :
    Nat × RwData → Prop :=
  Ends (rwDataStep mtd rd) (started nand memory addr len)

/-! ### The checks -/

section Checks
variable {mtd : MtdInfo}

/-- The check of a block does to the table and to the commands what the driver without the bytes
does, and leaves the pages as they are. -/
theorem scan_pages_same (count : Nat) (nand : Device) (ofs : Nat) (oob : Nat → UInt8) :
    (scanPages mtd count nand ofs oob).1 = (scanMarkers mtd count nand.driver ofs oob).1 ∧
      (scanPages mtd count nand ofs oob).2.driver = (scanMarkers mtd count nand.driver ofs oob).2 ∧
      (scanPages mtd count nand ofs oob).2.data = nand.data := by
  induction count generalizing nand ofs oob with
  | zero => exact ⟨rfl, rfl, rfl⟩
  | succ count inductive_hypothesis =>
      rw [scanPages, scanMarkers, readRaw, nandReadRaw]
      dsimp only
      cases nand.driver.fails nand.driver.calls with
      | true => exact ⟨rfl, rfl, rfl⟩
      | false =>
          rw [if_neg Bool.false_ne_true]
          dsimp only
          split
          · exact ⟨rfl, rfl, rfl⟩
          · exact inductive_hypothesis _ _ _

theorem block_isbad_same (nand : Device) (ofs : Nat) :
    (blockIsbad mtd nand ofs).1 = (athNandBlockIsbad mtd nand.driver ofs).1 ∧
      (blockIsbad mtd nand ofs).2.driver = (athNandBlockIsbad mtd nand.driver ofs).2 ∧
      (blockIsbad mtd nand ofs).2.data = nand.data := by
  rw [blockIsbad, athNandBlockIsbad]
  dsimp only
  split
  · exact ⟨rfl, rfl, rfl⟩
  · split
    · exact ⟨rfl, rfl, rfl⟩
    · split
      · exact ⟨rfl, rfl, rfl⟩
      · exact scan_pages_same 2 nand ofs _

end Checks

/-- Every check of an address in the range finds its block good, whenever it is made. -/
def GoodArea (mtd : MtdInfo) (driver : Driver) (addr len : Nat) : Prop :=
  ∀ a, addr ≤ a → a < addr + len → ∀ calls,
    (athNandBlockIsbad mtd { driver with calls := calls } a).1 = false

/-- What makes a check find a block good. -/
def Usable (mtd : MtdInfo) (driver : Driver) (ofs : Nat) : Prop :=
  driver.force = true ∨
    athNandGetBlkState mtd driver.bbt ofs = ATH_NAND_BLK_ERASED ∨
    athNandGetBlkState mtd driver.bbt ofs = ATH_NAND_BLK_GOOD ∨
    athNandGetBlkState mtd driver.bbt ofs = ATH_NAND_BLK_DONT_KNOW ∧
      (∀ call, driver.fails call = false) ∧ marked (driver.oob (pageAt mtd ofs)) = false ∧
      marked (driver.oob (pageAt mtd (ofs + mtd.writesize))) = false

/-- What the driver does in a good area spoils no block of it. -/
structure Keeps (mtd : MtdInfo) (before after : Driver) : Prop where
  force : after.force = before.force
  fails : after.fails = before.fails
  marks : ∀ page, marked (after.oob page) = marked (before.oob page)
  states : ∀ ofs, athNandGetBlkState mtd after.bbt ofs = athNandGetBlkState mtd before.bbt ofs ∨
    athNandGetBlkState mtd after.bbt ofs = ATH_NAND_BLK_ERASED ∨
    athNandGetBlkState mtd after.bbt ofs = ATH_NAND_BLK_GOOD

section Good
variable {mtd : MtdInfo} {driver : Driver} {ofs : Nat}

theorem state_cases (bbt : Option (Nat → BitVec 32)) (ofs : Nat) :
    athNandGetBlkState mtd bbt ofs = ATH_NAND_BLK_ERASED ∨
      athNandGetBlkState mtd bbt ofs = ATH_NAND_BLK_GOOD ∨
      athNandGetBlkState mtd bbt ofs = ATH_NAND_BLK_BAD ∨
      athNandGetBlkState mtd bbt ofs = ATH_NAND_BLK_DONT_KNOW := by
  by_cases used : athNandGetBlkState mtd bbt ofs = ATH_NAND_BLK_ERASED ∨
      athNandGetBlkState mtd bbt ofs = ATH_NAND_BLK_GOOD
  · rcases used with erased | good
    · exact Or.inl erased
    · exact Or.inr (Or.inl good)
  · by_cases bad : athNandGetBlkState mtd bbt ofs = ATH_NAND_BLK_BAD
    · exact Or.inr (Or.inr (Or.inl bad))
    · exact Or.inr (Or.inr (Or.inr (state_unknown used bad)))

theorem usable_iff : Usable mtd driver ofs ↔
    ∀ calls, (athNandBlockIsbad mtd { driver with calls := calls } ofs).1 = false := by
  by_cases force : driver.force = true
  · constructor
    · intro _ calls
      rw [@check_forced mtd { driver with calls := calls } force]
    · exact fun _ => Or.inl force
  · have forced : driver.force = false := Bool.not_eq_true _ |>.mp force
    have answer : athNandGetBlkState mtd driver.bbt ofs ≠ ATH_NAND_BLK_DONT_KNOW → ∀ calls,
        (athNandBlockIsbad mtd { driver with calls := calls } ofs).1 =
          decide (athNandGetBlkState mtd driver.bbt ofs = ATH_NAND_BLK_BAD) := by
      intro known calls
      rw [@check_known mtd { driver with calls := calls } ofs forced known]
    constructor
    · rintro (force | erased | good | ⟨unknown, reads, here, behind⟩) calls
      · rw [force] at forced
        cases forced
      · rw [answer (by rw [erased]; decide), erased]
        rfl
      · rw [answer (by rw [good]; decide), good]
        rfl
      · rw [check_unknown mtd { driver with calls := calls } ofs forced unknown]
        dsimp only [scanned]
        rw [reads, reads, here, behind]
        rfl
    · intro good
      rcases @state_cases mtd driver.bbt ofs with erased | used | bad | unknown
      · exact Or.inr (Or.inl erased)
      · exact Or.inr (Or.inr (Or.inl used))
      · have refused := good 0
        rw [answer (by rw [bad]; decide), bad] at refused
        cases refused
      · have clean : ∀ calls, scanned mtd { driver with calls := calls } ofs = false := by
          intro calls
          have fine := good calls
          rwa [check_unknown mtd { driver with calls := calls } ofs forced unknown] at fine
        refine Or.inr (Or.inr (Or.inr ⟨unknown, ?_, ?_, ?_⟩))
        · intro call
          have read := clean call
          simp only [scanned, Bool.or_eq_false_iff] at read
          exact read.1.1.1
        · have read := clean 0
          simp only [scanned, Bool.or_eq_false_iff] at read
          exact read.1.1.2
        · have read := clean 0
          simp only [scanned, Bool.or_eq_false_iff] at read
          exact read.2

theorem keeps_refl (driver : Driver) : Keeps mtd driver driver :=
  ⟨rfl, rfl, fun _ => rfl, fun _ => Or.inl rfl⟩

theorem keeps_trans {first middle last : Driver} (front : Keeps mtd first middle)
    (back : Keeps mtd middle last) : Keeps mtd first last where
  force := back.force.trans front.force
  fails := back.fails.trans front.fails
  marks page := (back.marks page).trans (front.marks page)
  states ofs := by
    rcases back.states ofs with same | used
    · rw [same]
      exact front.states ofs
    · exact Or.inr used

theorem keeps_usable {before after : Driver} (keeps : Keeps mtd before after)
    (usable : Usable mtd before ofs) : Usable mtd after ofs := by
  rcases usable with force | erased | good | ⟨unknown, reads, here, behind⟩
  · exact Or.inl (keeps.force.trans force)
  · rcases keeps.states ofs with same | used
    · exact Or.inr (Or.inl (same.trans erased))
    · exact Or.inr (used.imp_right Or.inl)
  · rcases keeps.states ofs with same | used
    · exact Or.inr (Or.inr (Or.inl (same.trans good)))
    · exact Or.inr (used.imp_right Or.inl)
  · rcases keeps.states ofs with same | used
    · refine Or.inr (Or.inr (Or.inr ⟨same.trans unknown, ?_, ?_, ?_⟩))
      · rw [keeps.fails]
        exact reads
      · rw [keeps.marks]
        exact here
      · rw [keeps.marks]
        exact behind
    · exact Or.inr (used.imp_right Or.inl)

theorem keeps_good {before after : Driver} {addr len : Nat} (keeps : Keeps mtd before after)
    (good : GoodArea mtd before addr len) : GoodArea mtd after addr len :=
  fun a front back => usable_iff.mp (keeps_usable keeps (usable_iff.mpr (good a front back)))

/-- A check that finds its block good. -/
theorem check_keeps (usable : Usable mtd driver ofs) :
    Keeps mtd driver (athNandBlockIsbad mtd driver ofs).2 := by
  cases forced : driver.force with
  | true =>
      rw [check_forced forced]
      exact keeps_refl driver
  | false =>
      by_cases unknown : athNandGetBlkState mtd driver.bbt ofs = ATH_NAND_BLK_DONT_KNOW
      · have fine : scanned mtd driver ofs = false := by
          have answer := usable_iff.mp usable driver.calls
          rwa [check_unknown mtd driver ofs forced unknown] at answer
        have readable : unreadable mtd driver ofs = false := by
          simp only [scanned, Bool.or_eq_false_iff] at fine
          rw [unreadable, fine.1.1.1, fine.1.2, Bool.and_false, Bool.or_false]
        have state : recordedState mtd driver ofs = ATH_NAND_BLK_ERASED ∨
            recordedState mtd driver ofs = ATH_NAND_BLK_GOOD := by
          rw [recordedState, readable, fine, if_neg Bool.false_ne_true, if_neg Bool.false_ne_true]
          split
          · exact Or.inl rfl
          · exact Or.inr rfl
        have states := @unknown_states mtd driver ofs forced unknown
        rw [check_unknown mtd driver ofs forced unknown] at states ⊢
        refine ⟨rfl, rfl, fun _ => rfl, ?_⟩
        intro other
        rw [states other]
        split
        · exact Or.inr state
        · exact Or.inl rfl
      · rw [check_known forced unknown]
        exact keeps_refl driver

/-- The ECC bytes do not reach the clean markers. -/
theorem command_keeps (behind : mtd.eccOffset = 0 ∨ mtd.writesize + 2 ≤ mtd.eccOffset) (rd : Bool)
    (addr : Nat) (ecc : Bool) : Keeps mtd driver (athNandRwPage mtd driver rd addr ecc).2 := by
  rw [athNandRwPage]
  cases rd with
  | true => exact ⟨rfl, rfl, fun _ => rfl, fun _ => Or.inl rfl⟩
  | false =>
      rw [if_neg Bool.false_ne_true]
      refine ⟨rfl, rfl, ?_, fun _ => Or.inl rfl⟩
      intro page
      dsimp only
      by_cases here : page = pageAt mtd addr
      · have kept : ∀ index < 2, (ecc && mtd.eccOffset != 0 &&
            decide (mtd.eccOffset ≤ mtd.writesize + index)) = false := by
          intro index marker
          rcases behind with none | far
          · rw [none]
            simp
          · rw [decide_eq_false (by omega), Bool.and_false]
        rw [here, Function.update_self, marked, marked]
        rw [kept 0 (by decide), kept 1 (by decide)]
        rfl
      · rw [Function.update_of_ne here]

end Good

/-! ### The rounds -/

/-- What a round moves, and the chip and the memory behind it. -/
def part (mtd : MtdInfo) (rd : Bool) (rw : RwData) : Bool × Device × (Nat → UInt8) :=
  movePart mtd rd (blockIsbad mtd rw.nand rw.addr).2 rw.memory rw.addr rw.pos
    (iolenAt mtd rw.addr rw.len)

def advanced (mtd : MtdInfo) (rd : Bool) (rw : RwData) : RwData where
  nand := (part mtd rd rw).2.1
  memory := (part mtd rd rw).2.2
  addr := rw.addr + iolenAt mtd rw.addr rw.len
  len := rw.len - iolenAt mtd rw.addr rw.len
  pos := rw.pos + iolenAt mtd rw.addr rw.len
  iodone := rw.iodone + iolenAt mtd rw.addr rw.len

/-- The state between the rounds of a request in an area without bad blocks. -/
structure Moving (mtd : MtdInfo) (driver : Driver) (addr len : Nat) (rw : RwData) : Prop where
  place : rw.addr = addr + rw.pos
  rest : rw.pos + rw.len = len
  edge : rw.pos = 0 ∨ rw.len = 0 ∨ rw.addr % mtd.writesize = 0
  keeps : Keeps mtd driver rw.nand.driver

/-- What ath_nand_probe has found: the registers reach every page of the device, and the ECC bytes
stand behind the clean markers. -/
structure Probed (mtd : MtdInfo) : Prop where
  reach : ∀ a < mtd.size, pageAt mtd a = a / mtd.writesize
  behind : mtd.eccOffset = 0 ∨ mtd.writesize + 2 ≤ mtd.eccOffset

section Rounds
variable {mtd : MtdInfo} {rd : Bool} {driver : Driver} {addr len : Nat}

theorem moving_start {nand : Device} (memory : Nat → UInt8) :
    Moving mtd nand.driver addr len (started nand memory addr len) :=
  ⟨rfl, Nat.zero_add len, Or.inl rfl, keeps_refl nand.driver⟩

theorem iolen_pos (mtd : MtdInfo) {rw : RwData} (more : 0 < rw.len) :
    0 < iolenAt mtd rw.addr rw.len := by
  have column := Nat.mod_lt rw.addr (writesize_pos mtd)
  unfold iolenAt
  omega

theorem rw_page_driver (nand : Device) (rd : Bool) (addr : Nat) (ecc : Bool) :
    (rwPage mtd nand rd addr ecc).2.driver = (athNandRwPage mtd nand.driver rd addr ecc).2 := by
  cases rd with
  | true => rfl
  | false => rfl

theorem rw_page_ok (nand : Device) (rd : Bool) (addr : Nat) (ecc : Bool) :
    (rwPage mtd nand rd addr ecc).1 = !nand.driver.fails nand.driver.calls := by
  cases rd with
  | true => rfl
  | false => rfl

theorem rw_page_read (nand : Device) (addr : Nat) (ecc : Bool) :
    (rwPage mtd nand true addr ecc).2.data = nand.data ∧
      ∀ i, (rwPage mtd nand true addr ecc).2.io i =
        if i < mtd.writesize then
          if (!nand.driver.fails nand.driver.calls) = true then nand.data (pageAt mtd addr) i
          else nand.noise nand.driver.calls i
        else nand.io i :=
  ⟨rfl, fun _ => rfl⟩

theorem rw_page_write (nand : Device) (addr : Nat) (ecc : Bool) :
    (rwPage mtd nand false addr ecc).2.data =
      Function.update nand.data (pageAt mtd addr) fun i =>
        if (!nand.driver.fails nand.driver.calls) = true then
          nand.data (pageAt mtd addr) i &&& nand.io i
        else nand.noise nand.driver.calls i := rfl

theorem part_keeps (probed : Probed mtd) (rw : RwData) :
    Keeps mtd (blockIsbad mtd rw.nand rw.addr).2.driver (part mtd rd rw).2.1.driver := by
  rw [part, movePart]
  cases rd with
  | true =>
      rw [if_pos rfl, rw_page_driver]
      exact command_keeps probed.behind true rw.addr _
  | false =>
      rw [if_neg Bool.false_ne_true]
      split
      · exact keeps_refl _
      · rw [rw_page_driver]
        exact command_keeps probed.behind false rw.addr true

/-- A round fails only with its command. -/
theorem part_ok {rw : RwData} (fine : ∀ call, rw.nand.driver.fails call = false)
    (keeps : Keeps mtd rw.nand.driver (blockIsbad mtd rw.nand rw.addr).2.driver) :
    (part mtd rd rw).1 = true := by
  have same : ∀ call, (blockIsbad mtd rw.nand rw.addr).2.driver.fails call = false := by
    intro call
    rw [keeps.fails]
    exact fine call
  rw [part, movePart]
  cases rd with
  | true =>
      rw [if_pos rfl, rw_page_ok, same]
      rfl
  | false =>
      rw [if_neg Bool.false_ne_true]
      split
      · rfl
      · rw [rw_page_ok, same]
        rfl

section Area
variable {rw : RwData} (good : GoodArea mtd driver addr len) (moving : Moving mtd driver addr len rw)
include good moving

theorem round_usable (more : 0 < rw.len) : Usable mtd rw.nand.driver rw.addr := by
  have place := moving.place
  have rest := moving.rest
  exact usable_iff.mpr (keeps_good moving.keeps good rw.addr (by omega) (by omega))

theorem check_passes (more : 0 < rw.len) : (blockIsbad mtd rw.nand rw.addr).1 = false := by
  rw [(block_isbad_same rw.nand rw.addr).1]
  exact usable_iff.mp (round_usable good moving more) rw.nand.driver.calls

theorem checked_keeps (more : 0 < rw.len) :
    Keeps mtd rw.nand.driver (blockIsbad mtd rw.nand rw.addr).2.driver := by
  rw [(block_isbad_same rw.nand rw.addr).2.1]
  exact check_keeps (round_usable good moving more)

theorem round_goes {next : RwData} (goes : rwDataStep mtd rd rw = .inl next) :
    0 < rw.len ∧ (part mtd rd rw).1 = true ∧ next = advanced mtd rd rw := by
  rw [rwDataStep] at goes
  split at goes
  · cases goes
  · next some =>
      have more := Nat.pos_of_ne_zero some
      dsimp only at goes
      rw [check_passes good moving more, if_neg Bool.false_ne_true] at goes
      split at goes
      · next ok =>
          cases goes
          exact ⟨more, ok, rfl⟩
      · cases goes

theorem round_leaves {result : Nat × RwData} (leaves : rwDataStep mtd rd rw = .inr result) :
    rw.len = 0 ∧ result = (0, rw) ∨
      0 < rw.len ∧ (part mtd rd rw).1 = false ∧ result.1 = 1 := by
  rw [rwDataStep] at leaves
  split at leaves
  · next none =>
      cases leaves
      exact Or.inl ⟨none, rfl⟩
  · next some =>
      have more := Nat.pos_of_ne_zero some
      dsimp only at leaves
      rw [check_passes good moving more, if_neg Bool.false_ne_true] at leaves
      split at leaves
      · cases leaves
      · next failed =>
          cases leaves
          exact Or.inr ⟨more, Bool.not_eq_true _ |>.mp failed, rfl⟩

theorem moving_next (probed : Probed mtd) {next : RwData} (goes : rwDataStep mtd rd rw = .inl next) :
    Moving mtd driver addr len next := by
  obtain ⟨more, -, rfl⟩ := round_goes good moving goes
  have place := moving.place
  have rest := moving.rest
  have within : iolenAt mtd rw.addr rw.len ≤ rw.len := Nat.min_le_left _ _
  refine ⟨?_, ?_, Or.inr ?_, keeps_trans moving.keeps
    (keeps_trans (checked_keeps good moving more) (part_keeps probed rw))⟩
  · simp only [advanced]
    omega
  · simp only [advanced]
    omega
  · simp only [advanced]
    by_cases last : rw.len ≤ mtd.writesize - rw.addr % mtd.writesize
    · left
      rw [iolenAt, Nat.min_eq_left last]
      exact Nat.sub_self _
    · right
      have column := Nat.mod_lt rw.addr (writesize_pos mtd)
      have whole := Nat.div_add_mod rw.addr mtd.writesize
      rw [iolenAt, Nat.min_eq_right (by omega)]
      have next : rw.addr + (mtd.writesize - rw.addr % mtd.writesize) =
          mtd.writesize * (rw.addr / mtd.writesize + 1) := by
        rw [Nat.mul_succ]
        omega
      rw [next, Nat.mul_mod_right]

end Area

/-- The request returns, without an error if no command fails. -/
theorem rw_returns (probed : Probed mtd) {nand : Device}
    (good : GoodArea mtd nand.driver addr len) (memory : Nat → UInt8) :
    ∃ ret last, rwBuff mtd rd nand memory addr len (ret, last) ∧
      ((∀ call, nand.driver.fails call = false) → ret = 0) := by
  obtain ⟨⟨ret, last⟩, ended⟩ := @ends_measure _ _ (rwDataStep mtd rd)
    (Moving mtd nand.driver addr len) RwData.len
    (fun rw next moving goes => by
      obtain ⟨more, -, shape⟩ := round_goes good moving goes
      refine ⟨moving_next good moving probed goes, ?_⟩
      have positive := iolen_pos mtd more
      rw [shape, advanced]
      exact Nat.sub_lt more positive)
    _ (moving_start memory)
  refine ⟨ret, last, ended, ?_⟩
  intro fine
  refine ends_keeps (Moving mtd nand.driver addr len) (fun result => result.1 = 0)
    (fun rw next moving goes => moving_next good moving probed goes) ?_ (moving_start memory) ended
  intro rw result moving leaves
  rcases round_leaves good moving leaves with ⟨-, rfl⟩ | ⟨more, failed, -⟩
  · rfl
  · have done := @part_ok mtd rd rw (by rw [moving.keeps.fails]; exact fine)
      (checked_keeps good moving more)
    rw [done] at failed
    cases failed

end Rounds

/-! ### The bytes of a round -/

/-- The chip behind the check of a round. -/
def checked (mtd : MtdInfo) (rw : RwData) : Device := (blockIsbad mtd rw.nand rw.addr).2

/-- The byte of the device at an address. -/
def byteAt (mtd : MtdInfo) (data : Nat → Nat → UInt8) (a : Nat) : UInt8 :=
  data (a / mtd.writesize) (a % mtd.writesize)

section Bytes
variable {mtd : MtdInfo} {rw : RwData}

theorem checked_data (rw : RwData) : (checked mtd rw).data = rw.nand.data :=
  (block_isbad_same rw.nand rw.addr).2.2

theorem write_memory (rw : RwData) : (part mtd false rw).2.2 = rw.memory := by
  rw [part, movePart, if_neg Bool.false_ne_true]
  split
  · rfl
  · rfl

/-- A round of a write touches the page of its address only. -/
theorem write_others {page : Nat} (other : page ≠ pageAt mtd rw.addr) :
    (part mtd false rw).2.1.data page = rw.nand.data page := by
  rw [part, movePart, if_neg Bool.false_ne_true]
  split
  · exact congrFun (checked_data rw) page
  · rw [rw_page_write, Function.update_of_ne other]
    exact congrFun (checked_data rw) page

theorem write_skipped (ones : allOnes mtd rw.memory rw.pos = true) :
    (part mtd false rw).2.1.data = rw.nand.data := by
  rw [part, movePart, if_neg Bool.false_ne_true, if_pos ones]
  exact checked_data rw

/-- A programmed page gets the bytes of the request from its first column on, and behind them what
the buffer held. -/
theorem write_programmed (some : allOnes mtd rw.memory rw.pos = false)
    (ok : (part mtd false rw).1 = true) (column : Nat) :
    (part mtd false rw).2.1.data (pageAt mtd rw.addr) column =
      rw.nand.data (pageAt mtd rw.addr) column &&&
        if column < iolenAt mtd rw.addr rw.len then rw.memory (rw.pos + column)
        else (checked mtd rw).io column := by
  have unskipped : ¬ allOnes mtd rw.memory rw.pos = true := by
    rw [some]
    exact Bool.false_ne_true
  rw [part, movePart, if_neg Bool.false_ne_true, if_neg unskipped] at ok ⊢
  rw [rw_page_ok] at ok
  rw [rw_page_write, Function.update_self, if_pos ok]
  have same : (blockIsbad mtd rw.nand rw.addr).2.data = rw.nand.data := checked_data rw
  dsimp only [copy]
  rw [same, Nat.sub_zero, Nat.zero_add]
  simp only [Nat.zero_le, true_and]
  rfl

/-- A round of a read copies the bytes from their column. -/
theorem read_part (ok : (part mtd true rw).1 = true) :
    (part mtd true rw).2.1.data = rw.nand.data ∧
      ∀ i, (part mtd true rw).2.2 i =
        if rw.pos ≤ i ∧ i < rw.pos + iolenAt mtd rw.addr rw.len then
          if rw.addr % mtd.writesize + (i - rw.pos) < mtd.writesize then
            rw.nand.data (pageAt mtd rw.addr) (rw.addr % mtd.writesize + (i - rw.pos))
          else (checked mtd rw).io (rw.addr % mtd.writesize + (i - rw.pos))
        else rw.memory i := by
  have same : (blockIsbad mtd rw.nand rw.addr).2.data = rw.nand.data := checked_data rw
  rw [part, movePart, if_pos rfl] at ok ⊢
  rw [rw_page_ok] at ok
  obtain ⟨kept, buffer⟩ := @rw_page_read mtd (blockIsbad mtd rw.nand rw.addr).2 rw.addr
    (eccNeeded mtd (blockIsbad mtd rw.nand rw.addr).2.driver rw.addr)
  refine ⟨kept.trans same, ?_⟩
  intro i
  dsimp only [copy]
  rw [buffer, if_pos ok, same]
  rfl

end Bytes

/-! ### The loop without the bytes -/

def driverChip (mtd : MtdInfo) : Chip Driver where
  isbad := athNandBlockIsbad mtd
  eccNeeded := eccNeeded mtd
  rwPage := athNandRwPage mtd

def plain (rw : RwData) (pages : List PageRecord) : RwBuff Driver where
  state := rw.nand.driver
  addr := rw.addr
  len := rw.len
  pos := rw.pos
  iodone := rw.iodone
  pages := pages

section Follows
variable {mtd : MtdInfo} {rd : Bool} {buf : Nat → UInt8} {rw : RwData}

theorem move_follows {nand : Device} {memory : Nat → UInt8} (same : rd = true ∨ memory = buf)
    (addr pos iolen : Nat) :
    (movePage mtd (driverChip mtd) rd buf nand.driver addr pos iolen).1.ok =
        (movePart mtd rd nand memory addr pos iolen).1 ∧
      (movePage mtd (driverChip mtd) rd buf nand.driver addr pos iolen).2 =
        (movePart mtd rd nand memory addr pos iolen).2.1.driver ∧
      (rd = true ∨ (movePart mtd rd nand memory addr pos iolen).2.2 = buf) := by
  cases rd with
  | true => exact ⟨rfl, rfl, Or.inl rfl⟩
  | false =>
      have memory_same : memory = buf := same.resolve_left Bool.false_ne_true
      rw [memory_same, movePage, movePart, if_neg Bool.false_ne_true, if_neg Bool.false_ne_true]
      split
      · exact ⟨rfl, rfl, Or.inr rfl⟩
      · exact ⟨rfl, rfl, Or.inr rfl⟩

/-- A round does to the driver what the round without the bytes does. -/
theorem step_follows (same : rd = true ∨ rw.memory = buf) (pages : List PageRecord) :
    (∀ next, rwDataStep mtd rd rw = .inl next → (rd = true ∨ next.memory = buf) ∧
      ∃ more, rwBuffStep mtd (driverChip mtd) rd buf (plain rw pages) = .inl (plain next more)) ∧
    (∀ result, rwDataStep mtd rd rw = .inr result →
      ∃ more, rwBuffStep mtd (driverChip mtd) rd buf (plain rw pages) =
        .inr (result.1, plain result.2 more)) := by
  by_cases none : rw.len = 0
  · rw [rwDataStep, if_pos none, rwBuffStep, if_pos (by exact none)]
    constructor
    · intro next goes
      cases goes
    · intro result leaves
      cases leaves
      exact ⟨pages, rfl⟩
  · have more : 0 < (plain rw pages).len := Nat.pos_of_ne_zero none
    obtain ⟨answer, after, -⟩ := @block_isbad_same mtd rw.nand rw.addr
    rw [rwDataStep, if_neg none]
    dsimp only
    cases bad : (blockIsbad mtd rw.nand rw.addr).1 with
    | true =>
        have round := @step_bad _ mtd (driverChip mtd) rd buf (plain rw pages) more
          (answer.symm.trans bad)
        rw [if_pos rfl, round]
        constructor
        · intro next goes
          cases goes
          refine ⟨same, pages, congrArg Sum.inl ?_⟩
          dsimp only [plain, driverChip]
          rw [after]
        · intro result leaves
          cases leaves
    | false =>
        rw [if_neg Bool.false_ne_true]
        obtain ⟨page, state, -, -, moved, round⟩ := @step_good _ mtd (driverChip mtd) rd buf
          (plain rw pages) more (answer.symm.trans bad)
        obtain ⟨ok, driver, memory⟩ := @move_follows mtd rd buf (blockIsbad mtd rw.nand rw.addr).2
          rw.memory same rw.addr rw.pos (iolenAt mtd rw.addr rw.len)
        rw [after] at ok driver
        have success : page.ok = (part mtd rd rw).1 := (congrArg (fun pair => pair.1.ok) moved).trans ok
        have chip : state = (part mtd rd rw).2.1.driver := (congrArg Prod.snd moved).trans driver
        rw [round, success, chip]
        cases fine : (part mtd rd rw).1 with
        | true =>
            rw [part] at fine
            rw [fine, if_pos rfl, if_pos rfl]
            constructor
            · intro next goes
              cases goes
              exact ⟨memory, pages ++ [page], rfl⟩
            · intro result leaves
              cases leaves
        | false =>
            rw [part] at fine
            rw [fine, if_neg Bool.false_ne_true, if_neg Bool.false_ne_true]
            constructor
            · intro next goes
              cases goes
            · intro result leaves
              cases leaves
              exact ⟨pages ++ [page], rfl⟩

/-- What is known of the driver without the bytes holds here. -/
theorem rw_buff_follows {nand : Device} {addr len : Nat} {result : Nat × RwData}
    (ended : rwBuff mtd rd nand buf addr len result) :
    ∃ pages, athNandRwBuff mtd (driverChip mtd) rd buf nand.driver addr len
      (result.1, plain result.2 pages) := by
  refine ends_keeps (fun rw => (rd = true ∨ rw.memory = buf) ∧ ∃ pages,
      Leads (rwBuffStep mtd (driverChip mtd) rd buf) (plain (started nand buf addr len) [])
        (plain rw pages))
    (fun result => ∃ pages, athNandRwBuff mtd (driverChip mtd) rd buf nand.driver addr len
      (result.1, plain result.2 pages)) ?_ ?_ ⟨Or.inr rfl, [], leads_refl _⟩ ended
  · rintro rw next ⟨same, pages, led⟩ goes
    obtain ⟨kept, more, round⟩ := (step_follows same pages).1 next goes
    exact ⟨kept, more, leads_trans led (leads_step round)⟩
  · rintro rw result ⟨same, pages, led⟩ leaves
    obtain ⟨more, round⟩ := (step_follows same pages).2 result leaves
    exact ⟨more, ends_leads led (ends_done round)⟩

end Follows

end UBoot.Nand.PageData
