import UBoot.Library.Runs
import UBoot.Library.PackedTable
import UBoot.Nand.AthRwBuff

/-!
The block table of the Atheros NAND driver. It records for each block whether it
is good, bad or erased; a block that is recorded as erased is read without ECC.
ath_nand_erase and ath_nand_block_isbad write the table, ath_nand_rw_buff reads
it, and a write of pages leaves it as it is.
-/

namespace UBoot.Nand.AthBlocks

open Library.Loop Library.Runs Library.PackedTable AthRwBuff

def ATH_NAND_BLK_DONT_KNOW : BitVec 32 := 0x0
def ATH_NAND_BLK_GOOD : BitVec 32 := 0x1
def ATH_NAND_BLK_BAD : BitVec 32 := 0x2
def ATH_NAND_BLK_ERASED : BitVec 32 := 0x3

/-- The table and the chip behind it. The chip has for each page its spare bytes, and whether it was
programmed since its block was erased. The command with a number fails as `fails` says, and writes
the ECC bytes `spare`. -/
structure Driver where
  bbt : Option (Nat → BitVec 32)
  /-- The word at 0xbd000000 says that no block is bad. -/
  force : Bool
  oob : Nat → Nat → UInt8
  programmed : Nat → Bool
  fails : Nat → Bool
  spare : Nat → Nat → UInt8
  calls : Nat

def athNandGetBlkState (mtd : MtdInfo) (bbt : Option (Nat → BitVec 32)) (b : Nat) : BitVec 32 :=
  match bbt with
  | none => ATH_NAND_BLK_DONT_KNOW
  | some bbt => entry bbt (b >>> mtd.erasesizeShift)

def athNandSetBlkState (mtd : MtdInfo) (driver : Driver) (b : Nat) (state : BitVec 32) : Driver :=
  { driver with bbt := driver.bbt.map fun bbt => put bbt (b >>> mtd.erasesizeShift) state }

def pagesPerBlock (mtd : MtdInfo) : Nat := 2 ^ (mtd.erasesizeShift - mtd.writesizeShift)

/-- The page that the chip takes from the address registers. -/
def pageAt (mtd : MtdInfo) (addr : Nat) : Nat :=
  let registers := athNandConvAddr mtd addr false
  if mtd.isSmallBlockDevice then registers.1 >>> 8 else (registers.1 >>> 16) + registers.2 * 2 ^ 16

/-- The block that the chip takes from the address registers of the erase command. -/
def erasedBlock (mtd : MtdInfo) (addr : Nat) : Nat :=
  let registers := athNandConvAddr mtd addr true
  if mtd.isSmallBlockDevice then (registers.1 >>> 21) + registers.2 * 2 ^ 11
  else ((registers.1 >>> 16) + registers.2 * 2 ^ 16) / pagesPerBlock mtd

/-- ath_nand_rw_page. The controller writes its ECC bytes behind ecc_offset. -/
def athNandRwPage (mtd : MtdInfo) (driver : Driver) (rd : Bool) (addr : Nat) (eccNeeded : Bool) :
    Bool × Driver :=
  let ok := !driver.fails driver.calls
  if rd then (ok, { driver with calls := driver.calls + 1 })
  else
    let page := pageAt mtd addr
    (ok, { driver with
      calls := driver.calls + 1
      programmed := Function.update driver.programmed page true
      oob := Function.update driver.oob page fun i =>
        if eccNeeded && mtd.eccOffset != 0 && decide (mtd.eccOffset ≤ mtd.writesize + i) then
          driver.oob page i &&& driver.spare driver.calls i
        else driver.oob page i })

/-- nand_read_raw of the spare bytes. -/
def nandReadRaw (mtd : MtdInfo) (driver : Driver) (ofs : Nat) : Option (Nat → UInt8) × Driver :=
  (if driver.fails driver.calls then none else some (driver.oob (pageAt mtd ofs)),
    { driver with calls := driver.calls + 1 })

def spareBlank (mtd : MtdInfo) (oob : Nat → UInt8) : Bool :=
  (List.range mtd.oobsize).all fun i => oob i == 0xff

/-- The loop over the first pages; `oob` has the spare bytes of the page before. The offset has
moved behind the pages when the state is set. -/
def scanMarkers (mtd : MtdInfo) : (count : Nat) → Driver → (ofs : Nat) → (oob : Nat → UInt8) →
    Bool × Driver
  | 0, driver, ofs, oob =>
      (false, athNandSetBlkState mtd driver ofs
        (if spareBlank mtd oob then ATH_NAND_BLK_ERASED else ATH_NAND_BLK_GOOD))
  | count + 1, driver, ofs, _ =>
      let (raw, driver) := nandReadRaw mtd driver ofs
      match raw with
      | none => (true, athNandSetBlkState mtd driver ofs ATH_NAND_BLK_DONT_KNOW)
      | some oob =>
          -- first two bytes of oob data are clean markers
          if oob 0 != 0xff || oob 1 != 0xff then
            (true, athNandSetBlkState mtd driver ofs ATH_NAND_BLK_BAD)
          else scanMarkers mtd count driver (ofs + mtd.writesize) oob

def athNandBlockIsbad (mtd : MtdInfo) (driver : Driver) (ofs : Nat) : Bool × Driver :=
  if driver.force then (false, driver)
  else
    let bs := athNandGetBlkState mtd driver.bbt ofs
    if bs = ATH_NAND_BLK_ERASED ∨ bs = ATH_NAND_BLK_GOOD then (false, driver)
    else if bs = ATH_NAND_BLK_BAD then (true, driver)
    else scanMarkers mtd 2 driver ofs fun _ => 0

/-- ath_nand_block_erase, and the state that ath_nand_erase sets when it succeeds. -/
def eraseBlock (mtd : MtdInfo) (driver : Driver) (addr : Nat) : Bool × Driver :=
  let block := erasedBlock mtd addr
  if driver.fails driver.calls then (false, { driver with calls := driver.calls + 1 })
  else (true, athNandSetBlkState mtd { driver with
      calls := driver.calls + 1
      programmed := fun page =>
        if page / pagesPerBlock mtd = block then false else driver.programmed page
      oob := fun page i => if page / pagesPerBlock mtd = block then 0xff else driver.oob page i }
    addr ATH_NAND_BLK_ERASED)

/-- What the driver does to the chip and the table, one command after the other. -/
inductive Event where
  | check (ofs : Nat)
  | erase (addr : Nat)
  | program (addr : Nat)
  | read (addr : Nat) (eccNeeded : Bool)
deriving DecidableEq

def next (mtd : MtdInfo) (driver : Driver) : Event → Driver
  | .check ofs => (athNandBlockIsbad mtd driver ofs).2
  | .erase addr => (eraseBlock mtd driver addr).2
  | .program addr => (athNandRwPage mtd driver false addr true).2
  | .read addr eccNeeded => (athNandRwPage mtd driver true addr eccNeeded).2

def eccNeeded (mtd : MtdInfo) (driver : Driver) (addr : Nat) : Bool :=
  athNandGetBlkState mtd driver.bbt addr != ATH_NAND_BLK_ERASED

/-- A page is read with ECC as the table says. -/
def Step (mtd : MtdInfo) (before : Driver) (event : Event) (after : Driver) : Prop :=
  after = next mtd before event ∧
    ∀ addr ecc, event = .read addr ecc → ecc = eccNeeded mtd before addr

/-- The driver as the loop of ath_nand_rw_buff uses it, with the events so far. -/
def tracedChip (mtd : MtdInfo) : Chip (Driver × List Event) where
  isbad state ofs :=
    let (bad, driver) := athNandBlockIsbad mtd state.1 ofs
    (bad, driver, state.2 ++ [.check ofs])
  eccNeeded state addr := eccNeeded mtd state.1 addr
  rwPage state rd addr ecc :=
    let (ok, driver) := athNandRwPage mtd state.1 rd addr ecc
    (ok, driver, state.2 ++ [if rd then .read addr ecc else .program addr])

/-- The loop of ath_nand_erase: the return value if one was set, the driver and the events. -/
def eraseLoop (mtd : MtdInfo) : (count : Nat) → Driver → (i : Nat) → (ret : Option Int) →
    Option Int × Driver × List Event
  | 0, driver, _, ret => (ret, driver, [])
  | count + 1, driver, i, ret =>
      let (bad, driver) := athNandBlockIsbad mtd driver i
      if bad then
        let (ret, driver, events) :=
          eraseLoop mtd count driver ((i + mtd.erasesize) % 2 ^ 32) ret
        (ret, driver, .check i :: events)
      else
        let (ok, driver) := eraseBlock mtd driver i
        if ok then
          let (ret, driver, events) :=
            eraseLoop mtd count driver ((i + mtd.erasesize) % 2 ^ 32) (some 0)
          (ret, driver, .check i :: .erase i :: events)
        else (some 1, driver, [.check i, .erase i])

def EINVAL : Int := 22

def athNandErase (mtd : MtdInfo) (driver : Driver) (addr len : Nat) :
    Option Int × Driver × List Event :=
  if mtd.size < (addr + len) % 2 ^ 32 then (some (-EINVAL), driver, [])
  else
    let n := len >>> mtd.erasesizeShift
    let n := if len % mtd.erasesize ≠ 0 then n + 1 else n
    eraseLoop mtd n driver addr none

inductive Op where
  | isbad (ofs : Nat)
  | erase (addr len : Nat)
  | read (addr len : Nat)
  | write (buf : Nat → UInt8) (addr len : Nat)

/-- One call of the driver, with its events. -/
inductive Operates (mtd : MtdInfo) : Driver → Op → List Event → Driver → Prop where
  | isbad (driver ofs) :
      Operates mtd driver (.isbad ofs) [.check ofs] (athNandBlockIsbad mtd driver ofs).2
  | erase (driver addr len) :
      Operates mtd driver (.erase addr len) (athNandErase mtd driver addr len).2.2
        (athNandErase mtd driver addr len).2.1
  | read {driver addr len ret last} :
      athNandRwBuff mtd (tracedChip mtd) true (fun _ => 0) (driver, []) addr len (ret, last) →
      Operates mtd driver (.read addr len) last.state.2 last.state.1
  | write {driver buf addr len ret last} :
      athNandRwBuff mtd (tracedChip mtd) false buf (driver, []) addr len (ret, last) →
      Operates mtd driver (.write buf addr len) last.state.2 last.state.1

inductive Session (mtd : MtdInfo) : Driver → List Op → List Event → Driver → Prop where
  | done (driver) : Session mtd driver [] [] driver
  | call {before middle after op ops front back} :
      Operates mtd before op front middle → Session mtd middle ops back after →
      Session mtd before (op :: ops) (front ++ back) after

/-- No page of a block that is recorded as erased was programmed since. -/
def ErasedClean (mtd : MtdInfo) (driver : Driver) : Prop :=
  ∀ page, athNandGetBlkState mtd driver.bbt (page * mtd.writesize) = ATH_NAND_BLK_ERASED →
    driver.programmed page = false

/-- The check of an address finds an unknown block, both pages carry the clean markers, and all
spare bytes of the second page are 0xff. -/
def SecondBlank (mtd : MtdInfo) (driver : Driver) (ofs : Nat) : Prop :=
  driver.force = false ∧ driver.bbt.isSome ∧
    athNandGetBlkState mtd driver.bbt ofs = ATH_NAND_BLK_DONT_KNOW ∧
    driver.fails driver.calls = false ∧ driver.fails (driver.calls + 1) = false ∧
    (∀ index < 2, driver.oob (pageAt mtd ofs) index = 0xff ∧
      driver.oob (pageAt mtd (ofs + mtd.writesize)) index = 0xff) ∧
    spareBlank mtd (driver.oob (pageAt mtd (ofs + mtd.writesize))) = true

/-- The condition on a command and the state before it. A check that takes the second page for the
whole block finds no programmed page in the block it records; the block that is erased is the one
that is recorded; a page is not programmed in a block that is recorded as erased; and a programmed
page is read through its own address. -/
def Careful (mtd : MtdInfo) (driver : Driver) : Event → Prop
  | .check ofs => SecondBlank mtd driver ofs →
      ∀ page, page / pagesPerBlock mtd =
        (ofs + 2 * mtd.writesize) >>> mtd.erasesizeShift → driver.programmed page = false
  | .erase addr => erasedBlock mtd addr = addr >>> mtd.erasesizeShift
  | .program addr => athNandGetBlkState mtd driver.bbt (pageAt mtd addr * mtd.writesize) ≠
      ATH_NAND_BLK_ERASED
  | .read addr _ => driver.programmed (pageAt mtd addr) = true → pageAt mtd addr = addr / mtd.writesize

/-- A programmed page is read with ECC. -/
def ReadChecked (mtd : MtdInfo) (driver : Driver) (event : Event) : Prop :=
  ∀ addr ecc, event = .read addr ecc → driver.programmed (pageAt mtd addr) = true → ecc = true

section Table
variable {mtd : MtdInfo}

theorem set_state_get (driver : Driver) (b other : Nat) {state : BitVec 32}
    (small : state &&& 3#32 = state) :
    athNandGetBlkState mtd (athNandSetBlkState mtd driver b state).bbt other =
      if driver.bbt.isSome ∧ b >>> mtd.erasesizeShift = other >>> mtd.erasesizeShift then state
      else athNandGetBlkState mtd driver.bbt other := by
  unfold athNandGetBlkState athNandSetBlkState
  cases table : driver.bbt with
  | none => simp
  | some bbt =>
      simp only [Option.map_some, entry_put bbt _ _ small, Option.isSome_some, true_and]

/-- Setting another state than erased takes nothing into the erased blocks. -/
theorem set_state_erased {driver : Driver} {b other : Nat} {state : BitVec 32}
    (small : state &&& 3#32 = state) (differs : state ≠ ATH_NAND_BLK_ERASED)
    (recorded : athNandGetBlkState mtd (athNandSetBlkState mtd driver b state).bbt other =
      ATH_NAND_BLK_ERASED) :
    athNandGetBlkState mtd driver.bbt other = ATH_NAND_BLK_ERASED := by
  rw [set_state_get driver b other small] at recorded
  split at recorded
  · exact absurd recorded differs
  · exact recorded

theorem page_block (mtd : MtdInfo) (page : Nat) :
    (page * mtd.writesize) >>> mtd.erasesizeShift = page / pagesPerBlock mtd := by
  have split : 2 ^ mtd.erasesizeShift = mtd.writesize * pagesPerBlock mtd := by
    rw [MtdInfo.writesize, pagesPerBlock, ← Nat.pow_add, Nat.add_sub_cancel' mtd.pages]
  rw [Nat.shiftRight_eq_div_pow, split, ← Nat.div_div_eq_div_mul,
    Nat.mul_div_cancel _ (writesize_pos mtd)]

theorem same_block_state (mtd : MtdInfo) (bbt : Option (Nat → BitVec 32)) (addr : Nat) :
    athNandGetBlkState mtd bbt (addr / mtd.writesize * mtd.writesize) =
      athNandGetBlkState mtd bbt addr := by
  have block : (addr / mtd.writesize * mtd.writesize) >>> mtd.erasesizeShift =
      addr >>> mtd.erasesizeShift := by
    have split : 2 ^ mtd.erasesizeShift = mtd.writesize * pagesPerBlock mtd := by
      rw [MtdInfo.writesize, pagesPerBlock, ← Nat.pow_add, Nat.add_sub_cancel' mtd.pages]
    rw [page_block, Nat.shiftRight_eq_div_pow, split, Nat.div_div_eq_div_mul]
  unfold athNandGetBlkState
  rw [block]

theorem state_unknown {bbt : Option (Nat → BitVec 32)} {b : Nat}
    (unused : ¬ (athNandGetBlkState mtd bbt b = ATH_NAND_BLK_ERASED ∨
      athNandGetBlkState mtd bbt b = ATH_NAND_BLK_GOOD))
    (notBad : ¬ athNandGetBlkState mtd bbt b = ATH_NAND_BLK_BAD) :
    athNandGetBlkState mtd bbt b = ATH_NAND_BLK_DONT_KNOW := by
  have small : (athNandGetBlkState mtd bbt b).toNat < 4 := by
    unfold athNandGetBlkState
    cases bbt with
    | none =>
        change ATH_NAND_BLK_DONT_KNOW.toNat < 4
        decide
    | some table => exact entry_lt table _
  generalize athNandGetBlkState mtd bbt b = state at *
  have cases : state.toNat = 0 ∨ state.toNat = 1 ∨ state.toNat = 2 ∨ state.toNat = 3 := by omega
  rcases cases with zero | one | two | three
  · exact BitVec.eq_of_toNat_eq zero
  · exact absurd (Or.inr (BitVec.eq_of_toNat_eq one)) unused
  · exact absurd (BitVec.eq_of_toNat_eq two) notBad
  · exact absurd (Or.inl (BitVec.eq_of_toNat_eq three)) unused

theorem two_markers {first second : Nat → UInt8}
    (one : ¬ (first 0 != 0xff || first 1 != 0xff) = true)
    (other : ¬ (second 0 != 0xff || second 1 != 0xff) = true) :
    ∀ index < 2, first index = 0xff ∧ second index = 0xff := by
  simp only [Bool.or_eq_true, bne_iff_ne, ne_eq, not_or, not_not] at one other
  intro index small
  have cases : index = 0 ∨ index = 1 := by omega
  rcases cases with rfl | rfl
  · exact ⟨one.1, other.1⟩
  · exact ⟨one.2, other.2⟩

/-- What a check may do: it leaves the pages, and a block that becomes erased in the table is the
one behind the two pages, when the second is blank. -/
structure Checked (mtd : MtdInfo) (before : Driver) (ofs : Nat) (after : Driver) : Prop where
  programmed : after.programmed = before.programmed
  recorded : ∀ other, athNandGetBlkState mtd after.bbt other = ATH_NAND_BLK_ERASED →
    athNandGetBlkState mtd before.bbt other = ATH_NAND_BLK_ERASED ∨
      SecondBlank mtd before ofs ∧
        (ofs + 2 * mtd.writesize) >>> mtd.erasesizeShift = other >>> mtd.erasesizeShift

theorem checked_set {before driver : Driver} {ofs b : Nat} {state : BitVec 32}
    (pages : driver.programmed = before.programmed) (table : driver.bbt = before.bbt)
    (small : state &&& 3#32 = state) (differs : state ≠ ATH_NAND_BLK_ERASED) :
    Checked mtd before ofs (athNandSetBlkState mtd driver b state) := by
  constructor
  · exact pages
  · intro other recorded
    rw [← table]
    exact Or.inl (set_state_erased small differs recorded)

theorem block_checked (driver : Driver) (ofs : Nat) :
    Checked mtd driver ofs (athNandBlockIsbad mtd driver ofs).2 := by
  have same : Checked mtd driver ofs driver := ⟨rfl, fun _ recorded => Or.inl recorded⟩
  unfold athNandBlockIsbad
  split
  · exact same
  · rename_i force
    dsimp only
    split
    · exact same
    · rename_i unknown
      split
      · exact same
      · rename_i notBad
        rw [scanMarkers]
        cases first : driver.fails driver.calls with
        | true =>
            simp only [nandReadRaw, first, if_true]
            exact checked_set rfl rfl (by decide) (by decide)
        | false =>
            simp only [nandReadRaw, first, Bool.false_eq_true, if_false]
            split
            · exact checked_set rfl rfl (by decide) (by decide)
            · rename_i firstMarkers
              rw [scanMarkers]
              cases second : driver.fails (driver.calls + 1) with
              | true =>
                  simp only [nandReadRaw, second, if_true]
                  exact checked_set rfl rfl (by decide) (by decide)
              | false =>
                  simp only [nandReadRaw, second, Bool.false_eq_true, if_false]
                  split
                  · exact checked_set rfl rfl (by decide) (by decide)
                  · rename_i secondMarkers
                    rw [scanMarkers]
                    cases blank : spareBlank mtd (driver.oob (pageAt mtd (ofs + mtd.writesize))) with
                    | false =>
                        exact checked_set rfl rfl (by decide) (by decide)
                    | true =>
                        constructor
                        · rfl
                        · intro other recorded
                          rw [if_pos rfl, set_state_get _ _ other (by decide)] at recorded
                          split at recorded
                          · rename_i here
                            refine Or.inr ⟨⟨by simpa using force, here.1,
                              state_unknown unknown notBad, first, second, ?_, blank⟩, ?_⟩
                            · exact two_markers firstMarkers secondMarkers
                            · rw [← here.2, Nat.two_mul, Nat.add_assoc]
                          · exact Or.inl recorded

theorem check_keeps {driver : Driver} {ofs : Nat} (clean : ErasedClean mtd driver)
    (careful : Careful mtd driver (.check ofs)) :
    ErasedClean mtd (athNandBlockIsbad mtd driver ofs).2 := by
  have checked := @block_checked mtd driver ofs
  intro page recorded
  rw [checked.programmed]
  rcases checked.recorded _ recorded with before | ⟨blank, block⟩
  · exact clean page before
  · refine careful blank page ?_
    rw [block, page_block]

theorem erase_keeps {driver : Driver} {addr : Nat} (clean : ErasedClean mtd driver)
    (careful : Careful mtd driver (.erase addr)) :
    ErasedClean mtd (eraseBlock mtd driver addr).2 := by
  intro page recorded
  unfold eraseBlock at recorded ⊢
  dsimp only at recorded ⊢
  split at recorded
  · rename_i failed
    rw [if_pos failed]
    exact clean page recorded
  · rename_i worked
    rw [if_neg worked]
    change (if page / pagesPerBlock mtd = erasedBlock mtd addr then false
      else driver.programmed page) = false
    rw [set_state_get _ _ _ (by decide)] at recorded
    split at recorded
    · rename_i here
      rw [if_pos]
      rw [careful, here.2, page_block]
    · by_cases block : page / pagesPerBlock mtd = erasedBlock mtd addr
      · rw [if_pos block]
      · rw [if_neg block]
        exact clean page recorded

theorem program_keeps {driver : Driver} {addr : Nat} (clean : ErasedClean mtd driver)
    (careful : Careful mtd driver (.program addr)) :
    ErasedClean mtd (athNandRwPage mtd driver false addr true).2 := by
  intro page recorded
  change Function.update driver.programmed (pageAt mtd addr) true page = false
  by_cases same : page = pageAt mtd addr
  · rw [same] at recorded
    exact absurd recorded careful
  · rw [Function.update_of_ne same]
    exact clean page recorded

/-- One command keeps the blocks that are recorded as erased clean. -/
theorem next_keeps {driver : Driver} {event : Event} (clean : ErasedClean mtd driver)
    (careful : Careful mtd driver event) : ErasedClean mtd (next mtd driver event) := by
  cases event with
  | check ofs => exact check_keeps clean careful
  | erase addr => exact erase_keeps clean careful
  | program addr => exact program_keeps clean careful
  | read addr ecc => exact clean

theorem read_checked {before after : Driver} {event : Event} (clean : ErasedClean mtd before)
    (careful : Careful mtd before event) (step : Step mtd before event after) :
    ReadChecked mtd before event := by
  rintro addr ecc rfl programmed
  have page : pageAt mtd addr = addr / mtd.writesize := careful programmed
  rw [step.2 addr ecc rfl, eccNeeded, bne_iff_ne]
  intro recorded
  have blank := clean (pageAt mtd addr) (by
    rw [← recorded, page]
    exact same_block_state mtd before.bbt addr)
  rw [programmed] at blank
  cases blank

end Table

section Sessions
variable {mtd : MtdInfo}

theorem check_step (driver : Driver) (ofs : Nat) :
    Step mtd driver (.check ofs) (athNandBlockIsbad mtd driver ofs).2 :=
  ⟨rfl, fun addr ecc other => by cases other⟩

theorem erase_step (driver : Driver) (addr : Nat) :
    Step mtd driver (.erase addr) (eraseBlock mtd driver addr).2 :=
  ⟨rfl, fun addr ecc other => by cases other⟩

theorem program_step (driver : Driver) (addr : Nat) :
    Step mtd driver (.program addr) (athNandRwPage mtd driver false addr true).2 :=
  ⟨rfl, fun addr ecc other => by cases other⟩

theorem read_step (driver : Driver) (addr : Nat) :
    Step mtd driver (.read addr (eccNeeded mtd driver addr))
      (athNandRwPage mtd driver true addr (eccNeeded mtd driver addr)).2 := by
  refine ⟨rfl, ?_⟩
  intro other ecc same
  cases same
  rfl

theorem erase_loop_run (count : Nat) (driver : Driver) (i : Nat) (ret : Option Int) :
    Run (Step mtd) driver (eraseLoop mtd count driver i ret).2.2
      (eraseLoop mtd count driver i ret).2.1 := by
  induction count generalizing driver i ret with
  | zero => exact Run.refl driver
  | succ count ih =>
      rw [eraseLoop]
      dsimp only
      have checked := @check_step mtd driver i
      split
      · exact Run.next checked (ih _ _ _)
      · have erased := @erase_step mtd (athNandBlockIsbad mtd driver i).2 i
        split
        · exact Run.next checked (Run.next erased (ih _ _ _))
        · exact Run.next checked (Run.next erased (Run.refl _))

/-- What a page command of the loop adds to the events. -/
theorem move_run {start : Driver} {state : Driver × List Event} (rd : Bool) (buf : Nat → UInt8)
    (addr pos iolen : Nat) (before : Run (Step mtd) start state.2 state.1) :
    Run (Step mtd) start (movePage mtd (tracedChip mtd) rd buf state addr pos iolen).2.2
      (movePage mtd (tracedChip mtd) rd buf state addr pos iolen).2.1 := by
  unfold movePage
  dsimp only
  split
  · exact run_append before (Run.next (read_step state.1 addr) (Run.refl _))
  · split
    · exact before
    · exact run_append before (Run.next (program_step state.1 addr) (Run.refl _))

/-- The loop of ath_nand_rw_buff does to the driver what its events say. -/
theorem rw_buff_run {rd : Bool} {buf : Nat → UInt8} {start : Driver}
    {rw : RwBuff (Driver × List Event)} {result : Nat × RwBuff (Driver × List Event)}
    (before : Run (Step mtd) start rw.state.2 rw.state.1)
    (ended : Ends (rwBuffStep mtd (tracedChip mtd) rd buf) rw result) :
    Run (Step mtd) start result.2.state.2 result.2.state.1 := by
  have check : ∀ rw : RwBuff (Driver × List Event), Run (Step mtd) start rw.state.2 rw.state.1 →
      Run (Step mtd) start ((tracedChip mtd).isbad rw.state rw.addr).2.2
        ((tracedChip mtd).isbad rw.state rw.addr).2.1 := by
    intro rw held
    exact run_append held (Run.next (check_step rw.state.1 rw.addr) (Run.refl _))
  refine ends_keeps (fun rw => Run (Step mtd) start rw.state.2 rw.state.1)
    (fun result => Run (Step mtd) start result.2.state.2 result.2.state.1) ?_ ?_ before ended
  · intro rw next held goes
    by_cases empty : rw.len = 0
    · rw [AthRwBuff.step_done empty] at goes
      cases goes
    · have more := Nat.pos_of_ne_zero empty
      cases bad : ((tracedChip mtd).isbad rw.state rw.addr).1 with
      | true =>
          rw [AthRwBuff.step_bad more bad] at goes
          cases goes
          exact check rw held
      | false =>
          obtain ⟨page, state, -, -, moved, round⟩ :=
            @AthRwBuff.step_good _ mtd (tracedChip mtd) rd buf rw more bad
          rw [round] at goes
          have after := move_run rd buf rw.addr rw.pos (iolenAt mtd rw.addr rw.len) (check rw held)
          rw [← moved] at after
          cases fine : page.ok with
          | true =>
              rw [fine, if_pos rfl] at goes
              cases goes
              exact after
          | false =>
              rw [fine, if_neg Bool.false_ne_true] at goes
              cases goes
  · intro rw result held leaves
    by_cases empty : rw.len = 0
    · rw [AthRwBuff.step_done empty] at leaves
      cases leaves
      exact held
    · have more := Nat.pos_of_ne_zero empty
      cases bad : ((tracedChip mtd).isbad rw.state rw.addr).1 with
      | true =>
          rw [AthRwBuff.step_bad more bad] at leaves
          cases leaves
      | false =>
          obtain ⟨page, state, -, -, moved, round⟩ :=
            @AthRwBuff.step_good _ mtd (tracedChip mtd) rd buf rw more bad
          rw [round] at leaves
          have after := move_run rd buf rw.addr rw.pos (iolenAt mtd rw.addr rw.len) (check rw held)
          rw [← moved] at after
          cases fine : page.ok with
          | true =>
              rw [fine, if_pos rfl] at leaves
              cases leaves
          | false =>
              rw [fine, if_neg Bool.false_ne_true] at leaves
              cases leaves
              exact after

theorem operates_run {before after : Driver} {op : Op} {events : List Event}
    (call : Operates mtd before op events after) : Run (Step mtd) before events after := by
  cases call with
  | isbad ofs => exact Run.next (check_step before ofs) (Run.refl _)
  | erase addr len =>
      unfold athNandErase
      split
      · exact Run.refl before
      · exact erase_loop_run _ before addr none
  | read ended => exact rw_buff_run (Run.refl before) ended
  | write ended => exact rw_buff_run (Run.refl before) ended

theorem session_run {before after : Driver} {ops : List Op} {events : List Event}
    (session : Session mtd before ops events after) : Run (Step mtd) before events after := by
  induction session with
  | done driver => exact Run.refl driver
  | call first _ ih => exact run_append (operates_run first) ih

/-- Every command of a run meets the property of reads. -/
def ReadsChecked (mtd : MtdInfo) : Driver → List Event → Prop
  | _, [] => True
  | driver, event :: rest => ReadChecked mtd driver event ∧ ReadsChecked mtd (next mtd driver event) rest

theorem run_clean {before after : Driver} {events : List Event} (run : Run (Step mtd) before events after)
    (clean : ErasedClean mtd before) (careful : Passes (Careful mtd) (next mtd) before events) :
    (∀ front, front <+: events → ErasedClean mtd (front.foldl (next mtd) before)) ∧
      ErasedClean mtd after ∧ ReadsChecked mtd before events := by
  induction run with
  | refl driver =>
      refine ⟨?_, clean, trivial⟩
      intro front shorter
      rw [List.prefix_nil.mp shorter]
      exact clean
  | @next before middle after event rest step run ih =>
      obtain ⟨rfl, asked⟩ := step
      obtain ⟨all, last, reads⟩ := ih (next_keeps clean careful.1) careful.2
      refine ⟨?_, last, read_checked clean careful.1 ⟨rfl, asked⟩, reads⟩
      intro front shorter
      cases front with
      | nil => exact clean
      | cons first others =>
          obtain ⟨same, tail⟩ := List.cons_prefix_cons.mp shorter
          rw [same]
          exact all others tail

end Sessions

/-- In a session whose commands are all careful, every state reached has no programmed page in a
block that is recorded as erased, and every programmed page is read with ECC. -/
theorem erased_blocks_unprogrammed (mtd : MtdInfo) {before after : Driver} {ops : List Op}
    {events : List Event} (clean : ErasedClean mtd before)
    (session : Session mtd before ops events after)
    (careful : Passes (Careful mtd) (next mtd) before events) :
    (∀ front, front <+: events → ErasedClean mtd (front.foldl (next mtd) before)) ∧
      ErasedClean mtd after ∧ ReadsChecked mtd before events :=
  run_clean (session_run session) clean careful

/-- A call of ath_nand_rw_buff that ends within three rounds. -/
def rwThree (mtd : MtdInfo) (rd : Bool) (buf : Nat → UInt8) (driver : Driver) (addr len : Nat) :
    Option (Nat × RwBuff (Driver × List Event)) :=
  run (rwBuffStep mtd (tracedChip mtd) rd buf) 3
    { state := (driver, []), addr := addr, len := len, pos := 0, iodone := 0, pages := [] }

/-- The driver after the probe: an empty table, and a chip on which nothing is programmed. -/
def probed : Driver where
  bbt := some fun _ => 0
  force := false
  oob := fun _ _ => 0xff
  programmed := fun _ => false
  fails := fun _ => false
  spare := fun _ _ => 0
  calls := 0

/-- The same with block 0 recorded as good, and with its first page programmed. -/
def recorded : Driver :=
  { probed with bbt := some fun _ => 1, programmed := fun page => page == 0 }

theorem recorded_clean : ErasedClean largePages recorded := by
  intro page erased
  by_cases first : page = 0
  · subst first
    exact absurd erased (by decide)
  · exact beq_false_of_ne first

theorem recorded_read_checked : ∃ events after,
    Session largePages recorded [.read 0 0x800] events after ∧ ErasedClean largePages after ∧
      ReadsChecked largePages recorded events := by
  have small : ((rwThree largePages true (fun _ => 0) recorded 0 0x800).map fun result =>
      (result.1, result.2.state.2)) = some (0, [.check 0, .read 0 true]) := by decide +kernel
  obtain ⟨⟨ret, last⟩, ended, facts⟩ := Option.map_eq_some_iff.mp small
  have events : last.state.2 = [.check 0, .read 0 true] := congrArg Prod.snd facts
  have session : Session largePages recorded [.read 0 0x800] (last.state.2 ++ []) last.state.1 :=
    Session.call (Operates.read ⟨3, ended⟩) (Session.done _)
  have careful : Passes (Careful largePages) (next largePages) recorded (last.state.2 ++ []) := by
    rw [events]
    refine ⟨?_, ?_, trivial⟩
    · rintro ⟨-, -, unknown, -⟩
      exact absurd unknown (by decide)
    · intro _
      decide
  have law := erased_blocks_unprogrammed largePages recorded_clean session careful
  exact ⟨_, _, session, law.2.1, law.2.2⟩

/-- A block is erased, and its first page is written and read: the page is in a block that is
recorded as erased, and it is read without ECC. -/
theorem written_read_unchecked : ErasedClean largePages probed ∧ ∃ events after,
    Session largePages probed
      [.erase 0 0x20000, .write (fun _ => 0) 0 0x800, .read 0 0x800] events after ∧
    ¬ ErasedClean largePages after ∧ ¬ ReadsChecked largePages probed events := by
  refine ⟨fun page _ => rfl, ?_⟩
  have small : ((rwThree largePages false (fun _ => 0)
      (athNandErase largePages probed 0 0x20000).2.1 0 0x800).bind fun written =>
        (rwThree largePages true (fun _ => 0) written.2.state.1 0 0x800).map fun result =>
          (written.2.state.2, result.2.state.2,
            athNandGetBlkState largePages result.2.state.1.bbt 0,
            result.2.state.1.programmed 0)) =
      some ([.check 0, .program 0], [.check 0, .read 0 false], ATH_NAND_BLK_ERASED, true) := by
    decide +kernel
  obtain ⟨⟨ret, written⟩, wrote, rest⟩ := Option.bind_eq_some_iff.mp small
  obtain ⟨⟨again, last⟩, ended, facts⟩ := Option.map_eq_some_iff.mp rest
  obtain ⟨first, second, state, page⟩ : written.state.2 = [.check 0, .program 0] ∧
      last.state.2 = [.check 0, .read 0 false] ∧
      athNandGetBlkState largePages last.state.1.bbt 0 = ATH_NAND_BLK_ERASED ∧
      last.state.1.programmed 0 = true := by
    simpa only [Prod.mk.injEq] using facts
  refine ⟨_, _, Session.call (Operates.erase probed 0 0x20000)
    (Session.call (Operates.write ⟨3, wrote⟩)
      (Session.call (Operates.read ⟨3, ended⟩) (Session.done _))), ?_, ?_⟩
  · intro clean
    have blank := clean 0 state
    rw [page] at blank
    cases blank
  · rw [first, second]
    intro checked
    have asked := checked.2.2.2.2.2.1 0 false rfl (by decide +kernel)
    cases asked

end UBoot.Nand.AthBlocks
