import UBoot.Library.Loop
import UBoot.Library.GoodBlocks

/-!
Transfers of the old NAND driver. nand_legacy_rw cuts a request into pieces that
end at erase blocks, and treats a bad block in one of three ways; the pieces go
through nand_read_ecc and nand_write_ecc page by page. Addresses and lengths are
32-bit numbers.
-/

namespace UBoot.Nand.LegacyRw

open Library.Loop Library.GoodBlocks

def NANDRW_READ : BitVec 32 := 0x01
def NANDRW_WRITE : BitVec 32 := 0x00
def NANDRW_JFFS2 : BitVec 32 := 0x02
def NANDRW_JFFS2_SKIP : BitVec 32 := 0x04

/-- The fields of `struct nand_chip`, and the place of the bad block mark of `oob_config`. A chip
of the table has whole pages and whole erase blocks, or no erase size at all. -/
structure NandChip where
  totlen : Nat
  erasesize : Nat
  oobblock : Nat
  bus16 : Bool
  badblockPos : Int
  sized : totlen < 2 ^ 32
  page : 0 < oobblock
  pages : oobblock ∣ totlen
  blocks : erasesize = 0 ∨
    (∃ shift < 32, erasesize = 2 ^ shift) ∧ 2 * oobblock ≤ erasesize ∧ oobblock ∣ erasesize ∧
      erasesize ∣ totlen

/-- Byte `index` that nand_read_oob reads from an address. -/
abbrev Oob := Nat → Nat → UInt8

/-- What can go wrong in the transfer with a number: the chip is write protected, or it reports
for a page that the programming failed or that the ECC cannot correct it. -/
structure Faults where
  isProtected : Nat → Bool
  failed : Nat → Nat → Bool

/-- `addr & (-erasesize)`. -/
def blockOf (chip : NandChip) (addr : Nat) : Nat := addr &&& ((2 ^ 32 - chip.erasesize) % 2 ^ 32)

def checkBlock (chip : NandChip) (oob : Oob) (pos : Nat) : Bool :=
  let page0 := blockOf chip pos
  let page1 := page0 + chip.oobblock
  if chip.totlen ≤ pos then true
  -- no way to check, assume OK
  else if chip.badblockPos < 0 then false
  -- the high byte of the third half word, on a big-endian machine
  else if chip.bus16 then oob page0 4 != 0xff || oob page1 4 != 0xff
  else oob (page0 + chip.badblockPos.toNat) 0 != 0xff ||
    oob (page1 + chip.badblockPos.toNat) 0 != 0xff

structure Transfer where
  ret : Int
  retlen : Nat
  /-- The page and the column of each access. -/
  touched : List (Nat × Nat)

def Transfer.after (access : Nat × Nat) (rest : Transfer) : Transfer :=
  { rest with touched := access :: rest.touched }

def readLoop (chip : NandChip) (failed : Nat → Bool) (len : Nat) :
    (fuel page col retlen : Nat) → (eccStatus : Bool) → Transfer
  | 0, _, _, retlen, eccStatus => ⟨if eccStatus then -1 else 0, retlen, []⟩
  | fuel + 1, page, col, retlen, eccStatus =>
      if retlen < len then
        let retlen := if len ≤ retlen + (chip.oobblock - col) then len
          else retlen + (chip.oobblock - col)
        Transfer.after (page, col)
          (readLoop chip failed len fuel (page + 1) 0 retlen (eccStatus || failed page))
      else ⟨if eccStatus then -1 else 0, retlen, []⟩

def nandReadEcc (chip : NandChip) (failed : Nat → Bool) (start len : Nat) : Transfer :=
  -- do not allow reads past end of device
  if chip.totlen < (start + len) % 2 ^ 32 then ⟨-1, 0, []⟩
  else readLoop chip failed len len (start / chip.oobblock) (start % chip.oobblock) 0 false

def writeLoop (chip : NandChip) (failed : Nat → Bool) (len : Nat) :
    (fuel page col retlen : Nat) → Transfer
  | 0, _, _, _ => ⟨0, len, []⟩
  | fuel + 1, page, col, retlen =>
      if retlen < len then
        let cnt := if chip.oobblock ≤ col + len then chip.oobblock - col else len - retlen
        if failed page then ⟨-1, retlen, [(page, col)]⟩
        else Transfer.after (page, col) (writeLoop chip failed len fuel (page + 1) 0 (retlen + cnt))
      else ⟨0, len, []⟩

def nandWriteEcc (chip : NandChip) (isProtected : Bool) (failed : Nat → Bool) (dest len : Nat) :
    Transfer :=
  -- do not allow write past end of device
  if chip.totlen < (dest + len) % 2 ^ 32 then ⟨-1, 0, []⟩
  else if isProtected then ⟨-1, 0, []⟩
  else writeLoop chip failed len len (dest / chip.oobblock) (dest % chip.oobblock) 0

structure Rw where
  start : Nat
  len : Nat
  /-- The start of the erase block that is being processed. -/
  eblk : Nat
  total : Nat
  /-- How many transfers there were. -/
  calls : Nat
  touched : List (Nat × Nat)

/-- The loop that reads 0xff for the rest of a bad block; what is left are start, len and total. -/
def fillBad (chip : NandChip) (eblk : Nat) : (len start total : Nat) → Nat × Nat × Nat
  | 0, start, total => (start, 0, total)
  | len + 1, start, total =>
      if (start + (2 ^ 32 - eblk)) % 2 ^ 32 < chip.erasesize then
        fillBad chip eblk len ((start + 1) % 2 ^ 32) (total + 1)
      else (start, len + 1, total)

def pieceOf (chip : NandChip) (state : Rw) : Nat :=
  min state.len ((state.eblk + chip.erasesize + (2 ^ 32 - state.start)) % 2 ^ 32)

/-- The call for the rest of the erase block, or for what is left of the request. -/
def movePiece (chip : NandChip) (faults : Faults) (cmd : BitVec 32) (state : Rw) : Transfer :=
  let piece := pieceOf chip state
  if cmd &&& NANDRW_READ ≠ 0 then
    nandReadEcc chip (faults.failed state.calls) state.start piece
  else nandWriteEcc chip (faults.isProtected state.calls) (faults.failed state.calls) state.start piece

def transfer (chip : NandChip) (faults : Faults) (cmd : BitVec 32) (state : Rw) :
    Rw ⊕ (Int × Rw) :=
  let moved := movePiece chip faults cmd state
  let state := { state with calls := state.calls + 1, touched := state.touched ++ moved.touched }
  if moved.ret ≠ 0 then .inr (moved.ret, state)
  else .inl { state with
    start := (state.start + moved.retlen) % 2 ^ 32
    total := state.total + moved.retlen
    len := state.len - moved.retlen }

/-- One round of the loop of nand_legacy_rw. -/
def rwStep (chip : NandChip) (oob : Oob) (faults : Faults) (cmd : BitVec 32) (state : Rw) :
    Rw ⊕ (Int × Rw) :=
  if state.len = 0 then .inr (0, state)
  else
    let eblk := blockOf chip state.start
    let entered := { state with eblk := eblk }
    if eblk ≠ state.eblk ∧ checkBlock chip oob eblk then
      if cmd = NANDRW_READ ||| NANDRW_JFFS2 then
        let (start, len, total) := fillBad chip eblk state.len state.start state.total
        .inl { entered with start := start, len := len, total := total }
      else if cmd = NANDRW_READ ||| NANDRW_JFFS2 ||| NANDRW_JFFS2_SKIP then
        .inl { entered with start := (state.start + chip.erasesize) % 2 ^ 32 }
      else if cmd = NANDRW_WRITE ||| NANDRW_JFFS2 then
        .inl { entered with start := (state.start + chip.erasesize) % 2 ^ 32 }
      else .inr (1, entered)
    else transfer chip faults cmd entered

def firstRound (start len : Nat) : Rw :=
  -- force mismatch on first pass
  { start := start, len := len, eblk := 2 ^ 32 - 1, total := 0, calls := 0, touched := [] }

def nandLegacyRw (chip : NandChip) (oob : Oob) (faults : Faults) (cmd : BitVec 32)
    (start len : Nat) : (Int × Rw) → Prop :=
  Ends (rwStep chip oob faults cmd) (firstRound start len)

/-- What a transfer of the `count` bytes from `front` on leaves behind. -/
structure Served (chip : NandChip) (front count : Nat) (moved : Transfer) : Prop where
  done : moved.ret = 0 → moved.retlen = count
  inside : ∀ access ∈ moved.touched, front ≤ access.1 * chip.oobblock + access.2 ∧
    access.1 * chip.oobblock + access.2 < front + count ∧ access.2 < chip.oobblock

theorem read_loop_served (chip : NandChip) (failed : Nat → Bool) (front len : Nat)
    {fuel page col retlen : Nat} (eccStatus : Bool) (enough : len ≤ fuel + retlen)
    (short : retlen ≤ len) (column : col < chip.oobblock)
    (place : retlen < len → page * chip.oobblock + col = front + retlen) :
    Served chip front len (readLoop chip failed len fuel page col retlen eccStatus) := by
  induction fuel generalizing page col retlen eccStatus with
  | zero =>
      have whole : retlen = len := by omega
      exact ⟨fun _ => whole, fun access member => by cases member⟩
  | succ fuel ih =>
      rw [readLoop]
      by_cases more : retlen < len
      · have here := place more
        rw [if_pos more]
        dsimp only
        have rest : Served chip front len (readLoop chip failed len fuel (page + 1) 0
            (if len ≤ retlen + (chip.oobblock - col) then len
              else retlen + (chip.oobblock - col)) (eccStatus || failed page)) := by
          by_cases last : len ≤ retlen + (chip.oobblock - col)
          · rw [if_pos last]
            exact ih _ (by omega) le_rfl chip.page (fun again => absurd again (lt_irrefl _))
          · rw [if_neg last]
            refine ih _ (by omega) (by omega) chip.page ?_
            intro _
            rw [Nat.succ_mul]
            omega
        constructor
        · exact rest.done
        · intro access member
          rcases List.mem_cons.mp member with rfl | later
          · refine ⟨?_, ?_, column⟩ <;> dsimp only <;> omega
          · exact rest.inside access later
      · rw [if_neg more]
        exact ⟨fun _ => by dsimp only; omega, fun access member => by cases member⟩

theorem write_loop_served (chip : NandChip) (failed : Nat → Bool) (front len : Nat)
    {fuel page col retlen : Nat} (column : col < chip.oobblock)
    (place : retlen < len → page * chip.oobblock + col = front + retlen) :
    Served chip front len (writeLoop chip failed len fuel page col retlen) := by
  induction fuel generalizing page col retlen with
  | zero => exact ⟨fun _ => rfl, fun access member => by cases member⟩
  | succ fuel ih =>
      rw [writeLoop]
      by_cases more : retlen < len
      · have here := place more
        rw [if_pos more]
        dsimp only
        by_cases broken : failed page = true
        · rw [if_pos broken]
          constructor
          · intro fine
            cases fine
          · intro access member
            rw [List.mem_singleton.mp member]
            refine ⟨?_, ?_, column⟩ <;> dsimp only <;> omega
        · rw [if_neg broken]
          have rest : Served chip front len (writeLoop chip failed len fuel (page + 1) 0
              (retlen + if chip.oobblock ≤ col + len then chip.oobblock - col
                else len - retlen)) := by
            apply ih chip.page
            intro again
            by_cases full : chip.oobblock ≤ col + len
            · rw [if_pos full, Nat.succ_mul]
              omega
            · rw [if_neg full] at again
              omega
          constructor
          · exact rest.done
          · intro access member
            rcases List.mem_cons.mp member with rfl | later
            · refine ⟨?_, ?_, column⟩ <;> dsimp only <;> omega
            · exact rest.inside access later
      · rw [if_neg more]
        exact ⟨fun _ => rfl, fun access member => by cases member⟩

theorem refused_served (chip : NandChip) (front count : Nat) :
    Served chip front count ⟨-1, 0, []⟩ := by
  constructor
  · intro fine
    cases fine
  · intro access member
    cases member

theorem page_place (chip : NandChip) (front : Nat) :
    front / chip.oobblock * chip.oobblock + front % chip.oobblock = front := by
  rw [Nat.mul_comm]
  exact Nat.div_add_mod front chip.oobblock

theorem read_served (chip : NandChip) (failed : Nat → Bool) (front count : Nat) :
    Served chip front count (nandReadEcc chip failed front count) := by
  unfold nandReadEcc
  split
  · exact refused_served chip front count
  · refine read_loop_served chip failed front count false (by omega) (Nat.zero_le _)
      (Nat.mod_lt _ chip.page) ?_
    intro _
    exact page_place chip front

theorem write_served (chip : NandChip) (isProtected : Bool) (failed : Nat → Bool)
    (front count : Nat) :
    Served chip front count (nandWriteEcc chip isProtected failed front count) := by
  unfold nandWriteEcc
  split
  · exact refused_served chip front count
  · split
    · exact refused_served chip front count
    · refine write_loop_served chip failed front count (Nat.mod_lt _ chip.page) ?_
      intro _
      exact page_place chip front

def noFaults : Faults := ⟨fun _ => false, fun _ _ => false⟩

theorem read_loop_clean (chip : NandChip) (len fuel page col retlen : Nat) :
    (readLoop chip (fun _ => false) len fuel page col retlen false).ret = 0 := by
  induction fuel generalizing page col retlen with
  | zero => rfl
  | succ fuel ih =>
      rw [readLoop]
      by_cases more : retlen < len
      · rw [if_pos more]
        exact ih _ _ _
      · rw [if_neg more]
        rfl

theorem write_loop_clean (chip : NandChip) (len fuel page col retlen : Nat) :
    (writeLoop chip (fun _ => false) len fuel page col retlen).ret = 0 := by
  induction fuel generalizing page col retlen with
  | zero => rfl
  | succ fuel ih =>
      rw [writeLoop]
      by_cases more : retlen < len
      · rw [if_pos more, if_neg Bool.false_ne_true]
        exact ih _ _ _
      · rw [if_neg more]

/-- A transfer without faults that does not go past the end moves all of its bytes, and touches
the page where it begins. -/
structure Complete (chip : NandChip) (front count : Nat) (moved : Transfer) : Prop where
  ret : moved.ret = 0
  first : 0 < count → (front / chip.oobblock, front % chip.oobblock) ∈ moved.touched

theorem read_complete (chip : NandChip) {front count : Nat}
    (inside : (front + count) % 2 ^ 32 ≤ chip.totlen) :
    Complete chip front count (nandReadEcc chip (fun _ => false) front count) := by
  rw [nandReadEcc, if_neg (Nat.not_lt.mpr inside)]
  constructor
  · exact read_loop_clean chip _ _ _ _ _
  · intro positive
    obtain ⟨fuel, rfl⟩ := Nat.exists_eq_succ_of_ne_zero (Nat.ne_of_gt positive)
    rw [readLoop, if_pos positive]
    exact List.mem_cons_self

theorem write_complete (chip : NandChip) {front count : Nat}
    (inside : (front + count) % 2 ^ 32 ≤ chip.totlen) :
    Complete chip front count (nandWriteEcc chip false (fun _ => false) front count) := by
  rw [nandWriteEcc, if_neg (Nat.not_lt.mpr inside), if_neg Bool.false_ne_true]
  constructor
  · exact write_loop_clean chip _ _ _ _ _
  · intro positive
    obtain ⟨fuel, rfl⟩ := Nat.exists_eq_succ_of_ne_zero (Nat.ne_of_gt positive)
    rw [writeLoop, if_pos positive, if_neg Bool.false_ne_true]
    exact List.mem_cons_self

theorem move_served (chip : NandChip) (faults : Faults) (cmd : BitVec 32) (state : Rw) :
    Served chip state.start (pieceOf chip state) (movePiece chip faults cmd state) := by
  unfold movePiece
  dsimp only
  split
  · exact read_served chip _ _ _
  · exact write_served chip _ _ _ _

theorem move_complete (chip : NandChip) (cmd : BitVec 32) {state : Rw}
    (inside : (state.start + pieceOf chip state) % 2 ^ 32 ≤ chip.totlen) :
    Complete chip state.start (pieceOf chip state) (movePiece chip noFaults cmd state) := by
  unfold movePiece
  dsimp only
  split
  · exact read_complete chip inside
  · exact write_complete chip inside

theorem move_refused (chip : NandChip) (faults : Faults) (cmd : BitVec 32) {state : Rw}
    (outside : chip.totlen < (state.start + pieceOf chip state) % 2 ^ 32) :
    movePiece chip faults cmd state = ⟨-1, 0, []⟩ := by
  simp only [movePiece, nandReadEcc, nandWriteEcc, if_pos outside, ite_self]

end UBoot.Nand.LegacyRw
