import UBoot.Library.Bits
import UBoot.Nand.LegacyRw

/-!
Where nand_legacy_rw reads and writes, and when it reports that the chip is too
short. In the modes that skip bad blocks the start address grows by whole blocks
and nothing compares it with the end of the chip.
-/

namespace UBoot.Nand.LegacyBounds

open Library.Loop Library.GoodBlocks LegacyRw

def goodBlock (chip : NandChip) (oob : Oob) (block : Nat) : Bool :=
  !checkBlock chip oob (block * chip.erasesize)

/-- The modes that skip a bad block. -/
def Skips (cmd : BitVec 32) : Prop :=
  cmd = NANDRW_READ ||| NANDRW_JFFS2 ||| NANDRW_JFFS2_SKIP ∨ cmd = NANDRW_WRITE ||| NANDRW_JFFS2

instance (cmd : BitVec 32) : Decidable (Skips cmd) := inferInstanceAs (Decidable (_ ∨ _))

/-- The mode that reads the data of a bad block as 0xff. -/
def Fills (cmd : BitVec 32) : Prop := cmd = NANDRW_READ ||| NANDRW_JFFS2

instance (cmd : BitVec 32) : Decidable (Fills cmd) := inferInstanceAs (Decidable (_ = _))

/-- Bytes that the blocks from `start` to the end of the chip hold or supply: those of the good
blocks, and where a bad block reads as 0xff also its bytes. -/
def supply (chip : NandChip) (oob : Oob) (cmd : BitVec 32) (start : Nat) : Nat :=
  if Fills cmd then chip.totlen - start
  else goodBytes chip.erasesize chip.totlen (goodBlock chip oob) start

/-- The address of an access lies at or behind `start`, and its page on the chip. -/
def OnChip (chip : NandChip) (start : Nat) (access : Nat × Nat) : Prop :=
  start ≤ access.1 * chip.oobblock + access.2 ∧ (access.1 + 1) * chip.oobblock ≤ chip.totlen

/-- Whatever faults there are, nand_legacy_rw returns, it touches only pages of the chip from
`start` on, and it returns an error when the blocks cannot supply `len` bytes. -/
def Bounded (chip : NandChip) (oob : Oob) (cmd : BitVec 32) (start len : Nat) : Prop :=
  ∀ faults, ∃ ret last, nandLegacyRw chip oob faults cmd start len (ret, last) ∧
    (∀ access ∈ last.touched, OnChip chip start access) ∧
    (supply chip oob cmd start < len → ret ≠ 0)

section Blocks
variable {chip : NandChip} {oob : Oob} {faults : Faults} {cmd : BitVec 32}

theorem erasesize_facts (blocks : chip.erasesize ≠ 0) :
    (∃ shift < 32, chip.erasesize = 2 ^ shift) ∧ 2 * chip.oobblock ≤ chip.erasesize ∧
      chip.oobblock ∣ chip.erasesize ∧ chip.erasesize ∣ chip.totlen := by
  rcases chip.blocks with none | facts
  · exact absurd none blocks
  · exact facts

theorem block_of {addr : Nat} (blocks : chip.erasesize ≠ 0) (bound : addr < 2 ^ 32) :
    blockOf chip addr = addr / chip.erasesize * chip.erasesize := by
  obtain ⟨⟨shift, narrow, size⟩, -⟩ := erasesize_facts blocks
  rw [blockOf, size]
  exact Library.Bits.round_down narrow bound

theorem check_block {addr : Nat} (blocks : chip.erasesize ≠ 0) (bound : addr < 2 ^ 32) :
    checkBlock chip oob (blockOf chip addr) = !goodBlock chip oob (addr / chip.erasesize) := by
  rw [block_of blocks bound, goodBlock, Bool.not_not]

/-- A good block lies on the chip as a whole. -/
theorem good_inside {block : Nat} (blocks : chip.erasesize ≠ 0)
    (usable : goodBlock chip oob block = true) :
    (block + 1) * chip.erasesize ≤ chip.totlen := by
  obtain ⟨-, -, -, count, whole⟩ := erasesize_facts blocks
  have before : block * chip.erasesize < chip.totlen := by
    by_contra behind
    simp [goodBlock, checkBlock, Nat.not_lt.mp behind] at usable
  rw [whole, Nat.mul_comm block] at before
  rw [whole, Nat.mul_comm]
  exact Nat.mul_le_mul_left _ (Nat.lt_of_mul_lt_mul_left before)

theorem bad_behind {addr : Nat} (blocks : chip.erasesize ≠ 0) (behind : chip.totlen ≤ addr) :
    goodBlock chip oob (addr / chip.erasesize) = false := by
  cases usable : goodBlock chip oob (addr / chip.erasesize) with
  | false => rfl
  | true =>
      have inside := good_inside blocks usable
      have next := Nat.lt_mul_div_succ addr (Nat.pos_of_ne_zero blocks)
      rw [Nat.mul_comm] at next
      omega

/-- The addresses wrap at a multiple of the erase size. -/
theorem wrap_blocks (blocks : chip.erasesize ≠ 0) :
    ∃ count, 2 ≤ count ∧ 2 ^ 32 = chip.erasesize * count := by
  obtain ⟨⟨shift, narrow, size⟩, -⟩ := erasesize_facts blocks
  refine ⟨2 ^ (32 - shift), ?_, ?_⟩
  · have one : 1 ≤ 32 - shift := by omega
    exact Nat.pow_le_pow_right (show 0 < 2 by decide) one
  · rw [size, ← Nat.pow_add, Nat.add_sub_cancel' (Nat.le_of_lt narrow)]

theorem next_block_differs {addr next : Nat} (blocks : chip.erasesize ≠ 0) (bound : addr < 2 ^ 32)
    (moved : next / chip.erasesize = addr / chip.erasesize + 1) :
    blockOf chip (next % 2 ^ 32) ≠ blockOf chip addr := by
  obtain ⟨count, several, whole⟩ := wrap_blocks blocks
  rw [block_of blocks bound, block_of blocks (Nat.mod_lt _ (Nat.two_pow_pos 32)), whole,
    Nat.mod_mul_right_div_self, moved]
  intro same
  have index := Nat.eq_of_mul_eq_mul_right (Nat.pos_of_ne_zero blocks) same
  rw [whole] at bound
  have inside : addr / chip.erasesize < count := Nat.div_lt_of_lt_mul bound
  by_cases last : addr / chip.erasesize + 1 = count
  · rw [last, Nat.mod_self] at index
    omega
  · rw [Nat.mod_eq_of_lt (by omega)] at index
    omega

/-- What holds at the head of the loop: the block that is being processed is a good one. -/
structure Fit (chip : NandChip) (oob : Oob) (state : Rw) : Prop where
  start : state.start < 2 ^ 32
  known : 0 < state.len → blockOf chip state.start = state.eblk →
    goodBlock chip oob (state.start / chip.erasesize) = true

theorem fit_first {start len : Nat} (blocks : chip.erasesize ≠ 0) (bound : start < 2 ^ 32) :
    Fit chip oob (firstRound start len) := by
  constructor
  · exact bound
  · intro _ same
    obtain ⟨⟨shift, narrow, size⟩, two, -⟩ := erasesize_facts blocks
    obtain ⟨count, -, whole⟩ := wrap_blocks blocks
    have page := chip.page
    have divides : chip.erasesize ∣ 2 ^ 32 - 1 := by
      change blockOf chip start = 2 ^ 32 - 1 at same
      rw [← same, block_of blocks bound]
      exact Nat.dvd_mul_left _ _
    have unit : chip.erasesize ∣ 1 := by
      have both := Nat.dvd_sub (show chip.erasesize ∣ 2 ^ 32 from ⟨count, whole⟩) divides
      exact both
    have one := Nat.le_of_dvd Nat.one_pos unit
    omega

/-- An access to a good block at or behind an address. -/
def Within (chip : NandChip) (oob : Oob) (front : Nat) (access : Nat × Nat) : Prop :=
  front ≤ access.1 * chip.oobblock + access.2 ∧ access.2 < chip.oobblock ∧
    goodBlock chip oob ((access.1 * chip.oobblock + access.2) / chip.erasesize) = true

structure Grown (chip : NandChip) (oob : Oob) (front : Nat) (before after : List (Nat × Nat)) :
    Prop where
  kept : ∀ access ∈ before, access ∈ after
  fresh : ∀ access ∈ after, access ∈ before ∨ Within chip oob front access

theorem grown_refl (front : Nat) (touched : List (Nat × Nat)) :
    Grown chip oob front touched touched :=
  ⟨fun _ member => member, fun _ member => Or.inl member⟩

theorem grown_trans {front later : Nat} {before middle after : List (Nat × Nat)}
    (one : Grown chip oob front before middle) (order : front ≤ later)
    (other : Grown chip oob later middle after) : Grown chip oob front before after := by
  constructor
  · intro access member
    exact other.kept access (one.kept access member)
  · intro access member
    rcases other.fresh access member with early | ⟨place, column, usable⟩
    · exact one.fresh access early
    · exact Or.inr ⟨order.trans place, column, usable⟩

theorem on_chip {front : Nat} {access : Nat × Nat}
    (place : front ≤ access.1 * chip.oobblock + access.2)
    (inside : access.1 * chip.oobblock + access.2 < chip.totlen) : OnChip chip front access := by
  refine ⟨place, ?_⟩
  obtain ⟨count, whole⟩ := chip.pages
  have before : chip.oobblock * access.1 < chip.oobblock * count := by
    rw [← whole, Nat.mul_comm]
    omega
  rw [whole, Nat.mul_comm (access.1 + 1)]
  exact Nat.mul_le_mul_left _ (Nat.lt_of_mul_lt_mul_left before)

theorem within_on_chip {front : Nat} {access : Nat × Nat} (blocks : chip.erasesize ≠ 0)
    (within : Within chip oob front access) : OnChip chip front access := by
  obtain ⟨place, -, usable⟩ := within
  have inside := good_inside blocks usable
  have next := Nat.lt_mul_div_succ (access.1 * chip.oobblock + access.2)
    (Nat.pos_of_ne_zero blocks)
  rw [Nat.mul_comm chip.erasesize] at next
  exact on_chip place (lt_of_lt_of_le next inside)

/-- The rest of the erase block, or what is left of the request. -/
def piece (chip : NandChip) (state : Rw) : Nat :=
  min state.len (chip.erasesize - state.start % chip.erasesize)

theorem erasesize_small (blocks : chip.erasesize ≠ 0) : chip.erasesize < 2 ^ 32 := by
  obtain ⟨⟨shift, narrow, size⟩, -⟩ := erasesize_facts blocks
  rw [size]
  exact Nat.pow_lt_pow_right (by decide) narrow

/-- A round in a good block: a piece of it is transferred. -/
theorem step_good (faults : Faults) (cmd : BitVec 32) {state : Rw} (blocks : chip.erasesize ≠ 0) (fit : Fit chip oob state)
    (more : 0 < state.len)
    (usable : goodBlock chip oob (state.start / chip.erasesize) = true) :
    (∃ ret last, rwStep chip oob faults cmd state = .inr (ret, last) ∧ ret ≠ 0 ∧
        faults ≠ noFaults ∧ Grown chip oob state.start state.touched last.touched) ∨
      ∃ next, rwStep chip oob faults cmd state = .inl next ∧ Fit chip oob next ∧
        next.start = state.start + piece chip state ∧ next.len = state.len - piece chip state ∧
        Grown chip oob state.start state.touched next.touched ∧
        (faults = noFaults →
          (state.start / chip.oobblock, state.start % chip.oobblock) ∈ next.touched) := by
  have inside := good_inside blocks usable
  have short := Nat.mod_lt state.start (Nat.pos_of_ne_zero blocks)
  have whole := Nat.div_add_mod state.start chip.erasesize
  have bound := fit.start
  have sized := chip.sized
  rw [Nat.mul_comm] at whole
  have room : state.start + piece chip state ≤ chip.totlen := by
    rw [Nat.succ_mul] at inside
    unfold piece
    omega
  have positive : 0 < piece chip state := by
    unfold piece
    omega
  have passed : ¬ (blockOf chip state.start ≠ state.eblk ∧
      checkBlock chip oob (blockOf chip state.start) = true) := by
    rintro ⟨-, marked⟩
    rw [check_block blocks bound, usable] at marked
    cases marked
  have length : pieceOf chip { state with eblk := blockOf chip state.start } =
      piece chip state := by
    rw [pieceOf, block_of blocks bound, piece]
    have small := erasesize_small blocks
    dsimp only
    congr 1
    rw [Nat.succ_mul] at inside
    omega
  have served : Served chip state.start (piece chip state)
      (movePiece chip faults cmd { state with eblk := blockOf chip state.start }) := by
    rw [← length]
    exact move_served chip faults cmd { state with eblk := blockOf chip state.start }
  have complete : faults = noFaults → Complete chip state.start (piece chip state)
      (movePiece chip faults cmd { state with eblk := blockOf chip state.start }) := by
    rintro rfl
    rw [← length]
    refine @move_complete chip cmd { state with eblk := blockOf chip state.start } ?_
    rw [length, Nat.mod_eq_of_lt (show state.start + piece chip state < 2 ^ 32 by omega)]
    exact room
  generalize chosen : movePiece chip faults cmd { state with eblk := blockOf chip state.start } =
    moved at served complete
  have grown : Grown chip oob state.start state.touched (state.touched ++ moved.touched) := by
    constructor
    · intro access member
      exact List.mem_append_left _ member
    · intro access member
      rcases List.mem_append.mp member with early | added
      · exact Or.inl early
      · obtain ⟨place, before, column⟩ := served.inside access added
        refine Or.inr ⟨place, column, ?_⟩
        rw [same_block (piece chip state) (by unfold piece; omega) place before]
        exact usable
  have round : rwStep chip oob faults cmd state = if moved.ret ≠ 0 then
      .inr (moved.ret, { state with
        eblk := blockOf chip state.start, calls := state.calls + 1
        touched := state.touched ++ moved.touched })
      else .inl { state with
        eblk := blockOf chip state.start, calls := state.calls + 1
        touched := state.touched ++ moved.touched
        start := (state.start + moved.retlen) % 2 ^ 32
        total := state.total + moved.retlen
        len := state.len - moved.retlen } := by
    rw [rwStep, if_neg (by omega)]
    simp only [if_neg passed, transfer, chosen]
  by_cases broken : moved.ret ≠ 0
  · left
    rw [if_pos broken] at round
    refine ⟨_, _, round, broken, ?_, grown⟩
    intro clean
    exact broken (complete clean).ret
  · right
    rw [if_neg broken, served.done (not_not.mp broken), Nat.mod_eq_of_lt (by omega)] at round
    refine ⟨_, round, ?_, rfl, rfl, grown, ?_⟩
    · constructor
      · dsimp only
        omega
      · dsimp only
        intro _ same
        rw [block_of blocks bound, block_of blocks (by omega)] at same
        rw [Nat.eq_of_mul_eq_mul_right (Nat.pos_of_ne_zero blocks) same]
        exact usable
    · intro clean
      exact List.mem_append_right _ ((complete clean).first positive)

/-- The loop over a bad block ends with the block or with the request. -/
theorem fill_bad_eq (chip : NandChip) {eblk : Nat}
    (inside : eblk + chip.erasesize ≤ 2 ^ 32) (small : chip.erasesize < 2 ^ 32)
    (len offset total : Nat) (order : offset ≤ chip.erasesize) :
    fillBad chip eblk len ((eblk + offset) % 2 ^ 32) total =
      ((eblk + offset + min len (chip.erasesize - offset)) % 2 ^ 32,
        len - min len (chip.erasesize - offset), total + min len (chip.erasesize - offset)) := by
  induction len generalizing offset total with
  | zero => simp [fillBad]
  | succ len ih =>
      have distance : ((eblk + offset) % 2 ^ 32 + (2 ^ 32 - eblk)) % 2 ^ 32 = offset := by
        omega
      rw [fillBad, distance]
      by_cases more : offset < chip.erasesize
      · rw [if_pos more, Nat.mod_add_mod, Nat.add_assoc, ih (offset + 1) (total + 1) more]
        have count : min (len + 1) (chip.erasesize - offset) =
            min len (chip.erasesize - (offset + 1)) + 1 := by omega
        rw [count]
        refine Prod.ext ?_ (Prod.ext ?_ ?_)
        · dsimp only
          congr 1
          omega
        · dsimp only
          omega
        · dsimp only
          omega
      · have full : offset = chip.erasesize := by omega
        rw [if_neg more, full, Nat.sub_self, Nat.min_zero]
        simp

theorem next_index {addr : Nat} (blocks : chip.erasesize ≠ 0) :
    (addr + chip.erasesize) / chip.erasesize = addr / chip.erasesize + 1 :=
  Nat.add_div_right addr (Nat.pos_of_ne_zero blocks)

theorem entered_bad {state : Rw} (blocks : chip.erasesize ≠ 0) (fit : Fit chip oob state)
    (more : 0 < state.len)
    (marked : goodBlock chip oob (state.start / chip.erasesize) = false) :
    blockOf chip state.start ≠ state.eblk ∧
      checkBlock chip oob (blockOf chip state.start) = true := by
  constructor
  · intro same
    rw [fit.known more same] at marked
    cases marked
  · rw [check_block blocks fit.start, marked]
    rfl

/-- A round in a bad block that the mode skips. -/
theorem step_skips (faults : Faults) {state : Rw} (blocks : chip.erasesize ≠ 0) (fit : Fit chip oob state)
    (more : 0 < state.len)
    (marked : goodBlock chip oob (state.start / chip.erasesize) = false) (skips : Skips cmd) :
    ∃ next, rwStep chip oob faults cmd state = .inl next ∧ Fit chip oob next ∧
      next.start = (state.start + chip.erasesize) % 2 ^ 32 ∧ next.len = state.len ∧
      next.touched = state.touched := by
  have fills : ¬ cmd = NANDRW_READ ||| NANDRW_JFFS2 := by
    rintro rfl
    revert skips
    decide
  have round : rwStep chip oob faults cmd state = .inl { state with
      eblk := blockOf chip state.start
      start := (state.start + chip.erasesize) % 2 ^ 32 } := by
    rw [rwStep, if_neg (by omega)]
    simp only [if_pos (entered_bad blocks fit more marked), if_neg fills]
    by_cases read : cmd = NANDRW_READ ||| NANDRW_JFFS2 ||| NANDRW_JFFS2_SKIP
    · rw [if_pos read]
    · rw [if_neg read, if_pos (skips.resolve_left read)]
  refine ⟨_, round, ?_, rfl, rfl, rfl⟩
  constructor
  · exact Nat.mod_lt _ (Nat.two_pow_pos 32)
  · intro _ same
    exact absurd same (next_block_differs blocks fit.start (next_index blocks))

/-- A round in a bad block that the mode reads as 0xff. -/
theorem step_fills (faults : Faults) {state : Rw} (blocks : chip.erasesize ≠ 0) (fit : Fit chip oob state)
    (more : 0 < state.len)
    (marked : goodBlock chip oob (state.start / chip.erasesize) = false) (fills : Fills cmd) :
    ∃ next, rwStep chip oob faults cmd state = .inl next ∧ Fit chip oob next ∧
      next.start = (state.start + piece chip state) % 2 ^ 32 ∧
      next.len = state.len - piece chip state ∧ next.touched = state.touched := by
  have bound := fit.start
  have small := erasesize_small blocks
  have positive := Nat.pos_of_ne_zero blocks
  have whole := Nat.div_add_mod state.start chip.erasesize
  have short := Nat.mod_lt state.start positive
  rw [Nat.mul_comm] at whole
  have inside : state.start / chip.erasesize * chip.erasesize + chip.erasesize ≤ 2 ^ 32 := by
    obtain ⟨count, -, wraps⟩ := wrap_blocks blocks
    have index : state.start / chip.erasesize + 1 ≤ count :=
      Nat.div_lt_of_lt_mul (wraps ▸ bound)
    calc state.start / chip.erasesize * chip.erasesize + chip.erasesize
        = (state.start / chip.erasesize + 1) * chip.erasesize := (Nat.succ_mul _ _).symm
      _ ≤ count * chip.erasesize := Nat.mul_le_mul_right _ index
      _ = 2 ^ 32 := by rw [wraps, Nat.mul_comm]
  have filled := fill_bad_eq chip inside small state.len
    (state.start % chip.erasesize) state.total (Nat.le_of_lt short)
  rw [whole, Nat.mod_eq_of_lt bound, ← block_of blocks bound] at filled
  have round : rwStep chip oob faults cmd state = .inl { state with
      eblk := blockOf chip state.start
      start := (state.start + piece chip state) % 2 ^ 32
      len := state.len - piece chip state
      total := state.total + piece chip state } := by
    rw [rwStep, if_neg (by omega)]
    simp only [if_pos (entered_bad blocks fit more marked), if_pos (show cmd = _ from fills), filled]
    rfl
  refine ⟨_, round, ?_, rfl, rfl, rfl⟩
  constructor
  · exact Nat.mod_lt _ (Nat.two_pow_pos 32)
  · intro left same
    have rest : piece chip state = chip.erasesize - state.start % chip.erasesize := by
      dsimp only at left
      unfold piece at left ⊢
      omega
    refine absurd same (next_block_differs blocks bound ?_)
    have last : state.start + piece chip state =
        (state.start / chip.erasesize + 1) * chip.erasesize := by
      rw [Nat.succ_mul]
      omega
    rw [last, Nat.mul_div_cancel _ positive]

/-- A round in a bad block in the other modes. -/
theorem step_refuses (faults : Faults) {state : Rw} (blocks : chip.erasesize ≠ 0) (fit : Fit chip oob state)
    (more : 0 < state.len)
    (marked : goodBlock chip oob (state.start / chip.erasesize) = false) (fills : ¬ Fills cmd)
    (skips : ¬ Skips cmd) :
    ∃ last, rwStep chip oob faults cmd state = .inr (1, last) ∧ last.touched = state.touched := by
  refine ⟨{ state with eblk := blockOf chip state.start }, ?_, rfl⟩
  rw [rwStep, if_neg (by omega)]
  simp only [if_pos (entered_bad blocks fit more marked), if_neg (show ¬ cmd = _ from fills),
    if_neg (fun read => skips (Or.inl read)), if_neg (fun write => skips (Or.inr write))]

theorem step_done {state : Rw} (empty : state.len = 0) :
    rwStep chip oob faults cmd state = .inr (0, state) := by
  rw [rwStep, if_pos empty]

/-- The bytes of good blocks from an address, as the driver sees the blocks. -/
abbrev goodFrom (chip : NandChip) (oob : Oob) (start : Nat) : Nat :=
  goodBytes chip.erasesize chip.totlen (goodBlock chip oob) start

/-- The bytes that a transfer which skips bad blocks can move before the end of the chip. -/
abbrev roomFrom (chip : NandChip) (oob : Oob) (start : Nat) : Nat :=
  room chip.erasesize chip.totlen (goodBlock chip oob) start

/-- A piece of a good block, for the sums of good bytes. -/
theorem piece_facts {state : Rw} (blocks : chip.erasesize ≠ 0) (more : 0 < state.len)
    (usable : goodBlock chip oob (state.start / chip.erasesize) = true) :
    0 < piece chip state ∧ state.start % chip.erasesize + piece chip state ≤ chip.erasesize ∧
      state.start + piece chip state ≤ chip.totlen := by
  have inside := good_inside blocks usable
  have short := Nat.mod_lt state.start (Nat.pos_of_ne_zero blocks)
  have whole := Nat.div_add_mod state.start chip.erasesize
  rw [Nat.mul_comm] at whole
  rw [Nat.succ_mul] at inside
  unfold piece
  omega

/-- The loop ends, having touched only good blocks from where it stands. -/
def EndsWell (chip : NandChip) (oob : Oob) (faults : Faults) (cmd : BitVec 32) (state : Rw)
    (allowed : Int → Prop) : Prop :=
  ∃ ret last, Ends (rwStep chip oob faults cmd) state (ret, last) ∧
    Grown chip oob state.start state.touched last.touched ∧ allowed ret

theorem ends_well_step {state next : Rw} {allowed : Int → Prop}
    (goes : rwStep chip oob faults cmd state = .inl next) (order : state.start ≤ next.start)
    (grown : Grown chip oob state.start state.touched next.touched)
    (rest : EndsWell chip oob faults cmd next allowed) :
    EndsWell chip oob faults cmd state allowed := by
  obtain ⟨ret, last, ended, later, holds⟩ := rest
  exact ⟨ret, last, ends_step goes ended, grown_trans grown order later, holds⟩

theorem ends_well_done {state : Rw} {allowed : Int → Prop} (empty : state.len = 0)
    (fine : allowed 0) : EndsWell chip oob faults cmd state allowed :=
  ⟨0, state, ends_done (step_done empty), grown_refl _ _, fine⟩

/-- The next block of a block that starts on the chip is below the wrap. -/
theorem skip_low {addr : Nat} (blocks : chip.erasesize ≠ 0) (inside : addr < chip.totlen) :
    addr + chip.erasesize < 2 ^ 32 := by
  obtain ⟨-, -, -, pieces, length⟩ := erasesize_facts blocks
  obtain ⟨count, -, wraps⟩ := wrap_blocks blocks
  have sized := chip.sized
  have positive := Nat.pos_of_ne_zero blocks
  rw [length] at inside
  rw [length, wraps] at sized
  have fewer : pieces + 1 ≤ count := Nat.lt_of_mul_lt_mul_left sized
  calc addr + chip.erasesize < chip.erasesize * pieces + chip.erasesize := by omega
    _ = chip.erasesize * (pieces + 1) := (Nat.mul_succ _ _).symm
    _ ≤ chip.erasesize * count := Nat.mul_le_mul_left _ fewer
    _ = 2 ^ 32 := wraps.symm

/-- Where the blocks to the end of the chip suffice, a transfer that skips bad blocks stays there. -/
theorem skips_fit (faults : Faults) {state : Rw} (blocks : chip.erasesize ≠ 0) (skips : Skips cmd)
    (fit : Fit chip oob state) (enough : state.len ≤ roomFrom chip oob state.start) :
    EndsWell chip oob faults cmd state fun _ => True := by
  by_cases empty : state.len = 0
  · exact ends_well_done empty trivial
  · have more := Nat.pos_of_ne_zero empty
    have inside : state.start < chip.totlen := by
      by_contra behind
      rw [roomFrom, room_end (Nat.not_lt.mp behind)] at enough
      omega
    cases usable : goodBlock chip oob (state.start / chip.erasesize) with
    | false =>
        obtain ⟨next, goes, later, place, length, same⟩ :=
          step_skips faults blocks fit more usable skips
        rw [Nat.mod_eq_of_lt (skip_low blocks inside)] at place
        have positive := Nat.pos_of_ne_zero blocks
        have closer : chip.totlen - next.start < chip.totlen - state.start := by omega
        refine ends_well_step goes (by omega) (same ▸ grown_refl _ _) (skips_fit faults blocks skips later ?_)
        rw [length, place, roomFrom, ← room_bad positive usable]
        exact enough
    | true =>
        obtain ⟨positive, fits, low⟩ := piece_facts blocks more usable
        rcases step_good faults cmd blocks fit more usable with
          ⟨ret, last, leaves, -, -, grown⟩ | ⟨next, goes, later, place, length, grown, -⟩
        · exact ⟨ret, last, ends_done leaves, grown, trivial⟩
        · refine ends_well_step goes (by omega) grown (skips_fit faults blocks skips later ?_)
          rw [roomFrom, room_piece usable fits low positive] at enough
          rw [length, place, roomFrom]
          omega
termination_by chip.totlen - state.start

/-- Where they do not suffice, it fails on the way or leaves the chip. -/
theorem skips_leave (faults : Faults) {state : Rw} (blocks : chip.erasesize ≠ 0) (skips : Skips cmd)
    (fit : Fit chip oob state) (short : roomFrom chip oob state.start < state.len) :
    (faults ≠ noFaults ∧ EndsWell chip oob faults cmd state fun ret => ret ≠ 0) ∨
      ∃ last, Leads (rwStep chip oob faults cmd) state last ∧ Fit chip oob last ∧
        chip.totlen ≤ last.start ∧ last.len = state.len - roomFrom chip oob state.start ∧
        (last.start % chip.erasesize = 0 ∨
          roomFrom chip oob state.start = 0 ∧
            last.start % chip.erasesize = state.start % chip.erasesize) ∧
        Grown chip oob state.start state.touched last.touched := by
  have extent := Nat.pos_of_ne_zero blocks
  have more : 0 < state.len := by omega
  by_cases inside : state.start < chip.totlen
  · cases usable : goodBlock chip oob (state.start / chip.erasesize) with
    | false =>
        obtain ⟨next, goes, later, place, length, same⟩ :=
          step_skips faults blocks fit more usable skips
        rw [Nat.mod_eq_of_lt (skip_low blocks inside)] at place
        have grown : Grown chip oob state.start state.touched next.touched := same ▸ grown_refl _ _
        have rooms : roomFrom chip oob state.start = roomFrom chip oob next.start := by
          rw [roomFrom, room_bad extent usable, place]
        have offset : next.start % chip.erasesize = state.start % chip.erasesize := by
          rw [place, Nat.add_mod_right]
        have closer : chip.totlen - next.start < chip.totlen - state.start := by omega
        rcases skips_leave faults blocks skips later (by omega) with
          ⟨faulty, stopped⟩ | ⟨last, leads, ending, behind, left, aligned, added⟩
        · exact Or.inl ⟨faulty, ends_well_step goes (by omega) grown stopped⟩
        · refine Or.inr ⟨last, leads_trans (leads_step goes) leads, ending, behind, by omega, ?_,
            grown_trans grown (by omega) added⟩
          rw [rooms, ← offset]
          exact aligned
    | true =>
        obtain ⟨positive, fits, low⟩ := piece_facts blocks more usable
        have rooms : roomFrom chip oob state.start =
            piece chip state + roomFrom chip oob (state.start + piece chip state) :=
          room_piece usable fits low positive
        rcases step_good faults cmd blocks fit more usable with
          ⟨ret, last, leaves, broken, faulty, grown⟩ | ⟨next, goes, later, place, length, grown, -⟩
        · exact Or.inl ⟨faulty, ret, last, ends_done leaves, grown, broken⟩
        · rw [← place] at rooms
          -- what is left is more than the rest of the block, so the piece ends with the block
          have whole : state.start % chip.erasesize + piece chip state = chip.erasesize := by
            unfold piece at rooms ⊢
            omega
          have offset : next.start % chip.erasesize = 0 := by
            rw [place, Nat.add_mod, ← Nat.mod_mod state.start, ← Nat.add_mod, whole, Nat.mod_self]
          rcases skips_leave faults blocks skips later (by omega) with
            ⟨faulty, stopped⟩ | ⟨last, leads, ending, behind, left, aligned, added⟩
          · exact Or.inl ⟨faulty, ends_well_step goes (by omega) grown stopped⟩
          · refine Or.inr ⟨last, leads_trans (leads_step goes) leads, ending, behind, by omega,
              Or.inl ?_, grown_trans grown (by omega) added⟩
            rcases aligned with zero | ⟨-, same⟩
            · exact zero
            · rw [same, offset]
  · have behind := Nat.not_lt.mp inside
    have none : roomFrom chip oob state.start = 0 := room_end behind
    exact Or.inr ⟨state, leads_refl state, fit, behind, by omega, Or.inr ⟨none, rfl⟩,
      grown_refl _ _⟩
termination_by chip.totlen - state.start

/-- Behind the chip every block is skipped, and the address wraps to the first block. -/
theorem skips_wrap (faults : Faults) {state : Rw} (blocks : chip.erasesize ≠ 0) (skips : Skips cmd)
    (fit : Fit chip oob state) (more : 0 < state.len) (behind : chip.totlen ≤ state.start) :
    ∃ last, Leads (rwStep chip oob faults cmd) state last ∧ Fit chip oob last ∧
      last.start = state.start % chip.erasesize ∧ last.len = state.len ∧
      last.touched = state.touched := by
  have extent := Nat.pos_of_ne_zero blocks
  have bound := fit.start
  obtain ⟨next, goes, later, place, length, same⟩ :=
    step_skips faults blocks fit more (bad_behind blocks behind) skips
  by_cases low : state.start + chip.erasesize < 2 ^ 32
  · rw [Nat.mod_eq_of_lt low] at place
    have closer : 2 ^ 32 - next.start < 2 ^ 32 - state.start := by omega
    obtain ⟨last, leads, ending, wrapped, left, kept⟩ :=
      skips_wrap faults blocks skips later (by omega) (by omega)
    refine ⟨last, leads_trans (leads_step goes) leads, ending, ?_, by omega, kept.trans same⟩
    rw [wrapped, place, Nat.add_mod_right]
  · refine ⟨next, leads_step goes, later, ?_, length, same⟩
    obtain ⟨count, -, wraps⟩ := wrap_blocks blocks
    rw [place]
    have small : (state.start + chip.erasesize) % 2 ^ 32 < chip.erasesize := by
      have narrow := erasesize_small blocks
      omega
    rw [← Nat.mod_eq_of_lt small, wraps, Nat.mod_mul_right_mod, Nat.add_mod_right]
termination_by 2 ^ 32 - state.start

/-- Nothing that was touched is forgotten. -/
theorem step_keeps {state : Rw} {access : Nat × Nat} (member : access ∈ state.touched) :
    (∀ next, rwStep chip oob faults cmd state = .inl next → access ∈ next.touched) ∧
      ∀ result, rwStep chip oob faults cmd state = .inr result → access ∈ result.2.touched := by
  have moved : ∀ entered : Rw, access ∈ entered.touched →
      (∀ next, transfer chip faults cmd entered = .inl next → access ∈ next.touched) ∧
        ∀ result, transfer chip faults cmd entered = .inr result → access ∈ result.2.touched := by
    intro entered early
    unfold transfer
    dsimp only
    constructor
    · intro next goes
      split at goes
      all_goals cases goes
      exact List.mem_append_left _ early
    · intro result leaves
      split at leaves
      all_goals cases leaves
      exact List.mem_append_left _ early
  unfold rwStep
  dsimp only
  split
  · constructor
    · intro next goes
      cases goes
    · intro result leaves
      cases leaves
      exact member
  · split
    · split
      · constructor
        · intro next goes
          cases goes
          exact member
        · intro result leaves
          cases leaves
      · split
        · constructor
          · intro next goes
            cases goes
            exact member
          · intro result leaves
            cases leaves
        · split
          · constructor
            · intro next goes
              cases goes
              exact member
            · intro result leaves
              cases leaves
          · constructor
            · intro next goes
              cases goes
            · intro result leaves
              cases leaves
              exact member
    · exact moved _ member

theorem ends_touched {state : Rw} {access : Nat × Nat} {result : Int × Rw}
    (member : access ∈ state.touched) (ended : Ends (rwStep chip oob faults cmd) state result) :
    access ∈ result.2.touched :=
  ends_keeps (fun state => access ∈ state.touched) (fun result => access ∈ result.2.touched)
    (fun _ next held goes => (step_keeps held).1 next goes)
    (fun _ result held leaves => (step_keeps held).2 result leaves) member ended

/-- Without faults the modes that skip or fill bad blocks report no error. -/
theorem ends_clean {state : Rw} {result : Int × Rw} (blocks : chip.erasesize ≠ 0)
    (mode : Skips cmd ∨ Fills cmd) (fit : Fit chip oob state)
    (ended : Ends (rwStep chip oob noFaults cmd) state result) : result.1 = 0 := by
  have round : ∀ state, Fit chip oob state →
      (∃ next, rwStep chip oob noFaults cmd state = .inl next ∧ Fit chip oob next) ∨
        rwStep chip oob noFaults cmd state = .inr (0, state) := by
    intro state fit
    by_cases empty : state.len = 0
    · exact Or.inr (step_done empty)
    · left
      have more := Nat.pos_of_ne_zero empty
      cases usable : goodBlock chip oob (state.start / chip.erasesize) with
      | false =>
          rcases mode with skips | fills
          · obtain ⟨next, goes, later, -⟩ :=
              step_skips noFaults blocks fit more usable skips
            exact ⟨next, goes, later⟩
          · obtain ⟨next, goes, later, -⟩ :=
              step_fills noFaults blocks fit more usable fills
            exact ⟨next, goes, later⟩
      | true =>
          rcases step_good noFaults cmd blocks fit more usable with
            ⟨ret, last, -, -, faulty, -⟩ | ⟨next, goes, later, -⟩
          · exact absurd rfl faulty
          · exact ⟨next, goes, later⟩
  refine ends_keeps (Fit chip oob) (fun result => result.1 = 0) ?_ ?_ fit ended
  · intro state next fit body
    rcases round state fit with ⟨other, goes, later⟩ | leaves
    · rw [goes] at body
      cases body
      exact later
    · rw [leaves] at body
      cases body
  · intro state result fit body
    rcases round state fit with ⟨other, goes, later⟩ | leaves
    · rw [goes] at body
      cases body
    · rw [leaves] at body
      cases body
      rfl

/-- From the start of a block the loop comes to the next good block, and touches its first page. -/
theorem reaches_good {state : Rw} {block : Nat} (blocks : chip.erasesize ≠ 0) (skips : Skips cmd)
    (fit : Fit chip oob state) (more : 0 < state.len) (aligned : state.start % chip.erasesize = 0)
    (usable : goodBlock chip oob block = true) (order : state.start / chip.erasesize ≤ block) :
    ∃ last, Leads (rwStep chip oob noFaults cmd) state last ∧ ∃ access ∈ last.touched,
      access.1 * chip.oobblock + access.2 ≤ block * chip.erasesize := by
  have extent := Nat.pos_of_ne_zero blocks
  have whole := Nat.div_add_mod state.start chip.erasesize
  rw [Nat.mul_comm, aligned] at whole
  have place := Nat.mul_le_mul_right chip.erasesize order
  cases here : goodBlock chip oob (state.start / chip.erasesize) with
  | true =>
      rcases step_good noFaults cmd blocks fit more here with
        ⟨ret, last, -, -, faulty, -⟩ | ⟨next, goes, -, -, -, -, first⟩
      · exact absurd rfl faulty
      · refine ⟨next, leads_step goes, _, first rfl, ?_⟩
        dsimp only
        rw [page_place]
        omega
  | false =>
      have differs : state.start / chip.erasesize ≠ block := by
        intro same
        rw [same, usable] at here
        cases here
      have inside := good_inside blocks usable
      have low : state.start + chip.erasesize < 2 ^ 32 := by
        apply skip_low blocks
        have below : state.start / chip.erasesize * chip.erasesize < (block + 1) * chip.erasesize :=
          Nat.mul_lt_mul_of_pos_right (by omega) extent
        omega
      obtain ⟨next, goes, later, place, length, -⟩ :=
        step_skips noFaults blocks fit more here skips
      rw [Nat.mod_eq_of_lt low] at place
      have index : next.start / chip.erasesize = state.start / chip.erasesize + 1 := by
        rw [place, next_index blocks]
      have closer : block - next.start / chip.erasesize < block - state.start / chip.erasesize := by
        omega
      obtain ⟨last, leads, touched⟩ := reaches_good blocks skips later (by omega)
        (by rw [place, Nat.add_mod_right, aligned]) usable (by omega)
      exact ⟨last, leads_trans (leads_step goes) leads, touched⟩
termination_by block - state.start / chip.erasesize

/-- A transfer that fails on bad blocks ends, and without an error only if the blocks suffice. -/
theorem refuses_ends (faults : Faults) {state : Rw} (blocks : chip.erasesize ≠ 0) (fills : ¬ Fills cmd)
    (skips : ¬ Skips cmd) (fit : Fit chip oob state) :
    EndsWell chip oob faults cmd state fun ret =>
      goodFrom chip oob state.start < state.len → ret ≠ 0 := by
  by_cases empty : state.len = 0
  · exact ends_well_done empty fun short => by omega
  · have more := Nat.pos_of_ne_zero empty
    cases usable : goodBlock chip oob (state.start / chip.erasesize) with
    | false =>
        obtain ⟨last, leaves, same⟩ := step_refuses faults blocks fit more usable fills skips
        exact ⟨1, last, ends_done leaves, same ▸ grown_refl _ _, fun _ => by decide⟩
    | true =>
        obtain ⟨positive, fits, low⟩ := piece_facts blocks more usable
        rcases step_good faults cmd blocks fit more usable with
          ⟨ret, last, leaves, broken, -, grown⟩ | ⟨next, goes, later, place, length, grown, -⟩
        · exact ⟨ret, last, ends_done leaves, grown, fun _ => broken⟩
        · have closer : next.len < state.len := by omega
          refine ends_well_step goes (by omega) grown ?_
          obtain ⟨ret, last, ended, added, holds⟩ := refuses_ends faults blocks fills skips later
          refine ⟨ret, last, ended, added, fun short => holds ?_⟩
          rw [goodFrom, good_bytes_piece usable fits low] at short
          rw [goodFrom, place]
          omega
termination_by state.len

/-- A read that fills bad blocks ends, and stays on the chip if the request does. -/
theorem fills_ends (faults : Faults) {state : Rw} (blocks : chip.erasesize ≠ 0) (fills : Fills cmd)
    (fit : Fit chip oob state) (inside : state.start + state.len ≤ chip.totlen) :
    EndsWell chip oob faults cmd state fun _ => True := by
  by_cases empty : state.len = 0
  · exact ends_well_done empty trivial
  · have more := Nat.pos_of_ne_zero empty
    have short := Nat.mod_lt state.start (Nat.pos_of_ne_zero blocks)
    have sized := chip.sized
    have positive : 0 < piece chip state := by
      unfold piece
      omega
    have part : piece chip state ≤ state.len := Nat.min_le_left _ _
    cases usable : goodBlock chip oob (state.start / chip.erasesize) with
    | false =>
        obtain ⟨next, goes, later, place, length, same⟩ :=
          step_fills faults blocks fit more usable fills
        rw [Nat.mod_eq_of_lt (by omega)] at place
        have closer : next.len < state.len := by omega
        exact ends_well_step goes (by omega) (same ▸ grown_refl _ _)
          (fills_ends faults blocks fills later (by omega))
    | true =>
        rcases step_good faults cmd blocks fit more usable with
          ⟨ret, last, leaves, -, -, grown⟩ | ⟨next, goes, later, place, length, grown, -⟩
        · exact ⟨ret, last, ends_done leaves, grown, trivial⟩
        · have closer : next.len < state.len := by omega
          exact ends_well_step goes (by omega) grown (fills_ends faults blocks fills later (by omega))
termination_by state.len

/-- The blocks to the end of the chip suffice for a transfer that skips bad blocks: either from
where the transfer really begins, or, when no good block begins before `start`, from `start`. -/
def SkipsEnough (chip : NandChip) (oob : Oob) (start len : Nat) : Prop :=
  len ≤ roomFrom chip oob start ∨
    (∀ block, block * chip.erasesize < start → goodBlock chip oob block = false) ∧
      len ≤ goodFrom chip oob start

/-- Nothing of a run was there before it, so all that was touched is on the chip. -/
theorem run_on_chip {start later len : Nat} {touched : List (Nat × Nat)}
    (blocks : chip.erasesize ≠ 0)
    (grown : Grown chip oob later (firstRound start len).touched touched) (order : start ≤ later) :
    ∀ access ∈ touched, OnChip chip start access := by
  intro access member
  rcases grown.fresh access member with before | within
  · cases before
  · obtain ⟨place, column, usable⟩ := within
    exact within_on_chip blocks ⟨order.trans place, column, usable⟩

/-- A transfer that has not enough room, though there are enough good bytes, goes round the chip. -/
theorem skips_round (faults : Faults) {start len : Nat} (blocks : chip.erasesize ≠ 0)
    (skips : Skips cmd) (bound : start < 2 ^ 32) (short : roomFrom chip oob start < len)
    (enough : len ≤ goodFrom chip oob start) :
    (faults ≠ noFaults ∧
        EndsWell chip oob faults cmd (firstRound start len) fun ret => ret ≠ 0) ∨
      ∃ wrapped, Leads (rwStep chip oob faults cmd) (firstRound start len) wrapped ∧
        Fit chip oob wrapped ∧ wrapped.start = 0 ∧
        wrapped.len = len - roomFrom chip oob start ∧
        Grown chip oob start (firstRound start len).touched wrapped.touched := by
  have extent := Nat.pos_of_ne_zero blocks
  obtain ⟨-, -, -, whole⟩ := erasesize_facts blocks
  have fit : Fit chip oob (firstRound start len) := fit_first blocks bound
  rcases skips_leave faults blocks skips fit short with
    stopped | ⟨last, leads, ending, behind, left, aligned, grown⟩
  · exact Or.inl stopped
  · have rest : last.len = len - roomFrom chip oob start := left
    have begun : last.start % chip.erasesize = 0 := by
      rcases aligned with zero | ⟨none, -⟩
      · exact zero
      · have empty : goodFrom chip oob start = 0 :=
          good_bytes_none fun addr after before => room_zero extent whole none after before
        have nothing : roomFrom chip oob start = 0 := none
        omega
    obtain ⟨wrapped, round, again, zero, same, kept⟩ :=
      skips_wrap faults blocks skips ending (by omega) behind
    exact Or.inr ⟨wrapped, leads_trans leads round, again, by rw [zero, begun], same.trans rest,
      kept.symm ▸ grown⟩

/-- A transfer that begins in a bad block behind only bad blocks goes round the chip once. -/
theorem skips_again {start len : Nat} (blocks : chip.erasesize ≠ 0) (skips : Skips cmd)
    (bound : start < 2 ^ 32)
    (lowest : ∀ block, block * chip.erasesize < start → goodBlock chip oob block = false)
    (short : roomFrom chip oob start < len) (enough : len ≤ goodFrom chip oob start) :
    ∃ ret last, nandLegacyRw chip oob faults cmd start len (ret, last) ∧
      ∀ access ∈ last.touched, OnChip chip start access := by
  rcases skips_round faults blocks skips bound short enough with
    ⟨-, ret, last, ended, grown, -⟩ | ⟨wrapped, leads, again, origin, rest, grown⟩
  · exact ⟨ret, last, ended, run_on_chip blocks grown le_rfl⟩
  · have all : roomFrom chip oob 0 = goodFrom chip oob 0 :=
      room_aligned (Nat.pos_of_ne_zero blocks) (Nat.zero_mod _)
    have more : goodFrom chip oob start ≤ goodFrom chip oob 0 := good_bytes_mono (Nat.zero_le _)
    have fits : wrapped.len ≤ roomFrom chip oob wrapped.start := by
      rw [rest, origin, all]
      omega
    obtain ⟨ret, final, ended, added, -⟩ := skips_fit faults blocks skips again fits
    refine ⟨ret, final, ends_leads leads ended, ?_⟩
    intro access member
    rcases added.fresh access member with before | ⟨-, column, usable⟩
    · exact run_on_chip blocks grown le_rfl access before
    · refine within_on_chip blocks ⟨?_, column, usable⟩
      by_contra outside
      rw [lowest _ (lt_of_le_of_lt (Nat.div_mul_le_self _ _) (Nat.not_le.mp outside))] at usable
      cases usable

theorem skips_bounded_iff {start len : Nat} (blocks : chip.erasesize ≠ 0) (skips : Skips cmd)
    (bound : start < 2 ^ 32) : Bounded chip oob cmd start len ↔ SkipsEnough chip oob start len := by
  have fit : Fit chip oob (firstRound start len) := fit_first blocks bound
  have supplied : supply chip oob cmd start = goodFrom chip oob start := by
    rw [supply, if_neg]
    rintro rfl
    revert skips
    decide
  unfold Bounded
  rw [supplied]
  constructor
  · intro law
    obtain ⟨ret, last, ended, places, error⟩ := law noFaults
    have clean : ret = 0 := ends_clean blocks (Or.inl skips) fit ended
    have enough : len ≤ goodFrom chip oob start := by
      by_contra short
      exact error (Nat.not_le.mp short) clean
    by_cases first : len ≤ roomFrom chip oob start
    · exact Or.inl first
    · refine Or.inr ⟨?_, enough⟩
      intro block before
      cases usable : goodBlock chip oob block with
      | false => rfl
      | true =>
          -- the run leaves the chip, wraps to address 0 and comes to this block
          exfalso
          rcases skips_round noFaults blocks skips bound (Nat.not_le.mp first) enough with
            ⟨faulty, -⟩ | ⟨wrapped, leads, again, origin, rest, -⟩
          · exact faulty rfl
          · have order : wrapped.start / chip.erasesize ≤ block := by
              rw [origin, Nat.zero_div]
              exact Nat.zero_le _
            obtain ⟨there, comes, access, member, low⟩ := reaches_good blocks skips again
              (by omega) (by rw [origin, Nat.zero_mod]) usable order
            have final := ends_touched member (leads_ends (leads_trans leads comes) ended)
            have place := (places access final).1
            omega
  · intro enough faults
    have less : roomFrom chip oob start ≤ goodFrom chip oob start :=
      room_le (Nat.pos_of_ne_zero blocks) start
    have all : len ≤ goodFrom chip oob start := by
      rcases enough with first | ⟨-, all⟩
      · exact first.trans less
      · exact all
    by_cases first : len ≤ roomFrom chip oob start
    · obtain ⟨ret, last, ended, grown, -⟩ := skips_fit faults blocks skips fit first
      exact ⟨ret, last, ended, run_on_chip blocks grown le_rfl,
        fun short => absurd all (Nat.not_le.mpr short)⟩
    · obtain ⟨lowest, -⟩ := enough.resolve_left first
      obtain ⟨ret, last, ended, places⟩ := skips_again blocks skips bound lowest
        (Nat.not_le.mp first) all
      exact ⟨ret, last, ended, places, fun short => absurd all (Nat.not_le.mpr short)⟩

theorem fills_bounded_iff {start len : Nat} (blocks : chip.erasesize ≠ 0) (fills : Fills cmd)
    (bound : start < 2 ^ 32) :
    Bounded chip oob cmd start len ↔ len = 0 ∨ start + len ≤ chip.totlen := by
  have fit : Fit chip oob (firstRound start len) := fit_first blocks bound
  unfold Bounded
  rw [supply, if_pos fills]
  constructor
  · intro law
    obtain ⟨ret, last, ended, -, error⟩ := law noFaults
    have clean : ret = 0 := ends_clean blocks (Or.inr fills) fit ended
    by_contra outside
    exact error (by omega) clean
  · intro enough faults
    rcases enough with rfl | inside
    · refine ⟨0, firstRound start 0, ends_done (step_done rfl), ?_, fun short => by omega⟩
      intro access member
      cases member
    · obtain ⟨ret, last, ended, grown, -⟩ := fills_ends faults blocks fills fit inside
      exact ⟨ret, last, ended, run_on_chip blocks grown le_rfl, fun short => by omega⟩

theorem refuses_bounded {start len : Nat} (blocks : chip.erasesize ≠ 0) (fills : ¬ Fills cmd)
    (skips : ¬ Skips cmd) (bound : start < 2 ^ 32) : Bounded chip oob cmd start len := by
  intro faults
  have fit : Fit chip oob (firstRound start len) := fit_first blocks bound
  obtain ⟨ret, last, ended, grown, holds⟩ := refuses_ends faults blocks fills skips fit
  refine ⟨ret, last, ended, run_on_chip blocks grown le_rfl, ?_⟩
  rw [supply, if_neg fills]
  exact holds

end Blocks

section NoBlocks
variable {chip : NandChip} {oob : Oob} {faults : Faults} {cmd : BitVec 32}

/-- A chip without an erase size: everything is its one block, and the rest of that block is what
is left of the 32-bit addresses. -/
def WholeEnough (chip : NandChip) (oob : Oob) (cmd : BitVec 32) (start len : Nat) : Prop :=
  len = 0 ∨ (¬ Fills cmd ∧ ¬ Skips cmd ∧ checkBlock chip oob 0 = true) ∨
    (start ≠ 0 ∧ start + len < 2 ^ 32 ∧
      (Skips cmd → checkBlock chip oob 0 = true → chip.totlen < start + len))

theorem block_of_zero (whole : chip.erasesize = 0) (addr : Nat) : blockOf chip addr = 0 := by
  rw [blockOf, whole, Nat.sub_zero, Nat.mod_self, Nat.and_zero]

/-- The state in the block, behind the check. -/
def enteredAt (start len : Nat) : Rw := { firstRound start len with eblk := 0 }

theorem step_whole {state : Rw} (whole : chip.erasesize = 0) (more : 0 < state.len)
    (known : state.eblk = 0) : rwStep chip oob faults cmd state = transfer chip faults cmd state := by
  have same : { state with eblk := 0 } = state := by
    rw [← known]
  rw [rwStep, if_neg (by omega)]
  simp only [block_of_zero whole, known, ne_eq, not_true_eq_false, false_and, if_false, same]

/-- Only the first round looks at the bad block mark. A bad block that is skipped or filled leaves
the state as it is, and the next round transfers from it. -/
theorem ends_whole {start len : Nat} (whole : chip.erasesize = 0) (more : 0 < len)
    (bound : start < 2 ^ 32)
    (passes : checkBlock chip oob 0 = true → Fills cmd ∨ Skips cmd) (result : Int × Rw) :
    Ends (rwStep chip oob faults cmd) (firstRound start len) result ↔
      Ends (rwStep chip oob faults cmd) (enteredAt start len) result := by
  have differs : (0 : Nat) ≠ (firstRound start len).eblk := by
    intro same
    cases same
  have left : ¬ (firstRound start len).len = 0 := Nat.ne_of_gt more
  cases marked : checkBlock chip oob 0 with
  | false =>
      have later : rwStep chip oob faults cmd (enteredAt start len) =
          transfer chip faults cmd (enteredAt start len) := step_whole whole more rfl
      apply ends_same
      rw [later, rwStep, if_neg left]
      simp only [block_of_zero whole, marked, Bool.false_eq_true, and_false, if_false]
      rfl
  | true =>
      have unfilled : fillBad chip 0 len start 0 = (start, len, 0) := by
        obtain ⟨rest, rfl⟩ := Nat.exists_eq_succ_of_ne_zero (Nat.ne_of_gt more)
        rw [fillBad, whole, if_neg (Nat.not_lt_zero _)]
      have round : rwStep chip oob faults cmd (firstRound start len) =
          .inl (enteredAt start len) := by
        rw [rwStep, if_neg left]
        simp only [block_of_zero whole, marked, and_true, if_pos differs]
        by_cases fills : cmd = NANDRW_READ ||| NANDRW_JFFS2
        · rw [if_pos fills]
          change Sum.inl { firstRound start len with
            eblk := 0, start := (fillBad chip 0 len start 0).1
            len := (fillBad chip 0 len start 0).2.1
            total := (fillBad chip 0 len start 0).2.2 } = _
          rw [unfilled]
          rfl
        · have kept : ((firstRound start len).start + chip.erasesize) % 2 ^ 32 = start := by
            rw [whole]
            exact Nat.mod_eq_of_lt bound
          rw [if_neg fills, kept]
          by_cases read : cmd = NANDRW_READ ||| NANDRW_JFFS2 ||| NANDRW_JFFS2_SKIP
          · rw [if_pos read]
            rfl
          · rw [if_neg read, if_pos (((passes marked).resolve_left fills).resolve_left read)]
            rfl
      exact ⟨leads_ends (leads_step round), ends_step round⟩

theorem piece_whole {state : Rw} (whole : chip.erasesize = 0) (known : state.eblk = 0)
    (bound : state.start < 2 ^ 32) :
    pieceOf chip state = if state.start = 0 then 0 else min state.len (2 ^ 32 - state.start) := by
  rw [pieceOf, known, whole, Nat.add_zero, Nat.zero_add]
  by_cases first : state.start = 0
  · rw [if_pos first, first, Nat.sub_zero, Nat.mod_self, Nat.min_zero]
  · rw [if_neg first, Nat.mod_eq_of_lt (by omega)]

/-- From address 0 the piece is empty, and so is what each round moves. -/
theorem whole_never_ends {state : Rw} (whole : chip.erasesize = 0) (more : 0 < state.len)
    (known : state.eblk = 0) (first : state.start = 0) (result : Int × Rw) :
    ¬ Ends (rwStep chip oob noFaults cmd) state result := by
  refine never_ends (fun state : Rw => 0 < state.len ∧ state.eblk = 0 ∧ state.start = 0) ?_
    ⟨more, known, first⟩ result
  rintro state ⟨more, known, first⟩
  have empty : pieceOf chip state = 0 := by
    rw [piece_whole whole known (by omega), if_pos first]
  have inside : (state.start + pieceOf chip state) % 2 ^ 32 ≤ chip.totlen := by
    rw [first, empty, Nat.zero_mod]
    exact Nat.zero_le _
  have clean := (move_complete chip cmd inside).ret
  have moved := (move_served chip noFaults cmd state).done clean
  have round : rwStep chip oob noFaults cmd state = .inl { state with
      calls := state.calls + 1
      touched := state.touched ++ (movePiece chip noFaults cmd state).touched
      start := (state.start + 0) % 2 ^ 32, total := state.total + 0, len := state.len - 0 } := by
    rw [step_whole whole more known, transfer]
    simp only [if_neg (not_not.mpr clean), moved, empty]
  refine ⟨_, round, more, known, ?_⟩
  dsimp only
  rw [first, Nat.zero_mod]

theorem supply_whole_le (start : Nat) : supply chip oob cmd start ≤ chip.totlen - start := by
  unfold supply
  split
  · exact le_rfl
  · exact good_bytes_le start

theorem whole_refuses {start len : Nat} (whole : chip.erasesize = 0) (more : 0 < len)
    (refused : ¬ Fills cmd ∧ ¬ Skips cmd ∧ checkBlock chip oob 0 = true) :
    ∃ ret last, nandLegacyRw chip oob faults cmd start len (ret, last) ∧
      (∀ access ∈ last.touched, OnChip chip start access) ∧
      (supply chip oob cmd start < len → ret ≠ 0) := by
  obtain ⟨fills, skips, marked⟩ := refused
  have left : ¬ (firstRound start len).len = 0 := Nat.ne_of_gt more
  have differs : (0 : Nat) ≠ (firstRound start len).eblk := by
    intro same
    cases same
  have round : rwStep chip oob faults cmd (firstRound start len) =
      .inr (1, enteredAt start len) := by
    rw [rwStep, if_neg left]
    simp only [block_of_zero whole, marked, and_true, if_pos differs,
      if_neg (show ¬ cmd = _ from fills), if_neg (fun read => skips (Or.inl read)),
      if_neg (fun write => skips (Or.inr write))]
    rfl
  refine ⟨1, enteredAt start len, ends_done round, ?_, fun _ => by decide⟩
  intro access member
  cases member

/-- The only transfer from an address behind the first: it fails, or it moves the piece. -/
theorem whole_transfer {start len : Nat} (whole : chip.erasesize = 0) (more : 0 < len)
    (bound : start < 2 ^ 32) (first : start ≠ 0) :
    ∃ moved, Served chip start (min len (2 ^ 32 - start)) moved ∧
      (faults = noFaults → (start + min len (2 ^ 32 - start)) % 2 ^ 32 ≤ chip.totlen →
        moved.ret = 0) ∧
      (chip.totlen < (start + min len (2 ^ 32 - start)) % 2 ^ 32 → moved = ⟨-1, 0, []⟩) ∧
      rwStep chip oob faults cmd (enteredAt start len) =
        if moved.ret ≠ 0 then
          .inr (moved.ret, { enteredAt start len with calls := 1, touched := moved.touched })
        else .inl { enteredAt start len with
          calls := 1, touched := moved.touched
          start := (start + moved.retlen) % 2 ^ 32, total := 0 + moved.retlen
          len := len - moved.retlen } := by
  have length : pieceOf chip (enteredAt start len) = min len (2 ^ 32 - start) := by
    rw [piece_whole whole rfl bound]
    exact if_neg first
  refine ⟨movePiece chip faults cmd (enteredAt start len), ?_, ?_, ?_, ?_⟩
  · rw [← length]
    exact move_served chip faults cmd (enteredAt start len)
  · rintro rfl inside
    rw [← length] at inside
    exact (@move_complete chip cmd (enteredAt start len) inside).ret
  · intro outside
    rw [← length] at outside
    exact @move_refused chip faults cmd (enteredAt start len) outside
  · rw [step_whole whole more rfl]
    rfl

theorem whole_bounded_iff {start len : Nat} (whole : chip.erasesize = 0) (bound : start < 2 ^ 32)
    (count : len < 2 ^ 32) :
    Bounded chip oob cmd start len ↔ WholeEnough chip oob cmd start len := by
  by_cases empty : len = 0
  · subst empty
    refine ⟨fun _ => Or.inl rfl, fun _ faults => ?_⟩
    refine ⟨0, firstRound start 0, ends_done (step_done rfl), ?_, fun short => by omega⟩
    intro access member
    cases member
  have more := Nat.pos_of_ne_zero empty
  by_cases refused : ¬ Fills cmd ∧ ¬ Skips cmd ∧ checkBlock chip oob 0 = true
  · exact ⟨fun _ => Or.inr (Or.inl refused), fun _ faults => whole_refuses whole more refused⟩
  have passes : checkBlock chip oob 0 = true → Fills cmd ∨ Skips cmd := by
    intro marked
    by_contra neither
    rw [not_or] at neither
    exact refused ⟨neither.1, neither.2, marked⟩
  have sized := chip.sized
  constructor
  · intro law
    obtain ⟨ret, last, ended, -, error⟩ := law noFaults
    have begun := (ends_whole whole more bound passes _).mp ended
    have first : start ≠ 0 := fun zero => whole_never_ends whole more rfl zero _ begun
    obtain ⟨moved, served, clean, -, round⟩ := @whole_transfer chip oob noFaults cmd start len whole
      more bound first
    have most : supply chip oob cmd start ≤ chip.totlen - start := supply_whole_le start
    have finished : (start + min len (2 ^ 32 - start)) % 2 ^ 32 ≤ chip.totlen →
        len ≤ 2 ^ 32 - start → ret = 0 := by
      intro inside low
      have fine := clean rfl inside
      rw [if_neg (not_not.mpr fine), served.done fine] at round
      have rest := leads_ends (leads_step round) begun
      have closed := ends_unique rest (ends_done (step_done (by dsimp only; omega)))
      exact congrArg Prod.fst closed
    refine Or.inr (Or.inr ⟨first, ?_, ?_⟩)
    · by_contra high
      have wraps : (start + min len (2 ^ 32 - start)) % 2 ^ 32 = 0 := by omega
      by_cases exactly : len ≤ 2 ^ 32 - start
      · exact error (by omega) (finished (by omega) exactly)
      · have fine := clean rfl (by omega)
        rw [if_neg (not_not.mpr fine), served.done fine, wraps] at round
        exact whole_never_ends whole (by dsimp only; omega) rfl rfl _
          (leads_ends (leads_step round) begun)
    · intro skips marked
      by_contra inside
      have none : supply chip oob cmd start = 0 := by
        rw [supply, if_neg]
        · refine good_bytes_none fun addr _ _ => ?_
          rw [goodBlock, whole, Nat.mul_zero, marked]
          rfl
        · rintro rfl
          revert skips
          decide
      exact error (by omega) (finished (by omega) (by omega))
  · rintro (none | holds | ⟨first, low, marks⟩) faults
    · exact absurd none empty
    · exact absurd holds refused
    · obtain ⟨moved, served, -, refuse, round⟩ := @whole_transfer chip oob faults cmd start len whole
        more bound first
      have count : min len (2 ^ 32 - start) = len := by omega
      rw [count] at served refuse
      by_cases inside : start + len ≤ chip.totlen
      · have places : ∀ access ∈ moved.touched, OnChip chip start access := by
          intro access member
          obtain ⟨place, before, -⟩ := served.inside access member
          exact on_chip place (by omega)
        by_cases fine : moved.ret = 0
        · rw [if_neg (not_not.mpr fine), served.done fine] at round
          refine ⟨0, _, (ends_whole whole more bound passes _).mpr
            (ends_step round (ends_done (step_done (Nat.sub_self len)))), places, ?_⟩
          intro short
          exfalso
          have all : supply chip oob cmd start = chip.totlen - start := by
            unfold supply
            split
            · rfl
            · rename_i fills
              cases marked : checkBlock chip oob 0 with
              | true =>
                  have behind := marks ((passes marked).resolve_left fills) marked
                  omega
              | false =>
                  rw [goodBytes, Finset.filter_true_of_mem, Nat.card_Ico]
                  intro addr _
                  rw [goodBlock, whole, Nat.mul_zero, marked]
                  rfl
          omega
        · rw [if_pos fine] at round
          exact ⟨moved.ret, _, (ends_whole whole more bound passes _).mpr (ends_done round), places,
            fun _ => fine⟩
      · rw [refuse (by omega), if_pos (show ((-1 : Int)) ≠ 0 by decide)] at round
        refine ⟨-1, _, (ends_whole whole more bound passes _).mpr (ends_done round), ?_,
          fun _ => by decide⟩
        intro access member
        cases member

end NoBlocks

/-- The condition on the request under which nand_legacy_rw stays on the chip: in the modes that
skip bad blocks there is enough room behind `start`, a read that fills bad blocks ends on the chip,
and the other modes need nothing. -/
def Suffices (chip : NandChip) (oob : Oob) (cmd : BitVec 32) (start len : Nat) : Prop :=
  if chip.erasesize = 0 then WholeEnough chip oob cmd start len
  else if Fills cmd then len = 0 ∨ start + len ≤ chip.totlen
  else if Skips cmd then SkipsEnough chip oob start len
  else True

theorem nand_legacy_rw_bounded_iff (chip : NandChip) (oob : Oob) (cmd : BitVec 32)
    (start len : BitVec 32) :
    Bounded chip oob cmd start.toNat len.toNat ↔ Suffices chip oob cmd start.toNat len.toNat := by
  have bound := start.isLt
  unfold Suffices
  by_cases whole : chip.erasesize = 0
  · rw [if_pos whole]
    exact whole_bounded_iff whole bound len.isLt
  · rw [if_neg whole]
    by_cases fills : Fills cmd
    · rw [if_pos fills]
      exact fills_bounded_iff whole fills bound
    · rw [if_neg fills]
      by_cases skips : Skips cmd
      · rw [if_pos skips]
        exact skips_bounded_iff whole skips bound
      · rw [if_neg skips]
        exact iff_of_true (refuses_bounded whole fills skips bound) trivial

/-- A chip of the table, with the bad block mark where the JFFS2 layout has it. -/
def tc58v32 : NandChip where
  totlen := 0x400000
  erasesize := 0x2000
  oobblock := 512
  bus16 := false
  badblockPos := 5
  sized := Nat.le_of_ble_eq_true rfl
  page := Nat.le_of_ble_eq_true rfl
  pages := ⟨0x2000, rfl⟩
  blocks := Or.inr ⟨⟨13, Nat.le_of_ble_eq_true rfl, rfl⟩, Nat.le_of_ble_eq_true rfl, ⟨16, rfl⟩,
    ⟨512, rfl⟩⟩

/-- Only the last block is marked. -/
def lastMarked : Oob := fun ofs _ => if ofs < 0x3fe000 then 0xff else 0x00

/-- A write to the bad last block that skips it goes on at address 0. -/
theorem last_block_unbounded :
    ¬ Bounded tc58v32 lastMarked (NANDRW_WRITE ||| NANDRW_JFFS2) 0x3fe000 0x2000 := by
  rw [skips_bounded_iff (by decide) (Or.inr rfl) (by decide)]
  rintro (fits | ⟨lowest, -⟩)
  · have none : roomFrom tc58v32 lastMarked 0x3fe000 = 0 := by
      rw [roomFrom, room_bad (by decide) (by decide +kernel)]
      exact room_end (by decide)
    omega
  · have first : goodBlock tc58v32 lastMarked 0 = true := by decide +kernel
    rw [lowest 0 (by decide)] at first
    cases first

end UBoot.Nand.LegacyBounds
