import UBoot.Nand.EraseCommand

/-!
The blocks that ath_nand_erase erases. Their number comes from the length alone, so that a range
that begins in the middle of a block may lose its last block; and the value that is returned is
never set when every block is skipped.
-/

namespace UBoot.Nand.EraseRange

open Library.PackedTable AthRwBuff AthBlocks EraseCommand

/-- The erase commands of the loop, with their results. -/
def eraseTrace (mtd : MtdInfo) : (count : Nat) → Driver → (i : Nat) → List (Nat × Bool)
  | 0, _, _ => []
  | count + 1, driver, i =>
      let (bad, driver) := athNandBlockIsbad mtd driver i
      if bad then eraseTrace mtd count driver ((i + mtd.erasesize) % 2 ^ 32)
      else
        let (ok, driver) := eraseBlock mtd driver i
        (i, ok) :: if ok then eraseTrace mtd count driver ((i + mtd.erasesize) % 2 ^ 32) else []

/-- What the loop meets: the check at an address says whether its block is `bad`, and the erase
command there does as `works` says. -/
def Answers (mtd : MtdInfo) (bad works : Nat → Bool) : (count : Nat) → Driver → (i : Nat) → Prop
  | 0, _, _ => True
  | count + 1, driver, i =>
      let (marked, driver) := athNandBlockIsbad mtd driver i
      marked = bad (i / mtd.erasesize) ∧
        if marked then Answers mtd bad works count driver ((i + mtd.erasesize) % 2 ^ 32)
        else
          let (ok, driver) := eraseBlock mtd driver i
          ok = works (i / mtd.erasesize) ∧
            (ok = true → Answers mtd bad works count driver ((i + mtd.erasesize) % 2 ^ 32))

def erasedAddr : Event → Option Nat
  | .erase addr => some addr
  | _ => none

/-- The blocks that have a byte in `[addr, addr + len)`. -/
def rangeBlocks (mtd : MtdInfo) (addr len : Nat) : List Nat :=
  if len = 0 then []
  else List.range' (addr / mtd.erasesize)
    ((addr + len - 1) / mtd.erasesize + 1 - addr / mtd.erasesize)

def goodBlocks (mtd : MtdInfo) (bad : Nat → Bool) (addr len : Nat) : List Nat :=
  (rangeBlocks mtd addr len).filter fun block => !bad block

/-- The value that is returned after some erase commands. -/
def valueOf (ret : Option Int) (trace : List (Nat × Bool)) : Option Int :=
  if trace.all Prod.snd then if trace.isEmpty then ret else some 0 else some 1

section Trace
variable {mtd : MtdInfo}

/-- The commands of the trace are the ones that are sent, and the value tells whether one failed; it
is the one before the loop when there is none. -/
theorem loop_trace (count : Nat) : ∀ driver i ret,
    (eraseLoop mtd count driver i ret).2.2.filterMap erasedAddr =
        (eraseTrace mtd count driver i).map Prod.fst ∧
      (eraseLoop mtd count driver i ret).1 = valueOf ret (eraseTrace mtd count driver i) := by
  induction count with
  | zero => exact fun _ _ _ => ⟨rfl, rfl⟩
  | succ count ih =>
      intro driver i ret
      rw [eraseLoop, eraseTrace]
      dsimp only
      cases (athNandBlockIsbad mtd driver i).1 with
      | true => exact ih _ _ ret
      | false =>
          obtain ⟨commands, value⟩ := ih
            (eraseBlock mtd (athNandBlockIsbad mtd driver i).2 i).2 ((i + mtd.erasesize) % 2 ^ 32)
            (some 0)
          cases (eraseBlock mtd (athNandBlockIsbad mtd driver i).2 i).1 with
          | false => exact ⟨rfl, rfl⟩
          | true =>
              refine ⟨congrArg (i :: ·) commands, value.trans ?_⟩
              simp only [valueOf, ite_self]
              rfl

/-- In the order of the blocks the good ones are erased, up to the first one that fails. -/
theorem trace_blocks {bad works : Nat → Bool} (count : Nat) : ∀ driver i,
    i + count * mtd.erasesize ≤ 2 ^ 32 → Answers mtd bad works count driver i →
      ∃ rest, (eraseTrace mtd count driver i).map (fun attempt => attempt.1 / mtd.erasesize) ++ rest =
          (List.range' (i / mtd.erasesize) count).filter (fun block => !bad block) ∧
        ((eraseTrace mtd count driver i).all Prod.snd = true → rest = []) ∧
        ((eraseTrace mtd count driver i).all Prod.snd = true ↔
          ∀ block ∈ (List.range' (i / mtd.erasesize) count).filter (fun block => !bad block),
            works block = true) := by
  induction count with
  | zero =>
      intro driver i _ _
      exact ⟨[], rfl, fun _ => rfl, fun _ block member => absurd member List.not_mem_nil,
        fun _ => rfl⟩
  | succ count ih =>
      intro driver i room answers
      have extent := erasesize_pos mtd
      rw [Answers] at answers
      dsimp only at answers
      obtain ⟨answer, goes⟩ := answers
      have later : ∀ driver, Answers mtd bad works count driver ((i + mtd.erasesize) % 2 ^ 32) →
          ∃ rest, (eraseTrace mtd count driver ((i + mtd.erasesize) % 2 ^ 32)).map
                (fun attempt => attempt.1 / mtd.erasesize) ++ rest =
              (List.range' (i / mtd.erasesize + 1) count).filter (fun block => !bad block) ∧
            ((eraseTrace mtd count driver ((i + mtd.erasesize) % 2 ^ 32)).all Prod.snd = true →
              rest = []) ∧
            ((eraseTrace mtd count driver ((i + mtd.erasesize) % 2 ^ 32)).all Prod.snd = true ↔
              ∀ block ∈ (List.range' (i / mtd.erasesize + 1) count).filter (fun block => !bad block),
                works block = true) := by
        intro driver answers
        rcases Nat.eq_zero_or_pos count with rfl | more
        · exact ⟨[], rfl, fun _ => rfl, fun _ block member => absurd member List.not_mem_nil,
            fun _ => rfl⟩
        · rw [next_addr room more] at answers ⊢
          have here := ih driver (i + mtd.erasesize) (by rw [Nat.succ_mul] at room; omega) answers
          rwa [Nat.add_div_right _ extent] at here
      rw [List.range'_succ, List.filter_cons, ← answer, eraseTrace]
      dsimp only
      cases marked : (athNandBlockIsbad mtd driver i).1 with
      | true =>
          rw [marked, if_pos rfl] at goes
          exact later _ goes
      | false =>
          rw [marked, if_neg Bool.false_ne_true] at goes
          obtain ⟨result, goes⟩ := goes
          cases worked : (eraseBlock mtd (athNandBlockIsbad mtd driver i).2 i).1 with
          | false =>
              refine ⟨(List.range' (i / mtd.erasesize + 1) count).filter (fun block => !bad block),
                rfl, fun fine => absurd fine Bool.false_ne_true,
                fun fine => absurd fine Bool.false_ne_true, ?_⟩
              intro all
              have first := all (i / mtd.erasesize) List.mem_cons_self
              rw [← result, worked] at first
              exact absurd first Bool.false_ne_true
          | true =>
              obtain ⟨rest, blocks, complete, fine⟩ := later _ (goes worked)
              refine ⟨rest, congrArg (i / mtd.erasesize :: ·) blocks, complete, fine.trans ?_⟩
              constructor
              · intro all block member
                rcases List.mem_cons.mp member with rfl | tail
                · exact result.symm.trans worked
                · exact all block tail
              · exact fun all block member => all block (List.mem_cons_of_mem _ member)

/-! ### The answers of a table -/

/-- The table has an entry for every block, and it says which ones are `bad`. -/
structure Recorded (mtd : MtdInfo) (bad : Nat → Bool) (driver : Driver) : Prop where
  force : driver.force = false
  known : ∀ addr, athNandGetBlkState mtd driver.bbt addr ≠ ATH_NAND_BLK_DONT_KNOW
  marks : ∀ addr, bad (addr / mtd.erasesize) = true ↔
    athNandGetBlkState mtd driver.bbt addr = ATH_NAND_BLK_BAD

theorem recorded_check {bad : Nat → Bool} {driver : Driver} (recorded : Recorded mtd bad driver)
    (addr : Nat) : athNandBlockIsbad mtd driver addr = (bad (addr / mtd.erasesize), driver) := by
  rw [athNandBlockIsbad, if_neg (by rw [recorded.force]; exact Bool.false_ne_true)]
  dsimp only
  split_ifs with used marked
  · have good : bad (addr / mtd.erasesize) = false := by
      apply Bool.eq_false_iff.mpr
      intro marked
      rw [(recorded.marks addr).mp marked] at used
      exact absurd used (by decide)
    rw [good]
  · rw [(recorded.marks addr).mpr marked]
  · exact absurd (state_unknown used marked) (recorded.known addr)

theorem recorded_erase {bad : Nat → Bool} {driver : Driver} (recorded : Recorded mtd bad driver)
    {addr : Nat} (good : bad (addr / mtd.erasesize) = false) :
    Recorded mtd bad (eraseBlock mtd driver addr).2 := by
  unfold eraseBlock
  dsimp only
  split_ifs with failed
  · exact ⟨recorded.force, recorded.known, recorded.marks⟩
  · refine ⟨recorded.force, ?_, ?_⟩
    · intro other
      rw [set_state_get _ _ other (by decide)]
      split_ifs
      · decide
      · exact recorded.known other
    · intro other
      rw [set_state_get _ _ other (by decide)]
      split_ifs with here
      · have same := here.2
        rw [shift_div, shift_div] at same
        rw [← same, good]
        decide
      · exact recorded.marks other

/-- The answers behind an address do not tell about the blocks before it. -/
theorem answers_congr {bad works marked good : Nat → Bool} (count : Nat) : ∀ driver i,
    i + count * mtd.erasesize ≤ 2 ^ 32 →
    (∀ block, i / mtd.erasesize ≤ block → bad block = marked block ∧ works block = good block) →
    Answers mtd bad works count driver i → Answers mtd marked good count driver i := by
  induction count with
  | zero => exact fun _ _ _ _ _ => trivial
  | succ count ih =>
      intro driver i room same answers
      have extent := erasesize_pos mtd
      rw [Answers] at answers ⊢
      dsimp only at answers ⊢
      obtain ⟨mark, work⟩ := same _ (Nat.le_refl _)
      rw [mark, work] at answers
      have later : ∀ driver, Answers mtd bad works count driver ((i + mtd.erasesize) % 2 ^ 32) →
          Answers mtd marked good count driver ((i + mtd.erasesize) % 2 ^ 32) := by
        intro driver rest
        rcases Nat.eq_zero_or_pos count with rfl | more
        · trivial
        · rw [next_addr room more] at rest ⊢
          refine ih driver (i + mtd.erasesize) (by rw [Nat.succ_mul] at room; omega) ?_ rest
          intro block behind
          rw [Nat.add_div_right _ extent] at behind
          exact same block (by omega)
      refine ⟨answers.1, ?_⟩
      have goes := answers.2
      split_ifs at goes ⊢ with skipped
      · exact later _ goes
      · exact ⟨goes.1, fun fine => later _ (goes.2 fine)⟩

/-- Every driver gives some answers, and a driver with a full table gives the ones of the table. -/
theorem answers_exist {bad : Nat → Bool} (count : Nat) : ∀ driver i,
    i + count * mtd.erasesize ≤ 2 ^ 32 →
    ∃ marked works, Answers mtd marked works count driver i ∧
      (Recorded mtd bad driver → marked = bad) := by
  induction count with
  | zero => exact fun driver i _ => ⟨bad, bad, trivial, fun _ => rfl⟩
  | succ count ih =>
      intro driver i room
      have extent := erasesize_pos mtd
      have later : ∀ driver, ∃ marked works,
          Answers mtd marked works count driver ((i + mtd.erasesize) % 2 ^ 32) ∧
            (Recorded mtd bad driver → marked = bad) ∧
            ∀ mark work, Answers mtd (Function.update marked (i / mtd.erasesize) mark)
              (Function.update works (i / mtd.erasesize) work) count driver
              ((i + mtd.erasesize) % 2 ^ 32) := by
        intro driver
        rcases Nat.eq_zero_or_pos count with rfl | more
        · exact ⟨bad, bad, trivial, fun _ => rfl, fun _ _ => trivial⟩
        · have behind : i + mtd.erasesize + count * mtd.erasesize ≤ 2 ^ 32 := by
            rw [Nat.succ_mul] at room
            omega
          obtain ⟨marked, works, answers, table⟩ := ih driver (i + mtd.erasesize) behind
          rw [next_addr room more]
          refine ⟨marked, works, answers, table, fun mark work => ?_⟩
          refine answers_congr count driver _ behind ?_ answers
          intro block above
          rw [Nat.add_div_right _ extent] at above
          rw [Function.update_of_ne (by omega), Function.update_of_ne (by omega)]
          exact ⟨rfl, rfl⟩
      cases checked : (athNandBlockIsbad mtd driver i).1 with
      | true =>
          obtain ⟨marked, works, -, table, rest⟩ := later (athNandBlockIsbad mtd driver i).2
          refine ⟨Function.update marked (i / mtd.erasesize) true,
            Function.update works (i / mtd.erasesize) true, ?_, ?_⟩
          · rw [Answers]
            dsimp only
            rw [checked, Function.update_self, if_pos rfl]
            exact ⟨rfl, rest true true⟩
          · intro recorded
            have same := recorded_check recorded i
            rw [same] at checked table
            rw [table recorded, ← checked, Function.update_eq_self]
      | false =>
          obtain ⟨marked, works, -, table, rest⟩ :=
            later (eraseBlock mtd (athNandBlockIsbad mtd driver i).2 i).2
          refine ⟨Function.update marked (i / mtd.erasesize) false,
            Function.update works (i / mtd.erasesize)
              (eraseBlock mtd (athNandBlockIsbad mtd driver i).2 i).1, ?_, ?_⟩
          · rw [Answers]
            dsimp only
            rw [checked, Function.update_self, Function.update_self, if_neg Bool.false_ne_true]
            exact ⟨rfl, rfl, fun _ => rest false _⟩
          · intro recorded
            have same := recorded_check recorded i
            rw [same] at checked table
            rw [table (recorded_erase recorded checked), ← checked, Function.update_eq_self]

/-! ### The blocks of the range -/

theorem block_count_bounds (mtd : MtdInfo) (len : Nat) :
    len ≤ blockCount mtd len * mtd.erasesize ∧
      blockCount mtd len * mtd.erasesize < len + mtd.erasesize := by
  have extent := erasesize_pos mtd
  have split := Nat.div_add_mod len mtd.erasesize
  have short := Nat.mod_lt len extent
  rw [Nat.mul_comm] at split
  unfold blockCount
  rw [shift_div]
  split_ifs with broken
  · rw [Nat.succ_mul]
    omega
  · omega

/-- The blocks that the loop goes through, and the last one if it is left out. -/
theorem range_blocks_eq {addr len : Nat} (some_len : 0 < len) :
    rangeBlocks mtd addr len = List.range' (addr / mtd.erasesize)
      (blockCount mtd len +
        if blockCount mtd len * mtd.erasesize < addr % mtd.erasesize + len then 1 else 0) := by
  have extent := erasesize_pos mtd
  obtain ⟨enough, tight⟩ := block_count_bounds mtd len
  have column := Nat.mod_lt addr extent
  have whole := Nat.div_add_mod addr mtd.erasesize
  have last : (addr + len - 1) / mtd.erasesize =
      addr / mtd.erasesize + (addr % mtd.erasesize + len - 1) / mtd.erasesize := by
    have place : addr + len - 1 =
        mtd.erasesize * (addr / mtd.erasesize) + (addr % mtd.erasesize + len - 1) := by omega
    rw [place, Nat.mul_add_div extent]
  rw [rangeBlocks, if_neg (Nat.ne_of_gt some_len), last]
  congr 1
  split_ifs with lost
  · have count : (addr % mtd.erasesize + len - 1) / mtd.erasesize = blockCount mtd len := by
      apply Nat.div_eq_of_lt_le
      · omega
      · rw [Nat.succ_mul]
        omega
    rw [count]
    omega
  · have positive : 0 < blockCount mtd len := by
      by_contra nothing
      rw [Nat.eq_zero_of_not_pos nothing, Nat.zero_mul] at enough
      omega
    obtain ⟨before, count⟩ := Nat.exists_eq_add_one.mpr positive
    rw [count, Nat.succ_mul] at enough tight lost
    have index : (addr % mtd.erasesize + len - 1) / mtd.erasesize = before := by
      apply Nat.div_eq_of_lt_le
      · omega
      · rw [Nat.succ_mul]
        omega
    rw [index, count]
    omega

/-- A block of the range has a byte of it, and the other way round. -/
theorem mem_range_blocks {addr len block : Nat} : block ∈ rangeBlocks mtd addr len ↔
    ∃ byte, addr ≤ byte ∧ byte < addr + len ∧ byte / mtd.erasesize = block := by
  have extent := erasesize_pos mtd
  by_cases nothing : len = 0
  · rw [rangeBlocks, if_pos nothing]
    constructor
    · exact fun member => absurd member List.not_mem_nil
    · rintro ⟨byte, above, below, -⟩
      omega
  · have order : addr / mtd.erasesize ≤ (addr + len - 1) / mtd.erasesize :=
      Nat.div_le_div_right (by omega)
    rw [rangeBlocks, if_neg nothing, List.mem_range'_1]
    constructor
    · rintro ⟨first, last⟩
      refine ⟨max addr (block * mtd.erasesize), Nat.le_max_left _ _, ?_, ?_⟩
      · have low : block * mtd.erasesize ≤ addr + len - 1 :=
          (Nat.le_div_iff_mul_le extent).mp (by omega)
        omega
      · apply Nat.div_eq_of_lt_le
        · exact Nat.le_max_right _ _
        · have high := (Nat.div_lt_iff_lt_mul extent).mp (Nat.lt_succ_of_le first)
          rw [Nat.succ_mul] at high ⊢
          omega
    · rintro ⟨byte, above, below, rfl⟩
      have low : addr / mtd.erasesize ≤ byte / mtd.erasesize := Nat.div_le_div_right above
      have high : byte / mtd.erasesize ≤ (addr + len - 1) / mtd.erasesize :=
        Nat.div_le_div_right (by omega)
      omega

end Trace

/-! ### A call -/

/-- The erase commands of a call, with the blocks that the chip takes from them. -/
def attempts (nand : NandInfo) (driver : Driver) (addr len : Nat) : List (Nat × Bool) :=
  (eraseTrace nand.toMtdInfo (blockCount nand.toMtdInfo len) driver addr).map fun attempt =>
    (erasedBlock nand.toMtdInfo attempt.1, attempt.2)

/-- The good blocks of the range are erased in their order, none behind one that fails, and the
value is 0 if all of them were erased. -/
structure ErasesRange (nand : NandInfo) (driver : Driver) (bad : Nat → Bool) (addr len : Nat) :
    Prop where
  order : (attempts nand driver addr len).map Prod.fst <+: goodBlocks nand.toMtdInfo bad addr len
  whole : (attempts nand driver addr len).all Prod.snd = true →
    (attempts nand driver addr len).map Prod.fst = goodBlocks nand.toMtdInfo bad addr len
  value : (athNandErase nand.toMtdInfo driver addr len).1 = some 0 ↔
    (attempts nand driver addr len).all Prod.snd = true ∧
      (attempts nand driver addr len).map Prod.fst = goodBlocks nand.toMtdInfo bad addr len

/-- The condition on the blocks: an erase command of the loop fails; or the loop meets a good block,
and the block that it leaves out is not a good one. -/
def Meets (nand : NandInfo) (bad works : Nat → Bool) (addr len : Nat) : Prop :=
  (∃ j < blockCount nand.toMtdInfo len, bad (addr / nand.erasesize + j) = false ∧
      works (addr / nand.erasesize + j) = false) ∨
    (∃ j < blockCount nand.toMtdInfo len, bad (addr / nand.erasesize + j) = false) ∧
      (blockCount nand.toMtdInfo len * nand.erasesize < addr % nand.erasesize + len →
        bad (addr / nand.erasesize + blockCount nand.toMtdInfo len) = true)

section Calls
variable {nand : NandInfo} {driver : Driver} {bad works : Nat → Bool} {addr len : Nat}

/-- The loop does not come to the end of the addresses. -/
theorem room_of_inside (inside : addr + len ≤ nand.size) :
    addr + blockCount nand.toMtdInfo len * nand.erasesize ≤ 2 ^ 32 := by
  obtain ⟨enough, tight⟩ := block_count_bounds nand.toMtdInfo len
  obtain ⟨blocks, whole⟩ := nand.whole
  have word := nand.word
  rcases Nat.eq_zero_or_pos blocks with rfl | several
  · have nothing : blockCount nand.toMtdInfo 0 = 0 := by simp [blockCount]
    rw [Nat.mul_zero] at whole
    have zero : len = 0 := by omega
    rw [zero, nothing]
    omega
  · have block : 2 ^ nand.erasesizeShift ≤ nand.size := by
      rw [whole]
      exact Nat.le_mul_of_pos_right _ several
    have narrow : nand.erasesizeShift < 32 :=
      (Nat.pow_lt_pow_iff_right (by decide : 1 < 2)).mp (lt_of_le_of_lt block word)
    have words : 2 ^ 32 = 2 ^ nand.erasesizeShift * 2 ^ (32 - nand.erasesizeShift) := by
      rw [← Nat.pow_add, Nat.add_sub_cancel' (Nat.le_of_lt narrow)]
    have few : blocks + 1 ≤ 2 ^ (32 - nand.erasesizeShift) := by
      rw [whole, words] at word
      exact Nat.lt_of_mul_lt_mul_left word
    have last := Nat.mul_le_mul_left (2 ^ nand.erasesizeShift) few
    rw [← words, Nat.mul_succ, ← whole] at last
    change _ < len + 2 ^ nand.erasesizeShift at tight
    change addr + blockCount nand.toMtdInfo len * 2 ^ nand.erasesizeShift ≤ 2 ^ 32
    change blockCount nand.toMtdInfo len * 2 ^ nand.erasesizeShift < _ at tight
    omega

/-- The chip takes the block of the address. -/
theorem attempts_blocks (inside : addr + len ≤ nand.size) :
    (attempts nand driver addr len).map Prod.fst =
      (eraseTrace nand.toMtdInfo (blockCount nand.toMtdInfo len) driver addr).map
        fun attempt => attempt.1 / nand.erasesize := by
  rw [attempts, List.map_map]
  apply List.map_congr_left
  intro attempt member
  obtain ⟨commands, -⟩ := @loop_trace nand.toMtdInfo (blockCount nand.toMtdInfo len) driver addr none
  have sent : .erase attempt.1 ∈
      (eraseLoop nand.toMtdInfo (blockCount nand.toMtdInfo len) driver addr none).2.2 := by
    have taken : attempt.1 ∈ (eraseLoop nand.toMtdInfo (blockCount nand.toMtdInfo len) driver addr
        none).2.2.filterMap erasedAddr := by
      rw [commands]
      exact List.mem_map_of_mem member
    obtain ⟨event, there, same⟩ := List.mem_filterMap.mp taken
    cases event with
    | erase other =>
        rw [← Option.some.inj same]
        exact there
    | check => cases same
    | program => cases same
    | read => cases same
  obtain ⟨j, below, place⟩ := erased_addr _ _ _ _ _ sent (room_of_inside inside)
  have tight := (block_count_bounds nand.toMtdInfo len).2
  have step : (j + 1) * nand.erasesize ≤ blockCount nand.toMtdInfo len * nand.erasesize :=
    Nat.mul_le_mul_right _ below
  rw [Nat.succ_mul] at step
  exact (erased_block nand (by omega)).trans (shift_div _ _)

theorem attempts_all : (attempts nand driver addr len).all Prod.snd =
    (eraseTrace nand.toMtdInfo (blockCount nand.toMtdInfo len) driver addr).all Prod.snd := by
  rw [attempts, List.all_map]
  rfl

/-- The good blocks of the range are those of the loop, and the last one if it is left out. -/
theorem good_blocks_eq (bad : Nat → Bool) (some_len : 0 < len) :
    goodBlocks nand.toMtdInfo bad addr len =
      (List.range' (addr / nand.erasesize) (blockCount nand.toMtdInfo len)).filter
          (fun block => !bad block) ++
        if blockCount nand.toMtdInfo len * nand.erasesize < addr % nand.erasesize + len ∧
            bad (addr / nand.erasesize + blockCount nand.toMtdInfo len) = false then
          [addr / nand.erasesize + blockCount nand.toMtdInfo len] else [] := by
  rw [goodBlocks, range_blocks_eq some_len]
  by_cases lost : blockCount nand.toMtdInfo len * nand.erasesize < addr % nand.erasesize + len
  · rw [if_pos lost, List.range'_concat, List.filter_append, Nat.one_mul]
    congr 1
    cases last : bad (addr / nand.erasesize + blockCount nand.toMtdInfo len) with
    | true =>
        rw [if_neg fun good => Bool.false_ne_true good.2.symm]
        exact List.filter_cons_of_neg (by rw [last]; exact Bool.false_ne_true)
    | false =>
        rw [if_pos ⟨lost, rfl⟩]
        exact List.filter_cons_of_pos (by rw [last]; rfl)
  · rw [if_neg lost, if_neg fun both => lost both.1, Nat.add_zero, List.append_nil]

theorem mem_visited {block : Nat} {count : Nat} (bad : Nat → Bool) :
    block ∈ (List.range' (addr / nand.erasesize) count).filter (fun block => !bad block) ↔
      ∃ j < count, bad (addr / nand.erasesize + j) = false ∧ addr / nand.erasesize + j = block := by
  rw [List.mem_filter, List.mem_range'_1, Bool.not_eq_true']
  constructor
  · rintro ⟨⟨first, last⟩, good⟩
    refine ⟨block - addr / nand.erasesize, by omega, ?_, by omega⟩
    rwa [Nat.add_sub_cancel' first]
  · rintro ⟨j, below, good, rfl⟩
    exact ⟨⟨by omega, by omega⟩, good⟩

theorem erase_value (inside : addr + len ≤ nand.size) :
    (athNandErase nand.toMtdInfo driver addr len).1 = some 0 ↔
      (attempts nand driver addr len).all Prod.snd = true ∧ attempts nand driver addr len ≠ [] := by
  have word := nand.word
  have accepted : ¬ nand.size < (addr + len) % 2 ^ 32 := by
    rw [Nat.mod_eq_of_lt (lt_of_le_of_lt inside word)]
    omega
  rw [ath_erase_eq, if_neg accepted, (loop_trace _ driver addr none).2, attempts_all, attempts,
    Ne, List.map_eq_nil_iff]
  generalize eraseTrace nand.toMtdInfo (blockCount nand.toMtdInfo len) driver addr = trace
  unfold valueOf
  cases trace with
  | nil => exact ⟨fun nothing => absurd nothing.symm (Option.some_ne_none _), fun both => absurd rfl both.2⟩
  | cons attempt rest =>
      cases (attempt :: rest).all Prod.snd with
      | true => exact ⟨fun _ => ⟨rfl, List.cons_ne_nil _ _⟩, fun _ => rfl⟩
      | false =>
          exact ⟨fun one => absurd (Option.some.inj one) (by decide),
            fun both => absurd both.1 Bool.false_ne_true⟩

end Calls

/-- For a range inside the chip, ath_nand_erase erases the good blocks of the range and returns 0 if
all of them were erased, exactly when the condition on the blocks holds. -/
theorem erase_range_iff (nand : NandInfo) (driver : Driver) (bad works : Nat → Bool) (addr len : Nat)
    (inside : addr + len ≤ nand.size)
    (answers : Answers nand.toMtdInfo bad works (blockCount nand.toMtdInfo len) driver addr) :
    ErasesRange nand driver bad addr len ↔ Meets nand bad works addr len := by
  obtain ⟨rest, blocks, complete, fine⟩ := trace_blocks _ driver addr (room_of_inside inside) answers
  change _ = (List.range' (addr / nand.erasesize) _).filter _ at blocks
  have value := @erase_value nand driver addr len inside
  rw [← attempts_blocks inside] at blocks
  rw [← attempts_all] at complete fine
  have good : ∀ block, block ∈ (List.range' (addr / nand.erasesize)
      (blockCount nand.toMtdInfo len)).filter (fun block => !bad block) ↔ ∃ j <
        blockCount nand.toMtdInfo len, bad (addr / nand.erasesize + j) = false ∧
          addr / nand.erasesize + j = block :=
    fun block => mem_visited bad
  rcases Nat.eq_zero_or_pos len with rfl | some_len
  · -- the loop makes no round, and no value is set
    have zero : blockCount nand.toMtdInfo 0 = 0 := by simp [blockCount]
    have nothing : attempts nand driver addr 0 = [] := by
      rw [attempts, zero]
      rfl
    constructor
    · intro law
      have done := law.value.mpr ⟨by rw [nothing]; rfl, by rw [nothing]; rfl⟩
      exact absurd nothing (value.mp done).2
    · rintro (⟨j, below, -⟩ | ⟨⟨j, below, -⟩, -⟩)
      · omega
      · omega
  · have whole := @good_blocks_eq nand addr len bad some_len
    constructor
    · intro law
      cases all : (attempts nand driver addr len).all Prod.snd with
      | false =>
          have fails : ¬ ∀ block ∈ (List.range' (addr / nand.erasesize)
              (blockCount nand.toMtdInfo len)).filter (fun block => !bad block),
              works block = true := by
            rw [← fine, all]
            exact Bool.false_ne_true
          push Not at fails
          obtain ⟨block, member, failed⟩ := fails
          obtain ⟨j, below, marked, rfl⟩ := (good block).mp member
          exact Or.inl ⟨j, below, marked, Bool.eq_false_iff.mpr failed⟩
      | true =>
          have same := law.whole all
          rw [complete all, List.append_nil] at blocks
          have returned := value.mp (law.value.mpr ⟨all, same⟩)
          rw [blocks, whole] at same
          have nothing := List.append_right_eq_self.mp same.symm
          right
          constructor
          · obtain ⟨block, member⟩ := List.exists_mem_of_ne_nil _ (fun empty =>
              returned.2 (List.map_eq_nil_iff.mp (blocks.trans empty)))
            obtain ⟨j, below, marked, -⟩ := (good block).mp member
            exact ⟨j, below, marked⟩
          · intro lost
            by_contra last
            rw [if_pos ⟨lost, Bool.eq_false_iff.mpr last⟩] at nothing
            exact absurd nothing (List.cons_ne_nil _ _)
    · intro meets
      have order : (attempts nand driver addr len).map Prod.fst <+:
          goodBlocks nand.toMtdInfo bad addr len := by
        rw [whole, ← blocks, List.append_assoc]
        exact List.prefix_append _ _
      rcases meets with ⟨j, below, marked, failed⟩ | ⟨⟨j, below, marked⟩, last⟩
      · have stopped : ¬ (attempts nand driver addr len).all Prod.snd = true := by
          intro all
          have worked := fine.mp all _ ((good _).mpr ⟨j, below, marked, rfl⟩)
          rw [failed] at worked
          exact Bool.false_ne_true worked
        exact ⟨order, fun all => absurd all stopped, fun zero => absurd (value.mp zero).1 stopped,
          fun both => absurd both.1 stopped⟩
      · have entire : (attempts nand driver addr len).all Prod.snd = true →
            (attempts nand driver addr len).map Prod.fst = goodBlocks nand.toMtdInfo bad addr len := by
          intro all
          rw [complete all, List.append_nil] at blocks
          rw [blocks, whole, if_neg, List.append_nil]
          rintro ⟨lost, unmarked⟩
          rw [last lost] at unmarked
          cases unmarked
        refine ⟨order, entire, ?_, ?_⟩
        · intro zero
          have all := (value.mp zero).1
          exact ⟨all, entire all⟩
        · rintro ⟨all, -⟩
          refine value.mpr ⟨all, ?_⟩
          intro empty
          rw [complete all, List.append_nil, empty] at blocks
          have member := (good _).mpr ⟨j, below, marked, rfl⟩
          rw [← blocks] at member
          exact absurd member List.not_mem_nil

/-- Block 1 is recorded as bad, and the others as good. -/
def secondBad : Driver :=
  { probed with bbt := some (put (fun _ => 0x55555555#32) 1 ATH_NAND_BLK_BAD) }

theorem second_state (addr : Nat) :
    athNandGetBlkState largePageChip.toMtdInfo secondBad.bbt addr =
      if 1 = addr / largePageChip.erasesize then ATH_NAND_BLK_BAD else ATH_NAND_BLK_GOOD := by
  have good : ∀ place < 16, (0x55555555#32 >>> (place * 2)) &&& 3#32 = ATH_NAND_BLK_GOOD := by
    decide
  change entry (put _ 1 _) (addr >>> largePageChip.erasesizeShift) = _
  rw [entry_put _ _ _ (by decide), shift_div]
  split_ifs
  · rfl
  · exact good _ (Nat.mod_lt _ (by decide))

theorem second_recorded :
    Recorded largePageChip.toMtdInfo (fun block => block == 1) secondBad := by
  refine ⟨rfl, ?_, ?_⟩
  · intro addr
    rw [second_state]
    split_ifs
    · decide
    · decide
  · intro addr
    rw [second_state, beq_iff_eq]
    split_ifs with here
    · exact ⟨fun _ => rfl, fun _ => here.symm⟩
    · exact ⟨fun same => absurd same.symm here, fun other => absurd other (by decide)⟩

theorem second_skipped : ErasesRange largePageChip secondBad (fun block => block == 1) 0 0x60000 := by
  obtain ⟨marked, works, answers, table⟩ := @answers_exist largePageChip.toMtdInfo
    (fun block => block == 1) (blockCount largePageChip.toMtdInfo 0x60000) secondBad 0
    (by decide +kernel)
  rw [table second_recorded] at answers
  refine (erase_range_iff largePageChip secondBad _ works 0 0x60000 (by decide) answers).mpr ?_
  exact Or.inr ⟨⟨0, by decide +kernel, by decide +kernel⟩, fun lost => absurd lost (by decide +kernel)⟩

/-- Every block of the range is bad, and the value that is returned was never set. -/
theorem skipped_unset : Recorded largePageChip.toMtdInfo (fun block => block == 1) secondBad ∧
    ¬ ErasesRange largePageChip secondBad (fun block => block == 1) 0x20000 0x20000 := by
  refine ⟨second_recorded, fun law => ?_⟩
  have nothing : attempts largePageChip secondBad 0x20000 0x20000 = [] := by decide +kernel
  have blocks : goodBlocks largePageChip.toMtdInfo (fun block => block == 1) 0x20000 0x20000 = [] := by
    decide +kernel
  have returned := law.value.mpr ⟨by rw [nothing]; rfl, by rw [nothing, blocks]; rfl⟩
  exact absurd returned (by decide +kernel)

end UBoot.Nand.EraseRange
