import UBoot.Nand.PageData

/-!
What a write of the Atheros NAND driver leaves on the pages. A page that the request does not fill
gets the bytes at its start, whatever their column, and the rest of ath_nand_io_buf; the write keeps
the data and the bytes around it only where neither shows.
-/

namespace UBoot.Nand.PageWrites

open Library.Loop AthRwBuff AthBlocks BlockMarks PageData

/-! ### The page of a round -/

/-- What leaves a page right that a round of a write does not fill: it is not programmed at all, or
its bytes of the request stand where the buffer has them, and the buffer behind them is blank. -/
def Fits (mtd : MtdInfo) (rw : RwData) : Prop :=
  0 < rw.len → iolenAt mtd rw.addr rw.len < mtd.writesize →
    allOnes mtd rw.memory rw.pos = true ∨
      (rw.addr % mtd.writesize = 0 ∨
        ∀ i < iolenAt mtd rw.addr rw.len, rw.memory (rw.pos + i) = 0xff) ∧
      ∀ j, iolenAt mtd rw.addr rw.len ≤ j → j < mtd.writesize → (checked mtd rw).io j = 0xff

/-- The page of the round has the bytes of the request in their columns, and no others. -/
def PageRight (mtd : MtdInfo) (rw : RwData) : Prop :=
  ∀ column < mtd.writesize, (part mtd false rw).2.1.data (pageAt mtd rw.addr) column =
    if rw.addr % mtd.writesize ≤ column ∧
        column < rw.addr % mtd.writesize + iolenAt mtd rw.addr rw.len then
      rw.memory (rw.pos + (column - rw.addr % mtd.writesize))
    else 0xff

/-- Bytes at the start of a page are in their columns only if the page starts with them or all of
them are blank. -/
theorem page_right_iff {buf io : Nat → UInt8} {c count size : Nat} (room : c + count ≤ size) :
    (∀ j < size, (if j < count then buf j else io j) =
        if c ≤ j ∧ j < c + count then buf (j - c) else 0xff) ↔
      (c = 0 ∨ ∀ i < count, buf i = 0xff) ∧ ∀ j, count ≤ j → j < size → io j = 0xff := by
  constructor
  · intro right
    have blank : c = 0 ∨ ∀ i < count, buf i = 0xff := by
      rcases Nat.eq_zero_or_pos c with first | column
      · exact Or.inl first
      · right
        intro i
        induction i using Nat.strong_induction_on with
        | h i earlier =>
            intro moved
            have here := right i (by omega)
            rw [if_pos moved] at here
            rw [here]
            split
            · exact earlier (i - c) (by omega) (by omega)
            · rfl
    refine ⟨blank, ?_⟩
    intro j rest inside
    have here := right j inside
    rw [if_neg (by omega)] at here
    rw [here]
    split
    · rcases blank with first | ones
      · omega
      · exact ones (j - c) (by omega)
    · rfl
  · rintro ⟨blank, stale⟩ j inside
    by_cases moved : j < count
    · rw [if_pos moved]
      rcases blank with first | ones
      · rw [first, Nat.zero_add, if_pos ⟨Nat.zero_le j, moved⟩, Nat.sub_zero]
      · rw [ones j moved]
        split
        · exact (ones (j - c) (by omega)).symm
        · rfl
    · rw [if_neg moved, stale j (Nat.not_lt.mp moved) inside]
      split
      · rcases blank with first | ones
        · omega
        · exact (ones (j - c) (by omega)).symm
      · rfl

section Page
variable {mtd : MtdInfo} {rw : RwData}

theorem all_ones_iff (mtd : MtdInfo) (buf : Nat → UInt8) (pos : Nat) :
    allOnes mtd buf pos = true ↔ ∀ i < mtd.writesize, buf (pos + i) = 0xff := by
  simp only [allOnes, List.all_eq_true, List.mem_range, beq_iff_eq]

theorem iolen_room (mtd : MtdInfo) (addr len : Nat) :
    addr % mtd.writesize + iolenAt mtd addr len ≤ mtd.writesize := by
  have column := Nat.mod_lt addr (writesize_pos mtd)
  unfold iolenAt
  omega

theorem fits_iff (more : 0 < rw.len) (ok : (part mtd false rw).1 = true)
    (blank : ∀ column < mtd.writesize, rw.nand.data (pageAt mtd rw.addr) column = 0xff) :
    PageRight mtd rw ↔ Fits mtd rw := by
  have room := iolen_room mtd rw.addr rw.len
  cases ones : allOnes mtd rw.memory rw.pos with
  | true =>
      refine ⟨fun _ _ _ => Or.inl ones, ?_⟩
      intro _ column inside
      rw [write_skipped ones, blank column inside]
      split
      · exact ((all_ones_iff mtd rw.memory rw.pos).mp ones _ (by omega)).symm
      · rfl
  | false =>
      have image : ∀ column < mtd.writesize,
          (part mtd false rw).2.1.data (pageAt mtd rw.addr) column =
            if column < iolenAt mtd rw.addr rw.len then rw.memory (rw.pos + column)
            else (checked mtd rw).io column := by
        intro column inside
        rw [write_programmed ones ok, blank column inside]
        exact UInt8.neg_one_and
      have whole := @page_right_iff (fun i => rw.memory (rw.pos + i)) (checked mtd rw).io
        (rw.addr % mtd.writesize) (iolenAt mtd rw.addr rw.len) mtd.writesize room
      constructor
      · intro right _ _
        refine Or.inr (whole.mp ?_)
        intro column inside
        rw [← image column inside]
        exact right column inside
      · intro fits column inside
        rw [image column inside]
        by_cases short : iolenAt mtd rw.addr rw.len < mtd.writesize
        · rcases fits more short with skipped | stays
          · rw [ones] at skipped
            cases skipped
          · exact whole.mpr stays column inside
        · have first : rw.addr % mtd.writesize = 0 := by omega
          rw [first, Nat.zero_add, if_pos (by omega), if_pos (by omega), Nat.sub_zero]

end Page

/-! ### The write -/

/-- The pages of the range are erased, with their spare bytes, and its blocks are good. -/
structure ErasedGood (mtd : MtdInfo) (nand : Device) (addr len : Nat) : Prop where
  inside : addr + len ≤ mtd.size
  erased : ∀ a, addr ≤ a → a < addr + len →
    (∀ column < mtd.writesize, nand.data (a / mtd.writesize) column = 0xff) ∧
      spareBlank mtd (nand.driver.oob (a / mtd.writesize)) = true
  good : GoodArea mtd nand.driver addr len

/-- The bytes from `addr` up to a limit come from the buffer, the others are as before. -/
def Placed (mtd : MtdInfo) (before after : Nat → Nat → UInt8) (memory : Nat → UInt8)
    (addr limit : Nat) : Prop :=
  ∀ a < mtd.size, byteAt mtd after a =
    if addr ≤ a ∧ a < limit then memory (a - addr) else byteAt mtd before a

/-- The state between the rounds of a write: pages that it has not come to are as before. -/
structure Writing (mtd : MtdInfo) (nand : Device) (memory : Nat → UInt8) (addr len : Nat)
    (rw : RwData) : Prop where
  moving : Moving mtd nand.driver addr len rw
  memory : rw.memory = memory
  fresh : ∀ page, (∀ a, addr ≤ a → a < rw.addr → a / mtd.writesize ≠ page) →
    rw.nand.data page = nand.data page

section Columns
variable {mtd : MtdInfo} {driver : Driver} {addr len : Nat} {rw : RwData}

/-- Which bytes of its page belong to a round, and where they are in the buffer. -/
theorem round_covers (moving : Moving mtd driver addr len rw) (more : 0 < rw.len) {a : Nat}
    (page : a / mtd.writesize = rw.addr / mtd.writesize) :
    (addr ≤ a ↔ rw.addr % mtd.writesize ≤ a % mtd.writesize) ∧
      (a < addr + len ↔
        a % mtd.writesize < rw.addr % mtd.writesize + iolenAt mtd rw.addr rw.len) ∧
      (a < rw.addr + iolenAt mtd rw.addr rw.len ↔
        a % mtd.writesize < rw.addr % mtd.writesize + iolenAt mtd rw.addr rw.len) ∧
      (addr ≤ a → a - addr = rw.pos + (a % mtd.writesize - rw.addr % mtd.writesize)) := by
  have place := moving.place
  have rest := moving.rest
  have edge := moving.edge
  have byte := Nat.div_add_mod a mtd.writesize
  have start := Nat.div_add_mod rw.addr mtd.writesize
  have column := Nat.mod_lt a (writesize_pos mtd)
  have first := Nat.mod_lt rw.addr (writesize_pos mtd)
  rw [page] at byte
  unfold iolenAt
  generalize mtd.writesize * (rw.addr / mtd.writesize) = base at byte start
  omega

theorem round_page {a : Nat} (front : rw.addr ≤ a)
    (back : a < rw.addr + iolenAt mtd rw.addr rw.len) :
    a / mtd.writesize = rw.addr / mtd.writesize := by
  have room := iolen_room mtd rw.addr rw.len
  have start := Nat.div_add_mod' rw.addr mtd.writesize
  refine Nat.div_eq_of_lt_le (by omega) ?_
  rw [Nat.succ_mul]
  omega

/-- Before a round its page has not been touched. -/
theorem round_first (moving : Moving mtd driver addr len rw) (more : 0 < rw.len) {a : Nat}
    (front : addr ≤ a) (back : a < rw.addr) : a / mtd.writesize ≠ rw.addr / mtd.writesize := by
  intro page
  have covers := round_covers moving more page
  have place := moving.place
  have edge := moving.edge
  have byte := Nat.div_add_mod a mtd.writesize
  have start := Nat.div_add_mod rw.addr mtd.writesize
  rw [page] at byte
  omega

end Columns

section Write
variable {mtd : MtdInfo} {nand : Device} {memory : Nat → UInt8} {addr len : Nat} {rw next : RwData}
  (probed : Probed mtd) (area : ErasedGood mtd nand addr len)
  (writing : Writing mtd nand memory addr len rw)

theorem writing_start : Writing mtd nand memory addr len (started nand memory addr len) :=
  ⟨moving_start memory, rfl, fun _ _ => rfl⟩

include probed area writing

theorem round_reach (more : 0 < rw.len) : pageAt mtd rw.addr = rw.addr / mtd.writesize := by
  have place := writing.moving.place
  have rest := writing.moving.rest
  have inside := area.inside
  exact probed.reach rw.addr (by omega)

theorem round_blank (more : 0 < rw.len) :
    ∀ column < mtd.writesize, rw.nand.data (pageAt mtd rw.addr) column = 0xff := by
  have place := writing.moving.place
  have rest := writing.moving.rest
  rw [round_reach probed area writing more, writing.fresh _ fun a front back =>
    round_first writing.moving more front back]
  exact (area.erased rw.addr (by omega) (by omega)).1

theorem writing_next (goes : rwDataStep mtd false rw = .inl next) :
    Writing mtd nand memory addr len next := by
  obtain ⟨more, -, shape⟩ := round_goes area.good writing.moving goes
  have positive := iolen_pos mtd more
  have place := writing.moving.place
  refine ⟨moving_next area.good writing.moving probed goes, ?_, ?_⟩
  · rw [shape]
    exact (write_memory rw).trans writing.memory
  · intro page away
    rw [shape] at away ⊢
    have other : page ≠ pageAt mtd rw.addr := by
      rw [round_reach probed area writing more]
      exact (away rw.addr (by omega) (Nat.lt_add_of_pos_right positive)).symm
    refine (write_others other).trans (writing.fresh page ?_)
    exact fun a front back => away a front (Nat.lt_of_lt_of_le back (Nat.le_add_right _ _))

theorem placed_next (goes : rwDataStep mtd false rw = .inl next) (right : PageRight mtd rw)
    (placed : Placed mtd nand.data rw.nand.data memory addr rw.addr) :
    Placed mtd nand.data next.nand.data memory addr next.addr := by
  obtain ⟨more, -, shape⟩ := round_goes area.good writing.moving goes
  have reach := round_reach probed area writing more
  have place := writing.moving.place
  have rest := writing.moving.rest
  have limit : (advanced mtd false rw).addr = rw.addr + iolenAt mtd rw.addr rw.len := rfl
  intro a inside
  rw [shape, limit]
  by_cases page : a / mtd.writesize = rw.addr / mtd.writesize
  · obtain ⟨front, -, back, position⟩ := round_covers writing.moving more page
    have byte := right (a % mtd.writesize) (Nat.mod_lt a (writesize_pos mtd))
    rw [reach, ← page] at byte
    refine byte.trans ?_
    by_cases covered : addr ≤ a ∧ a < rw.addr + iolenAt mtd rw.addr rw.len
    · rw [if_pos ⟨front.mp covered.1, back.mp covered.2⟩, if_pos covered, position covered.1,
        writing.memory]
    · rw [if_neg fun inner => covered ⟨front.mpr inner.1, back.mpr inner.2⟩, if_neg covered, byteAt,
        page]
      exact ((area.erased rw.addr (by omega) (by omega)).1 _
        (Nat.mod_lt a (writesize_pos mtd))).symm
  · have other : a / mtd.writesize ≠ pageAt mtd rw.addr := by
      rw [reach]
      exact page
    have same : (addr ≤ a ∧ a < rw.addr + iolenAt mtd rw.addr rw.len) ↔ addr ≤ a ∧ a < rw.addr := by
      constructor
      · rintro ⟨front, back⟩
        refine ⟨front, ?_⟩
        by_contra behind
        exact page (round_page (Nat.not_lt.mp behind) back)
      · rintro ⟨front, back⟩
        exact ⟨front, Nat.lt_of_lt_of_le back (Nat.le_add_right _ _)⟩
    have kept : byteAt mtd (advanced mtd false rw).nand.data a = byteAt mtd rw.nand.data a :=
      congrFun (write_others other) (a % mtd.writesize)
    rw [kept, placed a inside]
    simp only [same]

/-- No later round touches the page of a round. -/
theorem page_stays (goes : rwDataStep mtd false rw = .inl next) {last : RwData}
    (reached : Reaches (rwDataStep mtd false) next last) :
    last.nand.data (rw.addr / mtd.writesize) = next.nand.data (rw.addr / mtd.writesize) := by
  obtain ⟨more, -, shape⟩ := round_goes area.good writing.moving goes
  have positive := iolen_pos mtd more
  have start := writing_next probed area writing goes
  have behind : next.len = 0 ∨ rw.addr / mtd.writesize < next.addr / mtd.writesize := by
    have moved : next.pos = rw.pos + iolenAt mtd rw.addr rw.len := by
      rw [shape]
      rfl
    have further : next.addr = rw.addr + iolenAt mtd rw.addr rw.len := by
      rw [shape]
      rfl
    rcases start.moving.edge with first | done | edge
    · omega
    · exact Or.inl done
    · right
      have whole := Nat.div_add_mod next.addr mtd.writesize
      exact Nat.div_lt_of_lt_mul (by omega)
  have kept := reaches_keeps (fun state => Writing mtd nand memory addr len state ∧
    (state.len = 0 ∨ rw.addr / mtd.writesize < state.addr / mtd.writesize) ∧
    state.nand.data (rw.addr / mtd.writesize) = next.nand.data (rw.addr / mtd.writesize))
    ?_ ⟨start, behind, rfl⟩ reached
  · exact kept.2.2
  · rintro state after ⟨held, later, same⟩ round
    obtain ⟨left, -, form⟩ := round_goes area.good held.moving round
    have above : rw.addr / mtd.writesize < state.addr / mtd.writesize := by
      rcases later with done | above
      · omega
      · exact above
    refine ⟨writing_next probed area held round, Or.inr ?_, ?_⟩
    · rw [form]
      exact Nat.lt_of_lt_of_le above (Nat.div_le_div_right (Nat.le_add_right _ _))
    · rw [form]
      refine (write_others ?_).trans same
      rw [round_reach probed area held left]
      exact Nat.ne_of_lt above

end Write

section Whole
variable {mtd : MtdInfo} {nand : Device} {memory : Nat → UInt8} {addr len : Nat} {written : RwData}
  (probed : Probed mtd) (area : ErasedGood mtd nand addr len)
include probed area

theorem reached_writing {rw : RwData}
    (reached : Reaches (rwDataStep mtd false) (started nand memory addr len) rw) :
    Writing mtd nand memory addr len rw :=
  reaches_keeps (Writing mtd nand memory addr len)
    (fun _ _ writing goes => writing_next probed area writing goes) writing_start reached

variable (success : rwBuff mtd false nand memory addr len (0, written))
include success

theorem written_reached :
    Reaches (rwDataStep mtd false) (started nand memory addr len) written ∧ written.len = 0 := by
  obtain ⟨last, reached, leaves⟩ := ends_reaches success
  have writing := reached_writing probed area reached
  rcases round_leaves area.good writing.moving leaves with ⟨done, result⟩ | ⟨-, -, failed⟩
  · cases result
    exact ⟨reached, done⟩
  · cases failed

/-- In a write that succeeds every round goes on until the length is used up. -/
theorem round_succeeds {rw : RwData} (more : 0 < rw.len)
    (reached : Reaches (rwDataStep mtd false) (started nand memory addr len) rw) :
    ∃ next, rwDataStep mtd false rw = .inl next ∧ Reaches (rwDataStep mtd false) next written := by
  have writing := reached_writing probed area reached
  have ended := reaches_ends reached success
  cases round : rwDataStep mtd false rw with
  | inl next =>
      have rest := leads_ends (leads_step round) ended
      obtain ⟨last, later, leaves⟩ := ends_reaches rest
      have start := reached_writing probed area (.next reached round)
      have held := reaches_keeps (Writing mtd nand memory addr len)
        (fun _ _ state goes => writing_next probed area state goes) start later
      rcases round_leaves area.good held.moving leaves with ⟨-, result⟩ | ⟨-, -, failed⟩
      · cases result
        exact ⟨next, rfl, later⟩
      · cases failed
  | inr result =>
      have same := ends_unique (ends_done round) ended
      rcases round_leaves area.good writing.moving round with ⟨done, -⟩ | ⟨-, -, failed⟩
      · omega
      · rw [same] at failed
        cases failed

theorem placed_fits
    (placed : Placed mtd nand.data written.nand.data memory addr (addr + len)) {rw : RwData}
    (reached : Reaches (rwDataStep mtd false) (started nand memory addr len) rw) : Fits mtd rw := by
  intro more
  have writing := reached_writing probed area reached
  obtain ⟨next, goes, later⟩ := round_succeeds probed area success more reached
  obtain ⟨-, ok, shape⟩ := round_goes area.good writing.moving goes
  have reach := round_reach probed area writing more
  have blank := round_blank probed area writing more
  refine (fits_iff more ok blank).mp ?_ more
  intro column inside
  have place := writing.moving.place
  have rest := writing.moving.rest
  have extent := writesize_pos mtd
  have page : (mtd.writesize * (rw.addr / mtd.writesize) + column) / mtd.writesize =
      rw.addr / mtd.writesize := by
    rw [Nat.mul_add_div extent, Nat.div_eq_of_lt inside, Nat.add_zero]
  have offset : (mtd.writesize * (rw.addr / mtd.writesize) + column) % mtd.writesize = column := by
    rw [Nat.mul_add_mod, Nat.mod_eq_of_lt inside]
  obtain ⟨front, back, -, position⟩ := round_covers writing.moving more page
  have device : mtd.writesize * (rw.addr / mtd.writesize) + column < mtd.size := by
    have unit : mtd.writesize ∣ mtd.size := Nat.dvd_trans (Nat.pow_dvd_pow 2 mtd.pages) mtd.whole
    obtain ⟨count, whole⟩ := unit
    have index : rw.addr / mtd.writesize + 1 ≤ count := by
      have within : rw.addr < mtd.size := by
        have limit := area.inside
        omega
      rw [whole] at within
      exact Nat.div_lt_of_lt_mul within
    have above := Nat.mul_le_mul_left mtd.writesize index
    rw [← whole, Nat.mul_succ] at above
    omega
  have byte := placed _ device
  rw [byteAt, page, offset, page_stays probed area writing goes later, shape] at byte
  rw [reach]
  refine byte.trans ?_
  rw [offset] at front back position
  by_cases covered : rw.addr % mtd.writesize ≤ column ∧
      column < rw.addr % mtd.writesize + iolenAt mtd rw.addr rw.len
  · rw [if_pos ⟨front.mpr covered.1, back.mpr covered.2⟩, if_pos covered,
      position (front.mpr covered.1), writing.memory]
  · rw [if_neg fun inner => covered ⟨front.mp inner.1, back.mp inner.2⟩, if_neg covered, byteAt,
      page, offset]
    exact (area.erased rw.addr (by omega) (by omega)).1 column inside

theorem fits_placed (fits : ∀ rw, Reaches (rwDataStep mtd false) (started nand memory addr len) rw →
    Fits mtd rw) : Placed mtd nand.data written.nand.data memory addr (addr + len) := by
  have placed : ∀ {rw}, Reaches (rwDataStep mtd false) (started nand memory addr len) rw →
      Placed mtd nand.data rw.nand.data memory addr rw.addr := by
    intro rw reached
    induction reached with
    | start =>
        intro a inside
        have none : ¬ (addr ≤ a ∧ a < addr) := by omega
        exact (if_neg none).symm
    | @next state after reached goes inductive_hypothesis =>
        have writing := reached_writing probed area reached
        obtain ⟨more, ok, -⟩ := round_goes area.good writing.moving goes
        have right := (fits_iff more ok (round_blank probed area writing more)).mpr (fits state reached)
        exact placed_next probed area writing goes right inductive_hypothesis
  obtain ⟨reached, done⟩ := written_reached probed area success
  have moving := (reached_writing probed area reached).moving
  have limit : addr + len = written.addr := by
    rw [moving.place, ← moving.rest, done, Nat.add_zero]
  rw [limit]
  exact placed reached

end Whole

/-! ### The read -/

/-- The state between the rounds of a read. -/
structure Reading (mtd : MtdInfo) (nand : Device) (addr len : Nat) (rw : RwData) : Prop where
  moving : Moving mtd nand.driver addr len rw
  same : rw.nand.data = nand.data
  copied : ∀ i < rw.pos, rw.memory i = byteAt mtd nand.data (addr + i)

section Read
variable {mtd : MtdInfo} {nand : Device} {addr len : Nat}
  (probed : Probed mtd) (inside : addr + len ≤ mtd.size) (good : GoodArea mtd nand.driver addr len)
include probed inside good

theorem reading_next {rw next : RwData} (reading : Reading mtd nand addr len rw)
    (goes : rwDataStep mtd true rw = .inl next) : Reading mtd nand addr len next := by
  obtain ⟨more, ok, shape⟩ := round_goes good reading.moving goes
  obtain ⟨data, copies⟩ := read_part ok
  have place := reading.moving.place
  have rest := reading.moving.rest
  have room := iolen_room mtd rw.addr rw.len
  have reach : pageAt mtd rw.addr = rw.addr / mtd.writesize := probed.reach rw.addr (by omega)
  have kept : next.nand.data = nand.data := by
    rw [shape]
    exact data.trans reading.same
  refine ⟨moving_next good reading.moving probed goes, kept, ?_⟩
  rw [shape]
  intro i below
  have byte := copies i
  have limit : i < rw.pos + iolenAt mtd rw.addr rw.len := below
  refine byte.trans ?_
  by_cases early : i < rw.pos
  · rw [if_neg (by omega)]
    exact reading.copied i early
  · have column : rw.addr % mtd.writesize + (i - rw.pos) < mtd.writesize := by omega
    have page : (addr + i) / mtd.writesize = rw.addr / mtd.writesize :=
      round_page (by omega) (by omega)
    have whole := Nat.div_add_mod (addr + i) mtd.writesize
    have start := Nat.div_add_mod rw.addr mtd.writesize
    rw [page] at whole
    have offset : (addr + i) % mtd.writesize = rw.addr % mtd.writesize + (i - rw.pos) := by omega
    rw [if_pos ⟨Nat.not_lt.mp early, limit⟩, if_pos column, reading.same, byteAt, page, offset, reach]

/-- A read of a good area returns; without a failed command it has no error, and without an error
the buffer has the bytes of the range. -/
theorem read_returns (memory : Nat → UInt8) :
    ∃ ret back, rwBuff mtd true nand memory addr len (ret, back) ∧
      ((∀ call, nand.driver.fails call = false) → ret = 0) ∧
      (ret = 0 → ∀ i < len, back.memory i = byteAt mtd nand.data (addr + i)) := by
  obtain ⟨ret, back, ended, clean⟩ := @rw_returns mtd true addr len probed nand good memory
  refine ⟨ret, back, ended, clean, ?_⟩
  intro fine
  obtain ⟨last, reached, leaves⟩ := ends_reaches ended
  have start : Reading mtd nand addr len (started nand memory addr len) :=
    ⟨moving_start memory, rfl, fun i below => absurd below (Nat.not_lt_zero i)⟩
  have reading := reaches_keeps (Reading mtd nand addr len)
    (fun _ _ state goes => reading_next probed inside good state goes) start reached
  rcases round_leaves good reading.moving leaves with ⟨done, result⟩ | ⟨-, -, failed⟩
  · cases result
    have whole := reading.moving.rest
    intro i below
    exact reading.copied i (by omega)
  · rw [fine] at failed
    cases failed

end Read

/-- The device with another outcome of its commands. -/
def withFails (nand : Device) (fails : Nat → Bool) : Device :=
  { nand with driver := { nand.driver with fails := fails } }

/-- What a write that succeeded has to leave behind: a read of the range returns, has no error if no
command fails, and gives the data if it has none, as long as the blocks are good under the outcome of
its commands; and the bytes outside the range are as before. -/
structure Kept (mtd : MtdInfo) (nand : Device) (written : RwData) (buf : Nat → UInt8)
    (addr len : Nat) : Prop where
  readBack : ∀ fails memory, GoodArea mtd (withFails nand fails).driver addr len →
    ∃ ret back, rwBuff mtd true (withFails written.nand fails) memory addr len (ret, back) ∧
      ((∀ call, fails call = false) → ret = 0) ∧ (ret = 0 → ∀ i < len, back.memory i = buf i)
  others : ∀ a < mtd.size, ¬ (addr ≤ a ∧ a < addr + len) →
    byteAt mtd written.nand.data a = byteAt mtd nand.data a

theorem keeps_with_fails {mtd : MtdInfo} {before after : Device} (fails : Nat → Bool)
    (keeps : Keeps mtd before.driver after.driver) :
    Keeps mtd (withFails before fails).driver (withFails after fails).driver :=
  ⟨keeps.force, rfl, keeps.marks, keeps.states⟩

theorem good_without_fails {mtd : MtdInfo} {nand : Device} {addr len : Nat}
    (good : GoodArea mtd nand.driver addr len) :
    GoodArea mtd (withFails nand fun _ => false).driver addr len := by
  intro a front back
  refine usable_iff.mp ?_
  rcases usable_iff.mpr (good a front back) with force | erased | used | ⟨unknown, -, here, behind⟩
  · exact Or.inl force
  · exact Or.inr (Or.inl erased)
  · exact Or.inr (Or.inr (Or.inl used))
  · exact Or.inr (Or.inr (Or.inr ⟨unknown, fun _ => rfl, here, behind⟩))

section Settled
variable {mtd : MtdInfo} {nand : Device} {memory : Nat → UInt8} {addr len : Nat} {written : RwData}
  (probed : Probed mtd) (area : ErasedGood mtd nand addr len)
  (success : rwBuff mtd false nand memory addr len (0, written))
include probed area success

theorem written_good {fails : Nat → Bool} (good : GoodArea mtd (withFails nand fails).driver addr len) :
    GoodArea mtd (withFails written.nand fails).driver addr len := by
  have reached := (written_reached probed area success).1
  have keeps := (reached_writing probed area reached).moving.keeps
  exact keeps_good (keeps_with_fails fails keeps) good

theorem kept_iff_placed : Kept mtd nand written memory addr len ↔
    Placed mtd nand.data written.nand.data memory addr (addr + len) := by
  constructor
  · intro kept a device
    by_cases covered : addr ≤ a ∧ a < addr + len
    · have good := good_without_fails area.good
      obtain ⟨ret, back, ended, clean, gives⟩ := kept.readBack (fun _ => false) memory good
      obtain ⟨ret', back', ended', -, copies⟩ := read_returns probed area.inside
        (written_good probed area success good) memory
      have same := ends_unique ended ended'
      have fine := clean fun _ => rfl
      cases same
      have data := gives fine (a - addr) (by omega)
      have byte := copies fine (a - addr) (by omega)
      rw [Nat.add_sub_cancel' covered.1] at byte
      rw [if_pos covered]
      exact byte.symm.trans data
    · rw [if_neg covered]
      exact kept.others a device covered
  · intro placed
    refine ⟨?_, ?_⟩
    · intro fails target good
      obtain ⟨ret, back, ended, clean, copies⟩ := read_returns probed area.inside
        (written_good probed area success good) target
      refine ⟨ret, back, ended, clean, ?_⟩
      intro fine i below
      have limit := area.inside
      refine (copies fine i below).trans ((placed (addr + i) (by omega)).trans ?_)
      rw [if_pos ⟨Nat.le_add_right addr i, Nat.add_lt_add_left below addr⟩, Nat.add_sub_cancel_left]
    · intro a device outside
      exact (placed a device).trans (if_neg outside)

end Settled

/-- Whole pages always fit. -/
theorem whole_pages_kept {mtd : MtdInfo} {nand : Device} {memory : Nat → UInt8} {addr len : Nat}
    {written : RwData} (probed : Probed mtd) (area : ErasedGood mtd nand addr len)
    (success : rwBuff mtd false nand memory addr len (0, written))
    (start : mtd.writesize ∣ addr) (size : mtd.writesize ∣ len) :
    Kept mtd nand written memory addr len := by
  refine (kept_iff_placed probed area success).mpr (fits_placed probed area success ?_)
  intro rw reached more short
  have moving := (reached_writing probed area reached).moving
  have place := moving.place
  have rest := moving.rest
  have front : mtd.writesize ∣ rw.addr := by
    rcases moving.edge with first | done | edge
    · rw [place, first]
      exact start
    · omega
    · exact Nat.dvd_of_mod_eq_zero edge
  have whole : mtd.writesize ∣ rw.addr + rw.len := by
    have limit : rw.addr + rw.len = addr + len := by omega
    rw [limit]
    exact Nat.dvd_add start size
  have page := Nat.le_of_dvd more ((Nat.dvd_add_right front).mp whole)
  rw [iolenAt, Nat.mod_eq_zero_of_dvd front, Nat.sub_zero, Nat.min_eq_right page] at short
  exact absurd short (Nat.lt_irrefl _)

/-! ### The devices -/

/-- Chips with large pages, up to the 20 bits of their page number. -/
theorem large_probed {mtd : MtdInfo} (large : mtd.isSmallBlockDevice = false)
    (size : mtd.size ≤ 2 ^ 20 * mtd.writesize) (ecc : mtd.writesize + 2 ≤ mtd.eccOffset) :
    Probed mtd := by
  refine ⟨?_, Or.inr ecc⟩
  intro a inside
  have number : a / mtd.writesize < 2 ^ 20 := by
    refine Nat.div_lt_of_lt_mul ?_
    rw [Nat.mul_comm]
    exact Nat.lt_of_lt_of_le inside size
  have unit : 2 ^ mtd.writesizeShift = mtd.writesize := rfl
  have low : (0xf : Nat) = 2 ^ 4 - 1 := rfl
  rw [pageAt, athNandConvAddr, large]
  simp only [Bool.false_and, Bool.false_eq_true, if_false, Nat.shiftRight_eq_div_pow,
    Nat.shiftLeft_eq, Nat.pow_add, ← Nat.div_div_eq_div_mul, unit, low,
    Nat.and_two_pow_sub_one_eq_mod]
  omega

/-- Chips with pages of 512 bytes, up to 64 MiB; they have no ECC. -/
theorem small_probed {mtd : MtdInfo} (small : mtd.isSmallBlockDevice = true)
    (page : mtd.writesizeShift = 9) (size : mtd.size ≤ 2 ^ 26) (ecc : mtd.eccOffset = 0) :
    Probed mtd := by
  refine ⟨?_, Or.inl ecc⟩
  intro a inside
  have unit : mtd.writesize = 512 := by
    rw [MtdInfo.writesize, page]
    decide
  have half : ((a - a % 512) % 2 ^ 32) >>> 1 = (a / 512) <<< 8 := by
    rw [Nat.shiftRight_eq_div_pow, Nat.shiftLeft_eq]
    omega
  have low : (a - a % 512) % 2 ^ 32 &&& 0xff = 0 := by
    have mask : (0xff : Nat) = 2 ^ 8 - 1 := rfl
    rw [mask, Nat.and_two_pow_sub_one_eq_mod]
    omega
  have high : (a / 512) <<< 8 &&& 0xffffff00 = (a / 512) <<< 8 := by
    have mask : (0xffffff00 : Nat) = (2 ^ 24 - 1) <<< 8 := rfl
    rw [mask, ← Nat.shiftLeft_and_distrib, Nat.and_two_pow_sub_one_eq_mod,
      Nat.mod_eq_of_lt (by omega)]
  rw [pageAt, athNandConvAddr, small, unit]
  simp only [Bool.and_false, Bool.false_eq_true, if_false, if_true]
  rw [low, half, high, Nat.zero_or, Nat.and_two_pow_sub_one_eq_mod, Nat.shiftRight_eq_div_pow,
    Nat.shiftLeft_eq]
  omega

theorem large_pages_probed : Probed largePages :=
  large_probed rfl (by decide) (by decide)

/-- An erased chip, with all blocks recorded as erased. -/
def blank : Device where
  driver := {
    bbt := some fun _ => 0xffffffff
    force := false
    oob := fun _ _ => 0xff
    programmed := fun _ => false
    fails := fun _ => false
    spare := fun _ _ => 0
    calls := 0 }
  data _ _ := 0xff
  io _ := 0
  noise _ _ := 0

theorem blank_usable (ofs : Nat) : Usable largePages blank.driver ofs := by
  refine Or.inr (Or.inl ?_)
  have entries : ∀ place < 16, (0xffffffff#32 >>> (place * 2)) &&& 3#32 = ATH_NAND_BLK_ERASED := by
    decide
  exact entries _ (Nat.mod_lt _ (by decide))

theorem blank_area {addr len : Nat} (inside : addr + len ≤ largePages.size) :
    ErasedGood largePages blank addr len := by
  refine ⟨inside, ?_, fun a _ _ => usable_iff.mp (blank_usable a)⟩
  intro a _ _
  refine ⟨fun _ _ => rfl, ?_⟩
  exact List.all_eq_true.mpr fun _ _ => rfl

theorem blank_written (memory : Nat → UInt8) {addr len : Nat}
    (inside : addr + len ≤ largePages.size) :
    ∃ written, rwBuff largePages false blank memory addr len (0, written) := by
  obtain ⟨ret, written, ended, clean⟩ :=
    @rw_returns largePages false addr len large_pages_probed blank (blank_area inside).good memory
  rw [clean fun _ => rfl] at ended
  exact ⟨written, ended⟩

/-- A write that succeeds keeps the data and the bytes around it exactly if every round fits. -/
theorem write_kept_iff {mtd : MtdInfo} {nand : Device} {memory : Nat → UInt8} {addr len : Nat}
    {written : RwData} (probed : Probed mtd) (area : ErasedGood mtd nand addr len)
    (success : rwBuff mtd false nand memory addr len (0, written)) :
    Kept mtd nand written memory addr len ↔
      ∀ rw, Reaches (rwDataStep mtd false) (started nand memory addr len) rw → Fits mtd rw := by
  rw [kept_iff_placed probed area success]
  constructor
  · exact fun placed rw reached => placed_fits probed area success placed reached
  · exact fits_placed probed area success

/-- One page of zeros at the start. -/
theorem zero_page_kept : ∃ written, rwBuff largePages false blank (fun _ => 0) 0 2048 (0, written) ∧
    (Kept largePages blank written (fun _ => 0) 0 2048 ↔
      ∀ rw, Reaches (rwDataStep largePages false) (started blank (fun _ => 0) 0 2048) rw →
        Fits largePages rw) := by
  have inside : 0 + 2048 ≤ largePages.size := by decide
  obtain ⟨written, success⟩ := blank_written (fun _ => 0) inside
  exact ⟨written, success, write_kept_iff large_pages_probed (blank_area inside) success⟩

/-- A byte that is written at address 1 comes to address 0. -/
theorem odd_byte_lost : ∃ written, rwBuff largePages false blank (fun _ => 0x12) 1 1 (0, written) ∧
    ¬ Kept largePages blank written (fun _ => 0x12) 1 1 := by
  have inside : 1 + 1 ≤ largePages.size := by decide
  have area := blank_area inside
  obtain ⟨written, success⟩ := blank_written (fun _ => 0x12) inside
  refine ⟨written, success, ?_⟩
  intro kept
  have placed := (kept_iff_placed large_pages_probed area success).mp kept
  have fits := placed_fits large_pages_probed area success placed .start
  rcases fits (by decide) (by decide) with ones | ⟨first | data, -⟩
  · have byte := (all_ones_iff largePages (fun _ => 0x12) 0).mp ones 0 (by decide)
    exact absurd byte (by decide)
  · exact absurd first (by decide)
  · exact absurd (data 0 (by decide)) (by decide)

end UBoot.Nand.PageWrites
