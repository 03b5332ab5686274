import UBoot.Library.NorFlash
import UBoot.Nand.LegacyRw

/-!
nand_write_page and nand_write_ecc of the old NAND driver, byte by byte: what of the buffer is
read, and what the flash holds afterwards. A program command clears bits of one page, from the
column of its address on; bytes that are sent past the end of the page are dropped. Addresses and
lengths are 32-bit numbers, and written pages are not read back.
-/

namespace UBoot.Nand.WritePage

open Library.Memory Library.NorFlash LegacyRw

/-- A chip as NanD_IdentChip sets it up. -/
structure PageChip extends NandChip where
  page256 : Bool
  pageadrlen : Nat
  size : oobblock = if page256 then 256 else 512

def PageChip.oobsize (chip : PageChip) : Nat := if chip.page256 then 8 else 16

def eccsize : Nat := 256

/-- Where `oob_config` puts the six ECC bytes and their mark, if there is one. -/
structure OobConfig where
  eccPos : Nat → Nat
  eccvalidPos : Option Nat

/-- What the chip holds behind the bytes of a row, and what it answers. -/
structure Device where
  behind : Nat → Nat → UInt8
  isProtected : Bool
  failed : Nat → Bool

/-- data_buf, and the bytes of the flash. -/
structure Flash where
  dataBuf : Nat → UInt8
  cells : Nat → UInt8

/-- A buffer to write; it lies in memory beside data_buf. -/
structure Request (chip : PageChip) where
  dest : Nat
  len : Nat
  /-- The memory from `buf` on, past the buffer's end too. -/
  buf : Nat → UInt8
  inside : dest < 2 ^ 32
  fits : len + chip.oobblock + chip.oobsize ≤ 2 ^ 32

structure Writing where
  ret : Int
  retlen : Nat
  /-- The indices of `buf` that are read. -/
  reads : List Nat
  flash : Flash

def Writing.after (reads : List Nat) (rest : Writing) : Writing :=
  { rest with reads := reads ++ rest.reads }

section Code
variable (chip : PageChip) (config : OobConfig)
/- nand_calculate_ecc: the three code bytes of 256 bytes. -/
variable (calculate : (Nat → UInt8) → Nat → UInt8)

/-- The row that the address bytes of NanD_Address name, and the byte of it where the access
starts; NAND_CMD_READ0 sets the chip to the first 256 columns before. -/
def nanDAddress (page col : Nat) : Nat × Nat :=
  let ofs := (page * chip.oobblock + if chip.bus16 then col / 2 else col) % 2 ^ 32
  -- pageadrlen bytes of the page, and one byte of the column, which counts words on a 16-bit bus
  (ofs / chip.oobblock % 2 ^ (8 * chip.pageadrlen),
    if chip.bus16 then 2 * (ofs % 256) else ofs % 256)

def readByte (device : Device) (cells : Nat → UInt8) (row pos : Nat) : UInt8 :=
  if pos < chip.oobblock then cells (row * chip.oobblock + pos) else device.behind row pos

/-- NAND_CMD_PAGEPROG for the bytes that were sent from `start` of a row on. -/
def program (row start : Nat) (data cells : Nat → UInt8) : Nat → UInt8 := fun address =>
  if address / chip.oobblock = row ∧ start ≤ address % chip.oobblock then
    cells address &&& data (address % chip.oobblock - start)
  else cells address

def putCode (first : Nat) (code : Nat → UInt8) (data : Nat → UInt8) : Nat → UInt8 :=
  (List.range 3).foldl
    (fun data i => splice data (chip.oobblock + config.eccPos (first + i)) [code i]) data

/-- Changes the mark of the ECC bytes, where the layout has one. -/
def putMark (change : UInt8 → UInt8) (data : Nat → UInt8) : Nat → UInt8 :=
  match config.eccvalidPos with
  | none => data
  | some pos => splice data (chip.oobblock + pos) [change (data (chip.oobblock + pos))]

/-- Calculates and writes the ECC if there is enough data. -/
def putEcc (col last : Nat) (data : Nat → UInt8) : Nat → UInt8 :=
  let data := if col < eccsize ∧ eccsize ≤ last then
      putMark chip config (fun _ => 0xf0) (putCode chip config 0 (calculate data) data)
    else data
  if chip.oobblock = 512 ∧ last = chip.oobblock then
    putMark chip config (· &&& 0x0f)
      (putCode chip config 3 (calculate fun i => data (256 + i)) data)
  else data

/-- How many bytes are read back in front of the column; a 16-bit bus gives two at a time. -/
def readBack (col : Nat) : Nat := if chip.bus16 then 2 * ((col + 1) / 2) else col

/-- The bytes of data_buf that are sent to the chip. -/
def pageData (device : Device) (page col last : Nat) (flash : Flash) : Nat → UInt8 :=
  let (row, start) := nanDAddress chip page col
  let data := splice flash.dataBuf chip.oobblock (List.replicate chip.oobsize 0xff)
  -- Read back previous written data, if col > 0
  let data := splice data 0
    (slice (readByte chip device flash.cells row) start (readBack chip col))
  let data := putEcc chip config calculate col last data
  -- Prepad and postpad for partial page programming
  let data := splice data 0 (List.replicate col 0xff)
  splice data last (List.replicate (chip.oobblock - last) 0xff)

def nandWritePage (device : Device) (page col last : Nat) (flash : Flash) : Int × Flash :=
  let (row, start) := nanDAddress chip page col
  let data := pageData chip config calculate device page col last flash
  (if device.failed page then -1 else 0, ⟨data, program chip row start data flash.cells⟩)

/-- The bytes of `buf` that go into the next page. -/
def count (len col retlen : Nat) : Nat :=
  if chip.oobblock ≤ (col + len) % 2 ^ 32 then chip.oobblock - col else len - retlen

def writeLoop (device : Device) (request : Request chip) :
    (fuel page col retlen : Nat) → Flash → Writing
  | 0, _, _, _, flash => ⟨0, request.len, [], flash⟩
  | fuel + 1, page, col, retlen, flash =>
      if retlen < request.len then
        let cnt := count chip request.len col retlen
        let reads := (List.range cnt).map (retlen + ·)
        let dataBuf := splice flash.dataBuf col (slice request.buf retlen cnt)
        let (ret, flash) := nandWritePage chip config calculate device page col (col + cnt)
          { flash with dataBuf := dataBuf }
        if ret ≠ 0 then ⟨ret, retlen, reads, flash⟩
        else (writeLoop device request fuel (page + 1) 0 (retlen + cnt) flash).after reads
      else ⟨0, request.len, [], flash⟩

def nandWriteEcc (device : Device) (request : Request chip) (flash : Flash) : Writing :=
  -- Do not allow write past end of device
  if chip.totlen < (request.dest + request.len) % 2 ^ 32 then ⟨-1, 0, [], flash⟩
  -- Check the WP bit
  else if device.isProtected then ⟨-1, 0, [], flash⟩
  else writeLoop chip config calculate device request request.len (request.dest / chip.oobblock)
    (request.dest % chip.oobblock) 0 flash

end Code

variable {chip : PageChip}

/-- The byte of the buffer that belongs to an address. -/
def Request.wanted (request : Request chip) (address : Nat) : UInt8 :=
  request.buf (address - request.dest)

/-- The range was programmed with the buffer's bytes, and nothing else; nothing else was read. -/
structure Exact (request : Request chip) (before : Flash) (result : Writing) : Prop where
  range : request.dest + request.len ≤ chip.totlen
  programmed : ∀ address, result.flash.cells address = before.cells address &&&
    window request.wanted request.dest (request.dest + request.len) address
  read : ∀ index ∈ result.reads, index < request.len
  retlen : result.retlen = request.len

/-- The byte of a row where an access starts. -/
def startOf (chip : PageChip) (col : Nat) : Nat :=
  if chip.bus16 then 2 * (col / 2 % 256) else col % 256

/-- A request that the pages can carry. Bytes 0xff leave the flash as it is. -/
structure Carried (request : Request chip) : Prop where
  range : request.dest + request.len ≤ chip.totlen
  whole : request.len < chip.oobblock ∨ chip.oobblock ∣ request.dest + request.len
  aligned : startOf chip (request.dest % chip.oobblock) = 0 ∨
    ∀ k < request.len, request.dest % chip.oobblock + k < chip.oobblock → request.buf k = 0xff
  paired : chip.bus16 = true → request.dest % chip.oobblock % 2 = 1 → 0 < request.len →
    request.buf 0 = 0xff
  rows : ∀ k < request.len, 2 ^ (8 * chip.pageadrlen) * chip.oobblock ≤ request.dest + k →
    request.buf k = 0xff

section Page
variable (config : OobConfig) (calculate : (Nat → UInt8) → Nat → UInt8)

theorem put_code_data (first i : Nat) (code data : Nat → UInt8) (main : i < chip.oobblock) :
    putCode chip config first code data i = data i := by
  have apart : ∀ (data : Nat → UInt8) pos byte,
      splice data (chip.oobblock + pos) [byte] i = data i := fun data pos byte =>
    splice_outside data (chip.oobblock + pos) [byte] i (Or.inl (by omega))
  simp only [putCode, List.range, List.range.loop, List.foldl_cons, List.foldl_nil, apart]

theorem put_mark_data (change : UInt8 → UInt8) (i : Nat) (data : Nat → UInt8)
    (main : i < chip.oobblock) : putMark chip config change data i = data i := by
  unfold putMark
  cases config.eccvalidPos with
  | none => rfl
  | some pos => exact splice_outside _ _ _ _ (Or.inl (by omega))

/-- The code and its mark go behind the page. -/
theorem put_ecc_data (col last i : Nat) (data : Nat → UInt8) (main : i < chip.oobblock) :
    putEcc chip config calculate col last data i = data i := by
  have coded : ∀ first code (data : Nat → UInt8) change,
      putMark chip config change (putCode chip config first code data) i = data i := by
    intro first code data change
    rw [put_mark_data config change i _ main, put_code_data config first i code data main]
  simp only [putEcc, apply_ite (fun data : Nat → UInt8 => data i), coded, ite_self]

theorem page_data (device : Device) (page col last i : Nat) (flash : Flash)
    (main : i < chip.oobblock) :
    pageData chip config calculate device page col last flash i =
      if i < col ∨ last ≤ i then 0xff
      else if i < readBack chip col then
        readByte chip device flash.cells (nanDAddress chip page col).1
          ((nanDAddress chip page col).2 + i)
      else flash.dataBuf i := by
  simp only [pageData, splice_replicate, put_ecc_data config calculate _ _ _ _ main, splice_slice,
    Nat.zero_add, Nat.zero_le, true_and, Nat.sub_zero]
  have front : ¬(chip.oobblock ≤ i ∧ i < chip.oobblock + chip.oobsize) := by omega
  rw [if_neg front]
  by_cases behind : last ≤ i
  · rw [if_pos (by omega), if_pos (Or.inr behind)]
  · have early : ¬(last ≤ i ∧ i < last + (chip.oobblock - last)) := by omega
    rw [if_neg early]
    by_cases before : i < col
    · rw [if_pos before, if_pos (Or.inl before)]
    · rw [if_neg before, if_neg (not_or.mpr ⟨before, behind⟩)]

/-- A 16-bit bus gives one byte too many in front of an odd column. -/
def Overread (chip : PageChip) (col i : Nat) : Prop := chip.bus16 = true ∧ col % 2 = 1 ∧ i = col

instance (chip : PageChip) (col i : Nat) : Decidable (Overread chip col i) :=
  inferInstanceAs (Decidable (_ ∧ _))

theorem read_back_passes (col i : Nat) (behind : col ≤ i) :
    i < readBack chip col ↔ Overread chip col i := by
  unfold readBack Overread
  split
  · rename_i wide
    simp only [wide, true_and]
    omega
  · rename_i narrow
    simp only [narrow, Bool.false_eq_true, false_and, iff_false]
    omega

/-- What is left of an erased flash when a page is programmed from `cnt` bytes of the buffer. -/
def pageMask (chip : PageChip) (request : Request chip) (page col retlen cnt : Nat) :
    Nat → UInt8 := fun address =>
  let (row, start) := nanDAddress chip page col
  let i := address % chip.oobblock - start
  if address / chip.oobblock = row ∧ start ≤ address % chip.oobblock ∧ col ≤ i ∧ i < col + cnt ∧
      ¬Overread chip col i then
    request.buf (retlen + (i - col))
  else 0xff

theorem write_page_cells (device : Device) (request : Request chip) (page col retlen cnt : Nat)
    (flash : Flash) (address : Nat) :
    (nandWritePage chip config calculate device page col (col + cnt)
        { flash with dataBuf := splice flash.dataBuf col (slice request.buf retlen cnt) }).2.cells
          address =
      flash.cells address &&& pageMask chip request page col retlen cnt address := by
  unfold nandWritePage program pageMask
  generalize place : nanDAddress chip page col = spot
  obtain ⟨row, start⟩ := spot
  have column := Nat.mod_lt address chip.page
  simp only
  by_cases sent : address / chip.oobblock = row ∧ start ≤ address % chip.oobblock
  · rw [if_pos sent, page_data config calculate device page col (col + cnt) _ _ (by omega), place]
    by_cases padded : address % chip.oobblock - start < col ∨
        col + cnt ≤ address % chip.oobblock - start
    · rw [if_pos padded, if_neg (by omega)]
    · rw [if_neg padded]
      have passes := @read_back_passes chip col _ (Nat.le_of_not_lt (not_or.mp padded).1)
      by_cases again : Overread chip col (address % chip.oobblock - start)
      · have back : start + (address % chip.oobblock - start) = address % chip.oobblock := by omega
        have same : row * chip.oobblock + address % chip.oobblock = address := by
          rw [← sent.1, Nat.div_add_mod']
        rw [if_pos (passes.mpr again), if_neg (fun all => all.2.2.2.2 again), back]
        simp only [readByte]
        rw [if_pos column, same]
        exact (UInt8.and_self).trans (UInt8.and_neg_one).symm
      · have copied : col ≤ address % chip.oobblock - start ∧
            address % chip.oobblock - start < col + cnt := by omega
        rw [if_neg (fun less => again (passes.mp less)),
          if_pos ⟨sent.1, sent.2, copied.1, copied.2, again⟩]
        simp only [splice_slice]
        rw [if_pos copied]
  · rw [if_neg sent, if_neg (fun all => sent ⟨all.1, all.2.1⟩)]
    exact (UInt8.and_neg_one).symm

end Page

section Rounds
variable (request : Request chip)

theorem bytes_of_page : 256 ∣ chip.oobblock := by
  rw [chip.size]
  split <;> decide

theorem nan_d_address (page col : Nat) (column : col < chip.oobblock)
    (small : page * chip.oobblock + col < 2 ^ 32) :
    nanDAddress chip page col = (page % 2 ^ (8 * chip.pageadrlen), startOf chip col) := by
  have half : (if chip.bus16 then col / 2 else col) ≤ col := by
    split <;> omega
  have row :
      (page * chip.oobblock + if chip.bus16 then col / 2 else col) / chip.oobblock = page := by
    rw [Nat.add_comm, Nat.add_mul_div_right _ _ chip.page, Nat.div_eq_of_lt (by omega),
      Nat.zero_add]
  have low : ∀ x, (page * chip.oobblock + x) % 256 = x % 256 := by
    intro x
    obtain ⟨q, whole⟩ := @bytes_of_page chip
    rw [whole, show page * (256 * q) = 256 * (page * q) by ring, Nat.mul_add_mod]
  have whole : page * chip.oobblock + (if chip.bus16 then col / 2 else col) < 2 ^ 32 := by omega
  simp only [nanDAddress]
  rw [Nat.mod_eq_of_lt whole, row, low]
  unfold startOf
  split <;> rfl

theorem count_eq (col retlen : Nat) (column : col < chip.oobblock) :
    count chip request.len col retlen =
      if chip.oobblock ≤ col + request.len then chip.oobblock - col else request.len - retlen := by
  have fits := request.fits
  have spare : 0 < chip.oobsize := by
    unfold PageChip.oobsize
    split <;> decide
  rw [count, Nat.mod_eq_of_lt (by omega)]

/-- A page takes its part of the buffer to the place of it in the flash. -/
theorem page_mask_window (page col retlen cnt : Nat) (column : col + cnt ≤ chip.oobblock)
    (positive : 0 < cnt) (place : page * chip.oobblock + col = request.dest + retlen)
    (part : retlen + cnt ≤ request.len) (range : request.dest + request.len ≤ chip.totlen)
    (aligned : startOf chip col = 0 ∨
      ∀ k, retlen ≤ k → k < retlen + cnt → request.buf k = 0xff)
    (paired : chip.bus16 = true → col % 2 = 1 → request.buf retlen = 0xff)
    (rows : ∀ k < request.len, 2 ^ (8 * chip.pageadrlen) * chip.oobblock ≤ request.dest + k →
      request.buf k = 0xff) (address : Nat) :
    pageMask chip request page col retlen cnt address =
      window request.wanted (request.dest + retlen) (request.dest + (retlen + cnt)) address := by
  have sized := chip.sized
  have spot := @nan_d_address chip page col (by omega) (by omega)
  simp only [pageMask, spot, window, Request.wanted]
  by_cases plain : ∀ k, retlen ≤ k → k < retlen + cnt → request.buf k = 0xff
  · have left : ∀ p : Prop, [Decidable p] → ∀ k, (p → retlen ≤ k ∧ k < retlen + cnt) →
        (if p then request.buf k else 0xff) = 0xff := by
      intro p _ k inside
      split
      · rename_i holds
        exact plain k (inside holds).1 (inside holds).2
      · rfl
    rw [left _ _ (fun all => ⟨by omega, by omega⟩), left _ _ (fun all => ⟨by omega, by omega⟩)]
  · have start : startOf chip col = 0 := aligned.resolve_right plain
    have low : page < 2 ^ (8 * chip.pageadrlen) := by
      by_contra high
      have past := Nat.mul_le_mul_right chip.oobblock (Nat.le_of_not_lt high)
      exact plain fun k above below => rows k (by omega) (by omega)
    rw [Nat.mod_eq_of_lt low, start, Nat.sub_zero]
    have split := Nat.div_add_mod' address chip.oobblock
    have bound := Nat.mod_lt address chip.page
    by_cases here : address / chip.oobblock = page ∧ col ≤ address % chip.oobblock ∧
        address % chip.oobblock < col + cnt
    · have first := here.1
      rw [first] at split
      have index : request.dest + (retlen + (address % chip.oobblock - col)) = address := by omega
      rw [if_pos (show request.dest + retlen ≤ address ∧
        address < request.dest + (retlen + cnt) by omega), show address - request.dest =
          retlen + (address % chip.oobblock - col) by omega]
      by_cases again : Overread chip col (address % chip.oobblock)
      · rw [if_neg (fun all => all.2.2.2.2 again), again.2.2, Nat.sub_self, Nat.add_zero]
        exact (paired again.1 again.2.1).symm
      · rw [if_pos ⟨here.1, Nat.zero_le _, here.2.1, here.2.2, again⟩]
    · rw [if_neg (fun all => here ⟨all.1, all.2.2.1, all.2.2.2.1⟩), if_neg]
      intro covered
      have same : address / chip.oobblock = page := by
        apply Nat.div_eq_of_lt_le
        · omega
        · rw [Nat.add_mul]
          omega
      rw [same] at split
      exact here ⟨same, by omega, by omega⟩

end Rounds

section Runs
variable (request : Request chip)

/-- What the loop leaves of an erased flash. -/
def runMask : (fuel page col retlen : Nat) → Nat → UInt8
  | 0, _, _, _, _ => 0xff
  | fuel + 1, page, col, retlen, address =>
      if retlen < request.len then
        let cnt := count chip request.len col retlen
        pageMask chip request page col retlen cnt address &&&
          runMask fuel (page + 1) 0 (retlen + cnt) address
      else 0xff

def runReads : (fuel col retlen : Nat) → List Nat
  | 0, _, _ => []
  | fuel + 1, col, retlen =>
      if retlen < request.len then
        let cnt := count chip request.len col retlen
        (List.range cnt).map (retlen + ·) ++ runReads fuel 0 (retlen + cnt)
      else []

section Success
variable (config : OobConfig) (calculate : (Nat → UInt8) → Nat → UInt8) (device : Device)

/-- A run that succeeds has written all its pages. -/
theorem write_loop_success (fuel page col retlen : Nat) (flash : Flash)
    (success :
      (writeLoop chip config calculate device request fuel page col retlen flash).ret = 0) :
    (∀ address, (writeLoop chip config calculate device request fuel page col retlen
        flash).flash.cells address =
      flash.cells address &&& runMask request fuel page col retlen address) ∧
    (writeLoop chip config calculate device request fuel page col retlen flash).reads =
      runReads request fuel col retlen ∧
    (writeLoop chip config calculate device request fuel page col retlen flash).retlen =
      request.len := by
  induction fuel generalizing page col retlen flash with
  | zero => exact ⟨fun _ => UInt8.and_neg_one.symm, rfl, rfl⟩
  | succ fuel ih =>
      by_cases more : retlen < request.len
      · have cells := write_page_cells config calculate device request page col retlen
          (count chip request.len col retlen) flash
        simp only [writeLoop, if_pos more] at success ⊢
        generalize nandWritePage chip config calculate device page col _ _ = written at *
        obtain ⟨ret, after⟩ := written
        by_cases failed : ret ≠ 0
        · rw [if_pos failed] at success
          exact absurd success failed
        · rw [if_neg failed] at success ⊢
          obtain ⟨rest, reads, retlen'⟩ := ih (page + 1) 0 _ after success
          refine ⟨fun address => ?_, ?_, retlen'⟩
          · refine (rest address).trans ?_
            rw [cells address, UInt8.and_assoc, runMask, if_pos more]
          · simp only [Writing.after, reads, runReads, if_pos more]
      · simp only [writeLoop, runMask, runReads, if_neg more]
        exact ⟨fun _ => UInt8.and_neg_one.symm, trivial, trivial⟩

theorem write_loop_good (good : ∀ page, device.failed page = false)
    (fuel page col retlen : Nat) (flash : Flash) :
    (writeLoop chip config calculate device request fuel page col retlen flash).ret = 0 := by
  induction fuel generalizing page col retlen flash with
  | zero => rfl
  | succ fuel ih =>
      simp only [writeLoop, nandWritePage, good]
      split
      · exact ih _ _ _ _
      · rfl

end Success

/-- Every page the loop writes is whole, or the only one but the first. -/
theorem count_fits (page retlen : Nat) (more : retlen < request.len)
    (place : page * chip.oobblock = request.dest + retlen)
    (whole : request.len < chip.oobblock ∨ chip.oobblock ∣ request.dest + request.len) :
    0 < count chip request.len 0 retlen ∧ count chip request.len 0 retlen ≤ chip.oobblock ∧
      retlen + count chip request.len 0 retlen ≤ request.len := by
  have positive := chip.page
  rw [count_eq request 0 retlen positive, Nat.zero_add, Nat.sub_zero]
  split
  · rename_i full
    obtain ⟨last, ends⟩ := whole.resolve_left (by omega)
    have ahead : page < last := by
      by_contra back
      have less := Nat.mul_le_mul_left chip.oobblock (Nat.le_of_not_lt back)
      rw [← ends, Nat.mul_comm, place] at less
      omega
    have less := Nat.mul_le_mul_left chip.oobblock (Nat.succ_le_of_lt ahead)
    rw [← ends, Nat.mul_succ, Nat.mul_comm, place] at less
    omega
  · omega

/-- A last page that is not whole is filled from behind the buffer. -/
theorem run_overread (long : chip.oobblock ≤ request.len)
    (ragged : ¬chip.oobblock ∣ request.dest + request.len) (fuel page col retlen : Nat)
    (column : col < chip.oobblock) (enough : request.len - retlen ≤ fuel)
    (more : retlen < request.len)
    (place : page * chip.oobblock + col = request.dest + retlen) :
    ∃ index ∈ runReads request fuel col retlen, request.len ≤ index := by
  induction fuel generalizing page col retlen with
  | zero => omega
  | succ fuel ih =>
      have full : count chip request.len col retlen = chip.oobblock - col := by
        rw [count_eq request col retlen column, if_pos (by omega)]
      have next : (page + 1) * chip.oobblock = request.dest + (retlen + (chip.oobblock - col)) := by
        rw [Nat.add_mul]
        omega
      rw [runReads, if_pos more]
      simp only [full]
      by_cases again : retlen + (chip.oobblock - col) < request.len
      · obtain ⟨index, member, past⟩ := ih (page + 1) 0 _ chip.page (by omega) again next
        exact ⟨index, List.mem_append_right _ member, past⟩
      · have past : retlen + (chip.oobblock - col) ≠ request.len := by
          intro ends
          rw [ends] at next
          exact ragged ⟨page + 1, by rw [← next, Nat.mul_comm]⟩
        refine ⟨retlen + (chip.oobblock - col - 1), ?_, by omega⟩
        exact List.mem_append_left _ (List.mem_map.mpr ⟨_, List.mem_range.mpr (by omega), rfl⟩)

/-- No address bytes name a row behind the last one. -/
theorem run_mask_above (fuel page col retlen address : Nat)
    (above : 2 ^ (8 * chip.pageadrlen) * chip.oobblock ≤ address) :
    runMask request fuel page col retlen address = 0xff := by
  induction fuel generalizing page col retlen with
  | zero => rfl
  | succ fuel ih =>
      have high := (Nat.le_div_iff_mul_le chip.page).mpr above
      have row : (nanDAddress chip page col).1 < 2 ^ (8 * chip.pageadrlen) :=
        Nat.mod_lt _ (Nat.two_pow_pos _)
      rw [runMask]
      split
      · simp only [ih, pageMask]
        generalize nanDAddress chip page col = spot at row
        obtain ⟨low, start⟩ := spot
        simp only at row ⊢
        rw [if_neg (fun all => by omega)]
        rfl
      · rfl

end Runs

section First
variable (request : Request chip)

/-- The first page takes the bytes up to its end, or the whole buffer. -/
theorem first_count : count chip request.len (request.dest % chip.oobblock) 0 =
    min (chip.oobblock - request.dest % chip.oobblock) request.len := by
  have column := Nat.mod_lt request.dest chip.page
  rw [count_eq request _ 0 column]
  split <;> omega

section Fitting
/- What an exact write and a request that the pages can carry have in common. -/
variable (range : request.dest + request.len ≤ chip.totlen)
  (whole : request.len < chip.oobblock ∨ chip.oobblock ∣ request.dest + request.len)
  (rows : ∀ k < request.len, 2 ^ (8 * chip.pageadrlen) * chip.oobblock ≤ request.dest + k →
    request.buf k = 0xff)
include range whole rows

/-- From a page boundary on, the loop writes its part of the buffer, and reads no more of it. -/
theorem run_window (fuel page retlen : Nat) (enough : request.len - retlen ≤ fuel)
    (upto : retlen ≤ request.len)
    (place : retlen < request.len → page * chip.oobblock = request.dest + retlen) :
    (∀ address, runMask request fuel page 0 retlen address =
      window request.wanted (request.dest + retlen) (request.dest + request.len) address) ∧
    ∀ index ∈ runReads request fuel 0 retlen, index < request.len := by
  induction fuel generalizing page retlen with
  | zero =>
      have done : retlen = request.len := by omega
      rw [done]
      exact ⟨fun address => (window_empty _ _ address).symm, fun _ member => by cases member⟩
  | succ fuel ih =>
      by_cases more : retlen < request.len
      · have place := place more
        obtain ⟨positive, short, part⟩ := count_fits request page retlen more place whole
        have next : retlen + count chip request.len 0 retlen < request.len →
            (page + 1) * chip.oobblock =
              request.dest + (retlen + count chip request.len 0 retlen) := by
          intro again
          rw [count_eq request 0 retlen chip.page, Nat.zero_add, Nat.sub_zero] at again ⊢
          rw [Nat.add_mul]
          split at again <;> split <;> omega
        obtain ⟨mask, reads⟩ := ih (page + 1) _ (by omega) part next
        have first := page_mask_window request page 0 retlen _ (by omega) positive place part range
          (Or.inl (by simp [startOf])) (fun _ odd => by cases odd) rows
        refine ⟨fun address => ?_, ?_⟩
        · rw [runMask, if_pos more]
          simp only
          rw [first, mask, window_join _ _ _ _ _ (by omega) (by omega)]
        · rw [runReads, if_pos more]
          intro index member
          rcases List.mem_append.mp member with here | later
          · obtain ⟨i, inside, rfl⟩ := List.mem_map.mp here
            have := List.mem_range.mp inside
            omega
          · exact reads index later
      · have done : retlen = request.len := by omega
        simp only [runMask, runReads, if_neg more]
        rw [done]
        exact ⟨fun address => (window_empty _ _ address).symm, fun _ member => by cases member⟩

/-- After the first page, the loop writes its part of the buffer. -/
theorem run_first (positive : 0 < request.len) :
    (∀ address, runMask request request.len (request.dest / chip.oobblock)
        (request.dest % chip.oobblock) 0 address =
      pageMask chip request (request.dest / chip.oobblock) (request.dest % chip.oobblock) 0
        (count chip request.len (request.dest % chip.oobblock) 0) address &&&
      window request.wanted
        (request.dest + count chip request.len (request.dest % chip.oobblock) 0)
        (request.dest + request.len) address) ∧
    ∀ index ∈ runReads request request.len (request.dest % chip.oobblock) 0,
      index < request.len := by
  obtain ⟨fuel, size⟩ := Nat.exists_eq_succ_of_ne_zero (Nat.ne_of_gt positive)
  have column := Nat.mod_lt request.dest chip.page
  have split := Nat.div_add_mod' request.dest chip.oobblock
  have first := first_count request
  have next : count chip request.len (request.dest % chip.oobblock) 0 < request.len →
      (request.dest / chip.oobblock + 1) * chip.oobblock =
        request.dest + count chip request.len (request.dest % chip.oobblock) 0 := by
    intro more
    rw [Nat.add_mul]
    omega
  obtain ⟨mask, reads⟩ := run_window request range whole rows fuel
    (request.dest / chip.oobblock + 1)
    (count chip request.len (request.dest % chip.oobblock) 0) (by omega) (by omega) next
  constructor
  · intro address
    conv_lhs => rw [size, runMask, if_pos positive]
    simp only [Nat.zero_add, mask]
  · conv in runReads _ _ _ _ => rw [size, runReads, if_pos positive]
    simp only [Nat.zero_add]
    intro index member
    rcases List.mem_append.mp member with here | later
    · have inside := List.mem_range.mp (by simpa using here)
      omega
    · exact reads index later

/-- The byte of the buffer that an exact first page puts at the place of another one. -/
theorem first_byte (positive : 0 < request.len)
    (written : ∀ address, runMask request request.len (request.dest / chip.oobblock)
        (request.dest % chip.oobblock) 0 address =
      window request.wanted request.dest (request.dest + request.len) address)
    (k : Nat) (inside : k < request.len)
    (here : request.dest % chip.oobblock + k < chip.oobblock) :
    request.buf k = 0xff ∨ startOf chip (request.dest % chip.oobblock) ≤ k ∧
      request.buf k = request.buf (k - startOf chip (request.dest % chip.oobblock)) ∧
      ¬Overread chip (request.dest % chip.oobblock)
        (request.dest % chip.oobblock + k - startOf chip (request.dest % chip.oobblock)) := by
  have sized := chip.sized
  have split := Nat.div_add_mod' request.dest chip.oobblock
  have first := first_count request
  have both := (run_first request range whole rows positive).1 (request.dest + k)
  have behind : window request.wanted
      (request.dest + count chip request.len (request.dest % chip.oobblock) 0)
      (request.dest + request.len) (request.dest + k) = 0xff := by
    rw [window, if_neg (by omega)]
  have wanted : window request.wanted request.dest (request.dest + request.len)
      (request.dest + k) = request.buf k := by
    rw [window, if_pos (by omega), Request.wanted, Nat.add_sub_cancel_left]
  have spot := @nan_d_address chip (request.dest / chip.oobblock)
    (request.dest % chip.oobblock) (by omega) (by omega)
  have column : (request.dest + k) % chip.oobblock = request.dest % chip.oobblock + k := by
    have whole : request.dest + k =
        request.dest % chip.oobblock + k + request.dest / chip.oobblock * chip.oobblock := by omega
    rw [whole, Nat.add_mul_mod_self_right, Nat.mod_eq_of_lt here]
  rw [written, wanted, behind] at both
  replace both := both.trans UInt8.and_neg_one
  simp only [pageMask, spot, column] at both
  split at both
  · rename_i all
    right
    refine ⟨by omega, ?_, all.2.2.2.2⟩
    rw [both]
    congr 1
    omega
  · exact Or.inl both

end Fitting

theorem run_carried (carried : Carried request) :
    (∀ address, runMask request request.len (request.dest / chip.oobblock)
        (request.dest % chip.oobblock) 0 address =
      window request.wanted request.dest (request.dest + request.len) address) ∧
    ∀ index ∈ runReads request request.len (request.dest % chip.oobblock) 0,
      index < request.len := by
  rcases Nat.eq_zero_or_pos request.len with empty | positive
  · rw [empty]
    exact ⟨fun address => (window_empty _ _ address).symm, fun _ member => by cases member⟩
  · obtain ⟨mask, reads⟩ :=
      run_first request carried.range carried.whole carried.rows positive
    refine ⟨fun address => ?_, reads⟩
    have column := Nat.mod_lt request.dest chip.page
    have first := first_count request
    have page := page_mask_window request (request.dest / chip.oobblock)
      (request.dest % chip.oobblock) 0 (count chip request.len (request.dest % chip.oobblock) 0)
      (by omega) (by omega) (Nat.div_add_mod' _ _) (by omega) carried.range
      (carried.aligned.imp_right fun plain k _ below => plain k (by omega) (by omega))
      (fun wide odd => carried.paired wide odd positive) carried.rows address
    rw [Nat.add_zero, Nat.zero_add] at page
    rw [mask, page, window_join _ _ _ _ _ (by omega) (by omega)]

/-- Only a request that the pages can carry is written exactly. -/
theorem carried_of_exact (range : request.dest + request.len ≤ chip.totlen)
    (written : ∀ address, runMask request request.len (request.dest / chip.oobblock)
        (request.dest % chip.oobblock) 0 address =
      window request.wanted request.dest (request.dest + request.len) address)
    (reads : ∀ index ∈ runReads request request.len (request.dest % chip.oobblock) 0,
      index < request.len) : Carried request := by
  have whole : request.len < chip.oobblock ∨ chip.oobblock ∣ request.dest + request.len := by
    by_contra neither
    obtain ⟨long, ragged⟩ := not_or.mp neither
    have page := chip.page
    obtain ⟨index, member, past⟩ := run_overread request (Nat.le_of_not_lt long) ragged request.len
      (request.dest / chip.oobblock) (request.dest % chip.oobblock) 0
      (Nat.mod_lt _ page) (by omega) (by omega) (Nat.div_add_mod' _ _)
    have := reads index member
    omega
  have rows : ∀ k < request.len,
      2 ^ (8 * chip.pageadrlen) * chip.oobblock ≤ request.dest + k → request.buf k = 0xff := by
    intro k inside above
    have mask := written (request.dest + k)
    rw [run_mask_above request _ _ _ _ _ above, window, if_pos (by omega), Request.wanted,
      Nat.add_sub_cancel_left] at mask
    exact mask.symm
  have column := Nat.mod_lt request.dest chip.page
  refine ⟨range, whole, ?_, fun wide odd positive => ?_, rows⟩
  · by_cases start : startOf chip (request.dest % chip.oobblock) = 0
    · exact Or.inl start
    · refine Or.inr fun k => ?_
      -- each byte is put where one comes that lies further back
      induction k using Nat.strong_induction_on with
      | _ k ih =>
          intro inside here
          rcases first_byte request range whole rows (by omega) written k inside here with
            plain | ⟨back, same, _⟩
          · exact plain
          · rw [same]
            exact ih _ (by omega) (by omega) (by omega)
  · rcases first_byte request range whole rows positive written 0 positive column with
      plain | ⟨back, _, kept⟩
    · exact plain
    · refine absurd ⟨wide, odd, ?_⟩ kept
      omega

end First

/-- A write that reports success programs exactly its range, for every chip and whatever the chip
holds and answers, only if the request is refused at once or the pages can carry it: one shorter
than a page or one that ends at a page boundary, from a column whose address byte is zero. -/
theorem nand_write_ecc_iff (config : OobConfig) (calculate : (Nat → UInt8) → Nat → UInt8)
    (request : Request chip) :
    (∀ device flash, (nandWriteEcc chip config calculate device request flash).ret = 0 →
        Exact request flash (nandWriteEcc chip config calculate device request flash)) ↔
      chip.totlen < (request.dest + request.len) % 2 ^ 32 ∨ Carried request := by
  by_cases refused : chip.totlen < (request.dest + request.len) % 2 ^ 32
  · refine iff_of_true (fun device flash success => ?_) (Or.inl refused)
    simp only [nandWriteEcc, if_pos refused] at success
    cases success
  · constructor
    · intro always
      refine Or.inr ?_
      have good : ∀ page, (⟨fun _ _ => 0xff, false, fun _ => false⟩ : Device).failed page = false :=
        fun _ => rfl
      have outcome := always ⟨fun _ _ => 0xff, false, fun _ => false⟩
        ⟨fun _ => 0xff, fun _ => 0xff⟩
      simp only [nandWriteEcc, if_neg refused, Bool.false_eq_true, if_false] at outcome
      have success := write_loop_good request config calculate _ good request.len
        (request.dest / chip.oobblock) (request.dest % chip.oobblock) 0
        ⟨fun _ => 0xff, fun _ => 0xff⟩
      obtain ⟨cells, reads, _⟩ := write_loop_success request config calculate _ _ _ _ _ _ success
      obtain ⟨range, programmed, read, _⟩ := outcome success
      refine carried_of_exact request range (fun address => ?_) (reads ▸ read)
      have same := (cells address).symm.trans (programmed address)
      exact UInt8.neg_one_and.symm.trans (same.trans UInt8.neg_one_and)
    · intro allowed device flash success
      have carried := allowed.resolve_left refused
      by_cases locked : device.isProtected = true
      · simp only [nandWriteEcc, if_neg refused, if_pos locked] at success
        cases success
      · simp only [nandWriteEcc, if_neg refused, if_neg locked] at success ⊢
        obtain ⟨cells, reads, retlen⟩ :=
          write_loop_success request config calculate _ _ _ _ _ _ success
        obtain ⟨mask, inside⟩ := run_carried request carried
        refine ⟨carried.range, fun address => ?_, ?_, retlen⟩
        · rw [cells address, mask]
        · rw [reads]
          exact inside

/-- Samsung KM29U256T. -/
def km29u256t : PageChip where
  totlen := 2 ^ 25
  erasesize := 0x4000
  oobblock := 512
  bus16 := false
  badblockPos := 0
  sized := by decide
  page := by decide
  pages := by decide
  blocks := Or.inr ⟨⟨14, by decide, rfl⟩, by decide, by decide, by decide⟩
  page256 := false
  pageadrlen := 2
  size := rfl

/-- One page and one byte, with zeros behind them in memory. -/
def oneMore : Request km29u256t where
  dest := 0
  len := 513
  buf := fun index => if index < 513 then 0xff else 0
  inside := by decide
  fits := by decide

/-- The second page is filled from behind the buffer: byte 513 of it is read, and programmed. The
code of bytes that are 0xff or 0 is 0xff. -/
theorem byte_behind_buffer :
    let flash : Flash := ⟨fun _ => 0xff, fun _ => 0xff⟩
    let result := nandWriteEcc km29u256t ⟨fun _ => 0, some 0⟩ (fun _ _ => 0xff)
      ⟨fun _ _ => 0xff, false, fun _ => false⟩ oneMore flash
    result.ret = 0 ∧ 513 ∈ result.reads ∧ result.flash.cells 513 = 0 ∧
      ¬Exact oneMore flash result := by
  intro flash result
  have success : result.ret = 0 :=
    write_loop_good oneMore ⟨fun _ => 0, some 0⟩ (fun _ _ => 0xff)
      ⟨fun _ _ => 0xff, false, fun _ => false⟩ (fun _ => rfl) 513 0 0 0 flash
  obtain ⟨cells, reads, _⟩ := write_loop_success oneMore ⟨fun _ => 0, some 0⟩ (fun _ _ => 0xff)
    ⟨fun _ _ => 0xff, false, fun _ => false⟩ 513 0 0 0 flash success
  have member : 513 ∈ result.reads := by
    have listed : 513 ∈ runReads oneMore 513 0 0 := by decide +kernel
    exact reads ▸ listed
  have cleared : runMask oneMore 513 0 0 0 513 = 0 := by decide +kernel
  refine ⟨success, member, (cells 513).trans ?_, fun written => ?_⟩
  · rw [cleared]
    exact UInt8.and_zero
  · exact absurd (written.read 513 member) (by decide)

end UBoot.Nand.WritePage
