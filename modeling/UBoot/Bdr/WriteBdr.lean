import UBoot.Bdr.FindBdr
import UBoot.Flash.BoardSector

/-!
The command writebdr of common/cmd_bdr.c on the board's flash, and what findbdr
makes of the flash afterwards. writebdr looks for the highest sequence number
first; the bootcmd and bootargs that this search sets are overwritten when the
record has been written.
-/

namespace UBoot.Bdr.WriteBdr

open Lib.Strings Library.Memory Library.BigEndian Library.FirstMax
open Flash.AthFlash Flash.SectRanges Flash.FlashWrite Flash.Protection
open Flash.BoardSector FindBdr

def boardLayout : Layout := ⟨cfgFlashSize, cfgFlashBase⟩

/-- The flash as findbdr reads it. -/
def mapped (chip : Chip) : FindBdr.Flash := fun x => chip x.toNat

/-- The content of bdrblock; `unset` is what its words between STOP and the trailer hold. -/
def bdrRecord (seq bootaddr : Nat) (cmdline unset : Nat → UInt8) : List UInt8 :=
  wordBytes bdrBeginMagic ++ wordBytes bdrSize ++ wordBytes 0 ++ wordBytes seq ++
  wordBytes (4 * 2 ^ 16 + 2) ++ wordBytes 0 ++
  wordBytes (2 ^ 24 + 2 * 2 ^ 16 + 2) ++ wordBytes bootaddr ++
  wordBytes (2 * 2 ^ 24 + 3 * 2 ^ 16 + 129) ++ slice cmdline 0 512 ++
  wordBytes (3 * 2 ^ 24 + 1 * 2 ^ 16 + 1) ++ slice unset 0 464 ++
  wordBytes bdrSize ++ wordBytes bdrEndMagic

structure Outcome where
  rcode : Nat
  flash : FlashState
  /-- The address in bootcmd and the text of bootargs, when they are set. -/
  env : Option (Nat × Option (List UInt8))

/-- `behind` is what the search finds behind its buffers on the stack. -/
def writebdr (state : FlashState) (behind : Place → Nat → UInt8) (unset : Nat → UInt8)
    (flashaddr bootaddr : Nat) (cmdline : Nat → UInt8) : Outcome :=
  let flashOffset := toUlong (flashaddr - cfgFlashBase)
  if flashaddr % 1024 ≠ 0 then ⟨1, state, none⟩
  else
    let seq := ((scan boardLayout (mapped state.chip) behind 0).seq + 1) % 2 ^ 32
    let record := bdrRecord seq bootaddr cmdline unset
    let block := flashaddr / cfgFlashSectorSize * cfgFlashSectorSize
    let p := splice (fun i => state.chip (block - cfgFlashBase + i))
      (flashaddr % cfgFlashSectorSize) record
    let sector := flashOffset / cfgFlashSectorSize
    let erased := { state with
      chip := eraseAll state.chip [(state.bank, (sector : Int), (sector : Int))] }
    let write := flashWrite erased.banks block cfgFlashSectorSize
    let written := { erased with chip := writeAll p erased.chip write.calls }
    if write.rcode ≠ 0 then ⟨1, written, none⟩
    else if slice written.chip (flashaddr - cfgFlashBase) (4 * bdrSize) ≠ record then
      ⟨1, written, none⟩
    else ⟨0, written, some (bootaddr, argsText cmdline)⟩

def flashTarget (text : List UInt8) : Nat :=
  let flashaddr := (simpleStrtoul text 16).value
  if flashaddr < boardLayout.totalFlashSize then flashaddr ||| boardLayout.flashStartAddress
  else flashaddr

/-- bootaddr stays uninitialised unless there are two arguments. -/
def bootTarget (rest : List (List UInt8)) (unsetAddr : UInt32) : Nat :=
  match rest with
  | [text] => (simpleStrtoul text 16).value
  | _ => unsetAddr.toNat

/-- `writebdr` with its arguments; `bootargs` are the bytes that getenv points at. -/
def doWritebdr (state : FlashState) (behind : Place → Nat → UInt8) (unset : Nat → UInt8)
    (unsetAddr : UInt32) (bootargs : Nat → UInt8) (argv : List (List UInt8)) : Outcome :=
  match argv with
  | [] => ⟨1, state, none⟩
  | text :: rest =>
      if flashTarget text < boardLayout.flashStartAddress ||| 0x80000 then ⟨1, state, none⟩
      else
        writebdr state behind unset (flashTarget text) (bootTarget rest unsetAddr) bootargs

/-- The highest sequence number under a valid header. -/
def highest (chip : Chip) : Nat :=
  ((selected boardLayout (mapped chip) 0).map (Place.sequence (mapped chip))).getD 0

theorem scan_seq (chip : Chip) (behind : Place → Nat → UInt8) :
    (scan boardLayout (mapped chip) behind 0).seq = highest chip := by
  rw [scan_eq, highest]
  cases selected boardLayout (mapped chip) 0 <;> rfl

section Effect
variable {seq bootaddr : Nat} {cmdline unset : Nat → UInt8}

@[simp] theorem bdr_record_length : (bdrRecord seq bootaddr cmdline unset).length = 4 * bdrSize := by
  simp [bdrRecord, bdrSize]

/-- The sector is put back as it was but for the record. -/
theorem rewrite_splice {state : FlashState} {offset : Nat} {record : List UInt8}
    (inside : offset < cfgFlashSize) (aligned : offset % 1024 = 0)
    (size : record.length = 4 * bdrSize) :
    writeAll (splice (fun i =>
          state.chip (offset / cfgFlashSectorSize * cfgFlashSectorSize + i))
        (offset % cfgFlashSectorSize) record)
      (eraseAll state.chip [(state.bank, ((offset / cfgFlashSectorSize : Nat) : Int),
        ((offset / cfgFlashSectorSize : Nat) : Int))])
      [⟨state.bank, 0, sectorAddr (offset / cfgFlashSectorSize), cfgFlashSectorSize⟩] =
    splice state.chip offset record := by
  have valid : offset / cfgFlashSectorSize < flashGetGeom.sectorCount := by
    have bound : offset < 64 * (64 * 1024) := inside
    show offset / (64 * 1024) < 64
    omega
  funext address
  rw [rewrite_one_sector valid]
  have room : offset % cfgFlashSectorSize + 4 * bdrSize ≤ cfgFlashSectorSize := by
    unfold cfgFlashSectorSize bdrSize
    omega
  have whole := Nat.div_add_mod offset cfgFlashSectorSize
  rw [Nat.mul_comm] at whole
  generalize first : offset / cfgFlashSectorSize * cfgFlashSectorSize = start at whole ⊢
  by_cases here : address / cfgFlashSectorSize = offset / cfgFlashSectorSize
  · have above : start ≤ address := by
      rw [← first, ← here]
      exact Nat.div_mul_le_self address cfgFlashSectorSize
    rw [if_pos here]
    unfold splice
    by_cases early : offset ≤ address
    · have later : offset % cfgFlashSectorSize ≤ address - start := by omega
      have place : address - start - offset % cfgFlashSectorSize = address - offset := by omega
      rw [if_pos early, if_pos later, place]
      simp only [Nat.add_sub_cancel' above]
    · have before : ¬ offset % cfgFlashSectorSize ≤ address - start := by omega
      rw [if_neg early, if_neg before]
      simp only [Nat.add_sub_cancel' above]
  · rw [if_neg here, splice_outside]
    by_contra within
    have reach : start ≤ address ∧ address < start + cfgFlashSectorSize := by
      rw [size] at within
      omega
    apply here
    rw [← first] at reach
    exact Nat.div_eq_of_lt_le reach.1 (by rw [Nat.add_one_mul]; exact reach.2)

section Accepted
variable {state : FlashState} {behind : Place → Nat → UInt8} {offset : Nat}

theorem flash_offset (below : cfgFlashBase + offset < 2 ^ 32) :
    toUlong (((cfgFlashBase + offset : Nat) : Int) - cfgFlashBase) = offset := by
  unfold toUlong
  omega

theorem target_block : (cfgFlashBase + offset) / cfgFlashSectorSize * cfgFlashSectorSize =
    sectorAddr (offset / cfgFlashSectorSize) := by
  unfold sectorAddr cfgFlashBase cfgFlashSectorSize
  omega

theorem target_column : (cfgFlashBase + offset) % cfgFlashSectorSize = offset % cfgFlashSectorSize := by
  unfold cfgFlashBase cfgFlashSectorSize
  omega

theorem target_page : (cfgFlashBase + offset) % 1024 = offset % 1024 := by
  unfold cfgFlashBase
  omega

theorem block_start (i : Nat) : sectorAddr (offset / cfgFlashSectorSize) - cfgFlashBase + i =
    offset / cfgFlashSectorSize * cfgFlashSectorSize + i := by
  rw [sectorAddr, Nat.add_sub_cancel_left]

/-- A write succeeds only on a kilobyte of an unprotected sector of the flash. -/
theorem writebdr_accepted
    (succeeded : (writebdr state behind unset (cfgFlashBase + offset) bootaddr cmdline).rcode = 0) :
    offset < cfgFlashSize ∧ offset % 1024 = 0 ∧ state.protect (offset / cfgFlashSectorSize) = 0 := by
  unfold writebdr at succeeded
  simp only [target_block, target_page] at succeeded
  by_cases aligned : offset % 1024 = 0
  · rw [if_neg (not_not.mpr aligned)] at succeeded
    split at succeeded
    · cases succeeded
    · rename_i taken
      have sector := write_sector_accepted (not_not.mp taken)
      refine ⟨?_, aligned, sector.2⟩
      have bound : offset / (64 * 1024) < 64 := sector.1
      show offset < 64 * (64 * 1024)
      omega
  · rw [if_pos aligned] at succeeded
    cases succeeded

/-- There it puts the record into the flash and changes nothing else. -/
theorem writebdr_writes (inside : offset < cfgFlashSize) (aligned : offset % 1024 = 0)
    (clear : state.protect (offset / cfgFlashSectorSize) = 0) :
    writebdr state behind unset (cfgFlashBase + offset) bootaddr cmdline =
      { rcode := 0
        flash := { state with
          chip := splice state.chip offset
            (bdrRecord ((highest state.chip + 1) % 2 ^ 32) bootaddr cmdline unset) }
        env := some (bootaddr, argsText cmdline) } := by
  have below : cfgFlashBase + offset < 2 ^ 32 := by
    unfold cfgFlashBase
    unfold cfgFlashSize at inside
    omega
  have valid : offset / cfgFlashSectorSize < flashGetGeom.sectorCount := by
    have bound : offset < 64 * (64 * 1024) := inside
    show offset / (64 * 1024) < 64
    omega
  unfold writebdr
  simp only [flash_offset below, target_block, target_column, target_page, block_start, scan_seq]
  rw [if_neg (not_not.mpr aligned)]
  have size := @bdr_record_length ((highest state.chip + 1) % 2 ^ 32) bootaddr cmdline unset
  generalize bdrRecord ((highest state.chip + 1) % 2 ^ 32) bootaddr cmdline unset = record at *
  have written := fun chip => @write_one_sector ⟨state.protect, chip⟩ _ valid clear
  have sameBank : ∀ chip, (FlashState.mk state.protect chip).bank = state.bank := fun _ => rfl
  have effect := @rewrite_splice state offset record inside aligned size
  have readBack : slice (splice state.chip offset record) offset (4 * bdrSize) = record := by
    rw [← size]
    exact slice_splice_same state.chip offset record
  have cancel : cfgFlashBase + offset - cfgFlashBase = offset := Nat.add_sub_cancel_left ..
  simp only [written, sameBank, effect, cancel, readBack, errOk, ne_eq, not_true_eq_false, if_false]

end Accepted

end Effect

section Record
variable {seq bootaddr : Nat} {cmdline unset mem : Nat → UInt8}

theorem record_word (stored : slice mem 0 (4 * bdrSize) = bdrRecord seq bootaddr cmdline unset)
    {value : Nat} (front back : List UInt8) (bound : value < 2 ^ 32)
    (split : bdrRecord seq bootaddr cmdline unset = front ++ wordBytes value ++ back) :
    word mem front.length = value := by
  have whole : slice mem 0 (front ++ wordBytes value ++ back).length =
      front ++ wordBytes value ++ back := by
    rw [← split, bdr_record_length]
    exact stored
  simpa using word_middle mem 0 value front back bound whole

/-- The words of the record that are read back. -/
structure RecordWords (mem : Nat → UInt8) (seq bootaddr : Nat) : Prop where
  magic : word mem 0 = bdrBeginMagic
  size : word mem 4 = bdrSize
  sequence : word mem 12 = seq
  request : word mem 16 = 4 * 2 ^ 16 + 2
  bootaddrTag : word mem 24 = 2 ^ 24 + 2 * 2 ^ 16 + 2
  bootaddr : word mem 28 = bootaddr
  bootargsTag : word mem 32 = 2 * 2 ^ 24 + 3 * 2 ^ 16 + 129
  stopTag : word mem 548 = 3 * 2 ^ 24 + 1 * 2 ^ 16 + 1
  endSize : word mem 1016 = bdrSize
  endMagic : word mem 1020 = bdrEndMagic

theorem record_words (stored : slice mem 0 (4 * bdrSize) = bdrRecord seq bootaddr cmdline unset)
    (seqBound : seq < 2 ^ 32) (bootBound : bootaddr < 2 ^ 32) : RecordWords mem seq bootaddr := by
  let header := wordBytes bdrBeginMagic ++ wordBytes bdrSize ++ wordBytes 0 ++ wordBytes seq
  let request := header ++ wordBytes (4 * 2 ^ 16 + 2) ++ wordBytes 0
  let address := request ++ wordBytes (2 ^ 24 + 2 * 2 ^ 16 + 2)
  let argsTag := address ++ wordBytes bootaddr
  let args := argsTag ++ wordBytes (2 * 2 ^ 24 + 3 * 2 ^ 16 + 129) ++ slice cmdline 0 512
  let trailer := args ++ wordBytes (3 * 2 ^ 24 + 1 * 2 ^ 16 + 1) ++ slice unset 0 464
  have at_word := fun value front back => @record_word seq bootaddr cmdline unset mem stored value
    front back
  constructor
  · exact at_word _ [] _ (by decide) (by simp only [bdrRecord, List.append_assoc]; rfl)
  · exact at_word _ (wordBytes bdrBeginMagic) _ (by decide)
      (by simp only [bdrRecord, List.append_assoc]; rfl)
  · exact at_word _ (wordBytes bdrBeginMagic ++ wordBytes bdrSize ++ wordBytes 0) _ seqBound
      (by simp only [bdrRecord, List.append_assoc]; rfl)
  · exact at_word _ header _ (by decide) (by simp only [bdrRecord, header, List.append_assoc]; rfl)
  · exact at_word _ request _ (by decide)
      (by simp only [bdrRecord, header, request, List.append_assoc]; rfl)
  · exact at_word _ address _ bootBound
      (by simp only [bdrRecord, header, request, address, List.append_assoc]; rfl)
  · exact at_word _ argsTag _ (by decide)
      (by simp only [bdrRecord, header, request, address, argsTag, List.append_assoc]; rfl)
  · have length : args.length = 548 := by
      simp [args, argsTag, address, request, header]
    rw [← length]
    exact at_word _ args _ (by decide)
      (by simp only [bdrRecord, header, request, address, argsTag, args, List.append_assoc]; rfl)
  · have length : trailer.length = 1016 := by
      simp [trailer, args, argsTag, address, request, header]
    rw [← length]
    exact at_word _ trailer _ (by decide)
      (by
        simp only [bdrRecord, header, request, address, argsTag, args, trailer, List.append_assoc]
        rfl)
  · have length : (trailer ++ wordBytes bdrSize).length = 1020 := by
      simp [trailer, args, argsTag, address, request, header]
    rw [← length]
    exact at_word _ (trailer ++ wordBytes bdrSize) [] (by decide)
      (by
        simp only [bdrRecord, header, request, address, argsTag, args, trailer, List.append_assoc]
        rfl)

theorem record_args (stored : slice mem 0 (4 * bdrSize) = bdrRecord seq bootaddr cmdline unset) :
    slice mem 36 512 = slice cmdline 0 512 := by
  let front := wordBytes bdrBeginMagic ++ wordBytes bdrSize ++ wordBytes 0 ++ wordBytes seq ++
    wordBytes (4 * 2 ^ 16 + 2) ++ wordBytes 0 ++ wordBytes (2 ^ 24 + 2 * 2 ^ 16 + 2) ++
    wordBytes bootaddr ++ wordBytes (2 * 2 ^ 24 + 3 * 2 ^ 16 + 129)
  let back := wordBytes (3 * 2 ^ 24 + 1 * 2 ^ 16 + 1) ++ slice unset 0 464 ++ wordBytes bdrSize ++
    wordBytes bdrEndMagic
  have split : bdrRecord seq bootaddr cmdline unset = front ++ slice cmdline 0 512 ++ back := by
    simp only [bdrRecord, front, back, List.append_assoc]
  have whole : slice mem 0 (front ++ slice cmdline 0 512 ++ back).length =
      front ++ slice cmdline 0 512 ++ back := by
    rw [← split, bdr_record_length]
    exact stored
  simpa [front] using slice_middle mem 0 front (slice cmdline 0 512) back whole

/-- What parse_tag gets out of the record. -/
def recorded (mem : Nat → UInt8) (bootaddr : Nat) : Found :=
  ⟨bootaddr, fun i => if i < 512 then mem (36 + i) else 0⟩

section Tags
variable (words : RecordWords mem seq bootaddr)
include words

theorem request_tag : readTag mem 0 4 Found.reset = .next 6 Found.reset := by
  have data : word mem (4 * 4) = 4 * 2 ^ 16 + 2 := words.request
  simp [readTag, data]

theorem bootaddr_tag (found : Found) :
    readTag mem 1 6 found = .next 8 { found with bootaddr := bootaddr } := by
  have data : word mem (4 * 6) = 2 ^ 24 + 2 * 2 ^ 16 + 2 := words.bootaddrTag
  have value : word mem (4 * 7) = bootaddr := words.bootaddr
  simp [readTag, data, value]

theorem bootargs_tag (found : Found) : readTag mem 2 8 found =
    .next 137 { found with bootarg := fun i => if i < 512 then mem (36 + i) else found.bootarg i } := by
  have data : word mem (4 * 8) = 2 * 2 ^ 24 + 3 * 2 ^ 16 + 129 := words.bootargsTag
  simp [readTag, data]

theorem stop_tag (found : Found) : readTag mem 3 137 found = .stop := by
  have data : word mem (4 * 137) = 3 * 2 ^ 24 + 1 * 2 ^ 16 + 1 := words.stopTag
  simp [readTag, data]

theorem record_walk (turns : Nat) {last : Nat} (room : 137 < last) :
    tagWalk mem last (turns + 1 + 1 + 1 + 1) 0 4 Found.reset =
      .stopped 137 (recorded mem bootaddr) := by
  rw [walk_next _ (by omega) (request_tag words), walk_next _ (by omega) (bootaddr_tag words _),
    walk_next _ (by omega) (bootargs_tag words _), walk_stop _ room (stop_tag words _)]
  rfl

end Tags

end Record

/-- The string that getenv returns and the bytes behind its NUL. -/
structure EnvText where
  line : CString
  after : Nat → UInt8

def EnvText.bytes (text : EnvText) (i : Nat) : UInt8 :=
  (text.line.bytes[i]?).getD (if i = text.line.bytes.length then 0 else text.after i)

section EnvText
variable {text : EnvText}

theorem env_text_take {count : Nat} (inside : count ≤ text.line.bytes.length) :
    slice text.bytes 0 count = text.line.bytes.take count := by
  apply List.ext_getElem
  · simp [inside]
  · intro i _ bound
    rw [List.length_take] at bound
    have below : i < text.line.bytes.length := by omega
    simp [slice, EnvText.bytes, below]

theorem env_text_short (short : text.line.bytes.length < 512) :
    argsText text.bytes = some text.line.bytes := by
  obtain ⟨rest, count⟩ : ∃ rest, 512 = text.line.bytes.length + (1 + rest) :=
    ⟨511 - text.line.bytes.length, by omega⟩
  have terminator : slice text.bytes (0 + text.line.bytes.length) 1 = [0] := by
    simp [slice, EnvText.bytes]
  rw [argsText, count, slice_add, slice_add, terminator, env_text_take le_rfl, List.take_length,
    List.singleton_append, cut_at_first text.line.terminated]
  rfl

theorem env_text_long (long : 512 ≤ text.line.bytes.length) : argsText text.bytes = none := by
  have absent : 0 ∉ text.line.bytes.take 512 := fun member =>
    text.line.terminated (List.mem_of_mem_take member)
  rw [argsText, env_text_take long, cut_at_none absent]
  rfl

end EnvText

/-- The trailer as the searches read it. -/
theorem record_top (flash : FindBdr.Flash) (offset : Int) (start : Nat) :
    word (flashaddr flash (offset + (1024 : Nat) - 16)) start =
      word (flashaddr flash offset) (1008 + start) := by
  rw [← word_flashaddr]
  congr 2
  omega

theorem final_top (flash : FindBdr.Flash) (block : Int) (start : Nat) :
    word (flashaddr flash (block + bdrBlockSize - 16)) start =
      word (flashaddr flash (block + (0xfc00 : Nat))) (1008 + start) := by
  rw [← word_flashaddr]
  have length : (bdrBlockSize : Int) = 0x10000 := rfl
  congr 2
  omega

section Placed
variable {flash : FindBdr.Flash} {offset : Int} {seq bootaddr : Nat}
  (words : RecordWords (flashaddr flash offset) seq bootaddr)
include words

theorem record_start_sequence :
    (Place.start offset).sequence flash = if seq = 0 ∨ seq = 0xffffffff then 0 else seq := by
  have size : 4 * bdrSize % 2 ^ 32 = 1024 := by decide
  rw [Place.sequence, startSequence]
  simp only [words.magic, words.size, words.sequence, size, record_top, words.endMagic,
    words.endSize, ne_eq, not_true_eq_false, if_false]
  rfl

theorem record_start_tags : (Place.start offset).tags flash =
    .stopped 137 (recorded (flashaddr flash offset) bootaddr) := by
  have size : (Place.start offset).size flash = 1024 := by
    rw [Place.size, words.size]
    decide
  rw [Place.tags, size]
  exact record_walk words 252 (by decide)

end Placed

section Final
variable {flash : FindBdr.Flash} {block : Int} {seq bootaddr : Nat}
  (words : RecordWords (flashaddr flash (block + (0xfc00 : Nat))) seq bootaddr)
include words

theorem final_size : (Place.final block).size flash = 4 * bdrSize := by
  have endSize : word (flashaddr flash (block + (0xfc00 : Nat))) (1008 + 8) = bdrSize := words.endSize
  rw [Place.size, final_top, endSize]
  decide

theorem final_record_start : (Place.final block).recordStart flash = block + (0xfc00 : Nat) := by
  have length : (bdrBlockSize : Int) = 0x10000 := rfl
  have size : ((4 * bdrSize : Nat) : Int) = 1024 := rfl
  rw [Place.recordStart, final_size words]
  omega

theorem record_final_sequence :
    (Place.final block).sequence flash = if seq = 0 ∨ seq = 0xffffffff then 0 else seq := by
  have length : (bdrBlockSize : Int) = 0x10000 := rfl
  have bottom : block + bdrBlockSize - (1024 : Nat) = block + (0xfc00 : Nat) := by omega
  have endSize : word (flashaddr flash (block + (0xfc00 : Nat))) (1008 + 8) = bdrSize := words.endSize
  have endMagic : word (flashaddr flash (block + (0xfc00 : Nat))) (1008 + 12) = bdrEndMagic :=
    words.endMagic
  have size : 4 * bdrSize % 2 ^ 32 = 1024 := by decide
  rw [Place.sequence, endSequence]
  simp only [final_top, endSize, endMagic, size, bottom, words.magic, words.size,
    words.sequence, ne_eq, not_true_eq_false, if_false]
  rfl

theorem record_final_tags : (Place.final block).tags flash =
    .stopped 137 (recorded (flashaddr flash (block + (0xfc00 : Nat))) bootaddr) := by
  rw [Place.tags, final_record_start words, final_size words]
  exact record_walk words 252 (by decide)

end Final

section Blocks

theorem board_offsets : scanOffsets boardLayout (firstOffset boardLayout 0) =
    (List.range 64).map fun (block : Nat) => (0x10000 * block : Int) := by
  have first : firstOffset boardLayout 0 = 0 := by decide
  have count : ((boardLayout.totalFlashSize - (0 : Int) + (bdrBlockSize - 1)) / bdrBlockSize).toNat =
      64 := by decide
  rw [first, scanOffsets, count]
  apply List.map_congr_left
  intro block _
  rw [Int.zero_add]
  rfl

/-- The places of a block. -/
def blockPlaces (block : Nat) : List Place :=
  [.start (0x10000 * block : Int), .final (0x10000 * block : Int)]

theorem board_places : places boardLayout 0 = (List.range 64).flatMap blockPlaces := by
  rw [places, board_offsets, List.flatMap_map]
  rfl

/-- The two places of a block stand side by side in the order of the search. -/
theorem split_places {block : Nat} (inside : block < 64) : ∃ front back,
    places boardLayout 0 = front ++ blockPlaces block ++ back ∧
      ∀ place, place ∈ front ∨ place ∈ back →
        ∃ other, other < 64 ∧ other ≠ block ∧ place ∈ blockPlaces other := by
  obtain ⟨before, after, split⟩ := List.append_of_mem (List.mem_range.mpr inside)
  have distinct : (before ++ block :: after).Nodup := by
    rw [← split]
    exact List.nodup_range
  have apart : ∀ other, other ∈ before ∨ other ∈ after → other < 64 ∧ other ≠ block := by
    intro other member
    constructor
    · apply List.mem_range.mp
      rw [split]
      rcases member with early | late
      · exact List.mem_append_left _ early
      · exact List.mem_append_right _ (List.mem_cons_of_mem _ late)
    · rintro rfl
      rw [List.nodup_middle, List.nodup_cons, List.mem_append] at distinct
      exact distinct.1 member
  refine ⟨before.flatMap blockPlaces, after.flatMap blockPlaces, ?_, ?_⟩
  · rw [board_places, split, List.flatMap_append, List.flatMap_cons, List.append_assoc]
  · intro place member
    rcases member with early | late
    · obtain ⟨other, present, within⟩ := List.mem_flatMap.mp early
      exact ⟨other, (apart other (Or.inl present)).1, (apart other (Or.inl present)).2, within⟩
    · obtain ⟨other, present, within⟩ := List.mem_flatMap.mp late
      exact ⟨other, (apart other (Or.inr present)).1, (apart other (Or.inr present)).2, within⟩

variable {chip : Chip}

theorem sequence_le_highest {place : Place} (member : place ∈ places boardLayout 0) :
    place.sequence (mapped chip) ≤ highest chip := by
  unfold highest
  cases chosen : selected boardLayout (mapped chip) 0 with
  | none =>
      rw [first_max_none _ chosen place member]
      exact Nat.zero_le _
  | some top => exact (is_first_max_mem _ (first_max_some _ chosen)).2 place member

theorem highest_lt : highest chip < 0xffffffff := by
  unfold highest
  cases selected boardLayout (mapped chip) 0 with
  | none =>
      rw [Option.map_none, Option.getD_none]
      norm_num
  | some top =>
      rw [Option.map_some, Option.getD_some]
      cases top with
      | start offset => exact start_sequence_lt (mapped chip) offset
      | final offset => exact end_sequence_lt (mapped chip) offset

variable {offset : Nat} {record : List UInt8}

/-- The places of the other blocks are what they were. -/
theorem other_block_sequence (aligned : offset % 1024 = 0) (size : record.length = 4 * bdrSize)
    {other : Nat} (apart : other ≠ offset / 0x10000) {place : Place}
    (member : place ∈ blockPlaces other) :
    place.sequence (mapped (splice chip offset record)) = place.sequence (mapped chip) := by
  have same : ∀ x : Int, 0x10000 * (other : Int) ≤ x →
      x < 0x10000 * (other : Int) + bdrBlockSize →
      mapped (splice chip offset record) x = mapped chip x := by
    intro x above below
    have length : (bdrBlockSize : Int) = 0x10000 := rfl
    have bytes : 4 * bdrSize = 1024 := rfl
    apply splice_outside
    rw [size, bytes]
    omega
  rcases List.mem_cons.mp member with rfl | member
  · exact start_sequence_congr same
  · rw [List.mem_singleton.mp member]
    exact end_sequence_congr same

theorem mapped_record (size : record.length = 4 * bdrSize) :
    slice (flashaddr (mapped (splice chip offset record)) offset) 0 (4 * bdrSize) = record := by
  have stored := slice_splice_same chip offset record
  rw [size] at stored
  refine Eq.trans ?_ stored
  unfold slice
  apply List.map_congr_left
  intro i _
  have place : ((offset : Int) + ((0 + i : Nat) : Int)).toNat = offset + i := by omega
  rw [flashaddr, mapped, place]

end Blocks

/-- findbdr over the whole flash announces the record at the offset, with a higher sequence number
than before and whatever the stack holds. -/
def Recalled (before after : Chip) (offset bootaddr : Nat) (line : CString) : Prop :=
  ∃ place, selected boardLayout (mapped after) 0 = some place ∧
    place.recordStart (mapped after) = offset ∧
    highest before < place.sequence (mapped after) ∧
    ∀ behind, findbdr boardLayout (mapped after) behind 0 =
      some ⟨place.sequence (mapped after), reported boardLayout bootaddr, some line.bytes⟩

/-- The offset is one that the search looks at, and the other place of its block does not come
first. -/
def Foremost (before after : Chip) (offset : Nat) : Prop :=
  (offset % 0x10000 = 0 ∧ endSequence (mapped after) offset ≤ highest before + 1) ∨
    (offset % 0x10000 = 0xfc00 ∧ startSequence (mapped after) (offset - 0xfc00 : Nat) ≤ highest before)

structure Findable (before after : Chip) (offset bootaddr : Nat) (line : CString) : Prop where
  numbered : highest before + 1 ≠ 0xffffffff
  usable : Usable bootaddr
  short : line.bytes.length < 512
  foremost : Foremost before after offset

section Write
variable {chip : Chip} {offset bootaddr : Nat} {record : List UInt8}
  (inside : offset < cfgFlashSize) (aligned : offset % 1024 = 0)
  (size : record.length = 4 * bdrSize)
include inside aligned size

/-- Only the two places of its own block can change. -/
theorem unchanged_places : ∃ front back,
    places boardLayout 0 = front ++ blockPlaces (offset / 0x10000) ++ back ∧
      ∀ place, place ∈ front ∨ place ∈ back →
        place.sequence (mapped (splice chip offset record)) ≤ highest chip := by
  have block : offset / 0x10000 < 64 := by
    have bound : offset < 64 * (64 * 1024) := inside
    omega
  obtain ⟨front, back, split, others⟩ := split_places block
  refine ⟨front, back, split, ?_⟩
  intro place here
  obtain ⟨other, _, apart, within⟩ := others place here
  rw [other_block_sequence aligned size apart within]
  apply sequence_le_highest
  rw [split]
  rcases here with early | late
  · exact List.mem_append_left _ (List.mem_append_left _ early)
  · exact List.mem_append_right _ late

variable (words : RecordWords (flashaddr (mapped (splice chip offset record)) offset)
  (highest chip + 1) bootaddr)
include words

/-- A record at the beginning of a block. -/
theorem selected_start_iff (beginning : offset % 0x10000 = 0) :
    selected boardLayout (mapped (splice chip offset record)) 0 = some (.start offset) ↔
      highest chip + 1 ≠ 0xffffffff ∧
        endSequence (mapped (splice chip offset record)) offset ≤ highest chip + 1 := by
  have whole : (0x10000 * ((offset / 0x10000 : Nat) : Int)) = offset := by omega
  obtain ⟨front, back, split, unchanged⟩ := @unchanged_places chip offset record inside aligned size
  rw [blockPlaces, whole] at split
  have own := record_start_sequence words
  have other : Place.final offset ∈ places boardLayout 0 := by
    rw [split]
    simp
  constructor
  · intro chosen
    have first := first_max_some _ chosen
    have valid : highest chip + 1 ≠ 0xffffffff := by
      intro last
      rw [if_pos (Or.inr last)] at own
      exact absurd own (Nat.ne_of_gt first.positive)
    refine ⟨valid, ?_⟩
    have largest := (is_first_max_mem _ first).2 _ other
    rw [own, if_neg (not_or.mpr ⟨Nat.succ_ne_zero _, valid⟩)] at largest
    exact largest
  · rintro ⟨valid, behind⟩
    rw [if_neg (not_or.mpr ⟨Nat.succ_ne_zero _, valid⟩)] at own
    rw [selected, split, List.append_assoc]
    apply first_max_of_split
    · rw [own]
      exact Nat.succ_pos _
    · intro place early
      rw [own]
      exact Nat.lt_succ_of_le (unchanged place (Or.inl early))
    · intro place late
      rw [own]
      rcases List.mem_cons.mp late with rfl | late
      · exact behind
      · exact Nat.le_succ_of_le (unchanged place (Or.inr late))

end Write

section WriteEnd
variable {chip : Chip} {block bootaddr : Nat} {record : List UInt8}
  (inside : block + 0xfc00 < cfgFlashSize) (aligned : block % 0x10000 = 0)
  (size : record.length = 4 * bdrSize)
  (words : RecordWords (flashaddr (mapped (splice chip (block + 0xfc00) record))
    (block + (0xfc00 : Nat))) (highest chip + 1) bootaddr)
include inside aligned size words

/-- A record at the end of a block. -/
theorem selected_final_iff :
    selected boardLayout (mapped (splice chip (block + 0xfc00) record)) 0 = some (.final block) ↔
      highest chip + 1 ≠ 0xffffffff ∧
        startSequence (mapped (splice chip (block + 0xfc00) record)) block ≤ highest chip := by
  have whole : (0x10000 * (((block + 0xfc00) / 0x10000 : Nat) : Int)) = block := by omega
  obtain ⟨front, back, split, unchanged⟩ :=
    @unchanged_places chip (block + 0xfc00) record inside (by omega) size
  rw [blockPlaces, whole] at split
  have own := record_final_sequence words
  have other : Place.start block ∈ places boardLayout 0 := by
    rw [split]
    simp
  constructor
  · intro chosen
    have first := first_max_some _ chosen
    have valid : highest chip + 1 ≠ 0xffffffff := by
      intro last
      rw [if_pos (Or.inr last)] at own
      exact absurd own (Nat.ne_of_gt first.positive)
    refine ⟨valid, ?_⟩
    rw [if_neg (not_or.mpr ⟨Nat.succ_ne_zero _, valid⟩)] at own
    have largest := (is_first_max_mem _ first).2 _ other
    rw [own] at largest
    -- With the same number, the place that is scanned first would have been taken.
    by_contra above
    have tie : (Place.start block).sequence (mapped (splice chip (block + 0xfc00) record)) =
        highest chip + 1 := Nat.le_antisymm largest (Nat.not_le.mp above)
    have earlier : selected boardLayout (mapped (splice chip (block + 0xfc00) record)) 0 =
        some (.start block) := by
      rw [selected, split, List.append_assoc]
      apply first_max_of_split
      · rw [tie]
        exact Nat.succ_pos _
      · intro place early
        rw [tie]
        exact Nat.lt_succ_of_le (unchanged place (Or.inl early))
      · intro place late
        rw [tie]
        rcases List.mem_cons.mp late with rfl | late
        · exact Nat.le_of_eq own
        · exact Nat.le_succ_of_le (unchanged place (Or.inr late))
    rw [chosen] at earlier
    cases earlier
  · rintro ⟨valid, before⟩
    rw [if_neg (not_or.mpr ⟨Nat.succ_ne_zero _, valid⟩)] at own
    have reordered : front ++ [Place.start block, Place.final block] ++ back =
        (front ++ [.start block]) ++ .final block :: back := by
      simp
    rw [selected, split, reordered]
    apply first_max_of_split
    · rw [own]
      exact Nat.succ_pos _
    · intro place early
      rw [own]
      rcases List.mem_append.mp early with early | last
      · exact Nat.lt_succ_of_le (unchanged place (Or.inl early))
      · rw [List.mem_singleton.mp last]
        exact Nat.lt_succ_of_le before
    · intro place late
      rw [own]
      exact Nat.le_succ_of_le (unchanged place (Or.inr late))

end WriteEnd

section Recall
variable {chip after : Chip} {place : Place} {mem : Nat → UInt8} {bootaddr : Nat} {text : EnvText}

/-- What findbdr announces once it has selected the record. -/
theorem announced_iff (chosen : selected boardLayout (mapped after) 0 = some place)
    (copied : place.copied (mapped after) = some (recorded mem bootaddr))
    (args : slice mem 36 512 = slice text.bytes 0 512) :
    (∀ behind, findbdr boardLayout (mapped after) behind 0 =
        some ⟨place.sequence (mapped after), reported boardLayout bootaddr,
          some text.line.bytes⟩) ↔
      Usable bootaddr ∧ text.line.bytes.length < 512 := by
  have same : argsText (recorded mem bootaddr).bootarg = argsText text.bytes := by
    have bytes : slice (recorded mem bootaddr).bootarg 0 512 = slice mem 36 512 := by
      unfold slice
      apply List.map_congr_left
      intro i member
      have below := List.mem_range.mp member
      simp only [recorded, Nat.zero_add, below, if_true]
    rw [argsText, bytes, args]
    rfl
  have result := fun behind =>
    findbdr_some behind chosen (copied_parse (mapped after) copied (behind place))
  rw [same] at result
  constructor
  · intro announced
    have first := announced fun _ _ => 0
    rw [result] at first
    by_cases usable : Usable bootaddr
    · refine ⟨usable, ?_⟩
      by_contra long
      rw [env_text_long (Nat.not_lt.mp long)] at first
      split at first
      · injection first with fields
        injection fields with _ _ impossible
        cases impossible
      · cases first
    · have refused : ¬ Usable (recorded mem bootaddr).bootaddr := usable
      rw [if_neg refused] at first
      cases first
  · rintro ⟨usable, short⟩ behind
    have accepted : Usable (recorded mem bootaddr).bootaddr := usable
    rw [result, if_pos accepted, env_text_short short]
    rfl

variable {offset : Nat} {record : List UInt8}

theorem recalled_iff (inside : offset < cfgFlashSize) (aligned : offset % 1024 = 0)
    (size : record.length = 4 * bdrSize)
    (words : RecordWords (flashaddr (mapped (splice chip offset record)) offset) (highest chip + 1)
      bootaddr)
    (args : slice (flashaddr (mapped (splice chip offset record)) offset) 36 512 =
      slice text.bytes 0 512) :
    Recalled chip (splice chip offset record) offset bootaddr text.line ↔
      Findable chip (splice chip offset record) offset bootaddr text.line := by
  have startCopied := start_copied _ (record_start_tags words) (by decide)
  constructor
  · rintro ⟨place, chosen, begins, higher, announced⟩
    have member := selected_member chosen
    rw [board_places] at member
    obtain ⟨block, _, within⟩ := List.mem_flatMap.mp member
    rcases List.mem_cons.mp within with rfl | within
    · have here : (0x10000 * block : Int) = offset := begins
      rw [here] at chosen announced
      have beginning : offset % 0x10000 = 0 := by omega
      obtain ⟨usable, short⟩ := (announced_iff chosen startCopied args).mp announced
      obtain ⟨numbered, first⟩ :=
        (selected_start_iff inside aligned size words beginning).mp chosen
      exact ⟨numbered, usable, short, Or.inl ⟨beginning, first⟩⟩
    · rw [List.mem_singleton.mp within] at chosen begins higher announced
      have header := final_header_size (Nat.ne_of_gt (Nat.zero_lt_of_lt higher))
      rw [begins, words.size] at header
      have length : (bdrBlockSize : Int) = 0x10000 := rfl
      have whole : 4 * bdrSize % 2 ^ 32 = 1024 := by decide
      rw [Place.recordStart, ← header, whole] at begins
      obtain ⟨start, rfl, rfl⟩ : ∃ start, offset = start + 0xfc00 ∧ start = 0x10000 * block :=
        ⟨0x10000 * block, by omega, rfl⟩
      rw [Nat.cast_add] at words args
      have here : (0x10000 * block : Int) = (0x10000 * block : Nat) := by push_cast; rfl
      rw [here] at chosen announced
      have copied := final_copied _ (record_final_tags words) (final_size words)
      obtain ⟨usable, short⟩ := (announced_iff chosen copied args).mp announced
      obtain ⟨numbered, first⟩ := (selected_final_iff inside (by omega) size words).mp chosen
      refine ⟨numbered, usable, short, Or.inr ⟨by omega, ?_⟩⟩
      rw [Nat.add_sub_cancel]
      exact first
  · rintro ⟨numbered, usable, short, ⟨beginning, first⟩ | ⟨ending, first⟩⟩
    · have chosen := (selected_start_iff inside aligned size words beginning).mpr ⟨numbered, first⟩
      have own := record_start_sequence words
      rw [if_neg (not_or.mpr ⟨Nat.succ_ne_zero _, numbered⟩)] at own
      refine ⟨.start offset, chosen, rfl, ?_, ?_⟩
      · rw [own]
        exact Nat.lt_succ_self _
      · exact (announced_iff chosen startCopied args).mpr ⟨usable, short⟩
    · obtain ⟨start, rfl⟩ : ∃ start, offset = start + 0xfc00 := ⟨offset - 0xfc00, by omega⟩
      rw [Nat.cast_add] at words args
      rw [Nat.add_sub_cancel] at first
      have chosen := (selected_final_iff inside (by omega) size words).mpr ⟨numbered, first⟩
      have own := record_final_sequence words
      rw [if_neg (not_or.mpr ⟨Nat.succ_ne_zero _, numbered⟩)] at own
      have copied := final_copied _ (record_final_tags words) (final_size words)
      refine ⟨.final start, chosen, ?_, ?_, ?_⟩
      · rw [final_record_start words, Nat.cast_add]
      · rw [own]
        exact Nat.lt_succ_self _
      · exact (announced_iff chosen copied args).mpr ⟨usable, short⟩

theorem written_recalled_iff {state : FlashState} {behind : Place → Nat → UInt8}
    {unset : Nat → UInt8} (inside : offset < cfgFlashSize) (aligned : offset % 1024 = 0)
    (clear : state.protect (offset / cfgFlashSectorSize) = 0) (bootBound : bootaddr < 2 ^ 32) :
    Recalled state.chip
        (writebdr state behind unset (cfgFlashBase + offset) bootaddr text.bytes).flash.chip
        offset bootaddr text.line ↔
      Findable state.chip
        (splice state.chip offset (bdrRecord (highest state.chip + 1) bootaddr text.bytes unset))
        offset bootaddr text.line := by
  have below := @highest_lt state.chip
  have number : (highest state.chip + 1) % 2 ^ 32 = highest state.chip + 1 := by omega
  rw [writebdr_writes inside aligned clear, number]
  have stored := @mapped_record state.chip offset _ (@bdr_record_length
    (highest state.chip + 1) bootaddr text.bytes unset)
  have words := record_words stored (by omega) bootBound
  exact recalled_iff inside aligned bdr_record_length words (record_args stored)

end Recall

theorem flash_target_lt (text : List UInt8) : flashTarget text < 2 ^ 32 := by
  have value := simple_strtoul_lt text 16
  unfold flashTarget
  simp only
  split
  · exact Nat.or_lt_two_pow value (by decide)
  · exact value

theorem boot_target_lt (rest : List (List UInt8)) (unsetAddr : UInt32) :
    bootTarget rest unsetAddr < 2 ^ 32 := by
  unfold bootTarget
  split
  · exact simple_strtoul_lt _ 16
  · exact unsetAddr.toNat_lt

section Command
variable (state : FlashState) (behind : Place → Nat → UInt8) (unset : Nat → UInt8)
  (unsetAddr : UInt32) (text : EnvText) (addrText : List UInt8) (rest : List (List UInt8))

/-- The flash with the record that the command builds at the address. -/
def withRecord : Chip :=
  splice state.chip (flashTarget addrText - cfgFlashBase)
    (bdrRecord (highest state.chip + 1) (bootTarget rest unsetAddr) text.bytes unset)

/-- After a successful writebdr findbdr announces the record just written exactly when the record
is at the beginning or the end of a block, nothing else in that block comes first, and its number,
address and text are ones that a record can hold. -/
theorem writebdr_recalled_iff
    (succeeded : (doWritebdr state behind unset unsetAddr text.bytes (addrText :: rest)).rcode = 0) :
    Recalled state.chip
        (doWritebdr state behind unset unsetAddr text.bytes (addrText :: rest)).flash.chip
        (flashTarget addrText - cfgFlashBase) (bootTarget rest unsetAddr) text.line ↔
      Findable state.chip (withRecord state unset unsetAddr text addrText rest)
        (flashTarget addrText - cfgFlashBase) (bootTarget rest unsetAddr) text.line := by
  have below := flash_target_lt addrText
  have bootBound := boot_target_lt rest unsetAddr
  unfold withRecord
  simp only [doWritebdr] at succeeded ⊢
  split at succeeded
  · cases succeeded
  · rename_i reached
    rw [if_neg reached]
    have limit : boardLayout.flashStartAddress ||| 0x80000 = 0x9f080000 := by decide
    have above : cfgFlashBase ≤ flashTarget addrText := by
      rw [limit] at reached
      unfold cfgFlashBase
      omega
    obtain ⟨offset, target⟩ := Nat.exists_eq_add_of_le above
    rw [target] at succeeded ⊢
    obtain ⟨inside, aligned, clear⟩ := writebdr_accepted succeeded
    rw [Nat.add_sub_cancel_left]
    exact written_recalled_iff inside aligned clear bootBound

end Command

def erased : FlashState := ⟨fun _ => 0, fun _ => 0xff⟩

def emptyLine : EnvText := ⟨⟨[], List.not_mem_nil⟩, fun _ => 0⟩

/-- `writebdr ADDR 9f050000` on an erased flash. -/
def writeErased (addrText : List UInt8) : Outcome :=
  doWritebdr erased (fun _ _ => 0) (fun _ => 0) 0 emptyLine.bytes [addrText, ascii "9f050000"]

theorem write_erased_succeeds {addrText : List UInt8} {offset : Nat}
    (target : flashTarget addrText = cfgFlashBase + offset) (reached : 0x80000 ≤ offset)
    (inside : offset < cfgFlashSize) (aligned : offset % 1024 = 0) :
    (writeErased addrText).rcode = 0 := by
  have limit : boardLayout.flashStartAddress ||| 0x80000 = cfgFlashBase + 0x80000 := by decide
  simp only [writeErased, doWritebdr]
  rw [if_neg (by rw [target, limit]; omega), target, writebdr_writes inside aligned rfl]

/-- The first kilobyte of a block. -/
theorem write_80000_recalled :
    Recalled erased.chip (writeErased (ascii "80000")).flash.chip 0x80000 0x9f050000
      emptyLine.line := by
  have target : flashTarget (ascii "80000") = cfgFlashBase + 0x80000 := by decide
  have succeeded := write_erased_succeeds target (by decide) (by decide) (by decide)
  have law := writebdr_recalled_iff erased (fun _ _ => 0) (fun _ => 0) 0 emptyLine (ascii "80000")
    [ascii "9f050000"] succeeded
  have none : highest erased.chip = 0 := by decide +kernel
  have boot : bootTarget [ascii "9f050000"] 0 = 0x9f050000 := by decide
  rw [target, Nat.add_sub_cancel_left, boot] at law
  have alone : endSequence (mapped (splice erased.chip 0x80000
      (bdrRecord (0 + 1) 0x9f050000 emptyLine.bytes fun _ => 0))) (0x80000 : Nat) = 0 := by
    decide +kernel
  unfold writeErased
  apply law.mpr
  constructor
  · rw [none]
    decide
  · constructor <;> decide
  · exact Nat.succ_pos _
  · left
    rw [withRecord, target, Nat.add_sub_cancel_left, boot, none, alone]
    exact ⟨rfl, Nat.zero_le _⟩

/-- The second kilobyte of a block: the write succeeds, but findbdr does not look there. -/
theorem write_80400_not_recalled :
    (writeErased (ascii "80400")).rcode = 0 ∧
      ¬ Recalled erased.chip (writeErased (ascii "80400")).flash.chip 0x80400 0x9f050000
        emptyLine.line := by
  have target : flashTarget (ascii "80400") = cfgFlashBase + 0x80400 := by decide
  have limit : boardLayout.flashStartAddress ||| 0x80000 = cfgFlashBase + 0x80000 := by decide
  have boot : bootTarget [ascii "9f050000"] 0 = 0x9f050000 := by decide
  refine ⟨write_erased_succeeds target (by decide) (by decide) (by decide), ?_⟩
  simp only [writeErased, doWritebdr]
  rw [if_neg (by rw [target, limit]; omega), target, boot]
  intro recalled
  have findable := (written_recalled_iff (by decide) (by decide) rfl (by decide)).mp recalled
  rcases findable.foremost with ⟨beginning, _⟩ | ⟨ending, _⟩
  · exact absurd beginning (by decide)
  · exact absurd ending (by decide)

end UBoot.Bdr.WriteBdr
