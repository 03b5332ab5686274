import UBoot.Load.SRecordGrammar

/-!
tools/img2srec.c: an ELF file as S-records. The section table and the line buffer are lists here,
and a run says how much of the buffers it writes.
-/

namespace UBoot.Load.Img2srec

open Lib.Strings Library.Memory SRecord SRecordGrammar

/-- The name and the contents of a file that could be opened, and the offset of the command line.
fseek takes a long, which may be as short as 32 bits; such a host opens no longer file. -/
structure Input where
  fileName : List UInt8
  bytes : List UInt8
  loadOffset : Nat
  wide : Bool
  offset_lt : loadOffset < 2 ^ 32
  fits : wide = false → bytes.length < 2 ^ 31

def fread (bytes : List UInt8) (pos count : Nat) : List UInt8 := (bytes.drop pos).take count

/-- The position behind fseek, which fails for a negative offset. -/
def Input.fseek (input : Input) (pos offset : Nat) : Nat :=
  if input.wide = true ∨ offset < 2 ^ 31 then offset else pos

def extractWord (buffer : List UInt8) (i : Nat) : Nat :=
  (buffer.getD i 0).toNat * 256 + (buffer.getD (i + 1) 0).toNat

def extractLong (buffer : List UInt8) (i : Nat) : Nat :=
  extractWord buffer i * 65536 + extractWord buffer (i + 2)

/-- The text at `pa` and the sum of its bytes. -/
structure Hex where
  text : List UInt8
  checkSum : Nat

def writeHex (pa : Hex) (value : UInt8) : Hex :=
  ⟨pa.text ++ hexByte value.toNat, (pa.checkSum + value.toNat) % 2 ^ 16⟩

def addrLen (sType : Nat) : Option Nat :=
  if sType = 0 ∨ sType = 1 ∨ sType = 9 then some 2
  else if sType = 2 ∨ sType = 8 then some 3
  else if sType = 3 ∨ sType = 7 then some 4
  else none

def addrBytes (addrLen addr : Nat) : List UInt8 :=
  (List.range addrLen).map fun i => UInt8.ofNat (addr / 2 ^ (8 * (addrLen - 1 - i)))

/-- What BuildSRecord writes in front of the zero; for other types it writes nothing. -/
def buildSRecord (sType addr : Nat) (data : List UInt8) : List UInt8 :=
  match addrLen sType with
  | none => []
  | some addrLen =>
      let sRLen := addrLen + data.length + 1
      let pa := writeHex ⟨[83, UInt8.ofNat (sType + 48)], 0⟩ (UInt8.ofNat sRLen)
      let pa := (addrBytes addrLen addr).foldl writeHex pa
      let pa := data.foldl writeHex pa
      (writeHex pa (UInt8.ofNat (2 ^ 16 - 1 - pa.checkSum))).text

def SHT_PROGBITS : Nat := 1
def ET_EXEC : Nat := 2

structure Elf32_Ehdr where
  e_shoff : Nat
  e_shnum : Nat
  deriving DecidableEq

structure Elf32_Shdr where
  sh_type : Nat
  sh_flags : Nat
  sh_addr : Nat
  sh_offset : Nat
  sh_size : Nat
  deriving DecidableEq

def readHeader (bytes : List UInt8) : Option Elf32_Ehdr :=
  let rxBlock := fread bytes 0 52
  if rxBlock.length ≠ 52 ∨ rxBlock.take 4 ≠ [0x7f, 69, 76, 70] ∨ extractWord rxBlock 16 ≠ ET_EXEC then
    none
  else some ⟨extractLong rxBlock 32, extractWord rxBlock 48⟩

def extractSection (rxBlock : List UInt8) (i : Nat) : Elf32_Shdr :=
  ⟨extractLong rxBlock (i + 4), extractLong rxBlock (i + 8), extractLong rxBlock (i + 12),
    extractLong rxBlock (i + 16), extractLong rxBlock (i + 20)⟩

/-- How many entries of sectHeader are written, and the headers with the position behind them if
none is cut off. -/
structure Table where
  entries : Nat
  sections : Option (List Elf32_Shdr × Nat)

def readSections (bytes : List UInt8) : (count pos : Nat) → Table
  | 0, pos => ⟨0, some ([], pos)⟩
  | count + 1, pos =>
      let rxBlock := fread bytes pos 40
      if rxBlock.length ≠ 40 then ⟨1, none⟩
      else
        let rest := readSections bytes count (pos + 40)
        ⟨rest.entries + 1,
          rest.sections.map fun later => (extractSection rxBlock 0 :: later.1, later.2)⟩

/-- The records of a section, and the position behind it. A read at the end of the file gives
nothing, and the loop goes on. -/
def writeBlocks (input : Input) : (fuel pos loadSize loadAddr : Nat) →
    Option (List (List UInt8) × Nat)
  | 0, _, _, _ => none
  | fuel + 1, pos, loadSize, loadAddr =>
      if loadSize = 0 then some ([], pos)
      else
        let rxBlock := fread input.bytes pos (if loadSize > 32 then 32 else loadSize)
        let srecLine := buildSRecord 3 ((loadAddr + input.loadOffset) % 2 ^ 32) rxBlock
        (writeBlocks input fuel (pos + rxBlock.length) (loadSize - rxBlock.length)
          ((loadAddr + rxBlock.length) % 2 ^ 32)).map fun rest => (srecLine :: rest.1, rest.2)

structure Writer where
  firstAddr : Nat
  loadDiff : Nat
  pos : Nat
  lines : List (List UInt8)

def Elf32_Shdr.Loaded (sect : Elf32_Shdr) : Prop := sect.sh_type = SHT_PROGBITS ∧ sect.sh_size ≠ 0

instance (sect : Elf32_Shdr) : Decidable sect.Loaded :=
  inferInstanceAs (Decidable (_ ∧ _))

/-- How far a section is moved from its place in the file. -/
def Elf32_Shdr.diff (sect : Elf32_Shdr) : Nat := (sect.sh_addr + 2 ^ 32 - sect.sh_offset) % 2 ^ 32

def writeSection (input : Input) (fuel : Nat) (writer : Writer) (sect : Elf32_Shdr) : Option Writer :=
  if sect.Loaded then
    let loadDiff := if sect.sh_flags ≠ 0 then sect.diff else writer.loadDiff
    let loadAddr :=
      if sect.sh_flags ≠ 0 then sect.sh_addr else (sect.sh_offset + writer.loadDiff) % 2 ^ 32
    let firstAddr := if loadAddr < writer.firstAddr then loadAddr else writer.firstAddr
    (writeBlocks input fuel (input.fseek writer.pos sect.sh_offset) sect.sh_size loadAddr).map
      fun rest => ⟨firstAddr, loadDiff, rest.2, writer.lines ++ rest.1⟩
  else some writer

/-- The text behind the last slash. -/
def hdrName (fileName : List UInt8) : List UInt8 :=
  (fileName.reverse.takeWhile fun c => c ≠ 47).reverse

def illegalFormat : List UInt8 := ascii "*** illegal file format\n"

/-- The lines on stdout, what stderr gets, and the entries of the section table that are written. -/
structure Run where
  lines : List (List UInt8)
  stderr : List UInt8
  entries : Nat

def convertELF (input : Input) (fuel : Nat) : Option Run :=
  match readHeader input.bytes with
  | none => some ⟨[], illegalFormat, 0⟩
  | some elfHeader =>
      let table := readSections input.bytes elfHeader.e_shnum (input.fseek 52 elfHeader.e_shoff)
      match table.sections with
      | none => some ⟨[], illegalFormat, table.entries⟩
      | some (sectHeader, pos) =>
          let start := buildSRecord 0 0 (hdrName input.fileName)
          (sectHeader.foldlM (writeSection input fuel) ⟨2 ^ 32 - 1, 0, pos, [start]⟩).map
            fun writer =>
              let last := buildSRecord 7 ((writer.firstAddr + input.loadOffset) % 2 ^ 32) []
              ⟨writer.lines ++ [last], [], table.entries⟩

/-! ### What the records say -/

def store (memory : Nat → UInt8) (address : Nat) (bytes : List UInt8) : Nat → UInt8 :=
  copy (2 ^ 32) memory address (fun i => bytes.getD i 0) bytes.length

/-- The effect of a line on the memory it is loaded into. -/
def loadLine (memory : Nat → UInt8) (line : List UInt8) : Nat → UInt8 :=
  match srecDecode line with
  | .record .data2 _ addr data | .record .data3 _ addr data | .record .data4 _ addr data =>
      store memory addr data
  | _ => memory

/-- The addresses and the bytes of the sections that are loaded. A section with flags stands at its
own address, and one without keeps its distance in the file from the last one with flags. -/
def placements (bytes : List UInt8) : (loadDiff : Nat) → List Elf32_Shdr → List (Nat × List UInt8)
  | _, [] => []
  | loadDiff, sect :: rest =>
      if sect.Loaded then
        let contents := fread bytes sect.sh_offset sect.sh_size
        if sect.sh_flags ≠ 0 then (sect.sh_addr, contents) :: placements bytes sect.diff rest
        else ((sect.sh_offset + loadDiff) % 2 ^ 32, contents) :: placements bytes loadDiff rest
      else placements bytes loadDiff rest

/-- The smallest address, or the largest word where there is none. -/
def lowest (places : List (Nat × List UInt8)) : Nat :=
  (places.map Prod.fst).foldl min (2 ^ 32 - 1)

/-- The section headers from a place on. -/
def sectionsAt (bytes : List UInt8) (start count : Nat) : List Elf32_Shdr :=
  (List.range count).map fun i => extractSection bytes (start + 40 * i)

/-- The bytes that are loaded are in the file. -/
def InFile (bytes : List UInt8) (sections : List Elf32_Shdr) : Prop :=
  ∀ sect ∈ sections, sect.Loaded → sect.sh_offset + sect.sh_size ≤ bytes.length

/-- A big-endian ELF32 executable. Its class and the size of its section headers are not looked at. -/
structure Executable (bytes : List UInt8) (sections : List Elf32_Shdr) : Prop where
  header : ∃ elfHeader, readHeader bytes = some elfHeader ∧
    elfHeader.e_shoff + 40 * elfHeader.e_shnum ≤ bytes.length ∧
    sections = sectionsAt bytes elfHeader.e_shoff elfHeader.e_shnum ∧
    (elfHeader.e_shnum = 0 → elfHeader.e_shoff = 0)
  ident : bytes.getD 4 0 = 1 ∧ bytes.getD 5 0 = 2
  entsize : sections ≠ [] → extractWord bytes 46 = 40
  inside : InFile bytes sections

/-- If the file has an ELF header, no more than 32 section headers are read; and if none of these
is cut off, the name has at most 58 bytes and the sections are in the file. -/
def Served (input : Input) : Prop :=
  ∀ elfHeader, readHeader input.bytes = some elfHeader →
    let start := input.fseek 52 elfHeader.e_shoff
    (elfHeader.e_shnum ≤ 32 ∨ input.bytes.length < start + 40 * 32) ∧
      (elfHeader.e_shnum = 0 ∨ start + 40 * elfHeader.e_shnum ≤ input.bytes.length →
        (hdrName input.fileName).length ≤ 58 ∧
          InFile input.bytes (sectionsAt input.bytes start elfHeader.e_shnum))

/-- The section table has 32 entries and the line 128 characters. -/
structure Inside (run : Run) : Prop where
  table : run.entries ≤ 32
  line : ∀ line ∈ run.lines, line.length + 1 ≤ 128

/-- All lines are decoded: the name, the data of the sections, and the lowest address. -/
structure Converted (input : Input) (sections : List Elf32_Shdr) (run : Run) : Prop where
  decoded : ∃ data, run.lines.map srecDecode =
      .record .start (hdrName input.fileName).length 0 (hdrName input.fileName) :: data ++
        [.record .end4 0
          ((lowest (placements input.bytes 0 sections) + input.loadOffset) % 2 ^ 32) []] ∧
    ∀ record ∈ data, ∃ addr bytes, record = .record .data4 (bytes : List UInt8).length addr bytes
  loads : ∀ memory, run.lines.foldl loadLine memory =
    (placements input.bytes 0 sections).foldl
      (fun memory place => store memory ((place.1 + input.loadOffset) % 2 ^ 32) place.2) memory
  silent : run.stderr = []

/-! ### One record -/

theorem fold_write_hex (bytes : List UInt8) (pa : Hex) (bound : pa.checkSum < 2 ^ 16) :
    bytes.foldl writeHex pa =
      ⟨pa.text ++ hexText bytes, (pa.checkSum + SRecord.sum bytes) % 2 ^ 16⟩ := by
  induction bytes generalizing pa with
  | nil =>
      rw [List.foldl_nil, sum_nil, Nat.add_zero, Nat.mod_eq_of_lt bound]
      simp [hexText]
  | cons byte rest inductive_hypothesis =>
      rw [List.foldl_cons, inductive_hypothesis _ (Nat.mod_lt _ (by decide))]
      have total : SRecord.sum (byte :: rest) = byte.toNat + SRecord.sum rest := by
        simp [SRecord.sum]
      rw [total]
      simp only [writeHex, hexText, List.flatMap_cons, List.append_assoc, Hex.mk.injEq, true_and]
      omega

theorem addr_bytes_length (width addr : Nat) : (addrBytes width addr).length = width := by
  rw [addrBytes, List.length_map, List.length_range]

/-- The complement of the sum. -/
def checkByte (width addr : Nat) (data : List UInt8) : UInt8 :=
  let length := UInt8.ofNat (width + data.length + 1)
  UInt8.ofNat (2 ^ 16 - 1 - (length.toNat + SRecord.sum (addrBytes width addr ++ data)) % 2 ^ 16)

/-- The bytes of a record behind its type. -/
def recordBytes (width addr : Nat) (data : List UInt8) : List UInt8 :=
  UInt8.ofNat (width + data.length + 1) :: (addrBytes width addr ++ data) ++
    [checkByte width addr data]

section Records
variable {sType width : Nat} {data : List UInt8}

theorem build_text (known : addrLen sType = some width) (addr : Nat) :
    buildSRecord sType addr data =
      83 :: UInt8.ofNat (sType + 48) :: hexText (recordBytes width addr data) := by
  unfold buildSRecord
  rw [known]
  dsimp only
  rw [← List.foldl_append, fold_write_hex _ _ (Nat.mod_lt _ (Nat.two_pow_pos 16))]
  simp only [writeHex, Nat.zero_add, Nat.mod_add_mod, recordBytes, checkByte, hexText,
    List.flatMap_cons, List.flatMap_append, List.flatMap_nil, List.append_nil, List.append_assoc,
    List.cons_append, List.nil_append]

theorem build_length (known : addrLen sType = some width) (addr : Nat) :
    (buildSRecord sType addr data).length = 6 + 2 * (width + data.length) := by
  rw [build_text known, List.length_cons, List.length_cons, Loads.hex_text_length]
  simp only [recordBytes, List.cons_append, List.length_cons, List.length_append, addr_bytes_length,
    List.length_nil]
  omega

theorem build_decoded {type : SrecType} (known : addrLen sType = some width) (addr : Nat)
    (typed : srecType (UInt8.ofNat (sType + 48)) = some (type, width)) (other : type ≠ .count)
    (short : width + data.length < 255) :
    srecDecode (buildSRecord sType addr data) =
      .record type data.length (addressValue (addrBytes width addr)) data := by
  have width_bytes := addr_bytes_length width addr
  have length : (UInt8.ofNat (width + data.length + 1)).toNat = width + data.length + 1 := by
    rw [UInt8.toNat_ofNat']
    omega
  have count : 1 + (addrBytes width addr).length + data.length + 1 =
      (recordBytes width addr data).length := by
    simp only [recordBytes, List.cons_append, List.length_cons, List.length_append, List.length_nil]
    omega
  refine record_decoded ⟨⟨UInt8.ofNat (sType + 48), hexText (recordBytes width addr data) ++ [],
    UInt8.ofNat (width + data.length + 1), checkByte width addr data, [], ?_, ?_, ?_, ?_, ?_⟩, fun same => absurd same other⟩
  · rw [build_text known, afterS, if_pos rfl, List.append_nil]
  · rw [typed, width_bytes]
  · rw [count, hex_text_read]
    rfl
  · rw [length, width_bytes]
  · have total : SRecord.sum (addrBytes width addr ++ data) =
        SRecord.sum (addrBytes width addr) + SRecord.sum data := by
      simp [SRecord.sum]
    rw [checkByte, length, total, UInt8.toNat_ofNat']
    omega

end Records

theorem addr_bytes_value (addr : Nat) (bound : addr < 2 ^ 32) : addressValue (addrBytes 4 addr) = addr := by
  simp only [addressValue, addrBytes, List.range_succ, List.range_zero, List.nil_append,
    List.cons_append, List.map_cons, List.map_nil, List.foldl_cons, List.foldl_nil,
    UInt8.toNat_ofNat']
  omega

theorem start_decoded {name : List UInt8} (short : name.length ≤ 58) :
    srecDecode (buildSRecord 0 0 name) = .record .start name.length 0 name :=
  @build_decoded 0 2 name .start rfl 0 rfl (by decide) (by omega)

theorem data_decoded {addr : Nat} {data : List UInt8} (bound : addr < 2 ^ 32) (short : data.length ≤ 32) :
    srecDecode (buildSRecord 3 addr data) = .record .data4 data.length addr data := by
  rw [@build_decoded 3 4 data .data4 rfl addr rfl (by decide) (by omega), addr_bytes_value addr bound]

theorem last_decoded {addr : Nat} (bound : addr < 2 ^ 32) :
    srecDecode (buildSRecord 7 addr []) = .record .end4 0 addr [] := by
  rw [@build_decoded 7 4 [] .end4 rfl addr rfl (by decide) (by decide), addr_bytes_value addr bound]
  rfl

/-! ### One section -/

section Reads
variable {bytes : List UInt8} {pos first second : Nat}

theorem fread_length (inside : pos + first ≤ bytes.length) : (fread bytes pos first).length = first := by
  rw [fread, List.length_take, List.length_drop]
  omega

theorem fread_add : fread bytes pos (first + second) =
    fread bytes pos first ++ fread bytes (pos + first) second := by
  rw [fread, List.take_add, List.drop_drop]
  rfl

end Reads

theorem store_append (memory : Nat → UInt8) (address : Nat) (front back : List UInt8)
    (fits : front.length + back.length ≤ 2 ^ 32) :
    store (store memory address front) ((address + front.length) % 2 ^ 32) back =
      store memory address (front ++ back) := by
  have first : store memory address front = copy (2 ^ 32) memory address
      (fun i => (front ++ back).getD i 0) front.length := by
    apply copy_congr
    intro i below
    rw [List.getD_eq_getElem?_getD, List.getD_eq_getElem?_getD, List.getElem?_append_left below]
  have second : (fun i => back.getD i 0) = fun i => (front ++ back).getD (front.length + i) 0 := by
    funext i
    rw [List.getD_eq_getElem?_getD, List.getD_eq_getElem?_getD,
      List.getElem?_append_right (Nat.le_add_right _ _), Nat.add_sub_cancel_left]
  rw [first, store, second, copy_copy _ _ _ _ _ _ fits, store, List.length_append]

/-- A line that fits and has data. -/
def DataLine (line : List UInt8) : Prop :=
  line.length + 1 ≤ 128 ∧ ∃ addr bytes, srecDecode line = .record .data4 (bytes : List UInt8).length addr bytes

theorem load_data {addr : Nat} {data : List UInt8} (bound : addr < 2 ^ 32) (short : data.length ≤ 32)
    (memory : Nat → UInt8) : loadLine memory (buildSRecord 3 addr data) = store memory addr data := by
  rw [loadLine, data_decoded bound short]

theorem data_line {addr : Nat} {data : List UInt8} (bound : addr < 2 ^ 32) (short : data.length ≤ 32) :
    DataLine (buildSRecord 3 addr data) := by
  refine ⟨?_, addr, data, data_decoded bound short⟩
  rw [build_length rfl]
  omega

section Blocks
variable {input : Input}

theorem write_blocks_succ {fuel pos loadSize loadAddr count : Nat} (positive : loadSize ≠ 0)
    (read : (fread input.bytes pos (if loadSize > 32 then 32 else loadSize)).length = count) :
    writeBlocks input (fuel + 1) pos loadSize loadAddr =
      (writeBlocks input fuel (pos + count) (loadSize - count) ((loadAddr + count) % 2 ^ 32)).map
        fun rest => (buildSRecord 3 ((loadAddr + input.loadOffset) % 2 ^ 32)
          (fread input.bytes pos (if loadSize > 32 then 32 else loadSize)) :: rest.1, rest.2) := by
  rw [writeBlocks, if_neg positive]
  simp only [read]

/-- What the file holds is written in blocks, and these load as the whole. -/
theorem write_blocks {fuel pos loadSize loadAddr : Nat} (enough : loadSize < fuel)
    (inside : pos + loadSize ≤ input.bytes.length) (word : loadSize < 2 ^ 32) :
    ∃ lines, writeBlocks input fuel pos loadSize loadAddr = some (lines, pos + loadSize) ∧
      (∀ line ∈ lines, DataLine line) ∧ ∀ memory, lines.foldl loadLine memory =
        store memory ((loadAddr + input.loadOffset) % 2 ^ 32) (fread input.bytes pos loadSize) := by
  induction fuel generalizing pos loadSize loadAddr with
  | zero => exact absurd enough (Nat.not_lt_zero _)
  | succ fuel inductive_hypothesis =>
      by_cases zero : loadSize = 0
      · subst zero
        refine ⟨[], ?_, ?_, ?_⟩
        · rw [writeBlocks, if_pos rfl, Nat.add_zero]
        · exact fun line member => absurd member List.not_mem_nil
        · intro memory
          simp [store, fread, copy_zero]
      · -- One block is read, and the rest of the section is a shorter one.
        generalize count : (if loadSize > 32 then 32 else loadSize) = block
        have block_le : block ≤ loadSize ∧ 0 < block ∧ block ≤ 32 := by
          split at count <;> omega
        have read := @fread_length input.bytes pos block (by omega)
        obtain ⟨lines, written, datas, loads⟩ := @inductive_hypothesis (pos + block)
          (loadSize - block) ((loadAddr + block) % 2 ^ 32) (by omega) (by omega) (by omega)
        have place : (loadAddr + input.loadOffset) % 2 ^ 32 < 2 ^ 32 :=
          Nat.mod_lt _ (Nat.two_pow_pos 32)
        have unit := @write_blocks_succ input fuel pos loadSize loadAddr block zero
          (by rw [count, read])
        rw [count, written] at unit
        refine ⟨buildSRecord 3 ((loadAddr + input.loadOffset) % 2 ^ 32)
          (fread input.bytes pos block) :: lines, ?_, ?_, ?_⟩
        · rw [unit]
          have behind : pos + block + (loadSize - block) = pos + loadSize := by omega
          rw [Option.map_some, behind]
        · intro line member
          rcases List.mem_cons.mp member with rfl | later
          · exact data_line place (by rw [read]; omega)
          · exact datas line later
        · intro memory
          have behind : ((loadAddr + block) % 2 ^ 32 + input.loadOffset) % 2 ^ 32 =
              ((loadAddr + input.loadOffset) % 2 ^ 32 + block) % 2 ^ 32 := by
            omega
          have whole : loadSize = block + (loadSize - block) := by omega
          have last := @fread_length input.bytes (pos + block) (loadSize - block) (by omega)
          rw [List.foldl_cons, load_data place (by rw [read]; omega), loads, behind]
          conv_rhs => rw [whole, fread_add]
          have joined := store_append memory ((loadAddr + input.loadOffset) % 2 ^ 32)
            (fread input.bytes pos block) (fread input.bytes (pos + block) (loadSize - block))
            (by rw [read, last]; omega)
          rw [read] at joined
          exact joined

/-! ### The sections -/

/-- What the writer has behind some sections: the lines of their data, and the lowest address. -/
structure Wrote (input : Input) (writer after : Writer) (places : List (Nat × List UInt8)) : Prop where
  lines : ∃ lines, after.lines = writer.lines ++ lines ∧ (∀ line ∈ lines, DataLine line) ∧
    ∀ memory, lines.foldl loadLine memory = places.foldl
      (fun memory place => store memory ((place.1 + input.loadOffset) % 2 ^ 32) place.2) memory
  first : after.firstAddr = (places.map Prod.fst).foldl min writer.firstAddr

theorem wrote_nothing (writer : Writer) : Wrote input writer writer [] :=
  ⟨⟨[], (List.append_nil _).symm, fun _ member => absurd member List.not_mem_nil, fun _ => rfl⟩, rfl⟩

theorem wrote_append {writer middle after : Writer} {front back : List (Nat × List UInt8)}
    (early : Wrote input writer middle front) (late : Wrote input middle after back) :
    Wrote input writer after (front ++ back) := by
  obtain ⟨lines, early_lines, early_data, early_loads⟩ := early.lines
  obtain ⟨more, late_lines, late_data, late_loads⟩ := late.lines
  refine ⟨⟨lines ++ more, ?_, ?_, ?_⟩, ?_⟩
  · rw [late_lines, early_lines, List.append_assoc]
  · exact List.forall_mem_append.mpr ⟨early_data, late_data⟩
  · intro memory
    rw [List.foldl_append, List.foldl_append, early_loads, late_loads]
  · rw [late.first, early.first, List.map_append, List.foldl_append]

theorem fseek_inside {pos offset : Nat} (inside : offset ≤ input.bytes.length) :
    input.fseek pos offset = offset := by
  unfold Input.fseek
  by_cases wide : input.wide = true
  · rw [if_pos (.inl wide)]
  · have short := input.fits (Bool.eq_false_iff.mpr wide)
    rw [if_pos (.inr (by omega))]

/-- The address of a section, and the distance that those behind it keep. -/
def placed (loadDiff : Nat) (sect : Elf32_Shdr) : Nat × Nat :=
  if sect.sh_flags ≠ 0 then (sect.sh_addr, sect.diff)
  else ((sect.sh_offset + loadDiff) % 2 ^ 32, loadDiff)

theorem placements_loaded (bytes : List UInt8) (loadDiff : Nat) {sect : Elf32_Shdr}
    (loaded : sect.Loaded) (rest : List Elf32_Shdr) :
    placements bytes loadDiff (sect :: rest) =
      [((placed loadDiff sect).1, fread bytes sect.sh_offset sect.sh_size)] ++
        placements bytes (placed loadDiff sect).2 rest := by
  rw [placements, if_pos loaded, placed]
  by_cases flags : sect.sh_flags ≠ 0
  · rw [if_pos flags, if_pos flags]
    rfl
  · rw [if_neg flags, if_neg flags]
    rfl

theorem write_section_loaded {writer : Writer} {sect : Elf32_Shdr} {fuel : Nat}
    (loaded : sect.Loaded) (enough : input.bytes.length < fuel) (word : sect.sh_size < 2 ^ 32)
    (inside : sect.sh_offset + sect.sh_size ≤ input.bytes.length) :
    ∃ after, writeSection input fuel writer sect = some after ∧
      after.loadDiff = (placed writer.loadDiff sect).2 ∧ Wrote input writer after
        [((placed writer.loadDiff sect).1, fread input.bytes sect.sh_offset sect.sh_size)] := by
  obtain ⟨lines, written, datas, loads⟩ := @write_blocks input fuel sect.sh_offset sect.sh_size
    (placed writer.loadDiff sect).1 (by omega) inside word
  have moved : (if sect.sh_flags ≠ 0 then sect.diff else writer.loadDiff) =
      (placed writer.loadDiff sect).2 := by
    unfold placed
    split <;> rfl
  have address : (if sect.sh_flags ≠ 0 then sect.sh_addr
      else (sect.sh_offset + writer.loadDiff) % 2 ^ 32) = (placed writer.loadDiff sect).1 := by
    unfold placed
    split <;> rfl
  rw [writeSection, if_pos loaded]
  dsimp only
  rw [moved, address, fseek_inside (by omega), written]
  refine ⟨_, rfl, rfl, ⟨lines, rfl, datas, loads⟩, ?_⟩
  show (if (placed writer.loadDiff sect).1 < writer.firstAddr then (placed writer.loadDiff sect).1
    else writer.firstAddr) = min writer.firstAddr (placed writer.loadDiff sect).1
  split <;> omega

theorem write_sections {sections : List Elf32_Shdr} {fuel : Nat}
    (enough : input.bytes.length < fuel) (words : ∀ sect ∈ sections, sect.sh_size < 2 ^ 32)
    (inside : InFile input.bytes sections) (writer : Writer) :
    ∃ after, sections.foldlM (writeSection input fuel) writer = some after ∧
      Wrote input writer after (placements input.bytes writer.loadDiff sections) := by
  induction sections generalizing writer with
  | nil => exact ⟨writer, rfl, wrote_nothing writer⟩
  | cons sect rest inductive_hypothesis =>
      have later := inductive_hypothesis (fun other member => words other (List.mem_cons_of_mem _ member))
        (fun other member => inside other (List.mem_cons_of_mem _ member))
      rw [List.foldlM_cons]
      by_cases loaded : sect.Loaded
      · obtain ⟨middle, written, moved, first⟩ := @write_section_loaded input writer sect fuel loaded
          enough (words sect List.mem_cons_self) (inside sect List.mem_cons_self loaded)
        obtain ⟨after, ended, behind⟩ := later middle
        rw [moved] at behind
        refine ⟨after, ?_, ?_⟩
        · rw [written]
          exact ended
        · rw [placements_loaded input.bytes writer.loadDiff loaded rest]
          exact wrote_append first behind
      · have skipped : writeSection input fuel writer sect = some writer := by
          rw [writeSection, if_neg loaded]
        rw [skipped, placements, if_neg loaded]
        exact later writer

end Blocks

/-! ### The section headers -/

section Headers
variable {bytes : List UInt8}

theorem extract_word_lt (buffer : List UInt8) (i : Nat) : extractWord buffer i < 2 ^ 16 := by
  have high := (buffer.getD i 0).toNat_lt
  have low := (buffer.getD (i + 1) 0).toNat_lt
  unfold extractWord
  omega

theorem extract_long_lt (buffer : List UInt8) (i : Nat) : extractLong buffer i < 2 ^ 32 := by
  have high := extract_word_lt buffer i
  have low := extract_word_lt buffer (i + 2)
  unfold extractLong
  omega

theorem sections_words {start count : Nat} : ∀ sect ∈ sectionsAt bytes start count,
    sect.sh_size < 2 ^ 32 := by
  intro sect member
  obtain ⟨i, -, rfl⟩ := List.mem_map.mp member
  exact extract_long_lt bytes _

theorem extract_word_read {pos count i : Nat} (below : i + 2 ≤ count) :
    extractWord (fread bytes pos count) i = extractWord bytes (pos + i) := by
  have byte (j : Nat) (inside : j < count) :
      (fread bytes pos count).getD j 0 = bytes.getD (pos + j) 0 := by
    rw [fread, List.getD_eq_getElem?_getD, List.getD_eq_getElem?_getD, List.getElem?_take_of_lt inside,
      List.getElem?_drop]
  rw [extractWord, extractWord, byte i (by omega), byte (i + 1) (by omega), Nat.add_assoc]

theorem extract_long_read {pos count i : Nat} (below : i + 4 ≤ count) :
    extractLong (fread bytes pos count) i = extractLong bytes (pos + i) := by
  rw [extractLong, extractLong, extract_word_read (by omega), extract_word_read (by omega),
    Nat.add_assoc]

theorem extract_section_read (pos : Nat) :
    extractSection (fread bytes pos 40) 0 = extractSection bytes pos := by
  unfold extractSection
  rw [extract_long_read (by decide), extract_long_read (by decide), extract_long_read (by decide),
    extract_long_read (by decide), extract_long_read (by decide)]

theorem sections_at_succ (start count : Nat) : sectionsAt bytes start (count + 1) =
    extractSection bytes start :: sectionsAt bytes (start + 40) count := by
  have shift (i : Nat) : start + 40 * (i + 1) = start + 40 + 40 * i := by omega
  rw [sectionsAt, List.range_succ_eq_map, List.map_cons, List.map_map]
  refine congrArg₂ _ rfl (List.map_congr_left fun i _ => ?_)
  rw [Function.comp_apply, Nat.succ_eq_add_one, shift]

theorem read_sections_complete {count pos : Nat}
    (complete : count = 0 ∨ pos + 40 * count ≤ bytes.length) : readSections bytes count pos =
      ⟨count, some (sectionsAt bytes pos count, pos + 40 * count)⟩ := by
  induction count generalizing pos with
  | zero => rfl
  | succ count inductive_hypothesis =>
      have inside : pos + 40 * (count + 1) ≤ bytes.length :=
        complete.resolve_left (Nat.succ_ne_zero count)
      have later := @inductive_hypothesis (pos + 40) (.inr (by omega))
      have read := @fread_length bytes pos 40 (by omega)
      rw [readSections]
      dsimp only
      rw [if_neg (not_not.mpr read), later, extract_section_read, sections_at_succ, Option.map_some]
      congr 4
      omega

theorem read_sections_cut {count pos : Nat} (positive : count ≠ 0)
    (cut : bytes.length < pos + 40 * count) : (readSections bytes count pos).sections = none := by
  induction count generalizing pos with
  | zero => exact absurd rfl positive
  | succ count inductive_hypothesis =>
      rw [readSections]
      dsimp only
      by_cases short : (fread bytes pos 40).length ≠ 40
      · rw [if_pos short]
      · have read : (fread bytes pos 40).length ≤ bytes.length - pos := by
          rw [fread, List.length_take, List.length_drop]
          exact Nat.min_le_right _ _
        rw [if_neg short]
        dsimp only
        rw [inductive_hypothesis (by omega) (by omega), Option.map_none]

/-- One more entry than there are whole headers is written at most. -/
theorem read_sections_entries {count pos limit : Nat}
    (short : count ≤ limit ∨ bytes.length < pos + 40 * limit) (room : 0 < limit) :
    (readSections bytes count pos).entries ≤ limit := by
  induction count generalizing pos limit with
  | zero => exact Nat.zero_le limit
  | succ count inductive_hypothesis =>
      rw [readSections]
      dsimp only
      by_cases cut : (fread bytes pos 40).length ≠ 40
      · rw [if_pos cut]
        exact room
      · have read : (fread bytes pos 40).length ≤ bytes.length - pos := by
          rw [fread, List.length_take, List.length_drop]
          exact Nat.min_le_right _ _
        rw [if_neg cut]
        dsimp only
        cases count with
        | zero => exact room
        | succ count =>
            have later := @inductive_hypothesis (pos + 40) (limit - 1) (by omega) (by omega)
            omega

end Headers

/-! ### The file -/

section Files
variable {input : Input} {elfHeader : Elf32_Ehdr}

theorem convert_illegal (illegal : readHeader input.bytes = none) (fuel : Nat) :
    convertELF input fuel = some ⟨[], illegalFormat, 0⟩ := by
  rw [convertELF, illegal]

theorem convert_cut (accepted : readHeader input.bytes = some elfHeader)
    (positive : elfHeader.e_shnum ≠ 0)
    (cut : input.bytes.length < input.fseek 52 elfHeader.e_shoff + 40 * elfHeader.e_shnum) (fuel : Nat) :
    convertELF input fuel = some ⟨[], illegalFormat,
      (readSections input.bytes elfHeader.e_shnum (input.fseek 52 elfHeader.e_shoff)).entries⟩ := by
  rw [convertELF, accepted]
  dsimp only
  rw [read_sections_cut positive cut]

/-- The lines of a file whose headers and sections are complete. -/
theorem convert_complete (accepted : readHeader input.bytes = some elfHeader)
    (complete : elfHeader.e_shnum = 0 ∨
      input.fseek 52 elfHeader.e_shoff + 40 * elfHeader.e_shnum ≤ input.bytes.length)
    (inside : InFile input.bytes
      (sectionsAt input.bytes (input.fseek 52 elfHeader.e_shoff) elfHeader.e_shnum)) :
    let sections := sectionsAt input.bytes (input.fseek 52 elfHeader.e_shoff) elfHeader.e_shnum
    let places := placements input.bytes 0 sections
    ∃ lines, convertELF input (input.bytes.length + 1) = some
        ⟨buildSRecord 0 0 (hdrName input.fileName) :: lines ++
          [buildSRecord 7 ((lowest places + input.loadOffset) % 2 ^ 32) []], [], elfHeader.e_shnum⟩ ∧
      (∀ line ∈ lines, DataLine line) ∧
      ∀ memory, lines.foldl loadLine memory = places.foldl
        (fun memory place => store memory ((place.1 + input.loadOffset) % 2 ^ 32) place.2) memory := by
  intro sections places
  obtain ⟨after, written, wrote⟩ := write_sections (Nat.lt_succ_self input.bytes.length)
    sections_words inside ⟨2 ^ 32 - 1, 0,
      input.fseek 52 elfHeader.e_shoff + 40 * elfHeader.e_shnum,
      [buildSRecord 0 0 (hdrName input.fileName)]⟩
  obtain ⟨lines, same, datas, loads⟩ := wrote.lines
  refine ⟨lines, ?_, datas, loads⟩
  rw [convertELF, accepted]
  dsimp only
  rw [read_sections_complete complete]
  dsimp only
  rw [written, Option.map_some, same, wrote.first]
  rfl

theorem lines_inside {lines : List (List UInt8)} {addr entries : Nat} {stderr : List UInt8}
    (few : entries ≤ 32) (named : (hdrName input.fileName).length ≤ 58)
    (datas : ∀ line ∈ lines, DataLine line) :
    Inside ⟨buildSRecord 0 0 (hdrName input.fileName) :: lines ++ [buildSRecord 7 addr []], stderr,
      entries⟩ := by
  refine ⟨few, ?_⟩
  intro line member
  rcases List.mem_append.mp member with front | last
  · rcases List.mem_cons.mp front with rfl | data
    · rw [build_length rfl]
      omega
    · exact (datas line data).1
  · rw [List.mem_singleton.mp last, build_length rfl]
    decide

theorem convert_served (served : Served input) :
    ∃ fuel run, convertELF input fuel = some run ∧ Inside run := by
  cases accepted : readHeader input.bytes with
  | none =>
      exact ⟨0, _, convert_illegal accepted 0, Nat.zero_le 32, fun _ member => absurd member
        List.not_mem_nil⟩
  | some elfHeader =>
      obtain ⟨few, whole⟩ := served elfHeader accepted
      by_cases complete : elfHeader.e_shnum = 0 ∨
          input.fseek 52 elfHeader.e_shoff + 40 * elfHeader.e_shnum ≤ input.bytes.length
      · obtain ⟨named, inside⟩ := whole complete
        obtain ⟨lines, converted, datas, -⟩ := convert_complete accepted complete inside
        exact ⟨_, _, converted, lines_inside (by omega) named datas⟩
      · rw [not_or, Nat.not_le] at complete
        exact ⟨0, _, convert_cut accepted complete.1 complete.2 0,
          read_sections_entries few (by decide), fun _ member => absurd member List.not_mem_nil⟩

theorem convert_executable {sections : List Elf32_Shdr} (executable : Executable input.bytes sections)
    (few : sections.length ≤ 32) (named : (hdrName input.fileName).length ≤ 58) :
    ∃ fuel run, convertELF input fuel = some run ∧ Inside run ∧ Converted input sections run := by
  obtain ⟨elfHeader, accepted, whole, rfl, -⟩ := executable.header
  have start : input.fseek 52 elfHeader.e_shoff = elfHeader.e_shoff := fseek_inside (by omega)
  have count : (sectionsAt input.bytes elfHeader.e_shoff elfHeader.e_shnum).length =
      elfHeader.e_shnum := by
    rw [sectionsAt, List.length_map, List.length_range]
  have inside := executable.inside
  rw [← start] at inside whole ⊢
  obtain ⟨lines, converted, datas, loads⟩ := convert_complete accepted (.inr whole) inside
  rw [start] at converted loads ⊢
  have bound (address : Nat) : (address + input.loadOffset) % 2 ^ 32 < 2 ^ 32 :=
    Nat.mod_lt _ (Nat.two_pow_pos 32)
  refine ⟨_, _, converted, lines_inside (by omega) named datas, ⟨lines.map srecDecode, ?_, ?_⟩, ?_, rfl⟩
  · rw [List.map_append, List.map_cons, List.map_singleton, start_decoded named,
      last_decoded (bound _)]
  · intro record member
    obtain ⟨line, data, rfl⟩ := List.mem_map.mp member
    exact (datas line data).2
  · intro memory
    have first : loadLine memory (buildSRecord 0 0 (hdrName input.fileName)) = memory := by
      rw [loadLine, start_decoded named]
    have last (before : Nat → UInt8) (address : Nat) : loadLine before
        (buildSRecord 7 ((address + input.loadOffset) % 2 ^ 32) []) = before := by
      rw [loadLine, last_decoded (bound address)]
    rw [List.foldl_append, List.foldl_cons, List.foldl_nil, last, List.foldl_cons, first, loads]

/-- Every file that is served is converted in the end, within the buffers; and the lines of an
executable with few sections and a short name are its sections. -/
theorem convert_elf_sections (input : Input) :
    (Served input → ∃ fuel run, convertELF input fuel = some run ∧ Inside run) ∧
      ∀ sections, Executable input.bytes sections → sections.length ≤ 32 →
        (hdrName input.fileName).length ≤ 58 → ∃ fuel run, convertELF input fuel = some run ∧
          Inside run ∧ Converted input sections run :=
  ⟨convert_served, fun _ executable few named => convert_executable executable few named⟩

end Files

/-! ### A section without flags -/

/-- "boot" with a section of flags, at 0x10000, and one without, at 0, a byte each. -/
def imageFile : List UInt8 :=
  [0x7f, 69, 76, 70, 1, 2, 1, 0, 0, 0, 0, 0, 0, 0, 0, 0, 0, 2, 0, 20, 0, 0, 0, 1, 0, 1, 0, 0,
    0, 0, 0, 0, 0, 0, 0, 54, 0, 0, 0, 0, 0, 52, 0, 0, 0, 0, 0, 40, 0, 2, 0, 0, 0xaa, 0x55] ++
    [0, 0, 0, 0, 0, 0, 0, 1, 0, 0, 0, 6, 0, 1, 0, 0, 0, 0, 0, 52, 0, 0, 0, 1] ++
    List.replicate 16 0 ++
    [0, 0, 0, 0, 0, 0, 0, 1, 0, 0, 0, 0, 0, 0, 0, 0, 0, 0, 0, 53, 0, 0, 0, 1] ++
    List.replicate 16 0

def imageInput : Input := ⟨ascii "/tmp/boot", imageFile, 0x100, true, by decide, fun same => nomatch same⟩

def imageSections : List Elf32_Shdr := [⟨1, 6, 0x10000, 52, 1⟩, ⟨1, 0, 0, 53, 1⟩]

theorem image_executable : Executable imageFile imageSections := by
  refine ⟨⟨⟨54, 2⟩, by decide +kernel, by decide +kernel, by decide +kernel, by decide⟩,
    by decide +kernel, fun _ => by decide +kernel, ?_⟩
  unfold InFile
  decide +kernel

theorem image_converted :
    (∃ fuel run, convertELF imageInput fuel = some run ∧ Inside run) ∧
      ∃ fuel run, convertELF imageInput fuel = some run ∧ Inside run ∧
        Converted imageInput imageSections run := by
  have few : imageSections.length ≤ 32 := by decide
  have named : (hdrName imageInput.fileName).length ≤ 58 := by decide +kernel
  have header : readHeader imageInput.bytes = some ⟨54, 2⟩ := by decide +kernel
  have served : Served imageInput := by
    intro elfHeader accepted
    rw [header, Option.some.injEq] at accepted
    subst accepted
    refine ⟨.inl (by decide), fun _ => ⟨named, ?_⟩⟩
    unfold InFile
    decide +kernel
  exact ⟨(convert_elf_sections imageInput).1 served,
    (convert_elf_sections imageInput).2 imageSections image_executable few named⟩

/-- The section without flags is loaded behind the other one, and not at its own address. -/
theorem image_moved : Executable imageInput.bytes imageSections ∧
    ∃ run, convertELF imageInput 2 = some run ∧
      ¬ ∀ memory, run.lines.foldl loadLine memory = imageSections.foldl (fun memory sect =>
        store memory ((sect.sh_addr + imageInput.loadOffset) % 2 ^ 32)
          (fread imageInput.bytes sect.sh_offset sect.sh_size)) memory := by
  have converted : (convertELF imageInput 2).isSome = true := by decide +kernel
  obtain ⟨run, same⟩ := Option.isSome_iff_exists.mp converted
  refine ⟨image_executable, run, same, fun claimed => ?_⟩
  have there := congrFun (claimed fun _ => 0) 0x100
  have lines : run.lines = ((convertELF imageInput 2).map Run.lines).getD [] := by rw [same]; rfl
  rw [lines] at there
  revert there
  decide +kernel

end UBoot.Load.Img2srec
