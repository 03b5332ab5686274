import UBoot.Image.Mkimage
import UBoot.Lib.Strings

/-!
The two readers of a multi-file image: do_imgextract of common/cmd_ximg.c and the
initial ramdisk of do_bootm_linux in lib_mips/mips_linux.c. The target is
big-endian, so ntohl changes nothing. Addresses have 32 bits.
-/

namespace UBoot.Image.MultiParts

open Lib.Crc32 Lib.Strings Library.Memory Library.BigEndian Mkimage

structure Target where
  memory : Nat → UInt8
  loadAddr : Nat
  /-- getenv("verify") -/
  verify : Option (List UInt8)
  fileaddr : Option Nat
  filesize : Option Nat

/-- `argc > 2 && part > i` -/
def skips (part : Option Int) (i : Nat) : Bool :=
  match part with
  | some part => part > i
  | none => false

/-- The loop over len_ptr from entry `i` on, with `i` and `data` at its end. There are at most
2 ^ 30 words to walk over. -/
def skipParts (mem : Nat → UInt8) (lenPtr : Nat) (part : Option Int) :
    (fuel i data : Nat) → Option (Nat × Nat)
  | 0, _, _ => none
  | fuel + 1, i, data =>
      let entry := word mem ((lenPtr + 4 * i) % 2 ^ 32)
      if entry = 0 then some (i, data)
      else if skips part i then
        skipParts mem lenPtr part fuel (i + 1) ((data + 4 + entry + tailBytes entry) % 2 ^ 32)
      else skipParts mem lenPtr part fuel (i + 1) ((data + 4) % 2 ^ 32)

def verifies (verify : Option (List UInt8)) : Bool :=
  match verify with
  | some (110 :: _) => false
  | _ => true

/-- The checks on the header, in their order. -/
def headerAccepted (target : Target) (addr : Nat) : Bool :=
  let header := headerAt target.memory addr
  let data := (addr + sizeofImageHeader) % 2 ^ 32
  if header.magic ≠ ihMagic then false
  else if crc32 0 { header with hcrc := 0 }.bytes ≠ header.hcrc.toNat then false
  else if header.type ≠ ihTypeMulti then false
  else if header.comp ≠ ihCompNone then false
  else if verifies target.verify ∧
      crc32 0 (slice target.memory data header.size.toNat) ≠ header.dcrc.toNat then false
  else true

/-- Copies and announces the part at `data`. -/
def extractPart (target : Target) (dest : Option Nat) (data len : Nat) : Target :=
  { target with
    memory :=
      match dest with
      | some dest =>
          copy (2 ^ 32) target.memory dest (fun i => target.memory ((data + i) % 2 ^ 32)) len
      | none => target.memory
    fileaddr := some data
    filesize := some len }

/-- `imxtract` with its arguments: the return value and the target after it. -/
def doImgextract (target : Target) (args : List (List UInt8)) : Option (Nat × Target) :=
  let addr := (args[0]?.map fun arg => (simpleStrtoul arg 16).value).getD target.loadAddr
  let part := args[1]?.map fun arg => toInt (simpleStrtoul arg 16).value
  let dest := args[2]?.map fun arg => (simpleStrtoul arg 16).value
  if headerAccepted target addr = false then some (1, target)
  else
    let lenPtr := (addr + sizeofImageHeader) % 2 ^ 32
    match skipParts target.memory lenPtr part (2 ^ 30) 0 ((lenPtr + 4) % 2 ^ 32) with
    | none => none
    | some (i, data) =>
        if (part.map fun part => decide (part ≥ (i : Int))).getD false then some (1, target)
        else
          let len := word target.memory (toUlong (lenPtr + 4 * part.getD 0))
          some (0, extractPart target dest data len)

/-- The loop over the additional length fields, from entry `i` on. -/
def skipFields (mem : Nat → UInt8) (lenPtr : Nat) : (fuel i data : Nat) → Option Nat
  | 0, _, _ => none
  | fuel + 1, i, data =>
      if word mem ((lenPtr + 4 * i) % 2 ^ 32) = 0 then some data
      else skipFields mem lenPtr fuel (i + 1) ((data + 4) % 2 ^ 32)

/-- `data` and `len` of do_bootm_linux without a ramdisk argument, for a header of type
IH_TYPE_MULTI; `data` is 0 without an initrd image. -/
def initrd (mem : Nat → UInt8) (lenPtr : Nat) : Option (Nat × Nat) :=
  if word mem ((lenPtr + 4) % 2 ^ 32) = 0 then some (0, 0)
  else
    let tail := tailBytes (word mem lenPtr)
    match skipFields mem lenPtr (2 ^ 30) 1 ((lenPtr + 8) % 2 ^ 32) with
    | none => none
    | some data =>
        some ((data + word mem lenPtr + tail) % 2 ^ 32, word mem ((lenPtr + 4) % 2 ^ 32))

section Table

/-- The sizes of `files` and a zero stand at `lenPtr`. -/
structure TableAt (mem : Nat → UInt8) (lenPtr : Nat) (files : List (List UInt8)) : Prop where
  entry : ∀ p, (inside : p < files.length) → word mem (lenPtr + 4 * p) = files[p].length
  terminator : word mem (lenPtr + 4 * files.length) = 0
  positive : ∀ file ∈ files, 0 < file.length
  room : lenPtr + 4 * files.length + 4 ≤ 2 ^ 32

theorem part_start_succ (files : List (List UInt8)) (p : Nat) (inside : p < files.length) :
    partStart files (p + 1) = partStart files p + files[p].length + tailBytes files[p].length := by
  unfold partStart
  rw [List.take_succ_eq_append_getElem inside, List.map_append, List.sum_append]
  simp [Nat.add_assoc]

variable {mem : Nat → UInt8} {lenPtr : Nat} {files : List (List UInt8)}

theorem skip_parts_eq (table : TableAt mem lenPtr files) (part : Option Int) (limit : Nat)
    (below : ∀ i, skips part i = decide (i < limit)) (fuel i : Nat) (inside : i ≤ files.length)
    (enough : files.length - i < fuel) :
    skipParts mem lenPtr part fuel i
        ((lenPtr + 4 + 4 * i + partStart files (min i limit)) % 2 ^ 32) =
      some (files.length,
        (lenPtr + 4 + 4 * files.length + partStart files (min files.length limit)) % 2 ^ 32) := by
  induction fuel generalizing i with
  | zero => omega
  | succ fuel ih =>
      have room := table.room
      have place : (lenPtr + 4 * i) % 2 ^ 32 = lenPtr + 4 * i := Nat.mod_eq_of_lt (by omega)
      unfold skipParts
      rw [place]
      by_cases last : i = files.length
      · subst last
        rw [table.terminator]
        rfl
      · have more : i < files.length := by omega
        have entry := table.entry i more
        have positive := table.positive files[i] (List.getElem_mem more)
        have later := ih (i + 1) more (by omega)
        dsimp only
        rw [entry, if_neg (by omega), below i]
        by_cases skipped : i < limit
        · rw [if_pos (by simpa using skipped)]
          have first : min i limit = i := by omega
          have second : min (i + 1) limit = i + 1 := by omega
          rw [second, part_start_succ files i more] at later
          rw [first, ← later]
          congr 1
          omega
        · rw [if_neg (by simpa using skipped)]
          have same : min (i + 1) limit = min i limit := by omega
          rw [same] at later
          rw [← later]
          congr 1
          omega

theorem skip_fields_eq (table : TableAt mem lenPtr files) (fuel i : Nat)
    (inside : i ≤ files.length) (enough : files.length - i < fuel) :
    skipFields mem lenPtr fuel i ((lenPtr + 4 + 4 * i) % 2 ^ 32) =
      some ((lenPtr + 4 + 4 * files.length) % 2 ^ 32) := by
  induction fuel generalizing i with
  | zero => omega
  | succ fuel ih =>
      have room := table.room
      have place : (lenPtr + 4 * i) % 2 ^ 32 = lenPtr + 4 * i := Nat.mod_eq_of_lt (by omega)
      unfold skipFields
      rw [place]
      by_cases last : i = files.length
      · subst last
        rw [table.terminator]
        rfl
      · have more : i < files.length := by omega
        have entry := table.entry i more
        have positive := table.positive files[i] (List.getElem_mem more)
        rw [entry, if_neg (by omega), ← ih (i + 1) more (by omega)]
        congr 1
        omega

end Table

section Images

/-- The image stands at an address of the target. -/
structure Loaded (mem : Nat → UInt8) (addr : Nat) (image : List UInt8) : Prop where
  stored : slice mem addr image.length = image
  room : addr + image.length ≤ 2 ^ 32

/-- What mkimage writes: its header, the size table, and the files. -/
theorem mkimage_some {options : Options} {time : UInt32} {files : List (List UInt8)}
    {image : List UInt8} (made : mkimage options time files = some image) :
    ∃ copied, copyFiles options.xflag files = some copied ∧
      (sizeTable files ++ copied).length < 2 ^ 31 ∧
      image = (buildHeader options time (sizeTable files ++ copied)).bytes ++
        (sizeTable files ++ copied) := by
  unfold mkimage at made
  split at made
  · cases made
  · split at made
    · cases made
    · rename_i copied written
      dsimp only at made
      split at made
      · cases made
      · rename_i fits
        exact ⟨copied, written, by omega, (Option.some.inj made).symm⟩

variable {mem : Nat → UInt8} {addr : Nat} {header : ImageHeader} {data : List UInt8}

theorem loaded_header (loaded : Loaded mem addr (header.bytes ++ data)) :
    headerAt mem addr = header := by
  apply header_at
  have stored := loaded.stored
  rw [List.length_append, slice_add] at stored
  have front := (List.append_inj stored (by simp)).1
  rwa [header_length] at front

theorem loaded_data (loaded : Loaded mem addr (header.bytes ++ data)) :
    slice mem (addr + sizeofImageHeader) data.length = data ∧
      addr + sizeofImageHeader + data.length ≤ 2 ^ 32 := by
  have stored := loaded.stored
  have room := loaded.room
  rw [List.length_append, header_length] at room
  rw [List.length_append, slice_add] at stored
  have back := (List.append_inj stored (by simp)).2
  rw [header_length] at back
  exact ⟨back, by omega⟩

theorem table_at {files : List (List UInt8)} {copied : List UInt8} {lenPtr : Nat} {xflag : Bool}
    (written : copyFiles xflag files = some copied)
    (stored : slice mem lenPtr (sizeTable files ++ copied).length = sizeTable files ++ copied)
    (room : lenPtr + (sizeTable files ++ copied).length ≤ 2 ^ 32) :
    TableAt mem lenPtr files := by
  have sizes := (copy_files_sizes written).2
  rw [List.length_append, size_table_length] at room
  constructor
  · intro p inside
    obtain ⟨front, back, split, length⟩ := size_table_split files p inside
    have bound := (sizes files[p] (List.getElem_mem inside)).2.1
    rw [← length]
    apply word_middle mem lenPtr files[p].length front (back ++ copied) (by omega)
    have whole : front ++ wordBytes files[p].length ++ (back ++ copied) =
        sizeTable files ++ copied := by rw [split, List.append_assoc _ back copied]
    rw [whole, stored]
  · have length : (files.flatMap fun file => wordBytes file.length).length = 4 * files.length := by
      simp [List.length_flatMap, Nat.mul_comm]
    rw [← length]
    exact word_middle mem lenPtr 0 _ copied (by decide) stored
  · intro file member
    exact (sizes file member).1
  · omega

/-- Where the table leads to part `p`, the bytes of file `p` stand. -/
theorem part_stored {files : List (List UInt8)} {copied : List UInt8} {lenPtr : Nat}
    (written : copyFiles false files = some copied)
    (stored : slice mem lenPtr (sizeTable files ++ copied).length = sizeTable files ++ copied)
    (room : lenPtr + (sizeTable files ++ copied).length ≤ 2 ^ 32)
    (p : Nat) (inside : p < files.length) :
    slice mem (lenPtr + 4 + 4 * files.length + partStart files p) files[p].length = files[p] ∧
      lenPtr + 4 + 4 * files.length + partStart files p + files[p].length ≤ 2 ^ 32 := by
  obtain ⟨front, back, split, length⟩ := copy_files_split written p inside
  have whole : sizeTable files ++ front ++ files[p] ++ back = sizeTable files ++ copied := by
    rw [split]
    simp only [List.append_assoc]
  have total : (sizeTable files ++ front).length = 4 + 4 * files.length + partStart files p := by
    rw [List.length_append, size_table_length, length]
    omega
  rw [← whole] at stored room
  have middle := slice_middle mem lenPtr (sizeTable files ++ front) files[p] back stored
  rw [total] at middle
  refine ⟨by simpa [Nat.add_assoc] using middle, ?_⟩
  rw [List.length_append, List.length_append, total] at room
  omega

theorem header_checksum (options : Options) (time : UInt32) (data : List UInt8) :
    crc32 0 { buildHeader options time data with hcrc := 0 }.bytes =
      (buildHeader options time data).hcrc.toNat := by
  simp only [buildHeader]
  rw [UInt32.toNat_ofNat_of_lt' (crc32_lt _)]

/-- Of the checks of do_imgextract only the one on the compression can fail. -/
theorem header_accepted {target : Target} {options : Options} {time : UInt32}
    (short : data.length < 2 ^ 31)
    (loaded : Loaded target.memory addr ((buildHeader options time data).bytes ++ data)) :
    headerAccepted target addr = decide (options.comp = ihCompNone) := by
  obtain ⟨stored, room⟩ := loaded_data loaded
  have dcrc : (buildHeader options time data).dcrc.toNat = crc32 0 data :=
    UInt32.toNat_ofNat_of_lt' (crc32_lt _)
  have size : (buildHeader options time data).size.toNat = data.length :=
    UInt32.toNat_ofNat_of_lt' (show data.length < 2 ^ 32 by omega)
  have verified : crc32 0 (slice target.memory ((addr + sizeofImageHeader) % 2 ^ 32) data.length) =
      crc32 0 data := by
    by_cases empty : data.length = 0
    · rw [List.length_eq_zero_iff.mp empty]
      rfl
    · rw [Nat.mod_eq_of_lt (by omega), stored]
  have magic : ¬ (buildHeader options time data).magic ≠ ihMagic := fun other => other rfl
  have type : ¬ (buildHeader options time data).type ≠ ihTypeMulti := fun other => other rfl
  have comp : (buildHeader options time data).comp = options.comp := rfl
  unfold headerAccepted
  rw [loaded_header loaded]
  dsimp only
  rw [if_neg magic, if_neg (fun other => other (header_checksum options time data)), if_neg type,
    size, dcrc, verified, comp]
  by_cases plain : options.comp = ihCompNone
  · simp [plain]
  · simp [plain]

end Images

section Agreement

/-- imxtract returns 0, names the bytes in fileaddr and filesize, and copies them to a destination
that it is given. -/
def Yields (target : Target) (args : List (List UInt8)) (bytes : List UInt8) : Prop :=
  ∃ after data, doImgextract target args = some (0, after) ∧
    after.fileaddr = some data ∧ after.filesize = some bytes.length ∧
    slice target.memory data bytes.length = bytes ∧
    ∀ dest, args[2]? = some dest → ∀ i, (inside : i < bytes.length) →
      after.memory (((simpleStrtoul dest 16).value + i) % 2 ^ 32) = bytes[i]

/-- The first arguments name the image and the part. -/
def Names (args : List (List UInt8)) (addr p : Nat) : Prop :=
  ∃ image part, args[0]? = some image ∧ args[1]? = some part ∧
    (simpleStrtoul image 16).value = addr ∧ (simpleStrtoul part 16).value = p

/-- The initial ramdisk is the bytes. -/
def RamdiskIs (mem : Nat → UInt8) (addr : Nat) (bytes : List UInt8) : Prop :=
  ∃ data, initrd mem ((addr + sizeofImageHeader) % 2 ^ 32) = some (data, bytes.length) ∧
    data ≠ 0 ∧ slice mem data bytes.length = bytes

variable {target : Target} {addr : Nat} {options : Options} {time : UInt32}
  {files : List (List UInt8)} {image : List UInt8}

theorem parts_bound (table : TableAt target.memory addr files) (p : Nat)
    (inside : p < files.length) : toInt p = p := by
  have room := table.room
  unfold toInt
  omega

/-- What imxtract makes of a table of sizes: the lengths and the places come from the table. -/
theorem imgextract_table (accepted : headerAccepted target addr = true)
    (table : TableAt target.memory (addr + sizeofImageHeader) files)
    (args : List (List UInt8)) (p : Nat) (inside : p < files.length) (names : Names args addr p) :
    doImgextract target args =
      some (0, extractPart target (args[2]?.map fun arg => (simpleStrtoul arg 16).value)
        ((addr + sizeofImageHeader + 4 + 4 * files.length + partStart files p) % 2 ^ 32)
        files[p].length) := by
  obtain ⟨imageArg, partArg, first, second, address, number⟩ := names
  have room := table.room
  have place : (addr + sizeofImageHeader) % 2 ^ 32 = addr + sizeofImageHeader :=
    Nat.mod_eq_of_lt (by omega)
  have part := parts_bound table p inside
  have below : ∀ i : Nat, skips (some (p : Int)) i = decide (i < p) := by
    intro i
    simp [skips]
  have walk := skip_parts_eq table (some (p : Int)) p below (2 ^ 30) 0 (Nat.zero_le _) (by omega)
  have zero : partStart files (min 0 p) = 0 := by simp [partStart]
  have last : min files.length p = p := by omega
  rw [zero, last, Nat.mul_zero, Nat.add_zero, Nat.add_zero] at walk
  have entry := table.entry p inside
  have index : toUlong (((addr + sizeofImageHeader : Nat) : Int) + 4 * (p : Int)) =
      addr + sizeofImageHeader + 4 * p := by
    unfold toUlong
    omega
  have within : ¬ (p : Int) ≥ (files.length : Int) := by omega
  unfold doImgextract
  simp only [first, second, Option.map_some, Option.getD_some, address, number, part, accepted,
    place, walk, index, entry, within, decide_false, Bool.false_eq_true, if_false]
  rfl

theorem imgextract_refused (accepted : headerAccepted target addr = false)
    (args : List (List UInt8)) (imageArg : List UInt8) (first : args[0]? = some imageArg)
    (address : (simpleStrtoul imageArg 16).value = addr) :
    doImgextract target args = some (1, target) := by
  unfold doImgextract
  simp only [first, Option.map_some, Option.getD_some, address, accepted, if_true]

theorem extract_yields {bytes : List UInt8} {data : Nat} (dest : Option Nat)
    (stored : slice target.memory data bytes.length = bytes)
    (room : data + bytes.length ≤ 2 ^ 32) :
    ∀ start, dest = some start → ∀ i, (inside : i < bytes.length) →
      (extractPart target dest data bytes.length).memory ((start + i) % 2 ^ 32) = bytes[i] := by
  rintro start rfl i inside
  unfold extractPart
  dsimp only
  rw [copy_at _ _ _ _ _ i (by omega), if_pos inside, Nat.mod_eq_of_lt (by omega),
    ← slice_getElem target.memory data bytes.length i (by simpa using inside)]
  congr 1

/-- The loaded image gives both readers the table that they walk over. -/
theorem loaded_table (made : mkimage options time files = some image)
    (loaded : Loaded target.memory addr image) :
    headerAccepted target addr = decide (options.comp = ihCompNone) ∧
      TableAt target.memory (addr + sizeofImageHeader) files := by
  obtain ⟨copied, written, short, rfl⟩ := mkimage_some made
  obtain ⟨stored, room⟩ := loaded_data loaded
  exact ⟨header_accepted (by omega) loaded, table_at written stored room⟩

theorem loaded_part (made : mkimage options time files = some image)
    (plain : options.xflag = false) (loaded : Loaded target.memory addr image) (p : Nat)
    (inside : p < files.length) :
    let data := addr + sizeofImageHeader + 4 + 4 * files.length + partStart files p
    slice target.memory data files[p].length = files[p] ∧ data + files[p].length ≤ 2 ^ 32 := by
  obtain ⟨copied, written, short, rfl⟩ := mkimage_some made
  obtain ⟨stored, room⟩ := loaded_data loaded
  rw [plain] at written
  exact part_stored written stored room p inside

theorem imgextract_yields (made : mkimage options time files = some image)
    (plain : options.xflag = false) (uncompressed : options.comp = ihCompNone)
    (loaded : Loaded target.memory addr image) (args : List (List UInt8)) (p : Nat)
    (inside : p < files.length) (names : Names args addr p) : Yields target args files[p] := by
  obtain ⟨accepted, table⟩ := loaded_table made loaded
  obtain ⟨stored, room⟩ := loaded_part made plain loaded p inside
  have positive := table.positive files[p] (List.getElem_mem inside)
  have opened : headerAccepted target addr = true := by
    rw [accepted]
    exact decide_eq_true uncompressed
  have place : (addr + sizeofImageHeader + 4 + 4 * files.length + partStart files p) % 2 ^ 32 =
      addr + sizeofImageHeader + 4 + 4 * files.length + partStart files p :=
    Nat.mod_eq_of_lt (by omega)
  have result := imgextract_table opened table args p inside names
  rw [place] at result
  refine ⟨_, _, result, rfl, rfl, stored, ?_⟩
  intro dest given i bound
  exact extract_yields _ stored room _ (by rw [given]; rfl) i bound

theorem initrd_part (made : mkimage options time files = some image)
    (plain : options.xflag = false) (loaded : Loaded target.memory addr image)
    (several : 1 < files.length) : RamdiskIs target.memory addr files[1] := by
  obtain ⟨-, table⟩ := loaded_table made loaded
  obtain ⟨stored, room⟩ := loaded_part made plain loaded 1 several
  have space := table.room
  have firstSize := table.entry 0 (by omega)
  have secondSize := table.entry 1 several
  have positive := table.positive files[1] (List.getElem_mem several)
  have place : (addr + sizeofImageHeader) % 2 ^ 32 = addr + sizeofImageHeader :=
    Nat.mod_eq_of_lt (by omega)
  have next : (addr + sizeofImageHeader + 4) % 2 ^ 32 = addr + sizeofImageHeader + 4 :=
    Nat.mod_eq_of_lt (by omega)
  have fields := skip_fields_eq table (2 ^ 30) 1 (by omega) (by omega)
  have start : partStart files 1 = files[0].length + tailBytes files[0].length := by
    rw [part_start_succ files 0 (by omega)]
    simp [partStart]
  refine ⟨addr + sizeofImageHeader + 4 + 4 * files.length + partStart files 1, ?_, ?_, stored⟩
  · unfold initrd
    rw [place, next]
    rw [Nat.mul_one] at secondSize fields
    rw [Nat.mul_zero, Nat.add_zero] at firstSize
    rw [secondSize, if_neg (by omega), firstSize]
    dsimp only
    rw [show addr + sizeofImageHeader + 8 = addr + sizeofImageHeader + 4 + 4 from rfl, fields]
    dsimp only
    congr 2
    omega
  · omega

/-- Both readers of a loaded image find the bytes that mkimage has stored. -/
def PartsAgree (options : Options) (files : List (List UInt8)) (image : List UInt8) : Prop :=
  ∀ target addr, Loaded target.memory addr image →
    (∀ p args, (inside : p < files.length) → Names args addr p →
      Yields target args (storedBytes options.xflag files[p])) ∧
    ∀ several : 1 < files.length,
      RamdiskIs target.memory addr (storedBytes options.xflag files[1])

/-- A target with the image at address 0. -/
def imageTarget (image : List UInt8) : Target :=
  ⟨fun address => (image[address]?).getD 0, 0, none, none, none⟩

theorem image_loads (image : List UInt8) (short : image.length ≤ 2 ^ 32) :
    Loaded (imageTarget image).memory 0 image := by
  refine ⟨?_, by omega⟩
  apply List.ext_getElem
  · simp
  · intro i _ bound
    rw [slice_getElem]
    simp [imageTarget, bound]

def firstPart : List (List UInt8) := [ascii "0", ascii "0"]

theorem first_part_names : Names firstPart 0 0 :=
  ⟨ascii "0", ascii "0", rfl, rfl, by decide, by decide⟩

theorem mkimage_short (made : mkimage options time files = some image) : image.length < 2 ^ 32 := by
  obtain ⟨copied, -, short, rfl⟩ := mkimage_some made
  rw [List.length_append, header_length]
  simp only [sizeofImageHeader]
  omega

theorem stored_plain (plain : options.xflag = false) (file : List UInt8) :
    storedBytes options.xflag file = file := by
  rw [plain]
  rfl

/-- mkimage without an entry point or a name. -/
def optionsWith (comp : UInt8) (xflag : Bool) : Options :=
  ⟨5, 5, comp, 0x80002000, 0, false, xflag, []⟩

def twoFiles : List (List UInt8) := [[1, 2, 3, 4, 5], [6, 7]]

def twoFilesImage : List UInt8 :=
  let data := sizeTable twoFiles ++ [1, 2, 3, 4, 5, 0, 0, 0, 6, 7]
  (buildHeader (optionsWith ihCompNone false) 0 data).bytes ++ data

theorem two_files_made : mkimage (optionsWith ihCompNone false) 0 twoFiles = some twoFilesImage :=
  rfl

theorem made_files (made : mkimage options time files = some image) :
    0 < files.length ∧ ∀ file ∈ files, 0 < file.length ∧
      (options.xflag = true → sizeofImageHeader ≤ file.length) := by
  obtain ⟨copied, written, -, -⟩ := mkimage_some made
  obtain ⟨nonempty, sizes⟩ := copy_files_sizes written
  exact ⟨List.length_pos_of_ne_nil nonempty,
    fun file member => ⟨(sizes file member).1, (sizes file member).2.2⟩⟩

/-- do_imgextract refuses a compressed image by design. -/
theorem compressed_disagrees (made : mkimage options time files = some image)
    (compressed : options.comp ≠ ihCompNone) : ¬ PartsAgree options files image := by
  intro agree
  have loaded := image_loads image (Nat.le_of_lt (mkimage_short made))
  obtain ⟨inside, -⟩ := made_files made
  obtain ⟨after, data, result, -⟩ :=
    (agree (imageTarget image) 0 loaded).1 0 firstPart inside first_part_names
  obtain ⟨accepted, -⟩ := @loaded_table (imageTarget image) 0 options time files image made loaded
  rw [decide_eq_false compressed] at accepted
  rw [imgextract_refused accepted firstPart (ascii "0") rfl (by decide)] at result
  cases result

/-- With -x the table keeps the lengths with the header space that copy_file leaves out. -/
theorem xip_disagrees (made : mkimage options time files = some image)
    (xip : options.xflag = true) : ¬ PartsAgree options files image := by
  intro agree
  have loaded := image_loads image (Nat.le_of_lt (mkimage_short made))
  obtain ⟨inside, sizes⟩ := made_files made
  obtain ⟨after, data, result, -, size, -⟩ :=
    (agree (imageTarget image) 0 loaded).1 0 firstPart inside first_part_names
  obtain ⟨accepted, table⟩ := @loaded_table (imageTarget image) 0 options time files image made loaded
  by_cases plain : options.comp = ihCompNone
  · rw [decide_eq_true plain] at accepted
    rw [imgextract_table accepted table firstPart 0 inside first_part_names] at result
    cases result
    have lengths : files[0].length = (storedBytes options.xflag files[0]).length :=
      Option.some.inj size
    have long := (sizes files[0] (List.getElem_mem inside)).2 xip
    rw [storedBytes, xip, if_pos rfl, List.length_drop] at lengths
    simp only [sizeofImageHeader] at lengths long
    omega
  · rw [decide_eq_false plain] at accepted
    rw [imgextract_refused accepted firstPart (ascii "0") rfl (by decide)] at result
    cases result

/-- The images that both readers agree on. -/
theorem parts_agree_iff (made : mkimage options time files = some image) :
    PartsAgree options files image ↔ options.comp = ihCompNone ∧ options.xflag = false := by
  constructor
  · intro agree
    constructor
    · by_contra compressed
      exact compressed_disagrees made compressed agree
    · by_contra xip
      exact xip_disagrees made (by simpa using xip) agree
  · rintro ⟨uncompressed, plain⟩ target addr loaded
    constructor
    · intro p args inside names
      rw [stored_plain plain]
      exact imgextract_yields made plain uncompressed loaded args p inside names
    · intro several
      rw [stored_plain plain]
      exact initrd_part made plain loaded several

end Agreement

end UBoot.Image.MultiParts
