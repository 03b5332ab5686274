import UBoot.Lib.Crc32
import UBoot.Library.BigEndian

/-!
tools/mkimage.c for `-T multi`, and image_header_t of include/image.h. The off_t
of the host has 32 bits: stat fails on a file of 2 ^ 31 bytes, and a write that
would make the image as long fails too. The files do not change while mkimage
runs.
-/

namespace UBoot.Image.Mkimage

open Lib.Crc32 Library.Memory Library.BigEndian

def ihMagic : UInt32 := 0x27051956

def ihTypeMulti : UInt8 := 4

def ihCompNone : UInt8 := 0

def ihNmlen : Nat := 32

structure ImageHeader where
  magic : UInt32
  hcrc : UInt32
  time : UInt32
  size : UInt32
  load : UInt32
  ep : UInt32
  dcrc : UInt32
  os : UInt8
  arch : UInt8
  type : UInt8
  comp : UInt8
  name : Vector UInt8 ihNmlen

def sizeofImageHeader : Nat := 64

/-- The header as it stands in a file or in memory. -/
def ImageHeader.bytes (header : ImageHeader) : List UInt8 :=
  wordBytes header.magic.toNat ++ wordBytes header.hcrc.toNat ++ wordBytes header.time.toNat ++
    wordBytes header.size.toNat ++ wordBytes header.load.toNat ++ wordBytes header.ep.toNat ++
    wordBytes header.dcrc.toNat ++ [header.os, header.arch, header.type, header.comp] ++
    header.name.toList

/-- The image_header_t at an address. -/
def headerAt (mem : Nat → UInt8) (addr : Nat) : ImageHeader :=
  { magic := UInt32.ofNat (word mem addr)
    hcrc := UInt32.ofNat (word mem (addr + 4))
    time := UInt32.ofNat (word mem (addr + 8))
    size := UInt32.ofNat (word mem (addr + 12))
    load := UInt32.ofNat (word mem (addr + 16))
    ep := UInt32.ofNat (word mem (addr + 20))
    dcrc := UInt32.ofNat (word mem (addr + 24))
    os := mem (addr + 28)
    arch := mem (addr + 29)
    type := mem (addr + 30)
    comp := mem (addr + 31)
    name := Vector.ofFn fun i => mem (addr + 32 + i) }

/-- The options of a run with `-T multi`; `ep` counts with `eflag` only. -/
structure Options where
  arch : UInt8
  os : UInt8
  comp : UInt8
  addr : UInt32
  ep : UInt32
  eflag : Bool
  xflag : Bool
  name : List UInt8

def Options.entry (options : Options) : UInt32 :=
  if options.eflag then options.ep
  else if options.xflag then options.addr + UInt32.ofNat sizeofImageHeader
  else options.addr

/-- The padding behind a file of `size` bytes. -/
def tailBytes (size : Nat) : Nat := if size % 4 ≠ 0 then 4 - size % 4 else 0

/-- The bytes of a file that copy_file writes, without the padding. -/
def storedBytes (xflag : Bool) (file : List UInt8) : List UInt8 :=
  file.drop (if xflag then sizeofImageHeader else 0)

def copyFile (xflag : Bool) (file : List UInt8) (pad : Bool) : Option (List UInt8) :=
  -- open and fstat, then mmap, which fails on a length of zero
  if 2 ^ 31 ≤ file.length ∨ file.length = 0 then none
  else if xflag ∧ (file.length < sizeofImageHeader ∨
      (file.take sizeofImageHeader).any (· != 0xff)) then none
  else
    let stored := storedBytes xflag file
    some (stored ++ if pad then List.replicate (tailBytes stored.length) 0 else [])

/-- The second loop over the names in datafile: every file but the last one is padded. -/
def copyFiles (xflag : Bool) : List (List UInt8) → Option (List UInt8)
  | [] => none
  | [file] => copyFile xflag file false
  | file :: rest =>
      match copyFile xflag file true with
      | none => none
      | some bytes => (copyFiles xflag rest).map (bytes ++ ·)

/-- The first loop: the lengths that stat gives, and a zero. -/
def sizeTable (files : List (List UInt8)) : List UInt8 :=
  files.flatMap (fun file => wordBytes file.length) ++ wordBytes 0

def strncpy (name : List UInt8) : Vector UInt8 ihNmlen :=
  Vector.ofFn fun i => (name[i.val]?).getD 0

def buildHeader (options : Options) (time : UInt32) (data : List UInt8) : ImageHeader :=
  let header : ImageHeader :=
    { magic := ihMagic
      hcrc := 0
      time := time
      size := UInt32.ofNat data.length
      load := options.addr
      ep := options.entry
      dcrc := UInt32.ofNat (crc32 0 data)
      os := options.os
      arch := options.arch
      type := ihTypeMulti
      comp := options.comp
      name := strncpy options.name }
  { header with hcrc := UInt32.ofNat (crc32 0 header.bytes) }

/-- The image file, unless mkimage gives up. -/
def mkimage (options : Options) (time : UInt32) (files : List (List UInt8)) :
    Option (List UInt8) :=
  if options.xflag ∧ options.entry ≠ options.addr + UInt32.ofNat sizeofImageHeader then none
  else
    match copyFiles options.xflag files with
    | none => none
    | some copied =>
        let data := sizeTable files ++ copied
        if 2 ^ 31 ≤ sizeofImageHeader + data.length then none
        else some ((buildHeader options time data).bytes ++ data)

section Header

theorem header_length (header : ImageHeader) : header.bytes.length = sizeofImageHeader := by
  have name : header.name.toList.length = ihNmlen := Vector.length_toList
  simp only [ImageHeader.bytes, List.length_append, word_bytes_length, List.length_cons,
    List.length_nil, name]
  rfl

/-- A header that stands in memory is read back. -/
theorem header_at (mem : Nat → UInt8) (addr : Nat) (header : ImageHeader)
    (stored : slice mem addr sizeofImageHeader = header.bytes) : headerAt mem addr = header := by
  have length := header_length header
  have field : ∀ (value : UInt32) i, i ≤ sizeofImageHeader →
      header.bytes.drop i = wordBytes value.toNat ++ header.bytes.drop (i + 4) →
        UInt32.ofNat (word mem (addr + i)) = value := by
    intro value i inside split
    have front : (header.bytes.take i).length = i := by
      rw [List.length_take, length, Nat.min_eq_left inside]
    have whole : header.bytes =
        header.bytes.take i ++ wordBytes value.toNat ++ header.bytes.drop (i + 4) := by
      rw [List.append_assoc, ← split, List.take_append_drop]
    have read := word_middle mem addr value.toNat (header.bytes.take i)
      (header.bytes.drop (i + 4)) value.toNat_lt (by rw [← whole, length, stored])
    rw [front] at read
    rw [read]
    exact UInt32.ofNat_toNat
  have byte : ∀ i, i < sizeofImageHeader → header.bytes[i]? = some (mem (addr + i)) := by
    intro i inside
    rw [← stored, List.getElem?_eq_getElem (by simpa using inside), slice_getElem]
  have name : (Vector.ofFn fun i : Fin ihNmlen => mem (addr + 32 + i)) = header.name := by
    apply Vector.ext
    intro i inside
    have place := byte (32 + i) (by simp only [sizeofImageHeader, ihNmlen] at inside ⊢; omega)
    have split : header.bytes[32 + i]? = header.name.toList[i]? := by
      rw [Nat.add_comm]
      rfl
    rw [split, List.getElem?_eq_getElem (by simpa using inside)] at place
    simpa [Nat.add_assoc] using (Option.some.inj place).symm
  have magic : UInt32.ofNat (word mem addr) = header.magic :=
    field header.magic 0 (by decide) rfl
  have hcrc : UInt32.ofNat (word mem (addr + 4)) = header.hcrc :=
    field header.hcrc 4 (by decide) rfl
  have time : UInt32.ofNat (word mem (addr + 8)) = header.time :=
    field header.time 8 (by decide) rfl
  have size : UInt32.ofNat (word mem (addr + 12)) = header.size :=
    field header.size 12 (by decide) rfl
  have load : UInt32.ofNat (word mem (addr + 16)) = header.load :=
    field header.load 16 (by decide) rfl
  have ep : UInt32.ofNat (word mem (addr + 20)) = header.ep :=
    field header.ep 20 (by decide) rfl
  have dcrc : UInt32.ofNat (word mem (addr + 24)) = header.dcrc :=
    field header.dcrc 24 (by decide) rfl
  have os : header.os = mem (addr + 28) := Option.some.inj (byte 28 (by decide))
  have arch : header.arch = mem (addr + 29) := Option.some.inj (byte 29 (by decide))
  have type : header.type = mem (addr + 30) := Option.some.inj (byte 30 (by decide))
  have comp : header.comp = mem (addr + 31) := Option.some.inj (byte 31 (by decide))
  unfold headerAt
  rw [name, magic, hcrc, time, size, load, ep, dcrc, ← os, ← arch, ← type, ← comp]

end Header

section Areas

theorem copy_file_some {xflag : Bool} {file bytes : List UInt8} {pad : Bool}
    (copied : copyFile xflag file pad = some bytes) :
    0 < file.length ∧ file.length < 2 ^ 31 ∧ (xflag = true → sizeofImageHeader ≤ file.length) ∧
      bytes = storedBytes xflag file ++
        if pad then List.replicate (tailBytes (storedBytes xflag file).length) 0 else [] := by
  unfold copyFile at copied
  split at copied
  · cases copied
  · rename_i fits
    split at copied
    · cases copied
    · rename_i filled
      refine ⟨by omega, by omega, ?_, (Option.some.inj copied).symm⟩
      intro xip
      by_contra short
      exact filled ⟨xip, Or.inl (by omega)⟩

theorem copy_files_sizes {xflag : Bool} {files : List (List UInt8)} {area : List UInt8}
    (copied : copyFiles xflag files = some area) :
    files ≠ [] ∧ ∀ file ∈ files, 0 < file.length ∧ file.length < 2 ^ 31 ∧
      (xflag = true → sizeofImageHeader ≤ file.length) := by
  induction files generalizing area with
  | nil => cases copied
  | cons file rest ih =>
      refine ⟨List.cons_ne_nil _ _, ?_⟩
      cases rest with
      | nil =>
          obtain ⟨positive, bound, xip, -⟩ := copy_file_some copied
          intro other member
          rw [List.mem_singleton.mp member]
          exact ⟨positive, bound, xip⟩
      | cons second rest =>
          unfold copyFiles at copied
          split at copied
          · cases copied
          · rename_i bytes first
            obtain ⟨tail, more, -⟩ := Option.map_eq_some_iff.mp copied
            obtain ⟨positive, bound, xip, -⟩ := copy_file_some first
            intro other member
            rcases List.mem_cons.mp member with same | later
            · rw [same]
              exact ⟨positive, bound, xip⟩
            · exact (ih more).2 other later

/-- Where part `p` starts behind the table, by the lengths in the table. -/
def partStart (files : List (List UInt8)) (p : Nat) : Nat :=
  ((files.take p).map fun file => file.length + tailBytes file.length).sum

/-- Without -x the files stand where the table says. -/
theorem copy_files_split {files : List (List UInt8)} {area : List UInt8}
    (copied : copyFiles false files = some area) (p : Nat) (inside : p < files.length) :
    ∃ front back, area = front ++ files[p] ++ back ∧ front.length = partStart files p := by
  induction files generalizing area p with
  | nil => cases copied
  | cons file rest ih =>
      cases rest with
      | nil =>
          obtain ⟨-, -, -, bytes⟩ := copy_file_some copied
          have zero : p = 0 := by simpa using inside
          subst zero
          exact ⟨[], [], by simpa [storedBytes] using bytes, rfl⟩
      | cons second rest =>
          unfold copyFiles at copied
          split at copied
          · cases copied
          · rename_i bytes first
            obtain ⟨tail, more, joined⟩ := Option.map_eq_some_iff.mp copied
            obtain ⟨-, -, -, content⟩ := copy_file_some first
            simp only [storedBytes, Bool.false_eq_true, if_false, List.drop_zero, if_true] at content
            cases p with
            | zero =>
                refine ⟨[], List.replicate (tailBytes file.length) 0 ++ tail, ?_, rfl⟩
                rw [← joined, content]
                simp
            | succ p =>
                obtain ⟨front, back, split, length⟩ := ih more p (by simpa using inside)
                refine ⟨bytes ++ front, back, ?_, ?_⟩
                · rw [← joined, split]
                  simp
                · rw [content]
                  simp [partStart, length]
                  omega

theorem size_table_length (files : List (List UInt8)) :
    (sizeTable files).length = 4 * files.length + 4 := by
  simp [sizeTable, List.length_flatMap, Nat.mul_comm]

theorem size_table_split (files : List (List UInt8)) (p : Nat) (inside : p < files.length) :
    ∃ front back, sizeTable files = front ++ wordBytes files[p].length ++ back ∧
      front.length = 4 * p := by
  refine ⟨(files.take p).flatMap fun file => wordBytes file.length,
    ((files.drop (p + 1)).flatMap fun file => wordBytes file.length) ++ wordBytes 0, ?_, ?_⟩
  · have split : files = files.take p ++ files[p] :: files.drop (p + 1) := by simp
    have words : files.flatMap (fun file => wordBytes file.length) =
        (files.take p).flatMap (fun file => wordBytes file.length) ++
          (wordBytes files[p].length ++
            (files.drop (p + 1)).flatMap fun file => wordBytes file.length) := by
      have mapped := congrArg (List.flatMap fun file => wordBytes file.length) split
      rwa [List.flatMap_append, List.flatMap_cons] at mapped
    rw [sizeTable, words]
    simp only [List.append_assoc]
  · simp [List.length_flatMap]
    omega

end Areas

end UBoot.Image.Mkimage
