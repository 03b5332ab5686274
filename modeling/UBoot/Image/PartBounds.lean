import UBoot.Image.MultiParts

/-!
The range that do_imgextract extracts, for an image with any size table. Nothing
compares the lengths of the table with ih_size, and a part number is compared as
a signed number.
-/

namespace UBoot.Image.PartBounds

open Lib.Strings Library.BigEndian Mkimage MultiParts

/-- The words of the size table from entry `i` up to the zero word. -/
def tableEntries (mem : Nat → UInt8) (lenPtr : Nat) : (fuel i : Nat) → Option (List Nat)
  | 0, _ => none
  | fuel + 1, i =>
      let entry := word mem ((lenPtr + 4 * i) % 2 ^ 32)
      if entry = 0 then some []
      else (tableEntries mem lenPtr fuel (i + 1)).map (entry :: ·)

def rounded (len : Nat) : Nat := len + tailBytes len

/-- Bytes that the loop skips for the entries from `i` on. -/
def skippedBytes (part : Option Int) : (i : Nat) → List Nat → Nat
  | _, [] => 0
  | i, entry :: rest => (if skips part i then rounded entry else 0) + skippedBytes part (i + 1) rest

/-- The part number, which is zero when there is no such argument. -/
def partOf (args : List (List UInt8)) : Option Int :=
  args[1]?.map fun arg => toInt (simpleStrtoul arg 16).value

def addrOf (target : Target) (args : List (List UInt8)) : Nat :=
  (args[0]?.map fun arg => (simpleStrtoul arg 16).value).getD target.loadAddr

/-- The range lies behind a table of `count` entries and within the `size` bytes of data. -/
def Inside (lenPtr size count data len : Nat) : Prop :=
  4 * (count + 1) ≤ (data + (2 ^ 32 - lenPtr)) % 2 ^ 32 ∧
    (data + (2 ^ 32 - lenPtr)) % 2 ^ 32 + len ≤ size

/-- do_imgextract fails, or what it extracts lies in the data of the image behind the table. -/
def Bounded (target : Target) (args : List (List UInt8)) : Prop :=
  let addr := addrOf target args
  let lenPtr := (addr + sizeofImageHeader) % 2 ^ 32
  doImgextract target args = some (1, target) ∨
    ∃ after entries data len, doImgextract target args = some (0, after) ∧
      tableEntries target.memory lenPtr (2 ^ 30) 0 = some entries ∧
      after.fileaddr = some data ∧ after.filesize = some len ∧
      Inside lenPtr (headerAt target.memory addr).size.toNat entries.length data len

/-- The length that the part number names, which need not be in the table. -/
def namedLength (mem : Nat → UInt8) (lenPtr : Nat) (part : Option Int) : Nat :=
  word mem (toUlong (lenPtr + 4 * part.getD 0))

/-- The table is closed, and the rounded lengths in front of the part and the length of the part
itself add up to at most ih_size. -/
def TableFits (target : Target) (args : List (List UInt8)) : Prop :=
  let addr := addrOf target args
  let lenPtr := (addr + sizeofImageHeader) % 2 ^ 32
  ∃ entries, tableEntries target.memory lenPtr (2 ^ 30) 0 = some entries ∧
    ((∃ part, partOf args = some part ∧ (entries.length : Int) ≤ part) ∨
      let front := (entries.take ((partOf args).getD 0).toNat).map rounded
      let start := (4 * (entries.length + 1) + front.sum) % 2 ^ 32
      4 * (entries.length + 1) ≤ start ∧
        start + namedLength target.memory lenPtr (partOf args) ≤
          (headerAt target.memory addr).size.toNat)

section Skipping
variable {mem : Nat → UInt8} {lenPtr : Nat}

theorem skip_parts_entries (part : Option Int) (fuel i data : Nat) (small : data < 2 ^ 32) :
    skipParts mem lenPtr part fuel i data =
      (tableEntries mem lenPtr fuel i).map fun entries =>
        (i + entries.length, (data + 4 * entries.length + skippedBytes part i entries) % 2 ^ 32) := by
  induction fuel generalizing i data with
  | zero => rfl
  | succ fuel ih =>
      rw [skipParts, tableEntries]
      by_cases last : word mem ((lenPtr + 4 * i) % 2 ^ 32) = 0
      · rw [if_pos last, if_pos last]
        have whole : data % 2 ^ 32 = data := Nat.mod_eq_of_lt small
        simp only [Option.map_some, skippedBytes, List.length_nil, Nat.mul_zero, Nat.add_zero, whole]
      · rw [if_neg last, if_neg last, Option.map_map]
        generalize word mem ((lenPtr + 4 * i) % 2 ^ 32) = entry
        by_cases skipped : skips part i = true
        · rw [if_pos skipped, ih _ _ (Nat.mod_lt _ (by decide))]
          congr 1
          funext entries
          simp only [Function.comp_apply, skippedBytes, if_pos skipped, List.length_cons, rounded,
            Prod.mk.injEq]
          omega
        · rw [if_neg skipped, ih _ _ (Nat.mod_lt _ (by decide))]
          congr 1
          funext entries
          simp only [Function.comp_apply, skippedBytes, if_neg skipped, List.length_cons,
            Prod.mk.injEq]
          omega

/-- The entries in front of the part are the ones that are skipped. -/
theorem skipped_take (part : Option Int) (i : Nat) (entries : List Nat) :
    skippedBytes part i entries =
      ((entries.take (((part.getD 0) - i).toNat)).map rounded).sum := by
  induction entries generalizing i with
  | nil => simp [skippedBytes]
  | cons entry rest ih =>
      rw [skippedBytes, ih]
      have front : skips part i = true ↔ (i : Int) < part.getD 0 := by
        cases part with
        | none => simp [skips]
        | some part => simp [skips]
      by_cases skipped : skips part i = true
      · obtain ⟨count, left⟩ : ∃ count : Nat, (part.getD 0 - i).toNat = count + 1 :=
          ⟨(part.getD 0 - i).toNat - 1, by have before := front.mp skipped; omega⟩
        have less : (part.getD 0 - ((i + 1 : Nat) : Int)).toNat = count := by omega
        rw [if_pos skipped, left, less, List.take_succ_cons, List.map_cons, List.sum_cons]
      · have left : (part.getD 0 - i).toNat = 0 := by
          have behind : ¬ (i : Int) < part.getD 0 := fun before => skipped (front.mpr before)
          omega
        have less : (part.getD 0 - ((i + 1 : Nat) : Int)).toNat = 0 := by omega
        rw [if_neg skipped, left, less]
        simp

end Skipping

section Bounds
variable {target : Target} {args : List (List UInt8)}

theorem not_refused {addr : Nat} (accepted : headerAccepted target addr = true) :
    ¬ headerAccepted target addr = false := by
  rw [accepted]
  exact Bool.true_eq_false_eq_False

/-- Without a zero word there is no end of the loop. -/
theorem imgextract_unclosed (accepted : headerAccepted target (addrOf target args) = true)
    (unclosed : tableEntries target.memory ((addrOf target args + sizeofImageHeader) % 2 ^ 32)
      (2 ^ 30) 0 = none) : doImgextract target args = none := by
  have same : (args[0]?.map fun arg => (simpleStrtoul arg 16).value).getD target.loadAddr =
    addrOf target args := rfl
  simp only [doImgextract, same, if_neg (not_refused accepted), skip_parts_entries _ _ _ _
    (Nat.mod_lt _ (by decide : 0 < 2 ^ 32)), unclosed, Option.map_none]

/-- The part that do_imgextract extracts. -/
theorem imgextract_closed {entries : List Nat}
    (accepted : headerAccepted target (addrOf target args) = true)
    (closed : tableEntries target.memory ((addrOf target args + sizeofImageHeader) % 2 ^ 32)
      (2 ^ 30) 0 = some entries) :
    doImgextract target args =
      if ((partOf args).map fun part => decide (part ≥ (entries.length : Int))).getD false then
        some (1, target)
      else
        some (0, extractPart target (args[2]?.map fun arg => (simpleStrtoul arg 16).value)
          (((addrOf target args + sizeofImageHeader) % 2 ^ 32 + 4 * (entries.length + 1) +
            ((entries.take ((partOf args).getD 0).toNat).map rounded).sum) % 2 ^ 32)
          (namedLength target.memory ((addrOf target args + sizeofImageHeader) % 2 ^ 32)
            (partOf args))) := by
  have same : (args[0]?.map fun arg => (simpleStrtoul arg 16).value).getD target.loadAddr =
    addrOf target args := rfl
  have part : (args[1]?.map fun arg => toInt (simpleStrtoul arg 16).value) = partOf args := rfl
  have skipped := skipped_take (partOf args) 0 entries
  rw [Int.natCast_zero, Int.sub_zero] at skipped
  have place : ((((addrOf target args + sizeofImageHeader) % 2 ^ 32) + 4) % 2 ^ 32 +
        4 * entries.length + skippedBytes (partOf args) 0 entries) % 2 ^ 32 =
      ((addrOf target args + sizeofImageHeader) % 2 ^ 32 + 4 * (entries.length + 1) +
        ((entries.take ((partOf args).getD 0).toNat).map rounded).sum) % 2 ^ 32 := by
    rw [skipped]
    omega
  simp only [doImgextract, same, part, if_neg (not_refused accepted), skip_parts_entries _ _ _ _
    (Nat.mod_lt _ (by decide : 0 < 2 ^ 32)), closed, Option.map_some, Nat.zero_add, place,
    namedLength]

theorem inside_offset {lenPtr size count front len : Nat} (small : lenPtr < 2 ^ 32) :
    Inside lenPtr size count ((lenPtr + 4 * (count + 1) + front) % 2 ^ 32) len ↔
      4 * (count + 1) ≤ (4 * (count + 1) + front) % 2 ^ 32 ∧
        (4 * (count + 1) + front) % 2 ^ 32 + len ≤ size := by
  have offset : ((lenPtr + 4 * (count + 1) + front) % 2 ^ 32 + (2 ^ 32 - lenPtr)) % 2 ^ 32 =
      (4 * (count + 1) + front) % 2 ^ 32 := by
    omega
  rw [Inside, offset]

theorem part_refused_iff (part : Option Int) (count : Nat) :
    (part.map fun part => decide (part ≥ (count : Int))).getD false = true ↔
      ∃ named, part = some named ∧ (count : Int) ≤ named := by
  cases part with
  | none => simp
  | some named => simp

/-- do_imgextract stays within the data of the image exactly when the size table fits ih_size as
far as the part. -/
theorem imgextract_bounded_iff (target : Target) (args : List (List UInt8))
    (accepted : headerAccepted target (addrOf target args) = true) :
    Bounded target args ↔ TableFits target args := by
  have small : (addrOf target args + sizeofImageHeader) % 2 ^ 32 < 2 ^ 32 :=
    Nat.mod_lt _ (by decide)
  have unclosed := imgextract_unclosed accepted
  have closed := fun entries => @imgextract_closed target args entries accepted
  unfold Bounded TableFits
  constructor
  · rintro (failed | ⟨after, entries, data, len, done, table, start, size, inside⟩)
    · cases table : tableEntries target.memory ((addrOf target args + sizeofImageHeader) % 2 ^ 32)
          (2 ^ 30) 0 with
      | none =>
          rw [unclosed table] at failed
          cases failed
      | some entries =>
          refine ⟨entries, table, Or.inl ?_⟩
          rw [closed entries table] at failed
          by_cases refused : ((partOf args).map fun part =>
              decide (part ≥ (entries.length : Int))).getD false = true
          · exact (part_refused_iff _ _).mp refused
          · rw [if_neg refused] at failed
            injection failed with pair
            injection pair with code
            exact absurd code (by decide)
    · refine ⟨entries, table, ?_⟩
      rw [closed entries table] at done
      by_cases refused : ((partOf args).map fun part =>
          decide (part ≥ (entries.length : Int))).getD false = true
      · exact Or.inl ((part_refused_iff _ _).mp refused)
      · rw [if_neg refused] at done
        injection done with pair
        injection pair with _ extracted
        rw [← extracted] at start size
        injection start with start
        injection size with size
        rw [← start, ← size] at inside
        exact Or.inr ((inside_offset small).mp inside)
  · rintro ⟨entries, table, fits⟩
    have result := closed entries table
    by_cases refused : ((partOf args).map fun part =>
        decide (part ≥ (entries.length : Int))).getD false = true
    · rw [if_pos refused] at result
      exact Or.inl result
    · rw [if_neg refused] at result
      rcases fits with past | inside
      · exact absurd ((part_refused_iff _ _).mpr past) refused
      · exact Or.inr ⟨_, entries, _, _, result, table, rfl, rfl, (inside_offset small).mpr inside⟩

end Bounds

/-- Part -9 of an image: its length is the word of the operating system and the types in the
header. -/
def partBelow : List (List UInt8) := [ascii "0", ascii "fffffff7"]

theorem two_files_accepted : headerAccepted (imageTarget twoFilesImage) 0 = true := by
  have loaded := image_loads _ (Nat.le_of_lt (mkimage_short two_files_made))
  exact (loaded_table two_files_made loaded).1.trans (by decide)

theorem two_files_entries :
    tableEntries (imageTarget twoFilesImage).memory ((0 + sizeofImageHeader) % 2 ^ 32) (2 ^ 30) 0 =
      some [5, 2] := by
  decide +kernel

theorem two_files_size : (headerAt (imageTarget twoFilesImage).memory 0).size.toNat = 22 := by
  decide +kernel

/-- The first part of the image lies in it. -/
theorem first_part_bounded : Bounded (imageTarget twoFilesImage) firstPart := by
  have law := imgextract_bounded_iff (imageTarget twoFilesImage) firstPart two_files_accepted
  have length : namedLength (imageTarget twoFilesImage).memory ((0 + sizeofImageHeader) % 2 ^ 32)
      (partOf firstPart) = 5 := by
    decide +kernel
  have image : addrOf (imageTarget twoFilesImage) firstPart = 0 := by decide
  have part : partOf firstPart = some 0 := by decide
  apply law.mpr
  refine ⟨[5, 2], ?_, Or.inr ?_⟩
  · rw [image]
    exact two_files_entries
  · rw [image, length, two_files_size, part]
    decide

/-- What part -9 names does not lie in the image. -/
theorem part_below_unbounded : ¬ Bounded (imageTarget twoFilesImage) partBelow := by
  have image : addrOf (imageTarget twoFilesImage) partBelow = 0 := by decide
  have part : partOf partBelow = some (-9) := by decide
  have length : namedLength (imageTarget twoFilesImage).memory ((0 + sizeofImageHeader) % 2 ^ 32)
      (some (-9)) = 0x05050400 := by
    decide +kernel
  have accepted : headerAccepted (imageTarget twoFilesImage)
      (addrOf (imageTarget twoFilesImage) partBelow) = true := two_files_accepted
  have result := @imgextract_closed (imageTarget twoFilesImage) partBelow [5, 2] accepted
    (by rw [image]; exact two_files_entries)
  rw [image, part, length] at result
  rintro (failed | ⟨after, entries, data, len, done, -, -, size, -, within⟩)
  · rw [result] at failed
    injection failed with pair
    injection pair with code
    exact absurd code (by decide)
  · rw [image, two_files_size] at within
    rw [result] at done
    injection done with pair
    injection pair with _ extracted
    rw [← extracted] at size
    injection size with size
    omega

end UBoot.Image.PartBounds
