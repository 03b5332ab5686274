import UBoot.Library.BigEndian

/-!
common/cmd_fpga.c: fpga_loadbitstream on a Xilinx bitstream. Places are counted from fpgadata. What
the function does behind a string that is longer than its buffer is left open.
-/

namespace UBoot.Image.FpgaBitstream

open Library.Memory Library.BigEndian

/-- The size of the local `buffer`. -/
def bufferSize : Nat := 80

inductive Outcome where
  | failed
  | overrun
  /-- fpga_load gets `data`, from `swapsize` bytes at `dataptr`. -/
  | loaded (dataptr swapsize : Nat) (data : List UInt8)
deriving DecidableEq

/-- The places that are read through dataptr, the strings that are copied to `buffer`, and the
end. -/
structure Run where
  reads : List Nat
  strings : List (List UInt8)
  outcome : Outcome

/-- A run, behind what was read and copied before it. -/
def Run.after (reads : List Nat) (strings : List (List UInt8)) (run : Run) : Run :=
  { run with reads := reads ++ run.reads, strings := strings ++ run.strings }

def swapBits (byte : UInt8) : UInt8 :=
  (byte &&& 0x01) <<< 7 ||| (byte &&& 0x02) <<< 5 ||| (byte &&& 0x04) <<< 3 |||
    (byte &&& 0x08) <<< 1 ||| (byte &&& 0x10) >>> 1 ||| (byte &&& 0x20) >>> 3 |||
    (byte &&& 0x40) >>> 5 ||| (byte &&& 0x80) >>> 7

/-- A length of two bytes. -/
def lengthOf (hi lo : UInt8) : Nat := hi.toNat * 2 ^ 8 + lo.toNat

section Code
variable (fpgadata : Nat → UInt8) (size : Nat) (malloc : Nat → Bool)

/-- The data length at `dataptr`, and the data. -/
def loadData (dataptr : Nat) : Run :=
  if fpgadata dataptr ≠ 0x65 then
    { reads := [dataptr], strings := [], outcome := .failed }
  else
    let swapsize := word fpgadata (dataptr + 1)
    let head := List.range' dataptr 5
    if swapsize ≥ size then
      { reads := head, strings := [], outcome := .failed }
    else if malloc swapsize = false then
      { reads := head, strings := [], outcome := .failed }
    else
      { reads := head ++ List.range' (dataptr + 5) swapsize
        strings := []
        outcome := .loaded (dataptr + 5) swapsize ((slice fpgadata (dataptr + 5) swapsize).map swapBits) }

/-- The strings, each behind its identifier and its length, and then the data. -/
def readStrings : (identifiers : List UInt8) → (dataptr : Nat) → Run
  | [], dataptr => loadData fpgadata size malloc dataptr
  | identifier :: rest, dataptr =>
      if fpgadata dataptr ≠ identifier then
        { reads := [dataptr], strings := [], outcome := .failed }
      else
        let length := lengthOf (fpgadata (dataptr + 1)) (fpgadata (dataptr + 2))
        let reads := List.range' dataptr (3 + length)
        let string := slice fpgadata (dataptr + 3) length
        if length > bufferSize then
          { reads := reads, strings := [string], outcome := .overrun }
        else (readStrings rest (dataptr + 3 + length)).after reads [string]

/-- Design name, part number, date and time. -/
def identifiers : List UInt8 := [0x61, 0x62, 0x63, 0x64]

def fpgaLoadbitstream : Run :=
  let dataptr := 2 + lengthOf (fpgadata 0) (fpgadata 1)
  -- the second length is read, but not used
  (readStrings fpgadata size malloc identifiers (dataptr + 2)).after [0, 1, dataptr, dataptr + 1] []

end Code

/-- A design name of 81 bytes overruns the buffer. -/
example : (fpgaLoadbitstream (fun place => if place = 4 then 0x61 else if place = 6 then 81 else 0)
    200 fun _ => true).outcome = .overrun := by decide

/-- What a run may read, copy and load of a file of `size` bytes. -/
structure Run.Safe (size : Nat) (run : Run) : Prop where
  reads : ∀ place ∈ run.reads, place < size
  strings : ∀ string ∈ run.strings, string.length ≤ bufferSize
  loads : ∀ dataptr swapsize data, run.outcome = .loaded dataptr swapsize data →
    dataptr + swapsize ≤ size

/-- The bytes of a file as far as the identifiers lead: a wrong one ends it, strings are there and
fit the buffer, and the data are there unless they are not read. -/
inductive Fields (size : Nat) (malloc : Nat → Bool) : List UInt8 → List UInt8 → Prop where
  | otherString {identifier c : UInt8} {identifiers rest : List UInt8} (other : c ≠ identifier) :
      Fields size malloc (identifier :: identifiers) (c :: rest)
  | string {identifier hi lo : UInt8} {identifiers text rest : List UInt8}
      (length : text.length = lengthOf hi lo) (short : text.length ≤ bufferSize)
      (next : Fields size malloc identifiers rest) :
      Fields size malloc (identifier :: identifiers) (identifier :: hi :: lo :: (text ++ rest))
  | otherData {c : UInt8} {rest : List UInt8} (other : c ≠ 0x65) : Fields size malloc [] (c :: rest)
  | data {swapsize : Nat} {rest : List UInt8} (bound : swapsize < 2 ^ 32)
      (there : swapsize < size → malloc swapsize = true → swapsize ≤ rest.length) :
      Fields size malloc [] (0x65 :: (wordBytes swapsize ++ rest))

/-- A bitstream: a block with its length, two bytes, and the fields. -/
def Bitstream (size : Nat) (malloc : Nat → Bool) (file : List UInt8) : Prop :=
  ∃ hi lo first second skipped rest, file = hi :: lo :: (skipped ++ first :: second :: rest) ∧
    skipped.length = lengthOf hi lo ∧ Fields size malloc identifiers rest

section Slices
variable {fpgadata : Nat → UInt8} {place count n size : Nat}

theorem slice_head : slice fpgadata place (n + 1) = fpgadata place :: slice fpgadata (place + 1) n := by
  rw [Nat.add_comm n 1, slice_add]
  rfl

/-- The front of what is left of the file. -/
theorem slice_front {front rest : List UInt8} (parts : front ++ rest = slice fpgadata place n) :
    front = slice fpgadata place front.length ∧
      rest = slice fpgadata (place + front.length) (n - front.length) := by
  have total : front.length + rest.length = n := by
    rw [← List.length_append, parts, slice_length]
  have cut := slice_add fpgadata place front.length rest.length
  rw [total, ← parts] at cut
  have whole : n - front.length = rest.length := by omega
  rw [whole]
  exact List.append_inj cut (by simp)

theorem word_bytes_word : wordBytes (word fpgadata place) = slice fpgadata place 4 := by
  have first := (fpgadata place).toNat_lt
  have second := (fpgadata (place + 1)).toNat_lt
  have third := (fpgadata (place + 2)).toNat_lt
  have fourth := (fpgadata (place + 3)).toNat_lt
  have bytes : slice fpgadata place 4 =
      [fpgadata place, fpgadata (place + 1), fpgadata (place + 2), fpgadata (place + 3)] := rfl
  rw [bytes, wordBytes, word]
  congr 1
  · apply UInt8.toNat.inj
    rw [UInt8.toNat_ofNat']
    omega
  · congr 1
    · apply UInt8.toNat.inj
      rw [UInt8.toNat_ofNat']
      omega
    · congr 1
      · apply UInt8.toNat.inj
        rw [UInt8.toNat_ofNat']
        omega
      · congr 1
        apply UInt8.toNat.inj
        rw [UInt8.toNat_ofNat']
        omega

theorem range_inside : (∀ place' ∈ List.range' place n, place' < size) ↔ n = 0 ∨ place + n ≤ size := by
  constructor
  · intro inside
    by_cases none : n = 0
    · exact Or.inl none
    · have last := inside (place + n - 1) (List.mem_range'_1.mpr (by omega))
      exact Or.inr (by omega)
  · rintro (none | room) place' member
    · subst none
      exact absurd member List.not_mem_nil
    · have bounds := List.mem_range'_1.mp member
      omega

end Slices

section Safe
variable {fpgadata : Nat → UInt8} {size dataptr : Nat} {malloc : Nat → Bool}

theorem after_safe {reads : List Nat} {strings : List (List UInt8)} {run : Run} :
    (run.after reads strings).Safe size ↔ (∀ place ∈ reads, place < size) ∧
      (∀ string ∈ strings, string.length ≤ bufferSize) ∧ run.Safe size := by
  constructor
  · intro safe
    refine ⟨fun place member => safe.reads place (List.mem_append_left _ member),
      fun string member => safe.strings string (List.mem_append_left _ member), ?_, ?_, safe.loads⟩
    · exact fun place member => safe.reads place (List.mem_append_right _ member)
    · exact fun string member => safe.strings string (List.mem_append_right _ member)
  · rintro ⟨reads, strings, safe⟩
    refine ⟨fun place member => ?_, fun string member => ?_, safe.loads⟩
    · rcases List.mem_append.mp member with before | later
      · exact reads place before
      · exact safe.reads place later
    · rcases List.mem_append.mp member with before | later
      · exact strings string before
      · exact safe.strings string later

/-- A run that ends without data. -/
theorem failed_safe {reads : List Nat} :
    Run.Safe size { reads := reads, strings := [], outcome := .failed } ↔
      ∀ place ∈ reads, place < size :=
  ⟨Run.Safe.reads, fun inside => ⟨inside, fun _ member => absurd member List.not_mem_nil, nofun⟩⟩

/-- The data at the place where the strings end. -/
theorem data_safe (identified : fpgadata dataptr = 0x65) :
    (loadData fpgadata size malloc dataptr).Safe size ↔ dataptr + 5 ≤ size ∧
      (word fpgadata (dataptr + 1) < size → malloc (word fpgadata (dataptr + 1)) = true →
        dataptr + 5 + word fpgadata (dataptr + 1) ≤ size) := by
  have head : (∀ place ∈ List.range' dataptr 5, place < size) ↔ dataptr + 5 ≤ size := by
    rw [range_inside]
    exact or_iff_right (by decide)
  rw [loadData, if_neg (not_not_intro identified)]
  generalize word fpgadata (dataptr + 1) = swapsize
  dsimp only
  by_cases large : swapsize ≥ size
  · rw [if_pos large, failed_safe, head]
    exact (and_iff_left fun small => absurd small (Nat.not_lt.mpr large)).symm
  · rw [if_neg large]
    by_cases full : malloc swapsize = false
    · rw [if_pos full, failed_safe, head]
      exact (and_iff_left fun _ room => absurd (full.symm.trans room) (by decide)).symm
    · rw [if_neg full]
      have room : malloc swapsize = true := eq_true_of_ne_false full
      constructor
      · intro safe
        refine ⟨head.mp fun place member => safe.reads place (List.mem_append_left _ member), ?_⟩
        exact fun _ _ => safe.loads _ _ _ rfl
      · rintro ⟨inside, there⟩
        have fits := there (Nat.lt_of_not_le large) room
        refine ⟨fun place member => ?_, fun _ member => absurd member List.not_mem_nil, ?_⟩
        · rcases List.mem_append.mp member with before | later
          · exact head.mpr inside place before
          · exact range_inside.mpr (Or.inr fits) place later
        · rintro _ _ _ ⟨⟩
          exact fits

/-- A file that ends at `dataptr` has no identifier there. -/
theorem first_read (safe : (loadData fpgadata size malloc dataptr).Safe size) : dataptr < size := by
  by_cases identified : fpgadata dataptr = 0x65
  · have head := ((data_safe identified).mp safe).1
    omega
  · rw [loadData, if_pos identified] at safe
    exact safe.reads dataptr List.mem_cons_self

theorem load_data_iff : (loadData fpgadata size malloc dataptr).Safe size ↔
    Fields size malloc [] (slice fpgadata dataptr (size - dataptr)) := by
  cases left : size - dataptr with
  | zero =>
      have done : size ≤ dataptr := by omega
      refine iff_of_false (fun safe => absurd (first_read safe) (by omega)) (fun fields => ?_)
      exact nomatch fields
  | succ n =>
      rw [slice_head]
      by_cases identified : fpgadata dataptr = 0x65
      · rw [data_safe identified, identified]
        constructor
        · rintro ⟨inside, there⟩
          have cut := slice_add fpgadata (dataptr + 1) 4 (n - 4)
          have whole : 4 + (n - 4) = n := by omega
          rw [whole, ← word_bytes_word] at cut
          rw [cut]
          refine Fields.data (word_lt fpgadata _) fun small room => ?_
          have fits := there small room
          rw [slice_length]
          omega
        · intro fields
          generalize bytes : slice fpgadata (dataptr + 1) n = tail at fields
          cases fields with
          | otherData other => exact absurd rfl other
          | data bound there =>
              obtain ⟨front, behind⟩ := slice_front bytes.symm
              have value := word_of_slice fpgadata _ _ bound front.symm
              rw [value]
              rw [behind, slice_length] at there
              have long := congrArg List.length bytes
              rw [slice_length, List.length_append, word_bytes_length] at long
              rw [word_bytes_length] at there
              refine ⟨by omega, fun small room => ?_⟩
              have fits := there small room
              omega
      · rw [loadData, if_pos identified, failed_safe]
        refine iff_of_true (fun place member => ?_) (Fields.otherData identified)
        have same := List.mem_singleton.mp member
        omega

/-- A string at the front of what is left of the file. -/
theorem string_fields {identifier : UInt8} {rest : List UInt8} {place n : Nat} :
    Fields size malloc (identifier :: rest) (identifier :: slice fpgadata place n) ↔
      lengthOf (fpgadata place) (fpgadata (place + 1)) ≤ bufferSize ∧
        2 + lengthOf (fpgadata place) (fpgadata (place + 1)) ≤ n ∧
          Fields size malloc rest
            (slice fpgadata (place + 2 + lengthOf (fpgadata place) (fpgadata (place + 1)))
              (n - 2 - lengthOf (fpgadata place) (fpgadata (place + 1)))) := by
  constructor
  · intro fields
    generalize bytes : slice fpgadata place n = tail at fields
    cases fields with
    | otherString other => exact absurd rfl other
    | @string _ hi lo _ text behind length short next =>
        obtain ⟨head, left⟩ := @slice_front fpgadata place n [hi, lo] _ bytes.symm
        obtain ⟨-, last⟩ := slice_front left
        have values : [hi, lo] = [fpgadata place, fpgadata (place + 1)] := head
        obtain ⟨first, second⟩ := List.cons.inj values
        have third := (List.cons.inj second).1
        subst first third
        have long := congrArg List.length bytes
        simp only [slice_length, List.length_cons, List.length_append] at long
        rw [← length]
        refine ⟨short, by omega, ?_⟩
        rw [last] at next
        exact next
  · rintro ⟨short, inside, next⟩
    generalize length : lengthOf (fpgadata place) (fpgadata (place + 1)) = count at *
    have whole : n = 2 + (count + (n - 2 - count)) := by omega
    rw [whole, slice_add, slice_add]
    have text : (slice fpgadata (place + 2) count).length = count := slice_length _ _ _
    exact @Fields.string size malloc identifier (fpgadata place) (fpgadata (place + 1)) rest
      (slice fpgadata (place + 2) count) _ (text.trans length.symm) (text.le.trans short) next

theorem strings_read {ids : List UInt8} (safe : (readStrings fpgadata size malloc ids dataptr).Safe size) :
    dataptr < size := by
  cases ids with
  | nil => exact first_read safe
  | cons identifier rest =>
      apply safe.reads
      rw [readStrings]
      dsimp only
      split
      · exact List.mem_singleton_self _
      · split
        · exact List.mem_range'_1.mpr (by omega)
        · exact List.mem_append_left _ (List.mem_range'_1.mpr (by omega))

/-- The strings and the data are read safely exactly as the fields are there. -/
theorem strings_iff (ids : List UInt8) (dataptr : Nat) :
    (readStrings fpgadata size malloc ids dataptr).Safe size ↔
      Fields size malloc ids (slice fpgadata dataptr (size - dataptr)) := by
  induction ids generalizing dataptr with
  | nil => exact load_data_iff
  | cons identifier rest ih =>
      cases left : size - dataptr with
      | zero =>
          refine iff_of_false (fun safe => ?_) (fun fields => nomatch fields)
          have first := strings_read safe
          omega
      | succ n =>
          rw [slice_head]
          by_cases identified : fpgadata dataptr = identifier
          · rw [identified, string_fields, readStrings, if_neg (not_not_intro identified)]
            dsimp only
            generalize lengthOf (fpgadata (dataptr + 1)) (fpgadata (dataptr + 1 + 1)) = length
            by_cases short : length ≤ bufferSize
            · rw [if_neg (Nat.not_lt.mpr short), after_safe, range_inside,
                or_iff_right (by omega), and_iff_right short, ih]
              have text : ∀ string ∈ [slice fpgadata (dataptr + 3) length],
                  string.length ≤ bufferSize := by
                intro string member
                rw [List.mem_singleton.mp member, slice_length]
                exact short
              have room : dataptr + (3 + length) ≤ size ↔ 2 + length ≤ n := by omega
              have there : size - (dataptr + 3 + length) = n - 2 - length := by omega
              rw [room, there, and_iff_right text]
            · rw [if_pos (Nat.lt_of_not_le short)]
              refine iff_of_false (fun safe => short ?_) (fun both => short both.1)
              have text := safe.strings _ List.mem_cons_self
              rwa [slice_length] at text
          · rw [readStrings, if_pos identified, failed_safe]
            refine iff_of_true (fun place member => ?_) (Fields.otherString identified)
            have same := List.mem_singleton.mp member
            omega

end Safe

/-- A file is read, copied and loaded safely exactly where it is a bitstream as far as its identifiers
lead. -/
theorem fpga_loadbitstream_iff (fpgadata : Nat → UInt8) (size : Nat) (malloc : Nat → Bool) :
    (fpgaLoadbitstream fpgadata size malloc).Safe size ↔
      Bitstream size malloc (slice fpgadata 0 size) := by
  rw [fpgaLoadbitstream, after_safe, strings_iff]
  constructor
  · rintro ⟨reads, -, fields⟩
    generalize length : lengthOf (fpgadata 0) (fpgadata 1) = count at *
    have inside : 2 + count + 1 < size := reads _ (by simp)
    obtain ⟨n, rfl⟩ : ∃ n, size = 2 + (count + (2 + n)) := ⟨size - (2 + count + 2), by omega⟩
    have left : 2 + (count + (2 + n)) - (2 + count + 2) = n := by omega
    rw [left] at fields
    refine ⟨fpgadata 0, fpgadata 1, fpgadata (2 + count), fpgadata (2 + count + 1),
      slice fpgadata 2 count, slice fpgadata (2 + count + 2) n, ?_, ?_, fields⟩
    · rw [slice_add, slice_add, slice_add]
      simp only [Nat.zero_add]
      rfl
    · rw [slice_length, length]
  · rintro ⟨hi, lo, first, second, skipped, rest, bytes, length, fields⟩
    obtain ⟨head, left⟩ := @slice_front fpgadata 0 size [hi, lo] _ bytes.symm
    obtain ⟨-, behind⟩ := slice_front left
    obtain ⟨-, last⟩ := @slice_front fpgadata _ _ [first, second] _ behind
    have long := congrArg List.length bytes
    simp only [slice_length, List.length_cons, List.length_append] at long
    obtain ⟨high, others⟩ := List.cons.inj (show [hi, lo] = [fpgadata 0, fpgadata 1] from head)
    have low := (List.cons.inj others).1
    subst high low
    rw [← length]
    refine ⟨fun place member => ?_, fun _ member => absurd member List.not_mem_nil, ?_⟩
    · simp only [List.mem_cons, List.not_mem_nil, or_false] at member
      omega
    · rw [last] at fields
      have there : size - 2 - skipped.length - 2 = size - (2 + skipped.length + 2) := by omega
      simp only [List.length_cons, List.length_nil, Nat.zero_add, there] at fields
      exact fields

/-- An empty header with the identifiers of all fields and a data length of 10, and no data. -/
def noData : List UInt8 :=
  [0, 0, 0, 1, 0x61, 0, 0, 0x62, 0, 0, 0x63, 0, 0, 0x64, 0, 0, 0x65, 0, 0, 0, 10]

/-- The data are read behind the end of the file. -/
theorem data_behind_file :
    ¬(fpgaLoadbitstream (fun place => (noData[place]?).getD 0) 21 fun _ => true).Safe 21 := by
  intro safe
  exact absurd (safe.reads 21 (by decide)) (by decide)

end UBoot.Image.FpgaBitstream
