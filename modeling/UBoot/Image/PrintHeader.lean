import UBoot.Image.Mkimage

/-!
print_header of tools/mkimage.c, on the image that mkimage has written and mapped. It takes the size
table as an array of the host's `unsigned long`, and counts the header, the lengths and the parts up
for the offsets.
-/

namespace UBoot.Image.PrintHeader

open Lib.Crc32 Library.Memory Library.BigEndian Mkimage

def ihTypeScript : UInt8 := 6

/-! ### The image -/

/-- The header for one of the types with a size table. -/
def typedHeader (type : UInt8) (options : Options) (time : UInt32) (data : List UInt8) : ImageHeader :=
  let header : ImageHeader := { buildHeader options time data with hcrc := 0, type := type }
  { header with hcrc := UInt32.ofNat (crc32 0 header.bytes) }

/-- The image file with `-T multi` or `-T script`. -/
def mkimageOf (type : UInt8) (options : Options) (time : UInt32) (files : List (List UInt8)) :
    Option (List UInt8) :=
  if options.xflag ∧ options.entry ≠ options.addr + UInt32.ofNat sizeofImageHeader then none
  else
    match copyFiles options.xflag files with
    | none => none
    | some copied =>
        let data := sizeTable files ++ copied
        if 2 ^ 31 ≤ sizeofImageHeader + data.length then none
        else some ((typedHeader type options time data).bytes ++ data)

theorem mkimage_of_multi (options : Options) (time : UInt32) (files : List (List UInt8)) :
    mkimageOf ihTypeMulti options time files = mkimage options time files := rfl

/-! ### The listing -/

structure Host where
  /-- `long` has 64 bits, and not 32. -/
  wide : Bool
  bigEndian : Bool
  pageSize : Nat

def Host.sizeofLong (host : Host) : Nat := if host.wide then 8 else 4

/-- A byte of the mapped file. Behind its end the last page is zero, and behind that is nothing. -/
def mapped (host : Host) (image : List UInt8) (address : Nat) : Option UInt8 :=
  if address < image.length then image[address]?
  else if address < (image.length + host.pageSize - 1) / host.pageSize * host.pageSize then some 0
  else none

def readBytes (host : Host) (image : List UInt8) (address : Nat) : (count : Nat) → Option (List UInt8)
  | 0 => some []
  | count + 1 =>
      match mapped host image address, readBytes host image (address + 1) count with
      | some byte, some rest => some (byte :: rest)
      | _, _ => none

/-- The number that bytes are on the host. -/
def Host.value (host : Host) (bytes : List UInt8) : Nat :=
  (if host.bigEndian then bytes.reverse else bytes).foldr (fun byte high => byte.toNat + 256 * high) 0

/-- Its argument has 32 bits. -/
def Host.ntohl (host : Host) (long : Nat) : Nat :=
  let word := long % 2 ^ 32
  if host.bigEndian then word
  else word % 2 ^ 8 * 2 ^ 24 + word / 2 ^ 8 % 2 ^ 8 * 2 ^ 16 + word / 2 ^ 16 % 2 ^ 8 * 2 ^ 8 +
    word / 2 ^ 24

/-- `len_ptr[i]` -/
def lenPtr (host : Host) (image : List UInt8) (i : Nat) : Option Nat :=
  (readBytes host image (sizeofImageHeader + host.sizeofLong * i) host.sizeofLong).map host.value

/-- The first loop. -/
def countParts (host : Host) (image : List UInt8) : (fuel i : Nat) → Option Nat
  | 0, _ => none
  | fuel + 1, i =>
      match lenPtr host image i with
      | none => none
      | some long => if long = 0 then some i else countParts host image fuel (i + 1)

/-- What is printed for a part. -/
structure Listed where
  size : Nat
  offset : Option Nat

/-- The second loop. -/
def listParts (host : Host) (image : List UInt8) (script : Bool) : (fuel i pos : Nat) → Option (List Listed)
  | 0, _, _ => none
  | fuel + 1, i, pos =>
      match lenPtr host image i with
      | none => none
      | some long =>
          if long = 0 then some []
          else
            let size := host.ntohl long
            let offset := if script ∧ 0 < i then some pos else none
            let rounded := (size + 3) % 2 ^ 32 / 4 * 4
            (listParts host image script fuel (i + 1) ((pos + rounded) % 2 ^ 32)).map (⟨size, offset⟩ :: ·)

/-- The contents that print_header lists. No loop goes on behind the mapped pages. -/
def printHeader (host : Host) (image : List UInt8) : Option (List Listed) :=
  let fuel := image.length + host.pageSize
  let type := image[30]?.getD 0
  if type = ihTypeMulti ∨ type = ihTypeScript then
    match countParts host image fuel 0 with
    | none => none
    | some ptrs =>
        listParts host image (type = ihTypeScript) fuel 0
          ((sizeofImageHeader + ptrs * host.sizeofLong) % 2 ^ 32)
  else some []

/-! ### The parts -/

/-- The bytes of a part with what copy_file pads it with, if it is not the last. -/
def padded (xflag : Bool) (file : List UInt8) : Nat :=
  (storedBytes xflag file).length + tailBytes (storedBytes xflag file).length

/-- Where the bytes of part `p` begin in the image file. -/
def partOffset (xflag : Bool) (files : List (List UInt8)) (p : Nat) : Nat :=
  sizeofImageHeader + (sizeTable files).length + ((files.take p).map (padded xflag)).sum

/-- Every part is listed with its length and, if one is printed, its offset. -/
structure ListedRight (xflag : Bool) (files : List (List UInt8)) (listing : List Listed) : Prop where
  count : listing.length = files.length
  right : ∀ p file entry, files[p]? = some file → listing[p]? = some entry →
    entry.size = (storedBytes xflag file).length ∧
      ∀ offset ∈ entry.offset, offset = partOffset xflag files p

/-- The `k`-th word behind the header. -/
def wordAt (host : Host) (image : List UInt8) (k : Nat) : Option Nat :=
  (readBytes host image (sizeofImageHeader + 4 * k) 4).map fun bytes =>
    bytes.foldl (fun high byte => 256 * high + byte.toNat) 0

/-- The words behind the header, taken in pairs, happen to have the lengths in their first halves (on
a little-endian host) or second halves, up to a pair of zeros. -/
structure PairsSpell (host : Host) (image : List UInt8) (lengths : List Nat) : Prop where
  pair : ∀ i length, lengths[i]? = some length →
    ∃ first second, wordAt host image (2 * i) = some first ∧
      wordAt host image (2 * i + 1) = some second ∧ ¬ (first = 0 ∧ second = 0) ∧
      (if host.bigEndian then second else first) = length
  closing : wordAt host image (2 * lengths.length) = some 0 ∧
    wordAt host image (2 * lengths.length + 1) = some 0

/-! ### The entries -/

def bigValue (bytes : List UInt8) : Nat := bytes.foldl (fun high byte => 256 * high + byte.toNat) 0

/-- Whether an entry goes on, and its length. -/
def entryAt (host : Host) (image : List UInt8) (i : Nat) : Option (Bool × Nat) :=
  if host.wide then
    (wordAt host image (2 * i)).bind fun first =>
      (wordAt host image (2 * i + 1)).map fun second =>
        (decide (¬ (first = 0 ∧ second = 0)), if host.bigEndian then second else first)
  else (wordAt host image i).map fun word => (decide (word ≠ 0), word)

section Entries
variable {host : Host} {image : List UInt8}

theorem read_length {count : Nat} {address : Nat} {bytes : List UInt8}
    (read : readBytes host image address count = some bytes) : bytes.length = count := by
  induction count generalizing address bytes with
  | zero =>
      cases read
      rfl
  | succ count inductive_hypothesis =>
      rw [readBytes] at read
      split at read
      · rename_i byte rest _ later
        cases read
        rw [List.length_cons, inductive_hypothesis later]
      · cases read

theorem read_append (first second address : Nat) :
    readBytes host image address (first + second) =
      (readBytes host image address first).bind fun front =>
        (readBytes host image (address + first) second).map fun back => front ++ back := by
  induction first generalizing address with
  | zero => simp [readBytes]
  | succ first inductive_hypothesis =>
      rw [Nat.add_right_comm, readBytes, readBytes, inductive_hypothesis, Nat.add_right_comm address 1]
      cases mapped host image address with
      | none => rfl
      | some byte =>
          cases readBytes host image (address + 1) first with
          | none => rfl
          | some front =>
              simp only [Option.bind_some, Nat.add_assoc]
              cases readBytes host image (address + (first + 1)) second <;> rfl

theorem four_bytes {bytes : List UInt8} (four : bytes.length = 4) :
    ∃ a b c d, bytes = [a, b, c, d] := by
  obtain ⟨a, rest, rfl⟩ := List.exists_cons_of_length_eq_add_one four
  obtain ⟨b, rest, rfl⟩ := List.exists_cons_of_length_eq_add_one (Nat.succ.inj four)
  obtain ⟨c, rest, rfl⟩ := List.exists_cons_of_length_eq_add_one (Nat.succ.inj (Nat.succ.inj four))
  obtain ⟨d, rest, rfl⟩ :=
    List.exists_cons_of_length_eq_add_one (Nat.succ.inj (Nat.succ.inj (Nat.succ.inj four)))
  exact ⟨a, b, c, d, by simpa using four⟩

/-- The four low bytes of a number, in the other order. -/
theorem swap_bytes (host : Host) (little : host.bigEndian = false) (a b c d : UInt8) (high : Nat) :
    host.ntohl (a.toNat + 256 * (b.toNat + 256 * (c.toNat + 256 * (d.toNat + 256 * high)))) =
      bigValue [a, b, c, d] := by
  have first := a.toNat_lt
  have second := b.toNat_lt
  have third := c.toNat_lt
  have fourth := d.toNat_lt
  have low : (a.toNat + 256 * (b.toNat + 256 * (c.toNat + 256 * (d.toNat + 256 * high)))) % 2 ^ 32 =
      a.toNat + 256 * (b.toNat + 256 * (c.toNat + 256 * d.toNat)) := by omega
  have byte : (a.toNat + 256 * (b.toNat + 256 * (c.toNat + 256 * d.toNat))) % 2 ^ 8 = a.toNat ∧
      (a.toNat + 256 * (b.toNat + 256 * (c.toNat + 256 * d.toNat))) / 2 ^ 8 % 2 ^ 8 = b.toNat ∧
      (a.toNat + 256 * (b.toNat + 256 * (c.toNat + 256 * d.toNat))) / 2 ^ 16 % 2 ^ 8 = c.toNat ∧
      (a.toNat + 256 * (b.toNat + 256 * (c.toNat + 256 * d.toNat))) / 2 ^ 24 = d.toNat := by omega
  rw [Host.ntohl, low, little, byte.1, byte.2.1, byte.2.2.1, byte.2.2.2]
  simp only [Bool.false_eq_true, if_false, bigValue, List.foldl_cons, List.foldl_nil]
  omega

/-- A length of 32 bits is the word of the table, whatever the order of the host. -/
theorem narrow_value (host : Host) {bytes : List UInt8} (four : bytes.length = 4) :
    host.ntohl (host.value bytes) = bigValue bytes ∧ (host.value bytes = 0 ↔ bigValue bytes = 0) := by
  obtain ⟨a, b, c, d, rfl⟩ := four_bytes four
  have first := a.toNat_lt
  have second := b.toNat_lt
  have third := c.toNat_lt
  have fourth := d.toNat_lt
  cases order : host.bigEndian with
  | false =>
      have swapped := swap_bytes host order a b c d 0
      have value : host.value [a, b, c, d] =
          a.toNat + 256 * (b.toNat + 256 * (c.toNat + 256 * (d.toNat + 256 * 0))) := by
        simp [Host.value, order]
      rw [value]
      refine ⟨swapped, ?_⟩
      simp only [bigValue, List.foldl_cons, List.foldl_nil]
      omega
  | true =>
      simp only [Host.ntohl, Host.value, order, bigValue, if_true, List.reverse_cons, List.reverse_nil,
        List.nil_append, List.cons_append, List.foldr_cons, List.foldr_nil, List.foldl_cons,
        List.foldl_nil]
      omega

/-- Of a length of 64 bits one half is taken. -/
theorem wide_value (host : Host) {front back : List UInt8} (first : front.length = 4)
    (second : back.length = 4) :
    host.ntohl (host.value (front ++ back)) =
        (if host.bigEndian then bigValue back else bigValue front) ∧
      (host.value (front ++ back) = 0 ↔ bigValue front = 0 ∧ bigValue back = 0) := by
  obtain ⟨a, b, c, d, rfl⟩ := four_bytes first
  obtain ⟨e, f, g, h, rfl⟩ := four_bytes second
  have e_lt := e.toNat_lt
  have f_lt := f.toNat_lt
  have g_lt := g.toNat_lt
  have h_lt := h.toNat_lt
  cases order : host.bigEndian with
  | false =>
      have swapped := swap_bytes host order a b c d
        (e.toNat + 256 * (f.toNat + 256 * (g.toNat + 256 * h.toNat)))
      have value : host.value ([a, b, c, d] ++ [e, f, g, h]) =
          a.toNat + 256 * (b.toNat + 256 * (c.toNat + 256 * (d.toNat +
            256 * (e.toNat + 256 * (f.toNat + 256 * (g.toNat + 256 * h.toNat)))))) := by
        simp [Host.value, order]
      rw [value]
      refine ⟨swapped, ?_⟩
      simp only [bigValue, List.foldl_cons, List.foldl_nil]
      omega
  | true =>
      simp only [Host.ntohl, Host.value, order, bigValue, if_true, List.reverse_cons, List.reverse_nil,
        List.nil_append, List.cons_append, List.foldr_cons, List.foldr_nil, List.foldl_cons,
        List.foldl_nil]
      omega

theorem entry_eq (host : Host) (image : List UInt8) (i : Nat) :
    (lenPtr host image i).map (fun long => (decide (long ≠ 0), host.ntohl long)) =
      entryAt host image i := by
  rw [lenPtr, entryAt, Host.sizeofLong, Option.map_map]
  cases wide : host.wide with
  | false =>
      rw [if_neg Bool.false_ne_true, if_neg Bool.false_ne_true, wordAt, Option.map_map]
      cases read : readBytes host image (sizeofImageHeader + 4 * i) 4 with
      | none => rfl
      | some bytes =>
          obtain ⟨value, zero⟩ := narrow_value host (read_length read)
          simp only [Option.map_some, Function.comp_apply, value, ne_eq, zero]
          rfl
  | true =>
      have place : sizeofImageHeader + 8 * i = sizeofImageHeader + 4 * (2 * i) := by omega
      have behind : sizeofImageHeader + 4 * (2 * i) + 4 = sizeofImageHeader + 4 * (2 * i + 1) := by omega
      rw [if_pos rfl, if_pos rfl, place, show 8 = 4 + 4 from rfl, read_append, behind, wordAt, wordAt]
      cases front_read : readBytes host image (sizeofImageHeader + 4 * (2 * i)) 4 with
      | none => rfl
      | some front =>
          cases back_read : readBytes host image (sizeofImageHeader + 4 * (2 * i + 1)) 4 with
          | none => rfl
          | some back =>
              obtain ⟨value, zero⟩ := wide_value host (read_length front_read) (read_length back_read)
              simp only [Option.map_some, Option.bind_some, Function.comp_apply, value, ne_eq, zero]
              rfl

/-- The entries from the `i`-th one on, up to the one that ends the list. -/
def EntriesFrom (host : Host) (image : List UInt8) : (i : Nat) → List Nat → Prop
  | i, [] => ∃ size, entryAt host image i = some (false, size)
  | i, size :: rest => entryAt host image i = some (true, size) ∧ EntriesFrom host image (i + 1) rest

theorem entries_unique {i : Nat} {sizes others : List Nat} (entries : EntriesFrom host image i sizes)
    (again : EntriesFrom host image i others) : sizes = others := by
  induction sizes generalizing i others with
  | nil =>
      obtain ⟨_, ends⟩ := entries
      cases others with
      | nil => rfl
      | cons other rest =>
          have more := ends.symm.trans again.1
          cases more
  | cons size rest inductive_hypothesis =>
      cases others with
      | nil =>
          obtain ⟨_, ends⟩ := again
          have more := ends.symm.trans entries.1
          cases more
      | cons other later =>
          have same := entries.1.symm.trans again.1
          cases same
          rw [inductive_hypothesis entries.2 again.2]

theorem entries_some {i : Nat} {sizes : List Nat} (entries : EntriesFrom host image i sizes) :
    entryAt host image i ≠ none := by
  intro nothing
  cases sizes with
  | nil =>
      obtain ⟨_, ends⟩ := entries
      cases nothing.symm.trans ends
  | cons size rest => cases nothing.symm.trans entries.1

/-- What is read of an entry, by the two tests of the loops. -/
theorem long_of_entry {i : Nat} :
    (entryAt host image i = none ∧ lenPtr host image i = none) ∨
      (∃ size, entryAt host image i = some (false, size) ∧ lenPtr host image i = some 0) ∨
      ∃ long, entryAt host image i = some (true, host.ntohl long) ∧ lenPtr host image i = some long ∧
        long ≠ 0 := by
  have same := entry_eq host image i
  cases read : lenPtr host image i with
  | none =>
      rw [read] at same
      exact .inl ⟨same.symm, rfl⟩
  | some long =>
      rw [read, Option.map_some] at same
      by_cases zero : long = 0
      · rw [decide_eq_false (not_not.mpr zero)] at same
        exact .inr (.inl ⟨_, same.symm, by rw [zero]⟩)
      · rw [decide_eq_true zero] at same
        exact .inr (.inr ⟨long, same.symm, rfl, zero⟩)

theorem count_parts_iff (fuel i n : Nat) : countParts host image fuel i = some n ↔
    ∃ sizes, EntriesFrom host image i sizes ∧ sizes.length < fuel ∧ n = i + sizes.length := by
  induction fuel generalizing i with
  | zero => simp [countParts]
  | succ fuel inductive_hypothesis =>
      rw [countParts]
      rcases @long_of_entry host image i with ⟨nothing, read⟩ | ⟨size, ends, read⟩ |
        ⟨long, goes, read, positive⟩
      · rw [read]
        refine iff_of_false (fun counted => nomatch counted) ?_
        rintro ⟨sizes, entries, _⟩
        exact entries_some entries nothing
      · rw [read]
        dsimp only
        rw [if_pos rfl, Option.some_inj]
        constructor
        · rintro rfl
          exact ⟨[], ⟨size, ends⟩, Nat.succ_pos _, rfl⟩
        · rintro ⟨sizes, entries, _, rfl⟩
          have none := @entries_unique host image i sizes [] entries ⟨size, ends⟩
          rw [none]
          rfl
      · rw [read]
        dsimp only
        rw [if_neg positive, inductive_hypothesis]
        constructor
        · rintro ⟨sizes, entries, short, rfl⟩
          exact ⟨host.ntohl long :: sizes, ⟨goes, entries⟩, Nat.succ_lt_succ short, by
            rw [List.length_cons]
            omega⟩
        · rintro ⟨sizes, entries, short, rfl⟩
          cases sizes with
          | nil =>
              obtain ⟨_, ends⟩ := entries
              cases goes.symm.trans ends
          | cons size rest =>
              rw [List.length_cons] at short ⊢
              exact ⟨rest, entries.2, by omega, by omega⟩

/-- What is listed for lengths from the `i`-th one on. -/
def listing (script : Bool) : (i pos : Nat) → List Nat → List Listed
  | _, _, [] => []
  | i, pos, size :: rest =>
      ⟨size, if script ∧ 0 < i then some pos else none⟩ ::
        listing script (i + 1) ((pos + (size + 3) % 2 ^ 32 / 4 * 4) % 2 ^ 32) rest

theorem list_parts_iff (script : Bool) (fuel i pos : Nat) (listed : List Listed) :
    listParts host image script fuel i pos = some listed ↔
      ∃ sizes, EntriesFrom host image i sizes ∧ sizes.length < fuel ∧
        listed = listing script i pos sizes := by
  induction fuel generalizing i pos listed with
  | zero => simp [listParts]
  | succ fuel inductive_hypothesis =>
      rw [listParts]
      rcases @long_of_entry host image i with ⟨nothing, read⟩ | ⟨size, ends, read⟩ |
        ⟨long, goes, read, positive⟩
      · rw [read]
        refine iff_of_false (fun counted => nomatch counted) ?_
        rintro ⟨sizes, entries, _⟩
        exact entries_some entries nothing
      · rw [read]
        dsimp only
        rw [if_pos rfl, Option.some_inj]
        constructor
        · rintro rfl
          exact ⟨[], ⟨size, ends⟩, Nat.succ_pos _, rfl⟩
        · rintro ⟨sizes, entries, _, rfl⟩
          have none := @entries_unique host image i sizes [] entries ⟨size, ends⟩
          rw [none]
          rfl
      · rw [read]
        dsimp only
        rw [if_neg positive, Option.map_eq_some_iff]
        constructor
        · rintro ⟨later, found, rfl⟩
          obtain ⟨sizes, entries, short, rfl⟩ := (inductive_hypothesis _ _ _).mp found
          exact ⟨host.ntohl long :: sizes, ⟨goes, entries⟩, Nat.succ_lt_succ short, rfl⟩
        · rintro ⟨sizes, entries, short, rfl⟩
          cases sizes with
          | nil =>
              obtain ⟨_, ends⟩ := entries
              cases goes.symm.trans ends
          | cons size rest =>
              cases goes.symm.trans entries.1
              rw [List.length_cons] at short
              exact ⟨_, (inductive_hypothesis _ _ _).mpr ⟨rest, entries.2, by omega, rfl⟩, rfl⟩

/-- An entry that can be read begins in the mapped pages. -/
theorem entry_mapped {i : Nat} {entry : Bool × Nat} (found : entryAt host image i = some entry) :
    i < image.length + host.pageSize := by
  have same := entry_eq host image i
  rw [found, lenPtr, Option.map_map, Option.map_eq_some_iff] at same
  obtain ⟨bytes, read, _⟩ := same
  have four : 4 ≤ host.sizeofLong := by
    rw [Host.sizeofLong]
    split <;> omega
  obtain ⟨size, count⟩ : ∃ size, host.sizeofLong = size + 1 := ⟨host.sizeofLong - 1, by omega⟩
  rw [count, readBytes, ← count] at read
  have far : i ≤ host.sizeofLong * i := Nat.le_mul_of_pos_left i (by omega)
  cases byte : mapped host image (sizeofImageHeader + host.sizeofLong * i) with
  | none =>
      rw [byte] at read
      cases read
  | some byte_read =>
      rw [mapped] at byte
      have pages : (image.length + host.pageSize - 1) / host.pageSize * host.pageSize ≤
          image.length + host.pageSize - 1 := Nat.div_mul_le_self _ _
      split at byte
      · omega
      · split at byte
        · omega
        · cases byte

theorem entries_short {i : Nat} {sizes : List Nat} (entries : EntriesFrom host image i sizes) :
    i + sizes.length < image.length + host.pageSize := by
  induction sizes generalizing i with
  | nil =>
      obtain ⟨_, ends⟩ := entries
      exact entry_mapped ends
  | cons size rest inductive_hypothesis =>
      have later := inductive_hypothesis entries.2
      rw [List.length_cons]
      omega

/-- print_header lists the entries up to the end of the list. -/
theorem print_header_iff {type : UInt8} (typed : image[30]? = some type)
    (several : type = ihTypeMulti ∨ type = ihTypeScript) (listed : List Listed) :
    printHeader host image = some listed ↔ ∃ sizes, EntriesFrom host image 0 sizes ∧
      listed = listing (type = ihTypeScript) 0
        ((sizeofImageHeader + sizes.length * host.sizeofLong) % 2 ^ 32) sizes := by
  rw [printHeader, typed]
  dsimp only [Option.getD_some]
  rw [if_pos several]
  constructor
  · intro result
    split at result
    · cases result
    · rename_i ptrs counted
      obtain ⟨sizes, entries, _, rfl⟩ := (count_parts_iff _ _ _).mp counted
      obtain ⟨others, again, _, rfl⟩ := (list_parts_iff _ _ _ _ _).mp result
      cases entries_unique entries again
      exact ⟨sizes, entries, by rw [Nat.zero_add]⟩
  · rintro ⟨sizes, entries, rfl⟩
    have short := entries_short entries
    have counted := (count_parts_iff (image.length + host.pageSize) 0 (0 + sizes.length)).mpr
      ⟨sizes, entries, by omega, rfl⟩
    rw [counted]
    dsimp only
    rw [Nat.zero_add, list_parts_iff]
    exact ⟨sizes, entries, by omega, rfl⟩

end Entries

/-! ### The table -/

section Table
variable {host : Host} {image : List UInt8}

theorem read_middle (host : Host) (front bytes back : List UInt8) :
    readBytes host (front ++ bytes ++ back) front.length bytes.length = some bytes := by
  induction bytes generalizing front with
  | nil => rfl
  | cons byte bytes inductive_hypothesis =>
      have here : mapped host (front ++ (byte :: bytes) ++ back) front.length = some byte := by
        rw [mapped, if_pos (by simp), List.append_assoc, List.getElem?_append_right (Nat.le_refl _)]
        simp
      have later := inductive_hypothesis (front ++ [byte])
      have whole : front ++ [byte] ++ bytes ++ back = front ++ (byte :: bytes) ++ back := by simp
      rw [whole, List.length_append, List.length_singleton] at later
      rw [List.length_cons, readBytes, here, later]

theorem big_word_bytes {value : Nat} (small : value < 2 ^ 32) : bigValue (wordBytes value) = value := by
  simp only [bigValue, wordBytes, List.foldl_cons, List.foldl_nil, UInt8.toNat_ofNat']
  omega

/-- A word of the size table. -/
theorem word_at_of (host : Host) {front back : List UInt8} {value k : Nat} (small : value < 2 ^ 32)
    (place : front.length = sizeofImageHeader + 4 * k) :
    wordAt host (front ++ wordBytes value ++ back) k = some value := by
  have read := read_middle host front (wordBytes value) back
  rw [word_bytes_length, place] at read
  rw [wordAt, read]
  exact congrArg some (big_word_bytes small)

theorem entries_from_iff (i : Nat) (sizes : List Nat) :
    EntriesFrom host image i sizes ↔
      (∀ p size, sizes[p]? = some size → entryAt host image (i + p) = some (true, size)) ∧
        ∃ size, entryAt host image (i + sizes.length) = some (false, size) := by
  induction sizes generalizing i with
  | nil => simp [EntriesFrom]
  | cons first rest inductive_hypothesis =>
      rw [EntriesFrom, inductive_hypothesis, List.length_cons, Nat.add_assoc, Nat.add_comm 1 rest.length]
      constructor
      · rintro ⟨here, later, ends⟩
        refine ⟨fun p size found => ?_, ends⟩
        cases p with
        | zero => exact (Option.some.inj found) ▸ here
        | succ p =>
            have entry := later p size found
            rwa [Nat.add_assoc, Nat.add_comm 1 p] at entry
      · rintro ⟨all, ends⟩
        refine ⟨all 0 first rfl, fun p size found => ?_, ends⟩
        have entry := all (p + 1) size found
        rwa [Nat.add_comm p 1, ← Nat.add_assoc] at entry

/-- On a host with 64 bits the list is right where the pairs of words happen to be. -/
theorem entries_wide (wide : host.wide = true) (lengths : List Nat) :
    EntriesFrom host image 0 lengths ↔ PairsSpell host image lengths := by
  have entry : ∀ i goes size, entryAt host image i = some (goes, size) ↔
      ∃ first second, wordAt host image (2 * i) = some first ∧
        wordAt host image (2 * i + 1) = some second ∧ decide (¬ (first = 0 ∧ second = 0)) = goes ∧
        (if host.bigEndian then second else first) = size := by
    intro i goes size
    rw [entryAt, wide, if_pos rfl]
    cases wordAt host image (2 * i) <;> cases wordAt host image (2 * i + 1) <;> simp
  rw [entries_from_iff]
  simp only [Nat.zero_add]
  constructor
  · rintro ⟨all, size, ends⟩
    constructor
    · intro i length found
      obtain ⟨first, second, low, high, goes, half⟩ := (entry i true length).mp (all i length found)
      exact ⟨first, second, low, high, of_decide_eq_true goes, half⟩
    · obtain ⟨first, second, low, high, stops, _⟩ := (entry _ false size).mp ends
      obtain ⟨rfl, rfl⟩ := not_not.mp (of_decide_eq_false stops)
      exact ⟨low, high⟩
  · rintro ⟨pair, low, high⟩
    refine ⟨fun i length found => ?_, 0, (entry _ false 0).mpr ⟨0, 0, low, high, rfl, ite_self 0⟩⟩
    obtain ⟨first, second, low, high, goes, half⟩ := pair i length found
    exact (entry i true length).mpr ⟨first, second, low, high, decide_eq_true goes, half⟩

/-- On a host with 32 bits the list is the size table. -/
theorem entries_narrow (narrow : host.wide = false) {xflag : Bool} {files : List (List UInt8)}
    {header copied : List UInt8} (written : copyFiles xflag files = some copied)
    (size : header.length = sizeofImageHeader) :
    EntriesFrom host (header ++ (sizeTable files ++ copied)) 0 (files.map List.length) := by
  have sizes := (copy_files_sizes written).2
  have entry : ∀ i word, wordAt host (header ++ (sizeTable files ++ copied)) i = some word →
      entryAt host (header ++ (sizeTable files ++ copied)) i = some (decide (word ≠ 0), word) := by
    intro i word found
    rw [entryAt, narrow, if_neg Bool.false_ne_true, found]
    rfl
  rw [entries_from_iff]
  simp only [Nat.zero_add]
  constructor
  · intro p length found
    rw [List.getElem?_map, Option.map_eq_some_iff] at found
    obtain ⟨file, here, rfl⟩ := found
    obtain ⟨inside, rfl⟩ := List.getElem?_eq_some_iff.mp here
    obtain ⟨positive, bound, _⟩ := sizes files[p] (List.getElem_mem inside)
    obtain ⟨front, back, split, place⟩ := size_table_split files p inside
    have word := @word_at_of host (header ++ front) (back ++ copied) files[p].length p (by omega)
      (by rw [List.length_append, size, place])
    have whole : header ++ front ++ wordBytes files[p].length ++ (back ++ copied) =
        header ++ (sizeTable files ++ copied) := by
      rw [split]
      simp only [List.append_assoc]
    rw [whole] at word
    rw [entry p _ word, decide_eq_true (by omega)]
  · have place : (files.flatMap fun file => wordBytes file.length).length = 4 * files.length := by
      simp [List.length_flatMap, Nat.mul_comm]
    have word := @word_at_of host (header ++ files.flatMap fun file => wordBytes file.length) copied 0
      files.length (by decide) (by rw [List.length_append, size, place])
    have whole : header ++ (files.flatMap fun file => wordBytes file.length) ++ wordBytes 0 ++ copied =
        header ++ (sizeTable files ++ copied) := by
      rw [sizeTable]
      simp only [List.append_assoc]
    rw [whole] at word
    rw [List.length_map]
    exact ⟨0, entry _ _ word⟩

end Table

/-! ### The listing against the parts -/

section Right
variable {xflag : Bool} {files : List (List UInt8)}

def storedLengths (xflag : Bool) (files : List (List UInt8)) : List Nat :=
  files.map fun file => (storedBytes xflag file).length

theorem listing_length (script : Bool) (i pos : Nat) (sizes : List Nat) :
    (listing script i pos sizes).length = sizes.length := by
  induction sizes generalizing i pos with
  | nil => rfl
  | cons size rest inductive_hypothesis =>
      rw [listing, List.length_cons, inductive_hypothesis, List.length_cons]

theorem listing_sizes (script : Bool) (i pos : Nat) (sizes : List Nat) :
    (listing script i pos sizes).map Listed.size = sizes := by
  induction sizes generalizing i pos with
  | nil => rfl
  | cons size rest inductive_hypothesis =>
      rw [listing, List.map_cons, inductive_hypothesis]

/-- Without a second part, or in an image of the other type, no offset is printed. -/
theorem listing_plain {script : Bool} (sizes : List Nat) (i pos : Nat)
    (plain : script = false ∨ i = 0 ∧ sizes.length = 1) :
    ∀ entry ∈ listing script i pos sizes, entry.offset = none := by
  induction sizes generalizing i pos with
  | nil => exact fun _ member => absurd member List.not_mem_nil
  | cons size rest inductive_hypothesis =>
      rw [listing, List.forall_mem_cons]
      rcases plain with rfl | ⟨rfl, single⟩
      · exact ⟨by simp, inductive_hypothesis _ _ (.inl rfl)⟩
      · rw [List.eq_nil_of_length_eq_zero (Nat.succ.inj single)]
        exact ⟨by simp, fun _ member => absurd member List.not_mem_nil⟩

theorem round_up_tail {size : Nat} (small : size < 2 ^ 31) :
    (size + 3) % 2 ^ 32 / 4 * 4 = size + tailBytes size := by
  unfold tailBytes
  split <;> omega

/-- What is listed is right where the lengths are and no offset is printed. -/
theorem listed_right_iff {script : Bool} {pos : Nat} {sizes : List Nat} (some_file : files ≠ [])
    (wrong : sizes = storedLengths xflag files → 2 ≤ files.length → ∀ first, sizes[0]? = some first →
      (pos + (first + 3) % 2 ^ 32 / 4 * 4) % 2 ^ 32 ≠ partOffset xflag files 1) :
    ListedRight xflag files (listing script 0 pos sizes) ↔
      sizes = storedLengths xflag files ∧ (script = false ∨ files.length = 1) := by
  have positive := List.length_pos_of_ne_nil some_file
  constructor
  · rintro ⟨count, right⟩
    have lengths : sizes = storedLengths xflag files := by
      rw [← listing_sizes script 0 pos sizes]
      apply List.ext_getElem
      · rw [List.length_map, count, storedLengths, List.length_map]
      · intro p inside within
        rw [List.length_map] at inside
        rw [storedLengths, List.length_map] at within
        simp only [List.getElem_map, storedLengths]
        exact (right p files[p] _ (List.getElem?_eq_getElem within) (List.getElem?_eq_getElem inside)).1
    refine ⟨lengths, ?_⟩
    by_contra printed
    rw [not_or, Bool.not_eq_false] at printed
    obtain ⟨rfl, several⟩ := printed
    rw [listing_length] at count
    obtain ⟨first, rest, rfl⟩ := List.exists_cons_of_length_pos (l := sizes) (by omega)
    rw [List.length_cons] at count
    obtain ⟨second, rest, rfl⟩ := List.exists_cons_of_length_pos (l := rest) (by omega)
    have inside : 1 < files.length := by omega
    have entry := (right 1 files[1] _ (List.getElem?_eq_getElem inside) rfl).2 _ rfl
    exact wrong lengths inside first rfl entry
  · rintro ⟨lengths, plain⟩
    have same : sizes.length = files.length := by rw [lengths, storedLengths, List.length_map]
    refine ⟨by rw [listing_length, same], fun p file entry here listed => ⟨?_, ?_⟩⟩
    · have size : sizes[p]? = some entry.size := by
        rw [← listing_sizes script 0 pos sizes, List.getElem?_map, listed]
        rfl
      rw [lengths, storedLengths, List.getElem?_map, here] at size
      exact (Option.some.inj size).symm
    · have none := listing_plain sizes 0 pos (plain.imp id fun one => ⟨rfl, same.trans one⟩) entry
        (List.mem_of_getElem? listed)
      rw [none]
      exact fun _ member => nomatch member

/-- With -x every part is shorter than its length in the table. -/
theorem stored_lengths_iff {copied : List UInt8} (written : copyFiles xflag files = some copied) :
    storedLengths xflag files = files.map List.length ↔ xflag = false := by
  obtain ⟨nonempty, sizes⟩ := copy_files_sizes written
  constructor
  · intro same
    by_contra xip
    rw [Bool.not_eq_false] at xip
    obtain ⟨file, rest, rfl⟩ := List.exists_cons_of_ne_nil nonempty
    have first := (List.cons.inj same).1
    have long := (sizes file List.mem_cons_self).2.2 xip
    simp only [storedBytes, xip, if_true, List.length_drop, sizeofImageHeader] at first long
    omega
  · rintro rfl
    rfl

end Right

/-- What mkimage writes. -/
theorem mkimage_of_some {type : UInt8} {options : Options} {time : UInt32} {files : List (List UInt8)}
    {image : List UInt8} (made : mkimageOf type options time files = some image) :
    ∃ copied, copyFiles options.xflag files = some copied ∧
      sizeofImageHeader + (sizeTable files ++ copied).length < 2 ^ 31 ∧
      image = (typedHeader type options time (sizeTable files ++ copied)).bytes ++
        (sizeTable files ++ copied) := by
  unfold mkimageOf at made
  split at made
  · cases made
  · split at made
    · cases made
    · rename_i copied written
      dsimp only at made
      split at made
      · cases made
      · rename_i fits
        exact ⟨copied, written, Nat.lt_of_not_le fits, (Option.some.inj made).symm⟩

theorem typed_byte (type : UInt8) (options : Options) (time : UInt32) (data rest : List UInt8) :
    ((typedHeader type options time data).bytes ++ rest)[30]? = some type := by
  rw [List.getElem?_append_left (by rw [header_length]; decide)]
  rfl

/-- The first of several parts is there with its padding. -/
theorem copied_first {xflag : Bool} {files : List (List UInt8)} {copied : List UInt8}
    (written : copyFiles xflag files = some copied) (several : 2 ≤ files.length) :
    ∃ file, files[0]? = some file ∧ padded xflag file ≤ copied.length := by
  match files, several with
  | file :: second :: rest, _ =>
      refine ⟨file, rfl, ?_⟩
      unfold copyFiles at written
      split at written
      · cases written
      · rename_i bytes first
        obtain ⟨tail, _, rfl⟩ := Option.map_eq_some_iff.mp written
        obtain ⟨_, _, _, rfl⟩ := copy_file_some first
        simp [padded]

/-- The offset of the second part is counted without the word that ends the table, or with words of
64 bits. -/
theorem offset_wrong {host : Host} {xflag : Bool} {files : List (List UInt8)} {copied : List UInt8}
    {sizes : List Nat} (written : copyFiles xflag files = some copied)
    (short : sizeofImageHeader + (sizeTable files ++ copied).length < 2 ^ 31)
    (lengths : sizes = storedLengths xflag files) (several : 2 ≤ files.length) {first : Nat}
    (here : sizes[0]? = some first) :
    ((sizeofImageHeader + sizes.length * host.sizeofLong) % 2 ^ 32 +
        (first + 3) % 2 ^ 32 / 4 * 4) % 2 ^ 32 ≠ partOffset xflag files 1 := by
  obtain ⟨file, found, room⟩ := copied_first written several
  have size : first = (storedBytes xflag file).length := by
    rw [lengths, storedLengths, List.getElem?_map, found] at here
    exact (Option.some.inj here).symm
  have count : sizes.length = files.length := by rw [lengths, storedLengths, List.length_map]
  have begins : files.take 1 = [file] := by
    cases files with
    | nil => cases found
    | cons head rest =>
        cases found
        rfl
  rw [List.length_append, size_table_length] at short
  have rounded := @round_up_tail first (by rw [size]; unfold padded at room; omega)
  have offset : partOffset xflag files 1 =
      sizeofImageHeader + (4 * files.length + 4) + padded xflag file := by
    rw [partOffset, size_table_length, begins]
    simp
  rw [rounded, offset, count, padded, size]
  rw [padded] at room
  unfold Host.sizeofLong
  split <;> omega

section Images
variable {type : UInt8} {host : Host} {options : Options} {time : UInt32} {files : List (List UInt8)}
  {image : List UInt8}

/-- The listing is right where the entries are the lengths of the parts and no offset is printed. -/
theorem listed_iff_entries (several : type = ihTypeMulti ∨ type = ihTypeScript)
    (made : mkimageOf type options time files = some image) :
    (∃ listed, printHeader host image = some listed ∧ ListedRight options.xflag files listed) ↔
      EntriesFrom host image 0 (storedLengths options.xflag files) ∧
        (type = ihTypeMulti ∨ files.length = 1) := by
  obtain ⟨copied, written, short, same⟩ := mkimage_of_some made
  have typed : image[30]? = some type := by
    rw [same]
    exact typed_byte type options time _ _
  have plain : decide (type = ihTypeScript) = false ↔ type = ihTypeMulti := by
    rcases several with rfl | rfl <;> decide
  have right := fun sizes => @listed_right_iff options.xflag files (decide (type = ihTypeScript))
    ((sizeofImageHeader + sizes.length * host.sizeofLong) % 2 ^ 32) sizes (copy_files_sizes written).1
    (fun lengths many first here => offset_wrong written short lengths many here)
  constructor
  · rintro ⟨listed, printed, good⟩
    obtain ⟨sizes, entries, rfl⟩ := (print_header_iff typed several listed).mp printed
    obtain ⟨rfl, no_offset⟩ := (right sizes).mp good
    exact ⟨entries, no_offset.imp plain.mp id⟩
  · rintro ⟨entries, no_offset⟩
    refine ⟨_, (print_header_iff typed several _).mpr ⟨_, entries, rfl⟩, ?_⟩
    exact (right _).mpr ⟨rfl, no_offset.imp plain.mpr id⟩

/-- The listing is right only without offsets, on a host with 32 bits without -x, and on one with 64
bits where the words behind the header happen to pair up. -/
theorem print_header_lists_iff (several : type = ihTypeMulti ∨ type = ihTypeScript)
    (made : mkimageOf type options time files = some image) :
    (∃ listed, printHeader host image = some listed ∧ ListedRight options.xflag files listed) ↔
      (type = ihTypeMulti ∨ files.length = 1) ∧
        if host.wide then PairsSpell host image (storedLengths options.xflag files)
        else options.xflag = false := by
  rw [listed_iff_entries several made, and_comm]
  refine and_congr_right fun _ => ?_
  cases wide : host.wide with
  | true =>
      rw [if_pos rfl]
      exact entries_wide wide _
  | false =>
      obtain ⟨copied, written, _, same⟩ := mkimage_of_some made
      have table := entries_narrow wide written
        (header_length (typedHeader type options time (sizeTable files ++ copied)))
      rw [if_neg Bool.false_ne_true, ← stored_lengths_iff written, same]
      constructor
      · intro entries
        exact entries_unique entries table
      · intro lengths
        rw [lengths]
        exact table

end Images

def plainOptions : Options where
  arch := 5
  os := 5
  comp := ihCompNone
  addr := 0
  ep := 0
  eflag := false
  xflag := false
  name := []

/-- Two parts on a host with 32 bits. -/
theorem two_parts_listed : ∃ image, mkimageOf ihTypeMulti plainOptions 0 [[1, 2], [3]] = some image ∧
    ∃ listed, printHeader ⟨false, false, 4096⟩ image = some listed ∧
      ListedRight false [[1, 2], [3]] listed := by
  have made : ∃ image, mkimageOf ihTypeMulti plainOptions 0 [[1, 2], [3]] = some image := ⟨_, rfl⟩
  obtain ⟨image, made⟩ := made
  exact ⟨image, made, (print_header_lists_iff (.inl rfl) made).mpr ⟨.inl rfl, rfl⟩⟩

/-- In a script image the offset of the second part is four bytes short. -/
theorem script_offset_short : ∃ image, mkimageOf ihTypeScript plainOptions 0 [[1, 2], [3]] = some image ∧
    ¬ ∃ listed, printHeader ⟨false, false, 4096⟩ image = some listed ∧
      ListedRight false [[1, 2], [3]] listed := by
  have made : ∃ image, mkimageOf ihTypeScript plainOptions 0 [[1, 2], [3]] = some image := ⟨_, rfl⟩
  obtain ⟨image, made⟩ := made
  refine ⟨image, made, fun right => ?_⟩
  obtain ⟨_, plain | single⟩ := (listed_iff_entries (.inr rfl) made).mp right
  · revert plain
    decide
  · cases single

end UBoot.Image.PrintHeader
