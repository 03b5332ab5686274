import UBoot.Library.BigEndian
import UBoot.Library.FirstMax
import UBoot.Lib.Strings

/-!
The search for a boot descriptor record in common/cmd_bdr.c. A record stands at
the beginning or at the end of a 64 KB block; findbdr copies 1024 bytes of it and
walks over the tags in the copy. configs/ap93-hgw.h, which gives the size and the
address of the flash, is not in the repository.
-/

namespace UBoot.Bdr.FindBdr

open Lib.Strings Library.Memory Library.BigEndian Library.FirstMax

structure Layout where
  totalFlashSize : Nat
  flashStartAddress : Nat

/-- `flash x` is the byte at flashaddr(x). -/
abbrev Flash := Int → UInt8

def flashaddr (flash : Flash) (offset : Int) : Nat → UInt8 := fun i => flash (offset + i)

def bdrBeginMagic : Nat := 0xFEEDCAFE

def bdrEndMagic : Nat := 0xFEEDFADE

def bdrBlockSize : Nat := 0x10000

def bdrSize : Nat := 256

/-- bdr_bootaddr and bdr_bootarg. -/
structure Found where
  bootaddr : Nat
  bootarg : Nat → UInt8

inductive Tag where
  | refused
  | stop
  | next (p : Nat) (found : Found)

/-- One turn of the loop of parse_tag, with bdrp at word `p` of the block. -/
def readTag (block : Nat → UInt8) (tags p : Nat) (found : Found) : Tag :=
  let data := word block (4 * p)
  let tagsize : Int := (data % 2 ^ 16 : Nat) - 1
  if tags ≠ data / 2 ^ 24 % 256 ∨ tagsize < 0 then .refused
  else
    match data / 2 ^ 16 % 256 with
    | 1 => if tagsize = 0 then .stop else .refused
    | 2 =>
        if tagsize = 1 then .next (p + 2) { found with bootaddr := word block (4 * (p + 1)) }
        else .refused
    | 3 =>
        if tagsize < 130 then
          .next (p + 1 + tagsize.toNat) { found with
            bootarg := fun i =>
              if i < tagsize.toNat * 4 then block (4 * (p + 1) + i) else found.bootarg i }
        else .refused
    | _ => .next (p + (tagsize.toNat + 1)) found

def parseLoop (block : Nat → UInt8) : (turns tags p : Nat) → Found → Int × Found
  | 0, _, _, found => (-2, found)
  | turns + 1, tags, p, found =>
      match readTag block tags p found with
      | .refused => (-1, found)
      | .stop => (0, found)
      | .next p found => parseLoop block turns (tags + 1) p found

def Found.reset : Found := ⟨0, fun _ => 0⟩

/-- `parse_tag (bdrblock + 4, BDR_SIZE)`, which both callers make. -/
def parseTag (block : Nat → UInt8) : Int × Found := parseLoop block bdrSize 0 4 Found.reset

/-- What findBDRstart returns. -/
def startSequence (flash : Flash) (offset : Int) : Nat :=
  let bottom := flashaddr flash offset
  let size : Nat := 4 * word bottom 4 % 2 ^ 32
  let top := flashaddr flash (offset + size - 16)
  let sequence := word bottom 12
  if word bottom 0 ≠ bdrBeginMagic then 0
  else if size ≤ 32 then 0
  else if size ≥ bdrBlockSize then 0
  else if word top 12 ≠ bdrEndMagic then 0
  else if 4 * word top 8 % 2 ^ 32 ≠ size then 0
  else if sequence = 0 ∨ sequence = 0xffffffff then 0
  else sequence

/-- What findBDRend returns. -/
def endSequence (flash : Flash) (offset : Int) : Nat :=
  let topoffset := offset + bdrBlockSize
  let top := flashaddr flash (topoffset - 16)
  let size : Nat := 4 * word top 8 % 2 ^ 32
  let bottom := flashaddr flash (topoffset - size)
  let sequence := word bottom 12
  if word top 12 ≠ bdrEndMagic then 0
  else if size ≤ 32 then 0
  else if size ≥ bdrBlockSize then 0
  else if word bottom 0 ≠ bdrBeginMagic then 0
  else if 4 * word bottom 4 % 2 ^ 32 ≠ size then 0
  else if sequence = 0 ∨ sequence = 0xffffffff then 0
  else sequence

/-- bdrblock with the copy in it. parse_tag can walk past its end, into what the stack holds. -/
def bdrblock (flash : Flash) (offset : Int) (stack : Nat → UInt8) : Nat → UInt8 := fun i =>
  if i < 4 * bdrSize then flashaddr flash offset i else stack i

structure BdrState where
  seq : Nat
  found : Found

def findBDRstart (flash : Flash) (stack : Nat → UInt8) (offset : Int) (bdr : BdrState) : BdrState :=
  let sequence := startSequence flash offset
  if sequence > bdr.seq then ⟨sequence, (parseTag (bdrblock flash offset stack)).2⟩ else bdr

def findBDRend (flash : Flash) (stack : Nat → UInt8) (offset : Int) (bdr : BdrState) : BdrState :=
  let sequence := endSequence flash offset
  let topoffset := offset + bdrBlockSize
  if sequence > bdr.seq then
    ⟨sequence, (parseTag (bdrblock flash (topoffset - 4 * bdrSize) stack)).2⟩
  else bdr

/-- The two places of the block at `offset` where a record may stand. -/
inductive Place where
  | start (offset : Int)
  | final (offset : Int)

/-- The loop over offset of findbdr. -/
def scanOffsets (layout : Layout) (first : Int) : List Int :=
  (List.range ((layout.totalFlashSize - first + (bdrBlockSize - 1)) / bdrBlockSize).toNat).map
    fun (block : Nat) => first + bdrBlockSize * block

/-- The text in bdr_bootarg. Without a NUL it is not terminated. -/
def argsText (bootarg : Nat → UInt8) : Option (List UInt8) :=
  (cutAt 0 (slice bootarg 0 512)).map Prod.fst

/-- The boot address as findbdr reports it. -/
def reported (layout : Layout) (bootaddr : Nat) : Nat :=
  if bootaddr < layout.totalFlashSize then bootaddr ||| layout.flashStartAddress else bootaddr

/-- The record that findbdr announces: bootcmd is set to bootm with the address, bootargs to the
text. -/
structure Settings where
  seq : Nat
  bootaddr : Nat
  bootargs : Option (List UInt8)
deriving DecidableEq

def Usable (bootaddr : Nat) : Prop := bootaddr ≠ 0xffffffff ∧ bootaddr ≠ 0

instance (bootaddr : Nat) : Decidable (Usable bootaddr) := inferInstanceAs (Decidable (_ ∧ _))

/-- What findbdr does when the loop is over; it returns 0 for `none` and 1 otherwise. -/
def announce (layout : Layout) (bdr : BdrState) : Option Settings :=
  if bdr.seq = 0 ∨ ¬ Usable bdr.found.bootaddr then none
  else some ⟨bdr.seq, reported layout bdr.found.bootaddr, argsText bdr.found.bootarg⟩

/-- The offset that the loop begins with. -/
def firstOffset (layout : Layout) (flashaddr : Nat) : Int :=
  toInt (if flashaddr ≥ layout.flashStartAddress then flashaddr - layout.flashStartAddress
    else flashaddr)

/-- The globals behind the loop of `findbdr (flashaddr)`; `behind` is what each call finds behind
its bdrblock. -/
def scan (layout : Layout) (flash : Flash) (behind : Place → Nat → UInt8) (flashaddr : Nat) :
    BdrState :=
  (scanOffsets layout (firstOffset layout flashaddr)).foldl
    (fun bdr offset =>
      findBDRend flash (behind (.final offset)) offset
        (findBDRstart flash (behind (.start offset)) offset bdr))
    ⟨0, 0xffffffff, fun _ => 0⟩

def findbdr (layout : Layout) (flash : Flash) (behind : Place → Nat → UInt8) (flashaddr : Nat) :
    Option Settings :=
  announce layout (scan layout flash behind flashaddr)

/-! ## The records of the flash -/

inductive Walk where
  | stopped (p : Nat) (found : Found)
  | refused (found : Found)
  | outside

/-- The tags from word `p` on, as far as they lie in front of word `last`. -/
def tagWalk (block : Nat → UInt8) (last : Nat) : (turns tags p : Nat) → Found → Walk
  | 0, _, _, _ => .outside
  | turns + 1, tags, p, found =>
      if last ≤ p then .outside
      else
        match readTag block tags p found with
        | .refused => .refused found
        | .stop => .stopped p found
        | .next p found => tagWalk block last turns (tags + 1) p found

/-- What a complete list of tags says. -/
def Walk.complete : Walk → Option Found
  | .stopped _ found => some found
  | _ => none

/-- What the tags up to the last accepted one say. -/
def Walk.left : Walk → Option Found
  | .stopped _ found => some found
  | .refused found => some found
  | .outside => none

namespace Place

def sequence (flash : Flash) : Place → Nat
  | .start offset => startSequence flash offset
  | .final offset => endSequence flash offset

def size (flash : Flash) : Place → Nat
  | .start offset => 4 * word (flashaddr flash offset) 4 % 2 ^ 32
  | .final offset => 4 * word (flashaddr flash (offset + bdrBlockSize - 16)) 8 % 2 ^ 32

def recordStart (flash : Flash) : Place → Int
  | .start offset => offset
  | .final offset => offset + bdrBlockSize - (Place.final offset).size flash

/-- The offset of the 1024 bytes that are copied. -/
def copyStart : Place → Int
  | .start offset => offset
  | .final offset => offset + bdrBlockSize - 4 * bdrSize

/-- The tags between the header and the trailer. They are numbered in 8 bits. -/
def tags (flash : Flash) (place : Place) : Walk :=
  tagWalk (flashaddr flash (place.recordStart flash)) (place.size flash / 4 - 4) 256 0 4 Found.reset

/-- What a well-formed record says: its header is valid, every tag lies in it, and the tags end
with a stop tag. -/
def record (flash : Flash) (place : Place) : Option Found :=
  if place.sequence flash = 0 then none else (place.tags flash).complete

/-- What parse_tag gets out of the copy alone, if the walk ends inside of it. -/
def copied (flash : Flash) (place : Place) : Option Found :=
  (tagWalk (flashaddr flash place.copyStart) bdrSize bdrSize 0 4 Found.reset).left

end Place

def places (layout : Layout) (flashaddr : Nat) : List Place :=
  (scanOffsets layout (firstOffset layout flashaddr)).flatMap fun offset =>
    [.start offset, .final offset]

section Tags
variable {block other : Nat → UInt8} {last p : Nat}

theorem word_below (same : ∀ i, i < 4 * last → other i = block i) (inside : p < last) :
    word other (4 * p) = word block (4 * p) :=
  word_congr fun i small => same (4 * p + i) (by omega)

theorem read_tag_next {tags q : Nat} {found after : Found}
    (read : readTag block tags p found = .next q after) : p < q := by
  unfold readTag at read
  simp only at read
  split at read
  · cases read
  · split at read
    · split at read <;> cases read
    · split at read <;> cases read
      exact Nat.lt_add_of_pos_right (by decide)
    · split at read <;> cases read
      exact Nat.lt_of_lt_of_le (Nat.lt_succ_self p) (Nat.le_add_right _ _)
    · cases read
      exact Nat.lt_add_of_pos_right (Nat.succ_pos _)

/-- A tag in front of `last` is read from the bytes in front of `last`. -/
theorem read_tag_congr (same : ∀ i, i < 4 * last → other i = block i) (inside : p < last)
    (tags : Nat) (found : Found) {tag : Tag} (read : readTag block tags p found = tag)
    (within : ∀ q after, tag = .next q after → q ≤ last) : readTag other tags p found = tag := by
  subst read
  have data := word_below same inside
  unfold readTag at within ⊢
  simp only [data] at within ⊢
  split
  · rfl
  · rename_i accepted
    rw [if_neg accepted] at within
    split
    · rfl
    · rename_i name
      simp only [name] at within
      split
      · rename_i one
        rw [if_pos one] at within
        have next := within _ _ rfl
        have value : word other (4 * (p + 1)) = word block (4 * (p + 1)) :=
          word_below same (by omega)
        rw [value]
      · rfl
    · rename_i name
      simp only [name] at within
      split
      · rename_i short
        rw [if_pos short] at within
        have next := within _ _ rfl
        congr 2
        funext i
        split
        · exact same _ (by omega)
        · rfl
      · rfl
    · rfl

/-- Where the next tag stands depends on the tag word alone. -/
theorem read_tag_jump (same : word other (4 * p) = word block (4 * p)) {tags q : Nat}
    {found after : Found} (read : readTag block tags p found = .next q after) (start : Found) :
    ∃ after, readTag other tags p start = .next q after := by
  unfold readTag at read ⊢
  simp only [same] at read ⊢
  split at read
  · cases read
  · rename_i accepted
    rw [if_neg accepted]
    split at read
    · split at read <;> cases read
    · rename_i one
      split at read <;> cases read
      rename_i short
      exact ⟨_, if_pos short⟩
    · rename_i name
      split at read <;> cases read
      rename_i short
      exact ⟨_, if_pos short⟩
    · cases read
      exact ⟨_, rfl⟩

/-- A walk that ends in front of `last` is what parse_tag does, whatever follows there. -/
theorem walk_parse (same : ∀ i, i < 4 * last → other i = block i) (turns tags p : Nat)
    (found : Found) {left : Found} (ended : (tagWalk block last turns tags p found).left = some left) :
    (parseLoop other turns tags p found).2 = left := by
  induction turns generalizing tags p found with
  | zero => cases ended
  | succ turns ih =>
      rw [tagWalk] at ended
      split at ended
      · cases ended
      · rename_i inside
        rw [parseLoop]
        have agrees := fun tag =>
          @read_tag_congr block other last p same (Nat.not_le.mp inside) tags found tag
        split at ended
        · rename_i read
          cases ended
          rw [agrees _ read fun _ _ impossible => by cases impossible]
        · rename_i read
          cases ended
          rw [agrees _ read fun _ _ impossible => by cases impossible]
        · rename_i q after read
          have within : q ≤ last := by
            by_contra past
            have outside : (tagWalk block last turns (tags + 1) q after).left = none := by
              cases turns with
              | zero => rfl
              | succ turns => rw [tagWalk, if_pos (by omega)]; rfl
            rw [outside] at ended
            cases ended
          rw [agrees _ read fun _ _ here => by cases here; exact within]
          exact ih (tags + 1) q after ended

/-- A walk that does not end in front of `last` arrives behind it with turns to spare: every tag
takes a word. What stands there decides what parse_tag reads next. -/
theorem walk_leaves (turns tags p : Nat) (found : Found)
    (numbered : tags + 4 ≤ p) (low : tags + 4 ≤ last) (enough : last ≤ p + turns)
    (outside : (tagWalk block last turns tags p found).left = none) :
    ∃ turns' tags' q, last ≤ q ∧ tags' + 4 ≤ last ∧ tags' + turns' = tags + turns ∧
      ∀ other : Nat → UInt8, (∀ i, i < 4 * last → other i = block i) → ∀ start, ∃ after,
        parseLoop other turns tags p start = parseLoop other turns' tags' q after := by
  induction turns generalizing tags p found with
  | zero => exact ⟨0, tags, p, by omega, low, rfl, fun other _ start => ⟨start, rfl⟩⟩
  | succ turns ih =>
      rw [tagWalk] at outside
      split at outside
      · rename_i past
        exact ⟨turns + 1, tags, p, past, low, rfl, fun other _ start => ⟨start, rfl⟩⟩
      · rename_i inside
        have below : p < last := Nat.not_le.mp inside
        split at outside
        · cases outside
        · cases outside
        · rename_i q after read
          have further := read_tag_next read
          obtain ⟨turns', tags', r, past, small, total, arrives⟩ :=
            ih (tags + 1) q after (by omega) (by omega) (by omega) outside
          refine ⟨turns', tags', r, past, small, by omega, ?_⟩
          intro other same start
          obtain ⟨next, jumped⟩ := read_tag_jump (word_below same below) read start
          obtain ⟨final, arrived⟩ := arrives other same next
          exact ⟨final, by rw [parseLoop, jumped]; exact arrived⟩

theorem walk_next {tags q : Nat} {found after : Found} (turns : Nat) (inside : p < last)
    (read : readTag block tags p found = .next q after) :
    tagWalk block last (turns + 1) tags p found = tagWalk block last turns (tags + 1) q after := by
  rw [tagWalk, if_neg (Nat.not_le.mpr inside), read]

theorem walk_stop {tags : Nat} {found : Found} (turns : Nat) (inside : p < last)
    (read : readTag block tags p found = .stop) :
    tagWalk block last (turns + 1) tags p found = .stopped p found := by
  rw [tagWalk, if_neg (Nat.not_le.mpr inside), read]

theorem walk_stopped {turns tags q : Nat} {found left : Found}
    (stopped : tagWalk block last turns tags p found = .stopped q left) : p ≤ q ∧ q < last := by
  induction turns generalizing tags p found with
  | zero => cases stopped
  | succ turns ih =>
      rw [tagWalk] at stopped
      split at stopped
      · cases stopped
      · rename_i inside
        split at stopped
        · cases stopped
        · cases stopped
          exact ⟨le_rfl, Nat.not_le.mp inside⟩
        · rename_i r after read
          have further := read_tag_next read
          have rest := ih stopped
          exact ⟨by omega, rest.2⟩

/-- Only the stop tag has to lie in front of the end. -/
theorem walk_shorter {other turns tags q : Nat} {found left : Found}
    (stopped : tagWalk block last turns tags p found = .stopped q left) (inside : q < other) :
    tagWalk block other turns tags p found = .stopped q left := by
  induction turns generalizing tags p found with
  | zero => cases stopped
  | succ turns ih =>
      have reach := walk_stopped stopped
      rw [tagWalk] at stopped ⊢
      rw [if_neg (by omega)] at stopped ⊢
      cases read : readTag block tags p found with
      | refused =>
          rw [read] at stopped
          cases stopped
      | stop =>
          rw [read] at stopped
          exact stopped
      | next r after =>
          rw [read] at stopped
          exact ih stopped

end Tags

section Headers
variable {flash other : Flash} {offset : Int}

theorem word_flashaddr (flash : Flash) (offset : Int) (skip start : Nat) :
    word (flashaddr flash (offset + skip)) start = word (flashaddr flash offset) (skip + start) := by
  apply word_congr
  intro i _
  unfold flashaddr
  congr 1
  push_cast
  ring

/-- The words of a place are those of its block. -/
theorem word_in_block (same : ∀ x, offset ≤ x → x < offset + bdrBlockSize → other x = flash x)
    {first : Int} {start : Nat} (above : offset ≤ first + start)
    (below : first + start + 4 ≤ offset + bdrBlockSize) :
    word (flashaddr other first) start = word (flashaddr flash first) start := by
  apply word_congr
  intro i small
  unfold flashaddr
  push_cast
  exact same _ (by omega) (by omega)

theorem start_sequence_lt (flash : Flash) (offset : Int) : startSequence flash offset < 0xffffffff := by
  have bound := word_lt (flashaddr flash offset) 12
  unfold startSequence
  simp only
  repeat' split
  all_goals omega

theorem end_sequence_lt (flash : Flash) (offset : Int) : endSequence flash offset < 0xffffffff := by
  have bound := word_lt (flashaddr flash (offset + bdrBlockSize -
    (4 * word (flashaddr flash (offset + bdrBlockSize - 16)) 8 % 2 ^ 32 : Nat))) 12
  unfold endSequence
  simp only
  repeat' split
  all_goals omega

/-- The header of a record at the end of a block repeats the size in the trailer. -/
theorem final_header_size (valid : (Place.final offset).sequence flash ≠ 0) :
    4 * word (flashaddr flash ((Place.final offset).recordStart flash)) 4 % 2 ^ 32 =
      (Place.final offset).size flash := by
  by_contra differs
  rw [Place.recordStart, Place.size] at differs
  apply valid
  rw [Place.sequence, endSequence]
  simp only [ne_eq, differs, not_false_eq_true, if_true, ite_self]

/-- A place is judged by its own block. -/
theorem start_sequence_congr
    (same : ∀ x, offset ≤ x → x < offset + bdrBlockSize → other x = flash x) :
    startSequence other offset = startSequence flash offset := by
  have block : (bdrBlockSize : Int) = 0x10000 := rfl
  have bottom := fun start (early : start ≤ 12) =>
    @word_in_block flash other offset same offset start (by omega) (by omega)
  unfold startSequence
  simp only [bottom 0 (by decide), bottom 4 (by decide), bottom 12 (by decide)]
  generalize 4 * word (flashaddr flash offset) 4 % 2 ^ 32 = size
  by_cases small : size ≤ 32
  · simp only [small, if_true]
  by_cases large : size ≥ bdrBlockSize
  · simp only [large, if_true]
  have below : size < 0x10000 := Nat.not_le.mp large
  have top := fun start (early : start ≤ 12) =>
    @word_in_block flash other offset same (offset + size - 16) start (by omega) (by omega)
  rw [top 12 (by decide), top 8 (by decide)]

theorem end_sequence_congr
    (same : ∀ x, offset ≤ x → x < offset + bdrBlockSize → other x = flash x) :
    endSequence other offset = endSequence flash offset := by
  have block : (bdrBlockSize : Int) = 0x10000 := rfl
  have top := fun start (early : start ≤ 12) =>
    @word_in_block flash other offset same (offset + bdrBlockSize - 16) start (by omega) (by omega)
  unfold endSequence
  simp only [top 8 (by decide), top 12 (by decide)]
  generalize 4 * word (flashaddr flash (offset + bdrBlockSize - 16)) 8 % 2 ^ 32 = size
  by_cases small : size ≤ 32
  · simp only [small, if_true]
  by_cases large : size ≥ bdrBlockSize
  · simp only [large, if_true]
  have below : size < 0x10000 := Nat.not_le.mp large
  have bottom := fun start (early : start ≤ 12) =>
    @word_in_block flash other offset same (offset + bdrBlockSize - size) start (by omega) (by omega)
  rw [bottom 0 (by decide), bottom 4 (by decide), bottom 12 (by decide)]

end Headers

section Copy
variable (flash : Flash)

theorem start_copied {offset : Int} {q : Nat} {found : Found}
    (stopped : (Place.start offset).tags flash = .stopped q found) (inside : q < bdrSize) :
    (Place.start offset).copied flash = some found := by
  have whole := walk_shorter stopped inside
  rw [Place.copied]
  exact congrArg Walk.left whole

theorem final_copied {offset : Int} {q : Nat} {found : Found}
    (stopped : (Place.final offset).tags flash = .stopped q found)
    (size : (Place.final offset).size flash = 4 * bdrSize) :
    (Place.final offset).copied flash = some found := by
  rw [Place.tags, Place.recordStart, size] at stopped
  have inside : q < bdrSize := (walk_stopped stopped).2.trans (by decide)
  have whole := walk_shorter stopped inside
  rw [Place.copied, Place.copyStart]
  exact congrArg Walk.left whole

theorem copied_parse {place : Place} {copy : Found} (copied : place.copied flash = some copy)
    (stack : Nat → UInt8) : (parseTag (bdrblock flash place.copyStart stack)).2 = copy := by
  refine walk_parse ?_ bdrSize 0 4 Found.reset copied
  intro i inside
  rw [bdrblock, if_pos inside]

/-- A BOOTADDR tag and a word that is not a tag. -/
def strayTag (tags bootaddr : Nat) : List UInt8 :=
  wordBytes (tags * 2 ^ 24 + (2 * 2 ^ 16 + 2)) ++ wordBytes bootaddr ++ wordBytes 0

theorem parse_stray {block : Nat → UInt8} {turns tags p bootaddr : Nat} (found : Found)
    (numbered : tags < 256) (small : bootaddr < 2 ^ 32)
    (stored : slice block (4 * p) 12 = strayTag tags bootaddr) :
    (parseLoop block (turns + 2) tags p found).2.bootaddr = bootaddr := by
  have data : word block (4 * p) = tags * 2 ^ 24 + (2 * 2 ^ 16 + 2) :=
    word_middle block (4 * p) _ [] (wordBytes bootaddr ++ wordBytes 0) (by omega)
      (by simpa [strayTag] using stored)
  have value : word block (4 * (p + 1)) = bootaddr :=
    word_middle block (4 * p) _ (wordBytes (tags * 2 ^ 24 + (2 * 2 ^ 16 + 2))) (wordBytes 0) small
      stored
  have behind : word block (4 * (p + 2)) = 0 :=
    word_middle block (4 * p) 0
      (wordBytes (tags * 2 ^ 24 + (2 * 2 ^ 16 + 2)) ++ wordBytes bootaddr) [] (by decide)
      (by simpa [strayTag] using stored)
  have number : (tags * 2 ^ 24 + (2 * 2 ^ 16 + 2)) / 2 ^ 24 % 256 = tags := by omega
  have name : (tags * 2 ^ 24 + (2 * 2 ^ 16 + 2)) / 2 ^ 16 % 256 = 2 := by omega
  have size : (tags * 2 ^ 24 + (2 * 2 ^ 16 + 2)) % 2 ^ 16 = 2 := by omega
  have first : readTag block tags p found = .next (p + 2) { found with bootaddr := bootaddr } := by
    simp only [readTag, data, number, name, size, value]
    norm_num
  have second : readTag block (tags + 1) (p + 2) { found with bootaddr := bootaddr } =
      .refused := by
    simp [readTag, behind]
  rw [parseLoop, first]
  simp only
  rw [parseLoop, second]

/-- Where the walk leaves the copy, the stack can make parse_tag return any boot address. -/
theorem uncopied_parse {place : Place} (uncopied : place.copied flash = none) (bootaddr : Nat)
    (small : bootaddr < 2 ^ 32) : ∃ stack,
      (parseTag (bdrblock flash place.copyStart stack)).2.bootaddr = bootaddr := by
  obtain ⟨turns, tags, q, past, numbered, total, arrives⟩ := walk_leaves bdrSize 0 4 Found.reset
    (by decide) (by decide) (by decide) uncopied
  let stack := splice (fun _ => 0) (4 * q) (strayTag tags bootaddr)
  refine ⟨stack, ?_⟩
  have same : ∀ i, i < 4 * bdrSize →
      bdrblock flash place.copyStart stack i = flashaddr flash place.copyStart i := by
    intro i inside
    rw [bdrblock, if_pos inside]
  obtain ⟨after, arrived⟩ := arrives _ same Found.reset
  have stored : slice (bdrblock flash place.copyStart stack) (4 * q) 12 =
      strayTag tags bootaddr := by
    have tail : slice (bdrblock flash place.copyStart stack) (4 * q) 12 = slice stack (4 * q) 12 := by
      apply slice_congr
      intro i _
      rw [bdrblock, if_neg (by omega)]
    rw [tail]
    exact slice_splice_same (fun _ => 0) (4 * q) (strayTag tags bootaddr)
  unfold bdrSize at numbered total
  obtain ⟨spare, rfl⟩ : ∃ spare, turns = spare + 2 := ⟨turns - 2, by omega⟩
  rw [parseTag, arrived]
  exact parse_stray after (by omega) small stored

end Copy

section Scan
variable (layout : Layout) (flash : Flash) (behind : Place → Nat → UInt8) (flashaddr : Nat)

/-- The globals after parse_tag has been called for a place last. -/
def outcome : Option Place → BdrState
  | none => ⟨0, 0xffffffff, fun _ => 0⟩
  | some place =>
      ⟨place.sequence flash, (parseTag (bdrblock flash place.copyStart (behind place))).2⟩

def note (bdr : BdrState) (place : Place) : BdrState :=
  if place.sequence flash > bdr.seq then outcome flash behind (some place) else bdr

theorem note_outcome (best : Option Place) (place : Place) :
    note flash behind (outcome flash behind best) place =
      outcome flash behind (keep (Place.sequence flash) best place) := by
  have seq : (outcome flash behind best).seq = (best.map (Place.sequence flash)).getD 0 := by
    cases best <;> rfl
  rw [note, keep, seq]
  split <;> rfl

theorem start_outcome (best : Option Place) (offset : Int) :
    findBDRstart flash (behind (.start offset)) offset (outcome flash behind best) =
      outcome flash behind (keep (Place.sequence flash) best (.start offset)) :=
  note_outcome flash behind best (.start offset)

theorem end_outcome (best : Option Place) (offset : Int) :
    findBDRend flash (behind (.final offset)) offset (outcome flash behind best) =
      outcome flash behind (keep (Place.sequence flash) best (.final offset)) :=
  note_outcome flash behind best (.final offset)

theorem fold_outcome (offsets : List Int) (best : Option Place) :
    offsets.foldl (fun bdr offset =>
        findBDRend flash (behind (.final offset)) offset
          (findBDRstart flash (behind (.start offset)) offset bdr)) (outcome flash behind best) =
      outcome flash behind ((offsets.flatMap fun offset => [.start offset, .final offset]).foldl
        (keep (Place.sequence flash)) best) := by
  induction offsets generalizing best with
  | nil => rfl
  | cons offset offsets ih =>
      rw [List.foldl_cons, start_outcome, end_outcome, ih, List.flatMap_cons, List.foldl_append,
        List.foldl_cons, List.foldl_cons, List.foldl_nil]

/-- The candidate whose sequence number bdr_seq ends with. -/
def selected : Option Place := firstMax (Place.sequence flash) (places layout flashaddr)

theorem scan_eq : scan layout flash behind flashaddr =
    outcome flash behind (selected layout flash flashaddr) := by
  rw [scan, selected, firstMax, places, ← fold_outcome, outcome]

theorem findbdr_eq : findbdr layout flash behind flashaddr =
    announce layout (outcome flash behind (selected layout flash flashaddr)) := by
  rw [findbdr, scan_eq]

end Scan

section Search
variable (layout : Layout) (flash : Flash) (flashaddr : Nat)

/-- findbdr announces a well-formed record with the highest sequence number, or fails because
there is no well-formed record. -/
structure Correct (behind : Place → Nat → UInt8) : Prop where
  failed : findbdr layout flash behind flashaddr = none →
    ∀ place ∈ places layout flashaddr, place.record flash = none
  announced : ∀ settings, findbdr layout flash behind flashaddr = some settings →
    ∃ place ∈ places layout flashaddr, ∃ found, place.record flash = some found ∧
      (∀ other ∈ places layout flashaddr, other.record flash ≠ none →
        other.sequence flash ≤ place.sequence flash) ∧
      argsText found.bootarg ≠ none ∧
      settings = ⟨place.sequence flash, reported layout found.bootaddr, argsText found.bootarg⟩

/-- The copy of a place gives the address and the text of the record at another or the same. -/
structure Gives (copy : Found) (top place : Place) : Prop where
  usable : Usable copy.bootaddr
  sequence : place.sequence flash = top.sequence flash
  record : ∃ found, place.record flash = some found ∧
    reported layout copy.bootaddr = reported layout found.bootaddr ∧
    argsText copy.bootarg = argsText found.bootarg ∧ argsText found.bootarg ≠ none

/-- The highest sequence number under a valid header is that of a well-formed record whose tags
the copy holds, or there is no such record and the copy holds no usable address. -/
def Readable : Prop :=
  ∀ top, selected layout flash flashaddr = some top →
    ∃ copy, top.copied flash = some copy ∧
      ((∃ place ∈ places layout flashaddr, Gives layout flash copy top place) ∨
        (¬ Usable copy.bootaddr ∧
          ∀ place ∈ places layout flashaddr, place.record flash = none))

variable {layout flash flashaddr}

theorem findbdr_none {behind : Place → Nat → UInt8}
    (unset : selected layout flash flashaddr = none) :
    findbdr layout flash behind flashaddr = none := by
  rw [findbdr_eq, unset, announce, if_pos]
  exact Or.inl rfl

theorem selected_none (unset : selected layout flash flashaddr = none) :
    ∀ place ∈ places layout flashaddr, place.record flash = none := by
  intro place member
  have invalid := first_max_none _ unset place member
  rw [Place.record, if_pos invalid]

/-- What findbdr announces is the sequence number of the candidate it selected and what parse_tag
made of the copy. -/
theorem findbdr_some (behind : Place → Nat → UInt8) {top : Place} {found : Found}
    (chosen : selected layout flash flashaddr = some top)
    (parsed : (parseTag (bdrblock flash top.copyStart (behind top))).2 = found) :
    findbdr layout flash behind flashaddr =
      if Usable found.bootaddr then
        some ⟨top.sequence flash, reported layout found.bootaddr, argsText found.bootarg⟩
      else none := by
  have positive := (first_max_some _ chosen).positive
  rw [findbdr_eq, chosen, outcome, parsed, announce]
  by_cases usable : Usable found.bootaddr
  · rw [if_pos usable, if_neg]
    rintro (zero | unusable)
    · exact absurd zero (Nat.ne_of_gt positive)
    · exact unusable usable
  · rw [if_neg usable, if_pos (Or.inr usable)]

theorem readable_correct (readable : Readable layout flash flashaddr)
    (behind : Place → Nat → UInt8) : Correct layout flash flashaddr behind := by
  cases chosen : selected layout flash flashaddr with
  | none =>
      have result : findbdr layout flash behind flashaddr = none := findbdr_none chosen
      constructor
      · intro _
        exact selected_none chosen
      · intro settings announced
        rw [result] at announced
        cases announced
  | some top =>
      obtain ⟨copy, copied, held⟩ := readable top chosen
      have result := findbdr_some behind chosen (copied_parse flash copied (behind top))
      rcases held with ⟨place, member, gives⟩ | ⟨unusable, malformed⟩
      · obtain ⟨found, formed, address, text, terminated⟩ := gives.record
        rw [if_pos gives.usable] at result
        constructor
        · intro failed
          rw [result] at failed
          cases failed
        · intro settings announced
          rw [result] at announced
          injection announced with same
          refine ⟨place, member, found, formed, ?_, terminated, ?_⟩
          · intro other candidate _
            rw [gives.sequence]
            exact (is_first_max_mem _ (first_max_some _ chosen)).2 other candidate
          · rw [← same, gives.sequence, address, text]
      · rw [if_neg unusable] at result
        constructor
        · intro _
          exact malformed
        · intro settings announced
          rw [result] at announced
          cases announced

theorem unusable_zero : ¬ Usable 0 := fun usable => usable.2 rfl

theorem usable_one : Usable 1 := ⟨by norm_num, by norm_num⟩

theorem selected_member {top : Place} (chosen : selected layout flash flashaddr = some top) :
    top ∈ places layout flashaddr :=
  (is_first_max_mem _ (first_max_some _ chosen)).1

/-- A well-formed record of the highest sequence number whose copy is complete. -/
theorem well_formed_readable {top : Place} {found : Found}
    (chosen : selected layout flash flashaddr = some top) (formed : top.record flash = some found)
    (copied : top.copied flash = some found) (usable : Usable found.bootaddr)
    (terminated : argsText found.bootarg ≠ none) : Readable layout flash flashaddr := by
  intro other other_chosen
  rw [chosen] at other_chosen
  cases other_chosen
  refine ⟨found, copied, Or.inl ⟨top, selected_member chosen, usable, rfl, ?_⟩⟩
  exact ⟨found, formed, rfl, rfl, terminated⟩

/-- A walk that leaves the copy is at the mercy of the stack. -/
theorem correct_copied {top : Place} (chosen : selected layout flash flashaddr = some top)
    (correct : ∀ behind, Correct layout flash flashaddr behind) : top.copied flash ≠ none := by
  intro uncopied
  obtain ⟨failing, refused⟩ := uncopied_parse flash uncopied 0 (by decide)
  obtain ⟨announcing, accepted⟩ := uncopied_parse flash uncopied 1 (by decide)
  have refuses := findbdr_some (fun _ => failing) chosen rfl
  have announces := findbdr_some (fun _ => announcing) chosen rfl
  rw [refused, if_neg unusable_zero] at refuses
  rw [accepted, if_pos usable_one] at announces
  have without := (correct fun _ => failing).failed refuses
  obtain ⟨place, member, found, formed, -⟩ := (correct fun _ => announcing).announced _ announces
  rw [without place member] at formed
  cases formed

end Search

/-- A block that begins with the words and is erased behind them. -/
def blockOf (words : List Nat) (i : Nat) : UInt8 := ((words.flatMap wordBytes)[i]?).getD 0xff

def goodRecord : List Nat :=
  [bdrBeginMagic, 12, 0, 1, 0x00020002, 0x9f050000, 0x01010001, 0, 0, 0, 12, bdrEndMagic]

/-- Its first tag has size zero. -/
def refusedRecord : List Nat :=
  [bdrBeginMagic, 12, 0, 2, 0, 0, 0, 0, 0, 0, 12, bdrEndMagic]

def twoBlocks : Flash := fun x =>
  if x < 0x10000 then blockOf goodRecord x.toNat else blockOf refusedRecord (x.toNat - 0x10000)

end UBoot.Bdr.FindBdr
