import UBoot.Mtd.PartText

/-!
part_parse, device_parse and parse_mtdparts on a text that generate_mtdparts wrote: they read the
devices and their partitions back, or refuse the text.
-/

namespace UBoot.Mtd.PartRead

open Lib.Strings MtdParts PartLists PartText

/-! ### Numbers -/

theorem digit_char (d : Nat) (digit : d < 10) :
    UInt8.ofNat (Nat.digitChar d).toNat = UInt8.ofNat (48 + d) := by
  interval_cases d <;> rfl

theorem decimal_eq (n : Nat) :
    decimal n = (if n < 10 then [] else decimal (n / 10)) ++ [UInt8.ofNat (48 + n % 10)] := by
  unfold decimal
  rw [Nat.toDigits_eq_if (by decide)]
  split
  · rename_i digit
    rw [List.map_singleton, digit_char n digit, Nat.mod_eq_of_lt digit, List.nil_append]
  · rw [List.map_append, List.map_singleton, digit_char _ (Nat.mod_lt n (by decide))]

theorem digit_read (d result : Nat) (digit : d < 10) (tail : List UInt8) :
    strtoulLoop 10 (UInt8.ofNat (48 + d) :: tail) result =
      strtoulLoop 10 tail ((result * 10 + d) % 2 ^ 32) := by
  have reads : isxdigit (UInt8.ofNat (48 + d)) = true ∧ digitValue (UInt8.ofNat (48 + d)) = d := by
    interval_cases d <;> decide
  rw [strtoulLoop, reads.1, reads.2, Bool.true_and, if_pos (decide_eq_true digit)]

/-- simple_strtoul reads a decimal number back. -/
theorem decimal_read (n : Nat) (tail : List UInt8) :
    strtoulLoop 10 (decimal n ++ tail) 0 = strtoulLoop 10 tail (n % 2 ^ 32) := by
  induction n using Nat.strong_induction_on generalizing tail with
  | _ n inductive_hypothesis =>
      rw [decimal_eq]
      split
      · rename_i digit
        rw [List.nil_append, List.singleton_append, Nat.mod_eq_of_lt digit, digit_read _ _ digit,
          Nat.zero_mul, Nat.zero_add]
      · rename_i large
        rw [List.append_assoc, List.singleton_append, inductive_hypothesis (n / 10) (by omega),
          digit_read _ _ (Nat.mod_lt n (by decide))]
        refine congrArg (strtoulLoop 10 tail) ?_
        omega

theorem decimal_head (n : Nat) :
    ∃ c rest, decimal n = c :: rest ∧ isdigit c = true ∧ (0 < n → c ≠ 48) := by
  induction n using Nat.strong_induction_on with
  | _ n inductive_hypothesis =>
      rw [decimal_eq]
      split
      · rename_i digit
        refine ⟨_, [], rfl, ?_⟩
        interval_cases n <;> decide
      · rename_i large
        obtain ⟨c, rest, front, digit, not_zero⟩ := inductive_hypothesis (n / 10) (by omega)
        exact ⟨c, rest ++ _, by rw [front]; rfl, digit, fun _ => not_zero (by omega)⟩

theorem strtoul_decimal (n : Nat) (positive : 0 < n) (tail : List UInt8) :
    simpleStrtoul (decimal n ++ tail) 0 = strtoulLoop 10 tail (n % 2 ^ 32) := by
  obtain ⟨c, rest, front, -, leading⟩ := decimal_head n
  have not_zero := leading positive
  have decimal_base : simpleStrtoul (decimal n ++ tail) 0 = strtoulLoop 10 (decimal n ++ tail) 0 := by
    rw [front, List.cons_append]
    unfold simpleStrtoul
    split
    · rename_i same
      exact absurd (List.cons_eq_cons.mp same).1 not_zero
    · rename_i same
      exact absurd (List.cons_eq_cons.mp same).1 not_zero
    · rfl
  rw [decimal_base, decimal_read]

/-- What stands behind a size or an offset in the text. -/
def Ends (tail : List UInt8) : Prop :=
  ∀ c ∈ tail.head?, c = 44 ∨ c = 59 ∨ c = 64 ∨ c = 40 ∨ c = 114

theorem number_ends (n : Nat) {tail : List UInt8} (ends : Ends tail) :
    strtoulLoop 10 tail n = ⟨n, tail⟩ := by
  cases tail with
  | nil => rfl
  | cons c rest =>
      have stops : isxdigit c = false := by
        rcases ends c rfl with rfl | rfl | rfl | rfl | rfl <;> decide
      rw [strtoulLoop, stops, Bool.false_and, if_neg Bool.false_ne_true]

theorem letter_ends (base n : Nat) {c : UInt8} (letter : isxdigit c = false) (tail : List UInt8) :
    strtoulLoop base (c :: tail) n = ⟨n, c :: tail⟩ := by
  rw [strtoulLoop, letter, Bool.false_and, if_neg Bool.false_ne_true]

/-- A number with its letter; zero has the letter of the gigabytes. -/
theorem strtoul_letter (n : Nat) (small : n < 2 ^ 32) {c : UInt8} (letter : isxdigit c = false)
    (named : 0 < n ∨ c = 103) (tail : List UInt8) :
    simpleStrtoul (decimal n ++ c :: tail) 0 = ⟨n, c :: tail⟩ := by
  rcases Nat.eq_zero_or_pos n with rfl | positive
  · obtain rfl := named.resolve_left (Nat.lt_irrefl 0)
    exact letter_ends 8 0 letter tail
  · rw [strtoul_decimal n positive, Nat.mod_eq_of_lt small]
    exact letter_ends 10 n letter tail

/-- memsize_parse reads back what memsize_format wrote. -/
theorem memsize_read (size : UInt32) {tail : List UInt8} (ends : Ends tail) :
    memsizeParse (memsizeFormat size ++ tail) = ⟨size.toNat, tail⟩ := by
  have bound := size.toNat_lt
  unfold memsizeParse memsizeFormat
  split
  · rename_i gigabytes
    have whole : size.toNat / sizeGb * 2 ^ 30 = size.toNat :=
      Nat.div_mul_cancel (Nat.dvd_of_mod_eq_zero gigabytes)
    rw [List.append_assoc, show ascii "g" ++ tail = 103 :: tail from rfl,
      strtoul_letter _ (by omega) rfl (.inr rfl)]
    dsimp only
    rw [if_pos (.inr rfl), whole, Nat.mod_eq_of_lt bound]
  · rename_i not_gigabytes
    have positive : 0 < size.toNat := by
      rcases Nat.eq_zero_or_pos size.toNat with zero | positive
      · rw [zero] at not_gigabytes
        exact absurd rfl not_gigabytes
      · exact positive
    split
    · rename_i megabytes
      have whole : size.toNat / sizeMb * 2 ^ 20 = size.toNat :=
        Nat.div_mul_cancel (Nat.dvd_of_mod_eq_zero megabytes)
      rw [List.append_assoc, show ascii "m" ++ tail = 109 :: tail from rfl,
        strtoul_letter _ (by omega) rfl (.inl (by omega))]
      dsimp only
      rw [if_neg (by decide), if_pos (.inr rfl), whole, Nat.mod_eq_of_lt bound]
    · split
      · rename_i kilobytes
        have whole : size.toNat / sizeKb * 2 ^ 10 = size.toNat :=
          Nat.div_mul_cancel (Nat.dvd_of_mod_eq_zero kilobytes)
        rw [List.append_assoc, show ascii "k" ++ tail = 107 :: tail from rfl,
          strtoul_letter _ (by omega) rfl (.inl (by omega))]
        dsimp only
        rw [if_neg (by decide), if_neg (by decide), if_pos (.inr rfl), whole, Nat.mod_eq_of_lt bound]
      · rw [strtoul_decimal _ positive, Nat.mod_eq_of_lt bound, number_ends _ ends]
        dsimp only
        cases tail with
        | nil => rfl
        | cons c rest =>
            have no_letter := ends c rfl
            dsimp only
            rw [if_neg (by rcases no_letter with rfl | rfl | rfl | rfl | rfl <;> decide),
              if_neg (by rcases no_letter with rfl | rfl | rfl | rfl | rfl <;> decide),
              if_neg (by rcases no_letter with rfl | rfl | rfl | rfl | rfl <;> decide)]

theorem memsize_head (size : UInt32) :
    ∃ c rest, memsizeFormat size = c :: rest ∧ isdigit c = true := by
  have number (n : Nat) (text : List UInt8) :
      ∃ c rest, decimal n ++ text = c :: rest ∧ isdigit c = true := by
    obtain ⟨c, rest, front, digit, -⟩ := decimal_head n
    exact ⟨c, rest ++ text, by rw [front]; rfl, digit⟩
  unfold memsizeFormat
  split
  · exact number _ _
  · split
    · exact number _ _
    · split
      · exact number _ _
      · obtain ⟨c, rest, front, digit, -⟩ := decimal_head size.toNat
        exact ⟨c, rest, front, digit⟩

/-! ### A definition -/

/-- What stands behind a definition. -/
def Closes (tail : List UInt8) : Prop := ∀ c ∈ tail.head?, c = 44 ∨ c = 59

theorem Closes.ends {tail : List UInt8} (closes : Closes tail) : Ends tail := by
  intro c head
  rcases closes c head with comma | semicolon
  · exact .inl comma
  · exact .inr (.inl semicolon)

def offsetText (prevPart : Option PartInfo) (part : PartInfo) : List UInt8 :=
  if Gap prevPart part then ascii "@" ++ memsizeFormat part.offset else []

def nameText (part : PartInfo) : List UInt8 :=
  if part.autoName = 0 then ascii "(" ++ part.name ++ ascii ")" else []

def flagText (part : PartInfo) : List UInt8 := if part.maskFlags ≠ 0 then ascii "ro" else []

/-- A definition, without the comma. -/
def partText (prevPart : Option PartInfo) (part : PartInfo) : List UInt8 :=
  memsizeFormat part.size ++ (offsetText prevPart part ++ (nameText part ++ flagText part))

/-- What part_parse makes of the definition. -/
def defOf (prevPart : Option PartInfo) (part : PartInfo) : PartInfo :=
  let offset := if Gap prevPart part then part.offset else offsetNotSpecified
  { part with
    name := if part.autoName = 0 then part.name
      else ascii "0x" ++ hex08 part.size ++ ascii "@0x" ++ hex08 offset
    offset := offset }

section Definition
variable {part : PartInfo} {tail : List UInt8}

theorem flag_head (closes : Closes tail) :
    ∀ c ∈ (flagText part ++ tail).head?, c = 44 ∨ c = 59 ∨ c = 114 := by
  intro c head
  unfold flagText at head
  split at head
  · cases head
    exact .inr (.inr rfl)
  · rcases closes c head with comma | semicolon
    · exact .inl comma
    · exact .inr (.inl semicolon)

theorem name_head (closes : Closes tail) :
    ∀ c ∈ (nameText part ++ (flagText part ++ tail)).head?, c = 44 ∨ c = 59 ∨ c = 40 ∨ c = 114 := by
  intro c head
  unfold nameText at head
  split at head
  · cases head
    exact .inr (.inr (.inl rfl))
  · rcases flag_head closes c head with comma | semicolon | ro
    · exact .inl comma
    · exact .inr (.inl semicolon)
    · exact .inr (.inr (.inr ro))

theorem name_ends (closes : Closes tail) : Ends (nameText part ++ (flagText part ++ tail)) := by
  intro c head
  rcases name_head closes c head with comma | semicolon | name | ro
  · exact .inl comma
  · exact .inr (.inl semicolon)
  · exact .inr (.inr (.inr (.inl name)))
  · exact .inr (.inr (.inr (.inr ro)))

theorem size_read (size : UInt32) (ends : Ends tail) :
    parseSize (memsizeFormat size ++ tail) = if size < minPartSize then none else some (size, tail) := by
  obtain ⟨c, rest, front, digit⟩ := memsize_head size
  have plain : parseSize (memsizeFormat size ++ tail) =
      if UInt32.ofNat (memsizeParse (memsizeFormat size ++ tail)).value < minPartSize then none
      else some (UInt32.ofNat (memsizeParse (memsizeFormat size ++ tail)).value,
        (memsizeParse (memsizeFormat size ++ tail)).rest) := by
    rw [front, List.cons_append]
    unfold parseSize
    split
    · rename_i same
      rw [(List.cons_eq_cons.mp same).1] at digit
      exact absurd digit (by decide)
    · rfl
  rw [plain, memsize_read size ends, UInt32.ofNat_toNat]

theorem offset_read (prevPart : Option PartInfo) (closes : Closes tail) :
    parseOffset (offsetText prevPart part ++ (nameText part ++ (flagText part ++ tail))) =
      (if Gap prevPart part then part.offset else offsetNotSpecified,
        nameText part ++ (flagText part ++ tail)) := by
  unfold offsetText
  by_cases gap : Gap prevPart part
  · have at_sign (p : List UInt8) : parseOffset (ascii "@" ++ p) =
        (UInt32.ofNat (memsizeParse p).value, (memsizeParse p).rest) := rfl
    rw [if_pos gap, if_pos gap, List.append_assoc, at_sign,
      memsize_read part.offset (name_ends closes), UInt32.ofNat_toNat]
  · rw [if_neg gap, if_neg gap, List.nil_append]
    unfold parseOffset
    split
    · rename_i same
      rcases name_head closes 64 (by rw [same]; rfl) with other | other | other | other <;>
        exact absurd other (by decide)
    · rfl

theorem name_read (parsed : Parsed part) (size offset : UInt32) (closes : Closes tail) :
    parseName size offset (nameText part ++ (flagText part ++ tail)) =
      some (if part.autoName = 0 then part.name
        else ascii "0x" ++ hex08 size ++ ascii "@0x" ++ hex08 offset, part.autoName,
        flagText part ++ tail) := by
  unfold nameText
  by_cases given : part.autoName = 0
  · obtain ⟨some_name, plain⟩ := parsed.name given
    have closed : ascii "(" ++ part.name ++ ascii ")" ++ (flagText part ++ tail) =
        40 :: (part.name ++ 41 :: (flagText part ++ tail)) := by
      rw [List.append_assoc, List.append_assoc]
      rfl
    have opened (rest : List UInt8) : parseName size offset (40 :: rest) =
        (cutAt 41 rest).bind fun cut => if cut.1 = [] then none else some (cut.1, 0, cut.2) := by
      rw [parseName]
      cases cutAt 41 rest <;> rfl
    rw [if_pos given, if_pos given, given, closed, opened, cut_at_first plain, Option.bind_some]
    exact if_neg some_name
  · rw [if_neg given, if_neg given, parsed.auto.resolve_left given, List.nil_append]
    unfold parseName
    split
    · rename_i same
      rcases flag_head closes 40 (by rw [same]; rfl) with other | other | other <;>
        exact absurd other (by decide)
    · rfl

theorem flags_read (parsed : Parsed part) (closes : Closes tail) :
    parseFlags (flagText part ++ tail) = (part.maskFlags, tail) := by
  unfold flagText
  rcases parsed.flags with none_set | writeable
  · rw [none_set, if_neg (fun set => set rfl), List.nil_append]
    unfold parseFlags
    split
    · rcases closes 114 rfl with other | other <;> exact absurd other (by decide)
    · rfl
  · rw [writeable, if_pos (by decide)]
    rfl

theorem part_read (prevPart : Option PartInfo) (parsed : Parsed part) (closes : Closes tail) :
    partParse (partText prevPart part ++ tail) =
      if part.size < minPartSize then none
      else (parseNext part.size tail).map fun rest => (defOf prevPart part, rest) := by
  have ends : Ends (offsetText prevPart part ++ (nameText part ++ (flagText part ++ tail))) := by
    unfold offsetText
    split
    · intro c head
      cases head
      exact .inr (.inr (.inl rfl))
    · exact name_ends closes
  unfold partParse partText
  simp only [List.append_assoc]
  rw [size_read part.size ends]
  by_cases small : part.size < minPartSize
  · rw [if_pos small, if_pos small]
    rfl
  · rw [if_neg small, if_neg small, Option.bind_eq_bind, Option.bind_some, offset_read prevPart closes]
    dsimp only
    rw [name_read parsed _ _ closes, Option.bind_eq_bind, Option.bind_some, flags_read parsed closes]
    cases parseNext part.size tail <;> rfl

end Definition

/-! ### The definitions of a device -/

def partsText (prevPart : Option PartInfo) : List PartInfo → List UInt8
  | [] => []
  | part :: rest =>
      partText prevPart part ++ if rest = [] then [] else 44 :: partsText (some part) rest

def defsOf (prevPart : Option PartInfo) : List PartInfo → List PartInfo
  | [] => []
  | part :: rest => defOf prevPart part :: defsOf (some part) rest

/-- part_parse takes no size below MIN_PART_SIZE, and nothing behind a size that reads as the rest of
the device. -/
def Readable (parts : List PartInfo) : Prop :=
  (∀ part ∈ parts, minPartSize ≤ part.size) ∧ ∀ part ∈ parts.dropLast, part.size ≠ sizeRemaining

instance (parts : List PartInfo) : Decidable (Readable parts) :=
  inferInstanceAs (Decidable (_ ∧ _))

theorem pieces_text (dev : MtdDevice) (prevPart : Option PartInfo) (partCnt : Nat) (part : PartInfo) :
    (partPieces dev prevPart partCnt part).flatten =
      partText prevPart part ++ if partCnt < dev.numParts.toNat then [44] else [] := by
  have optional (condition : Prop) [Decidable condition] (text : List UInt8) :
      (if condition then [text] else []).flatten = if condition then text else [] := by
    split
    · exact List.flatten_singleton
    · rfl
  unfold partPieces partText offsetText nameText flagText
  simp only [List.flatten_append, List.flatten_singleton, optional, List.append_assoc]
  rfl

theorem parts_pieces_text (dev : MtdDevice) (prevPart : Option PartInfo) (partCnt : Nat)
    (parts : List PartInfo) (counted : partCnt + parts.length = dev.numParts.toNat) :
    (partsPieces dev prevPart partCnt parts).flatten = partsText prevPart parts := by
  induction parts generalizing prevPart partCnt with
  | nil => rfl
  | cons part rest inductive_hypothesis =>
      rw [List.length_cons] at counted
      rw [partsPieces, partsText, List.flatten_append, pieces_text,
        inductive_hypothesis (some part) (partCnt + 1) (by omega), List.append_assoc]
      cases rest with
      | nil =>
          rw [List.length_nil] at counted
          rw [if_neg (by omega), if_pos rfl]
          rfl
      | cons next rest =>
          rw [List.length_cons] at counted
          rw [if_pos (by omega), if_neg (List.cons_ne_nil next rest)]
          rfl

theorem part_text_head (prevPart : Option PartInfo) (part : PartInfo) :
    ∃ c rest, partText prevPart part = c :: rest ∧ c ≠ 59 := by
  obtain ⟨c, rest, front, digit⟩ := memsize_head part.size
  refine ⟨c, rest ++ _, by rw [partText, front]; rfl, ?_⟩
  rintro rfl
  exact absurd digit (by decide)

theorem readable_one (part : PartInfo) : Readable [part] ↔ ¬part.size < minPartSize := by
  unfold Readable
  rw [List.forall_mem_singleton, UInt32.not_lt]
  exact and_iff_left fun other member => absurd member List.not_mem_nil

theorem readable_cons (part next : PartInfo) (rest : List PartInfo) :
    Readable (part :: next :: rest) ↔
      ¬part.size < minPartSize ∧ part.size ≠ sizeRemaining ∧ Readable (next :: rest) := by
  unfold Readable
  rw [List.dropLast_cons_of_ne_nil (List.cons_ne_nil next rest), UInt32.not_lt]
  constructor
  · rintro ⟨sizes, inner⟩
    obtain ⟨size, sizes⟩ := List.forall_mem_cons.mp sizes
    obtain ⟨fills, inner⟩ := List.forall_mem_cons.mp inner
    exact ⟨size, fills, sizes, inner⟩
  · rintro ⟨size, fills, sizes, inner⟩
    exact ⟨List.forall_mem_cons.mpr ⟨size, sizes⟩, List.forall_mem_cons.mpr ⟨fills, inner⟩⟩

theorem parse_next_end (size : UInt32) {tail : List UInt8} (closes : ∀ c ∈ tail.head?, c = 59) :
    parseNext size tail = some tail := by
  cases tail with
  | nil => rfl
  | cons c rest =>
      rw [closes c rfl]
      rfl

/-- The loop of device_parse reads the definitions of a device back, or fails. -/
theorem parts_read {parts : List PartInfo} (prevPart : Option PartInfo) {fuel : Nat}
    {tail : List UInt8} (parsed : ∀ part ∈ parts, Parsed part) (enough : parts.length ≤ fuel)
    (some_part : parts ≠ []) (closes : ∀ c ∈ tail.head?, c = 59) :
    partDefs fuel (partsText prevPart parts ++ tail) =
      if Readable parts then some (defsOf prevPart parts, tail) else none := by
  induction parts generalizing prevPart fuel with
  | nil => exact absurd rfl some_part
  | cons part rest inductive_hypothesis =>
      obtain ⟨fuel, rfl⟩ : ∃ less, fuel = less + 1 :=
        Nat.exists_eq_succ_of_ne_zero fun zero => by
          rw [zero] at enough
          exact Nat.not_succ_le_zero _ enough
      have first (more : List UInt8) : partDefs (fuel + 1) (partText prevPart part ++ more) =
          (partParse (partText prevPart part ++ more)).bind fun read =>
            (partDefs fuel read.2).map fun later => (read.1 :: later.1, later.2) := by
        obtain ⟨c, front, head, no_end⟩ := part_text_head prevPart part
        rw [head, List.cons_append]
        exact part_defs_step fuel no_end _
      have part_parsed := parsed part List.mem_cons_self
      rw [partsText, List.append_assoc, first]
      cases rest with
      | nil =>
          have tail_closes : Closes tail := fun c head => .inr (closes c head)
          rw [if_pos rfl, List.nil_append, part_read prevPart part_parsed tail_closes,
            parse_next_end part.size closes]
          by_cases small : part.size < minPartSize
          · rw [if_pos small, if_neg (fun right => (readable_one part).mp right small)]
            rfl
          · rw [if_neg small, if_pos ((readable_one part).mpr small), Option.map_some,
              Option.bind_some, part_defs_end fuel closes]
            rfl
      | cons next rest =>
          have comma_closes : Closes (44 :: partsText (some part) (next :: rest) ++ tail) := by
            intro c head
            cases head
            exact .inl rfl
          rw [if_neg (List.cons_ne_nil next rest), part_read prevPart part_parsed comma_closes,
            List.cons_append]
          by_cases small : part.size < minPartSize
          · rw [if_pos small, if_neg (fun right => ((readable_cons part next rest).mp right).1 small)]
            rfl
          · rw [if_neg small]
            by_cases fills : part.size = sizeRemaining
            · rw [if_neg (fun right => ((readable_cons part next rest).mp right).2.1 fills), parseNext,
                if_pos fills]
              rfl
            · rw [parseNext, if_neg fills, Option.map_some, Option.bind_some]
              rw [inductive_hypothesis (some part)
                (fun other member => parsed other (List.mem_cons_of_mem _ member))
                (Nat.le_of_succ_le_succ enough) (List.cons_ne_nil next rest)]
              by_cases readable : Readable (next :: rest)
              · rw [if_pos readable,
                  if_pos ((readable_cons part next rest).mpr ⟨small, fills, readable⟩)]
                rfl
              · rw [if_neg readable,
                  if_neg (fun right => readable ((readable_cons part next rest).mp right).2.2)]
                rfl

/-! ### The devices -/

def deviceTextOf (dev : MtdIds × List PartInfo) : List UInt8 :=
  dev.1.mtdId ++ 58 :: partsText none dev.2

def devicesTextOf : List (MtdIds × List PartInfo) → List UInt8
  | [] => []
  | dev :: rest => deviceTextOf dev ++ if rest = [] then [] else 59 :: devicesTextOf rest

/-- A device as device_parse leaves it. -/
structure DeviceParsed (mtdids : List MtdIds) (dev : MtdIds × List PartInfo) : Prop where
  known : idFindByMtdId mtdids dev.1.mtdId = some dev.1
  plain : 58 ∉ dev.1.mtdId
  filled : dev.2 ≠ []
  parsed : ∀ part ∈ dev.2, Parsed part

theorem parts_text_length (prevPart : Option PartInfo) (parts : List PartInfo) :
    parts.length ≤ (partsText prevPart parts).length := by
  induction parts generalizing prevPart with
  | nil => exact Nat.zero_le _
  | cons part rest inductive_hypothesis =>
      obtain ⟨c, front, head, -⟩ := part_text_head prevPart part
      rw [partsText, head, List.length_append, List.length_cons, List.length_cons]
      cases rest with
      | nil =>
          rw [List.length_nil]
          omega
      | cons next rest =>
          have later := inductive_hypothesis (some part)
          rw [if_neg (List.cons_ne_nil next rest)]
          simp only [List.length_cons] at later ⊢
          omega

theorem device_read {mtdids : List MtdIds} {dev : MtdIds × List PartInfo} {tail : List UInt8}
    (parsed : DeviceParsed mtdids dev) (closes : ∀ c ∈ tail.head?, c = 59) :
    deviceText mtdids (deviceTextOf dev ++ tail) =
      if Readable dev.2 then some (dev.1, defsOf none dev.2, tail.drop 1) else none := by
  have enough : dev.2.length ≤ (partsText none dev.2 ++ tail).length := by
    rw [List.length_append]
    exact Nat.le_add_right_of_le (parts_text_length none dev.2)
  unfold deviceText deviceTextOf
  rw [List.append_assoc, List.cons_append, cut_at_first parsed.plain, Option.bind_eq_bind,
    Option.bind_some]
  dsimp only
  rw [parsed.known, Option.bind_eq_bind, Option.bind_some,
    parts_read none parsed.parsed enough parsed.filled closes]
  split <;> rfl

theorem devices_text_length (devs : List (MtdIds × List PartInfo)) :
    devs.length ≤ (devicesTextOf devs).length := by
  induction devs with
  | nil => exact Nat.zero_le _
  | cons dev rest inductive_hypothesis =>
      rw [devicesTextOf, deviceTextOf, List.length_append, List.length_append, List.length_cons,
        List.length_cons]
      cases rest with
      | nil =>
          rw [List.length_nil]
          omega
      | cons next rest =>
          rw [if_neg (List.cons_ne_nil next rest)]
          simp only [List.length_cons] at inductive_hypothesis ⊢
          omega

def AllReadable (devs : List (MtdIds × List PartInfo)) : Prop := ∀ dev ∈ devs, Readable dev.2

instance (devs : List (MtdIds × List PartInfo)) : Decidable (AllReadable devs) :=
  inferInstanceAs (Decidable (∀ dev ∈ devs, Readable dev.2))

theorem all_readable_cons (dev : MtdIds × List PartInfo) (rest : List (MtdIds × List PartInfo)) :
    AllReadable (dev :: rest) ↔ Readable dev.2 ∧ AllReadable rest :=
  List.forall_mem_cons

/-- The loop of parse_mtdparts reads the devices back, or fails. -/
theorem devices_read {mtdids : List MtdIds} {devs : List (MtdIds × List PartInfo)} {fuel : Nat}
    (parsed : ∀ dev ∈ devs, DeviceParsed mtdids dev) (enough : devs.length ≤ fuel) :
    deviceTexts mtdids fuel (devicesTextOf devs) =
      if AllReadable devs then some (devs.map fun dev => (dev.1, defsOf none dev.2))
      else none := by
  induction devs generalizing fuel with
  | nil =>
      have none_listed : AllReadable [] := fun dev member => absurd member List.not_mem_nil
      rw [if_pos none_listed]
      exact device_texts_end mtdids fuel
  | cons dev rest inductive_hypothesis =>
      obtain ⟨fuel, rfl⟩ : ∃ less, fuel = less + 1 :=
        Nat.exists_eq_succ_of_ne_zero fun zero => by
          rw [zero] at enough
          exact Nat.not_succ_le_zero _ enough
      have dev_parsed := parsed dev List.mem_cons_self
      have some_text : devicesTextOf (dev :: rest) ≠ [] := by
        rw [devicesTextOf, deviceTextOf, List.append_assoc, List.cons_append]
        exact List.append_ne_nil_of_right_ne_nil _ (List.cons_ne_nil _ _)
      have closes : ∀ c ∈ (if rest = [] then [] else 59 :: devicesTextOf rest).head?, c = 59 := by
        intro c head
        split at head
        · cases head
        · cases head
          rfl
      have behind : (if rest = [] then [] else 59 :: devicesTextOf rest).drop 1 = devicesTextOf rest := by
        split
        · rename_i last
          rw [last]
          rfl
        · rfl
      rw [device_texts_step mtdids fuel some_text, devicesTextOf, device_read dev_parsed closes, behind]
      by_cases readable : Readable dev.2
      · rw [if_pos readable, Option.bind_some, inductive_hypothesis
          (fun other member => parsed other (List.mem_cons_of_mem _ member))
          (Nat.le_of_succ_le_succ enough)]
        by_cases all : AllReadable rest
        · rw [if_pos all, if_pos ((all_readable_cons dev rest).mpr ⟨readable, all⟩)]
          rfl
        · rw [if_neg all, if_neg (fun right => all ((all_readable_cons dev rest).mp right).2)]
          rfl
      · rw [if_neg readable, if_neg (fun right => readable ((all_readable_cons dev rest).mp right).1)]
        rfl

end UBoot.Mtd.PartRead
