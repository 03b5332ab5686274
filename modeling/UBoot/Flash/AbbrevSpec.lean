import UBoot.Flash.Protection

/-!
The abbreviated specs B:SF[-SL] of erase and protect. simple_strtoul keeps the last 32 bits of a
number and takes 0x in front of it for hexadecimal whatever the base is, and abbrev_spec compares
the result as an int with the upper bounds alone.
-/

namespace UBoot.Flash.AbbrevSpec

open Lib.Strings SectRanges FlashCommands

/-! ### Numbers as they are written -/

/-- The number that the digits write, with no bound. -/
def numberOf (base : Nat) (digits : List UInt8) : Nat :=
  digits.foldl (fun number digit => number * base + digitValue digit) 0

/-- A text that writes a number in decimal. -/
def Decimal (text : List UInt8) (number : Nat) : Prop :=
  text ≠ [] ∧ (∀ c ∈ text, isdigit c = true) ∧ numberOf 10 text = number

/-- A text that writes a number in decimal, or in hexadecimal behind 0x. -/
def Number (text : List UInt8) (number : Nat) : Prop :=
  Decimal text number ∨ ∃ digits, text = 48 :: 120 :: digits ∧ digits ≠ [] ∧
    (∀ c ∈ digits, isxdigit c = true) ∧ numberOf 16 digits = number

/-- All digits of the base are read. -/
theorem strtoul_loop_digits {base : Nat} {digits : List UInt8}
    (valid : ∀ c ∈ digits, (isxdigit c && decide (digitValue c < base)) = true) (result : Nat) :
    strtoulLoop base digits (result % 2 ^ 32) =
      ⟨digits.foldl (fun number digit => number * base + digitValue digit) result % 2 ^ 32, []⟩ := by
  induction digits generalizing result with
  | nil => rfl
  | cons c rest ih =>
      rw [strtoulLoop, if_pos (valid c List.mem_cons_self), List.foldl_cons,
        ← ih fun c member => valid c (List.mem_cons_of_mem _ member)]
      congr 1
      rw [Nat.add_mod, Nat.mul_mod, Nat.mod_mod, ← Nat.mul_mod, ← Nat.add_mod]

/-- Only digits of the base are read. -/
theorem strtoul_loop_valid {base : Nat} {digits : List UInt8} {result : Nat}
    (ended : (strtoulLoop base digits result).rest = []) :
    ∀ c ∈ digits, (isxdigit c && decide (digitValue c < base)) = true := by
  induction digits generalizing result with
  | nil => exact fun c member => absurd member List.not_mem_nil
  | cons c rest ih =>
      rw [strtoulLoop] at ended
      split at ended
      · rename_i valid
        intro other member
        rcases List.mem_cons.mp member with rfl | later
        · exact valid
        · exact ih ended other later
      · cases ended

/-- A decimal text is read to its end; leading zeros are no matter. -/
theorem strtoul_decimal {text : List UInt8} {number : Nat} (written : Decimal text number) :
    simpleStrtoul text 10 = ⟨number % 2 ^ 32, []⟩ := by
  obtain ⟨-, digits, value⟩ := written
  have valid : ∀ c ∈ text, (isxdigit c && decide (digitValue c < 10)) = true := by
    intro c member
    rw [(digit_kinds c).1]
    exact digits c member
  have whole := strtoul_loop_digits valid 0
  unfold simpleStrtoul
  split
  · rename_i c rest
    exact absurd (digits 120 (List.mem_cons_of_mem _ List.mem_cons_self)) (by decide)
  · rename_i rest _
    have tail := strtoul_loop_digits (fun c member => valid c (List.mem_cons_of_mem _ member)) 0
    rw [← value]
    exact tail
  · rw [← value]
    exact whole

theorem strtoul_hex {digits : List UInt8} {number : Nat} (some_digits : digits ≠ [])
    (valid : ∀ c ∈ digits, isxdigit c = true) (value : numberOf 16 digits = number) :
    simpleStrtoul (48 :: 120 :: digits) 10 = ⟨number % 2 ^ 32, []⟩ := by
  have all : ∀ c ∈ digits, (isxdigit c && decide (digitValue c < 16)) = true := by
    intro c member
    rw [(digit_kinds c).2]
    exact valid c member
  obtain ⟨c, rest, rfl⟩ := List.exists_cons_of_ne_nil some_digits
  change (if isxdigit c then strtoulLoop 16 (c :: rest) 0 else _) = _
  rw [if_pos (valid c List.mem_cons_self), ← value]
  exact strtoul_loop_digits all 0

/-- The texts that simple_strtoul reads to their end, and what it makes of them. -/
theorem strtoul_number {text : List UInt8} {number : Nat} (written : Number text number) :
    (simpleStrtoul text 10).malformed text = false ∧
      (simpleStrtoul text 10).value = number % 2 ^ 32 := by
  have some_text : text ≠ [] := by
    rcases written with decimal | ⟨digits, rfl, -⟩
    · exact decimal.1
    · exact List.cons_ne_nil _ _
  have read : simpleStrtoul text 10 = ⟨number % 2 ^ 32, []⟩ := by
    rcases written with decimal | ⟨digits, rfl, some_digits, valid, value⟩
    · exact strtoul_decimal decimal
    · exact strtoul_hex some_digits valid value
  rw [read]
  refine ⟨?_, rfl⟩
  rw [Strtoul.malformed, Bool.or_eq_false_iff]
  exact ⟨beq_eq_false_iff_ne.mpr (Ne.symm some_text), rfl⟩

theorem number_of_strtoul {text : List UInt8}
    (read : (simpleStrtoul text 10).malformed text = false) : ∃ number, Number text number := by
  rw [Strtoul.malformed, Bool.or_eq_false_iff, beq_eq_false_iff_ne, bne_eq_false_iff_eq] at read
  obtain ⟨moved, ended⟩ := read
  have some_text : text ≠ [] := by
    rintro rfl
    exact moved rfl
  have decimal : ∀ digits : List UInt8, (strtoulLoop 10 digits 0).rest = [] →
      ∀ c ∈ digits, isdigit c = true := by
    intro digits ended c member
    rw [← (digit_kinds c).1]
    exact strtoul_loop_valid ended c member
  unfold simpleStrtoul at ended
  split at ended
  · rename_i c rest
    split at ended
    · rename_i hex
      refine ⟨_, Or.inr ⟨c :: rest, rfl, List.cons_ne_nil _ _, ?_, rfl⟩⟩
      intro other member
      rw [← (digit_kinds other).2]
      exact strtoul_loop_valid ended other member
    · exact absurd (decimal _ ended 120 List.mem_cons_self) (by decide)
  · rename_i rest _
    refine ⟨_, Or.inl ⟨some_text, ?_, rfl⟩⟩
    intro c member
    rcases List.mem_cons.mp member with rfl | later
    · decide
    · exact decimal _ ended c later
  · exact ⟨_, Or.inl ⟨some_text, decimal _ ended, rfl⟩⟩

theorem number_unique {text : List UInt8} {number other : Nat} (decimal : Decimal text number)
    (written : Number text other) : other = number := by
  rcases written with again | ⟨digits, rfl, -⟩
  · exact again.2.2.symm.trans decimal.2.2
  · exact absurd (decimal.2.1 120 (List.mem_cons_of_mem _ List.mem_cons_self)) (by decide)

theorem decimal_plain {text : List UInt8} {number : Nat} (decimal : Decimal text number) :
    58 ∉ text ∧ 45 ∉ text :=
  ⟨fun colon => absurd (decimal.2.1 58 colon) (by decide),
    fun dash => absurd (decimal.2.1 45 dash) (by decide)⟩

theorem to_int_mod (n : Nat) : toInt (n % 2 ^ 32) = toInt n := by
  unfold toInt
  omega

theorem to_int_small {n : Nat} (small : n < 2 ^ 31) : toInt n = n := by
  unfold toInt
  omega

/-! ### What abbrev_spec accepts -/

/-- The texts of the three numbers. Without a dash the last sector is the first one. -/
def Parts (str bankText firstText lastText : List UInt8) : Prop :=
  ∃ sectorText, cutAt 58 str = some (bankText, sectorText) ∧
    (cutAt 45 sectorText = some (firstText, lastText) ∨
      cutAt 45 sectorText = none ∧ firstText = sectorText ∧ lastText = sectorText)

/-- The comparisons, on what is left of the numbers in an int. -/
def Passes (banks : List FlashInfo) (bank first last : Nat) : Prop :=
  1 ≤ toInt bank ∧ ∃ info, banks[bank % 2 ^ 32 - 1]? = some info ∧ info.known = true ∧
    toInt first < info.sectorCount ∧ toInt first ≤ toInt last ∧ toInt last < info.sectorCount

section Accepted
variable {banks : List FlashInfo} {str : List UInt8}

theorem abbrev_sectors_iff {fp : FlashInfo} {bank named : Nat} {firstText : List UInt8}
    {lastText : Option (List UInt8)} {sectFirst sectLast : Int} :
    abbrevSectors fp bank firstText lastText = .sectors named sectFirst sectLast ↔
      ∃ first last, Number firstText first ∧ Number (lastText.getD firstText) last ∧
        toInt first < fp.sectorCount ∧ toInt first ≤ toInt last ∧ toInt last < fp.sectorCount ∧
        named = bank ∧ sectFirst = toInt first ∧ sectLast = toInt last := by
  unfold abbrevSectors
  dsimp only
  constructor
  · intro parsed
    split at parsed
    · cases parsed
    · rename_i accepted
      obtain ⟨readable, below⟩ := not_or.mp accepted
      obtain ⟨first, number⟩ := number_of_strtoul (Bool.eq_false_iff.mpr readable)
      rw [(strtoul_number number).2, to_int_mod] at below parsed
      split at parsed
      · cases parsed
        exact ⟨first, first, number, number, Int.not_le.mp below, Int.le_refl _, Int.not_le.mp below, rfl, rfl, rfl⟩
      · split at parsed
        · cases parsed
        · rename_i within
          obtain ⟨readableLast, bounds⟩ := not_or.mp within
          obtain ⟨ordered, inside⟩ := not_or.mp bounds
          obtain ⟨last, numberLast⟩ := number_of_strtoul (Bool.eq_false_iff.mpr readableLast)
          rw [(strtoul_number numberLast).2, to_int_mod] at ordered inside parsed
          cases parsed
          exact ⟨first, last, number, numberLast, Int.not_le.mp below, Int.not_lt.mp ordered,
            Int.not_le.mp inside, rfl, rfl, rfl⟩
  · rintro ⟨first, last, number, numberLast, below, ordered, inside, named, firstIs, lastIs⟩
    rw [named, firstIs, lastIs]
    obtain ⟨readable, value⟩ := strtoul_number number
    obtain ⟨readableLast, valueLast⟩ := strtoul_number numberLast
    rw [readable, value, to_int_mod]
    rw [if_neg fun refused => refused.elim Bool.false_ne_true (Int.not_le.mpr below)]
    cases lastText with
    | none =>
        change Number firstText last at numberLast
        dsimp only
        have same := valueLast.symm.trans value
        rw [← to_int_mod last, same, to_int_mod]
    | some text =>
        change (simpleStrtoul text 10).malformed text = false at readableLast
        change (simpleStrtoul text 10).value = _ at valueLast
        dsimp only
        rw [readableLast, valueLast, to_int_mod, if_neg]
        rintro (bad | less | more)
        · cases bad
        · exact absurd less (Int.not_lt.mpr ordered)
        · exact absurd more (Int.not_le.mpr inside)

theorem abbrev_spec_iff {bank : Nat} {sectFirst sectLast : Int} :
    abbrevSpec banks str = .sectors bank sectFirst sectLast ↔
      ∃ bankText firstText lastText number first last, Parts str bankText firstText lastText ∧
        Number bankText number ∧ Number firstText first ∧ Number lastText last ∧
        Passes banks number first last ∧ bank = number % 2 ^ 32 - 1 ∧
        sectFirst = toInt first ∧ sectLast = toInt last := by
  unfold abbrevSpec
  constructor
  · intro parsed
    split at parsed
    · cases parsed
    · rename_i bankText sectorText colon
      dsimp only at parsed
      split at parsed
      · cases parsed
      · rename_i accepted
        obtain ⟨readable, bounds⟩ := not_or.mp accepted
        obtain ⟨positive, -⟩ := not_or.mp bounds
        obtain ⟨number, written⟩ := number_of_strtoul (Bool.eq_false_iff.mpr readable)
        rw [(strtoul_number written).2, to_int_mod] at positive
        rw [(strtoul_number written).2] at parsed
        split at parsed
        · cases parsed
        · rename_i info there
          split at parsed
          · cases parsed
          · rename_i known
            have identified : info.known = true := by
              rw [← Bool.not_eq_false]
              exact known
            split at parsed
            · rename_i dash
              obtain ⟨first, last, one, other, below, ordered, inside, named, firstIs, lastIs⟩ :=
                abbrev_sectors_iff.mp parsed
              exact ⟨bankText, sectorText, sectorText, number, first, last,
                ⟨sectorText, colon, Or.inr ⟨dash, rfl, rfl⟩⟩, written, one, other,
                ⟨Int.not_lt.mp positive, info, there, identified, below, ordered, inside⟩, named, firstIs,
                lastIs⟩
            · rename_i firstText lastText dash
              obtain ⟨first, last, one, other, below, ordered, inside, named, firstIs, lastIs⟩ :=
                abbrev_sectors_iff.mp parsed
              exact ⟨bankText, firstText, lastText, number, first, last,
                ⟨sectorText, colon, Or.inl dash⟩, written, one, other,
                ⟨Int.not_lt.mp positive, info, there, identified, below, ordered, inside⟩, named, firstIs,
                lastIs⟩
  · rintro ⟨bankText, firstText, lastText, number, first, last, ⟨sectorText, colon, dash⟩, written,
      one, other, ⟨positive, info, there, identified, below, ordered, inside⟩, named, firstIs, lastIs⟩
    rw [named, firstIs, lastIs]
    obtain ⟨readable, value⟩ := strtoul_number written
    have within : ¬ (banks.length : Int) < toInt number := by
      obtain ⟨bound, -⟩ := List.getElem?_eq_some_iff.mp there
      unfold toInt at positive ⊢
      omega
    have accepted : ¬ (false = true ∨ toInt number < 1 ∨ (banks.length : Int) < toInt number) := by
      rintro (bad | low | high)
      · cases bad
      · omega
      · exact within high
    rw [colon]
    dsimp only
    rw [readable, value, to_int_mod, if_neg accepted, there]
    dsimp only
    rw [identified, if_neg (by decide)]
    rcases dash with dash | ⟨dash, rfl, rfl⟩
    · rw [dash]
      exact abbrev_sectors_iff.mpr ⟨first, last, one, other, below, ordered, inside, rfl, rfl, rfl⟩
    · rw [dash]
      exact abbrev_sectors_iff.mpr ⟨first, last, one, other, below, ordered, inside, rfl, rfl, rfl⟩

end Accepted

/-! ### What a spec says -/

/-- B:SF or B:SF-SL, all decimal. -/
def Written (str : List UInt8) (number first last : Nat) : Prop :=
  ∃ bankText firstText, Decimal bankText number ∧ Decimal firstText first ∧
    (str = bankText ++ 58 :: firstText ∧ last = first ∨
      ∃ lastText, Decimal lastText last ∧ str = bankText ++ 58 :: (firstText ++ 45 :: lastText))

/-- The numbers are those of a known bank and of sectors in it. -/
def InBank (banks : List FlashInfo) (number first last : Nat) : Prop :=
  1 ≤ number ∧ ∃ info, banks[number - 1]? = some info ∧ info.known = true ∧
    first ≤ last ∧ last < info.sectorCount

/-- A spec that is accepted is well formed and in range, and its values are delivered; the sectors
that erase hands to flash_erase for it are in the bank, and protect keeps to its table. -/
structure Faithful (banks : List FlashInfo) (str : CString) : Prop where
  spec : ∀ bank sectFirst sectLast,
    abbrevSpec banks str.bytes = .sectors bank sectFirst sectLast →
      ∃ number first last : Nat, Written str.bytes number first last ∧
        InBank banks number first last ∧ bank + 1 = number ∧ sectFirst = first ∧ sectLast = last
  erases : ∀ bank sectFirst sectLast name more,
    abbrevSpec banks str.bytes = .sectors bank sectFirst sectLast →
      ∀ call ∈ (doFlerase banks (name :: str :: more)).calls,
        0 ≤ call.2.1 ∧ call.2.2 < call.1.sectorCount
  protects : ∀ bank sectFirst sectLast p more,
    abbrevSpec banks str.bytes = .sectors bank sectFirst sectLast →
      doProtectTarget banks p str.bytes more ≠ none

/-- The condition on the string: its numbers are decimal and below 2^31, or what is left of them in
an int does not pass the comparisons. -/
def Meets (banks : List FlashInfo) (str : List UInt8) : Prop :=
  ∀ bankText firstText lastText number first last, Parts str bankText firstText lastText →
    Number bankText number → Number firstText first → Number lastText last →
    Passes banks number first last →
      (Decimal bankText number ∧ Decimal firstText first ∧ Decimal lastText last) ∧
        number < 2 ^ 31 ∧ first < 2 ^ 31 ∧ last < 2 ^ 31

theorem written_parts {str : List UInt8} {number first last : Nat}
    (written : Written str number first last) : ∃ bankText firstText lastText,
      Parts str bankText firstText lastText ∧ Decimal bankText number ∧ Decimal firstText first ∧
        Decimal lastText last := by
  obtain ⟨bankText, firstText, bank, one, ⟨rfl, rfl⟩ | ⟨lastText, other, rfl⟩⟩ := written
  · exact ⟨bankText, firstText, firstText, ⟨firstText, cut_at_first (decimal_plain bank).1 _,
      Or.inr ⟨cut_at_none (decimal_plain one).2, rfl, rfl⟩⟩, bank, one, one⟩
  · exact ⟨bankText, firstText, lastText, ⟨_, cut_at_first (decimal_plain bank).1 _,
      Or.inl (cut_at_first (decimal_plain one).2 _)⟩, bank, one, other⟩

theorem parts_unique {str bankText firstText lastText otherBank otherFirst otherLast : List UInt8}
    (parts : Parts str bankText firstText lastText) (others : Parts str otherBank otherFirst otherLast) :
    otherBank = bankText ∧ otherFirst = firstText ∧ otherLast = lastText := by
  obtain ⟨sectors, colon, dash⟩ := parts
  obtain ⟨otherSectors, otherColon, otherDash⟩ := others
  rw [colon] at otherColon
  cases otherColon
  rcases dash with dash | ⟨dash, rfl, rfl⟩
  · rcases otherDash with other | ⟨other, -, -⟩
    · rw [dash] at other
      cases other
      exact ⟨rfl, rfl, rfl⟩
    · rw [dash] at other
      cases other
  · rcases otherDash with other | ⟨-, rfl, rfl⟩
    · rw [dash] at other
      cases other
    · exact ⟨rfl, rfl, rfl⟩

theorem faithful_meets {banks : List FlashInfo} {str : CString} (faithful : Faithful banks str) :
    Meets banks str.bytes := by
  intro bankText firstText lastText number first last parts bank one other passes
  obtain ⟨number', first', last', written, -, delivered, begins, ends⟩ := faithful.spec _ _ _
    (abbrev_spec_iff.mpr ⟨bankText, firstText, lastText, number, first, last, parts, bank, one,
      other, passes, rfl, rfl, rfl⟩)
  obtain ⟨_, _, _, again, bank', one', other'⟩ := written_parts written
  obtain ⟨rfl, rfl, rfl⟩ := parts_unique parts again
  rw [number_unique bank' bank] at passes delivered ⊢
  rw [number_unique one' one] at begins ⊢
  rw [number_unique other' other] at ends ⊢
  have positive := passes.1
  refine ⟨⟨bank', one', other'⟩, ?_, ?_, ?_⟩
  · unfold toInt at positive
    omega
  · unfold toInt at begins
    omega
  · unfold toInt at ends
    omega

theorem parts_written {str bankText firstText lastText : List UInt8} {number first last : Nat}
    (parts : Parts str bankText firstText lastText) (bank : Decimal bankText number)
    (one : Decimal firstText first) (other : Decimal lastText last) :
    Written str number first last := by
  obtain ⟨sectorText, colon, dash⟩ := parts
  refine ⟨bankText, firstText, bank, one, ?_⟩
  rcases dash with dash | ⟨-, rfl, rfl⟩
  · refine Or.inr ⟨lastText, other, ?_⟩
    rw [(cut_at_some colon).1, (cut_at_some dash).1]
  · exact Or.inl ⟨(cut_at_some colon).1, other.2.2.symm.trans one.2.2⟩

theorem meets_spec {banks : List FlashInfo} {str : List UInt8} (meets : Meets banks str) {bank : Nat}
    {sectFirst sectLast : Int} (accepted : abbrevSpec banks str = .sectors bank sectFirst sectLast) :
    ∃ number first last : Nat, Written str number first last ∧ InBank banks number first last ∧
      bank + 1 = number ∧ sectFirst = first ∧ sectLast = last := by
  obtain ⟨bankText, firstText, lastText, number, first, last, parts, written, one, other, passes,
    named, firstIs, lastIs⟩ := abbrev_spec_iff.mp accepted
  rw [named, firstIs, lastIs]
  obtain ⟨⟨bank, firstDecimal, lastDecimal⟩, small, firstSmall, lastSmall⟩ :=
    meets _ _ _ _ _ _ parts written one other passes
  obtain ⟨positive, info, there, identified, below, ordered, inside⟩ := passes
  rw [to_int_small small] at positive
  rw [to_int_small firstSmall, to_int_small lastSmall] at ordered
  rw [to_int_small lastSmall] at inside
  have word : number % 2 ^ 32 = number := Nat.mod_eq_of_lt (by omega)
  rw [word] at there ⊢
  refine ⟨number, first, last, parts_written parts bank firstDecimal lastDecimal,
    ⟨by omega, info, there, identified, by omega, by omega⟩, by omega, ?_, ?_⟩
  · exact to_int_small firstSmall
  · exact to_int_small lastSmall

/-- What the commands do with a spec that is accepted. -/
theorem erase_sectors {banks : List FlashInfo} {str : CString} {bank : Nat} {sectFirst sectLast : Int}
    (accepted : abbrevSpec banks str.bytes = .sectors bank sectFirst sectLast) (name : CString)
    (more : List CString) : (doFlerase banks (name :: str :: more)).calls =
      banks[bank]?.toList.map fun info => (info, sectFirst, sectLast) := by
  have word : str.bytes ≠ ascii "all" := by
    intro all
    rw [all] at accepted
    cases accepted
  unfold doFlerase
  dsimp only
  rw [if_neg word]
  simp only [accepted]

theorem protect_sectors {banks : List FlashInfo} {str : List UInt8} {bank : Nat}
    {sectFirst sectLast : Int} (accepted : abbrevSpec banks str = .sectors bank sectFirst sectLast)
    (p : UInt8) (more : List CString) : doProtectTarget banks p str more =
      if sectFirst < 0 then none
      else some ⟨0, banks.modify bank fun info => protectRange info p sectFirst sectLast⟩ := by
  have word : str ≠ ascii "all" := by
    intro all
    rw [all] at accepted
    cases accepted
  unfold doProtectTarget
  rw [if_neg word]
  simp only [accepted]

/-- A spec is taken as it is written, or refused, exactly when its numbers are decimal and below
2^31 or are refused as an int too. -/
theorem abbrev_spec_faithful_iff (banks : List FlashInfo) (str : CString) :
    Faithful banks str ↔ Meets banks str.bytes := by
  constructor
  · exact faithful_meets
  · intro meets
    refine ⟨fun bank sectFirst sectLast accepted => meets_spec meets accepted, ?_, ?_⟩
    · intro bank sectFirst sectLast name more accepted call member
      obtain ⟨number, first, last, -, ⟨-, info, there, -, -, inside⟩, rfl, rfl, rfl⟩ :=
        meets_spec meets accepted
      rw [erase_sectors accepted] at member
      rw [Nat.add_sub_cancel] at there
      rw [there, Option.toList_some, List.map_singleton, List.mem_singleton] at member
      rw [member]
      exact ⟨Int.natCast_nonneg first, Int.ofNat_lt.mpr inside⟩
    · intro bank sectFirst sectLast p more accepted
      obtain ⟨number, first, last, -, -, -, rfl, -⟩ := meets_spec meets accepted
      rw [protect_sectors accepted, if_neg (Int.not_lt.mpr (Int.natCast_nonneg first))]
      exact Option.some_ne_none _

theorem wrapped_spec_terminated : 0 ∉ ascii "1:4294967295-3" := by decide

/-- `1:4294967295-3`: the first sector is minus one. -/
def wrappedSpec : CString := ⟨ascii "1:4294967295-3", wrapped_spec_terminated⟩

/-- It is accepted on the board, though it has not so many sectors, and minus one goes to
flash_erase. -/
theorem minus_one_erased : ¬ Faithful [flashGetGeom] wrappedSpec := by
  intro faithful
  have accepted : abbrevSpec [flashGetGeom] wrappedSpec.bytes = .sectors 0 (-1) 3 := by
    refine abbrev_spec_iff.mpr ⟨ascii "1", ascii "4294967295", ascii "3", 1, 4294967295, 3,
      ⟨ascii "4294967295-3", by decide, Or.inl (by decide)⟩, ?_, ?_, ?_, ?_, by decide +kernel,
      by decide +kernel, by decide +kernel⟩
    · exact Or.inl ⟨by decide +kernel, by decide +kernel, by decide +kernel⟩
    · exact Or.inl ⟨by decide +kernel, by decide +kernel, by decide +kernel⟩
    · exact Or.inl ⟨by decide +kernel, by decide +kernel, by decide +kernel⟩
    · exact ⟨by decide +kernel, flashGetGeom, rfl, by decide, by decide +kernel, by decide +kernel,
        by decide +kernel⟩
  have member : (flashGetGeom, -1, 3) ∈
      (doFlerase [flashGetGeom] [wrappedSpec, wrappedSpec]).calls := by
    rw [erase_sectors accepted]
    exact List.mem_singleton.mpr rfl
  have bounds := faithful.erases 0 (-1) 3 wrappedSpec [] accepted _ member
  exact absurd bounds.1 (by decide)

end UBoot.Flash.AbbrevSpec
