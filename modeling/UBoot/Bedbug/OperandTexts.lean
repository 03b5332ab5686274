import UBoot.Bedbug.Asmppc

/-!
What print_operands writes for a single operand in hexadecimal, and what parse_operand makes of that
text.
-/

namespace UBoot.Bedbug.OperandTexts

open Lib.Strings Lib.Numbers Library.BitFields Tables Disppc Asmppc

/-- The value of an operand in a word. -/
def value (instr : Nat) (f : OpField) : Nat := field instr (operands f).shift (operands f).bits

def Silent (f : OpField) : Prop := (operands f).hint &&& OH_SILENT ≠ 0

instance (f : OpField) : Decidable (Silent f) := inferInstanceAs (Decidable (_ ≠ _))

/-- A text that get_word takes as a whole. -/
def Word (text : List UInt8) : Prop := text ≠ [] ∧ ∀ c ∈ text, isblank c = false ∧ c ≠ 44

instance (text : List UInt8) : Decidable (Word text) :=
  @instDecidableAnd _ _ inferInstance (List.decidableBAll _ text)

/-- What an operand adds to an empty string. -/
def text (op : Opcode) (virtual instr : Nat) (f : OpField) : List UInt8 :=
  (printOperand ⟨op, instr, F_RADHEX, 0, [], virtual⟩ 0 (operands f)).1.data

theorem value_lt (instr : Nat) (f : OpField) : value instr f < 2 ^ (operands f).bits := field_lt

/-- The kinds of operands. -/
theorem operand_kind (f : OpField) : Silent f ∨ f = .O_d ∨ f = .O_cr2 ∨ f = .O_spr ∨ f = .O_tbr ∨
    ((operands f).hint = OH_ADDR ∧ ((operands f).bits = 14 ∨ (operands f).bits = 24)) ∨
    ((operands f).hint = OH_REG ∧ (operands f).bits = 5) ∨
    ((operands f).hint = 0 ∧ (operands f).bits ≤ 16) := by
  cases f <;> decide

theorem operand_inside (f : OpField) : (operands f).shift + (operands f).bits ≤ 26 := by
  cases f <;> decide

/-- Such a parameter is not taken for an error. -/
theorem placed_not_bad (instr : Nat) (f : OpField) : value instr f <<< (operands f).shift ≠ bad := by
  have inside := operand_inside f
  have below : value instr f <<< (operands f).shift < 2 ^ 26 := by
    rw [Nat.shiftLeft_eq]
    calc value instr f * 2 ^ (operands f).shift
        < 2 ^ (operands f).bits * 2 ^ (operands f).shift :=
          Nat.mul_lt_mul_of_pos_right (value_lt instr f) (Nat.two_pow_pos _)
      _ = 2 ^ ((operands f).bits + (operands f).shift) := (Nat.pow_add ..).symm
      _ ≤ 2 ^ 26 := Nat.pow_le_pow_right (by decide) (by omega)
  have large : (2 : Nat) ^ 26 < bad := by decide
  omega

theorem value_masked (instr : Nat) (f : OpField) :
    value instr f &&& (1 <<< (operands f).bits - 1) = value instr f := by
  rw [Nat.one_shiftLeft, Nat.and_two_pow_sub_one_eq_mod, Nat.mod_eq_of_lt (value_lt instr f)]

/-! ### Words -/

theorem digit_char : ∀ d < 16, isblank (digitText d) = false ∧ digitText d ≠ 44 ∧
    digitText d ≠ 45 ∧ digitText d ≠ 120 ∧ digitText d ≠ 88 := by
  decide

theorem word_append {front back : List UInt8} (first : Word front) (second : Word back) :
    Word (front ++ back) :=
  ⟨fun empty => first.1 (List.append_eq_nil_iff.mp empty).1,
    List.forall_mem_append.mpr ⟨first.2, second.2⟩⟩

section Bases
variable {base : Nat} (low : 2 ≤ base) (high : base ≤ 16)
include low high

theorem number_word (n : Nat) : Word (number base n) := by
  obtain ⟨c, rest, front, -⟩ := number_head low high n
  refine ⟨by rw [front]; exact List.cons_ne_nil _ _, ?_⟩
  intro d member
  obtain ⟨digit, below, rfl⟩ := number_digits low high n d member
  have plain := digit_char digit (by omega)
  exact ⟨plain.1, plain.2.1⟩

end Bases

/-! ### Numbers -/

theorem to_int_to_ulong (n : Nat) (bound : n < 2 ^ 32) : toUlong (toInt n) = n := by
  unfold toUlong toInt
  omega

theorem read_unsigned {c : UInt8} (plain : c ≠ 45) (rest : List UInt8) :
    readNumber (c :: rest) = readMagnitude (c :: rest) := by
  unfold readNumber
  split
  · rename_i same
    exact absurd same (List.cons_ne_nil _ _)
  · rename_i same
    exact absurd (List.cons_eq_cons.mp same).1 plain
  · rfl

theorem read_zero_first (x : UInt8) (rest : List UInt8) : readMagnitude (48 :: x :: rest) =
    if x = 120 ∨ x = 88 then toInt (simpleStrtoul rest 16).value
    else toInt (simpleStrtoul (48 :: x :: rest) 10).value :=
  rfl

/-- read_number of a hexadecimal number. -/
theorem read_hex (n : Nat) (bound : n < 2 ^ 32) :
    readNumber (ascii "0x" ++ number 16 n) = toInt n := by
  have front : ascii "0x" = [48, 120] := by decide
  have hexadecimal : (120 : UInt8) = 120 ∨ (120 : UInt8) = 88 := .inl rfl
  rw [front, List.cons_append, List.cons_append, List.nil_append, read_unsigned (by decide),
    read_zero_first, if_pos hexadecimal, @strtoul_number 16 (by decide) (by decide) n]
  dsimp only
  rw [Nat.mod_eq_of_lt bound]

theorem read_decimal (n : Nat) (bound : n < 2 ^ 31) : readNumber (number 10 n) = n := by
  obtain ⟨c, rest, front, -⟩ := @number_head 10 (by decide) (by decide) n
  have plain : ∀ d ∈ c :: rest, d ≠ 45 ∧ d ≠ 120 ∧ d ≠ 88 := by
    intro d member
    rw [← front] at member
    obtain ⟨digit, below, rfl⟩ := @number_digits 10 (by decide) (by decide) n d member
    exact (digit_char digit (by omega)).2.2
  have value : toInt (simpleStrtoul (c :: rest) 10).value = n := by
    rw [← front, @strtoul_number 10 (by decide) (by decide) n]
    dsimp only
    rw [Nat.mod_eq_of_lt (by omega)]
    unfold toInt
    omega
  rw [front, read_unsigned (plain c List.mem_cons_self).1]
  unfold readMagnitude
  split
  · rename_i x behind same
    have other := plain x (by rw [same]; exact List.mem_cons_of_mem _ List.mem_cons_self)
    rw [if_neg (fun either => either.elim other.2.1 other.2.2), ← same]
    exact value
  · exact value

/-! ### One operand -/

theorem only_offset (f : OpField) (other : f ≠ .O_d) : ¬ (operands f).hint &&& OH_OFFSET ≠ 0 := by
  revert other
  cases f <;> decide

/-- sprintf and strcat do the same behind the end of the string. -/
theorem sprintf_full {ctx : PpcCtx} (full : ctx.datalen = ctx.data.length) (added : List UInt8) :
    ctx.sprintf added = ctx.strcat added := by
  rw [PpcCtx.sprintf, PpcCtx.strcat, full, List.take_length]

/-- Behind the end of the string an operand is appended; only O_d opens a parenthesis. -/
theorem print_appends {ctx : PpcCtx} {f : OpField} (full : ctx.datalen = ctx.data.length)
    (hex : ctx.flags = F_RADHEX) (other : f ≠ .O_d) : printOperand ctx 0 (operands f) =
      (ctx.strcat (text ctx.op ctx.virtual ctx.instr f), 0) := by
  have offset := only_offset f other
  have empty (added : List UInt8) :
      (PpcCtx.sprintf ⟨ctx.op, ctx.instr, F_RADHEX, 0, [], ctx.virtual⟩ added).data = added := rfl
  have joined (added : List UInt8) :
      (PpcCtx.strcat ⟨ctx.op, ctx.instr, F_RADHEX, 0, [], ctx.virtual⟩ added).data = added := rfl
  have nothing : ctx.strcat [] = ctx := by
    rw [PpcCtx.strcat, List.append_nil]
  have closed : ¬ (0 : Nat) ≠ 0 := not_not.mpr rfl
  unfold text printOperand
  dsimp only
  generalize field ctx.instr (operands f).shift (operands f).bits = operand
  by_cases addressed : (operands f).hint &&& OH_ADDR ≠ 0
  · rw [if_pos addressed, if_pos addressed, empty, sprintf_full full]
    rfl
  rw [if_neg addressed, if_neg addressed]
  by_cases registered : (operands f).hint &&& OH_REG ≠ 0
  · rw [if_pos registered, if_pos registered, if_neg closed, if_neg closed]
    by_cases zero : operand = 0 ∧ (operands f).field = .O_rA ∧ ctx.op.hint &&& H_RA0_IS_0 ≠ 0
    · rw [if_pos zero, if_pos zero, joined]
    · rw [if_neg zero, if_neg zero, empty, sprintf_full full]
  rw [if_neg registered, if_neg registered]
  by_cases special : (operands f).hint &&& OH_SPR ≠ 0
  · rw [if_pos special, if_pos special, joined]
  rw [if_neg special, if_neg special]
  by_cases timer : (operands f).hint &&& OH_TBR ≠ 0
  · rw [if_pos timer, if_pos timer, joined]
  rw [if_neg timer, if_neg timer]
  by_cases literal : (operands f).hint &&& OH_LITERAL ≠ 0
  · rw [if_pos literal, if_pos literal]
    by_cases second : (operands f).field = .O_cr2
    · rw [if_pos second, if_pos second, joined]
    · rw [if_neg second, if_neg second, nothing]
  rw [if_neg literal, if_neg literal, if_neg closed, if_neg closed, if_neg offset, if_neg offset, empty,
    hex, sprintf_full full]

section Texts
variable {op : Opcode} {addr instr : Nat} {f : OpField}

/-- parse_operand reads an operand back. -/
structure ReadBack (op : Opcode) (addr instr : Nat) (f : OpField) : Prop where
  word : Word (text op addr instr f)
  value : parseOperand addr op (operands f) (text op addr instr f) =
    (value instr f <<< (operands f).shift, 0)

theorem hex_word (n : Nat) : Word (ascii "0x" ++ number 16 n) :=
  word_append (by decide) (number_word (by decide) (by decide) n)

theorem number_read_back (kind : (operands f).hint = 0) (narrow : (operands f).bits ≤ 16) :
    ReadBack op addr instr f := by
  have bound : value instr f < 2 ^ 16 :=
    Nat.lt_of_lt_of_le (value_lt instr f) (Nat.pow_le_pow_right (by decide) narrow)
  have plain (flag : Nat) : ¬ 0 &&& flag ≠ 0 := not_not.mpr (Nat.zero_and flag)
  have written : text op addr instr f = ascii "0x" ++ number 16 (value instr f) := by
    unfold text printOperand
    dsimp only
    rw [kind, if_neg (plain _), if_neg (plain _), if_neg (plain _), if_neg (plain _), if_neg (plain _),
      if_neg (not_not.mpr rfl), if_neg (plain _), ← value, Nat.mod_eq_of_lt bound]
    rfl
  refine ⟨written ▸ hex_word _, ?_⟩
  unfold parseOperand
  dsimp only
  rw [kind, if_neg (plain _), if_neg (plain _), if_neg (plain _), if_neg (plain _), written,
    read_hex _ (by omega), htonl, to_int_to_ulong _ (by omega), value_masked]

/-- A register is written with its letter, or as 0. -/
theorem register_text (kind : (operands f).hint = OH_REG) :
    (text op addr instr f = ascii "0" ∧ value instr f = 0) ∨
      text op addr instr f = ascii "r" ++ number 10 (value instr f) := by
  have no_address : ¬ OH_REG &&& OH_ADDR ≠ 0 := by decide
  have register : OH_REG &&& OH_REG ≠ 0 := by decide
  unfold text printOperand
  dsimp only
  rw [kind, if_neg no_address, if_pos register, if_neg (not_not.mpr rfl), ← value]
  by_cases zero : value instr f = 0 ∧ (operands f).field = .O_rA ∧ op.hint &&& H_RA0_IS_0 ≠ 0
  · rw [if_pos zero]
    exact .inl ⟨rfl, zero.1⟩
  · rw [if_neg zero]
    exact .inr rfl

theorem register_number (n : Nat) : registerText (ascii "r" ++ number 10 n) = number 10 n := by
  have front : ascii "r" = [114] := by decide
  rw [front, List.singleton_append]
  rfl

theorem register_read_back (kind : (operands f).hint = OH_REG) (width : (operands f).bits = 5) :
    ReadBack op addr instr f := by
  have bound : value instr f < 2 ^ 5 := width ▸ value_lt instr f
  have no_address : ¬ OH_REG &&& OH_ADDR ≠ 0 := by decide
  have register : OH_REG &&& OH_REG ≠ 0 := by decide
  have same : toUlong (value instr f : Int) = value instr f := by
    unfold toUlong
    omega
  have parsed {txt : List UInt8} (read : readNumber (registerText txt) = value instr f) :
      parseOperand addr op (operands f) txt = (value instr f <<< (operands f).shift, 0) := by
    unfold parseOperand
    dsimp only
    rw [kind, if_neg no_address, if_pos register, read, if_neg (by omega), htonl, same, value_masked]
  rcases @register_text op addr instr f kind with ⟨zero, none⟩ | named
  · refine ⟨by rw [zero]; decide, ?_⟩
    rw [zero]
    apply parsed
    rw [none]
    decide
  · refine ⟨?_, ?_⟩
    · rw [named]
      exact word_append (by decide) (@number_word 10 (by decide) (by decide) _)
    · rw [named]
      apply parsed
      rw [register_number, read_decimal _ (by omega)]

/-! ### Branches -/

theorem sign_bit {k v : Nat} (bound : v < 2 ^ (k + 1)) : v &&& (1 <<< k) ≠ 0 ↔ 2 ^ k ≤ v := by
  rw [Nat.one_shiftLeft]
  constructor
  · intro marked
    by_contra below
    refine marked (Nat.eq_of_testBit_eq fun i => ?_)
    rw [Nat.testBit_and, Nat.testBit_two_pow, Nat.zero_testBit]
    by_cases here : k = i
    · rw [← here, Nat.testBit_lt_two_pow (Nat.not_le.mp below), Bool.false_and]
    · rw [decide_eq_false here, Bool.and_false]
  · intro above none
    have bit : (v &&& 2 ^ k).testBit k = true := by
      rw [Nat.testBit_and, Nat.testBit_two_pow_self,
        Nat.testBit_of_two_pow_le_and_two_pow_add_one_gt above bound, Bool.and_true]
    rw [none, Nat.zero_testBit] at bit
    cases bit

/-- A field of so many bits, with its sign in all the bits above. -/
def Extends (bits v moved : Nat) : Prop :=
  (v < 2 ^ (bits - 1) → moved = v) ∧ (2 ^ (bits - 1) ≤ v → moved + 2 ^ bits = v + 2 ^ 32)

theorem addr_value {ctx : PpcCtx} {opr : Operand} {v : Nat} (width : opr.bits = 14 ∨ opr.bits = 24)
    (bound : v < 2 ^ opr.bits) : ∃ moved, Extends opr.bits v moved ∧ addrValue ctx opr v =
      (moved * 4 + if ctx.op.hint &&& H_RELATIVE ≠ 0 then ctx.virtual else 0) % 2 ^ 32 := by
  have positive : opr.bits - 1 + 1 = opr.bits := by omega
  have sign := @sign_bit (opr.bits - 1) v (by rw [positive]; exact bound)
  have narrow : 2 ^ opr.bits ≤ 2 ^ 24 := Nat.pow_le_pow_right (by decide) (by omega)
  have moved : ∃ moved, Extends opr.bits v moved ∧ (if v &&& (1 <<< (opr.bits - 1)) ≠ 0 then
      (v + 2 ^ 32 - 1 <<< opr.bits) % 2 ^ 32 else v) = moved := by
    refine ⟨_, ⟨fun below => ?_, fun above => ?_⟩, rfl⟩
    · rw [if_neg (fun marked => absurd (sign.mp marked) (Nat.not_le.mpr below))]
    · rw [if_pos (sign.mpr above), Nat.one_shiftLeft, Nat.mod_eq_of_lt (by omega)]
      omega
  obtain ⟨moved, extends_, same⟩ := moved
  refine ⟨moved, extends_, ?_⟩
  unfold addrValue
  dsimp only
  rw [same, Nat.shiftLeft_eq]
  split
  · rw [Nat.mod_add_mod]
  · rw [Nat.add_zero]

theorem relative_back (moved addr : Nat) :
    toInt (toUlong (toInt ((moved + addr) % 2 ^ 32) - addr)) = toInt (moved % 2 ^ 32) := by
  unfold toInt toUlong
  omega

theorem low_back {bits v moved : Nat} (width : bits = 14 ∨ bits = 24) (bound : v < 2 ^ bits)
    (extended : Extends bits v moved) :
    (toInt (moved * 4 % 2 ^ 32) < 0 ↔ 2 ^ (bits - 1) ≤ v) ∧
      toUlong (toInt (moved * 4 % 2 ^ 32) / 4) % 2 ^ (bits - 1) = v % 2 ^ (bits - 1) := by
  unfold Extends at extended
  unfold toInt toUlong
  rcases width with rfl | rfl
  · constructor
    · omega
    · omega
  · constructor
    · omega
    · omega

/-- The displacement that was printed is parsed. -/
theorem addr_field {addr : Nat} {opc : Opcode} {oper : Operand} {v moved : Nat}
    (width : oper.bits = 14 ∨ oper.bits = 24) (bound : v < 2 ^ oper.bits)
    (extended : Extends oper.bits v moved) : addrField addr opc oper
      (toInt ((moved * 4 + if opc.hint &&& H_RELATIVE ≠ 0 then addr else 0) % 2 ^ 32)) = v := by
  obtain ⟨negative, low⟩ := low_back width bound extended
  have data : (if opc.hint &&& H_RELATIVE ≠ 0 then toInt (toUlong (toInt ((moved * 4 +
        if opc.hint &&& H_RELATIVE ≠ 0 then addr else 0) % 2 ^ 32) - addr))
      else toInt ((moved * 4 + if opc.hint &&& H_RELATIVE ≠ 0 then addr else 0) % 2 ^ 32)) =
      toInt (moved * 4 % 2 ^ 32) := by
    by_cases relative : opc.hint &&& H_RELATIVE ≠ 0
    · rw [if_pos relative, if_pos relative, relative_back]
    · rw [if_neg relative, if_neg relative, Nat.add_zero]
  have halved : (2 ^ oper.bits - 1) >>> 1 = 2 ^ (oper.bits - 1) - 1 := by
    rcases width with same | same <;> rw [same] <;> decide
  have doubled : 2 ^ (oper.bits - 1) * 2 = 2 ^ oper.bits := by
    have succ : oper.bits - 1 + 1 = oper.bits := by omega
    rw [← Nat.pow_succ, Nat.succ_eq_add_one, succ]
  have least := Nat.two_pow_pos (oper.bits - 1)
  unfold addrField
  dsimp only
  rw [data, Nat.one_shiftLeft, Nat.one_shiftLeft, halved, Nat.and_two_pow_sub_one_eq_mod, low]
  by_cases above : 2 ^ (oper.bits - 1) ≤ v
  · rw [if_pos (negative.mpr above), Nat.or_two_pow_eq_add_of_lt (Nat.mod_lt _ least),
      Nat.mod_eq_sub_mod above, Nat.mod_eq_of_lt (by omega), Nat.sub_add_cancel above]
  · rw [if_neg (fun below => above (negative.mp below)), Nat.mod_eq_of_lt (Nat.not_le.mp above)]

theorem address_read_back (kind : (operands f).hint = OH_ADDR)
    (width : (operands f).bits = 14 ∨ (operands f).bits = 24) : ReadBack op addr instr f := by
  have address : OH_ADDR &&& OH_ADDR ≠ 0 := by decide
  obtain ⟨moved, extended, printed⟩ := @addr_value ⟨op, instr, F_RADHEX, 0, [], addr⟩ (operands f)
    (value instr f) width (value_lt instr f)
  have written : text op addr instr f = ascii "0x" ++ number 16
      ((moved * 4 + if op.hint &&& H_RELATIVE ≠ 0 then addr else 0) % 2 ^ 32) := by
    unfold text printOperand
    dsimp only
    rw [kind, if_pos address, ← value, printed]
    rfl
  refine ⟨written ▸ hex_word _, ?_⟩
  unfold parseOperand
  dsimp only
  rw [kind, if_pos address, written, read_hex _ (Nat.mod_lt _ (Nat.two_pow_pos 32)),
    addr_field width (value_lt instr f) extended, value_masked]

/-! ### Special registers -/

theorem reversed_eq {n : Nat} (small : n < 1024) : reversed n = n / 32 + n % 32 * 32 := by
  have high : n >>> 5 &&& 0x1f = n / 32 := by
    rw [Nat.shiftRight_eq_div_pow, Nat.and_two_pow_sub_one_eq_mod _ 5]
    omega
  have low : (n &&& 0x1f) <<< 5 = n % 32 * 32 := by
    rw [Nat.shiftLeft_eq, Nat.and_two_pow_sub_one_eq_mod _ 5]
  have joined := Nat.two_pow_add_eq_or_of_lt (show n / 32 < 2 ^ 5 by omega) (n % 32)
  rw [reversed, high, low, Nat.or_comm, Nat.mul_comm, ← joined]
  omega

theorem reversed_reversed (n : Nat) (small : n < 1024) : reversed (reversed n) = n ∧ reversed n < 1024 := by
  rw [reversed_eq small, reversed_eq (by omega)]
  omega

/-- The number of a special register in a word. -/
def registerOf (instr : Nat) (f : OpField) : Nat := reversed (value instr f)

/-- The special register has a number and no name. -/
def Numbered (instr : Nat) : Prop :=
  registerOf instr .O_spr ≠ 0 ∧ ∀ entry ∈ spr_map, entry.1 ≠ registerOf instr .O_spr

theorem lowered (c : UInt8) : isupper (if isupper c then c + 32 else c) = false := by
  have all : ∀ n : Fin 256, isupper (if isupper (UInt8.ofNat n) then UInt8.ofNat n + 32
      else UInt8.ofNat n) = false := by
    decide +kernel
  have value := all ⟨c.toNat, UInt8.toNat_lt c⟩
  rwa [UInt8.ofNat_toNat] at value

/-- The names of the special registers are in capitals. -/
theorem spr_names : ∀ entry ∈ spr_map, Word entry.2 ∧ entry.2.any isupper = true ∧
    entry.2.head?.any isdigit = false := by
  decide +kernel

theorem downstring_ne (name : List UInt8) {entry : Nat × List UInt8} (member : entry ∈ spr_map) :
    entry.2 ≠ downstring name := by
  intro same
  obtain ⟨c, capital, upper⟩ := List.any_eq_true.mp (spr_names entry member).2.1
  rw [same] at capital
  obtain ⟨d, -, rfl⟩ := List.mem_map.mp capital
  rw [lowered] at upper
  cases upper

/-- spr_value compares with them in small letters. -/
theorem named_unread {entry : Nat × List UInt8} (member : entry ∈ spr_map) : sprValue entry.2 = 0 := by
  have unknown : (spr_map.find? fun sprp => sprp.2 = downstring entry.2) = none :=
    List.find?_eq_none.mpr fun other inside same =>
      downstring_ne entry.2 inside (of_decide_eq_true same)
  obtain ⟨⟨nonempty, -⟩, -, head⟩ := spr_names entry member
  obtain ⟨c, rest, front⟩ := List.exists_cons_of_ne_nil nonempty
  rw [front] at head unknown ⊢
  unfold sprValue
  dsimp only
  rw [List.head?_cons, Option.any_some] at head
  rw [head, if_neg Bool.false_ne_true, unknown]

theorem numbered_read {n : Nat} (bound : n < 1024) : sprValue (number 10 n) = reversed n := by
  obtain ⟨c, rest, front, -⟩ := @number_head 10 (by decide) (by decide) n
  have digit : isdigit c = true := by
    obtain ⟨d, below, rfl⟩ := @number_digits 10 (by decide) (by decide) n c
      (by rw [front]; exact List.mem_cons_self)
    exact (digit_text d (by omega)).2.2.2 below
  have read := read_decimal n (by omega)
  have same : toUlong (n : Int) = n := by
    unfold toUlong
    omega
  rw [front] at read ⊢
  unfold sprValue
  dsimp only
  rw [digit, if_pos rfl, htonl, read, same]

theorem spr_text : text op addr instr .O_spr = sprName (value instr .O_spr) := rfl

theorem spr_parsed (txt : List UInt8) : parseOperand addr op (operands .O_spr) txt =
    if sprValue txt = 0 then (bad, E_ASM_BAD_SPR) else
      ((sprValue txt &&& (1 <<< (operands .O_spr).bits - 1)) <<< (operands .O_spr).shift, 0) := rfl

theorem spr_read_back (numbered : Numbered instr) : ReadBack op addr instr .O_spr := by
  obtain ⟨nonzero, unnamed⟩ := numbered
  obtain ⟨back, below⟩ := reversed_reversed (value instr .O_spr) (value_lt instr .O_spr)
  have missing : (spr_map.find? fun entry => entry.1 = registerOf instr .O_spr) = none :=
    List.find?_eq_none.mpr fun entry member same => unnamed entry member (of_decide_eq_true same)
  have written : text op addr instr .O_spr = number 10 (registerOf instr .O_spr) := by
    rw [spr_text]
    unfold sprName
    rw [← registerOf, missing]
  have valued : value instr .O_spr ≠ 0 := by
    intro zero
    rw [registerOf, zero] at nonzero
    exact nonzero rfl
  refine ⟨written ▸ @number_word 10 (by decide) (by decide) _, ?_⟩
  rw [spr_parsed, written, registerOf, numbered_read below, back, if_neg valued, value_masked]

/-- A register with a name, and the register 0, are not read back. -/
theorem spr_unread (other : ¬ Numbered instr) : Word (text op addr instr .O_spr) ∧
    (parseOperand addr op (operands .O_spr) (text op addr instr .O_spr)).1 = bad := by
  have unread : Word (text op addr instr .O_spr) ∧ sprValue (text op addr instr .O_spr) = 0 := by
    rw [spr_text]
    unfold sprName
    rw [← registerOf]
    cases found : spr_map.find? fun entry => entry.1 = registerOf instr .O_spr with
    | some entry =>
        have member := List.mem_of_find?_eq_some found
        exact ⟨(spr_names entry member).1, named_unread member⟩
    | none =>
        have zero : registerOf instr .O_spr = 0 := by
          by_contra nonzero
          exact other ⟨nonzero, fun entry member same =>
            List.find?_eq_none.mp found entry member (decide_eq_true same)⟩
        dsimp only
        rw [zero]
        exact ⟨@number_word 10 (by decide) (by decide) 0, numbered_read (by decide)⟩
  rw [spr_parsed, if_pos unread.2]
  exact ⟨unread.1, rfl⟩

/-- The time base register is the lower or the upper one. -/
def Timed (instr : Nat) : Prop :=
  registerOf instr .O_tbr = 268 ∨ registerOf instr .O_tbr = 269

theorem tbr_text : text op addr instr .O_tbr = tbrName (value instr .O_tbr) := rfl

theorem tbr_parsed (txt : List UInt8) : parseOperand addr op (operands .O_tbr) txt =
    if tbrValue txt = 0 then (bad, E_ASM_BAD_TBR) else
      ((tbrValue txt &&& (1 <<< (operands .O_tbr).bits - 1)) <<< (operands .O_tbr).shift, 0) := rfl

theorem tbr_names : Word (ascii "TBL") ∧ tbrValue (ascii "TBL") = reversed 268 ∧ reversed 268 ≠ 0 ∧
    Word (ascii "TBU") ∧ tbrValue (ascii "TBU") = reversed 269 ∧ reversed 269 ≠ 0 ∧
    Word (ascii "???") ∧ tbrValue (ascii "???") = 0 := by
  decide +kernel

theorem tbr_read_back (timed : Timed instr) : ReadBack op addr instr .O_tbr := by
  obtain ⟨low_word, low_read, low_nonzero, high_word, high_read, high_nonzero, -⟩ := tbr_names
  have back := (reversed_reversed (value instr .O_tbr) (value_lt instr .O_tbr)).1
  rw [← registerOf] at back
  rcases timed with low | high
  · have written : text op addr instr .O_tbr = ascii "TBL" := by
      rw [tbr_text, tbrName, ← registerOf, if_pos low]
    rw [low] at back
    refine ⟨written ▸ low_word, ?_⟩
    rw [tbr_parsed, written, low_read, if_neg low_nonzero, back, value_masked]
  · have written : text op addr instr .O_tbr = ascii "TBU" := by
      rw [tbr_text, tbrName, ← registerOf, high, if_neg (by decide), if_pos rfl]
    rw [high] at back
    refine ⟨written ▸ high_word, ?_⟩
    rw [tbr_parsed, written, high_read, if_neg high_nonzero, back, value_masked]

theorem tbr_unread (other : ¬ Timed instr) : Word (text op addr instr .O_tbr) ∧
    (parseOperand addr op (operands .O_tbr) (text op addr instr .O_tbr)).1 = bad := by
  have written : text op addr instr .O_tbr = ascii "???" := by
    rw [tbr_text, tbrName, ← registerOf, if_neg fun low => other (.inl low),
      if_neg fun high => other (.inr high)]
  obtain ⟨-, -, -, -, -, -, unknown, unread⟩ := tbr_names
  rw [tbr_parsed, written, if_pos unread]
  exact ⟨unknown, rfl⟩

end Texts

end UBoot.Bedbug.OperandTexts
