import UBoot.Bedbug.FindOpcode
import UBoot.Bedbug.OperandTexts

/-!
asmppc on the lines of disppc: which instructions come back from their text.
-/

namespace UBoot.Bedbug.RoundTrip

open Lib.Strings Lib.Numbers Library.BitFields Tables Disppc Asmppc OperandTexts FindOpcode

def place (f : OpField) : Nat × Nat := ((operands f).shift, (operands f).bits)

/-- The bits of an opcode and of its operands. -/
def known (op : Opcode) : Nat := cover op.mask (op.fields.map place)

/-- The number of the name's characters leaves a blank behind it, no operand is the displacement of
a base register, and a special register can be read back. -/
structure Readable (op : Opcode) (instr : Nat) : Prop where
  name : op.name.length ≤ 7
  offset : .O_d ∉ op.fields
  special : .O_spr ∈ op.fields → Numbered instr
  timed : .O_tbr ∈ op.fields → Timed instr

/-- The operands that are written. -/
def shown (fields : List OpField) : List OpField := fields.filter fun f => ¬ Silent f

/-- Words with commas between them. -/
def joined : List (List UInt8) → List UInt8
  | [] => []
  | first :: rest => first ++ rest.flatMap fun word => 44 :: word

/-! ### The tables -/

/-- More rounds than there are entries change nothing. -/
theorem find_loop_more {instr fuel : Nat} {top bottom : Int} (enough : bottom + 1 - top ≤ fuel) :
    findLoop instr (fuel + 1) top bottom = findLoop instr fuel top bottom := by
  induction fuel generalizing top bottom with
  | zero =>
      have outside : ¬ top ≤ bottom := by omega
      rw [findLoop, findLoop, if_neg outside]
  | succ fuel inductive_hypothesis =>
      have lower := @inductive_hypothesis top ((top + bottom) / 2 - 1)
      have upper := @inductive_hypothesis ((top + bottom) / 2 + 1) bottom
      rw [findLoop, findLoop]
      by_cases inside : top ≤ bottom
      · rw [if_pos inside, if_pos inside]
        dsimp only
        rw [lower (by omega), upper (by omega)]
      · rw [if_neg inside, if_neg inside]

/-- The number whose digits are the characters. -/
def code (name : List UInt8) : Nat := name.foldl (fun sum c => sum * 256 + c.toNat) 1

/-- No two of the numbers are the same. -/
def apart : List Nat → Bool
  | [] => true
  | first :: rest => rest.all (fun other => !first.beq other) && apart rest

theorem find_apart {entries : List Opcode} {downs : List UInt8 → List UInt8}
    (different : apart (entries.map fun op => code op.name) = true) {op : Opcode} (member : op ∈ entries)
    (same : downs op.name = op.name) :
    entries.find? (fun other => decide (other.name = downs op.name)) = some op := by
  induction entries with
  | nil => exact absurd member List.not_mem_nil
  | cons first rest inductive_hypothesis =>
      rw [List.map_cons, apart, Bool.and_eq_true, List.all_map] at different
      rcases List.mem_cons.mp member with rfl | later
      · exact List.find?_cons_of_pos (decide_eq_true same.symm)
      · have other : first.name ≠ downs op.name := by
          intro equal
          have unlike := List.all_eq_true.mp different.1 op later
          rw [same] at equal
          rw [Function.comp_apply, equal, Nat.beq_refl] at unlike
          exact Bool.false_ne_true unlike
        rw [List.find?_cons_of_neg (by rw [decide_eq_true_iff]; exact other)]
        exact inductive_hypothesis different.2 later

set_option synthInstance.maxSize 256 in
/-- No name has a blank, a comma or a capital letter, and no two names are the same. The operands that are
shown cover what is known of the word; the loads and stores, and the two long names. -/
theorem opcode_table : (∀ op ∈ opcodes,
    (Word op.name ∧ downstring op.name = op.name) ∧
    (op.opcode ≠ 0 ∧ .O_cr2 ∉ op.fields ∧ (∀ f ∈ op.fields.head?, ¬ Silent f) ∧
      cover op.mask ((shown op.fields).map place) = known op) ∧
    (.O_d ∈ op.fields → op.fields = [.O_rD, .O_d, .O_rA] ∨ op.fields = [.O_rS, .O_d, .O_rA]) ∧
    (op.name.length ≤ 7 ∨ op.name.length = 8 ∧ op.fields = [.O_rD, .O_rA, .O_OE, .O_Rc])) ∧
    apart (opcodes.map fun op => code op.name) = true := by
  decide +kernel

theorem opcode_named {op : Opcode} (member : op ∈ opcodes) :
    Word op.name ∧ findOpcodeByName op.name = some op := by
  obtain ⟨plain, lower⟩ := (opcode_table.1 op member).1
  exact ⟨plain, find_apart opcode_table.2 member lower⟩

/-! ### Words of a text -/

section Words

/-- A word between blanks and what ends it. -/
theorem get_word_front {blanks word behind : List UInt8} (empty : ∀ c ∈ blanks, isblank c = true)
    (plain : Word word) (ends : ∀ c ∈ behind.head?, isblank c = true ∨ c = 44) :
    getWord (blanks ++ (word ++ behind)) =
      some (word, if behind.head? = some 44 then behind.tail else behind) := by
  obtain ⟨nonempty, chars⟩ := plain
  have start : (blanks ++ (word ++ behind)).dropWhile isblank = word ++ behind := by
    rw [List.dropWhile_append_of_pos empty]
    obtain ⟨c, rest, rfl⟩ := List.exists_cons_of_ne_nil nonempty
    rw [List.cons_append, List.dropWhile_cons_of_neg]
    rw [(chars c List.mem_cons_self).1]
    exact Bool.false_ne_true
  have inside : ∀ c ∈ word, (!isblank c && c != 44) = true := by
    intro c member
    rw [(chars c member).1, bne_iff_ne.mpr (chars c member).2]
    rfl
  have stop : behind.takeWhile (fun c => !isblank c && c != 44) = [] ∧
      behind.dropWhile (fun c => !isblank c && c != 44) = behind := by
    cases behind with
    | nil => exact ⟨rfl, rfl⟩
    | cons c rest =>
        have ended : ¬ (!isblank c && c != 44) = true := by
          rcases ends c rfl with blank | rfl
          · rw [blank]
            exact Bool.false_ne_true
          · decide
        exact ⟨List.takeWhile_cons_of_neg ended, List.dropWhile_cons_of_neg ended⟩
  unfold getWord
  dsimp only
  rw [start, List.takeWhile_append_of_pos inside, List.dropWhile_append_of_pos inside, stop.1, stop.2,
    List.append_nil, if_neg nonempty]

theorem get_word_joined {first : List UInt8} (plain : Word first) (rest : List (List UInt8)) :
    getWord (joined (first :: rest)) = some (first, joined rest) := by
  have front := @get_word_front [] first (rest.flatMap fun word => 44 :: word)
    (fun _ member => absurd member List.not_mem_nil) plain (by
      cases rest with
      | nil => exact fun _ member => nomatch member
      | cons second more => exact fun c member => .inr (Option.some.inj member).symm)
  rw [List.nil_append] at front
  rw [joined, front]
  cases rest with
  | nil => rfl
  | cons second more => rfl

theorem get_word_blanks {blanks : List UInt8} (empty : ∀ c ∈ blanks, isblank c = true)
    (ptr : List UInt8) : getWord (blanks ++ ptr) = getWord ptr := by
  unfold getWord
  rw [List.dropWhile_append_of_pos empty]

end Words

/-! ### Reading the operands -/

section Reading
variable {op : Opcode} {addr word : Nat}

theorem read_silent {f : OpField} (silent : Silent f) (rest : List OpField) (ptr : List UInt8)
    (built : Nat) :
    readOperands addr op (f :: rest) ptr built = readOperands addr op rest ptr built := by
  rw [readOperands]
  exact if_pos silent

theorem read_word {f : OpField} (visible : ¬ Silent f) {first : List UInt8} (plain : Word first)
    (words : List (List UInt8)) (rest : List OpField) (built : Nat) :
    readOperands addr op (f :: rest) (joined (first :: words)) built =
      if (parseOperand addr op (operands f) first).1 = bad then
        ⟨0, (parseOperand addr op (operands f) first).2⟩
      else readOperands addr op rest (joined words)
        (built ||| (parseOperand addr op (operands f) first).1) := by
  rw [readOperands]
  refine (if_neg visible).trans ?_
  rw [get_word_joined plain]

theorem read_end {f : OpField} (visible : ¬ Silent f) (rest : List OpField) (built : Nat) :
    readOperands addr op (f :: rest) [] built = ⟨0, E_ASM_NUM_OPERANDS⟩ := by
  rw [readOperands]
  exact if_neg visible

theorem read_blanks {blanks : List UInt8} (empty : ∀ c ∈ blanks, isblank c = true) (fields : List OpField)
    (ptr : List UInt8) (built : Nat) :
    readOperands addr op fields (blanks ++ ptr) built = readOperands addr op fields ptr built := by
  induction fields with
  | nil => rfl
  | cons f rest inductive_hypothesis =>
      by_cases silent : Silent f
      · rw [read_silent silent, read_silent silent, inductive_hypothesis]
      · rw [readOperands, readOperands]
        refine (if_neg silent).trans (Eq.trans ?_ (if_neg silent).symm)
        rw [get_word_blanks empty]

theorem shown_silent {f : OpField} (silent : Silent f) (rest : List OpField) :
    shown (f :: rest) = shown rest :=
  List.filter_cons_of_neg (by rw [decide_eq_true_iff]; exact not_not.mpr silent)

theorem shown_visible {f : OpField} (visible : ¬ Silent f) (rest : List OpField) :
    shown (f :: rest) = f :: shown rest :=
  List.filter_cons_of_pos (decide_eq_true visible)

/-- Where each operand is read back, its bits come to the others. -/
theorem read_shown {fields : List OpField} (back : ∀ f ∈ shown fields, ReadBack op addr word f)
    (built : Nat) :
    readOperands addr op fields (joined ((shown fields).map (text op addr word))) built =
      ⟨assemble word built ((shown fields).map place), 0⟩ := by
  induction fields generalizing built with
  | nil => rfl
  | cons f rest inductive_hypothesis =>
      by_cases silent : Silent f
      · rw [shown_silent silent] at back ⊢
        rw [read_silent silent, inductive_hypothesis back]
      · rw [shown_visible silent] at back ⊢
        have first := back f List.mem_cons_self
        rw [List.map_cons, read_word silent first.word, first.value,
          if_neg (placed_not_bad word f),
          inductive_hypothesis fun other member => back other (List.mem_cons_of_mem f member)]
        rfl

/-- One operand that is not read back is an error. -/
theorem read_unread {fields : List OpField} (words : ∀ f ∈ shown fields, Word (text op addr word f))
    (unread : ∃ f ∈ shown fields, (parseOperand addr op (operands f) (text op addr word f)).1 = bad)
    (built : Nat) :
    (readOperands addr op fields (joined ((shown fields).map (text op addr word))) built).instr = 0 := by
  induction fields generalizing built with
  | nil =>
      obtain ⟨f, member, -⟩ := unread
      exact absurd member List.not_mem_nil
  | cons f rest inductive_hypothesis =>
      by_cases silent : Silent f
      · rw [shown_silent silent] at words unread ⊢
        rw [read_silent silent]
        exact inductive_hypothesis words unread built
      · rw [shown_visible silent] at words unread ⊢
        rw [List.map_cons, read_word silent (words f List.mem_cons_self)]
        by_cases wrong : (parseOperand addr op (operands f) (text op addr word f)).1 = bad
        · rw [if_pos wrong]
        · rw [if_neg wrong]
          obtain ⟨other, member, same⟩ := unread
          have later : other ∈ shown rest := by
            rcases List.mem_cons.mp member with rfl | later
            · exact absurd same wrong
            · exact later
          exact inductive_hypothesis (fun g inside => words g (List.mem_cons_of_mem f inside))
            ⟨other, later, same⟩ _

/-- So are fewer words than operands. -/
theorem read_short {fields : List OpField} {words : List (List UInt8)}
    (visible : ∀ f ∈ fields, ¬ Silent f) (plain : ∀ w ∈ words, Word w)
    (fewer : words.length < fields.length) (built : Nat) :
    (readOperands addr op fields (joined words) built).instr = 0 := by
  induction fields generalizing words built with
  | nil => exact absurd fewer (Nat.not_lt_zero _)
  | cons f rest inductive_hypothesis =>
      have first := visible f List.mem_cons_self
      cases words with
      | nil =>
          rw [joined, read_end first]
      | cons w more =>
          rw [read_word first (plain w List.mem_cons_self)]
          split
          · rfl
          · exact inductive_hypothesis (fun g inside => visible g (List.mem_cons_of_mem f inside))
              (fun other inside => plain other (List.mem_cons_of_mem w inside))
              (Nat.lt_of_succ_lt_succ fewer) _

end Reading

/-! ### Writing the operands -/

section Writing
variable {ctx : PpcCtx} {f : OpField}

/-- The buffer with a text at its end, and the length that is measured then. -/
def appended (ctx : PpcCtx) (added : List UInt8) : PpcCtx :=
  { ctx with data := ctx.data ++ added, datalen := (ctx.data ++ added).length }

def comma (index : Nat) : List UInt8 := if index > 0 then [44] else []

theorem appended_nil (full : ctx.datalen = ctx.data.length) : appended ctx [] = ctx := by
  unfold appended
  rw [List.append_nil, ← full]

theorem appended_appended (front back : List UInt8) :
    appended (appended ctx front) back = appended ctx (front ++ back) := by
  unfold appended
  rw [List.append_assoc]

theorem print_silent {index parens : Nat} (silent : Silent f) (rest : List OpField) :
    printFields index parens (f :: rest) ctx = printFields (index + 1) parens rest ctx := by
  rw [printFields]
  exact if_pos silent

def measured (ctx : PpcCtx) : PpcCtx := { ctx with datalen := ctx.data.length }

/-- The comma in front of an operand, where no parenthesis is open. -/
theorem print_comma {index : Nat} (visible : ¬ Silent f) (full : ctx.datalen = ctx.data.length)
    (rest : List OpField) : printFields index 0 (f :: rest) ctx =
      printFields (index + 1) (printOperand (appended ctx (comma index)) 0 (operands f)).2 rest
        (measured (printOperand (appended ctx (comma index)) 0 (operands f)).1) := by
  have separated : (if index > 0 ∧ (0 : Nat) = 0 then
      { ctx.strcat (ascii ",") with datalen := ctx.datalen + 1 } else ctx) =
        appended ctx (comma index) := by
    unfold comma
    by_cases later : index > 0
    · rw [if_pos ⟨later, rfl⟩, if_pos later]
      unfold appended
      rw [List.length_append, ← full]
      rfl
    · rw [if_neg (fun both => later both.1), if_neg later, appended_nil full]
  rw [printFields]
  refine (if_neg visible).trans ?_
  rw [separated]
  rfl

theorem print_visible {index : Nat} (visible : ¬ Silent f) (full : ctx.datalen = ctx.data.length)
    (hex : ctx.flags = F_RADHEX) (other : f ≠ .O_d) (rest : List OpField) :
    printFields index 0 (f :: rest) ctx = printFields (index + 1) 0 rest
      (appended ctx (comma index ++ text ctx.op ctx.virtual ctx.instr f)) := by
  have added := @print_appends (appended ctx (comma index)) f rfl hex other
  rw [print_comma visible full, added, ← appended_appended]
  rfl

/-- Behind the first operand each one has its comma. -/
theorem print_later {fields : List OpField} (without : .O_d ∉ fields) {ctx : PpcCtx}
    (full : ctx.datalen = ctx.data.length) (hex : ctx.flags = F_RADHEX) {index : Nat} (later : index > 0) :
    (printFields index 0 fields ctx).data = ctx.data ++
      (shown fields).flatMap fun f => 44 :: text ctx.op ctx.virtual ctx.instr f := by
  induction fields generalizing ctx index with
  | nil => exact (List.append_nil _).symm
  | cons f rest inductive_hypothesis =>
      have other : f ≠ .O_d := fun same => without (same ▸ List.mem_cons_self)
      have behind : .O_d ∉ rest := fun member => without (List.mem_cons_of_mem f member)
      by_cases silent : Silent f
      · rw [print_silent silent, shown_silent silent,
          inductive_hypothesis behind full hex (Nat.succ_pos index)]
      · have tail := @inductive_hypothesis behind
          (appended ctx (comma index ++ text ctx.op ctx.virtual ctx.instr f)) rfl hex (index + 1)
          (Nat.succ_pos index)
        rw [print_visible silent full hex other, shown_visible silent, tail, comma, if_pos later,
          List.flatMap_cons]
        exact List.append_assoc ..

theorem print_fields {fields : List OpField} (without : .O_d ∉ fields)
    (first : ∀ f ∈ fields.head?, ¬ Silent f) (full : ctx.datalen = ctx.data.length)
    (hex : ctx.flags = F_RADHEX) : (printFields 0 0 fields ctx).data = ctx.data ++
      joined ((shown fields).map (text ctx.op ctx.virtual ctx.instr)) := by
  cases fields with
  | nil => exact (List.append_nil _).symm
  | cons f rest =>
      have visible := first f rfl
      have other : f ≠ .O_d := fun same => without (same ▸ List.mem_cons_self)
      have behind : .O_d ∉ rest := fun member => without (List.mem_cons_of_mem f member)
      have tail := @print_later rest behind
        (appended ctx (comma 0 ++ text ctx.op ctx.virtual ctx.instr f)) rfl hex (0 + 1) (Nat.succ_pos 0)
      rw [print_visible visible full hex other, shown_visible visible, tail, List.map_cons, joined,
        List.flatMap_map]
      exact List.append_assoc ..

/-- The displacement, with its parenthesis. -/
def offsetText (instr : Nat) : List UInt8 :=
  ascii "0x" ++ number 16 (value instr .O_d % 2 ^ 16) ++ ascii "("

theorem print_offset (full : ctx.datalen = ctx.data.length) (hex : ctx.flags = F_RADHEX) :
    printOperand ctx 0 (operands .O_d) = (ctx.strcat (offsetText ctx.instr), 1) := by
  have printed : printOperand ctx 0 (operands .O_d) =
      ((ctx.sprintf (radixFmt ctx.flags (value ctx.instr .O_d % 2 ^ 16))).strcat (ascii "("), 1) := rfl
  rw [printed, sprintf_full full, hex]
  unfold PpcCtx.strcat
  dsimp only
  rw [List.append_assoc]
  rfl

theorem print_paren (full : ctx.datalen = ctx.data.length) : printOperand ctx 1 (operands .O_rA) =
    (ctx.strcat (text ctx.op ctx.virtual ctx.instr .O_rA ++ ascii ")"), 0) := by
  let zero := value ctx.instr .O_rA = 0 ∧ (operands .O_rA).field = .O_rA ∧
    ctx.op.hint &&& H_RA0_IS_0 ≠ 0
  let named := ascii "r" ++ number 10 (value ctx.instr .O_rA)
  have printed : printOperand ctx 1 (operands .O_rA) =
      ((if zero then ctx.strcat (ascii "0") else ctx.sprintf named).strcat (ascii ")"), 0) := rfl
  have alone : text ctx.op ctx.virtual ctx.instr .O_rA =
      (if zero then PpcCtx.strcat ⟨ctx.op, ctx.instr, F_RADHEX, 0, [], ctx.virtual⟩ (ascii "0")
        else PpcCtx.sprintf ⟨ctx.op, ctx.instr, F_RADHEX, 0, [], ctx.virtual⟩ named).data := rfl
  rw [printed, alone]
  by_cases literal : zero
  · rw [if_pos literal, if_pos literal]
    unfold PpcCtx.strcat
    dsimp only
    rw [List.append_assoc, List.nil_append]
  · rw [if_neg literal, if_neg literal, sprintf_full full]
    unfold PpcCtx.strcat PpcCtx.sprintf
    dsimp only
    rw [List.append_assoc, List.take_nil, List.nil_append]

theorem base_word (op : Opcode) (virtual instr : Nat) :
    Word (offsetText instr ++ (text op virtual instr .O_rA ++ ascii ")")) := by
  have register : Word (text op virtual instr .O_rA) := by
    rcases @register_text op virtual instr .O_rA rfl with ⟨zero, -⟩ | named
    · rw [zero]
      decide
    · rw [named]
      exact word_append (by decide) (@number_word 10 (by decide) (by decide) _)
  exact word_append (word_append (hex_word _) (by decide)) (word_append register (by decide))

/-- A load or a store: the displacement and its base register are one word. -/
theorem print_base {g : OpField} (visible : ¬ Silent g) (other : g ≠ .O_d)
    (full : ctx.datalen = ctx.data.length) (hex : ctx.flags = F_RADHEX) :
    (printFields 0 0 [g, .O_d, .O_rA] ctx).data = ctx.data ++
      joined [text ctx.op ctx.virtual ctx.instr g,
        offsetText ctx.instr ++ (text ctx.op ctx.virtual ctx.instr .O_rA ++ ascii ")")] := by
  have first := @print_visible ctx g 0 visible full hex other [.O_d, .O_rA]
  generalize front : appended ctx (comma 0 ++ text ctx.op ctx.virtual ctx.instr g) = later at first
  have offset := @print_offset (appended later (comma 1)) rfl (by rw [← front]; exact hex)
  have separated := @print_comma later .O_d 1 (by decide) (by rw [← front]; rfl) [.O_rA]
  rw [offset] at separated
  have base := @print_paren (measured ((appended later (comma 1)).strcat
    (offsetText (appended later (comma 1)).instr))) rfl
  have last : printFields (1 + 1) 1 [.O_rA] (measured ((appended later (comma 1)).strcat
      (offsetText (appended later (comma 1)).instr))) = measured (printOperand (measured
        ((appended later (comma 1)).strcat (offsetText (appended later (comma 1)).instr))) 1
          (operands .O_rA)).1 := rfl
  rw [first, separated, last, base, ← front]
  simp only [measured, appended, PpcCtx.strcat, comma, joined, List.flatMap_cons, List.flatMap_nil,
    List.append_assoc, List.append_nil, List.nil_append, List.cons_append, gt_iff_lt, Nat.lt_irrefl,
    if_false, Nat.zero_lt_one, if_true]

end Writing

/-! ### The line -/

section Lines
variable {op : Opcode} {addr instr : Nat}

def lineHead (virtual : Nat) : List UInt8 := padded 16 8 virtual ++ ascii ": "

theorem line_head_length {virtual : Nat} (bound : virtual < 2 ^ 32) : (lineHead virtual).length = 10 := by
  rw [lineHead, List.length_append, padded_length (by decide) (by norm_num; omega) (by decide)]
  rfl

/-- The blanks behind a name. -/
def gap (op : Opcode) : List UInt8 := List.replicate (7 - op.name.length) 32 ++ [32]

theorem gap_blank : ∀ c ∈ gap op, isblank c = true := by
  intro c member
  rcases List.mem_append.mp member with inside | last
  · rw [List.eq_of_mem_replicate inside]
    rfl
  · rw [List.mem_singleton.mp last]
    rfl

/-- The buffer in front of the operands. -/
def named (op : Opcode) (virtual instr : Nat) : PpcCtx :=
  ⟨op, instr, F_RADHEX, 21, lineHead virtual ++ (ascii "   " ++ (op.name ++ gap op)), virtual⟩

theorem line_named (found : findOpcode instr = some op) (bound : addr < 2 ^ 32) :
    disppcLine F_RADHEX addr instr = (printFields 0 0 op.fields (named op addr instr)).data := by
  have full : (lineHead addr ++ ascii "   ").length = 13 := by
    rw [List.length_append, line_head_length bound]
    rfl
  have start : disppcLine F_RADHEX addr instr =
      (printOpcode ⟨op, instr, F_RADHEX, 13, lineHead addr ++ ascii "   ", addr⟩ op).data := by
    unfold disppcLine
    dsimp only
    rw [found]
    rfl
  rw [start]
  unfold printOpcode printOperands PpcCtx.sprintf named gap
  dsimp only
  rw [← full, List.take_length, List.rightpad, List.append_assoc, List.append_assoc, full]
  rfl

theorem three_blanks : ∀ c ∈ ascii "   ", isblank c = true :=
  List.all_eq_true.mp (by decide)

/-- asmppc finds the opcode by its name and goes on behind the blanks. -/
theorem asm_named (member : op ∈ opcodes) (rest : List UInt8) :
    asmppc addr (ascii "   " ++ (op.name ++ (gap op ++ rest))) =
      readOperands addr op op.fields rest op.opcode := by
  obtain ⟨word, known_name⟩ := opcode_named member
  have first : (gap op ++ rest).head? = some 32 := by
    unfold gap
    cases 7 - op.name.length with
    | zero => rfl
    | succ count => rfl
  have front := @get_word_front (ascii "   ") op.name (gap op ++ rest) three_blanks word (by
    rw [first]
    exact fun c same => .inl (by rw [← Option.some.inj same]; rfl))
  rw [first, if_neg (by decide)] at front
  unfold asmppc
  rw [front]
  dsimp only
  rw [known_name]
  exact read_blanks gap_blank op.fields rest op.opcode

/-- The name leaves room for its blank. -/
theorem named_full (bound : addr < 2 ^ 32) (fits : op.name.length ≤ 7) :
    (named op addr instr).datalen = (named op addr instr).data.length := by
  have three : (ascii "   ").length = 3 := by decide
  unfold named gap
  dsimp only
  rw [List.length_append, line_head_length bound, List.length_append, three, List.length_append,
    List.length_append, List.length_replicate, List.length_singleton]
  omega

theorem drop_head (bound : addr < 2 ^ 32) (rest : List UInt8) :
    (lineHead addr ++ rest).drop 10 = rest := by
  rw [← line_head_length bound, List.drop_left]

theorem text_word {f : OpField} (visible : ¬ Silent f) (no_offset : f ≠ .O_d) (no_literal : f ≠ .O_cr2) :
    Word (text op addr instr f) := by
  rcases operand_kind f with silent | rfl | rfl | rfl | rfl | ⟨kind, width⟩ | ⟨kind, width⟩ |
    ⟨kind, narrow⟩
  · exact absurd silent visible
  · exact absurd rfl no_offset
  · exact absurd rfl no_literal
  · by_cases numbered : Numbered instr
    · exact (spr_read_back numbered).word
    · exact (spr_unread numbered).1
  · by_cases timed : Timed instr
    · exact (tbr_read_back timed).word
    · exact (tbr_unread timed).1
  · exact (address_read_back kind width).word
  · exact (register_read_back kind width).word
  · exact (number_read_back kind narrow).word

theorem readable_back (readable : Readable op instr) (no_literal : .O_cr2 ∉ op.fields) :
    ∀ f ∈ shown op.fields, ReadBack op addr instr f := by
  intro f member
  obtain ⟨inside, visible⟩ := List.mem_filter.mp member
  rcases operand_kind f with silent | rfl | rfl | rfl | rfl | ⟨kind, width⟩ | ⟨kind, width⟩ |
    ⟨kind, narrow⟩
  · exact absurd silent (of_decide_eq_true visible)
  · exact absurd inside readable.offset
  · exact absurd inside no_literal
  · exact spr_read_back (readable.special inside)
  · exact tbr_read_back (readable.timed inside)
  · exact address_read_back kind width
  · exact register_read_back kind width
  · exact number_read_back kind narrow

/-- The text behind the address, where the name is short and there is no displacement. -/
theorem line_text (found : findOpcode instr = some op) (bound : addr < 2 ^ 32)
    (fits : op.name.length ≤ 7) (without : .O_d ∉ op.fields) :
    (disppcLine F_RADHEX addr instr).drop 10 = ascii "   " ++ (op.name ++ (gap op ++
      joined ((shown op.fields).map (text op addr instr)))) := by
  have first := (opcode_table.1 op (find_loop_sound found).1).2.1.2.2.1
  rw [line_named found bound, print_fields without first (named_full bound fits) rfl]
  unfold named
  dsimp only
  rw [List.append_assoc, drop_head bound, List.append_assoc, List.append_assoc]

theorem asm_readable (found : findOpcode instr = some op) (bound : addr < 2 ^ 32)
    (whole : instr &&& known op = instr) (readable : Readable op instr) :
    asmppc addr ((disppcLine F_RADHEX addr instr).drop 10) = ⟨instr, 0⟩ := by
  obtain ⟨member, matched⟩ := find_loop_sound found
  obtain ⟨-, no_literal, -, covered⟩ := (opcode_table.1 op member).2.1
  rw [line_text found bound readable.name readable.offset, asm_named member,
    read_shown (readable_back readable no_literal), ← matched, assemble_whole]
  rw [covered, whole]

/-- Loads and stores have too few words. -/
theorem asm_offset (found : findOpcode instr = some op) (bound : addr < 2 ^ 32)
    (fits : op.name.length ≤ 7) (offset : .O_d ∈ op.fields) :
    (asmppc addr ((disppcLine F_RADHEX addr instr).drop 10)).instr = 0 := by
  have member := (find_loop_sound found).1
  have shape : ∃ g, (g = .O_rD ∨ g = .O_rS) ∧ op.fields = [g, .O_d, .O_rA] := by
    rcases (opcode_table.1 op member).2.2.1 offset with load | store
    · exact ⟨_, .inl rfl, load⟩
    · exact ⟨_, .inr rfl, store⟩
  obtain ⟨g, kind, fields⟩ := shape
  have plain : ¬ Silent g ∧ g ≠ .O_d ∧ g ≠ .O_cr2 := by
    rcases kind with rfl | rfl <;> decide
  have printed := @print_base (named op addr instr) g plain.1 plain.2.1 (named_full bound fits) rfl
  rw [line_named found bound, fields, printed]
  unfold named
  dsimp only
  rw [List.append_assoc, drop_head bound, List.append_assoc, List.append_assoc, asm_named member, fields]
  refine read_short ?_ ?_ ?_ _
  · intro f inside
    rcases List.mem_cons.mp inside with rfl | later
    · exact plain.1
    · rcases List.mem_cons.mp later with rfl | last
      · decide
      · rw [List.mem_singleton.mp last]
        decide
  · intro w inside
    rcases List.mem_cons.mp inside with rfl | later
    · exact text_word plain.1 plain.2.1 plain.2.2
    · rw [List.mem_singleton.mp later]
      exact base_word op addr instr
  · exact Nat.lt_succ_self 2

/-- One special register that cannot be read back. -/
theorem asm_unread (found : findOpcode instr = some op) (bound : addr < 2 ^ 32)
    (fits : op.name.length ≤ 7) (without : .O_d ∉ op.fields) {f : OpField} (inside : f ∈ op.fields)
    (visible : ¬ Silent f)
    (unread : (parseOperand addr op (operands f) (text op addr instr f)).1 = bad) :
    (asmppc addr ((disppcLine F_RADHEX addr instr).drop 10)).instr = 0 := by
  have member := (find_loop_sound found).1
  have no_literal := (opcode_table.1 op member).2.1.2.1
  rw [line_text found bound fits without, asm_named member]
  refine read_unread ?_ ⟨f, List.mem_filter.mpr ⟨inside, decide_eq_true visible⟩, unread⟩ _
  intro g member
  obtain ⟨there, shown_there⟩ := List.mem_filter.mp member
  exact text_word (of_decide_eq_true shown_there) (fun same => without (same ▸ there))
    fun same => no_literal (same ▸ there)

/-- The first register of a long name stands where its blank was. -/
theorem line_long (found : findOpcode instr = some op) (bound : addr < 2 ^ 32)
    (long : op.name.length = 8) (fields : op.fields = [.O_rD, .O_rA, .O_OE, .O_Rc]) :
    (disppcLine F_RADHEX addr instr).drop 10 = ascii "   " ++ ((op.name ++
      (ascii "r" ++ number 10 (value instr .O_rD))) ++ (44 :: text op addr instr .O_rA)) := by
  have register : printOperand (named op addr instr) 0 (operands .O_rD) =
      ((named op addr instr).sprintf (ascii "r" ++ number 10 (value instr .O_rD)), 0) := by
    have other : ¬ (value instr .O_rD = 0 ∧ (operands .O_rD).field = .O_rA ∧
        op.hint &&& H_RA0_IS_0 ≠ 0) := fun all => absurd all.2.1 (by decide)
    exact congrArg₂ Prod.mk (if_neg other) rfl
  have first : printFields 0 0 [.O_rD, .O_rA, .O_OE, .O_Rc] (named op addr instr) =
      printFields 1 (printOperand (named op addr instr) 0 (operands .O_rD)).2 [.O_rA, .O_OE, .O_Rc]
        (measured (printOperand (named op addr instr) 0 (operands .O_rD)).1) := by
    rw [printFields]
    exact if_neg (by decide)
  have tail := @print_later [.O_rA, .O_OE, .O_Rc] (by decide) (measured ((named op addr instr).sprintf
    (ascii "r" ++ number 10 (value instr .O_rD)))) rfl rfl 1 (by decide)
  have last : shown [.O_rA, .O_OE, .O_Rc] = [.O_rA] := by decide
  have datalen : (named op addr instr).datalen = 21 := rfl
  have cut : (named op addr instr).data.take 21 = lineHead addr ++ (ascii "   " ++ op.name) := by
    have width : (lineHead addr ++ (ascii "   " ++ op.name)).length = 21 := by
      rw [List.length_append, line_head_length bound, List.length_append, long]
      rfl
    have parts : (named op addr instr).data = lineHead addr ++ (ascii "   " ++ op.name) ++ gap op := by
      unfold named
      dsimp only
      rw [List.append_assoc, List.append_assoc]
    rw [parts, ← width, List.take_left]
  rw [line_named found bound, fields, first, register, tail, last, List.flatMap_cons, List.flatMap_nil,
    List.append_nil]
  unfold measured PpcCtx.sprintf
  dsimp only
  rw [datalen, cut, List.append_assoc, List.append_assoc, drop_head bound, List.append_assoc, List.append_assoc,
    List.append_assoc]
  rfl

theorem asm_long (found : findOpcode instr = some op) (bound : addr < 2 ^ 32)
    (long : ¬ op.name.length ≤ 7) :
    (asmppc addr ((disppcLine F_RADHEX addr instr).drop 10)).instr = 0 := by
  have member := (find_loop_sound found).1
  obtain ⟨eight, fields⟩ := ((opcode_table.1 op member).2.2.2).resolve_left long
  let word := op.name ++ (ascii "r" ++ number 10 (value instr .O_rD))
  have plain : Word word := word_append (opcode_named member).1
    (word_append (by decide) (@number_word 10 (by decide) (by decide) _))
  have front := @get_word_front (ascii "   ") word (44 :: text op addr instr .O_rA) three_blanks plain
    fun c same => .inr (Option.some.inj same).symm
  have unknown : findOpcodeByName word = none := by
    refine List.find?_eq_none.mpr fun other inside same => ?_
    have lengths := congrArg List.length (of_decide_eq_true same)
    have short : other.name.length ≤ 8 := by
      rcases (opcode_table.1 other inside).2.2.2 with fits | ⟨eight, -⟩
      · exact Nat.le_succ_of_le fits
      · exact Nat.le_of_eq eight
    rw [downstring, List.length_map, List.length_append, eight, List.length_append] at lengths
    have letter : (ascii "r").length = 1 := by decide
    omega
  rw [line_long found bound eight fields]
  unfold asmppc
  rw [front]
  dsimp only
  rw [unknown]

theorem asm_unreadable (found : findOpcode instr = some op) (bound : addr < 2 ^ 32)
    (other : ¬ Readable op instr) :
    (asmppc addr ((disppcLine F_RADHEX addr instr).drop 10)).instr = 0 := by
  by_cases fits : op.name.length ≤ 7
  · by_cases offset : .O_d ∈ op.fields
    · exact asm_offset found bound fits offset
    · by_cases special : .O_spr ∈ op.fields → Numbered instr
      · have timed : ¬ (.O_tbr ∈ op.fields → Timed instr) :=
          fun timed => other ⟨fits, offset, special, timed⟩
        rw [Classical.not_imp] at timed
        exact asm_unread found bound fits offset timed.1 (by decide) (tbr_unread timed.2).2
      · rw [Classical.not_imp] at special
        exact asm_unread found bound fits offset special.1 (by decide) (spr_unread special.2).2
  · exact asm_long found bound fits

/-- The word comes back from its line if and only if its text is readable. -/
theorem asmppc_disppc_iff (memory : Nat → Nat) (below : addr < 2 ^ 32)
    (found : findOpcode (memory addr) = some op) (whole : memory addr &&& known op = memory addr) :
    (∃ line, disppc memory addr 0 1 F_RADHEX = [line] ∧
      (asmppc addr (line.drop 10)).instr = memory addr) ↔ Readable op (memory addr) := by
  have printed : disppc memory addr 0 1 F_RADHEX = [disppcLine F_RADHEX addr (memory addr)] := by
    have same : (addr + 4 * 0) % 2 ^ 32 = addr := Nat.mod_eq_of_lt below
    show [disppcLine F_RADHEX ((addr + 4 * 0) % 2 ^ 32) (memory ((addr + 4 * 0) % 2 ^ 32))] = _
    rw [same]
  rw [printed]
  constructor
  · rintro ⟨line, same, back⟩
    obtain ⟨rfl, -⟩ := List.cons_eq_cons.mp same
    by_contra other
    obtain ⟨member, matched⟩ := find_loop_sound found
    rw [asm_unreadable found below other] at back
    rw [← back, Nat.zero_and] at matched
    exact (opcode_table.1 op member).2.1.1 matched.symm
  · intro readable
    exact ⟨_, rfl, by rw [asm_readable found below whole readable]⟩

/-- addi r3,r1,0x8 -/
theorem addi_back : ∃ line, disppc (fun _ => 0x38610008) 0x100 0 1 F_RADHEX = [line] ∧
    (asmppc 0x100 (line.drop 10)).instr = 0x38610008 := by
  have found : findOpcode 0x38610008 =
      some ⟨D_OPCODE 14, D_MASK, [.O_rD, .O_rA, .O_SIMM], false, ascii "addi", H_RA0_IS_0⟩ := by
    decide +kernel
  exact (asmppc_disppc_iff (fun _ => 0x38610008) (by decide) found (by decide +kernel)).mpr
    ⟨by decide, by decide, fun member => absurd member (by decide), fun member => absurd member (by decide)⟩

/-- lwz r3,0x8(r1) is one operand short. -/
theorem lwz_lost :
    (∃ op, findOpcode 0x80610008 = some op ∧ 0x80610008 &&& known op = 0x80610008) ∧
      ¬ ∃ line, disppc (fun _ => 0x80610008) 0x100 0 1 F_RADHEX = [line] ∧
        (asmppc 0x100 (line.drop 10)).instr = 0x80610008 := by
  have found : findOpcode 0x80610008 =
      some ⟨D_OPCODE 32, D_MASK, [.O_rD, .O_d, .O_rA], false, ascii "lwz", H_RA0_IS_0⟩ := by
    decide +kernel
  refine ⟨⟨_, found, by decide +kernel⟩, ?_⟩
  rintro ⟨line, printed, back⟩
  obtain ⟨rfl, -⟩ := List.cons_eq_cons.mp printed
  revert back
  decide +kernel

end Lines

end UBoot.Bedbug.RoundTrip
