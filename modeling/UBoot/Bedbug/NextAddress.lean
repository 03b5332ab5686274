import UBoot.Bedbug.FindOpcode

/-!
find_next_address of common/bedbug.c, against what the processor does behind an instruction. The
pointers `nextaddr` and `regs` are not 0; nothing is the result FALSE.
-/

namespace UBoot.Bedbug.NextAddress

open Library.BitFields Tables Disppc FindOpcode

abbrev Word := BitVec 32

/-- The fields of struct pt_regs that are read. -/
structure PtRegs where
  nip : Word
  ctr : Word
  link : Word
  ccr : Word

/-- The variables of find_next_address behind the first switch. -/
structure Decoded where
  addr : Word
  aa : Nat
  lk : Nat
  bo : Nat
  bi : Nat
  conditional : Bool
  branch : Bool

/-- An operand that is an address: its highest bit, `sign`, is its sign. -/
def signedAddr (sign value : Nat) : Word :=
  let addr := BitVec.ofNat 32 value
  let addr := if addr &&& (1#32 <<< sign) ≠ 0 then addr - (1#32 <<< (sign + 1)) else addr
  addr <<< 2

/-! The case labels of the first switch -/

def BcLabel (opcode : Nat) : Prop :=
  opcode = B_OPCODE 16 0 0 ∨ opcode = B_OPCODE 16 0 1 ∨ opcode = B_OPCODE 16 1 0 ∨ opcode = B_OPCODE 16 1 1
def BLabel (opcode : Nat) : Prop :=
  opcode = I_OPCODE 18 0 0 ∨ opcode = I_OPCODE 18 0 1 ∨ opcode = I_OPCODE 18 1 0 ∨ opcode = I_OPCODE 18 1 1
def BcctrLabel (opcode : Nat) : Prop := opcode = XL_OPCODE 19 528 0 ∨ opcode = XL_OPCODE 19 528 1
def BclrLabel (opcode : Nat) : Prop := opcode = XL_OPCODE 19 16 0 ∨ opcode = XL_OPCODE 19 16 1

instance (opcode : Nat) : Decidable (BcLabel opcode) := inferInstanceAs (Decidable (_ ∨ _ ∨ _ ∨ _))
instance (opcode : Nat) : Decidable (BLabel opcode) := inferInstanceAs (Decidable (_ ∨ _ ∨ _ ∨ _))
instance (opcode : Nat) : Decidable (BcctrLabel opcode) := inferInstanceAs (Decidable (_ ∨ _))
instance (opcode : Nat) : Decidable (BclrLabel opcode) := inferInstanceAs (Decidable (_ ∨ _))

/-- The first switch. -/
def decode (op : Opcode) (instr : Nat) (regs : PtRegs) : Option Decoded :=
  let operand := getOperandValue op instr
  if BcLabel op.opcode then do
    let addr ← operand .O_BD
    let bo ← operand .O_BO
    let bi ← operand .O_BI
    let aa ← operand .O_AA
    let lk ← operand .O_LK
    return ⟨signedAddr 13 addr, aa, lk, bo, bi, true, true⟩
  else if BLabel op.opcode then do
    let addr ← operand .O_LI
    let aa ← operand .O_AA
    let lk ← operand .O_LK
    return ⟨signedAddr 23 addr, aa, lk, 0, 0, false, true⟩
  else if BcctrLabel op.opcode then do
    let bo ← operand .O_BO
    let bi ← operand .O_BI
    let lk ← operand .O_LK
    return ⟨regs.ctr, 1, lk, bo, bi, true, true⟩
  else if BclrLabel op.opcode then do
    let bo ← operand .O_BO
    let bi ← operand .O_BI
    let lk ← operand .O_LK
    return ⟨regs.link, 1, lk, bo, bi, true, true⟩
  else some ⟨0, 0, 0, 0, 0, false, false⟩

/-- The second switch: `ctr_ok` and `cond_ok`. -/
def conditions (ctr cr : Word) (bo bi : Nat) : Bool × Bool :=
  let set := cr &&& (1#32 <<< (31 - bi)) ≠ 0
  let ctr := ctr - 1
  match (bo &&& 0x1e) >>> 1 with
  | 0 => (ctr ≠ 0, ¬ set)
  | 1 => (ctr = 0, ¬ set)
  | 2 => (true, ¬ set)
  | 4 => (ctr ≠ 0, set)
  | 5 => (ctr = 0, set)
  | 6 => (true, set)
  | 8 => (ctr ≠ 0, ctr ≠ 0)
  | 9 => (ctr = 0, ctr = 0)
  | 10 => (true, true)
  | _ => (false, false)

def pcOf (regs : PtRegs) : Word := regs.nip &&& 0xfffffffc

/-- The address of the instruction that comes next. The memory gives the instruction at an address. -/
def findNextAddress (instruction : Word → Word) (regs : PtRegs) (stepOver : Bool) : Option Word :=
  let pc := pcOf regs
  let instr := (instruction pc).toNat
  (findOpcode instr).bind fun op => (decode op instr regs).map fun decoded =>
    let ok := conditions regs.ctr regs.ccr decoded.bo decoded.bi
    if decoded.branch ∧ (¬ decoded.conditional ∨ (ok.1 ∧ ok.2)) then
      let step := if decoded.aa ≠ 0 then decoded.addr else decoded.addr + pc
      let next := if decoded.lk ≠ 0 then pc + 4 else step
      if stepOver then next else step
    else pc + 4

/-! ### The processor -/

inductive Kind where
  | branch
  | branchConditional
  | branchToCount
  | branchToLink
  | returnFromInterrupt
  | other
deriving DecidableEq

def kind (instr : Nat) : Kind :=
  let extended := field instr 1 10
  if primary instr = 16 then .branchConditional
  else if primary instr = 18 then .branch
  else if primary instr = 19 ∧ extended = 528 then .branchToCount
  else if primary instr = 19 ∧ extended = 16 then .branchToLink
  else if primary instr = 19 ∧ extended = 50 then .returnFromInterrupt
  else .other

def boOf (instr : Nat) : Nat := field instr 21 5
def biOf (instr : Nat) : Nat := field instr 16 5

/-- Bit 0 of BO leaves the condition aside, and bit 2 the count; these are the bits 4 and 2 from the
right. What is not used then has to be zero. -/
def ValidBo (bo : Nat) : Prop :=
  (bo.testBit 4 = false → bo.testBit 2 = true → bo.testBit 1 = false) ∧
  (bo.testBit 4 = true → bo.testBit 3 = false) ∧
  (bo.testBit 4 = true → bo.testBit 2 = true → bo.testBit 1 = false ∧ bo.testBit 0 = false)

instance (bo : Nat) : Decidable (ValidBo bo) := inferInstanceAs (Decidable (_ ∧ _ ∧ _))

/-- What the architecture asks of a branch; of other words nothing is asked. A branch to the count
register does not count. -/
def ValidEncoding (instr : Nat) : Prop :=
  match kind instr with
  | .branchConditional | .branchToLink => ValidBo (boOf instr)
  | .branchToCount => ValidBo (boOf instr) ∧ (boOf instr).testBit 2 = true
  | _ => True

/-- Whether a conditional branch is taken. Unless bit 2 of BO is set, the count register is decremented;
bit 0 of the condition register is its highest. -/
def Taken (ctr cr : Word) (bo bi : Nat) : Prop :=
  let ctr := if bo.testBit 2 then ctr else ctr - 1
  (bo.testBit 2 = true ∨ ((ctr ≠ 0) ↔ bo.testBit 1 = false)) ∧
  (bo.testBit 4 = true ∨ cr.getLsbD (31 - bi) = bo.testBit 3)

instance (ctr cr : Word) (bo bi : Nat) : Decidable (Taken ctr cr bo bi) :=
  inferInstanceAs (Decidable (_ ∧ _))

/-- The number of `bits` bits, the highest of which is its sign. -/
def signed (bits value : Nat) : Int := if value < 2 ^ (bits - 1) then value else value - 2 ^ bits

/-- A register as an address of an instruction. -/
def aligned (register : Word) : Word := register &&& 0xfffffffc

/-- Where a branch with a displacement goes to. -/
def target (instr bits : Nat) (pc : Word) : Word :=
  (if instr.testBit 1 then 0 else pc) + BitVec.ofInt 32 (4 * signed bits (field instr 2 bits))

/-- The address at which the processor goes on; `srr0` is where an interrupt returns to. -/
def continues (regs : PtRegs) (srr0 : Word) (instr : Nat) : Word :=
  let pc := pcOf regs
  let taken := Taken regs.ctr regs.ccr (boOf instr) (biOf instr)
  match kind instr with
  | .branch => target instr 24 pc
  | .branchConditional => if taken then target instr 14 pc else pc + 4
  | .branchToCount => if taken then aligned regs.ctr else pc + 4
  | .branchToLink => if taken then aligned regs.link else pc + 4
  | .returnFromInterrupt => aligned srr0
  | .other => pc + 4

/-- A branch that notes where it has come from. -/
def Links (instr : Nat) : Prop :=
  kind instr ≠ .returnFromInterrupt ∧ kind instr ≠ .other ∧ instr.testBit 0 = true

instance (instr : Nat) : Decidable (Links instr) := inferInstanceAs (Decidable (_ ∧ _ ∧ _))

/-- Behind a linking branch there is the instruction that it returns to. -/
def continuesOver (regs : PtRegs) (srr0 : Word) (instr : Nat) : Word :=
  if Links instr then pcOf regs + 4 else continues regs srr0 instr

/-- Both addresses are found, and right. -/
def Follows (instruction : Word → Word) (regs : PtRegs) (srr0 : Word) : Prop :=
  let instr := (instruction (pcOf regs)).toNat
  findNextAddress instruction regs false = some (continues regs srr0 instr) ∧
    findNextAddress instruction regs true = some (continuesOver regs srr0 instr)

/-! ### Decoding -/

theorem masks_extended : ∀ op ∈ opcodes, primary op.opcode = 19 → field op.mask 1 10 = 2 ^ 10 - 1 := by
  decide +kernel

theorem kind_of_op {instr : Nat} {op : Opcode} (member : op ∈ opcodes)
    (fits : instr &&& op.mask = op.opcode) : kind instr = kind op.opcode := by
  have first : primary op.opcode = primary instr := by
    rw [← fits, primary, primary, field_masked (masks_primary op member)]
  by_cases long : primary instr = 19
  · have second : field op.opcode 1 10 = field instr 1 10 := by
      rw [← fits, field_masked (masks_extended op member (first.trans long))]
    rw [kind, kind, first, second]
  · simp only [kind, first, long, false_and, if_false]

set_option synthInstance.maxSize 256 in
/-- The case labels are the kinds, and the entries have the operands. -/
theorem table_kinds : ∀ op ∈ opcodes,
    (kind op.opcode = .branchConditional → BcLabel op.opcode ∧
      .O_BD ∈ op.fields ∧ .O_BO ∈ op.fields ∧ .O_BI ∈ op.fields ∧ .O_AA ∈ op.fields ∧ .O_LK ∈ op.fields) ∧
    (kind op.opcode = .branch → ¬ BcLabel op.opcode ∧ BLabel op.opcode ∧
      .O_LI ∈ op.fields ∧ .O_AA ∈ op.fields ∧ .O_LK ∈ op.fields) ∧
    (kind op.opcode = .branchToCount → ¬ BcLabel op.opcode ∧ ¬ BLabel op.opcode ∧ BcctrLabel op.opcode ∧
      .O_BO ∈ op.fields ∧ .O_BI ∈ op.fields ∧ .O_LK ∈ op.fields) ∧
    (kind op.opcode = .branchToLink →
      ¬ BcLabel op.opcode ∧ ¬ BLabel op.opcode ∧ ¬ BcctrLabel op.opcode ∧ BclrLabel op.opcode ∧
      .O_BO ∈ op.fields ∧ .O_BI ∈ op.fields ∧ .O_LK ∈ op.fields) ∧
    (kind op.opcode = .returnFromInterrupt ∨ kind op.opcode = .other →
      ¬ BcLabel op.opcode ∧ ¬ BLabel op.opcode ∧ ¬ BcctrLabel op.opcode ∧ ¬ BclrLabel op.opcode) := by
  decide +kernel

section Decode
variable {op : Opcode} {instr : Nat} {regs : PtRegs} {instruction : Word → Word}

theorem operand_value {f : OpField} (there : f ∈ op.fields) :
    getOperandValue op instr f = some (field instr (operands f).shift (operands f).bits) := by
  rw [getOperandValue, if_pos there]

def aaOf (instr : Nat) : Nat := field instr 1 1
def lkOf (instr : Nat) : Nat := field instr 0 1

/-- What the first switch makes of an instruction, by its kind. -/
def decodedAs (regs : PtRegs) (instr : Nat) : Decoded :=
  match kind instr with
  | .branchConditional =>
      ⟨signedAddr 13 (field instr 2 14), aaOf instr, lkOf instr, boOf instr, biOf instr, true, true⟩
  | .branch => ⟨signedAddr 23 (field instr 2 24), aaOf instr, lkOf instr, 0, 0, false, true⟩
  | .branchToCount => ⟨regs.ctr, 1, lkOf instr, boOf instr, biOf instr, true, true⟩
  | .branchToLink => ⟨regs.link, 1, lkOf instr, boOf instr, biOf instr, true, true⟩
  | .returnFromInterrupt | .other => ⟨0, 0, 0, 0, 0, false, false⟩

theorem decode_kind (member : op ∈ opcodes) (fits : instr &&& op.mask = op.opcode) :
    decode op instr regs = some (decodedAs regs instr) := by
  have same := kind_of_op member fits
  rw [decodedAs, same]
  cases found : kind op.opcode with
  | branchConditional =>
      obtain ⟨label, bd, bo, bi, aa, lk⟩ := (table_kinds op member).1 found
      rw [decode, if_pos label, operand_value bd, operand_value bo, operand_value bi, operand_value aa,
        operand_value lk]
      rfl
  | branch =>
      obtain ⟨no_bc, label, li, aa, lk⟩ := (table_kinds op member).2.1 found
      rw [decode, if_neg no_bc, if_pos label, operand_value li, operand_value aa, operand_value lk]
      rfl
  | branchToCount =>
      obtain ⟨no_bc, no_b, label, bo, bi, lk⟩ := (table_kinds op member).2.2.1 found
      rw [decode, if_neg no_bc, if_neg no_b, if_pos label, operand_value bo, operand_value bi, operand_value lk]
      rfl
  | branchToLink =>
      obtain ⟨no_bc, no_b, no_bcctr, label, bo, bi, lk⟩ := (table_kinds op member).2.2.2.1 found
      rw [decode, if_neg no_bc, if_neg no_b, if_neg no_bcctr, if_pos label, operand_value bo, operand_value bi,
        operand_value lk]
      rfl
  | returnFromInterrupt =>
      obtain ⟨no_bc, no_b, no_bcctr, no_bclr⟩ := (table_kinds op member).2.2.2.2 (Or.inl found)
      rw [decode, if_neg no_bc, if_neg no_b, if_neg no_bcctr, if_neg no_bclr]
  | other =>
      obtain ⟨no_bc, no_b, no_bcctr, no_bclr⟩ := (table_kinds op member).2.2.2.2 (Or.inr found)
      rw [decode, if_neg no_bc, if_neg no_b, if_neg no_bcctr, if_neg no_bclr]

end Decode

/-! ### Addresses and conditions -/

theorem bit_set {word : Word} {k : Nat} (small : k < 32) : word &&& (1#32 <<< k) ≠ 0 ↔ word.getLsbD k = true := by
  rw [← BitVec.twoPow_eq, BitVec.and_twoPow]
  cases word.getLsbD k with
  | false => simp
  | true =>
      simp only [if_true, iff_true]
      intro zero
      have bit := congrArg (BitVec.getLsbD · k) zero
      simp [small] at bit

theorem high_bit {bits value : Nat} (bound : value < 2 ^ (bits + 1)) :
    value.testBit bits = true ↔ ¬ value < 2 ^ bits := by
  rw [Nat.testBit_eq_decide_div_mod_eq, decide_eq_true_iff]
  rw [Nat.pow_succ] at bound
  constructor
  · intro odd less
    rw [Nat.div_eq_of_lt less] at odd
    exact absurd odd (by decide)
  · intro more
    have one : value / 2 ^ bits = 1 := Nat.div_eq_of_lt_le (by omega) (by omega)
    rw [one]

theorem signed_addr {bits value : Nat} (few : bits < 31) (bound : value < 2 ^ (bits + 1)) :
    signedAddr bits value = BitVec.ofInt 32 (4 * signed (bits + 1) value) := by
  have shifted (word : Word) : word <<< 2 = BitVec.ofInt 32 4 * word := by
    rw [BitVec.shiftLeft_eq_mul_twoPow, BitVec.mul_comm]
    rfl
  have sign : BitVec.ofNat 32 value &&& (1#32 <<< bits) ≠ 0 ↔ ¬ value < 2 ^ bits := by
    rw [bit_set (by omega), BitVec.getLsbD_ofNat, decide_eq_true (show bits < 32 by omega), Bool.true_and,
      high_bit bound]
  rw [signedAddr, signed, Nat.add_sub_cancel, BitVec.ofInt_mul, ← shifted]
  by_cases positive : value < 2 ^ bits
  · rw [if_pos positive, if_neg (fun set => sign.mp set positive), BitVec.ofInt_natCast]
  · have power : BitVec.ofInt 32 (2 ^ (bits + 1)) = 1#32 <<< (bits + 1) := by
      have natural : (2 : Int) ^ (bits + 1) = ((2 ^ (bits + 1) : Nat) : Int) := by push_cast; rfl
      rw [natural, BitVec.ofInt_natCast]
      apply BitVec.eq_of_toNat_eq
      simp [Nat.shiftLeft_eq]
    rw [if_neg positive, if_pos (sign.mpr positive), Int.sub_eq_add_neg, BitVec.ofInt_add, BitVec.ofInt_neg,
      BitVec.ofInt_natCast, power, BitVec.sub_eq_add_neg]

/-- The nine cases of BO are those that the architecture knows. -/
theorem conditions_taken {ctr cr : Word} {bo bi : Nat} (few : bo < 32) (valid : ValidBo bo) (bit : bi < 32) :
    (conditions ctr cr bo bi).1 = true ∧ (conditions ctr cr bo bi).2 = true ↔ Taken ctr cr bo bi := by
  rw [conditions, Taken]
  simp only [bit_set (show 31 - bi < 32 by omega)]
  generalize cr.getLsbD (31 - bi) = set
  generalize ctr - 1 = left
  interval_cases bo <;> first
    | exact absurd valid (by decide)
    | (cases set <;> by_cases done : left = 0 <;> simp [done, Nat.testBit])

theorem aa_bit (instr : Nat) : aaOf instr ≠ 0 ↔ instr.testBit 1 = true := by
  simp [aaOf, field, Nat.testBit, Nat.and_comm]

theorem lk_bit (instr : Nat) : lkOf instr ≠ 0 ↔ instr.testBit 0 = true := by
  simp [lkOf, field, Nat.testBit, Nat.and_comm]

/-- A displacement is added to the program counter, or stands for itself. -/
theorem step_target {instr bits : Nat} (few : bits < 31) (pc : Word) :
    (if aaOf instr ≠ 0 then signedAddr bits (field instr 2 (bits + 1))
      else signedAddr bits (field instr 2 (bits + 1)) + pc) = target instr (bits + 1) pc := by
  rw [signed_addr few field_lt, target]
  by_cases absolute : instr.testBit 1 = true
  · rw [if_pos ((aa_bit instr).mpr absolute), if_pos absolute]
    exact (BitVec.zero_add _).symm
  · rw [if_neg (fun set => absolute ((aa_bit instr).mp set)), if_neg absolute, BitVec.add_comm]

/-! ### The next address -/

/-- The instruction is in the table. A register that a branch is taken to is an address of an
instruction, and an interrupt has been behind the instruction before the one it returns to. -/
structure Followed (regs : PtRegs) (srr0 : Word) (instr : Nat) : Prop where
  parsed : ∃ op ∈ opcodes, instr &&& op.mask = op.opcode
  count : kind instr = .branchToCount → Taken regs.ctr regs.ccr (boOf instr) (biOf instr) →
    aligned regs.ctr = regs.ctr
  link : kind instr = .branchToLink → Taken regs.ctr regs.ccr (boOf instr) (biOf instr) →
    aligned regs.link = regs.link
  interrupt : kind instr = .returnFromInterrupt → aligned srr0 = pcOf regs + 4

/-- What comes behind the two switches. -/
def addressOf (regs : PtRegs) (decoded : Decoded) (stepOver : Bool) : Word :=
  let pc := pcOf regs
  let ok := conditions regs.ctr regs.ccr decoded.bo decoded.bi
  if decoded.branch ∧ (¬ decoded.conditional ∨ (ok.1 ∧ ok.2)) then
    let step := if decoded.aa ≠ 0 then decoded.addr else decoded.addr + pc
    let next := if decoded.lk ≠ 0 then pc + 4 else step
    if stepOver then next else step
  else pc + 4

section Follow
variable {instruction : Word → Word} {regs : PtRegs} {srr0 : Word}

theorem found_address {op : Opcode} (member : op ∈ opcodes)
    (fits : (instruction (pcOf regs)).toNat &&& op.mask = op.opcode) (stepOver : Bool) :
    findNextAddress instruction regs stepOver =
      some (addressOf regs (decodedAs regs (instruction (pcOf regs)).toNat) stepOver) := by
  have found := (find_opcode_iff (BitVec.isLt _)).mpr ⟨member, fits⟩
  simp only [findNextAddress, found, Option.bind_some, decode_kind member fits, Option.map_some]
  rfl

/-- A conditional branch with a valid BO, by whether the processor takes it. -/
theorem conditional_address {instr : Nat} (valid : ValidBo (boOf instr)) (addr : Word) (aa : Nat) (stepOver : Bool) :
    addressOf regs ⟨addr, aa, lkOf instr, boOf instr, biOf instr, true, true⟩ stepOver =
      if Taken regs.ctr regs.ccr (boOf instr) (biOf instr) then
        (if stepOver = true ∧ instr.testBit 0 = true then pcOf regs + 4
          else if aa ≠ 0 then addr else addr + pcOf regs)
      else pcOf regs + 4 := by
  have small : boOf instr < 32 := field_lt
  have bit : biOf instr < 32 := field_lt
  have taken := @conditions_taken regs.ctr regs.ccr _ _ small valid bit
  simp only [addressOf, not_true_eq_false, false_or, true_and, taken, lk_bit]
  cases stepOver with
  | false => simp
  | true => simp

theorem plain_address (addr : Word) (aa lk bo bi : Nat) (stepOver : Bool) :
    addressOf regs ⟨addr, aa, lk, bo, bi, false, false⟩ stepOver = pcOf regs + 4 := by
  simp [addressOf]

theorem unconditional_address {instr : Nat} (addr : Word) (aa : Nat) (stepOver : Bool) :
    addressOf regs ⟨addr, aa, lkOf instr, 0, 0, false, true⟩ stepOver =
      if stepOver = true ∧ instr.testBit 0 = true then pcOf regs + 4
      else if aa ≠ 0 then addr else addr + pcOf regs := by
  simp only [addressOf, Bool.false_eq_true, not_false_eq_true, true_or, and_self, if_true, lk_bit]
  cases stepOver with
  | false => simp
  | true => simp

/-- A taken branch has to go where the processor goes, and nothing else can be wrong. -/
theorem branch_follows {instr : Nat} {go : Prop} [Decidable go] {found : Bool → Word} {step right behind : Word}
    (links : Links instr ↔ instr.testBit 0 = true)
    (address : ∀ stepOver, found stepOver =
      if go then (if stepOver = true ∧ instr.testBit 0 = true then behind else step) else behind) :
    found false = (if go then right else behind) ∧
      found true = (if Links instr then behind else if go then right else behind) ↔ (go → step = right) := by
  rw [address, address]
  by_cases taken : go
  · by_cases linked : instr.testBit 0 = true
    · simp [taken, links, linked]
    · simp [taken, links, linked]
  · simp [taken]

/-- The cases of the first switch. -/
theorem address_follows {op : Opcode} {instr : Nat} (valid : ValidEncoding instr) (member : op ∈ opcodes)
    (fits : instr &&& op.mask = op.opcode) :
    addressOf regs (decodedAs regs instr) false = continues regs srr0 instr ∧
      addressOf regs (decodedAs regs instr) true = continuesOver regs srr0 instr ↔ Followed regs srr0 instr := by
  have parsed : ∃ op ∈ opcodes, instr &&& op.mask = op.opcode := ⟨op, member, fits⟩
  rw [ValidEncoding] at valid
  rw [decodedAs, continuesOver, continues]
  cases found : kind instr with
  | branchConditional =>
      rw [found] at valid
      have links : Links instr ↔ instr.testBit 0 = true := by simp [Links, found]
      have near : (if aaOf instr ≠ 0 then signedAddr 13 (field instr 2 14)
          else signedAddr 13 (field instr 2 14) + pcOf regs) = target instr 14 (pcOf regs) :=
        step_target (by decide) _
      refine (branch_follows links (conditional_address valid _ _)).trans ?_
      rw [near]
      constructor
      · intro _
        exact ⟨parsed, by simp [found], by simp [found], by simp [found]⟩
      · intro _ _
        rfl
  | branch =>
      have links : Links instr ↔ instr.testBit 0 = true := by simp [Links, found]
      have far : (if aaOf instr ≠ 0 then signedAddr 23 (field instr 2 24)
          else signedAddr 23 (field instr 2 24) + pcOf regs) = target instr 24 (pcOf regs) :=
        step_target (by decide) _
      simp only [unconditional_address, far, links]
      constructor
      · intro _
        exact ⟨parsed, by simp [found], by simp [found], by simp [found]⟩
      · intro _
        simp
  | branchToCount =>
      rw [found] at valid
      have links : Links instr ↔ instr.testBit 0 = true := by simp [Links, found]
      refine (branch_follows links (conditional_address valid.1 _ _)).trans ?_
      constructor
      · intro right
        exact ⟨parsed, fun _ taken => (right taken).symm, by simp [found], by simp [found]⟩
      · intro followed taken
        exact (followed.count found taken).symm
  | branchToLink =>
      rw [found] at valid
      have links : Links instr ↔ instr.testBit 0 = true := by simp [Links, found]
      refine (branch_follows links (conditional_address valid _ _)).trans ?_
      constructor
      · intro right
        exact ⟨parsed, by simp [found], fun _ taken => (right taken).symm, by simp [found]⟩
      · intro followed taken
        exact (followed.link found taken).symm
  | returnFromInterrupt =>
      have links : ¬ Links instr := by simp [Links, found]
      rw [plain_address, plain_address, if_neg links, and_self]
      constructor
      · intro right
        exact ⟨parsed, by simp [found], by simp [found], fun _ => right.symm⟩
      · intro followed
        exact (followed.interrupt found).symm
  | other =>
      have links : ¬ Links instr := by simp [Links, found]
      rw [plain_address, plain_address, if_neg links, and_self]
      exact ⟨fun _ => ⟨parsed, by simp [found], by simp [found], by simp [found]⟩, fun _ => rfl⟩

/-- The next address is right exactly where the instruction is in the table and a register that is
branched to has no low bits. -/
theorem find_next_address_iff (instruction : Word → Word) (regs : PtRegs) (srr0 : Word)
    (valid : ValidEncoding (instruction (pcOf regs)).toNat) :
    Follows instruction regs srr0 ↔ Followed regs srr0 (instruction (pcOf regs)).toNat := by
  by_cases parsed : ∃ op ∈ opcodes, (instruction (pcOf regs)).toNat &&& op.mask = op.opcode
  · obtain ⟨op, member, fits⟩ := parsed
    rw [Follows]
    simp only [found_address member fits, Option.some.injEq]
    exact address_follows valid member fits
  · constructor
    · intro follows
      cases found : findOpcode (instruction (pcOf regs)).toNat with
      | none =>
          have missing := follows.1
          simp only [findNextAddress, found, Option.bind_none] at missing
          cases missing
      | some op => exact absurd ⟨op, find_loop_sound found⟩ parsed
    · intro followed
      exact absurd followed.parsed parsed

end Follow

/-- A return through an odd multiple of two. -/
def oddReturn : PtRegs := ⟨0x100, 0, 0x1002, 0⟩

theorem blr_unaligned : ValidEncoding 0x4e800020 ∧
    ¬ Follows (fun _ => 0x4e800020) oddReturn 0 := by
  constructor
  · exact (show ValidBo 20 from by decide)
  · intro follows
    have step := follows.1
    revert step
    decide +kernel

/-- bdnz back over one instruction, with two turns to go. -/
theorem bdnz_followed : Follows (fun _ => 0x4200fffc) ⟨0x100, 2, 0x1002, 0⟩ 0 :=
  (find_next_address_iff (fun _ => 0x4200fffc) ⟨0x100, 2, 0x1002, 0⟩ 0 (show ValidBo 16 from by decide)).mpr
    ⟨⟨⟨B_OPCODE 16 0 0, B_MASK, [.O_BO, .O_BI, .O_BD, .O_AA, .O_LK], true, Lib.Strings.ascii "bc", H_RELATIVE⟩,
      by decide +kernel, by decide⟩, by decide, by decide, by decide⟩

end UBoot.Bedbug.NextAddress
