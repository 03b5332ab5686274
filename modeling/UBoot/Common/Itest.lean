import UBoot.Lib.Strings

/-!
common/cmd_itest.c with cmd_get_data_size of common/cmd_mem.c. An operand is a number or the address of
one behind a star. The target is the MIPS one: `long` has 32 bits, and a shift uses the low 5 bits of its
count.
-/

namespace UBoot.Common.Itest

open Lib.Strings

inductive Opcode where
  | EQ
  | NE
  | LT
  | GT
  | LE
  | GE
  deriving DecidableEq

def opTable : List (List UInt8 × Opcode) :=
  [(ascii "-lt", .LT), (ascii "<", .LT), (ascii "-gt", .GT), (ascii ">", .GT), (ascii "-eq", .EQ),
    (ascii "==", .EQ), (ascii "-ne", .NE), (ascii "!=", .NE), (ascii "<>", .NE), (ascii "-ge", .GE),
    (ascii ">=", .GE), (ascii "-le", .LE), (ascii "<=", .LE)]

/-- What the commands find in memory: the long at an address, and the string. -/
structure Target where
  long : BitVec 32 → BitVec 32
  string : BitVec 32 → CString

/-- strncmp of lib_generic, which keeps the difference of two characters in 8 bits. -/
def strncmp : (count : Nat) → (cs ct : List UInt8) → Int
  | 0, _, _ => 0
  | count + 1, cs, ct =>
      let res := (cs.headD 0 - ct.headD 0).toInt8.toInt
      if res ≠ 0 ∨ cs.headD 0 = 0 then res else strncmp count cs.tail ct.tail

def cmdGetDataSize (arg : List UInt8) (defaultSize : Int) : Int :=
  match arg.reverse with
  | size :: 46 :: _ :: _ =>
      if size = 98 then 1 else if size = 119 then 2 else if size = 108 then 4
      else if size = 115 then -2 else -1
  | _ => defaultSize

/-- `1 << count`. -/
def shiftedOne (count : Nat) : BitVec 32 := 1#32 <<< (count % 32)

section Code
variable (target : Target)

/-- The `long` that an operand stands for. -/
def operand : List UInt8 → BitVec 32
  | 42 :: s => target.long (BitVec.ofNat 32 (simpleStrtoul s 16).value)
  | s => BitVec.ofNat 32 (simpleStrtoul s 16).value

def evalexp (s : List UInt8) (w : Nat) : BitVec 32 := operand target s &&& (shiftedOne (w * 8) - 1)

def evalstr : List UInt8 → List UInt8
  | 42 :: s => (target.string (BitVec.ofNat 32 (simpleStrtoul s 16).value)).bytes
  | s => s

def stringcomp (s t : List UInt8) (op : Opcode) : Bool :=
  let l := evalstr target s
  let r := evalstr target t
  let p := strncmp (min l.length r.length) l r
  match op with
  | .EQ => p = 0
  | .NE => p ≠ 0
  | .LT => p < 0
  | .GT => 0 < p
  | .LE => p ≤ 0
  | .GE => 0 ≤ p

def arithcomp (s t : List UInt8) (op : Opcode) (w : Nat) : Bool :=
  let l := (evalexp target s w).toInt
  let r := (evalexp target t w).toInt
  match op with
  | .EQ => l = r
  | .NE => l ≠ r
  | .LT => l < r
  | .GT => r < l
  | .LE => l ≤ r
  | .GE => r ≤ l

/-- binary_test, where a width of 0 compares strings. -/
def binaryTest (op arg1 arg2 : List UInt8) (w : Nat) : Bool :=
  match opTable.find? fun optp => strncmp op.length op optp.1 = 0 ∧ op.length = optp.1.length with
  | some optp => if w = 0 then stringcomp target arg1 arg2 optp.2 else arithcomp target arg1 arg2 optp.2 w
  | none => false

/-- do_itest. -/
def doItest : (argv : List (List UInt8)) → Nat
  | [name, arg1, op, arg2] =>
      let w := cmdGetDataSize name 4
      let value :=
        if w = 1 ∨ w = 2 ∨ w = 4 then binaryTest target op arg1 arg2 w.toNat
        else if w = -2 then binaryTest target op arg1 arg2 0
        else false
      if value then 0 else 1
  | _ => 1

end Code

/-! ### The comparison that is asked for -/

/-- The comparison of two unsigned numbers. -/
def Opcode.holds (op : Opcode) (l r : Nat) : Bool :=
  match op with
  | .EQ => l = r
  | .NE => l ≠ r
  | .LT => l < r
  | .GT => r < l
  | .LE => l ≤ r
  | .GE => r ≤ l

/-- The low `8 * w` bits of an operand. -/
def low (target : Target) (arg : List UInt8) (w : Nat) : Nat := (operand target arg).toNat % 2 ^ (8 * w)

/-- The result of a command line with an operator, and the three results of which one is to hold. -/
structure Compares (target : Target) (name arg1 arg2 op : List UInt8) (opcode : Opcode) (w : Nat) :
    Prop where
  result : doItest target [name, arg1, op, arg2] =
    if opcode.holds (low target arg1 w) (low target arg2 w) then 0 else 1
  one : ([ascii "-lt", ascii "-eq", ascii "-gt"].countP fun op =>
    doItest target [name, arg1, op, arg2] = 0) = 1

/-! ### What itest compares -/

/-- Each operator is found under its own text. -/
theorem operator_found (entry : List UInt8 × Opcode) (listed : entry ∈ opTable) :
    opTable.find? (fun optp => strncmp entry.1.length entry.1 optp.1 = 0 ∧
      entry.1.length = optp.1.length) = some entry := by
  revert entry
  decide

section Result
variable {target : Target} {name arg1 arg2 op : List UInt8} {opcode : Opcode} {w : Nat}

/-- The number that an operand is masked to. Shifting by all 32 bits of a long shifts by none, and the
mask is then 0. -/
def masked (target : Target) (arg : List UInt8) (w : Nat) : Nat := if w = 4 then 0 else low target arg w

theorem operand_masked (arg : List UInt8) (numeric : w = 1 ∨ w = 2 ∨ w = 4) :
    (evalexp target arg w).toInt = masked target arg w := by
  have below : ∀ bits, (shiftedOne bits - 1).toNat = 2 ^ bits - 1 → bits < 31 →
      (operand target arg &&& (shiftedOne bits - 1)).toInt = (operand target arg).toNat % 2 ^ bits := by
    intro bits mask small
    have value : (operand target arg &&& (shiftedOne bits - 1)).toNat =
        (operand target arg).toNat % 2 ^ bits := by
      rw [BitVec.toNat_and, mask, Nat.and_two_pow_sub_one_eq_mod]
    have bound : (operand target arg).toNat % 2 ^ bits < 2 ^ 31 :=
      Nat.lt_of_lt_of_le (Nat.mod_lt _ (Nat.two_pow_pos bits)) (Nat.pow_le_pow_right (by decide) small.le)
    rw [BitVec.toInt_eq_toNat_of_lt (by omega), value]
    rfl
  rcases numeric with rfl | rfl | rfl
  · exact below 8 (by decide) (by decide)
  · exact below 16 (by decide) (by decide)
  · have mask : shiftedOne (4 * 8) - 1 = 0#32 := by decide
    rw [evalexp, mask, BitVec.and_zero]
    rfl

theorem arithcomp_eq (numeric : w = 1 ∨ w = 2 ∨ w = 4) :
    arithcomp target arg1 arg2 opcode w =
      opcode.holds (masked target arg1 w) (masked target arg2 w) := by
  unfold arithcomp
  rw [operand_masked arg1 numeric, operand_masked arg2 numeric]
  cases opcode <;> simp [Opcode.holds]

theorem binary_test_result (numeric : w = 1 ∨ w = 2 ∨ w = 4) (listed : (op, opcode) ∈ opTable) :
    binaryTest target op arg1 arg2 w =
      opcode.holds (masked target arg1 w) (masked target arg2 w) := by
  have some_width : w ≠ 0 := by omega
  rw [binaryTest, operator_found (op, opcode) listed]
  dsimp only
  rw [if_neg some_width, arithcomp_eq numeric]

theorem itest_result (numeric : w = 1 ∨ w = 2 ∨ w = 4) (size : cmdGetDataSize name 4 = w)
    (listed : (op, opcode) ∈ opTable) :
    doItest target [name, arg1, op, arg2] =
      if opcode.holds (masked target arg1 w) (masked target arg2 w) then 0 else 1 := by
  have width : (w : Int) = 1 ∨ (w : Int) = 2 ∨ (w : Int) = 4 := by omega
  rw [← binary_test_result numeric listed, doItest, size, if_pos width, Int.toNat_natCast]

/-- One number is below another, equal to it or above it, and not two of these. -/
theorem one_holds (l r : Nat) :
    ([Opcode.LT, Opcode.EQ, Opcode.GT].countP fun opcode => opcode.holds l r) = 1 := by
  rcases Nat.lt_trichotomy l r with less | same | more
  · have different : l ≠ r := by omega
    have not_more : ¬ r < l := by omega
    simp [Opcode.holds, less, different, not_more]
  · simp [Opcode.holds, same]
  · have different : l ≠ r := by omega
    have not_less : ¬ l < r := by omega
    simp [Opcode.holds, more, different, not_less]

theorem one_result (numeric : w = 1 ∨ w = 2 ∨ w = 4) (size : cmdGetDataSize name 4 = w) :
    ([ascii "-lt", ascii "-eq", ascii "-gt"].countP fun op =>
      doItest target [name, arg1, op, arg2] = 0) = 1 := by
  have below : (ascii "-lt", Opcode.LT) ∈ opTable := by decide
  have equal : (ascii "-eq", Opcode.EQ) ∈ opTable := by decide
  have above : (ascii "-gt", Opcode.GT) ∈ opTable := by decide
  rw [← one_holds (masked target arg1 w) (masked target arg2 w)]
  simp only [List.countP_cons, List.countP_nil, itest_result numeric size below,
    itest_result numeric size equal, itest_result numeric size above]
  simp

/-- The longs of two operands that a comparison of 0 with 0 comes out right for. -/
def LikeEqual (opcode : Opcode) (l r : Nat) : Prop :=
  l = r ∨ (l < r ∧ (opcode = .GT ∨ opcode = .LE)) ∨ (r < l ∧ (opcode = .LT ∨ opcode = .GE))

theorem holds_zero_iff (opcode : Opcode) (l r : Nat) :
    opcode.holds 0 0 = opcode.holds l r ↔ LikeEqual opcode l r := by
  cases opcode <;> simp [Opcode.holds, LikeEqual] <;> omega

/-- itest compares bytes and words, and no longs: it tells the result that equal longs give. -/
theorem itest_compares_iff (target : Target) (name arg1 arg2 op : List UInt8) (opcode : Opcode) (w : Nat)
    (numeric : w = 1 ∨ w = 2 ∨ w = 4) (size : cmdGetDataSize name 4 = w)
    (listed : (op, opcode) ∈ opTable) :
    Compares target name arg1 arg2 op opcode w ↔
      (w = 4 → LikeEqual opcode (operand target arg1).toNat (operand target arg2).toNat) := by
  have results : Compares target name arg1 arg2 op opcode w ↔
      opcode.holds (masked target arg1 w) (masked target arg2 w) =
        opcode.holds (low target arg1 w) (low target arg2 w) := by
    have exact_iff : (doItest target [name, arg1, op, arg2] =
        if opcode.holds (low target arg1 w) (low target arg2 w) then 0 else 1) ↔
        opcode.holds (masked target arg1 w) (masked target arg2 w) =
          opcode.holds (low target arg1 w) (low target arg2 w) := by
      rw [itest_result numeric size listed]
      cases opcode.holds (masked target arg1 w) (masked target arg2 w) <;>
        cases opcode.holds (low target arg1 w) (low target arg2 w) <;> decide
    exact ⟨fun compares => exact_iff.mp compares.result,
      fun same => ⟨exact_iff.mpr same, one_result numeric size⟩⟩
  rw [results]
  by_cases long : w = 4
  · subst long
    have whole : ∀ arg, low target arg 4 = (operand target arg).toNat := fun arg =>
      Nat.mod_eq_of_lt (operand target arg).isLt
    simp only [masked, if_true, whole, true_imp_iff]
    exact holds_zero_iff opcode _ _
  · simp [masked, long]

end Result

theorem empty_terminated : (0 : UInt8) ∉ ([] : List UInt8) := List.not_mem_nil

/-- A target whose memory is filled with zeros. -/
def blankTarget : Target := ⟨fun _ => 0, fun _ => ⟨[], empty_terminated⟩⟩

/-- `itest.w *1000 -lt 7fff`. -/
theorem words_compared :
    Compares blankTarget (ascii "itest.w") (ascii "*1000") (ascii "7fff") (ascii "-lt") .LT 2 :=
  (itest_compares_iff blankTarget (ascii "itest.w") (ascii "*1000") (ascii "7fff") (ascii "-lt") .LT 2
    (by decide) (by decide) (by decide)).mpr fun long => absurd long (by decide)

/-- `itest 1 -eq 2` succeeds. -/
theorem one_equals_two :
    ¬ Compares blankTarget (ascii "itest") (ascii "1") (ascii "2") (ascii "-eq") .EQ 4 := by
  intro compares
  exact absurd compares.result (by decide)

end UBoot.Common.Itest
