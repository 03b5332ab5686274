import UBoot.Bedbug.Tables
import UBoot.Lib.Numbers
import UBoot.Library.BitFields

/-!
The disassembler of common/bedbug.c, without USE_SOURCE_CODE: find_opcode, print_operands and
disppc. A word of the target has 32 bits.
-/

namespace UBoot.Bedbug.Disppc

open Lib.Strings Lib.Numbers Library.BitFields Tables

def F_RADOCTAL : Nat := 0x1
def F_RADUDECIMAL : Nat := 0x2
def F_RADSDECIMAL : Nat := 0x4
def F_RADHEX : Nat := 0x8
def F_SIMPLE : Nat := 0x10
def F_INSTR : Nat := 0x40

/-- The binary search; a round leaves fewer entries. -/
def findLoop (instr : Nat) : (fuel : Nat) → (top bottom : Int) → Option Opcode
  | 0, _, _ => none
  | fuel + 1, top, bottom =>
      if top ≤ bottom then
        let idx := (top + bottom) / 2
        match opcodes[idx.toNat]? with
        | none => none
        | some ptr =>
            if instr &&& ptr.mask < ptr.opcode then findLoop instr fuel top (idx - 1)
            else if instr &&& ptr.mask > ptr.opcode then findLoop instr fuel (idx + 1) bottom
            else some ptr
      else none

def findOpcode (instr : Nat) : Option Opcode :=
  findLoop instr opcodes.length 0 (opcodes.length - 1)

/-- The high and low five-bit fields of a register number reversed. -/
def reversed (value : Nat) : Nat := ((value >>> 5) &&& 0x1f) ||| ((value &&& 0x1f) <<< 5)

def sprName (value : Nat) : List UInt8 :=
  match spr_map.find? fun entry => entry.1 = reversed value with
  | some entry => entry.2
  | none => number 10 (reversed value)

def tbrName (value : Nat) : List UInt8 :=
  if reversed value = 268 then ascii "TBL"
  else if reversed value = 269 then ascii "TBU"
  else ascii "???"

/-- struct ppc_ctx; radix_fmt follows from the flags. -/
structure PpcCtx where
  op : Opcode
  instr : Nat
  flags : Nat
  datalen : Nat
  data : List UInt8
  virtual : Nat

/-- sprintf to `&data[datalen]`, which is not behind the end of the string. -/
def PpcCtx.sprintf (ctx : PpcCtx) (text : List UInt8) : PpcCtx :=
  { ctx with data := ctx.data.take ctx.datalen ++ text }

def PpcCtx.strcat (ctx : PpcCtx) (text : List UInt8) : PpcCtx :=
  { ctx with data := ctx.data ++ text }

def radixFmt (flags n : Nat) : List UInt8 :=
  if flags &&& F_RADOCTAL ≠ 0 then ascii "O" ++ number 8 n
  else if flags &&& F_RADUDECIMAL ≠ 0 then number 10 n
  else if flags &&& F_RADSDECIMAL ≠ 0 then number 10 n
  else ascii "0x" ++ number 16 n

/-- The address that an operand stands for. -/
def addrValue (ctx : PpcCtx) (opr : Operand) (operand : Nat) : Nat :=
  let operand :=
    if operand &&& (1 <<< (opr.bits - 1)) ≠ 0 then (operand + 2 ^ 32 - 1 <<< opr.bits) % 2 ^ 32
    else operand
  if ctx.op.hint &&& H_RELATIVE ≠ 0 then ((operand <<< 2) % 2 ^ 32 + ctx.virtual) % 2 ^ 32
  else (operand <<< 2) % 2 ^ 32

/-- What follows the comma, and the parentheses that are open then. -/
def printOperand (ctx : PpcCtx) (openParens : Nat) (opr : Operand) : PpcCtx × Nat :=
  let operand := field ctx.instr opr.shift opr.bits
  if opr.hint &&& OH_ADDR ≠ 0 then
    (ctx.sprintf (ascii "0x" ++ number 16 (addrValue ctx opr operand)), openParens)
  else if opr.hint &&& OH_REG ≠ 0 then
    let ctx :=
      if operand = 0 ∧ opr.field = .O_rA ∧ ctx.op.hint &&& H_RA0_IS_0 ≠ 0 then ctx.strcat (ascii "0")
      else ctx.sprintf (ascii "r" ++ number 10 operand)
    if openParens ≠ 0 then (ctx.strcat (ascii ")"), openParens - 1) else (ctx, openParens)
  else if opr.hint &&& OH_SPR ≠ 0 then (ctx.strcat (sprName operand), openParens)
  else if opr.hint &&& OH_TBR ≠ 0 then (ctx.strcat (tbrName operand), openParens)
  else if opr.hint &&& OH_LITERAL ≠ 0 then
    if opr.field = .O_cr2 then (ctx.strcat (ascii "cr2"), openParens) else (ctx, openParens)
  else
    let ctx := ctx.sprintf (radixFmt ctx.flags (operand % 2 ^ 16))
    if openParens ≠ 0 then (ctx.strcat (ascii ")"), openParens - 1)
    else if opr.hint &&& OH_OFFSET ≠ 0 then (ctx.strcat (ascii "("), openParens + 1)
    else (ctx, openParens)

/-- The walk through the operands, from the one at `index` on. -/
def printFields : (index openParens : Nat) → List OpField → PpcCtx → PpcCtx
  | _, _, [], ctx => ctx
  | index, openParens, f :: rest, ctx =>
      let opr := operands f
      if opr.hint &&& OH_SILENT ≠ 0 then printFields (index + 1) openParens rest ctx
      else
        let ctx :=
          if index > 0 ∧ openParens = 0 then
            { ctx.strcat (ascii ",") with datalen := ctx.datalen + 1 }
          else ctx
        let printed := printOperand ctx openParens opr
        printFields (index + 1) printed.2 rest { printed.1 with datalen := printed.1.data.length }

def printOperands (ctx : PpcCtx) : PpcCtx := printFields 0 0 ctx.op.fields ctx

/-- The name, as "%-7s ", and the operands. -/
def printOpcode (ctx : PpcCtx) (op : Opcode) : PpcCtx :=
  let named := { ctx with op := op }.sprintf (op.name.rightpad 7 32 ++ ascii " ")
  printOperands { named with datalen := ctx.datalen + 8 }

def getOperandValue (op : Opcode) (instr : Nat) (f : OpField) : Option Nat :=
  if f ∈ op.fields then some (field instr (operands f).shift (operands f).bits) else none

def blt : Opcode := ⟨B_OPCODE 16 0 0, B_MASK, [.O_BD], false, ascii "blt", H_RELATIVE⟩
def bne : Opcode := ⟨B_OPCODE 16 0 0, B_MASK, [.O_cr2, .O_BD], false, ascii "bne", H_RELATIVE⟩
def bdnz : Opcode := ⟨B_OPCODE 16 0 0, B_MASK, [.O_BD], false, ascii "bdnz", H_RELATIVE⟩

/-- Nothing where it returns FALSE. -/
def handleBc (ctx : PpcCtx) : Option PpcCtx :=
  match getOperandValue ctx.op ctx.instr .O_BO, getOperandValue ctx.op ctx.instr .O_BI with
  | some bo, some bi =>
      if bo = 12 ∧ bi = 0 then some (printOpcode ctx blt)
      else if bo = 4 ∧ bi = 10 then some (printOpcode ctx bne)
      else if bo = 16 ∧ bi = 0 then some (printOpcode ctx bdnz)
      else none
  | _, _ => none

/-- The raw machine code. -/
def rawInstr (instr : Nat) : List UInt8 :=
  ascii "   " ++ padded 16 2 ((instr >>> 24) &&& 0xff) ++ ascii " " ++
    padded 16 2 ((instr >>> 16) &&& 0xff) ++ ascii " " ++ padded 16 2 ((instr >>> 8) &&& 0xff) ++
    ascii " " ++ padded 16 2 (instr &&& 0xff) ++ ascii "    "

/-- One line of output, without its line end. -/
def disppcLine (flags virtual instr : Nat) : List UInt8 :=
  let address := padded 16 8 virtual ++ ascii ": "
  let data := address ++ if flags &&& F_INSTR ≠ 0 then rawInstr instr else ascii "   "
  let datalen := 10 + if flags &&& F_INSTR ≠ 0 then 18 else 3
  match findOpcode instr with
  | none => data.take datalen ++ ascii "        .long 0x" ++ padded 16 8 instr
  | some op =>
      let ctx : PpcCtx := ⟨op, instr, flags, datalen, data, virtual⟩
      let handled := if flags &&& F_SIMPLE = 0 ∨ op.handled = false then none else handleBc ctx
      match handled with
      | some ctx => ctx.data
      | none => (printOpcode ctx op).data

/-- The lines for so many instructions, each a word of the memory. -/
def disppc (memory : Nat → Nat) (memaddr virtual numInstr flags : Nat) : List (List UInt8) :=
  let virtual := if virtual = 0 then memaddr else virtual
  (List.range numInstr).map fun i =>
    disppcLine flags ((virtual + 4 * i) % 2 ^ 32) (memory ((memaddr + 4 * i) % 2 ^ 32))

end UBoot.Bedbug.Disppc
