import UBoot.Lib.Strings

/-!
include/bedbug/ppc.h and tables.h: the operands, the opcodes and the special registers. Where the
arrays end with a zero or are counted by sizeof, the lists here just end.
-/

namespace UBoot.Bedbug.Tables

open Lib.Strings

inductive OpField where
  | O_AA | O_BD | O_BI | O_BO | O_crbD | O_crbA | O_crbB | O_CRM | O_d | O_frC | O_frD | O_frS
  | O_IMM | O_LI | O_LK | O_MB | O_ME | O_NB | O_OE | O_rA | O_rB | O_Rc | O_rD | O_rS | O_SH
  | O_SIMM | O_SR | O_TO | O_UIMM | O_crfD | O_crfS | O_L | O_spr | O_tbr | O_cr2
  deriving DecidableEq

/-! Values for operand hint -/

def OH_SILENT : Nat := 0x01
def OH_ADDR : Nat := 0x02
def OH_REG : Nat := 0x04
def OH_SPR : Nat := 0x08
def OH_TBR : Nat := 0x10
def OH_OFFSET : Nat := 0x20
def OH_LITERAL : Nat := 0x40

structure Operand where
  field : OpField
  bits : Nat
  shift : Nat
  hint : Nat

/-- `operands[field - 1]`. -/
def operands : OpField → Operand
  | .O_AA => ⟨.O_AA, 1, 1, OH_SILENT⟩
  | .O_BD => ⟨.O_BD, 14, 2, OH_ADDR⟩
  | .O_BI => ⟨.O_BI, 5, 16, 0⟩
  | .O_BO => ⟨.O_BO, 5, 21, 0⟩
  | .O_crbD => ⟨.O_crbD, 5, 21, 0⟩
  | .O_crbA => ⟨.O_crbA, 5, 16, 0⟩
  | .O_crbB => ⟨.O_crbB, 5, 11, 0⟩
  | .O_CRM => ⟨.O_CRM, 8, 12, 0⟩
  | .O_d => ⟨.O_d, 15, 0, OH_OFFSET⟩
  | .O_frC => ⟨.O_frC, 5, 6, 0⟩
  | .O_frD => ⟨.O_frD, 5, 21, 0⟩
  | .O_frS => ⟨.O_frS, 5, 21, 0⟩
  | .O_IMM => ⟨.O_IMM, 4, 12, 0⟩
  | .O_LI => ⟨.O_LI, 24, 2, OH_ADDR⟩
  | .O_LK => ⟨.O_LK, 1, 0, OH_SILENT⟩
  | .O_MB => ⟨.O_MB, 5, 6, 0⟩
  | .O_ME => ⟨.O_ME, 5, 1, 0⟩
  | .O_NB => ⟨.O_NB, 5, 11, 0⟩
  | .O_OE => ⟨.O_OE, 1, 10, OH_SILENT⟩
  | .O_rA => ⟨.O_rA, 5, 16, OH_REG⟩
  | .O_rB => ⟨.O_rB, 5, 11, OH_REG⟩
  | .O_Rc => ⟨.O_Rc, 1, 0, OH_SILENT⟩
  | .O_rD => ⟨.O_rD, 5, 21, OH_REG⟩
  | .O_rS => ⟨.O_rS, 5, 21, OH_REG⟩
  | .O_SH => ⟨.O_SH, 5, 11, 0⟩
  | .O_SIMM => ⟨.O_SIMM, 16, 0, 0⟩
  | .O_SR => ⟨.O_SR, 4, 16, 0⟩
  | .O_TO => ⟨.O_TO, 5, 21, 0⟩
  | .O_UIMM => ⟨.O_UIMM, 16, 0, 0⟩
  | .O_crfD => ⟨.O_crfD, 3, 23, 0⟩
  | .O_crfS => ⟨.O_crfS, 3, 18, 0⟩
  | .O_L => ⟨.O_L, 1, 21, 0⟩
  | .O_spr => ⟨.O_spr, 10, 11, OH_SPR⟩
  | .O_tbr => ⟨.O_tbr, 10, 11, OH_TBR⟩
  | .O_cr2 => ⟨.O_cr2, 0, 0, OH_LITERAL⟩

/-! The instruction forms -/

def MAKE_OPCODE (i : Nat) : Nat := (i &&& 0x3f) <<< 26

def I_OPCODE (i aa lk : Nat) : Nat := MAKE_OPCODE i ||| ((aa &&& 0x1) <<< 1) ||| (lk &&& 0x1)
def I_MASK : Nat := I_OPCODE 0x3f 0x1 0x1

def B_OPCODE (i aa lk : Nat) : Nat := MAKE_OPCODE i ||| ((aa &&& 0x1) <<< 1) ||| (lk &&& 0x1)
def B_MASK : Nat := B_OPCODE 0x3f 0x1 0x1

def SC_OPCODE (i : Nat) : Nat := MAKE_OPCODE i ||| 0x2
def SC_MASK : Nat := SC_OPCODE 0x3f

def D_OPCODE (i : Nat) : Nat := MAKE_OPCODE i
def D_MASK : Nat := MAKE_OPCODE 0x3f

def X_OPCODE (i xo rc : Nat) : Nat := MAKE_OPCODE i ||| ((xo &&& 0x3ff) <<< 1) ||| (rc &&& 0x1)
def X_MASK : Nat := X_OPCODE 0x3f 0x3ff 0x1

def XL_OPCODE (i xo lk : Nat) : Nat := MAKE_OPCODE i ||| ((xo &&& 0x3ff) <<< 1) ||| (lk &&& 0x1)
def XL_MASK : Nat := XL_OPCODE 0x3f 0x3ff 0x1

def XFX_OPCODE (i xo rc : Nat) : Nat := MAKE_OPCODE i ||| ((xo &&& 0x3ff) <<< 1) ||| (rc &&& 0x1)
def XFX_MASK : Nat := XFX_OPCODE 0x3f 0x3ff 0x1

def XO_OPCODE (i xo oe rc : Nat) : Nat :=
  MAKE_OPCODE i ||| ((oe &&& 0x1) <<< 10) ||| ((xo &&& 0x1ff) <<< 1) ||| (rc &&& 0x1)
def XO_MASK : Nat := XO_OPCODE 0x3f 0x1ff 0x1 0x1

def M_OPCODE (i rc : Nat) : Nat := MAKE_OPCODE i ||| (rc &&& 0x1)
def M_MASK : Nat := M_OPCODE 0x3f 0x1

/-! Values for opcode hints -/

def H_RELATIVE : Nat := 0x1
def H_IMM_HIGH : Nat := 0x2
def H_RA0_IS_0 : Nat := 0x4

/-- An instruction; `handled` where hfunc is handle_bc, and not where it is 0. -/
structure Opcode where
  opcode : Nat
  mask : Nat
  fields : List OpField
  handled : Bool
  name : List UInt8
  hint : Nat
  deriving DecidableEq

def opcodes : List Opcode := [
  ⟨D_OPCODE 3, D_MASK, [.O_TO, .O_rA, .O_SIMM], false, ascii "twi", 0⟩,
  ⟨D_OPCODE 7, D_MASK, [.O_rD, .O_rA, .O_SIMM], false, ascii "mulli", 0⟩,
  ⟨D_OPCODE 8, D_MASK, [.O_rD, .O_rA, .O_SIMM], false, ascii "subfic", 0⟩,
  ⟨D_OPCODE 10, D_MASK, [.O_crfD, .O_L, .O_rA, .O_UIMM], false, ascii "cmpli", 0⟩,
  ⟨D_OPCODE 11, D_MASK, [.O_crfD, .O_L, .O_rA, .O_SIMM], false, ascii "cmpi", 0⟩,
  ⟨D_OPCODE 12, D_MASK, [.O_rD, .O_rA, .O_SIMM], false, ascii "addic", 0⟩,
  ⟨D_OPCODE 13, D_MASK, [.O_rD, .O_rA, .O_SIMM], false, ascii "addic.", 0⟩,
  ⟨D_OPCODE 14, D_MASK, [.O_rD, .O_rA, .O_SIMM], false, ascii "addi", H_RA0_IS_0⟩,
  ⟨D_OPCODE 15, D_MASK, [.O_rD, .O_rA, .O_SIMM], false, ascii "addis", H_RA0_IS_0 ||| H_IMM_HIGH⟩,
  ⟨B_OPCODE 16 0 0, B_MASK, [.O_BO, .O_BI, .O_BD, .O_AA, .O_LK], true, ascii "bc", H_RELATIVE⟩,
  ⟨B_OPCODE 16 0 1, B_MASK, [.O_BO, .O_BI, .O_BD, .O_AA, .O_LK], false, ascii "bcl", H_RELATIVE⟩,
  ⟨B_OPCODE 16 1 0, B_MASK, [.O_BO, .O_BI, .O_BD, .O_AA, .O_LK], false, ascii "bca", 0⟩,
  ⟨B_OPCODE 16 1 1, B_MASK, [.O_BO, .O_BI, .O_BD, .O_AA, .O_LK], false, ascii "bcla", 0⟩,
  ⟨SC_OPCODE 17, SC_MASK, [], false, ascii "sc", 0⟩,
  ⟨I_OPCODE 18 0 0, I_MASK, [.O_LI, .O_AA, .O_LK], false, ascii "b", H_RELATIVE⟩,
  ⟨I_OPCODE 18 0 1, I_MASK, [.O_LI, .O_AA, .O_LK], false, ascii "bl", H_RELATIVE⟩,
  ⟨I_OPCODE 18 1 0, I_MASK, [.O_LI, .O_AA, .O_LK], false, ascii "ba", 0⟩,
  ⟨I_OPCODE 18 1 1, I_MASK, [.O_LI, .O_AA, .O_LK], false, ascii "bla", 0⟩,
  ⟨XL_OPCODE 19 0 0, XL_MASK, [.O_crfD, .O_crfS], false, ascii "mcrf", 0⟩,
  ⟨XL_OPCODE 19 16 0, XL_MASK, [.O_BO, .O_BI, .O_LK], false, ascii "bclr", 0⟩,
  ⟨XL_OPCODE 19 16 1, XL_MASK, [.O_BO, .O_BI, .O_LK], false, ascii "bclrl", 0⟩,
  ⟨XL_OPCODE 19 33 0, XL_MASK, [.O_crbD, .O_crbA, .O_crbB], false, ascii "crnor", 0⟩,
  ⟨XL_OPCODE 19 50 0, XL_MASK, [], false, ascii "rfi", 0⟩,
  ⟨XL_OPCODE 19 129 0, XL_MASK, [.O_crbD, .O_crbA, .O_crbB], false, ascii "crandc", 0⟩,
  ⟨XL_OPCODE 19 150 0, XL_MASK, [], false, ascii "isync", 0⟩,
  ⟨XL_OPCODE 19 193 0, XL_MASK, [.O_crbD, .O_crbA, .O_crbB], false, ascii "crxor", 0⟩,
  ⟨XL_OPCODE 19 225 0, XL_MASK, [.O_crbD, .O_crbA, .O_crbB], false, ascii "crnand", 0⟩,
  ⟨XL_OPCODE 19 257 0, XL_MASK, [.O_crbD, .O_crbA, .O_crbB], false, ascii "crand", 0⟩,
  ⟨XL_OPCODE 19 289 0, XL_MASK, [.O_crbD, .O_crbA, .O_crbB], false, ascii "creqv", 0⟩,
  ⟨XL_OPCODE 19 417 0, XL_MASK, [.O_crbD, .O_crbA, .O_crbB], false, ascii "crorc", 0⟩,
  ⟨XL_OPCODE 19 449 0, XL_MASK, [.O_crbD, .O_crbA, .O_crbB], false, ascii "cror", 0⟩,
  ⟨XL_OPCODE 19 528 0, XL_MASK, [.O_BO, .O_BI, .O_LK], false, ascii "bcctr", 0⟩,
  ⟨XL_OPCODE 19 528 1, XL_MASK, [.O_BO, .O_BI, .O_LK], false, ascii "bcctrl", 0⟩,
  ⟨M_OPCODE 20 0, M_MASK, [.O_rA, .O_rS, .O_SH, .O_MB, .O_ME, .O_Rc], false, ascii "rlwimi", 0⟩,
  ⟨M_OPCODE 20 1, M_MASK, [.O_rA, .O_rS, .O_SH, .O_MB, .O_ME, .O_Rc], false, ascii "rlwimi.", 0⟩,
  ⟨M_OPCODE 21 0, M_MASK, [.O_rA, .O_rS, .O_SH, .O_MB, .O_ME, .O_Rc], false, ascii "rlwinm", 0⟩,
  ⟨M_OPCODE 21 1, M_MASK, [.O_rA, .O_rS, .O_SH, .O_MB, .O_ME, .O_Rc], false, ascii "rlwinm.", 0⟩,
  ⟨M_OPCODE 23 0, M_MASK, [.O_rA, .O_rS, .O_rB, .O_MB, .O_ME, .O_Rc], false, ascii "rlwnm", 0⟩,
  ⟨M_OPCODE 23 1, M_MASK, [.O_rA, .O_rS, .O_rB, .O_MB, .O_ME, .O_Rc], false, ascii "rlwnm.", 0⟩,
  ⟨D_OPCODE 24, D_MASK, [.O_rA, .O_rS, .O_UIMM], false, ascii "ori", 0⟩,
  ⟨D_OPCODE 25, D_MASK, [.O_rA, .O_rS, .O_UIMM], false, ascii "oris", H_IMM_HIGH⟩,
  ⟨D_OPCODE 26, D_MASK, [.O_rA, .O_rS, .O_UIMM], false, ascii "xori", 0⟩,
  ⟨D_OPCODE 27, D_MASK, [.O_rA, .O_rS, .O_UIMM], false, ascii "xoris", H_IMM_HIGH⟩,
  ⟨D_OPCODE 28, D_MASK, [.O_rA, .O_rS, .O_UIMM], false, ascii "andi.", 0⟩,
  ⟨D_OPCODE 29, D_MASK, [.O_rA, .O_rS, .O_UIMM], false, ascii "andis.", H_IMM_HIGH⟩,
  ⟨X_OPCODE 31 0 0, X_MASK, [.O_crfD, .O_L, .O_rA, .O_rB], false, ascii "cmp", 0⟩,
  ⟨X_OPCODE 31 4 0, X_MASK, [.O_TO, .O_rA, .O_rB], false, ascii "tw", 0⟩,
  ⟨XO_OPCODE 31 8 0 0, XO_MASK, [.O_rD, .O_rA, .O_rB, .O_OE, .O_Rc], false, ascii "subfc", 0⟩,
  ⟨XO_OPCODE 31 8 0 1, XO_MASK, [.O_rD, .O_rA, .O_rB, .O_OE, .O_Rc], false, ascii "subfc.", 0⟩,
  ⟨XO_OPCODE 31 10 0 0, XO_MASK, [.O_rD, .O_rA, .O_rB, .O_OE, .O_Rc], false, ascii "addc", 0⟩,
  ⟨XO_OPCODE 31 10 0 1, XO_MASK, [.O_rD, .O_rA, .O_rB, .O_OE, .O_Rc], false, ascii "addc.", 0⟩,
  ⟨XO_OPCODE 31 11 0 0, XO_MASK, [.O_rD, .O_rA, .O_rB, .O_Rc], false, ascii "mulhwu", 0⟩,
  ⟨XO_OPCODE 31 11 0 1, XO_MASK, [.O_rD, .O_rA, .O_rB, .O_Rc], false, ascii "mulhwu.", 0⟩,
  ⟨X_OPCODE 31 19 0, X_MASK, [.O_rD], false, ascii "mfcr", 0⟩,
  ⟨X_OPCODE 31 20 0, X_MASK, [.O_rD, .O_rA, .O_rB], false, ascii "lwarx", H_RA0_IS_0⟩,
  ⟨X_OPCODE 31 23 0, X_MASK, [.O_rD, .O_rA, .O_rB], false, ascii "lwzx", H_RA0_IS_0⟩,
  ⟨X_OPCODE 31 24 0, X_MASK, [.O_rA, .O_rS, .O_rB, .O_Rc], false, ascii "slw", 0⟩,
  ⟨X_OPCODE 31 24 1, X_MASK, [.O_rA, .O_rS, .O_rB, .O_Rc], false, ascii "slw.", 0⟩,
  ⟨X_OPCODE 31 26 0, X_MASK, [.O_rA, .O_rS, .O_Rc], false, ascii "cntlzw", 0⟩,
  ⟨X_OPCODE 31 26 1, X_MASK, [.O_rA, .O_rS, .O_Rc], false, ascii "cntlzw.", 0⟩,
  ⟨X_OPCODE 31 28 0, X_MASK, [.O_rA, .O_rS, .O_rB, .O_Rc], false, ascii "and", 0⟩,
  ⟨X_OPCODE 31 28 1, X_MASK, [.O_rA, .O_rS, .O_rB, .O_Rc], false, ascii "and.", 0⟩,
  ⟨X_OPCODE 31 32 0, X_MASK, [.O_crfD, .O_L, .O_rA, .O_rB], false, ascii "cmpl", 0⟩,
  ⟨XO_OPCODE 31 40 0 0, XO_MASK, [.O_rD, .O_rA, .O_rB, .O_OE, .O_Rc], false, ascii "subf", 0⟩,
  ⟨XO_OPCODE 31 40 0 1, XO_MASK, [.O_rD, .O_rA, .O_rB, .O_OE, .O_Rc], false, ascii "subf.", 0⟩,
  ⟨X_OPCODE 31 54 0, X_MASK, [.O_rA, .O_rB], false, ascii "dcbst", H_RA0_IS_0⟩,
  ⟨X_OPCODE 31 55 0, X_MASK, [.O_rD, .O_rA, .O_rB], false, ascii "lwzux", 0⟩,
  ⟨X_OPCODE 31 60 0, X_MASK, [.O_rA, .O_rS, .O_rB, .O_Rc], false, ascii "andc", 0⟩,
  ⟨X_OPCODE 31 60 1, X_MASK, [.O_rA, .O_rS, .O_rB, .O_Rc], false, ascii "andc.", 0⟩,
  ⟨XO_OPCODE 31 75 0 0, XO_MASK, [.O_rD, .O_rA, .O_rB, .O_Rc], false, ascii "mulhw", 0⟩,
  ⟨XO_OPCODE 31 75 0 1, XO_MASK, [.O_rD, .O_rA, .O_rB, .O_Rc], false, ascii "mulhw.", 0⟩,
  ⟨X_OPCODE 31 83 0, X_MASK, [.O_rD], false, ascii "mfmsr", 0⟩,
  ⟨X_OPCODE 31 86 0, X_MASK, [.O_rA, .O_rB], false, ascii "dcbf", H_RA0_IS_0⟩,
  ⟨X_OPCODE 31 87 0, X_MASK, [.O_rD, .O_rA, .O_rB], false, ascii "lbzx", H_RA0_IS_0⟩,
  ⟨XO_OPCODE 31 104 0 0, XO_MASK, [.O_rD, .O_rA, .O_OE, .O_Rc], false, ascii "neg", 0⟩,
  ⟨XO_OPCODE 31 104 0 1, XO_MASK, [.O_rD, .O_rA, .O_OE, .O_Rc], false, ascii "neg.", 0⟩,
  ⟨X_OPCODE 31 119 0, X_MASK, [.O_rD, .O_rA, .O_rB], false, ascii "lbzux", 0⟩,
  ⟨X_OPCODE 31 124 0, X_MASK, [.O_rA, .O_rS, .O_rB, .O_Rc], false, ascii "nor", 0⟩,
  ⟨X_OPCODE 31 124 1, X_MASK, [.O_rA, .O_rS, .O_rB, .O_Rc], false, ascii "nor.", 0⟩,
  ⟨XO_OPCODE 31 136 0 0, XO_MASK, [.O_rD, .O_rA, .O_rB, .O_OE, .O_Rc], false, ascii "subfe", 0⟩,
  ⟨XO_OPCODE 31 136 0 1, XO_MASK, [.O_rD, .O_rA, .O_rB, .O_OE, .O_Rc], false, ascii "subfe.", 0⟩,
  ⟨XO_OPCODE 31 138 0 0, XO_MASK, [.O_rD, .O_rA, .O_rB, .O_OE, .O_Rc], false, ascii "adde", 0⟩,
  ⟨XO_OPCODE 31 138 0 1, XO_MASK, [.O_rD, .O_rA, .O_rB, .O_OE, .O_Rc], false, ascii "adde.", 0⟩,
  ⟨XFX_OPCODE 31 144 0, XFX_MASK, [.O_CRM, .O_rS], false, ascii "mtcrf", 0⟩,
  ⟨X_OPCODE 31 146 0, X_MASK, [.O_rS], false, ascii "mtmsr", 0⟩,
  ⟨X_OPCODE 31 150 1, X_MASK, [.O_rS, .O_rA, .O_rB], false, ascii "stwcx.", 0⟩,
  ⟨X_OPCODE 31 151 0, X_MASK, [.O_rS, .O_rA, .O_rB], false, ascii "stwx", 0⟩,
  ⟨X_OPCODE 31 183 0, X_MASK, [.O_rS, .O_rA, .O_rB], false, ascii "stwux", 0⟩,
  ⟨XO_OPCODE 31 200 0 0, XO_MASK, [.O_rD, .O_rA, .O_OE, .O_Rc], false, ascii "subfze", 0⟩,
  ⟨XO_OPCODE 31 200 0 1, XO_MASK, [.O_rD, .O_rA, .O_OE, .O_Rc], false, ascii "subfze.", 0⟩,
  ⟨XO_OPCODE 31 202 0 0, XO_MASK, [.O_rD, .O_rA, .O_OE, .O_Rc], false, ascii "addze", 0⟩,
  ⟨XO_OPCODE 31 202 0 1, XO_MASK, [.O_rD, .O_rA, .O_OE, .O_Rc], false, ascii "addze.", 0⟩,
  ⟨X_OPCODE 31 210 0, X_MASK, [.O_SR, .O_rS], false, ascii "mtsr", 0⟩,
  ⟨X_OPCODE 31 215 0, X_MASK, [.O_rS, .O_rA, .O_rB], false, ascii "stbx", H_RA0_IS_0⟩,
  ⟨XO_OPCODE 31 232 0 0, XO_MASK, [.O_rD, .O_rA, .O_OE, .O_Rc], false, ascii "subfme", 0⟩,
  ⟨XO_OPCODE 31 232 0 1, XO_MASK, [.O_rD, .O_rA, .O_OE, .O_Rc], false, ascii "subfme.", 0⟩,
  ⟨XO_OPCODE 31 234 0 0, XO_MASK, [.O_rD, .O_rA, .O_OE, .O_Rc], false, ascii "addme", 0⟩,
  ⟨XO_OPCODE 31 234 0 1, XO_MASK, [.O_rD, .O_rA, .O_OE, .O_Rc], false, ascii "addme.", 0⟩,
  ⟨XO_OPCODE 31 235 0 0, XO_MASK, [.O_rD, .O_rA, .O_rB, .O_OE, .O_Rc], false, ascii "mullw", 0⟩,
  ⟨XO_OPCODE 31 235 0 1, XO_MASK, [.O_rD, .O_rA, .O_rB, .O_OE, .O_Rc], false, ascii "mullw.", 0⟩,
  ⟨X_OPCODE 31 242 0, X_MASK, [.O_rS, .O_rB], false, ascii "mtsrin", 0⟩,
  ⟨X_OPCODE 31 246 0, X_MASK, [.O_rA, .O_rB], false, ascii "dcbtst", H_RA0_IS_0⟩,
  ⟨X_OPCODE 31 247 0, X_MASK, [.O_rS, .O_rA, .O_rB], false, ascii "stbux", 0⟩,
  ⟨XO_OPCODE 31 266 0 0, XO_MASK, [.O_rD, .O_rA, .O_rB, .O_OE, .O_Rc], false, ascii "add", 0⟩,
  ⟨XO_OPCODE 31 266 0 1, XO_MASK, [.O_rD, .O_rA, .O_rB, .O_OE, .O_Rc], false, ascii "add.", 0⟩,
  ⟨X_OPCODE 31 278 0, X_MASK, [.O_rA, .O_rB], false, ascii "dcbt", H_RA0_IS_0⟩,
  ⟨X_OPCODE 31 279 0, X_MASK, [.O_rD, .O_rA, .O_rB], false, ascii "lhzx", H_RA0_IS_0⟩,
  ⟨X_OPCODE 31 284 0, X_MASK, [.O_rA, .O_rS, .O_rB, .O_Rc], false, ascii "eqv", 0⟩,
  ⟨X_OPCODE 31 284 1, X_MASK, [.O_rA, .O_rS, .O_rB, .O_Rc], false, ascii "eqv.", 0⟩,
  ⟨X_OPCODE 31 306 0, X_MASK, [.O_rB], false, ascii "tlbie", 0⟩,
  ⟨X_OPCODE 31 310 0, X_MASK, [.O_rD, .O_rA, .O_rB], false, ascii "eciwx", H_RA0_IS_0⟩,
  ⟨X_OPCODE 31 311 0, X_MASK, [.O_rD, .O_rA, .O_rB], false, ascii "lhzux", 0⟩,
  ⟨X_OPCODE 31 316 0, X_MASK, [.O_rA, .O_rS, .O_rB, .O_Rc], false, ascii "xor", 0⟩,
  ⟨X_OPCODE 31 316 1, X_MASK, [.O_rA, .O_rS, .O_rB, .O_Rc], false, ascii "xor.", 0⟩,
  ⟨XFX_OPCODE 31 339 0, XFX_MASK, [.O_rD, .O_spr], false, ascii "mfspr", 0⟩,
  ⟨X_OPCODE 31 343 0, X_MASK, [.O_rD, .O_rA, .O_rB], false, ascii "lhax", H_RA0_IS_0⟩,
  ⟨X_OPCODE 31 370 0, X_MASK, [], false, ascii "tlbia", 0⟩,
  ⟨XFX_OPCODE 31 371 0, XFX_MASK, [.O_rD, .O_tbr], false, ascii "mftb", 0⟩,
  ⟨X_OPCODE 31 375 0, X_MASK, [.O_rD, .O_rA, .O_rB], false, ascii "lhaux", 0⟩,
  ⟨X_OPCODE 31 407 0, X_MASK, [.O_rS, .O_rA, .O_rB], false, ascii "sthx", H_RA0_IS_0⟩,
  ⟨X_OPCODE 31 412 0, X_MASK, [.O_rA, .O_rS, .O_rB, .O_Rc], false, ascii "orc", 0⟩,
  ⟨X_OPCODE 31 412 1, X_MASK, [.O_rA, .O_rS, .O_rB, .O_Rc], false, ascii "orc.", 0⟩,
  ⟨X_OPCODE 31 438 0, X_MASK, [.O_rS, .O_rA, .O_rB], false, ascii "ecowx", H_RA0_IS_0⟩,
  ⟨X_OPCODE 31 439 0, X_MASK, [.O_rS, .O_rA, .O_rB], false, ascii "sthux", 0⟩,
  ⟨X_OPCODE 31 444 0, X_MASK, [.O_rA, .O_rS, .O_rB, .O_Rc], false, ascii "or", 0⟩,
  ⟨X_OPCODE 31 444 1, X_MASK, [.O_rA, .O_rS, .O_rB, .O_Rc], false, ascii "or.", 0⟩,
  ⟨XO_OPCODE 31 459 0 0, XO_MASK, [.O_rD, .O_rA, .O_rB, .O_OE, .O_Rc], false, ascii "divwu", 0⟩,
  ⟨XO_OPCODE 31 459 0 1, XO_MASK, [.O_rD, .O_rA, .O_rB, .O_OE, .O_Rc], false, ascii "divwu.", 0⟩,
  ⟨XFX_OPCODE 31 467 0, XFX_MASK, [.O_spr, .O_rS], false, ascii "mtspr", 0⟩,
  ⟨X_OPCODE 31 470 0, X_MASK, [.O_rA, .O_rB], false, ascii "dcbi", H_RA0_IS_0⟩,
  ⟨X_OPCODE 31 476 0, X_MASK, [.O_rA, .O_rS, .O_rB, .O_Rc], false, ascii "nand", 0⟩,
  ⟨X_OPCODE 31 476 1, X_MASK, [.O_rA, .O_rS, .O_rB, .O_Rc], false, ascii "nand.", 0⟩,
  ⟨XO_OPCODE 31 491 0 0, XO_MASK, [.O_rD, .O_rA, .O_rB, .O_OE, .O_Rc], false, ascii "divw", 0⟩,
  ⟨XO_OPCODE 31 491 0 1, XO_MASK, [.O_rD, .O_rA, .O_rB, .O_OE, .O_Rc], false, ascii "divw.", 0⟩,
  ⟨X_OPCODE 31 512 0, X_MASK, [.O_crfD], false, ascii "mcrxr", 0⟩,
  ⟨XO_OPCODE 31 8 1 0, XO_MASK, [.O_rD, .O_rA, .O_rB, .O_OE, .O_Rc], false, ascii "subfco", 0⟩,
  ⟨XO_OPCODE 31 8 1 1, XO_MASK, [.O_rD, .O_rA, .O_rB, .O_OE, .O_Rc], false, ascii "subfco.", 0⟩,
  ⟨XO_OPCODE 31 10 1 0, XO_MASK, [.O_rD, .O_rA, .O_rB, .O_OE, .O_Rc], false, ascii "addco", 0⟩,
  ⟨XO_OPCODE 31 10 1 1, XO_MASK, [.O_rD, .O_rA, .O_rB, .O_OE, .O_Rc], false, ascii "addco.", 0⟩,
  ⟨X_OPCODE 31 533 0, X_MASK, [.O_rD, .O_rA, .O_rB], false, ascii "lswx", H_RA0_IS_0⟩,
  ⟨X_OPCODE 31 534 0, X_MASK, [.O_rD, .O_rA, .O_rB], false, ascii "lwbrx", H_RA0_IS_0⟩,
  ⟨X_OPCODE 31 536 0, X_MASK, [.O_rA, .O_rS, .O_rB, .O_Rc], false, ascii "srw", 0⟩,
  ⟨X_OPCODE 31 536 1, X_MASK, [.O_rA, .O_rS, .O_rB, .O_Rc], false, ascii "srw.", 0⟩,
  ⟨XO_OPCODE 31 40 1 0, XO_MASK, [.O_rD, .O_rA, .O_rB, .O_OE, .O_Rc], false, ascii "subfo", 0⟩,
  ⟨XO_OPCODE 31 40 1 1, XO_MASK, [.O_rD, .O_rA, .O_rB, .O_OE, .O_Rc], false, ascii "subfo.", 0⟩,
  ⟨X_OPCODE 31 566 0, X_MASK, [], false, ascii "tlbsync", 0⟩,
  ⟨X_OPCODE 31 595 0, X_MASK, [.O_rD, .O_SR], false, ascii "mfsr", 0⟩,
  ⟨X_OPCODE 31 597 0, X_MASK, [.O_rD, .O_rA, .O_NB], false, ascii "lswi", H_RA0_IS_0⟩,
  ⟨X_OPCODE 31 598 0, X_MASK, [], false, ascii "sync", 0⟩,
  ⟨XO_OPCODE 31 104 1 0, XO_MASK, [.O_rD, .O_rA, .O_OE, .O_Rc], false, ascii "nego", 0⟩,
  ⟨XO_OPCODE 31 104 1 1, XO_MASK, [.O_rD, .O_rA, .O_OE, .O_Rc], false, ascii "nego.", 0⟩,
  ⟨XO_OPCODE 31 136 1 0, XO_MASK, [.O_rD, .O_rA, .O_rB, .O_OE, .O_Rc], false, ascii "subfeo", 0⟩,
  ⟨XO_OPCODE 31 136 1 1, XO_MASK, [.O_rD, .O_rA, .O_rB, .O_OE, .O_Rc], false, ascii "subfeo.", 0⟩,
  ⟨XO_OPCODE 31 138 1 0, XO_MASK, [.O_rD, .O_rA, .O_rB, .O_OE, .O_Rc], false, ascii "addeo", 0⟩,
  ⟨XO_OPCODE 31 138 1 1, XO_MASK, [.O_rD, .O_rA, .O_rB, .O_OE, .O_Rc], false, ascii "addeo.", 0⟩,
  ⟨X_OPCODE 31 659 0, X_MASK, [.O_rD, .O_rB], false, ascii "mfsrin", 0⟩,
  ⟨X_OPCODE 31 661 0, X_MASK, [.O_rS, .O_rA, .O_rB], false, ascii "stswx", H_RA0_IS_0⟩,
  ⟨X_OPCODE 31 662 0, X_MASK, [.O_rS, .O_rA, .O_rB], false, ascii "stwbrx", H_RA0_IS_0⟩,
  ⟨XO_OPCODE 31 200 1 0, XO_MASK, [.O_rD, .O_rA, .O_OE, .O_Rc], false, ascii "subfzeo", 0⟩,
  ⟨XO_OPCODE 31 200 1 1, XO_MASK, [.O_rD, .O_rA, .O_OE, .O_Rc], false, ascii "subfzeo.", 0⟩,
  ⟨XO_OPCODE 31 202 1 0, XO_MASK, [.O_rD, .O_rA, .O_OE, .O_Rc], false, ascii "addzeo", 0⟩,
  ⟨XO_OPCODE 31 202 1 1, XO_MASK, [.O_rD, .O_rA, .O_OE, .O_Rc], false, ascii "addzeo.", 0⟩,
  ⟨X_OPCODE 31 725 0, X_MASK, [.O_rS, .O_rA, .O_NB], false, ascii "stswi", H_RA0_IS_0⟩,
  ⟨XO_OPCODE 31 232 1 0, XO_MASK, [.O_rD, .O_rA, .O_OE, .O_Rc], false, ascii "subfmeo", 0⟩,
  ⟨XO_OPCODE 31 232 1 1, XO_MASK, [.O_rD, .O_rA, .O_OE, .O_Rc], false, ascii "subfmeo.", 0⟩,
  ⟨XO_OPCODE 31 234 1 0, XO_MASK, [.O_rD, .O_rA, .O_OE, .O_Rc], false, ascii "addmeo", 0⟩,
  ⟨XO_OPCODE 31 234 1 1, XO_MASK, [.O_rD, .O_rA, .O_OE, .O_Rc], false, ascii "addmeo.", 0⟩,
  ⟨XO_OPCODE 31 235 1 0, XO_MASK, [.O_rD, .O_rA, .O_rB, .O_OE, .O_Rc], false, ascii "mullwo", 0⟩,
  ⟨XO_OPCODE 31 235 1 1, XO_MASK, [.O_rD, .O_rA, .O_rB, .O_OE, .O_Rc], false, ascii "mullwo.", 0⟩,
  ⟨XO_OPCODE 31 266 1 0, XO_MASK, [.O_rD, .O_rA, .O_rB, .O_OE, .O_Rc], false, ascii "addo", 0⟩,
  ⟨XO_OPCODE 31 266 1 1, XO_MASK, [.O_rD, .O_rA, .O_rB, .O_OE, .O_Rc], false, ascii "addo.", 0⟩,
  ⟨X_OPCODE 31 790 0, X_MASK, [.O_rD, .O_rA, .O_rB], false, ascii "lhbrx", H_RA0_IS_0⟩,
  ⟨X_OPCODE 31 792 0, X_MASK, [.O_rA, .O_rS, .O_rB, .O_Rc], false, ascii "sraw", 0⟩,
  ⟨X_OPCODE 31 792 1, X_MASK, [.O_rA, .O_rS, .O_rB, .O_Rc], false, ascii "sraw.", 0⟩,
  ⟨X_OPCODE 31 824 0, X_MASK, [.O_rA, .O_rS, .O_SH, .O_Rc], false, ascii "srawi", 0⟩,
  ⟨X_OPCODE 31 824 1, X_MASK, [.O_rA, .O_rS, .O_SH, .O_Rc], false, ascii "srawi.", 0⟩,
  ⟨X_OPCODE 31 854 0, X_MASK, [], false, ascii "eieio", 0⟩,
  ⟨X_OPCODE 31 918 0, X_MASK, [.O_rS, .O_rA, .O_rB], false, ascii "sthbrx", H_RA0_IS_0⟩,
  ⟨X_OPCODE 31 922 0, X_MASK, [.O_rA, .O_rS, .O_Rc], false, ascii "extsh", 0⟩,
  ⟨X_OPCODE 31 922 1, X_MASK, [.O_rA, .O_rS, .O_Rc], false, ascii "extsh.", 0⟩,
  ⟨X_OPCODE 31 954 0, X_MASK, [.O_rA, .O_rS, .O_Rc], false, ascii "extsb", 0⟩,
  ⟨X_OPCODE 31 954 1, X_MASK, [.O_rA, .O_rS, .O_Rc], false, ascii "extsb.", 0⟩,
  ⟨XO_OPCODE 31 459 1 0, XO_MASK, [.O_rD, .O_rA, .O_rB, .O_OE, .O_Rc], false, ascii "divwuo", 0⟩,
  ⟨XO_OPCODE 31 459 1 1, XO_MASK, [.O_rD, .O_rA, .O_rB, .O_OE, .O_Rc], false, ascii "divwuo.", 0⟩,
  ⟨X_OPCODE 31 978 0, X_MASK, [.O_rB], false, ascii "tlbld", 0⟩,
  ⟨X_OPCODE 31 982 0, X_MASK, [.O_rA, .O_rB], false, ascii "icbi", H_RA0_IS_0⟩,
  ⟨XO_OPCODE 31 491 1 0, XO_MASK, [.O_rD, .O_rA, .O_rB, .O_OE, .O_Rc], false, ascii "divwo", 0⟩,
  ⟨XO_OPCODE 31 491 1 1, XO_MASK, [.O_rD, .O_rA, .O_rB, .O_OE, .O_Rc], false, ascii "divwo.", 0⟩,
  ⟨X_OPCODE 31 1010 0, X_MASK, [.O_rB], false, ascii "tlbli", 0⟩,
  ⟨X_OPCODE 31 1014 0, X_MASK, [.O_rA, .O_rB], false, ascii "dcbz", H_RA0_IS_0⟩,
  ⟨D_OPCODE 32, D_MASK, [.O_rD, .O_d, .O_rA], false, ascii "lwz", H_RA0_IS_0⟩,
  ⟨D_OPCODE 33, D_MASK, [.O_rD, .O_d, .O_rA], false, ascii "lwzu", 0⟩,
  ⟨D_OPCODE 34, D_MASK, [.O_rD, .O_d, .O_rA], false, ascii "lbz", H_RA0_IS_0⟩,
  ⟨D_OPCODE 35, D_MASK, [.O_rD, .O_d, .O_rA], false, ascii "lbzu", 0⟩,
  ⟨D_OPCODE 36, D_MASK, [.O_rS, .O_d, .O_rA], false, ascii "stw", H_RA0_IS_0⟩,
  ⟨D_OPCODE 37, D_MASK, [.O_rS, .O_d, .O_rA], false, ascii "stwu", 0⟩,
  ⟨D_OPCODE 38, D_MASK, [.O_rS, .O_d, .O_rA], false, ascii "stb", H_RA0_IS_0⟩,
  ⟨D_OPCODE 39, D_MASK, [.O_rS, .O_d, .O_rA], false, ascii "stbu", 0⟩,
  ⟨D_OPCODE 40, D_MASK, [.O_rD, .O_d, .O_rA], false, ascii "lhz", H_RA0_IS_0⟩,
  ⟨D_OPCODE 41, D_MASK, [.O_rD, .O_d, .O_rA], false, ascii "lhzu", 0⟩,
  ⟨D_OPCODE 42, D_MASK, [.O_rD, .O_d, .O_rA], false, ascii "lha", H_RA0_IS_0⟩,
  ⟨D_OPCODE 43, D_MASK, [.O_rD, .O_d, .O_rA], false, ascii "lhau", 0⟩,
  ⟨D_OPCODE 44, D_MASK, [.O_rS, .O_d, .O_rA], false, ascii "sth", H_RA0_IS_0⟩,
  ⟨D_OPCODE 45, D_MASK, [.O_rS, .O_d, .O_rA], false, ascii "sthu", 0⟩,
  ⟨D_OPCODE 46, D_MASK, [.O_rD, .O_d, .O_rA], false, ascii "lmw", H_RA0_IS_0⟩,
  ⟨D_OPCODE 47, D_MASK, [.O_rS, .O_d, .O_rA], false, ascii "stmw", H_RA0_IS_0⟩]

def spr_map : List (Nat × List UInt8) := [
  (1, ascii "XER"), (8, ascii "LR"), (9, ascii "CTR"), (18, ascii "DSISR"), (19, ascii "DAR"),
  (22, ascii "DEC"), (26, ascii "SRR0"), (27, ascii "SRR1"), (80, ascii "EIE"), (81, ascii "EID"),
  (144, ascii "CMPA"), (145, ascii "CMPB"), (146, ascii "CMPC"), (147, ascii "CMPD"),
  (148, ascii "ICR"), (149, ascii "DER"), (150, ascii "COUNTA"), (151, ascii "COUNTB"),
  (152, ascii "CMPE"), (153, ascii "CMPF"), (154, ascii "CMPG"), (155, ascii "CMPH"),
  (156, ascii "LCTRL1"), (157, ascii "LCTRL2"), (158, ascii "ICTRL"), (159, ascii "BAR"),
  (256, ascii "USPRG0"), (260, ascii "SPRG4_RO"), (261, ascii "SPRG5_RO"), (262, ascii "SPRG6_RO"),
  (263, ascii "SPRG7_RO"), (272, ascii "SPRG0"), (273, ascii "SPRG1"), (274, ascii "SPRG2"),
  (275, ascii "SPRG3"), (276, ascii "SPRG4"), (277, ascii "SPRG5"), (278, ascii "SPRG6"),
  (279, ascii "SPRG7"), (282, ascii "EAR"), (284, ascii "TBL"), (285, ascii "TBU"),
  (560, ascii "IC_CST"), (561, ascii "IC_ADR"), (562, ascii "IC_DAT"), (568, ascii "DC_CST"),
  (569, ascii "DC_ADR"), (570, ascii "DC_DAT"), (630, ascii "DPDR"), (638, ascii "IMMR"),
  (784, ascii "MI_CTR"), (786, ascii "MI_AP"), (787, ascii "MI_EPN"), (789, ascii "MI_TWC"),
  (790, ascii "MI_RPN"), (792, ascii "MD_CTR"), (793, ascii "M_CASID"), (794, ascii "MD_AP"),
  (795, ascii "MD_EPN"), (796, ascii "M_TWB"), (797, ascii "MD_TWC"), (798, ascii "MD_RPN"),
  (799, ascii "M_TW"), (816, ascii "MI_DBCAM"), (817, ascii "MI_DBRAM0"), (818, ascii "MI_DBRAM1"),
  (824, ascii "MD_DBCAM"), (825, ascii "MD_DBRAM0"), (826, ascii "MD_DBRAM1"), (944, ascii "ZPR"),
  (945, ascii "PID"), (947, ascii "CCR0"), (948, ascii "IAC3"), (949, ascii "IAC4"),
  (950, ascii "DVC1"), (951, ascii "DVC2"), (953, ascii "SGR"), (954, ascii "DCWR"),
  (955, ascii "SLER"), (956, ascii "SU0R"), (957, ascii "DBCR1"), (979, ascii "ICDBDR"),
  (980, ascii "ESR"), (981, ascii "DEAR"), (982, ascii "EVPR"), (984, ascii "TSR"),
  (986, ascii "TCR"), (987, ascii "PIT"), (990, ascii "SRR2"), (991, ascii "SRR3"),
  (1008, ascii "DBSR"), (1010, ascii "DBCR0"), (1012, ascii "IAC1"), (1013, ascii "IAC2"),
  (1014, ascii "DAC1"), (1015, ascii "DAC2"), (1018, ascii "DCCR"), (1019, ascii "ICCR")]

end UBoot.Bedbug.Tables
