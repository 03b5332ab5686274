import UBoot.Bedbug.Disppc

/-!
The assembler of common/bedbug.c: get_word, read_number, parse_operand and asmppc. The target is
big-endian. A word of the text is taken to fit into `scratch`.
-/

namespace UBoot.Bedbug.Asmppc

open Lib.Strings Tables Disppc

def E_ASM_BAD_OPCODE : Nat := 1
def E_ASM_NUM_OPERANDS : Nat := 2
def E_ASM_BAD_REGISTER : Nat := 3
def E_ASM_BAD_SPR : Nat := 4
def E_ASM_BAD_TBR : Nat := 5

def htonl (n : Int) : Int := n

def isblank (c : UInt8) : Bool := (9 ≤ c && c ≤ 13) || c = 32 || c = 160

def isupper (c : UInt8) : Bool := (65 ≤ c && c ≤ 90) || (192 ≤ c && c ≤ 222 && c != 215)

def downstring (s : List UInt8) : List UInt8 := s.map fun c => if isupper c then c + 32 else c

/-- The next word and the text behind it, or nothing where it has no characters. -/
def getWord (src : List UInt8) : Option (List UInt8 × List UInt8) :=
  let ptr := src.dropWhile isblank
  let word := ptr.takeWhile fun c => !isblank c && c != 44
  let rest := ptr.dropWhile fun c => !isblank c && c != 44
  if word = [] then none
  else some (word, if rest.head? = some 44 then rest.tail else rest)

def readMagnitude (txt : List UInt8) : Int :=
  match txt with
  | 48 :: x :: rest =>
      if x = 120 ∨ x = 88 then toInt (simpleStrtoul rest 16).value
      else toInt (simpleStrtoul (48 :: x :: rest) 10).value
  | txt => toInt (simpleStrtoul txt 10).value

def readNumber (txt : List UInt8) : Int :=
  match txt with
  | [] => 0
  | 45 :: rest => toInt (toUlong (-readMagnitude rest))
  | txt => readMagnitude txt

def findOpcodeByName (name : List UInt8) : Option Opcode :=
  opcodes.find? fun op => op.name = downstring name

/-- 0 where there is no such register. -/
def sprValue (name : List UInt8) : Nat :=
  match name with
  | [] => 0
  | c :: _ =>
      if isdigit c then reversed (toUlong (htonl (readNumber name)))
      else
        match spr_map.find? fun sprp => sprp.2 = downstring name with
        | none => 0
        | some sprp => reversed (toUlong (htonl sprp.1))

def tbrValue (name : List UInt8) : Nat :=
  match downstring name with
  | [] => 0
  | c :: rest =>
      if isdigit c then
        let val := readNumber (c :: rest)
        if val ≠ 268 ∧ val ≠ 269 then 0 else reversed (toUlong (htonl val))
      else if c :: rest = ascii "tbl" then reversed (toUlong (htonl 268))
      else if c :: rest = ascii "tbu" then reversed (toUlong (htonl 269))
      else 0

/-- -1 as an unsigned long. -/
def bad : Nat := 2 ^ 32 - 1

/-- `txt` without the letter of a register. -/
def registerText (txt : List UInt8) : List UInt8 :=
  match txt with
  | 37 :: c :: rest => if c = 114 ∨ c = 82 then rest else txt
  | c :: rest => if c = 114 ∨ c = 82 then rest else txt
  | [] => []

/-- The displacement to an address, with its sign in the highest bit. -/
def addrField (memaddr : Nat) (opc : Opcode) (oper : Operand) (data : Int) : Nat :=
  let mask := 1 <<< oper.bits - 1
  let data := if opc.hint &&& H_RELATIVE ≠ 0 then toInt (toUlong (data - memaddr)) else data
  let low := toUlong (data / 4) &&& (mask >>> 1)
  if data < 0 then low ||| 1 <<< (oper.bits - 1) else low

/-- The operand at its place, or -1 with an error. -/
def parseOperand (memaddr : Nat) (opc : Opcode) (oper : Operand) (txt : List UInt8) : Nat × Nat :=
  let mask := 1 <<< oper.bits - 1
  let placed (data : Nat) := ((data &&& mask) <<< oper.shift, 0)
  if oper.hint &&& OH_ADDR ≠ 0 then placed (addrField memaddr opc oper (readNumber txt))
  else if oper.hint &&& OH_REG ≠ 0 then
    let data := readNumber (registerText txt)
    if data > 31 then (bad, E_ASM_BAD_REGISTER) else placed (toUlong (htonl data))
  else if oper.hint &&& OH_SPR ≠ 0 then
    if sprValue txt = 0 then (bad, E_ASM_BAD_SPR) else placed (sprValue txt)
  else if oper.hint &&& OH_TBR ≠ 0 then
    if tbrValue txt = 0 then (bad, E_ASM_BAD_TBR) else placed (tbrValue txt)
  else placed (toUlong (htonl (readNumber txt)))

/-- What asmppc returns, and `*err`. -/
structure Assembled where
  instr : Nat
  err : Nat
  deriving DecidableEq

/-- The operands that are still wanted, read from the text. -/
def readOperands (memaddr : Nat) (opc : Opcode) : List OpField → List UInt8 → (instr : Nat) → Assembled
  | [], _, instr => ⟨instr, 0⟩
  | f :: rest, ptr, instr =>
      let oper := operands f
      if oper.hint &&& OH_SILENT ≠ 0 then readOperands memaddr opc rest ptr instr
      else
        match getWord ptr with
        | none => ⟨0, E_ASM_NUM_OPERANDS⟩
        | some (scratch, ptr) =>
            let param := parseOperand memaddr opc oper scratch
            if param.1 = bad then ⟨0, param.2⟩
            else readOperands memaddr opc rest ptr (instr ||| param.1)

def asmppc (memaddr : Nat) (asmBuf : List UInt8) : Assembled :=
  match getWord asmBuf with
  | none => ⟨0, 0⟩
  | some (scratch, ptr) =>
      match findOpcodeByName scratch with
      | none => ⟨0, E_ASM_BAD_OPCODE⟩
      | some opc => readOperands memaddr opc opc.fields ptr opc.opcode

end UBoot.Bedbug.Asmppc
