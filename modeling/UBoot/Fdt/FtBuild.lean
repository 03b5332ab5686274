import UBoot.Library.BigEndian
import UBoot.Library.StringTable
import UBoot.Lib.Strings

/-!
The builder of flat device trees in common/ft_build.c and its reader ft_get_prop.
Pointers are offsets from the beginning of the blob, whose address is a multiple
of four; they do not wrap around the address space.
-/

namespace UBoot.Fdt.FtBuild

open Lib.Strings Library.Memory Library.BigEndian Library.StringTable

def ofDtHeader : Nat := 0xd00dfeed

def ofDtBeginNode : Nat := 0x1

def ofDtEndNode : Nat := 0x2

def ofDtProp : Nat := 0x3

def ofDtNop : Nat := 0x4

def ofDtEnd : Nat := 0x9

/-- `_ALIGN`. -/
def align (addr size : Nat) : Nat := (addr + size - 1) / size * size

/-- The blob and the max_size that ft_begin is given; max_size is an int. -/
structure Blob where
  base : Nat
  maxSize : Nat
  aligned : base % 4 = 0
  small : maxSize < 2 ^ 31

structure FtCxt where
  mem : Nat → UInt8
  overflow : Bool
  p : Nat
  pstr : Nat
  pBegin : Nat
  pstrBegin : Nat
  pAnchor : Nat

def setWord (mem : Nat → UInt8) (offset value : Nat) : Nat → UInt8 :=
  splice mem offset (wordBytes value)

def zeros (count : Nat) : List UInt8 := List.replicate count 0

def ftPutWord (cxt : FtCxt) (v : Nat) : FtCxt :=
  if cxt.overflow then cxt
  else if cxt.p + 4 > cxt.pstr then { cxt with overflow := true }
  else { cxt with mem := setWord cxt.mem cxt.p v, p := cxt.p + 4 }

def ftPutBin (cxt : FtCxt) (data : List UInt8) : FtCxt :=
  let sz := data.length
  if cxt.overflow then cxt
  else
    let p := align (cxt.p + sz) 4
    if p > cxt.pstr then { cxt with overflow := true }
    else
      let copied := splice cxt.mem cxt.p data
      { cxt with
        mem := if sz % 4 ≠ 0 then splice copied (cxt.p + sz) (zeros (4 - sz % 4)) else copied
        p := p }

def ftBeginNode (cxt : FtCxt) (name : CString) : FtCxt :=
  ftPutBin (ftPutWord cxt ofDtBeginNode) (name.bytes ++ [0])

def ftEndNode (cxt : FtCxt) : FtCxt := ftPutWord cxt ofDtEndNode

/-- The strings are no longer than the address space, which bounds strlen and the loop. -/
def lookupLoop (cxt : FtCxt) (name : CString) : (fuel p : Nat) → Option Nat
  | 0, _ => none
  | fuel + 1, p =>
      if p < cxt.pstrBegin then
        let string := stringAt cxt.mem (2 ^ 32) p
        if string = name.bytes then some (p - cxt.pBegin)
        else lookupLoop cxt name fuel (p + (string.length + 1))
      else none

/-- `none` for -1. -/
def lookupString (cxt : FtCxt) (name : CString) : Option Nat :=
  lookupLoop cxt name (2 ^ 32) cxt.pstr

/-- The four writes at the end of ft_prop. -/
def ftPutProp (cxt : FtCxt) (off : Nat) (data : List UInt8) : FtCxt :=
  ftPutBin (ftPutWord (ftPutWord (ftPutWord cxt ofDtProp) data.length) off) data

def ftProp (cxt : FtCxt) (name : CString) (data : List UInt8) : FtCxt :=
  if cxt.overflow then cxt
  else
    let len := name.bytes.length + 1
    match lookupString cxt name with
    | some off => ftPutProp cxt off data
    | none =>
        if cxt.p + 12 + data.length + len > cxt.pstr then { cxt with overflow := true }
        else
          let pstr := cxt.pstr - len
          ftPutProp { cxt with mem := splice cxt.mem pstr (name.bytes ++ [0]), pstr := pstr }
            (pstr - cxt.pBegin) data

/-- The size of the header in front of pres_begin, which is aligned to eight bytes. -/
def presBegin (blob : Blob) : Nat := align (blob.base + 36) 8 - blob.base

def ftBegin (blob : Blob) (mem : Nat → UInt8) : FtCxt :=
  let header := setWord (setWord (setWord (splice mem 0 (zeros 36)) 0 ofDtHeader) 20 0x10) 24 0x10
  let reserved := splice (setWord header 16 (presBegin blob)) (presBegin blob) (zeros 16)
  { mem := reserved, overflow := false, p := 0, pstr := 0, pBegin := 0, pstrBegin := 0,
    pAnchor := presBegin blob + 16 }

def ftBeginTree (blob : Blob) (cxt : FtCxt) : FtCxt :=
  { cxt with pBegin := cxt.pAnchor, pstrBegin := blob.maxSize, p := cxt.pAnchor,
             pstr := blob.maxSize }

/-- The fixup of the strings; false for -EINVAL. There are at most 2 ^ 30 words to look at. -/
def fixup (off : Nat) : (fuel p : Nat) → (Nat → UInt8) → Bool × (Nat → UInt8)
  | 0, _, mem => (false, mem)
  | fuel + 1, p, mem =>
      let tag := word mem p
      if tag = ofDtEnd then (true, mem)
      else if tag = ofDtBeginNode then
        fixup off fuel (align (p + 4 + ((stringAt mem (2 ^ 32) (p + 4)).length + 1)) 4) mem
      else if tag = ofDtEndNode ∨ tag = ofDtNop then fixup off fuel (p + 4) mem
      else if tag ≠ ofDtProp then (false, mem)
      else
        let sz := word mem (p + 4)
        let v := (word mem (p + 8) + 2 ^ 32 - off) % 2 ^ 32
        fixup off fuel (align (p + 12 + sz) 4) (setWord mem (p + 8) v)

/-- What ft_end_tree returns, with the context after it. -/
def ftEndTree (cxt : FtCxt) : Int × FtCxt :=
  let cxt := ftPutWord cxt ofDtEnd
  if cxt.overflow then (-12, cxt)
  else
    let structSize := cxt.p - cxt.pBegin
    let stringsSize := cxt.pstrBegin - cxt.pstr
    let off := cxt.pstrBegin - cxt.pBegin - stringsSize
    let pstrBegin := cxt.pBegin + structSize
    let moved := splice cxt.mem pstrBegin (slice cxt.mem cxt.pstr stringsSize)
    match fixup off (2 ^ 30) cxt.pBegin moved with
    | (false, mem) => (-22, { cxt with mem := mem, pstrBegin := pstrBegin })
    | (true, mem) =>
        let sz := pstrBegin + stringsSize
        let sz1 := align sz 16
        let padded := splice mem sz (zeros (sz1 - sz))
        let sized := setWord (setWord (setWord padded 4 sz1) 8 cxt.pBegin) 12 pstrBegin
        (0, { cxt with mem := sized, pstrBegin := pstrBegin, pstr := pstrBegin + stringsSize })

/-- One call between ft_begin_tree and ft_end_tree. -/
inductive Call where
  | beginNode (name : CString)
  | endNode
  | prop (name : CString) (data : List UInt8)

def ftCall (cxt : FtCxt) : Call → FtCxt
  | .beginNode name => ftBeginNode cxt name
  | .endNode => ftEndNode cxt
  | .prop name data => ftProp cxt name data

def buildTree (blob : Blob) (mem : Nat → UInt8) (calls : List Call) : Int × FtCxt :=
  ftEndTree (calls.foldl ftCall (ftBeginTree blob (ftBegin blob mem)))

/-! ## The reader -/

/-- What ft_get_prop returns: the data and *szp, NULL, or nothing that can be relied on once path
or prop, which have 256 bytes, has been overrun. -/
inductive GetProp where
  | found (t : Nat) (sz : Int)
  | null
  | overrun
deriving DecidableEq

/-- The path after OF_DT_END_NODE; `path[strlen(path) - 1]` is in front of an empty path. -/
def closePath (path : List UInt8) : Option (List UInt8) :=
  if path = [] then none
  else
    let path := path.dropLast
    some (if 47 ∈ path then (path.reverse.dropWhile fun c => c != 47).reverse else path)

def getLoop (base : Nat) (mem : Nat → UInt8) (pStrings version : Nat) (propname : List UInt8) :
    (fuel p : Nat) → (path : List UInt8) → GetProp
  | 0, _, _ => .null
  | fuel + 1, p, path =>
      let tag := word mem p
      if tag = ofDtEnd then .null
      else if tag = ofDtBeginNode then
        let s := stringAt mem (2 ^ 32) (p + 4)
        let path := path ++ s ++ [47]
        if path.length > 255 then .overrun
        else getLoop base mem pStrings version propname fuel (align (p + 4 + (s.length + 1)) 4) path
      else if tag = ofDtEndNode then
        match closePath path with
        | none => .overrun
        | some path => getLoop base mem pStrings version propname fuel (p + 4) path
      else if tag = ofDtNop then getLoop base mem pStrings version propname fuel (p + 4) path
      else if tag ≠ ofDtProp then .null
      else
        let sz := word mem (p + 4)
        let s := stringAt mem (2 ^ 32) (pStrings + word mem (p + 8))
        let t := if version < 0x10 ∧ toInt sz ≥ 8 then align (base + p + 12) 8 - base else p + 12
        let prop := path ++ s
        if prop.length > 255 then .overrun
        else if prop = propname then .found t (toInt sz)
        else getLoop base mem pStrings version propname fuel (align (t + sz) 4) path

/-- `ft_get_prop (bphp, propname, szp)` for a blob at address `base`. -/
def ftGetProp (base : Nat) (mem : Nat → UInt8) (propname : List UInt8) : GetProp :=
  getLoop base mem (word mem 12) (word mem 20) propname (2 ^ 30) (word mem 8) []

end UBoot.Fdt.FtBuild
