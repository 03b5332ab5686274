import UBoot.Flash.FlashWrite

/-!
The commands of common/cmd_flash.c that change the flash or its protection
table, and `cp` of common/cmd_mem.c with a target in flash. JFFS2 partitions,
CFG_FLASH_PROTECTION and DataFlash are not configured for this board.
-/

namespace UBoot.Flash.FlashCommands

open Lib.Strings SectRanges FlashWrite

inductive AbbrevSpec where
  | notSpec
  | bad
  | sectors (bank : Nat) (sectFirst sectLast : Int)

/-- The sector numbers of an abbreviated spec: parsed as unsigned, compared as signed. -/
def abbrevSectors (fp : FlashInfo) (bank : Nat) (firstText : List UInt8)
    (lastText : Option (List UInt8)) : AbbrevSpec :=
  let first := simpleStrtoul firstText 10
  if first.malformed firstText ∨ fp.sectorCount ≤ toInt first.value then .bad
  else
    match lastText with
    | none => .sectors bank (toInt first.value) (toInt first.value)
    | some text =>
        let last := simpleStrtoul text 10
        if last.malformed text ∨ toInt last.value < toInt first.value ∨
            fp.sectorCount ≤ toInt last.value then .bad
        else .sectors bank (toInt first.value) (toInt last.value)

/-- B:SF[-SL]; banks are counted from one. -/
def abbrevSpec (banks : List FlashInfo) (str : List UInt8) : AbbrevSpec :=
  match cutAt 58 str with
  | none => .notSpec
  | some (bankText, sectorText) =>
      let bank := simpleStrtoul bankText 10
      if bank.malformed bankText ∨ toInt bank.value < 1 ∨ banks.length < toInt bank.value then .bad
      else
        match banks[bank.value - 1]? with
        | none => .bad
        | some fp =>
            if fp.known = false then .bad
            else
              match cutAt 45 sectorText with
              | none => abbrevSectors fp (bank.value - 1) sectorText none
              | some (firstText, lastText) =>
                  abbrevSectors fp (bank.value - 1) firstText (some lastText)

def addrSpecSectorEnd (info : FlashInfo) (i : Nat) : Nat :=
  if i + 1 = info.sectorCount then info.bEnd else toUlong (info.start (i + 1) - 1)

/-- The end of the first sector of the table that holds the address. -/
def roundToSector (banks : List FlashInfo) (addr : Nat) : Option Nat :=
  banks.findSome? fun info =>
    (List.range info.sectorCount).findSome? fun i =>
      if addr ≤ addrSpecSectorEnd info i ∧ info.start i ≤ addr then some (addrSpecSectorEnd info i)
      else none

/-- `start end` or `start +length`. -/
def addrSpec (banks : List FlashInfo) (arg1 arg2 : List UInt8) : Option (Nat × Nat) :=
  let first := simpleStrtoul arg1 16
  if first.malformed arg1 then none
  else
    let lenUsed := arg2.head? == some 43
    let lastText := if lenUsed then arg2.tail else arg2
    let last := simpleStrtoul lastText 16
    if last.malformed lastText then none
    else if lenUsed then
      (roundToSector banks (toUlong (first.value + last.value - 1))).map (first.value, ·)
    else some (first.value, last.value)

def wholeBank (info : FlashInfo) : FlashInfo × Int × Int := (info, 0, info.sectorCount - 1)

/-- `erase`: the return code and the calls of flash_erase, which returns 0. -/
def doFlerase (banks : List FlashInfo) (argv : List CString) : SectErase :=
  match argv with
  | _ :: arg1 :: more =>
      if arg1.bytes = ascii "all" then ⟨0, banks.map wholeBank⟩
      else
        match abbrevSpec banks arg1.bytes, more with
        | .bad, _ => ⟨1, []⟩
        | .sectors bank sectFirst sectLast, _ =>
            ⟨0, banks[bank]?.toList.map fun info => (info, sectFirst, sectLast)⟩
        | .notSpec, [arg2] =>
            if arg1.bytes = ascii "bank" then
              let bank := (simpleStrtoul arg2.bytes 16).value
              if bank < 1 ∨ banks.length < bank then ⟨1, []⟩
              else ⟨0, banks[bank - 1]?.toList.map wholeBank⟩
            else
              match addrSpec banks arg1.bytes arg2.bytes with
              | none => ⟨1, []⟩
              | some (addrFirst, addrLast) =>
                  if addrFirst ≥ addrLast then ⟨1, []⟩ else flashSectErase banks addrFirst addrLast
        | .notSpec, _ => ⟨1, []⟩
  | _ => ⟨1, []⟩

/-- `info->protect[i] = p` for every sector of the range. -/
def protectRange (info : FlashInfo) (p : UInt8) (sFirst sLast : Int) : FlashInfo :=
  { info with protect := fun i => if sFirst ≤ i ∧ (i : Int) ≤ sLast then p else info.protect i }

def protectBank (p : UInt8) (info : FlashInfo) : FlashInfo :=
  if info.known then protectRange info p 0 (info.sectorCount - 1) else info

structure Protect where
  rcode : Nat
  banks : List FlashInfo

def flashSectProtect (banks : List FlashInfo) (p : UInt8) (addrFirst addrLast : Nat) : Protect :=
  let filled := flashFillSectRanges banks addrFirst addrLast
  if filled.count ≠ 0 ∧ filled.rcode = 0 then
    ⟨0, List.zipWith (fun info range =>
      if info.known ∧ 0 ≤ range.1 ∧ range.1 ≤ range.2 then protectRange info p range.1 range.2
      else info) banks filled.ranges⟩
  else if filled.rcode = 0 then ⟨1, banks⟩
  else ⟨filled.rcode, banks⟩

/-- The part of `protect` after on or off; `none` when a negative sector number makes it write in
front of the table. -/
def doProtectTarget (banks : List FlashInfo) (p : UInt8) (target : List UInt8)
    (more : List CString) : Option Protect :=
  if target = ascii "all" then some ⟨0, banks.map (protectBank p)⟩
  else
    match abbrevSpec banks target, more with
    | .bad, _ => some ⟨1, banks⟩
    | .sectors bank sectFirst sectLast, _ =>
        if sectFirst < 0 then none
        else some ⟨0, banks.modify bank fun info => protectRange info p sectFirst sectLast⟩
    | .notSpec, [arg3] =>
        if target = ascii "bank" then
          let bank := (simpleStrtoul arg3.bytes 16).value
          if bank < 1 ∨ banks.length < bank ∨ ¬ (banks[bank - 1]?.any (·.known)) then
            some ⟨1, banks⟩
          else some ⟨0, banks.modify (bank - 1) (protectBank p)⟩
        else
          match addrSpec banks target arg3.bytes with
          | none => some ⟨1, banks⟩
          | some (addrFirst, addrLast) =>
              if addrFirst ≥ addrLast then some ⟨1, banks⟩
              else some (flashSectProtect banks p addrFirst addrLast)
    | .notSpec, _ => some ⟨1, banks⟩

def doProtect (banks : List FlashInfo) (argv : List CString) : Option Protect :=
  match argv with
  | _ :: arg1 :: arg2 :: more =>
      if arg1.bytes = ascii "off" then doProtectTarget banks 0 arg2.bytes more
      else if arg1.bytes = ascii "on" then doProtectTarget banks 1 arg2.bytes more
      else some ⟨1, banks⟩
  | _ => some ⟨1, banks⟩

def cmdGetDataSize (arg : List UInt8) (defaultSize : Int) : Int :=
  if 2 < arg.length ∧ arg[arg.length - 2]? = some 46 then
    match arg[arg.length - 1]? with
    | some 98 => 1
    | some 119 => 2
    | some 108 => 4
    | some 115 => -2
    | _ => -1
  else defaultSize

/-- The target and the byte count that `cp` hands to flash_write, if its target is in flash. -/
def doMemCpTarget (banks : List FlashInfo) (baseAddress : Nat) (argv : List CString) :
    Option (Nat × Nat) :=
  match argv with
  | [arg0, _, arg2, arg3] =>
      let size := cmdGetDataSize arg0.bytes 4
      let dest := toUlong ((simpleStrtoul arg2.bytes 16).value + baseAddress)
      let count := (simpleStrtoul arg3.bytes 16).value
      if size < 0 ∨ count = 0 ∨ addr2info banks dest = none then none
      else some (dest, toUlong (count * size))
  | _ => none

end UBoot.Flash.FlashCommands
