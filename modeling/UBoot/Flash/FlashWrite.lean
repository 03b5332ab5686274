import UBoot.Flash.AthFlash
import UBoot.Flash.SectRanges

/-!
flash_write of common/flash.c: the range check, the protection scan over the
banks between the one of the first and the one of the last address, and the
write loop over the same banks. Address arithmetic is modulo 2^32. write_buff
of the board always returns 0.
-/

namespace UBoot.Flash.FlashWrite

open Lib.Strings AthFlash SectRanges

def errOk : Nat := 0

def errProtected : Nat := 4

def errInval : Nat := 8

/-- The index of the first identified bank that holds the address. -/
def addr2info (banks : List FlashInfo) (addr : Nat) : Option Nat :=
  banks.findIdx? fun info => info.known && info.start 0 ≤ addr && addr ≤ info.bEnd

/-- The address after a sector, as the protection scan computes it. -/
def eAddr (info : FlashInfo) (sect : Nat) : Nat :=
  if (sect : Int) = info.sEnd then toUlong (info.start 0 + info.size) else info.start (sect + 1)

def hitsProtected (info : FlashInfo) (addr last : Nat) : Bool :=
  (List.range info.sectorCount).any fun i =>
    info.start i ≤ last && addr < eAddr info i && info.protect i != 0

/-- One call `write_buff (info, src + offset, addr, len)`. -/
structure WriteCall where
  info : FlashInfo
  offset : Nat
  addr : Nat
  len : Nat

def writeBanks : List FlashInfo → Nat → Nat → Nat → List WriteCall
  | [], _, _, _ => []
  | info :: rest, offset, addr, cnt =>
      if 0 < cnt then
        let room := toUlong (info.start 0 + info.size - addr)
        let len := if room > cnt then cnt else room
        ⟨info, offset, addr, len⟩ ::
          writeBanks rest (toUlong (offset + len)) (toUlong (addr + len)) (cnt - len)
      else []

structure WriteResult where
  rcode : Nat
  calls : List WriteCall

def flashWrite (banks : List FlashInfo) (addr cnt : Nat) : WriteResult :=
  let last := toUlong (addr + cnt - 1)
  if cnt = 0 then ⟨errOk, []⟩
  else
    match addr2info banks addr, addr2info banks last with
    | some infoFirst, some infoLast =>
        let touched := (banks.drop infoFirst).take (infoLast + 1 - infoFirst)
        if touched.any fun info => hitsProtected info addr last then ⟨errProtected, []⟩
        else ⟨errOk, writeBanks touched 0 addr cnt⟩
    | _, _ => ⟨errInval, []⟩

/-- The chip after the calls, whose source bytes are `source offset`. -/
def writeAll (source : Nat → UInt8) (chip : Chip) (calls : List WriteCall) : Chip :=
  calls.foldl (fun mem call =>
    writeBuff cfgFlashBase mem (fun i => source (call.offset + i)) call.addr call.len) chip

end UBoot.Flash.FlashWrite
