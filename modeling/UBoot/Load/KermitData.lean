import Mathlib.Data.UInt
import UBoot.Library.Memory

/-!
The characters of a Kermit packet and the decoder of common/cmd_load.c that
writes them to memory while the packet arrives. `char` is a byte. C gives no
meaning to a pointer behind the last address, so addresses do not wrap. An
`Image` is what the decoder has made of a file, without the memory.
-/

namespace UBoot.Load.KermitData

open Library.Memory

def startChar : UInt8 := 0x01

def etxChar : UInt8 := 0x03

def endChar : UInt8 := 0x0d

def kEscape : UInt8 := 0x23

def sendType : UInt8 := 0x53

def dataType : UInt8 := 0x44

def ackType : UInt8 := 0x59

def nackType : UInt8 := 0x4e

def breakType : UInt8 := 0x42

def tochar (x : Nat) : UInt8 := UInt8.ofNat (x + 0x20)

def untochar (x : UInt8) : Nat := (x - 0x20).toNat

/-- A character less than SPACE. -/
def isControl (newChar : UInt8) : Prop := newChar &&& 0xe0 = 0

instance (newChar : UInt8) : Decidable (isControl newChar) :=
  inferInstanceAs (Decidable (newChar &&& 0xe0 = 0))

def ktrans (newChar : UInt8) : UInt8 :=
  if newChar &&& 0x60 = 0x40 then newChar &&& ~~~0x40
  else if newChar &&& 0x7f = 0x3f then newChar ||| 0x40
  else newChar

/-- The type 1 block check of a sum of characters. -/
def blockCheck (sum : Nat) : Nat := (sum + sum / 64 % 4) % 64

/-- The same sum for signed and for unsigned characters. -/
def chk1 (buffer : List UInt8) : Nat :=
  blockCheck ((buffer.takeWhile fun newChar => newChar ≠ 0).map UInt8.toNat).sum

/-- k_data_escape and the variables of os_data_*. -/
structure KData where
  escape : Bool
  state : Nat
  count : Int
  addr : Nat

def kDataInit (binStartAddress : Nat) : KData := ⟨false, 0, 0, binStartAddress⟩

def binDataChar (mem : Nat → UInt8) (data : KData) (newChar : UInt8) : (Nat → UInt8) × KData :=
  match data.state with
  | 0 => (splice mem data.addr [newChar],
      { data with addr := data.addr + 1, count := data.count - 1 })
  | _ + 1 => (mem, data)

def kDataChar (hisQuote : UInt8) (mem : Nat → UInt8) (data : KData) (newChar : UInt8) :
    (Nat → UInt8) × KData :=
  if data.escape then
    ((binDataChar mem data (ktrans newChar)).1,
      { (binDataChar mem data (ktrans newChar)).2 with escape := false })
  else if newChar = hisQuote then (mem, { data with escape := true })
  else binDataChar mem data newChar

section Images

structure Image where
  escape : Bool
  bytes : List UInt8
  deriving DecidableEq

def emptyImage : Image := ⟨false, []⟩

def decodeChar (hisQuote : UInt8) (image : Image) (newChar : UInt8) : Image :=
  if image.escape then ⟨false, image.bytes ++ [ktrans newChar]⟩
  else if newChar = hisQuote then { image with escape := true }
  else { image with bytes := image.bytes ++ [newChar] }

def decode (hisQuote : UInt8) (image : Image) (chars : List UInt8) : Image :=
  chars.foldl (decodeChar hisQuote) image

theorem decode_concat (hisQuote : UInt8) (image : Image) (chars : List UInt8) (newChar : UInt8) :
    decode hisQuote image (chars ++ [newChar]) =
      decodeChar hisQuote (decode hisQuote image chars) newChar := by
  unfold decode
  rw [List.foldl_append]
  rfl

theorem decode_append (hisQuote : UInt8) (image : Image) (first second : List UInt8) :
    decode hisQuote image (first ++ second) =
      decode hisQuote (decode hisQuote image first) second :=
  List.foldl_append

theorem decodeChar_grows (hisQuote : UInt8) (image : Image) (newChar : UInt8) :
    image.bytes.length ≤ (decodeChar hisQuote image newChar).bytes.length := by
  unfold decodeChar
  split
  · simp
  · split
    · exact Nat.le_refl _
    · simp

theorem decode_grows (hisQuote : UInt8) (image : Image) (chars : List UInt8) :
    image.bytes.length ≤ (decode hisQuote image chars).bytes.length := by
  induction chars generalizing image with
  | nil => exact Nat.le_refl _
  | cons newChar rest ih =>
      exact Nat.le_trans (decodeChar_grows hisQuote image newChar) (ih _)

end Images

section Representation

/-- The decoder stands behind an image that it has written from `start` on. -/
structure Rep (start : Nat) (mem : Nat → UInt8) (data : KData) (image : Image) : Prop where
  escape : data.escape = image.escape
  state : data.state = 0
  addr : data.addr = start + image.bytes.length
  written : slice mem start image.bytes.length = image.bytes

variable {start : Nat} {mem : Nat → UInt8} {data : KData} {image : Image}

theorem rep_init (start : Nat) (mem : Nat → UInt8) : Rep start mem (kDataInit start) emptyImage :=
  ⟨rfl, rfl, rfl, rfl⟩

/-- What is written behind an image leaves it as it is. -/
theorem rep_behind {addr : Nat} (rep : Rep start mem data image) (newChar : UInt8)
    (behind : start + image.bytes.length ≤ addr) : Rep start (splice mem addr [newChar]) data image :=
  { rep with
    written := (slice_splice_outside mem addr start image.bytes.length [newChar] (Or.inl behind)).trans
      rep.written }

theorem binDataChar_rep (rep : Rep start mem data image) (newChar : UInt8) :
    Rep start (binDataChar mem data newChar).1 (binDataChar mem data newChar).2
      { image with bytes := image.bytes ++ [newChar] } := by
  have stored : binDataChar mem data newChar = (splice mem data.addr [newChar],
      { data with addr := data.addr + 1, count := data.count - 1 }) := by
    unfold binDataChar
    rw [rep.state]
  rw [stored]
  have length : (image.bytes ++ [newChar]).length = image.bytes.length + 1 := by simp
  constructor
  · exact rep.escape
  · exact rep.state
  · show data.addr + 1 = _
    rw [rep.addr, length, Nat.add_assoc]
  · show slice _ start (image.bytes ++ [newChar]).length = image.bytes ++ [newChar]
    have last := slice_splice_same mem data.addr [newChar]
    rw [length, slice_add, (rep_behind rep newChar (Nat.le_of_eq rep.addr.symm)).written, ← rep.addr]
    exact congrArg (image.bytes ++ ·) last

theorem kDataChar_rep (rep : Rep start mem data image) (hisQuote newChar : UInt8) :
    Rep start (kDataChar hisQuote mem data newChar).1 (kDataChar hisQuote mem data newChar).2
      (decodeChar hisQuote image newChar) := by
  unfold kDataChar decodeChar
  rw [rep.escape]
  by_cases escaped : image.escape = true
  · rw [if_pos escaped, if_pos escaped]
    have stored := binDataChar_rep rep (ktrans newChar)
    exact ⟨rfl, stored.state, stored.addr, stored.written⟩
  · rw [if_neg escaped, if_neg escaped]
    by_cases quote : newChar = hisQuote
    · rw [if_pos quote, if_pos quote]
      exact ⟨rfl, rep.state, rep.addr, rep.written⟩
    · rw [if_neg quote, if_neg quote]
      exact binDataChar_rep rep newChar

theorem kDataChar_mem (rep : Rep start mem data image) (hisQuote newChar : UInt8) :
    (kDataChar hisQuote mem data newChar).1 = mem ∨
      ∃ written, (kDataChar hisQuote mem data newChar).1 = splice mem data.addr [written] := by
  have stored : ∀ written, (binDataChar mem data written).1 = splice mem data.addr [written] := by
    intro written
    unfold binDataChar
    rw [rep.state]
  unfold kDataChar
  split
  · exact Or.inr ⟨ktrans newChar, stored _⟩
  · split
    · exact Or.inl rfl
    · exact Or.inr ⟨newChar, stored _⟩

/-- The image that was saved stays in memory while the decoder writes behind it. -/
theorem kDataChar_saved {saved : KData} {before : Image} (rep : Rep start mem data image)
    (savedRep : Rep start mem saved before) (grown : before.bytes.length ≤ image.bytes.length)
    (hisQuote newChar : UInt8) : Rep start (kDataChar hisQuote mem data newChar).1 saved before := by
  rcases kDataChar_mem rep hisQuote newChar with same | ⟨written, stored⟩
  · rw [same]
    exact savedRep
  · rw [stored]
    refine rep_behind savedRep written ?_
    rw [rep.addr]
    exact Nat.add_le_add_left grown start

end Representation

end UBoot.Load.KermitData
