import UBoot.Lib.Strings
import UBoot.Library.BigEndian

/-!
common/s_record.c: srec_decode, and the texts that save_serial of
common/cmd_load.c makes of a record.
-/

namespace UBoot.Load.SRecord

open Lib.Strings Library.BigEndian

inductive SrecType where
  | start
  | data2
  | data3
  | data4
  | count
  | end4
  | end3
  | end2
  deriving DecidableEq

def srecEBadtype : Int := -1

def srecENosrec : Int := -2

def srecEBadchks : Int := -3

/-- What srec_decode returns, with `*count`, `*addr` and the data of a record. -/
inductive Srec where
  | empty
  | error (code : Int)
  | record (type : SrecType) (count : Int) (addr : Nat) (data : List UInt8)
  deriving DecidableEq

def hex1Bin (c : UInt8) : Option Nat :=
  if 48 ≤ c ∧ c ≤ 57 then some (c.toNat - 48)
  else if 97 ≤ c ∧ c ≤ 102 then some (c.toNat + 10 - 97)
  else if 65 ≤ c ∧ c ≤ 70 then some (c.toNat + 10 - 65)
  else none

/-- The value of two digits and the text behind them. -/
def hex2Bin : List UInt8 → Option (Nat × List UInt8)
  | first :: second :: rest =>
      match hex1Bin first, hex1Bin second with
      | some i, some j => some (i * 16 + j, rest)
      | _, _ => none
  | _ => none

/-- So many bytes, and the text behind them. -/
def hexBytes : Nat → List UInt8 → Option (List UInt8 × List UInt8)
  | 0, input => some ([], input)
  | n + 1, input =>
      match hex2Bin input with
      | none => none
      | some (v, input) => (hexBytes n input).map fun more => (UInt8.ofNat v :: more.1, more.2)

/-- The text behind the first 'S'. -/
def afterS : List UInt8 → List UInt8
  | [] => []
  | c :: rest => if c = 83 then rest else afterS rest

/-- The type of a record and the bytes of its address field. -/
def srecType (v : UInt8) : Option (SrecType × Nat) :=
  if v = 48 then some (.start, 2)
  else if v = 49 then some (.data2, 2)
  else if v = 50 then some (.data3, 3)
  else if v = 51 then some (.data4, 4)
  else if v = 53 then some (.count, 2)
  else if v = 55 then some (.end4, 4)
  else if v = 56 then some (.end3, 3)
  else if v = 57 then some (.end2, 2)
  else none

def sum (bytes : List UInt8) : Nat := (bytes.map UInt8.toNat).sum

/-- From the address field on. -/
def decodeFields (type : SrecType) (addrLen length : Nat) (input : List UInt8) : Srec :=
  let count : Int := if type = .count then 0 else length - (addrLen + 1)
  match hexBytes addrLen input with
  | none => .error srecENosrec
  | some (field, input) =>
      let addr := field.foldl (fun addr v => (addr * 256 + v.toNat) % 2 ^ 32) 0
      match hexBytes count.toNat input with
      | none => .error srecENosrec
      | some (data, input) =>
          match hex2Bin input with
          | none => .error srecENosrec
          | some (v, _) =>
              let chksum := (length + sum field + sum data) % 256
              if v ≠ 255 - chksum then .error srecEBadchks else .record type count addr data

def srecDecode (input : List UInt8) : Srec :=
  match afterS input with
  | [] => .empty
  | v :: input =>
      match hex2Bin input with
      | none => .error srecENosrec
      | some (length, input) =>
          match srecType v with
          | none => .error srecEBadtype
          | some (type, addrLen) => decodeFields type addrLen length input

/-- `hex[n]` of save_serial; printf's %X has the same digits. -/
def hexDigit (n : Nat) : UInt8 := (ascii "0123456789ABCDEF").getD n 0

/-- %02X of a byte. -/
def hexByte (n : Nat) : List UInt8 := [hexDigit (n / 16 % 16), hexDigit (n % 16)]

def hexText (bytes : List UInt8) : List UInt8 := bytes.flatMap fun byte => hexByte byte.toNat

/-- SREC3_FORMAT without its line end; `data` is text already. -/
def srec3Format (length address : Nat) (data : List UInt8) (checksum : Nat) : List UInt8 :=
  ascii "S3" ++ hexByte length ++ hexText (wordBytes address) ++ data ++ hexByte checksum

section Digits

theorem hex_digit_read (n : Nat) (bound : n < 16) : hex1Bin (hexDigit n) = some n := by
  have all : ∀ m < 16, hex1Bin (hexDigit m) = some m := by decide
  exact all n bound

theorem hex_byte_read (n : Nat) (rest : List UInt8) (bound : n < 256) :
    hex2Bin (hexByte n ++ rest) = some (n, rest) := by
  have high := hex_digit_read (n / 16 % 16) (by omega)
  have low := hex_digit_read (n % 16) (by omega)
  simp only [hexByte, List.cons_append, List.nil_append, hex2Bin, high, low]
  have whole : n / 16 % 16 * 16 + n % 16 = n := by omega
  rw [whole]

theorem hex_text_read (bytes rest : List UInt8) :
    hexBytes bytes.length (hexText bytes ++ rest) = some (bytes, rest) := by
  induction bytes with
  | nil => rfl
  | cons byte more ih =>
      have first : hexText (byte :: more) ++ rest =
          hexByte byte.toNat ++ (hexText more ++ rest) := by simp [hexText]
      rw [List.length_cons, first]
      simp only [hexBytes, hex_byte_read _ _ byte.toNat_lt, ih, Option.map_some, UInt8.ofNat_toNat]

theorem word_bytes_read (address : Nat) (bound : address < 2 ^ 32) :
    (wordBytes address).foldl (fun addr v => (addr * 256 + v.toNat) % 2 ^ 32) 0 = address := by
  simp only [wordBytes, List.foldl_cons, List.foldl_nil, UInt8.toNat_ofNat']
  omega

/-- A record with the right checksum is decoded to its address and its data. -/
theorem srec_decode_data (address : Nat) (data : List UInt8) (checksum : Nat)
    (bound : address < 2 ^ 32) (short : data.length ≤ 250)
    (checks : checksum = 255 - (5 + data.length + sum (wordBytes address) + sum data) % 256) :
    srecDecode (srec3Format (5 + data.length) address (hexText data) checksum) =
      .record .data4 data.length address data := by
  have text : srec3Format (5 + data.length) address (hexText data) checksum =
      83 :: 51 :: (hexByte (5 + data.length) ++ (hexText (wordBytes address) ++
        (hexText data ++ (hexByte checksum ++ [])))) := by
    simp only [srec3Format, List.append_assoc, List.append_nil]
    rfl
  have length := hex_byte_read (5 + data.length) (hexText (wordBytes address) ++
    (hexText data ++ (hexByte checksum ++ []))) (by omega)
  have field := hex_text_read (wordBytes address) (hexText data ++ (hexByte checksum ++ []))
  have content := hex_text_read data (hexByte checksum ++ [])
  have last := hex_byte_read checksum [] (by omega)
  have count : ((5 + data.length : Nat) : Int) - ((4 : Nat) + 1) = data.length := by omega
  rw [show (wordBytes address).length = 4 from rfl] at field
  have place := word_bytes_read address bound
  have verified : ¬ checksum ≠ 255 - (5 + data.length + sum (wordBytes address) + sum data) % 256 :=
    fun differs => differs checks
  have fields : decodeFields .data4 4 (5 + data.length) (hexText (wordBytes address) ++
      (hexText data ++ (hexByte checksum ++ []))) = .record .data4 data.length address data := by
    unfold decodeFields
    simp only [field, place, reduceCtorEq, if_false, count, Int.toNat_natCast, content, last,
      if_neg verified]
  rw [text]
  simp only [srecDecode, afterS, if_true, length]
  exact fields

end Digits

end UBoot.Load.SRecord
