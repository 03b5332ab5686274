import UBoot.Load.Loads

/-!
The S-records as include/s_record.h describes them, and the lines that srec_decode takes for
one. The length of a record includes its address, its data and its checksum; srec_decode subtracts
the width of the address from it without a look whether it is covered.
-/

namespace UBoot.Load.SRecordGrammar

open Lib.Strings Library.Memory Flash.SectRanges SRecord Loads

/-- A line with a record: its bytes stand as hex digits behind the 'S' and the type, the length
covers what follows it, and all of them add up to the complement of 0. -/
structure IsRecord (line : List UInt8) (type : SrecType) (address data : List UInt8) : Prop where
  written : ∃ v text length checksum rest, afterS line = v :: text ∧
    srecType v = some (type, address.length) ∧
    hexBytes (1 + address.length + data.length + 1) text =
      some (length :: (address ++ data) ++ [checksum], rest) ∧
    length.toNat = address.length + data.length + 1 ∧
    (length.toNat + sum address + sum data + checksum.toNat) % 256 = 255
  counted : type = .count → data = []

def addressValue (address : List UInt8) : Nat :=
  address.foldl (fun addr v => (addr * 256 + v.toNat) % 2 ^ 32) 0

/-- srec_decode accepts the records and no other lines, and what it says of a record is so; the
length that load_serial copies is then that of the data, and no memory behind them changes. -/
structure DecodesRecords (line : List UInt8) : Prop where
  accepts : ∀ type, (∃ count addr data, srecDecode line = .record type count addr data) ↔
    ∃ address data, IsRecord line type address data
  fields : ∀ type count addr data, srecDecode line = .record type count addr data →
    0 ≤ count ∧ count = data.length ∧ toUlong count = data.length ∧
      ∃ address, IsRecord line type address data ∧ addr = addressValue address
  copies : ∀ type count addr data, srecDecode line = .record type count addr data →
    ∀ banks offset loader after, takeRecord banks offset loader line = .more after →
      ∀ i, data.length ≤ i → i < 2 ^ 32 →
        after.memory ((addr + offset + i) % 2 ^ 32) = loader.memory ((addr + offset + i) % 2 ^ 32)

/-- The width of the address of a record and its length: too short a length, or one of a count
record that leaves room for data. -/
def Uncovering (type : SrecType) (addrLen length : Nat) : Prop :=
  length < addrLen + 1 ∨ type = .count ∧ length ≠ addrLen + 1

/-- Behind such a length stand the digits of an address and of what would be its checksum. -/
def Uncovered (line : List UInt8) : Prop :=
  ∃ v text type addrLen length address checksum rest, afterS line = v :: text ∧
    srecType v = some (type, addrLen) ∧ Uncovering type addrLen length.toNat ∧
    address.length = addrLen ∧
    hexBytes (1 + addrLen + 1) text = some (length :: address ++ [checksum], rest) ∧
    (length.toNat + sum address + checksum.toNat) % 256 = 255

/-! ### Hex digits -/

theorem hex_bytes_add (first second : Nat) : ∀ input, hexBytes (first + second) input =
    (hexBytes first input).bind fun front =>
      (hexBytes second front.2).map fun back => (front.1 ++ back.1, back.2) := by
  induction first with
  | zero =>
      intro input
      rw [Nat.zero_add, show hexBytes 0 input = some ([], input) by rw [hexBytes], Option.bind_some]
      cases hexBytes second input <;> rfl
  | succ first inductive_hypothesis =>
      intro input
      rw [Nat.succ_add, hexBytes, hexBytes]
      cases hex2Bin input with
      | none => rfl
      | some read =>
          dsimp only
          rw [inductive_hypothesis]
          cases hexBytes first read.2 with
          | none => rfl
          | some front =>
              rw [Option.bind_some, Option.map_some, Option.bind_some]
              dsimp only
              cases hexBytes second front.2 <;> rfl

theorem hex_bytes_length (n : Nat) : ∀ input bytes rest,
    hexBytes n input = some (bytes, rest) → bytes.length = n := by
  induction n with
  | zero =>
      intro input bytes rest read
      rw [hexBytes, Option.some.injEq, Prod.mk.injEq] at read
      rw [← read.1]
      rfl
  | succ n inductive_hypothesis =>
      intro input bytes rest read
      rw [hexBytes] at read
      cases first : hex2Bin input with
      | none =>
          rw [first] at read
          cases read
      | some pair =>
          rw [first] at read
          obtain ⟨⟨more, behind⟩, later, same⟩ := Option.map_eq_some_iff.mp read
          rw [← (Prod.mk.inj same).1, List.length_cons, inductive_hypothesis _ _ _ later]

theorem hex1_lt {c : UInt8} {n : Nat} (read : hex1Bin c = some n) : n < 16 := by
  unfold hex1Bin at read
  split at read
  · next digit =>
      have low := UInt8.le_iff_toNat_le.mp digit.1
      have high := UInt8.le_iff_toNat_le.mp digit.2
      rw [← Option.some.inj read]
      have : (57 : UInt8).toNat = 57 := rfl
      have : (48 : UInt8).toNat = 48 := rfl
      omega
  split at read
  · next digit =>
      have low := UInt8.le_iff_toNat_le.mp digit.1
      have high := UInt8.le_iff_toNat_le.mp digit.2
      rw [← Option.some.inj read]
      have : (97 : UInt8).toNat = 97 := rfl
      have : (102 : UInt8).toNat = 102 := rfl
      omega
  split at read
  · next digit =>
      have low := UInt8.le_iff_toNat_le.mp digit.1
      have high := UInt8.le_iff_toNat_le.mp digit.2
      rw [← Option.some.inj read]
      have : (65 : UInt8).toNat = 65 := rfl
      have : (70 : UInt8).toNat = 70 := rfl
      omega
  · cases read

theorem hex2_lt {input rest : List UInt8} {n : Nat} (read : hex2Bin input = some (n, rest)) :
    n < 256 := by
  unfold hex2Bin at read
  split at read
  · next first second behind =>
      split at read
      · next i j high low =>
          have := hex1_lt high
          have := hex1_lt low
          rw [Option.some.injEq, Prod.mk.injEq] at read
          omega
      · cases read
  · cases read

/-- One pair of digits is one byte. -/
theorem hex2_iff {input rest : List UInt8} {c : UInt8} :
    hexBytes 1 input = some ([c], rest) ↔ hex2Bin input = some (c.toNat, rest) := by
  rw [hexBytes]
  cases read : hex2Bin input with
  | none => constructor <;> intro absent <;> cases absent
  | some pair =>
      obtain ⟨n, behind⟩ := pair
      have bound := hex2_lt read
      simp only [hexBytes, Option.map_some, Option.some.injEq, Prod.mk.injEq, List.cons.injEq,
        and_true]
      constructor
      · rintro ⟨rfl, rfl⟩
        exact ⟨(UInt8.toNat_ofNat_of_lt' bound).symm, rfl⟩
      · rintro ⟨rfl, rfl⟩
        exact ⟨UInt8.ofNat_toNat, rfl⟩

/-- The length, the address, the data and the checksum, read one behind the other. -/
theorem hex_bytes_split {first second : Nat} {input rest : List UInt8} {bytes : List UInt8} :
    hexBytes (first + second) input = some (bytes, rest) ↔
      ∃ front back between, hexBytes first input = some (front, between) ∧
        hexBytes second between = some (back, rest) ∧ bytes = front ++ back := by
  rw [hex_bytes_add, Option.bind_eq_some_iff]
  constructor
  · rintro ⟨⟨front, between⟩, read, later⟩
    obtain ⟨⟨back, behind⟩, more, same⟩ := Option.map_eq_some_iff.mp later
    obtain ⟨rfl, rfl⟩ := Prod.mk.inj same
    exact ⟨front, back, between, read, more, rfl⟩
  · rintro ⟨front, back, between, read, more, rfl⟩
    exact ⟨(front, between), read, Option.map_eq_some_iff.mpr ⟨(back, rest), more, rfl⟩⟩

theorem hex_bytes_cons {n : Nat} {input bytes rest : List UInt8} {c : UInt8} :
    hexBytes (1 + n) input = some (c :: bytes, rest) ↔
      ∃ between, hex2Bin input = some (c.toNat, between) ∧
        hexBytes n between = some (bytes, rest) := by
  rw [hex_bytes_split]
  constructor
  · rintro ⟨front, back, between, first, later, same⟩
    obtain ⟨byte, rfl⟩ := List.length_eq_one_iff.mp (hex_bytes_length _ _ _ _ first)
    obtain ⟨rfl, rfl⟩ := List.cons_eq_cons.mp same
    exact ⟨between, hex2_iff.mp first, later⟩
  · rintro ⟨between, first, later⟩
    exact ⟨[c], bytes, between, hex2_iff.mpr first, later, rfl⟩

/-! ### What is accepted -/

/-- `*count` behind the switch over the types. -/
def countOf (type : SrecType) (addrLen length : Nat) : Int :=
  if type = .count then 0 else length - (addrLen + 1)

theorem complement_iff (total : Nat) {v : Nat} (bound : v < 256) :
    v = 255 - total % 256 ↔ (total + v) % 256 = 255 := by
  omega

theorem decode_fields_iff {type found : SrecType} {addrLen length addr : Nat} {count : Int}
    {input data : List UInt8} :
    decodeFields type addrLen length input = .record found count addr data ↔
      found = type ∧ count = countOf type addrLen length ∧ data.length = count.toNat ∧
        ∃ address checksum rest, address.length = addrLen ∧ addr = addressValue address ∧
          hexBytes (addrLen + data.length + 1) input =
            some (address ++ data ++ [checksum], rest) ∧
          (length + sum address + sum data + checksum.toNat) % 256 = 255 := by
  unfold decodeFields
  rw [← countOf]
  constructor
  · intro accepted
    dsimp only at accepted
    cases field : hexBytes addrLen input with
    | none =>
        rw [field] at accepted
        cases accepted
    | some first =>
        obtain ⟨address, behind⟩ := first
        rw [field] at accepted
        dsimp only at accepted
        cases content : hexBytes (countOf type addrLen length).toNat behind with
        | none =>
            rw [content] at accepted
            cases accepted
        | some second =>
            obtain ⟨bytes, last⟩ := second
            rw [content] at accepted
            dsimp only at accepted
            cases closing : hex2Bin last with
            | none =>
                rw [closing] at accepted
                cases accepted
            | some third =>
                obtain ⟨v, rest⟩ := third
                rw [closing] at accepted
                dsimp only at accepted
                have bound := hex2_lt closing
                split at accepted
                · cases accepted
                · next verified =>
                    rw [ne_eq, not_not] at verified
                    rw [Srec.record.injEq] at accepted
                    obtain ⟨rfl, rfl, rfl, rfl⟩ := accepted
                    have length_data := hex_bytes_length _ _ _ _ content
                    have byte : (UInt8.ofNat v).toNat = v := UInt8.toNat_ofNat_of_lt' bound
                    refine ⟨rfl, rfl, length_data, address, UInt8.ofNat v, rest,
                      hex_bytes_length _ _ _ _ field, rfl, ?_, ?_⟩
                    · rw [length_data]
                      refine hex_bytes_split.mpr ⟨address ++ bytes, [UInt8.ofNat v], last,
                        hex_bytes_split.mpr ⟨address, bytes, behind, field, content, rfl⟩, ?_, rfl⟩
                      rw [hex2_iff, byte]
                      exact closing
                    · rw [byte]
                      exact (complement_iff _ bound).mp verified
  · rintro ⟨rfl, rfl, length_data, address, checksum, rest, width, rfl, read, total⟩
    obtain ⟨front, closing, last, first, third, whole⟩ := hex_bytes_split.mp read
    obtain ⟨field, content, behind, taken, following, parts⟩ := hex_bytes_split.mp first
    have width_field := hex_bytes_length _ _ _ _ taken
    have width_content := hex_bytes_length _ _ _ _ following
    rw [parts, List.append_assoc, List.append_assoc] at whole
    obtain ⟨rfl, tail⟩ := List.append_inj whole (width.trans width_field.symm)
    obtain ⟨rfl, rfl⟩ := List.append_inj tail width_content.symm
    rw [hex2_iff] at third
    rw [length_data] at following
    dsimp only
    rw [taken]
    dsimp only
    rw [following]
    dsimp only
    rw [third]
    dsimp only
    rw [if_neg (not_not.mpr ((complement_iff _ (hex2_lt third)).mpr total))]
    rfl

theorem srec_decode_iff {line data : List UInt8} {type : SrecType} {count : Int} {addr : Nat} :
    srecDecode line = .record type count addr data ↔
      ∃ v text length address checksum rest, afterS line = v :: text ∧
        srecType v = some (type, address.length) ∧
        hexBytes (1 + address.length + data.length + 1) text =
          some (length :: (address ++ data) ++ [checksum], rest) ∧
        count = countOf type address.length length.toNat ∧ data.length = count.toNat ∧
        addr = addressValue address ∧
        (length.toNat + sum address + sum data + checksum.toNat) % 256 = 255 := by
  have grouped (a d : Nat) : 1 + a + d + 1 = 1 + (a + d + 1) := by omega
  unfold srecDecode
  constructor
  · intro accepted
    cases found : afterS line with
    | nil =>
        rw [found] at accepted
        cases accepted
    | cons v text =>
        rw [found] at accepted
        dsimp only at accepted
        cases first : hex2Bin text with
        | none =>
            rw [first] at accepted
            cases accepted
        | some pair =>
            obtain ⟨n, behind⟩ := pair
            rw [first] at accepted
            dsimp only at accepted
            cases kind : srecType v with
            | none =>
                rw [kind] at accepted
                cases accepted
            | some width =>
                obtain ⟨sort, addrLen⟩ := width
                rw [kind] at accepted
                obtain ⟨rfl, counted, length_data, address, checksum, rest, rfl, value, read,
                  total⟩ := decode_fields_iff.mp accepted
                have byte : (UInt8.ofNat n).toNat = n :=
                  UInt8.toNat_ofNat_of_lt' (hex2_lt first)
                refine ⟨v, text, UInt8.ofNat n, address, checksum, rest, rfl, kind, ?_, ?_,
                  length_data, value, ?_⟩
                · rw [grouped]
                  exact hex_bytes_cons.mpr ⟨behind, byte.symm ▸ first, read⟩
                · rw [byte]
                  exact counted
                · rw [byte]
                  exact total
  · rintro ⟨v, text, length, address, checksum, rest, found, kind, read, counted, length_data,
      value, total⟩
    rw [grouped] at read
    obtain ⟨behind, first, fields⟩ := hex_bytes_cons.mp read
    rw [found]
    dsimp only
    rw [first]
    dsimp only
    rw [kind]
    exact decode_fields_iff.mpr
      ⟨rfl, counted, length_data, address, checksum, rest, rfl, value, fields, total⟩

/-! ### The records -/

theorem sum_nil : sum [] = 0 := rfl

/-- Where the length covers the address and the checksum, the count is what is left for data. -/
theorem count_covered {type : SrecType} {addrLen length : Nat} {held : Nat}
    (covers : ¬ Uncovering type addrLen length) (counted : held = (countOf type addrLen length).toNat) :
    length = addrLen + held + 1 ∧ countOf type addrLen length = held ∧
      (type = .count → held = 0) := by
  unfold Uncovering at covers
  unfold countOf at counted ⊢
  split at counted
  · next sort =>
      rw [if_pos sort]
      refine ⟨?_, ?_, fun _ => counted⟩
      · have exact_length : length = addrLen + 1 := by
          by_contra differs
          exact covers (.inr ⟨sort, differs⟩)
        rw [counted]
        exact exact_length
      · rw [counted]
        rfl
  · next sort =>
      rw [if_neg sort]
      have : addrLen + 1 ≤ length := by
        by_contra less
        exact covers (.inl (by omega))
      exact ⟨by omega, by omega, fun same => absurd same sort⟩

theorem count_uncovered {type : SrecType} {addrLen length : Nat}
    (uncovering : Uncovering type addrLen length) : (countOf type addrLen length).toNat = 0 := by
  unfold countOf
  split
  · rfl
  · next sort =>
      rcases uncovering with short | ⟨same, -⟩
      · omega
      · exact absurd same sort

/-- A record is decoded to its address and its data. -/
theorem record_decoded {line address data : List UInt8} {type : SrecType}
    (record : IsRecord line type address data) :
    srecDecode line = .record type data.length (addressValue address) data := by
  obtain ⟨v, text, length, checksum, rest, found, kind, read, covers, total⟩ := record.written
  have counted : (data.length : Int) = countOf type address.length length.toNat := by
    unfold countOf
    split
    · next sort => rw [record.counted sort, List.length_nil]; rfl
    · omega
  exact srec_decode_iff.mpr ⟨v, text, length, address, checksum, rest, found, kind, read, counted,
    (Int.toNat_natCast _).symm, rfl, total⟩

/-- A line that is decoded has a record, or its length does not cover its fields. -/
theorem decoded_record {line data : List UInt8} {type : SrecType} {count : Int} {addr : Nat}
    (covered : ¬ Uncovered line) (decoded : srecDecode line = .record type count addr data) :
    count = data.length ∧ ∃ address, IsRecord line type address data ∧
      addr = addressValue address := by
  obtain ⟨v, text, length, address, checksum, rest, found, kind, read, counted, held, value,
    total⟩ := srec_decode_iff.mp decoded
  have covers : ¬ Uncovering type address.length length.toNat := by
    intro uncovering
    rw [counted, count_uncovered uncovering] at held
    have none_held := List.length_eq_zero_iff.mp held
    rw [none_held, List.append_nil, List.length_nil, Nat.add_zero] at read
    rw [none_held, sum_nil, Nat.add_zero] at total
    exact covered ⟨v, text, type, address.length, length, address, checksum, rest, found, kind,
      uncovering, rfl, read, total⟩
  rw [counted] at held
  obtain ⟨whole, same, alone⟩ := count_covered covers held
  exact ⟨counted.trans same, address, ⟨⟨v, text, length, checksum, rest, found, kind, read, whole,
    total⟩, fun sort => List.length_eq_zero_iff.mp (alone sort)⟩, value⟩

/-- A line with a length that covers too little is decoded all the same. -/
theorem uncovered_decoded {line : List UInt8} (uncovered : Uncovered line) :
    ∃ type count addr, srecDecode line = .record type count addr [] ∧
      ∀ address data, ¬ IsRecord line type address data := by
  obtain ⟨v, text, type, addrLen, length, address, checksum, rest, found, kind, uncovering, width,
    read, total⟩ := uncovered
  subst width
  refine ⟨type, _, _, srec_decode_iff.mpr ⟨v, text, length, address, checksum, rest, found, kind,
    ?_, rfl, (count_uncovered uncovering).symm, rfl, ?_⟩, ?_⟩
  · rw [List.append_nil]
    exact read
  · rw [sum_nil, Nat.add_zero]
    exact total
  · intro other data record
    obtain ⟨v', text', length', checksum', rest', found', kind', read', covers, -⟩ := record.written
    obtain ⟨rfl, rfl⟩ := List.cons_eq_cons.mp (found.symm.trans found')
    have widths : address.length = other.length :=
      (Prod.mk.inj (Option.some.inj (kind.symm.trans kind'))).2
    rw [Nat.add_assoc 1] at read
    rw [Nat.add_assoc, Nat.add_assoc] at read'
    obtain ⟨_, first, -⟩ := hex_bytes_cons.mp read
    obtain ⟨_, first', -⟩ := hex_bytes_cons.mp read'
    have lengths : length.toNat = length'.toNat :=
      (Prod.mk.inj (Option.some.inj (first.symm.trans first'))).1
    rw [lengths, widths] at uncovering
    rcases uncovering with short | ⟨sort, differs⟩
    · omega
    · rw [record.counted sort, List.length_nil] at covers
      exact differs covers

/-- What load_serial stores of a record stays within its count. -/
theorem stored_within {banks : List FlashInfo} {loader after : Loader} {storeAddr : Nat}
    {binlen : Int} {binbuf : Nat → UInt8} {i : Nat} (behind : toUlong binlen ≤ i)
    (inside : i < 2 ^ 32) (stored : storeData banks loader storeAddr binlen binbuf = some after) :
    after.memory ((storeAddr + i) % 2 ^ 32) = loader.memory ((storeAddr + i) % 2 ^ 32) := by
  unfold storeData at stored
  split at stored
  · dsimp only at stored
    split at stored
    · cases stored
    · rw [← Option.some.inj stored]
  · rw [← Option.some.inj stored]
    dsimp only
    rw [copy_at _ _ _ _ _ _ inside, if_neg (Nat.not_lt.mpr behind)]

theorem taken_within {banks : List FlashInfo} {offset : Nat} {loader after : Loader}
    {line data : List UInt8} {type : SrecType} {count : Int} {addr i : Nat}
    (decoded : srecDecode line = .record type count addr data) (behind : toUlong count ≤ i)
    (inside : i < 2 ^ 32) (taken : takeRecord banks offset loader line = .more after) :
    after.memory ((addr + offset + i) % 2 ^ 32) = loader.memory ((addr + offset + i) % 2 ^ 32) := by
  unfold takeRecord at taken
  rw [decoded] at taken
  cases type with
  | data2 | data3 | data4 =>
      dsimp only at taken
      cases stored : storeData banks loader ((addr + offset) % 2 ^ 32) count
          (fun i => data.getD i 0) with
      | none =>
          rw [stored] at taken
          cases taken
      | some next =>
          rw [stored] at taken
          have within' := stored_within behind inside stored
          rw [Nat.mod_add_mod] at within'
          cases taken
          exact within'
  | start | count =>
      cases taken
      rfl
  | end2 | end3 | end4 => cases taken

theorem srec_accepts_iff (line : List UInt8) : DecodesRecords line ↔ ¬ Uncovered line := by
  constructor
  · intro decodes uncovered
    obtain ⟨type, count, addr, decoded, foreign⟩ := uncovered_decoded uncovered
    obtain ⟨address, data, record⟩ := (decodes.accepts type).mp ⟨count, addr, [], decoded⟩
    exact foreign address data record
  · intro covered
    have lengths {type : SrecType} {count : Int} {addr : Nat} {data : List UInt8}
        (decoded : srecDecode line = .record type count addr data) :
        count = data.length ∧ toUlong count = data.length := by
      obtain ⟨same, address, record, -⟩ := decoded_record covered decoded
      obtain ⟨v, text, length, checksum, rest, -, -, -, covers, -⟩ := record.written
      have bound := length.toNat_lt
      refine ⟨same, ?_⟩
      rw [same]
      unfold toUlong
      omega
    refine ⟨fun type => ⟨?_, ?_⟩, ?_, ?_⟩
    · rintro ⟨count, addr, data, decoded⟩
      obtain ⟨-, address, record, -⟩ := decoded_record covered decoded
      exact ⟨address, data, record⟩
    · rintro ⟨address, data, record⟩
      exact ⟨_, _, data, record_decoded record⟩
    · intro type count addr data decoded
      obtain ⟨-, address, record, value⟩ := decoded_record covered decoded
      obtain ⟨same, copied⟩ := lengths decoded
      exact ⟨by omega, same, copied, address, record, value⟩
    · intro type count addr data decoded banks offset loader after taken i behind inside
      exact taken_within decoded ((lengths decoded).2.trans_le behind) inside taken

/-- A length of 2 does not cover the two bytes of the address and the checksum; load_serial then
copies 2^32 - 1 bytes to the address 0. -/
theorem short_length_accepted :
    srecDecode (ascii "S1020000FD") = .record .data2 (-1) 0 [] ∧
      toUlong (-1) = 2 ^ 32 - 1 ∧ ¬ DecodesRecords (ascii "S1020000FD") := by
  have decoded : srecDecode (ascii "S1020000FD") = .record .data2 (-1) 0 [] := by decide +kernel
  refine ⟨decoded, by decide, ?_⟩
  intro decodes
  have counted := (decodes.fields _ _ _ _ decoded).1
  omega

end UBoot.Load.SRecordGrammar
