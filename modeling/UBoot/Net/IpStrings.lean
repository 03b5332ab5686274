import UBoot.Lib.Numbers

/-!
ip_to_string and string_to_ip of net/net.c, with the pointers of simple_strtoul. A byte behind the NUL
of a string cannot be read.
-/

namespace UBoot.Net.IpStrings

open Lib.Strings Lib.Numbers

/-! ### Byte order -/

inductive Endian where
  | big
  | little

def swab32 (x : Nat) : Nat :=
  x % 2 ^ 8 * 2 ^ 24 + x / 2 ^ 8 % 2 ^ 8 * 2 ^ 16 + x / 2 ^ 16 % 2 ^ 8 * 2 ^ 8 + x / 2 ^ 24

/-- And ntohl. -/
def htonl (endian : Endian) (x : UInt32) : UInt32 :=
  match endian with
  | .big => x
  | .little => UInt32.ofNat (swab32 x.toNat)

theorem swab_octets {a b c d : Nat} (second : b < 256) (third : c < 256) (last : d < 256) :
    swab32 (a * 2 ^ 24 + b * 2 ^ 16 + c * 2 ^ 8 + d) =
      d * 2 ^ 24 + c * 2 ^ 16 + b * 2 ^ 8 + a := by
  unfold swab32
  omega

/-- The four bytes of an address. -/
theorem octets (x : UInt32) : ∃ a b c d, a < 256 ∧ b < 256 ∧ c < 256 ∧ d < 256 ∧
    x.toNat = a * 2 ^ 24 + b * 2 ^ 16 + c * 2 ^ 8 + d := by
  have bound := x.toNat_lt
  refine ⟨x.toNat / 2 ^ 24, x.toNat / 2 ^ 16 % 256, x.toNat / 2 ^ 8 % 256, x.toNat % 256, ?_⟩
  omega

theorem htonl_htonl (endian : Endian) (x : UInt32) : htonl endian (htonl endian x) = x := by
  cases endian with
  | big => rfl
  | little =>
      obtain ⟨a, b, c, d, first, second, third, last, parts⟩ := octets x
      have there := @swab_octets a b c d second third last
      have back := @swab_octets d c b a third second first
      rw [← parts] at there back
      have low : swab32 x.toNat < 2 ^ 32 := by omega
      have inner : (UInt32.ofNat (swab32 x.toNat)).toNat = swab32 x.toNat :=
        UInt32.toNat_ofNat_of_lt' low
      change UInt32.ofNat (swab32 (UInt32.ofNat (swab32 x.toNat)).toNat) = x
      rw [inner, there, back, UInt32.ofNat_toNat]

/-! ### Texts -/

/-- The byte of the address that `%d` prints, `shift` bits from the right. -/
def octet (x : UInt32) (shift : UInt32) : Nat := ((x >>> shift) &&& 0xff).toNat

def ipBytes (x : UInt32) : List UInt8 :=
  number 10 (octet x 24) ++ 46 :: (number 10 (octet x 16) ++ 46 ::
    (number 10 (octet x 8) ++ 46 :: number 10 (octet x 0)))

theorem number_terminated (n : Nat) : 0 ∉ number 10 n := by
  intro member
  obtain ⟨d, below, zero⟩ := @number_digits 10 (by decide) (by decide) n 0 member
  have digit := (digit_text d (by omega)).2.2.2 below
  rw [← zero] at digit
  exact absurd digit (by decide)

theorem ip_terminated (x : UInt32) : 0 ∉ ipBytes x := by
  simp [ipBytes, number_terminated]

def ipToString (endian : Endian) (x : UInt32) : CString :=
  ⟨ipBytes (htonl endian x), ip_terminated (htonl endian x)⟩

def byteAt (s : CString) (p : Nat) : Option UInt8 :=
  if p = s.bytes.length then some 0 else s.bytes[p]?

/-- The loop of simple_strtoul: the value, and where it ends. -/
def strtoulScan (s : CString) (base : Nat) : (fuel cp result : Nat) → Option (Nat × Nat)
  | 0, _, _ => none
  | fuel + 1, cp, result => do
      let c ← byteAt s cp
      if isxdigit c && digitValue c < base then
        strtoulScan s base fuel (cp + 1) ((result * base + digitValue c) % 2 ^ 32)
      else some (result, cp)

def strtoulAt (s : CString) (cp base : Nat) : Option (Nat × Nat) := do
  let fuel := s.bytes.length + 1
  let first ← byteAt s cp
  if first = 48 then
    let second ← byteAt s (cp + 1)
    let hex ← if second = 120 then (byteAt s (cp + 2)).map isxdigit else some false
    if hex then strtoulScan s 16 fuel (cp + 2) 0
    else strtoulScan s (if base = 0 then 8 else base) fuel (cp + 1) 0
  else strtoulScan s (if base = 0 then 10 else base) fuel cp 0

/-- What one round of string_to_ip reads. -/
structure Field where
  start : Nat
  stop : Nat
  val : Nat
  deriving DecidableEq

/-- The rounds that are left; they give the address and the fields that they have read. -/
def ipLoop (s : CString) : (count p : Nat) → UInt32 → Option (UInt32 × List Field)
  | 0, _, addr => some (addr, [])
  | count + 1, p, addr => do
      let (val, e) ← strtoulAt s p 10
      let addr := (addr <<< 8) ||| (UInt32.ofNat val &&& 0xff)
      let c ← byteAt s e
      let (result, fields) ← ipLoop s count (if c ≠ 0 then e + 1 else e) addr
      some (result, ⟨p, e, val⟩ :: fields)

def stringToIp (endian : Endian) : Option CString → Option (UInt32 × List Field)
  | none => some (0, [])
  | some s => (ipLoop s 4 0 0).map fun read => (htonl endian read.1, read.2)

/-! ### What is meant -/

/-- The digits of so many fields, each with a separator behind it. -/
def decimalFields : Nat → List UInt8 → List (List UInt8)
  | 0, _ => []
  | count + 1, text =>
      text.takeWhile isdigit :: decimalFields count ((text.dropWhile isdigit).drop 1)

def decimalValue (digits : List UInt8) : Nat :=
  digits.foldl (fun value digit => value * 10 + digitValue digit) 0

def address (fields : List (List UInt8)) : Nat :=
  fields.foldl (fun addr digits => addr * 256 + decimalValue digits % 256) 0

def Field.text (s : CString) (field : Field) : List UInt8 := (s.bytes.take field.stop).drop field.start

/-- string_to_ip reads four decimal fields and puts them together. -/
def Combines (endian : Endian) (s : CString) : Prop :=
  ∃ fields, stringToIp endian (some s) =
      some (htonl endian (UInt32.ofNat (address (decimalFields 4 s.bytes))), fields) ∧
    fields.map (Field.text s) = decimalFields 4 s.bytes

def HexPrefix (text : List UInt8) : Prop :=
  ∃ c rest, text = 48 :: 120 :: c :: rest ∧ isxdigit c = true

/-- None of so many fields begins with 0x and a digit. -/
def Plain : Nat → List UInt8 → Prop
  | 0, _ => True
  | count + 1, text => ¬ HexPrefix text ∧ Plain count ((text.dropWhile isdigit).drop 1)

/-! ### Numbers -/

section Numbers
variable {text rest : List UInt8}

theorem strtoul_octal (base : Nat) (other : ¬ HexPrefix (48 :: rest)) :
    simpleStrtoul (48 :: rest) base = strtoulLoop (if base = 0 then 8 else base) rest 0 := by
  unfold simpleStrtoul
  split
  · rename_i c more same
    obtain ⟨-, rfl⟩ := List.cons_eq_cons.mp same
    exact if_neg fun digit => other ⟨c, more, rfl, digit⟩
  · rename_i same
    rw [(List.cons_eq_cons.mp same).2]
  · rename_i first
    exact absurd rfl (first rest)

theorem strtoul_first (base : Nat) (rest : List UInt8) {c : UInt8} (other : c ≠ 48) :
    simpleStrtoul (c :: rest) base = strtoulLoop (if base = 0 then 10 else base) (c :: rest) 0 := by
  unfold simpleStrtoul
  split
  · rename_i same
    exact absurd (List.cons_eq_cons.mp same).1 other
  · rename_i same
    exact absurd (List.cons_eq_cons.mp same).1 other
  · rfl

theorem strtoul_loop_ten (text : List UInt8) (value : Nat) : strtoulLoop 10 text (value % 2 ^ 32) =
    ⟨(text.takeWhile isdigit).foldl (fun value digit => value * 10 + digitValue digit) value % 2 ^ 32,
      text.dropWhile isdigit⟩ := by
  induction text generalizing value with
  | nil => rfl
  | cons c rest ih =>
      rw [strtoulLoop, (digit_kinds c).1]
      by_cases digit : isdigit c = true
      · have wrapped : (value % 2 ^ 32 * 10 + digitValue c) % 2 ^ 32 =
            (value * 10 + digitValue c) % 2 ^ 32 := by
          omega
        rw [if_pos digit, wrapped, ih, List.takeWhile_cons_of_pos digit, List.foldl_cons,
          List.dropWhile_cons_of_pos digit]
      · rw [if_neg digit, List.takeWhile_cons_of_neg digit, List.dropWhile_cons_of_neg digit]
        rfl

theorem strtoul_ten (other : ¬ HexPrefix text) : simpleStrtoul text 10 =
    ⟨decimalValue (text.takeWhile isdigit) % 2 ^ 32, text.dropWhile isdigit⟩ := by
  have loop := strtoul_loop_ten text 0
  cases text with
  | nil => rfl
  | cons c rest =>
      by_cases zero : c = 48
      · subst zero
        have behind := strtoul_loop_ten rest 0
        rw [strtoul_octal 10 other]
        exact behind
      · rw [strtoul_first 10 rest zero]
        exact loop

end Numbers

/-! ### Pointers -/

section Pointers
variable {s : CString} {p : Nat}

theorem byte_at_drop (inside : p ≤ s.bytes.length) :
    byteAt s p = some ((s.bytes.drop p).headD 0) := by
  unfold byteAt
  split
  · rename_i ended
    simp [ended]
  · simp [List.headD_eq_head?_getD, List.head?_drop, show p < s.bytes.length by omega]

/-- At the NUL nothing is left, and nowhere else is the byte 0. -/
theorem byte_zero_iff (inside : p ≤ s.bytes.length) :
    (s.bytes.drop p).headD 0 = 0 ↔ p = s.bytes.length := by
  constructor
  · intro zero
    by_contra before
    have below : p < s.bytes.length := by omega
    rw [List.drop_eq_getElem_cons below, List.headD_cons] at zero
    exact s.terminated (zero ▸ List.getElem_mem below)
  · intro ended
    simp [ended]

theorem drop_cons {c : UInt8} {rest : List UInt8} (front : s.bytes.drop p = c :: rest) :
    p + 1 ≤ s.bytes.length ∧ s.bytes.drop (p + 1) = rest := by
  have length := congrArg List.length front
  rw [List.length_drop, List.length_cons] at length
  refine ⟨by omega, ?_⟩
  rw [← List.tail_drop, front, List.tail_cons]

/-- The pointers of the loop and the text behind them. -/
theorem scan_loop {base fuel result : Nat} (inside : p ≤ s.bytes.length)
    (enough : s.bytes.length < fuel + p) : ∃ e, p ≤ e ∧ e ≤ s.bytes.length ∧
      strtoulScan s base fuel p result =
        some ((strtoulLoop base (s.bytes.drop p) result).value, e) ∧
      s.bytes.drop e = (strtoulLoop base (s.bytes.drop p) result).rest := by
  induction fuel generalizing p result with
  | zero => omega
  | succ fuel ih =>
      rw [strtoulScan, byte_at_drop inside]
      cases front : s.bytes.drop p with
      | nil =>
          refine ⟨p, le_refl p, inside, ?_, front⟩
          rfl
      | cons c rest =>
          obtain ⟨below, behind⟩ := drop_cons front
          simp only [List.headD_cons, Option.bind_eq_bind, Option.bind_some, strtoulLoop]
          split
          · obtain ⟨e, after, before, scanned, left⟩ :=
              @ih (p + 1) ((result * base + digitValue c) % 2 ^ 32) below (by omega)
            rw [behind] at scanned left
            exact ⟨e, by omega, before, scanned, left⟩
          · exact ⟨p, le_refl p, inside, rfl, front⟩

/-- simple_strtoul ends at the NUL or in front of it. -/
theorem strtoul_at (base : Nat) (inside : p ≤ s.bytes.length) : ∃ e, p ≤ e ∧ e ≤ s.bytes.length ∧
    strtoulAt s p base = some ((simpleStrtoul (s.bytes.drop p) base).value, e) ∧
    s.bytes.drop e = (simpleStrtoul (s.bytes.drop p) base).rest ∧
    (HexPrefix (s.bytes.drop p) → p + 2 ≤ e) := by
  cases front : s.bytes.drop p with
  | nil =>
      have scanned := @scan_loop s p (if base = 0 then 10 else base) (s.bytes.length + 1) 0 inside
        (by omega)
      rw [front] at scanned
      obtain ⟨e, after, before, scanned, left⟩ := scanned
      refine ⟨e, after, before, ?_, left, fun ⟨_, _, same, _⟩ => nomatch same⟩
      rw [strtoulAt, byte_at_drop inside, front]
      exact scanned
  | cons c rest =>
      obtain ⟨below, behind⟩ := drop_cons front
      by_cases zero : c = 48
      · subst zero
        have second := @byte_at_drop s (p + 1) below
        rw [behind] at second
        by_cases hex : HexPrefix (48 :: rest)
        · obtain ⟨d, more, same, digit⟩ := hex
          obtain rfl := (List.cons_eq_cons.mp same).2
          obtain ⟨further, last⟩ := drop_cons behind
          have third := @byte_at_drop s (p + 1 + 1) further
          rw [last] at third
          obtain ⟨e, after, before, scanned, left⟩ :=
            @scan_loop s (p + 2) 16 (s.bytes.length + 1) 0 further (by omega)
          rw [last] at scanned left
          have read : simpleStrtoul (48 :: 120 :: d :: more) base = strtoulLoop 16 (d :: more) 0 :=
            if_pos digit
          refine ⟨e, by omega, before, ?_, by rw [read]; exact left, fun _ => by omega⟩
          rw [read, strtoulAt, byte_at_drop inside, front, second]
          simpa [third, digit] using scanned
        · have closed : rest.headD 0 = 120 → (byteAt s (p + 2)).map isxdigit = some false := by
            intro letter
            cases rest with
            | nil => exact absurd letter (by decide)
            | cons x more =>
                obtain rfl := letter
                obtain ⟨further, last⟩ := drop_cons behind
                rw [byte_at_drop further, last, Option.map_some]
                cases more with
                | nil => rfl
                | cons d more =>
                    have other : isxdigit d ≠ true := fun digit => hex ⟨d, more, rfl, digit⟩
                    simpa using other
          obtain ⟨e, after, before, scanned, left⟩ :=
            @scan_loop s (p + 1) (if base = 0 then 8 else base) (s.bytes.length + 1) 0 below (by omega)
          rw [behind] at scanned left
          have read := strtoul_octal base hex
          refine ⟨e, by omega, before, ?_, by rw [read]; exact left, fun both => absurd both hex⟩
          rw [read, strtoulAt, byte_at_drop inside, front, second]
          simp only [List.headD_cons, Option.bind_eq_bind, Option.bind_some, if_true]
          split
          · rename_i letter
            rw [closed letter]
            exact scanned
          · exact scanned
      · obtain ⟨e, after, before, scanned, left⟩ :=
          @scan_loop s p (if base = 0 then 10 else base) (s.bytes.length + 1) 0 inside (by omega)
        rw [front] at scanned left
        have read := strtoul_first base rest zero
        refine ⟨e, after, before, ?_, by rw [read]; exact left,
          fun ⟨_, _, same, _⟩ => absurd (List.cons_eq_cons.mp same).1 zero⟩
        rw [read, strtoulAt, byte_at_drop inside, front]
        simpa [zero] using scanned

end Pointers

/-! ### The fields -/

section Fields
variable {s : CString} {p : Nat}

/-- A byte joins the address. -/
theorem joined (a v : Nat) : (UInt32.ofNat a <<< 8) ||| (UInt32.ofNat (v % 2 ^ 32) &&& 0xff) =
    UInt32.ofNat (a * 256 + v % 256) := by
  have low : v % 2 ^ 32 % 2 ^ 8 = v % 256 := by omega
  have high : (a % 2 ^ 32) <<< 8 % 2 ^ 32 = 2 ^ 8 * (a % 2 ^ 24) := by
    rw [Nat.shiftLeft_eq]
    omega
  have bound : v % 256 < 2 ^ 8 := Nat.mod_lt v (by norm_num)
  apply UInt32.toNat_inj.mp
  have parts : ((UInt32.ofNat a <<< 8) ||| (UInt32.ofNat (v % 2 ^ 32) &&& 0xff)).toNat =
      (a % 2 ^ 32) <<< 8 % 2 ^ 32 ||| (v % 2 ^ 32 % 2 ^ 32 &&& 2 ^ 8 - 1) := rfl
  rw [parts, Nat.mod_mod, Nat.and_two_pow_sub_one_eq_mod, low, high,
    ← Nat.two_pow_add_eq_or_of_lt bound, UInt32.toNat_ofNat']
  omega

/-- One round. -/
theorem ip_loop_step (count : Nat) (addr : UInt32) (inside : p ≤ s.bytes.length) :
    ∃ e next, p ≤ e ∧ e ≤ s.bytes.length ∧ next ≤ s.bytes.length ∧
      s.bytes.drop e = (simpleStrtoul (s.bytes.drop p) 10).rest ∧
      s.bytes.drop next = (s.bytes.drop e).drop 1 ∧
      (HexPrefix (s.bytes.drop p) → p + 2 ≤ e) ∧
      ipLoop s (count + 1) p addr = (ipLoop s count next ((addr <<< 8) |||
        (UInt32.ofNat (simpleStrtoul (s.bytes.drop p) 10).value &&& 0xff))).map fun read =>
          (read.1, ⟨p, e, (simpleStrtoul (s.bytes.drop p) 10).value⟩ :: read.2) := by
  obtain ⟨e, after, before, parsed, left, hex⟩ := strtoul_at 10 inside
  have byte := byte_at_drop before
  have ended := byte_zero_iff before
  refine ⟨e, if (s.bytes.drop e).headD 0 ≠ 0 then e + 1 else e, after, before, ?_, left, ?_, hex, ?_⟩
  · split
    · rename_i inner
      have := mt ended.mpr inner
      omega
    · exact before
  · split
    · rw [List.drop_drop]
    · rename_i zero
      rw [ended.mp (not_not.mp zero)]
      simp
  · rw [ipLoop, parsed]
    simp only [Option.bind_eq_bind, Option.bind_some, byte]
    cases ipLoop s count _ _ with
    | none => rfl
    | some read => rfl

/-- string_to_ip reads nothing behind the NUL. -/
theorem ip_loop_reads (count : Nat) (addr : UInt32) (inside : p ≤ s.bytes.length) :
    ∃ read, ipLoop s count p addr = some read := by
  induction count generalizing p addr with
  | zero => exact ⟨_, rfl⟩
  | succ count ih =>
      obtain ⟨e, next, -, -, further, -, -, -, step⟩ := ip_loop_step count addr inside
      obtain ⟨read, loop⟩ := ih ((addr <<< 8) |||
        (UInt32.ofNat (simpleStrtoul (s.bytes.drop p) 10).value &&& 0xff)) further
      rw [step, loop]
      exact ⟨_, rfl⟩

/-- The text of a field that ends at `e`. -/
theorem text_drop {e : Nat} (val : Nat) (after : p ≤ e) : Field.text s ⟨p, e, val⟩ ++ s.bytes.drop e =
    s.bytes.drop p := by
  have rest : s.bytes.drop e = (s.bytes.drop p).drop (e - p) := by
    rw [List.drop_drop]
    congr 1
    omega
  rw [Field.text, List.drop_take, rest]
  exact List.take_append_drop ..

theorem ip_loop_plain {count : Nat} (a : Nat) (inside : p ≤ s.bytes.length)
    (plain : Plain count (s.bytes.drop p)) : ∃ fields, ipLoop s count p (UInt32.ofNat a) =
      some (UInt32.ofNat ((decimalFields count (s.bytes.drop p)).foldl
        (fun addr digits => addr * 256 + decimalValue digits % 256) a), fields) ∧
      fields.map (Field.text s) = decimalFields count (s.bytes.drop p) := by
  induction count generalizing p a with
  | zero => exact ⟨[], rfl, rfl⟩
  | succ count ih =>
      obtain ⟨decimal, others⟩ := plain
      obtain ⟨e, next, after, before, further, left, behind, -, step⟩ :=
        ip_loop_step count (UInt32.ofNat a) inside
      rw [strtoul_ten decimal] at step left
      have first := @text_drop s p e (decimalValue ((s.bytes.drop p).takeWhile isdigit) % 2 ^ 32) after
      rw [left] at behind first
      rw [← behind] at others
      obtain ⟨fields, loop, texts⟩ := ih (a * 256 +
        decimalValue ((s.bytes.drop p).takeWhile isdigit) % 256) further others
      rw [behind] at loop texts
      rw [joined, loop] at step
      refine ⟨_, step, ?_⟩
      rw [List.map_cons, texts, decimalFields]
      congr 1
      apply List.append_cancel_right (first.trans _)
      exact (List.takeWhile_append_dropWhile ..).symm

/-- A field in hexadecimal is not one of digits. -/
theorem ip_loop_hex {count : Nat} {addr : UInt32} {read : UInt32 × List Field}
    (inside : p ≤ s.bytes.length) (hex : ¬ Plain count (s.bytes.drop p))
    (loop : ipLoop s count p addr = some read) :
    read.2.map (Field.text s) ≠ decimalFields count (s.bytes.drop p) := by
  induction count generalizing p addr read with
  | zero => exact absurd trivial hex
  | succ count ih =>
      obtain ⟨e, next, after, before, further, left, behind, prefixed, step⟩ :=
        ip_loop_step count addr inside
      rw [step, Option.map_eq_some_iff] at loop
      obtain ⟨later, loop, rfl⟩ := loop
      intro same
      rw [List.map_cons, decimalFields] at same
      obtain ⟨first, rest⟩ := List.cons_eq_cons.mp same
      by_cases decimal : HexPrefix (s.bytes.drop p)
      · have two := prefixed decimal
        obtain ⟨c, more, front, -⟩ := decimal
        have length := congrArg List.length first
        rw [front] at length
        rw [Field.text, List.length_drop, List.length_take] at length
        simp [isdigit] at length
        omega
      · rw [strtoul_ten decimal] at left
        rw [left] at behind
        rw [← behind] at rest
        apply ih further _ loop rest
        intro others
        rw [behind] at others
        exact hex ⟨decimal, others⟩

end Fields

/-! ### Both directions -/

theorem number_isdigit (n : Nat) : ∀ c ∈ number 10 n, isdigit c = true := by
  intro c member
  obtain ⟨d, below, rfl⟩ := @number_digits 10 (by decide) (by decide) n c member
  exact (digit_text d (by omega)).2.2.2 below

theorem decimal_value_number (n : Nat) : decimalValue (number 10 n) = n := by
  induction n using Nat.strong_induction_on with
  | _ n ih =>
      have last : digitValue (digitText (n % 10)) = n % 10 := (digit_text (n % 10) (by omega)).2.1
      have step (front : List UInt8) : decimalValue (front ++ [digitText (n % 10)]) =
          decimalValue front * 10 + n % 10 := by
        rw [decimalValue, List.foldl_append, List.foldl_cons, List.foldl_nil, last]
        rfl
      rw [number_eq (by decide), step]
      split
      · rename_i digit
        rw [Nat.mod_eq_of_lt digit]
        exact Nat.zero_add n
      · rename_i large
        rw [ih (n / 10) (by omega)]
        omega

/-- An x stands behind the digits. -/
theorem hex_prefix_behind {text : List UInt8} (hex : HexPrefix text) :
    (text.dropWhile isdigit).head? = some 120 := by
  obtain ⟨c, rest, rfl, -⟩ := hex
  rfl

theorem number_front (n : Nat) {tail : List UInt8} (ends : ∀ c ∈ tail.head?, c = 46) :
    (number 10 n ++ tail).takeWhile isdigit = number 10 n ∧
      (number 10 n ++ tail).dropWhile isdigit = tail ∧ ¬ HexPrefix (number 10 n ++ tail) := by
  have dropped : (number 10 n ++ tail).dropWhile isdigit = tail := by
    rw [List.dropWhile_append_of_pos (number_isdigit n)]
    cases tail with
    | nil => rfl
    | cons c rest =>
        obtain rfl := ends c rfl
        rfl
  refine ⟨?_, dropped, ?_⟩
  · rw [List.takeWhile_append_of_pos (number_isdigit n)]
    cases tail with
    | nil => exact List.append_nil _
    | cons c rest =>
        obtain rfl := ends c rfl
        exact List.append_nil _
  · intro hex
    have letter := hex_prefix_behind hex
    rw [dropped] at letter
    exact absurd (ends 120 letter) (by decide)

/-- A number, its dot and what is behind. -/
theorem number_fields (n count : Nat) (rest : List UInt8) :
    decimalFields (count + 1) (number 10 n ++ 46 :: rest) = number 10 n :: decimalFields count rest ∧
      (Plain count rest → Plain (count + 1) (number 10 n ++ 46 :: rest)) := by
  obtain ⟨taken, dropped, decimal⟩ :=
    @number_front n (46 :: rest) fun c same => (Option.some.inj same).symm
  rw [decimalFields, taken, dropped]
  refine ⟨rfl, fun others => ⟨decimal, ?_⟩⟩
  rw [dropped]
  exact others

theorem number_last (n : Nat) : decimalFields 1 (number 10 n) = [number 10 n] ∧ Plain 1 (number 10 n) := by
  obtain ⟨taken, -, decimal⟩ := @number_front n [] fun _ none => nomatch none
  rw [List.append_nil] at taken decimal
  refine ⟨?_, decimal, trivial⟩
  rw [decimalFields, taken]
  rfl

theorem ip_fields (x : UInt32) : decimalFields 4 (ipBytes x) = [number 10 (octet x 24),
    number 10 (octet x 16), number 10 (octet x 8), number 10 (octet x 0)] ∧ Plain 4 (ipBytes x) := by
  obtain ⟨last, plain⟩ := number_last (octet x 0)
  obtain ⟨third, plain_third⟩ := number_fields (octet x 8) 1 (number 10 (octet x 0))
  obtain ⟨second, plain_second⟩ := number_fields (octet x 16) 2
    (number 10 (octet x 8) ++ 46 :: number 10 (octet x 0))
  obtain ⟨first, plain_first⟩ := number_fields (octet x 24) 3
    (number 10 (octet x 16) ++ 46 :: (number 10 (octet x 8) ++ 46 :: number 10 (octet x 0)))
  rw [ipBytes]
  refine ⟨?_, plain_first (plain_second (plain_third plain))⟩
  rw [first, second, third, last]

theorem octets_address (x : UInt32) : address [number 10 (octet x 24), number 10 (octet x 16),
    number 10 (octet x 8), number 10 (octet x 0)] = x.toNat := by
  have bound := x.toNat_lt
  have byte {shift : UInt32} {k : Nat} (value : shift.toNat = k) (small : k < 32) :
      octet x shift = x.toNat / 2 ^ k % 256 := by
    rw [octet, UInt32.toNat_and, UInt32.toNat_shiftRight, value, Nat.mod_eq_of_lt small,
      Nat.shiftRight_eq_div_pow]
    exact Nat.and_two_pow_sub_one_eq_mod _ 8
  have first := @byte 24 24 rfl (by decide)
  have second := @byte 16 16 rfl (by decide)
  have third := @byte 8 8 rfl (by decide)
  have last := @byte 0 0 rfl (by decide)
  simp only [address, List.foldl_cons, List.foldl_nil, decimal_value_number, first, second, third, last]
  omega

theorem string_to_ip_plain (endian : Endian) {s : CString} (plain : Plain 4 s.bytes) :
    Combines endian s := by
  have front : s.bytes.drop 0 = s.bytes := rfl
  obtain ⟨fields, loop, texts⟩ := @ip_loop_plain s 0 4 0 (Nat.zero_le _) (front ▸ plain)
  rw [front] at loop texts
  refine ⟨fields, ?_, texts⟩
  have start : ipLoop s 4 0 0 = _ := loop
  rw [stringToIp, start]
  rfl

/-- The address comes back from its string; no string is read behind its NUL; and its fields are those of
decimal numbers if and only if none begins with 0x. -/
theorem string_to_ip_decimal_iff (endian : Endian) :
    (∀ x, (stringToIp endian (some (ipToString endian x))).map Prod.fst = some x) ∧
      (∀ s, (stringToIp endian s).isSome = true) ∧
      ∀ s, Combines endian s ↔ Plain 4 s.bytes := by
  refine ⟨?_, ?_, ?_⟩
  · intro x
    obtain ⟨fields, plain⟩ := ip_fields (htonl endian x)
    obtain ⟨read, combined, -⟩ := @string_to_ip_plain endian (ipToString endian x) plain
    have bytes : (ipToString endian x).bytes = ipBytes (htonl endian x) := rfl
    rw [combined, bytes, fields, octets_address, UInt32.ofNat_toNat, Option.map_some, htonl_htonl]
  · intro s
    cases s with
    | none => rfl
    | some s =>
        obtain ⟨read, loop⟩ := @ip_loop_reads s 0 4 0 (Nat.zero_le _)
        rw [stringToIp, loop]
        rfl
  · intro s
    constructor
    · rintro ⟨fields, combined, texts⟩
      by_contra hex
      rw [stringToIp, Option.map_eq_some_iff] at combined
      obtain ⟨read, loop, same⟩ := combined
      apply @ip_loop_hex s 0 4 0 read (Nat.zero_le _) hex loop
      rw [(Prod.ext_iff.mp same).2]
      exact texts
    · exact string_to_ip_plain endian

/-- 0x10.2.3.4 -/
def hexAddress : CString := ⟨ascii "0x10.2.3.4", by decide⟩

/-- It is read as 16.2.3.4. -/
theorem hex_not_combined :
    (stringToIp .big (some hexAddress)).map Prod.fst = some 0x10020304 ∧ ¬ Combines .big hexAddress := by
  have read : stringToIp .big (some hexAddress) =
      some (0x10020304, [⟨0, 4, 16⟩, ⟨5, 6, 2⟩, ⟨7, 8, 3⟩, ⟨9, 10, 4⟩]) := by
    decide +kernel
  refine ⟨by rw [read]; rfl, ?_⟩
  rintro ⟨fields, combined, -⟩
  rw [read] at combined
  have other : htonl .big (UInt32.ofNat (address (decimalFields 4 hexAddress.bytes))) ≠ 0x10020304 := by
    decide +kernel
  exact other (Prod.ext_iff.mp (Option.some.inj combined)).1.symm

end UBoot.Net.IpStrings
